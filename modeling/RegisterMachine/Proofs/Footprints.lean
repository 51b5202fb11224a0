import RegisterMachine.Proofs.Composition

/-!
# What an instruction can change

Every operation changes only a few parts of the machine besides its pointer: the memory, the stack,
the flag, one register, or whether the machine is running. The parts that it may change are its
*footprint*. It depends on the opcode alone, except that a register is the one named by the first
operand. Whatever lies outside the footprint of the opcode under the pointer is the same after the
cycle, also if the cycle ends early.

## Main definitions

* `Part.Same` — two machines that agree in a part.
* `Action.part?` — the part that an action may change.
* `State.firstOperand`, `State.footprint` — the byte behind the opcode under the pointer, and the
  parts that the next cycle may change.

## Main results

* `Action.same_run` — an action changes one part at most.
* `machine_of_fetchInstruction` — reading the operands changes the pointer alone.
* `same_cycle` — what lies outside the footprint is the same after a cycle.
-/

namespace RegisterMachine

open Effect Exec

/-! ## Parts of the machine -/

/-- Two machines agree in a part. -/
def Part.Same (m m' : Machine) : Part → Prop
  | ram => m'.ram = m.ram
  | stack => m'.sp = m.sp ∧ m'.stack = m.stack
  | zero => m'.zero = m.zero
  | register r => m'.registers[r]? = m.registers[r]?
  | running => m'.running = m.running
  | size => m'.size = m.size

lemma Part.same_refl (p : Part) (m : Machine) : p.Same m m := by
  cases p with
  | stack => exact ⟨rfl, rfl⟩
  | ram | zero | register | running | size => rfl

lemma Part.Same.trans {p : Part} {m₁ m₂ m₃ : Machine} (h : p.Same m₁ m₂) (h' : p.Same m₂ m₃) :
    p.Same m₁ m₃ := by
  cases p with
  | stack => exact ⟨h'.1.trans h.1, h'.2.trans h.2⟩
  | ram | zero | register | running | size => exact Eq.trans h' h

/-- No part of the machine depends on its pointer. -/
lemma same_ip (p : Part) (m : Machine) (ip : UInt32) : p.Same m { m with ip } := by
  cases p with
  | stack => exact ⟨rfl, rfl⟩
  | ram | zero | register | running | size => rfl

/-! ## Actions -/

/-- The part of the machine that an action may change. -/
def Action.part? {α : Type} : Action α → Option Part
  | .setRegister r _ => some (.register r.toNat)
  | .setZero _ => some .zero
  | .stop => some .running
  | .setByteAt _ _ | .copyBlock _ _ _ => some .ram
  | .setStackPointer _ | .setSlot _ _ => some .stack
  | _ => none

section Actions

variable {α : Type} {p : Part}

/-- **An action changes one part of the machine at most**, besides the pointer. -/
theorem Action.same_run (a : Action α) (c : Config) (s : State) (hp : a.part? ≠ some p) :
    p.Same s.machine (reached (a.run c s)).machine := by
  rw [a.run_apply]
  cases a with
  | register | slot | allot | report =>
    rw [Action.outcome]
    split <;> exact p.same_refl _
  | jump | advance => exact same_ip p _ _
  | command =>
    rw [Action.outcome]
    split
    · exact p.same_refl _
    · exact same_ip p _ _
  | setRegister r v =>
    rw [Action.outcome]
    split
    case isFalse => exact p.same_refl _
    case isTrue hr =>
      cases p with
      | register r' => exact Vector.getElem?_set_ne hr fun hrr => hp (by rw [← hrr]; rfl)
      | stack => exact ⟨rfl, rfl⟩
      | ram | zero | running | size => rfl
  | setZero z =>
    cases p with
    | zero => exact absurd rfl hp
    | stack => exact ⟨rfl, rfl⟩
    | ram | register | running | size => rfl
  | stop =>
    cases p with
    | running => exact absurd rfl hp
    | stack => exact ⟨rfl, rfl⟩
    | ram | zero | register | size => rfl
  | setByteAt place b =>
    -- the byte behind the memory is part of nothing
    cases p with
    | ram => exact absurd rfl hp
    | stack => cases place <;> exact ⟨rfl, rfl⟩
    | zero | register | running | size => cases place <;> rfl
  | copyBlock =>
    cases p with
    | ram => exact absurd rfl hp
    | stack => exact ⟨rfl, rfl⟩
    | zero | register | running | size => rfl
  | setStackPointer i =>
    cases p with
    | stack => exact absurd rfl hp
    | ram | zero | register | running | size => rfl
  | setSlot i n =>
    rw [Action.outcome]
    cases hslot : s.machine.setSlot? i n with
    | none => exact p.same_refl _
    | some m =>
      rw [eq_of_setSlot? hslot]
      cases p with
      | stack => exact absurd rfl hp
      | ram | zero | register | running | size => rfl
  | _ => exact p.same_refl _

/-- What no action of a program may change is the same after it. -/
lemma Composed.same_run {may : Permit} {c : Config} {x : Config → Exec α} {s : State}
    (hx : Composed may c x s)
    (h : ∀ {β : Type} {t : State} {a : Action β}, may β t a → a.part? ≠ some p) :
    p.Same s.machine (reached (x c s)).machine :=
  hx.reached_of (fun t => p.Same s.machine t.machine)
    (fun t a ha hs => hs.trans (a.same_run c t (h ha))) (p.same_refl _)

/-- The part that an action of an instruction changes is in the footprint. -/
lemma Instruction.Does.mem_footprint {i : Instruction} {c : Config} {m : Machine} {s : State}
    {a : Action α} (ha : i.Does c m α s a) (hp : a.part? = some p) : p ∈ i.footprint := by
  cases a with
  | setZero | stop | copyBlock | setStackPointer =>
    cases hp
    exact ha
  | setByteAt | setSlot =>
    cases hp
    exact ha.1
  | setRegister =>
    cases hp
    exact ha.2
  | _ => cases hp

lemma Reads.part?_eq_none {s : State} {a : Action α} (ha : Reads α s a) : a.part? = none := by
  cases a with
  | setZero | stop | copyBlock | setStackPointer | setByteAt | setSlot | setRegister => exact ha.elim
  | _ => rfl

end Actions

/-- **Reading the operands changes the pointer alone.** -/
theorem machine_of_fetchInstruction {c : Config} {op : Opcode} {s s' : State} {i : Instruction}
    (h : fetchInstruction c op s = .ok i s') :
    s'.machine = { s.machine with ip := s'.machine.ip } := by
  have hreached := (composed_fetchInstruction c op s).reached_of
    (fun t => t.machine = { s.machine with ip := t.machine.ip }) ?_ rfl
  · rwa [h] at hreached
  intro α t a ha ht
  rw [a.run_apply]
  cases a with
  | pointer | memory | explain => exact ht
  | jump p => exact congrArg (fun m : Machine => { m with ip := p }) ht
  | report =>
    rw [Action.outcome]
    split <;> exact ht
  | _ => exact ha.elim

/-! ## Cycles -/

lemma onRing_add (n k : Nat) :
    Address.onRing ((Address.onRing n).val + k) = Address.onRing (n + k) :=
  Fin.ext (Nat.mod_add_mod n ramSize k)

/-- Behind an address comes the next one on the ring. -/
lemma ofPointer_toPointer_succ (a : Address) :
    Address.ofPointer (a.toPointer + 1) = Address.onRing (a.val + 1) := by
  have ha : a.val < 0xFFFF := a.isLt
  have hpointer : a.toPointer + 1 = UInt32.ofNat (a.val + 1) := ofNat_add_one a.val
  rw [hpointer]
  by_cases hnext : a.val + 1 < 0xFFFF
  · rw [ofPointer_ofNat hnext]
    exact Fin.ext (Nat.mod_eq_of_lt hnext).symm
  · have hlast : a.val + 1 = 0xFFFF := by omega
    rw [hlast]
    decide

/-- The byte behind the opcode under the pointer. -/
def State.firstOperand (s : State) : UInt8 :=
  s.machine.ram[Address.onRing ((Address.ofPointer s.machine.ip).val + 1)]

/-- The parts of the machine that the next cycle may change: none if the opcode under the pointer
has no meaning. -/
def State.footprint (s : State) : List Part :=
  match Opcode.ofByte? s.opcode with
  | some op => op.footprint s.firstOperand.toNat
  | none => []

lemma State.exists_of_mem_footprint {s : State} {p : Part} (hp : p ∈ s.footprint) :
    ∃ op : Opcode, s.opcode = op.toByte ∧ p ∈ op.footprint s.firstOperand.toNat := by
  rw [State.footprint] at hp
  cases hop : Opcode.ofByte? s.opcode with
  | none =>
    rw [hop] at hp
    exact absurd hp (by simp)
  | some op =>
    rw [hop] at hp
    exact ⟨op, Opcode.ofByte?_eq_some_iff.1 hop, hp⟩

/-- The byte behind an address is read on the ring. -/
lemma fetchByte_seek (s : State) (a : Address) :
    fetchByte (s.seek a.val) = .ok s.machine.ram[Address.onRing (a.val + 1)]
      (s.seek (Address.onRing (a.val + 1)).val) := by
  simp only [← ofPointer_toPointer_succ]
  rfl

/-- The first register operand that is read is the byte behind the opcode. -/
lemma eq_firstOperand_of_fetchRegister {c : Config} {s s' : State} {r : UInt8}
    (h : fetchRegister c (s.begun c) = .ok r s') : r = s.firstOperand := by
  obtain ⟨b, _, hbyte, hcheck⟩ := of_bind_ok h
  obtain ⟨_, _, -, hlast⟩ := of_bind_ok hcheck
  have hfirst := fetchByte_seek (s.begun c) (Address.ofPointer s.machine.ip)
  rw [seek_begun] at hfirst
  cases hlast
  cases hbyte.symm.trans hfirst
  rw [machine_begun]
  rfl

/-- The instruction that is read at the pointer has the footprint of the opcode there.

**Proof sketch.** An operation on registers reads the byte behind its opcode first, and the
footprint of any other operation does not depend on an operand. -/
lemma footprint_of_fetchInstruction {c : Config} {op : Opcode} {s s' : State} {i : Instruction}
    (h : fetchInstruction c op (s.begun c) = .ok i s') :
    i.footprint = op.footprint s.firstOperand.toNat := by
  rw [Instruction.footprint, opcode_of_fetchInstruction h]
  have hregister {r : UInt8} {s₁ : State} (hr : fetchRegister c (s.begun c) = .ok r s₁)
      (hi : i.firstRegister = r) :
      op.footprint i.firstRegister.toNat = op.footprint s.firstOperand.toNat := by
    rw [hi, eq_firstOperand_of_fetchRegister hr]
  cases op with
  | plain op => cases op with
    | exit | nop | ret => rfl
  | branch op => cases op with
    | jump | jumpZero | jumpNonzero | call => rfl
  | unary op =>
    obtain ⟨r, _, hr, hlast⟩ := of_bind_ok h
    cases hlast
    exact hregister hr rfl
  | binary op | immediate op | literal op =>
    obtain ⟨r, _, hr, hrest⟩ := of_bind_ok h
    obtain ⟨_, _, -, hlast⟩ := of_bind_ok hrest
    cases hlast
    exact hregister hr rfl
  | ternary op =>
    obtain ⟨r, _, hr, hrest⟩ := of_bind_ok h
    cases hsources : op.checksSources with
    | true | false =>
      rw [hsources] at hrest
      obtain ⟨_, _, -, hrest⟩ := of_bind_ok hrest
      obtain ⟨_, _, -, hlast⟩ := of_bind_ok hrest
      cases hlast
      exact hregister hr rfl

/-- **A cycle changes nothing outside the footprint of the opcode under the pointer**, but the
pointer itself, also if it ends early.

**Proof sketch.** Reading the code changes no part of the machine, and each action of the instruction
one of the footprint at most. -/
theorem same_cycle (c : Config) {s : State} {p : Part} (hp : p ∉ s.footprint) :
    p.Same s.machine (reached (cycle Table.builtin c s)).machine := by
  refine (composed_cycle c s).same_run fun ha hpart => ?_
  cases ha with
  | reads h => exact absurd (h.part?_eq_none.symm.trans hpart) nofun
  | @does _ _ _ _ i hop hfetch h =>
    apply hp
    rw [State.footprint, hop]
    change p ∈ i.opcode.footprint s.firstOperand.toNat
    rw [← footprint_of_fetchInstruction hfetch]
    exact h.mem_footprint hpart
  | announces | skips => cases hpart

end RegisterMachine
