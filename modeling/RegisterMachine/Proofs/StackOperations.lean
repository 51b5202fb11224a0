import RegisterMachine.Proofs.Operands

/-!
# The stack, operation by operation

Four operations use the stack. Two push a number and two pop one. A push writes the slot above the
stack pointer and no other; where that slot is the one behind the last, the write moves the pointer
instead. A pop writes no slot at all: what was popped stays there until it is written again.

## Main definitions

* `Pushed`, `Popped` — a machine before and after a number is pushed or popped.
* `State.returnAddress` — the pointer that a call at the pointer pushes.

## Main results

* `pushed_of_cycle_push`, `pushed_of_cycle_call`, `popped_of_cycle_pop`, `popped_of_cycle_ret` —
  what a cycle with one of the four operations does to the stack.
* `stack_cycle` — every cycle pushes one number, pops one, or leaves the stack as it is.
-/

namespace RegisterMachine

open Effect Exec

/-- A machine before and after a number is pushed. -/
structure Pushed (n : Int32) (m m' : Machine) : Prop where
  /-- No slot is written but the one above the stack pointer. -/
  slots : ∀ j : Nat, (j : Int) ≠ m.sp + 1 → m'.stack[j]? = m.stack[j]?
  /-- Where that is a slot, the stack pointer moves up to it. -/
  sp : m.sp + 1 < stackSize → m'.sp = m.sp + 1
  /-- Where that is a slot, it holds the number. -/
  top : m.sp + 1 < stackSize → m'.slot? (m.sp + 1) = some n

/-- A machine before and after a number is popped. -/
structure Popped (n : Int32) (m m' : Machine) : Prop where
  /-- The number was in the slot at the stack pointer. -/
  top : m.slot? m.sp = some n
  /-- The stack pointer moves down. -/
  sp : m'.sp = m.sp - 1
  /-- No slot is written. -/
  slots : m'.stack = m.stack

section Congruence

variable {n : Int32} {m₁ m₂ m₃ m₄ : Machine}

lemma slot?_congr (h : Part.stack.Same m₁ m₂) (i : Int) : m₂.slot? i = m₁.slot? i := by
  rw [Machine.slot?, Machine.slot?, h.1, h.2]

/-- Nothing but the stack counts for a push. -/
lemma Pushed.congr (h : Pushed n m₂ m₃) (hbefore : Part.stack.Same m₁ m₂)
    (hafter : Part.stack.Same m₃ m₄) : Pushed n m₁ m₄ where
  slots j hj := by
    rw [hafter.2, h.slots j (by rwa [hbefore.1]), hbefore.2]
  sp hroom := by
    rw [hafter.1, h.sp (by rwa [hbefore.1]), hbefore.1]
  top hroom := by
    rw [slot?_congr hafter, ← hbefore.1, h.top (by rwa [hbefore.1])]

/-- Nothing but the stack counts for a pop. -/
lemma Popped.congr (h : Popped n m₂ m₃) (hbefore : Part.stack.Same m₁ m₂)
    (hafter : Part.stack.Same m₃ m₄) : Popped n m₁ m₄ where
  top := by rw [← hbefore.1, ← slot?_congr hbefore, h.top]
  sp := by rw [hafter.1, h.sp, hbefore.1]
  slots := by rw [hafter.2, h.slots, hbefore.2]

end Congruence

/-! ## Pushes and pops -/

/-- Writing the slot to which the stack pointer has moved up is a push. -/
lemma pushed_of_setSlot? {m m' : Machine} {n : Int32}
    (h : { m with sp := m.sp + 1 }.setSlot? (m.sp + 1) n = some m') : Pushed n m m' := by
  unfold Machine.setSlot? at h
  split at h
  case isFalse => exact absurd h (by simp)
  case isTrue hpos =>
    split at h
    case isTrue hslot =>
      cases h
      refine ⟨fun j hj => ?_, fun _ => rfl, fun _ => ?_⟩
      · exact Vector.getElem?_set_ne hslot (by omega)
      · simp [Machine.slot?, hpos, hslot]
    case isFalse hslot =>
      split at h
      case isTrue =>
        cases h
        exact ⟨fun _ _ => rfl, fun hroom => by omega, fun hroom => by omega⟩
      case isFalse => exact absurd h (by simp)

lemma pushed_of_push {c : Config} {n : Int32} {s s' : State} (h : push c n s = .ok () s') :
    Pushed n s.machine s'.machine := by
  obtain ⟨i, s₁, hpointer, h⟩ := of_bind_ok h
  cases hpointer
  obtain ⟨_, s₁, hmove, h⟩ := of_bind_ok h
  cases hmove
  obtain ⟨_, s₂, hset, h⟩ := of_bind_ok h
  have hpushed : Pushed n s.machine s₂.machine := pushed_of_setSlot? (of_setSlot hset)
  -- The check that comes last does not change the machine.
  split at h
  · rw [(of_report h).2]
    exact hpushed
  · cases h
    exact hpushed

/-- What a call pushes is the pointer behind the byte that was read last. -/
lemma pushed_of_pushReturn {c : Config} {s s' : State} (h : pushReturn c s = .ok () s') :
    Pushed (s.machine.ip + 1).toInt32 s.machine s'.machine := by
  obtain ⟨i, s₁, hpointer, h⟩ := of_bind_ok h
  cases hpointer
  obtain ⟨_, s₁, hmove, h⟩ := of_bind_ok h
  cases hmove
  apply pushed_of_setSlot?
  split at h
  · obtain ⟨_, s₂, hreport, h⟩ := of_bind_ok h
    obtain ⟨p, s₃, hpointer, h⟩ := of_bind_ok h
    cases hpointer
    have hset := of_setSlot h
    rw [(of_report hreport).2] at hset
    exact hset
  · obtain ⟨p, s₃, hpointer, h⟩ := of_bind_ok h
    cases hpointer
    exact of_setSlot h

lemma popped_of_pop {c : Config} {n : Int32} {s s' : State} (h : pop c s = .ok n s') :
    Popped n s.machine s'.machine := by
  have htop := of_pop h
  obtain ⟨i, s₁, hpointer, h⟩ := of_bind_ok h
  cases hpointer
  have hrest {s₂ : State} (hmachine : s₂.machine = s.machine)
      (h : (slot s.machine.sp >>= fun n => setStackPointer (s.machine.sp - 1) >>= fun _ => pure n) s₂ =
        .ok n s') : Popped n s.machine s'.machine := by
    obtain ⟨k, s₃, hslot, hlast⟩ := of_bind_ok h
    obtain ⟨rfl, -⟩ := of_slot hslot
    obtain ⟨_, s₄, hmove, hlast⟩ := of_bind_ok hlast
    cases hmove
    cases hlast
    have hslots : s₃.machine.stack = s.machine.stack := congrArg Machine.stack hmachine
    exact ⟨htop, rfl, hslots⟩
  split at h
  · obtain ⟨_, s₂, hreport, h⟩ := of_bind_ok h
    exact hrest (of_report hreport).2 h
  · exact hrest rfl h

/-! ## Cycles -/

/-- A cycle that gives a result has read an instruction and carried it out. -/
lemma execute_of_cycle {c : Config} {op : Opcode} {s s' : State} {a : UInt8 × Bool}
    (h : cycle Table.builtin c s = .ok a s') (hop : s.opcode = op.toByte) :
    ∃ i s₁, fetchInstruction c op (s.begun c) = .ok i s₁ ∧
      execute c i (s₁.told c (.decoded i)) = .ok () s' := by
  rw [cycle_apply, Table.builtin, hop, Opcode.ofByte?_toByte] at h
  obtain ⟨_, s₂, hhandler, hlast⟩ := of_bind_ok h
  cases hlast
  obtain ⟨i, s₁, hfetch, hrest⟩ := of_bind_ok hhandler
  obtain ⟨_, s₂, hexplain, hexecute⟩ := of_bind_ok hrest
  rw [explain_apply] at hexplain
  cases hexplain
  exact ⟨i, s₁, hfetch, hexecute⟩

/-- An instruction that is read finds the stack as it is. -/
lemma same_stack_of_fetchInstruction {c : Config} {op : Opcode} {s s' : State} {i : Instruction}
    (h : fetchInstruction c op (s.begun c) = .ok i s') :
    Part.stack.Same s.machine (s'.told c (.decoded i)).machine := by
  rw [machine_told, machine_of_fetchInstruction h, machine_begun]
  exact ⟨rfl, rfl⟩

section Cycles

variable {c : Config} {s s' : State} {a : UInt8 × Bool} (h : cycle Table.builtin c s = .ok a s')

include h

lemma pushed_of_cycle_push (hop : s.opcode = (Opcode.unary .push).toByte) :
    ∃ n, Pushed n s.machine s'.machine := by
  obtain ⟨i, s₁, hfetch, h⟩ := execute_of_cycle h hop
  have hread := same_stack_of_fetchInstruction hfetch
  obtain ⟨r, _, -, hlast⟩ := of_bind_ok hfetch
  cases hlast
  obtain ⟨n, s₂, hint, h⟩ := of_bind_ok h
  rw [← (of_intOf hint).1] at hread
  obtain ⟨_, s₃, hexplain, h⟩ := of_bind_ok h
  rw [← of_explain hexplain] at hread
  obtain ⟨_, s₄, hpush, h⟩ := of_bind_ok h
  cases h
  exact ⟨n, (pushed_of_push hpush).congr hread ⟨rfl, rfl⟩⟩

lemma popped_of_cycle_pop (hop : s.opcode = (Opcode.unary .pop).toByte) :
    ∃ n, Popped n s.machine s'.machine := by
  obtain ⟨i, s₁, hfetch, h⟩ := execute_of_cycle h hop
  have hread := same_stack_of_fetchInstruction hfetch
  obtain ⟨r, _, -, hlast⟩ := of_bind_ok hfetch
  cases hlast
  obtain ⟨n, s₂, hpop, h⟩ := of_bind_ok h
  obtain ⟨_, s₃, hexplain, h⟩ := of_bind_ok h
  -- Nothing that follows is about the stack.
  obtain ⟨_, s₄, hset, h⟩ := of_bind_ok h
  cases h
  have hstore := (Action.setRegister r (.int n)).same_run c s₃ (p := .stack) nofun
  rw [Action.run, hset, of_explain hexplain] at hstore
  exact ⟨n, (popped_of_pop hpop).congr hread hstore⟩

lemma popped_of_cycle_ret (hop : s.opcode = (Opcode.plain .ret).toByte) :
    ∃ n, Popped n s.machine s'.machine ∧ s'.machine.ip = n.toUInt32 := by
  obtain ⟨i, s₁, hfetch, h⟩ := execute_of_cycle h hop
  have hread := same_stack_of_fetchInstruction hfetch
  cases hfetch
  obtain ⟨n, s₂, hpop, h⟩ := of_bind_ok h
  obtain ⟨_, s₃, hexplain, h⟩ := of_bind_ok h
  cases h
  have hpopped := popped_of_pop hpop
  rw [← of_explain hexplain] at hpopped
  exact ⟨n, hpopped.congr hread ⟨rfl, rfl⟩, rfl⟩

end Cycles

/-- The pointer that a call at the pointer pushes: it stands behind the two bytes of the target. -/
def State.returnAddress (s : State) : UInt32 :=
  (Address.onRing ((Address.ofPointer s.machine.ip).val + 2)).toPointer + 1

/-- The return address is three bytes behind the call, on the ring. -/
lemma ofPointer_returnAddress (s : State) :
    Address.ofPointer s.returnAddress =
      Address.onRing ((Address.ofPointer s.machine.ip).val + 3) := by
  rw [State.returnAddress, ofPointer_toPointer_succ, onRing_add]

/-- A word operand is read from the two addresses behind the opcode. -/
lemma ip_of_fetchWord {c : Config} {s s' : State} {w : UInt16}
    (h : fetchWord (s.begun c) = .ok w s') : s'.machine.ip + 1 = s.returnAddress := by
  rw [← s.reading_zero c, fetchWord_reading] at h
  cases h
  rw [machine_reading]
  rfl

/-- **A call pushes its return address.** -/
lemma pushed_of_cycle_call {c : Config} {s s' : State} {a : UInt8 × Bool}
    (h : cycle Table.builtin c s = .ok a s') (hop : s.opcode = (Opcode.branch .call).toByte) :
    Pushed s.returnAddress.toInt32 s.machine s'.machine := by
  obtain ⟨i, s₁, hfetch, h⟩ := execute_of_cycle h hop
  have hread := same_stack_of_fetchInstruction hfetch
  obtain ⟨t, _, ht, hlast⟩ := of_bind_ok hfetch
  cases hlast
  obtain ⟨_, s₂, hpush, h⟩ := of_bind_ok h
  cases h
  have hpushed := pushed_of_pushReturn hpush
  rw [machine_told] at hpushed hread
  rw [← ip_of_fetchWord ht]
  exact hpushed.congr hread ⟨rfl, rfl⟩

/-- The operations that use the stack. -/
def stackOperations : List Opcode := [.unary .push, .unary .pop, .branch .call, .plain .ret]

lemma mem_stackOperations {op : Opcode} {r : Nat} (h : .stack ∈ op.footprint r) :
    op ∈ stackOperations := by
  cases op with
  | plain op | unary op | binary op | ternary op | branch op | immediate op | literal op =>
    cases op <;> simp_all [Opcode.footprint, stackOperations]

/-- **Every cycle pushes one number, pops one, or leaves the stack as it is.** -/
theorem stack_cycle {c : Config} {s s' : State} {a : UInt8 × Bool}
    (h : cycle Table.builtin c s = .ok a s') :
    (∃ n, Pushed n s.machine s'.machine) ∨ (∃ n, Popped n s.machine s'.machine) ∨
      Part.stack.Same s.machine s'.machine := by
  by_cases hstack : .stack ∈ s.footprint
  · obtain ⟨op, hop, hwrites⟩ := s.exists_of_mem_footprint hstack
    have hop' := mem_stackOperations hwrites
    simp only [stackOperations, List.mem_cons, List.not_mem_nil, or_false] at hop'
    obtain rfl | rfl | rfl | rfl := hop'
    · exact .inl (pushed_of_cycle_push h hop)
    · exact .inr (.inl (popped_of_cycle_pop h hop))
    · exact .inl ⟨_, pushed_of_cycle_call h hop⟩
    · obtain ⟨n, hpopped, -⟩ := popped_of_cycle_ret h hop
      exact .inr (.inl ⟨n, hpopped⟩)
  · have hsame := same_cycle c hstack
    rw [h] at hsame
    exact .inr (.inr hsame)

end RegisterMachine
