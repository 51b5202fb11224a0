import RegisterMachine.Proofs.Segments

/-!
# Calls and returns

A call pushes the address behind it, and a return goes to the address that it pops. In between the
program may do what it likes, call again, push and pop, or rewrite itself: as long as the stack
pointer stays above the address that was pushed, nothing writes the slots up to it. So the return
that finds the stack as the call left it goes back to where the call came from, and leaves the stack
as it was before the call.

## Main results

* `Segment.slot_eq` — a slot that the stack pointer never falls below is not written.
* `Segment.stack_discipline` — what lies below the stack pointer is kept, and a return that matches
  a call goes back behind it.
-/

namespace RegisterMachine

open Effect Exec

variable {c : Config} {limit : Int} {k n : Nat} {σ : Nat → State}

/-! ## Slots below the stack pointer -/

/-- A cycle writes no slot up to the stack pointer. -/
lemma slot_cycle {s s' : State} {a : UInt8 × Bool} (h : cycle Table.builtin c s = .ok a s')
    {x : Nat} (hx : (x : Int) ≤ s.machine.sp) : s'.machine.stack[x]? = s.machine.stack[x]? := by
  obtain ⟨m, hpushed⟩ | ⟨m, hpopped⟩ | hsame := stack_cycle h
  · exact hpushed.slots x (by omega)
  · rw [hpopped.slots]
  · rw [hsame.2]

/-- **A slot that the stack pointer never falls below is not written.** -/
theorem Segment.slot_eq (h : Segment Table.builtin c limit k n σ) {i j : Nat} (hij : i ≤ j)
    (hjn : j ≤ n) {x : Nat} (hx : ∀ l, i ≤ l → l < j → (x : Int) ≤ (σ l).machine.sp) :
    (σ j).machine.stack[x]? = (σ i).machine.stack[x]? := by
  refine rel_of_steps (R := fun s s' => s'.machine.stack[x]? = s.machine.stack[x]?)
    (fun _ => rfl) (fun h₁ h₂ => h₂.trans h₁) hij fun l hil hlj => ?_
  obtain ⟨a, s, hcycle, hstack, -⟩ := h.exists_cycle (show l < n by omega)
  rw [hstack.2]
  exact slot_cycle hcycle (hx l hil hlj)

/-! ## From a call to its return -/

lemma slot?_eq_getElem? (m : Machine) {i : Int} (hpos : 0 ≤ i) (hlt : i < stackSize) :
    m.slot? i = m.stack[i.toNat]? := by
  have hslot : i.toNat < stackSize := by omega
  simp [Machine.slot?, hpos, hslot]

lemma nonneg_of_slot? {m : Machine} {i : Int} {v : Int32} (h : m.slot? i = some v) : 0 ≤ i := by
  rw [Machine.slot?] at h
  split at h
  case isTrue hpos => exact hpos
  case isFalse => exact absurd h (by simp)

/-- After a call with room on the stack, the slot at the stack pointer holds the return address. -/
lemma Segment.of_call (h : Segment Table.builtin c limit k n σ) {i : Nat} (hi : i < n)
    (hcall : (σ i).opcode = (Opcode.branch .call).toByte)
    (hroom : (σ i).machine.sp + 1 < stackSize) :
    (σ (i + 1)).machine.sp = (σ i).machine.sp + 1 ∧
      (σ (i + 1)).machine.slot? ((σ i).machine.sp + 1) = some (σ i).returnAddress.toInt32 := by
  obtain ⟨a, s, hcycle, hstack, -⟩ := h.exists_cycle hi
  have hpushed := pushed_of_cycle_call hcycle hcall
  exact ⟨hstack.1.trans (hpushed.sp hroom), (slot?_congr hstack _).trans (hpushed.top hroom)⟩

/-- A return goes to the address in the slot at the stack pointer. -/
lemma Segment.of_ret (h : Segment Table.builtin c limit k n σ) {i : Nat} (hi : i < n)
    (hret : (σ i).opcode = (Opcode.plain .ret).toByte) {p : UInt32}
    (htop : (σ i).machine.slot? (σ i).machine.sp = some p.toInt32) :
    (σ (i + 1)).machine.ip = p ∧ (σ (i + 1)).machine.sp = (σ i).machine.sp - 1 := by
  obtain ⟨a, s, hcycle, hstack, hip⟩ := h.exists_cycle hi
  obtain ⟨m, hpopped, hgoes⟩ := popped_of_cycle_ret hcycle hret
  have hm : m = p.toInt32 := Option.some.inj (hpopped.top.symm.trans htop)
  refine ⟨?_, hstack.1.trans hpopped.sp⟩
  rw [hip, hgoes, hm]
  exact UInt32.toUInt32_toInt32 p

/-- **Calls keep to the stack.** Let a segment of a run be given.

* If the stack pointer never falls below where it was at first, then no slot up to there is written.
* If the segment begins with a call that finds room on the stack, and the stack pointer stays above
  where it was until a return finds it one slot higher, then that return goes on behind the call,
  three bytes on and on the ring, and the stack up to the stack pointer is as before the call.

**Proof sketch.** Every cycle pushes one number above the stack pointer, pops one, or leaves the
stack alone, so it writes no slot up to the pointer. The first part follows by induction. For the
second, the call puts its return address into the slot above the stack pointer. From then on the
pointer does not fall below that slot, so by the first part the return finds the address there. -/
theorem Segment.stack_discipline (h : Segment Table.builtin c limit k n σ) :
    ((∀ i ≤ n, (σ 0).machine.sp ≤ (σ i).machine.sp) →
      ∀ x : Nat, (x : Int) ≤ (σ 0).machine.sp →
        (σ n).machine.stack[x]? = (σ 0).machine.stack[x]?) ∧
    ∀ r < n, (σ 0).opcode = (Opcode.branch .call).toByte →
      (σ 0).machine.sp < 1023 →
      (∀ i, 0 < i → i ≤ r → (σ 0).machine.sp + 1 ≤ (σ i).machine.sp) →
      (σ r).opcode = (Opcode.plain .ret).toByte →
      (σ r).machine.sp = (σ 0).machine.sp + 1 →
        Address.ofPointer (σ (r + 1)).machine.ip =
          Address.onRing ((Address.ofPointer (σ 0).machine.ip).val + 3) ∧
        (σ (r + 1)).machine.sp = (σ 0).machine.sp ∧
        ∀ x : Nat, (x : Int) ≤ (σ 0).machine.sp →
          (σ (r + 1)).machine.stack[x]? = (σ 0).machine.stack[x]? := by
  refine ⟨fun habove x hx => ?_, fun r hr hcall hroom habove hret hsp => ?_⟩
  · exact h.slot_eq (Nat.zero_le n) (Nat.le_refl n) fun l _ hl =>
      Int.le_trans hx (habove l (by omega))
  · have hpos : 0 < r := by
      rcases Nat.eq_zero_or_pos r with rfl | hpos
      · rw [hcall] at hret
        exact absurd hret (by decide)
      · exact hpos
    have hfull : (σ 0).machine.sp + 1 < stackSize := Int.add_lt_add_right hroom 1
    obtain ⟨-, htop⟩ := h.of_call (by omega) hcall hfull
    have hslot := nonneg_of_slot? htop
    have hkept := h.slot_eq (i := 1) (j := r) (x := ((σ 0).machine.sp + 1).toNat) hpos
      (Nat.le_of_lt hr) fun l hl hlr => by
        have hbelow := habove l hl (Nat.le_of_lt hlr)
        omega
    have hfound : (σ r).machine.slot? (σ r).machine.sp = some (σ 0).returnAddress.toInt32 := by
      rw [hsp, slot?_eq_getElem? _ hslot hfull, hkept, ← slot?_eq_getElem? _ hslot hfull]
      exact htop
    obtain ⟨hip, hback⟩ := h.of_ret hr hret hfound
    refine ⟨?_, by omega, fun x hx => ?_⟩
    · rw [hip, ofPointer_returnAddress]
    · refine h.slot_eq (Nat.zero_le _) hr fun l _ hl => ?_
      rcases Nat.eq_zero_or_pos l with rfl | hlpos
      · exact hx
      · have hbelow := habove l hlpos (by omega)
        omega

/-- A program that calls a subroutine, which pushes and pops before it returns. -/
def callThenPush : Bytes :=
  [(Opcode.branch .call).toByte, 4, 0, (Opcode.plain .exit).toByte, (Opcode.unary .push).toByte, 1,
    (Opcode.unary .pop).toByte, 2, (Opcode.plain .ret).toByte]

/-- The program is loaded, and there is one number on the stack. -/
def calling : State where
  machine := { (loaded callThenPush).machine with
    sp := 1
    stack := (loaded callThenPush).machine.stack.set 1 42 }
  log := #[]
  entropy := {}

/-- The call has pushed the address behind it. -/
def entered : State where
  machine := { calling.machine with ip := 4, sp := 2, stack := calling.machine.stack.set 2 3 }
  log := #[]
  entropy := {}

/-- The subroutine has pushed a register. -/
def saved : State where
  machine := { entered.machine with ip := 6, sp := 3, stack := entered.machine.stack.set 3 0 }
  log := #[]
  entropy := {}

/-- The subroutine has popped what it pushed. -/
def restored : State where
  machine := { saved.machine with
    ip := 8
    sp := 2
    registers := saved.machine.registers.set 2 (.int 0) }
  log := #[]
  entropy := {}

/-- The subroutine has returned. -/
def returned : State where
  machine := { restored.machine with ip := 3, sp := 1 }
  log := #[]
  entropy := {}

/-- The states from the call to behind the return. -/
def calls : Nat → State
  | 0 => calling
  | 1 => entered
  | 2 => saved
  | 3 => restored
  | _ => returned

lemma segment_calls : Segment Table.builtin {} 0 0 4 calls where
  running i hi := by
    obtain rfl | rfl | rfl | rfl : i = 0 ∨ i = 1 ∨ i = 2 ∨ i = 3 := by omega
    all_goals rfl
  step i hi := by
    obtain rfl | rfl | rfl | rfl : i = 0 ∨ i = 1 ∨ i = 2 ∨ i = 3 := by omega
    · exact ⟨(0x73, true), entered, @cycle_of_drop callThenPush _ _ calling 0 rfl rfl rfl {}
        (by decide) (List.forall_mem_nil _), rfl⟩
    · exact ⟨(0x70, true), saved, @cycle_of_drop callThenPush _ _ entered 4 rfl rfl rfl {}
        (by decide) (List.forall_mem_singleton.2 (by decide)), rfl⟩
    · exact ⟨(0x71, true), restored, @cycle_of_drop callThenPush _ _ saved 6 rfl rfl rfl {}
        (by decide) (List.forall_mem_singleton.2 (by decide)), rfl⟩
    · exact ⟨(0x72, true), returned, @cycle_of_drop callThenPush _ _ restored 8 rfl rfl rfl {}
        (by decide) (List.forall_mem_nil _), rfl⟩

theorem stack_discipline_calls :
    Segment Table.builtin {} 0 0 4 calls ∧ (calls 0).machine.sp = 1 ∧
      (∀ i, 0 < i → i ≤ 3 → 2 ≤ (calls i).machine.sp) ∧
      Address.ofPointer (calls 4).machine.ip = Address.onRing 3 ∧
      (calls 4).machine.sp = 1 ∧ (calls 4).machine.stack[1]? = (calls 0).machine.stack[1]? := by
  have habove : ∀ i, 0 < i → i ≤ 3 → 2 ≤ (calls i).machine.sp := by
    intro i hpos hi
    obtain rfl | rfl | rfl : i = 1 ∨ i = 2 ∨ i = 3 := by omega
    all_goals decide
  have hcall : (calls 0).opcode = (Opcode.branch .call).toByte :=
    @ram_seek callThenPush _ calling 0 rfl rfl (by decide)
  have hret : (calls 3).opcode = (Opcode.plain .ret).toByte :=
    @ram_seek callThenPush _ restored 8 rfl rfl (by decide)
  obtain ⟨hip, hsp, hslots⟩ :=
    segment_calls.stack_discipline.2 3 (by decide) hcall (by decide) habove hret rfl
  exact ⟨segment_calls, rfl, habove, hip, hsp, hslots 1 (by decide)⟩

end RegisterMachine
