import RegisterMachine.Proofs.Operands

/-!
# How an instruction can end early

A host that stops at every report never sees what comes of going on after one. Under such a host an
instruction whose operands have been read ends early for few reasons. It may report one of the errors
of its operation. It may make an access that has no meaning, and there are four of these: an operand
that names no register and was not checked, a slot of the stack when the stack pointer is not on one, a
block copy whose addresses grow too large, and an integer with more digits than there is room for. No
instruction reaches for an address that is not there. And a division or a concatenation may be ended by
a signal.

## Main definitions

* `Instruction.MayHalt` — the ways in which an instruction may end early.
* `State.EndsIn` — the next cycle ends early in a given way.

## Main results

* `intOf_apply`, `textOf_apply` — looking at registers.
* `push_apply`, `pushReturn_apply`, `pop_apply` — pushing and popping.
* `mayHalt_execute` — an instruction ends early in no other way than it may.
* `exists_instruction?` — a cycle reads its instruction, or reports a register operand.
* `endsIn_registerOutOfBounds_iff`, `mayHalt_of_endsIn`, `exists_mayHalt_of_endsIn` — how a cycle
  ends early.
-/

namespace RegisterMachine

open Effect Exec

/-! ## Registers -/

lemma register?_eq_none_iff {m : Machine} {r : Nat} : m.register? r = none ↔ registerCount ≤ r :=
  Vector.getElem?_eq_none_iff

/-- An integer is read, whatever the host does with reports. -/
lemma intOf_of_integer? (c : Config) {r : UInt8} {n : Int32} {s : State}
    (h : s.machine.integer? r = some n) : intOf c r s = .ok n s := by
  have hregister := register_apply r s
  rw [integer?_eq_some_iff.1 h] at hregister
  rw [intOf, bind_ok hregister]
  rfl

section Stopping

variable {c : Config} (hc : c.policy ≠ .resume)

include hc

lemma intOf_apply (r : UInt8) (s : State) :
    intOf c r s = match s.machine.register? r.toNat with
      | some (.int n) => .ok n s
      | some (.text _) => .error (.reported .notInteger) s
      | none => .error (.trapped (.register r.toNat)) s := by
  have hregister := register_apply r s
  cases hvalue : s.machine.register? r.toNat with
  | none =>
    rw [hvalue] at hregister
    exact bind_error hregister
  | some v =>
    rw [hvalue] at hregister
    rw [intOf, bind_ok hregister]
    cases v with
    | int n => rfl
    | text t => exact bind_error (report_stopping hc _ s)

/-- An integer in a register that is there is read, and anything else is reported. -/
lemma intOf_of_lt {r : UInt8} (hr : r.toNat < registerCount) (s : State) :
    intOf c r s = match s.machine.integer? r with
      | some n => .ok n s
      | none => .error (.reported .notInteger) s := by
  have happly := intOf_apply hc r s
  cases hvalue : s.machine.register? r.toNat with
  | none => exact absurd (register?_eq_none_iff.1 hvalue) (Nat.not_le.2 hr)
  | some v =>
    rw [happly, Machine.integer?, hvalue]
    cases v <;> rfl

lemma textOf_apply (r : UInt8) (s : State) :
    textOf c r s = match s.machine.register? r.toNat with
      | some (.text t) => .ok (some t) s
      | some (.int _) => .error (.reported .notText) s
      | none => .error (.trapped (.register r.toNat)) s := by
  have hregister := register_apply r s
  cases hvalue : s.machine.register? r.toNat with
  | none =>
    rw [hvalue] at hregister
    exact bind_error hregister
  | some v =>
    rw [hvalue] at hregister
    rw [textOf, bind_ok hregister]
    cases v with
    | text t => rfl
    | int n => exact bind_error (report_stopping hc _ s)

/-! ## The stack -/

/-- A state whose stack pointer has moved up. -/
def State.raised (s : State) : State :=
  { s with machine := { s.machine with sp := s.machine.sp + 1 } }

lemma push_apply (n : Int32) (s : State) :
    push c n s = match s.raised.machine.setSlot? (s.machine.sp + 1) n with
      | none => .error (.trapped (.stack (s.machine.sp + 1))) s.raised
      | some m => if stackSize ≤ s.machine.sp + 1
        then .error (.reported .stackFull) { s with machine := m } else .ok () { s with machine := m } := by
  have hpointer : stackPointer s = .ok s.machine.sp s := rfl
  have hraise : setStackPointer (s.machine.sp + 1) s = .ok () s.raised := rfl
  have hset := setSlot_apply (s.machine.sp + 1) n s.raised
  rw [push, bind_ok hpointer, bind_ok hraise]
  cases hslot : s.raised.machine.setSlot? (s.machine.sp + 1) n with
  | none =>
    rw [hslot] at hset
    exact bind_error hset
  | some m =>
    rw [hslot] at hset
    rw [bind_ok hset]
    dsimp only
    split
    · exact report_stopping hc _ _
    · rfl

lemma pushReturn_apply (s : State) :
    pushReturn c s = if stackSize ≤ s.machine.sp + 1
      then .error (.reported .callStackFull) s.raised
      else setSlot (s.machine.sp + 1) (s.machine.ip + 1).toInt32 s.raised := by
  have hpointer : stackPointer s = .ok s.machine.sp s := rfl
  have hraise : setStackPointer (s.machine.sp + 1) s = .ok () s.raised := rfl
  rw [pushReturn, bind_ok hpointer, bind_ok hraise]
  by_cases hfull : (stackSize : Int) ≤ s.machine.sp + 1
  · rw [if_pos hfull, if_pos hfull]
    exact bind_error (report_stopping hc _ _)
  · rw [if_neg hfull, if_neg hfull]
    rfl

lemma pop_apply (s : State) :
    pop c s = if s.machine.sp ≤ 0 then .error (.reported .stackEmpty) s
      else match s.machine.slot? s.machine.sp with
        | none => .error (.trapped (.stack s.machine.sp)) s
        | some n => .ok n { s with machine := { s.machine with sp := s.machine.sp - 1 } } := by
  have hpointer : stackPointer s = .ok s.machine.sp s := rfl
  have hslot := slot_apply s.machine.sp s
  rw [pop, bind_ok hpointer]
  dsimp only
  split
  · exact bind_error (report_stopping hc _ _)
  · cases htop : s.machine.slot? s.machine.sp with
    | none =>
      rw [htop] at hslot
      exact bind_error hslot
    | some n =>
      rw [htop] at hslot
      exact bind_ok hslot

end Stopping

/-! ## Instructions -/

/-- The ways in which an instruction whose operands have been read may end early, given the machine
before it, if the host stops at reports. -/
def Instruction.MayHalt (i : Instruction) (c : Config) (m : Machine) : Halt → Prop
  | .reported e => e ∈ i.opcode.errors
  | .trapped (.register n) => registerCount ≤ n ∧ ∃ r ∈ i.registers, r.toNat = n
  | .trapped (.stack j) => i.slot? m = some j ∧ (m.sp < 0 ∨ stackSize ≤ m.sp)
  | .trapped .copyRange => i.opcode = .ternary .copyBlock
  | .trapped .textBlock =>
    ∃ r n, i = .unary .intToText r ∧ m.integer? r = some n ∧ c.block ≤ (Numeral.signed n).length
  | .trapped (.ram _) | .trapped .noText | .trapped .mixedRegister => False
  | .killed g => i.Refused m g

/-- The numbers that are no place are those outside the 16 bit numbers. -/
lemma Place.ofInt?_eq_none_iff {n : Int} : Place.ofInt? n = none ↔ n < 0 ∨ ramSize < n := by
  unfold Place.ofInt? Address.ofInt?
  by_cases hin : 0 ≤ n ∧ n.toNat < ramSize
  · simp only [dif_pos hin, reduceCtorEq, false_iff]
    omega
  · by_cases hbehind : n = ramSize
    · simp only [dif_neg hin, if_pos hbehind, reduceCtorEq, false_iff]
      omega
    · simp only [dif_neg hin, if_neg hbehind, true_iff]
      omega

/-- The check of single reads and writes lets just the places pass. -/
lemma admitted_eq_false_iff {n : Int32} :
    admitted n = false ↔ Place.ofInt? n.toInt = none := by
  have hsize : ramSize = 0xFFFF := rfl
  rw [Place.ofInt?_eq_none_iff, admitted, Bool.and_eq_false_iff, decide_eq_false_iff_not,
    decide_eq_false_iff_not]
  omega

/-- The slot behind the last one can be read and written: it is the stack pointer. -/
lemma slot?_eq_none_iff {m : Machine} {j : Int} : m.slot? j = none ↔ j < 0 ∨ stackSize < j := by
  unfold Machine.slot?
  split
  case isFalse hpos =>
    simp only [true_iff]
    omega
  case isTrue hpos =>
    split
    case isTrue hlt =>
      simp only [reduceCtorEq, false_iff]
      omega
    case isFalse hle =>
      split
      case isTrue heq =>
        simp only [reduceCtorEq, false_iff]
        omega
      case isFalse hne =>
        simp only [true_iff]
        omega

lemma setSlot?_eq_none_iff {m : Machine} {j : Int} {n : Int32} :
    m.setSlot? j n = none ↔ j < 0 ∨ stackSize < j := by
  rw [← @slot?_eq_none_iff m, Machine.setSlot?, Machine.slot?]
  by_cases hpos : 0 ≤ j
  · by_cases hlt : j.toNat < stackSize
    · simp [hpos, hlt]
    · simp [hpos, hlt]
  · simp [hpos]

section Instructions

variable {c : Config} (hc : c.policy ≠ .resume) {i : Instruction} {m : Machine}

include hc

/-- An action of an instruction with which it ends early is one with which it may. -/
lemma Instruction.Does.mayHalt {α : Type} {s : State} {a : Action α} {h : Halt}
    (hdoes : i.Does c m α s a) (houtcome : a.outcome c s.machine s.entropy = .error h) :
    i.MayHalt c m h := by
  cases a with
  | flag | setZero | pointer | jump | advance | stop | memory | byteAt | setByteAt | copyBlock
  | stackPointer | setStackPointer | draw | salvage | explain | showInt | showText | announce =>
    cases houtcome
  | command t =>
    rw [Action.outcome] at houtcome
    split at houtcome <;> cases houtcome
  | register r =>
    rw [Action.outcome] at houtcome
    split at houtcome
    case h_1 => cases houtcome
    case h_2 hnone =>
      cases houtcome
      exact ⟨register?_eq_none_iff.1 hnone, r, hdoes, rfl⟩
  | setRegister r v =>
    rw [Action.outcome] at houtcome
    split at houtcome
    case isTrue => cases houtcome
    case isFalse hout =>
      cases houtcome
      exact ⟨Nat.not_lt.1 hout, r, hdoes.1, rfl⟩
  | slot j =>
    rw [Action.outcome] at houtcome
    split at houtcome
    case h_1 => cases houtcome
    case h_2 hnone =>
      cases houtcome
      obtain ⟨hslot, rfl⟩ := hdoes.2 hc
      have hout := slot?_eq_none_iff.1 hnone
      exact ⟨hslot, by omega⟩
  | setSlot j n =>
    rw [Action.outcome] at houtcome
    split at houtcome
    case h_1 => cases houtcome
    case h_2 hnone =>
      cases houtcome
      obtain ⟨hslot, rfl⟩ := hdoes.2 hc
      have hout := setSlot?_eq_none_iff.1 hnone
      exact ⟨hslot, by omega⟩
  | allot count =>
    rw [Action.outcome] at houtcome
    split at houtcome
    case isTrue => cases houtcome
    case isFalse hsmall =>
      cases houtcome
      obtain ⟨r, n, rfl, rfl, hn⟩ := hdoes
      exact ⟨r, n, rfl, hn hc, Nat.not_lt.1 hsmall⟩
  | report e =>
    rw [Action.outcome] at houtcome
    split at houtcome
    case h_1 => cases houtcome
    case h_2 | h_3 =>
      cases houtcome
      exact hdoes.1
  | trap t =>
    cases houtcome
    obtain ⟨rfl, hop⟩ := hdoes hc
    exact hop
  | kill g =>
    cases houtcome
    exact hdoes hc

/-- **An instruction whose operands have been read ends early in no other way than it may.**

**Proof sketch.** It ends in one of its actions. -/
theorem mayHalt_execute {s s' : State} {h : Halt} (hrun : execute c i s = .error h s') :
    i.MayHalt c s.machine h := by
  obtain ⟨α, a, hdoes, houtcome⟩ := (completes_execute c i s).composed.exists_of_error hrun
  exact hdoes.mayHalt hc houtcome

end Instructions

/-- Where the pointer stands does not matter for how an instruction may end. -/
lemma mayHalt_ip {i : Instruction} {c : Config} {m : Machine} {p : UInt32} {h : Halt} :
    i.MayHalt c { m with ip := p } h ↔ i.MayHalt c m h := Iff.rfl

/-- That a register operand is out of bounds is reported when it is read. -/
lemma registerOutOfBounds_not_mem_errors (op : Opcode) : .registerOutOfBounds ∉ op.errors := by
  cases op with
  | plain op | unary op | binary op | branch op | immediate op | literal op =>
    cases op <;> simp [Opcode.errors]
  | ternary op => cases op <;> simp [Opcode.errors]

/-! ## Cycles -/

/-- The next cycle ends early in a given way. -/
def State.EndsIn (c : Config) (s : State) (h : Halt) : Prop :=
  ∃ s', cycle Table.builtin c s = .error h s'

/-- An opcode without a meaning is skipped. -/
lemma cycle_unknown (c : Config) {s : State} (hop : Opcode.ofByte? s.opcode = none) :
    ∃ s', cycle Table.builtin c s = .ok (s.opcode, true) s' := by
  have hfound : (s.begun c).machine.ram[(s.begun c).machine.ip.toNat]? = some s.opcode := by
    rw [machine_begun]
    have hpointer : (Address.ofPointer s.machine.ip).toPointer.toNat =
        (Address.ofPointer s.machine.ip).val := Address.toNat_toPointer _
    rw [hpointer]
    exact Vector.getElem?_eq_getElem (Address.ofPointer s.machine.ip).isLt
  have hbyte : currentByte (s.begun c) = .ok s.opcode (s.begun c) := by
    rw [currentByte, bind_ok (pointer_apply _), bind_ok (memory_apply _), hfound]
    rfl
  rw [cycle_apply, Table.builtin, hop]
  dsimp only
  rw [unknownHandler, bind_assoc, bind_ok hbyte]
  exact ⟨_, rfl⟩

section Cycles

variable {c : Config} {s s₁ : State} {op : Opcode} {i : Instruction}

/-- The rest of a cycle, once the operands have been read. -/
lemma cycle_of_fetch (hop : s.opcode = op.toByte)
    (hfetch : fetchInstruction c op (s.begun c) = .ok i s₁) :
    cycle Table.builtin c s =
      (execute c i >>= fun _ => pure (s.opcode, true)) (s₁.told c (.decoded i)) := by
  rw [cycle_apply, Table.builtin, hop, Opcode.ofByte?_toByte]
  dsimp only
  rw [Opcode.handler, bind_assoc, bind_ok hfetch, bind_assoc, bind_ok (explain_apply s₁ c _)]

lemma cycle_of_fetch_error (hop : s.opcode = op.toByte) {e : Halt}
    (hfetch : fetchInstruction c op (s.begun c) = .error e s₁) :
    cycle Table.builtin c s = .error e s₁ := by
  rw [cycle_apply, Table.builtin, hop, Opcode.ofByte?_toByte]
  exact bind_error (bind_error hfetch)

/-- A cycle whose operands have been read ends early if the instruction does. -/
lemma endsIn_iff_execute (hop : s.opcode = op.toByte)
    (hfetch : fetchInstruction c op (s.begun c) = .ok i s₁) {e : Halt} :
    s.EndsIn c e ↔ ∃ s', execute c i (s₁.told c (.decoded i)) = .error e s' := by
  rw [State.EndsIn, cycle_of_fetch hop hfetch]
  cases hrun : execute c i (s₁.told c (.decoded i)) with
  | ok a s' => simp [bind_ok hrun, pure, EStateM.pure]
  | error h s' => simp [bind_error hrun]

/-- An opcode without a meaning ends in no way early. -/
lemma not_endsIn_of_unknown (hunknown : Opcode.ofByte? s.opcode = none) (e : Halt) :
    ¬s.EndsIn c e := by
  rintro ⟨s', hends⟩
  obtain ⟨s'', hgoes⟩ := cycle_unknown c hunknown
  exact absurd (hgoes.symm.trans hends) (by simp)

variable (hc : c.policy ≠ .resume) (hop : s.opcode = op.toByte)

include hc hop

/-- A register operand that is checked and names no register ends the cycle in a report. -/
lemma endsIn_of_outside (hout : ∃ r ∈ s.checkedOperands op, registerCount ≤ r.toNat) :
    s.EndsIn c (.reported .registerOutOfBounds) := by
  obtain ⟨k, hfetch⟩ := fetchInstruction_of_outside hc hout
  exact ⟨_, cycle_of_fetch_error hop hfetch⟩

/-- Otherwise the cycle ends early only as the instruction may that stands there. -/
lemma mayHalt_of_endsIn (hchecked : ∀ r ∈ s.checkedOperands op, r.toNat < registerCount) {e : Halt}
    (h : s.EndsIn c e) :
    ∃ i : Instruction, i.opcode = op ∧ i.registers = s.registerOperands op ∧
      i.MayHalt c s.machine e := by
  have hfetch := fetchInstruction_of_checked c hchecked
  obtain ⟨s', hrun⟩ := (endsIn_iff_execute hop hfetch).1 h
  have hhalt := mayHalt_execute hc hrun
  rw [machine_told, machine_reading] at hhalt
  exact ⟨_, s.opcode_operands op, s.registers_operands op, mayHalt_ip.1 hhalt⟩

/-- A register operand is reported if and only if it is checked and names no register. -/
lemma endsIn_registerOutOfBounds_iff :
    s.EndsIn c (.reported .registerOutOfBounds) ↔
      ∃ r ∈ s.checkedOperands op, registerCount ≤ r.toNat := by
  refine ⟨fun h => ?_, endsIn_of_outside hc hop⟩
  by_cases hchecked : ∀ r ∈ s.checkedOperands op, r.toNat < registerCount
  case pos =>
    obtain ⟨i, -, -, hhalt⟩ := mayHalt_of_endsIn hc hop hchecked h
    exact absurd hhalt (registerOutOfBounds_not_mem_errors _)
  case neg => simpa using hchecked

/-- The operands of the operation at the pointer are read, or one of them is reported. -/
lemma exists_instruction? :
    (∃ i, s.instruction? c = some i ∧ i.opcode = op) ∨
      s.EndsIn c (.reported .registerOutOfBounds) := by
  by_cases hchecked : ∀ r ∈ s.checkedOperands op, r.toNat < registerCount
  case pos =>
    refine .inl ⟨_, State.instruction?_eq_some_iff.2 ?_, s.opcode_operands op⟩
    rw [State.opcode_operands]
    exact ⟨hop, _, fetchInstruction_of_checked c hchecked⟩
  case neg => exact .inr (endsIn_of_outside hc hop (by simpa using hchecked))

omit hop in
/-- The register operands of an instruction that is carried out have passed their checks. -/
lemma lt_of_instruction? (h : s.instruction? c = some i) :
    ∀ r ∈ s.checkedOperands i.opcode, r.toNat < registerCount := by
  intro r hr
  obtain ⟨-, s', hfetch⟩ := State.instruction?_eq_some_iff.1 h
  by_cases hlt : r.toNat < registerCount
  case pos => exact hlt
  case neg =>
    obtain ⟨k, hreport⟩ := fetchInstruction_of_outside hc ⟨r, hr, Nat.not_lt.1 hlt⟩
    exact absurd (hfetch.symm.trans hreport) (by simp)

omit hop in
/-- **How a cycle ends early.** A register operand is reported, or the instruction that stands at the
pointer ends as it may. -/
lemma exists_mayHalt_of_endsIn {e : Halt} (h : s.EndsIn c e) :
    e = .reported .registerOutOfBounds ∨
      ∃ i, s.instruction? c = some i ∧ i.MayHalt c s.machine e := by
  cases hop : Opcode.ofByte? s.opcode with
  | none => exact absurd h (not_endsIn_of_unknown hop _)
  | some op =>
    replace hop := Opcode.ofByte?_eq_some_iff.1 hop
    obtain ⟨i, hi, rfl⟩ | ⟨s₁, hreport⟩ := exists_instruction? hc hop
    · obtain ⟨-, s₁, hfetch⟩ := State.instruction?_eq_some_iff.1 hi
      obtain ⟨s', hrun⟩ := (endsIn_iff_execute hop hfetch).1 h
      have hhalt := mayHalt_execute hc hrun
      rw [machine_told, machine_of_fetchInstruction hfetch, machine_begun] at hhalt
      exact .inr ⟨i, hi, mayHalt_ip.1 hhalt⟩
    · obtain ⟨s₂, hends⟩ := h
      cases hreport.symm.trans hends
      exact .inl rfl

omit hop in
/-- An access without a meaning is one of the instruction that stands at the pointer. -/
lemma instruction?_of_trapped {t : Trap} (h : s.EndsIn c (.trapped t)) :
    ∃ i, s.instruction? c = some i ∧ i.MayHalt c s.machine (.trapped t) :=
  (exists_mayHalt_of_endsIn hc h).resolve_left nofun

end Cycles

end RegisterMachine
