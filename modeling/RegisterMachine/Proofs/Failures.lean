import RegisterMachine.Proofs.StackSafety

/-!
# What a failing instruction leaves behind

Most instructions look at all that they need before they change anything. So when one of them reports
an error, the machine is as it was before, apart from its pointer. There are three exceptions. A push onto
a full stack has written the slot behind the last one by then, which is the stack pointer. A call has
moved the stack pointer behind the last slot. And a comparison with a number clears the flag before it
finds that the register holds no number.

## Main definitions

* `Failed` — a state before a cycle and at the moment in which the cycle reports an error.
* `Config.stopping` — the same host, if it stopped at reports.

## Main results

* `exists_atReport` — the machine at the moment of a report.
* `pushesFull_of_endsIn`, `call_of_endsIn` — when it is reported that the stack is full.
* `related_stopping` — up to the first report it does not matter what the host does with reports.
* `cycle_failed` — what a cycle leaves behind that reports an error.
-/

namespace RegisterMachine

open Effect Exec

/-! ## Before and after -/

/-- The errors that tell of a full stack. -/
def Error.IsFull (e : Error) : Prop := e = .stackFull ∨ e = .callStackFull

/-- A state before a cycle and at the moment in which the cycle reports an error. -/
structure Failed (c : Config) (e : Error) (s s' : State) : Prop where
  /-- Memory, registers and the slots of the stack are as before, and the machine goes on running if
  it did before. -/
  rest : s'.machine =
    { s.machine with ip := s'.machine.ip, sp := s'.machine.sp, zero := s'.machine.zero }
  /-- The stack pointer is where it was, unless the stack was full. -/
  sp : ¬e.IsFull → s'.machine.sp = s.machine.sp
  /-- What is pushed onto a full stack has become the stack pointer. -/
  pushed : e = .stackFull → ∃ v, s.PushesFull c v ∧ s'.machine.sp = v.toInt
  /-- A call on a full stack has moved the stack pointer out of its range. -/
  called : e = .callStackFull →
    s.Executes [.branch .call] ∧ s.machine.sp + 1 = stackSize ∧ s'.machine.sp = stackSize
  /-- The flag is as before, unless a text was to be compared with a number. -/
  zero : ¬(s.Executes [.immediate .compare] ∧ e = .notInteger) → s'.machine.zero = s.machine.zero
  /-- Such a comparison has cleared the flag. -/
  cleared : s.Executes [.immediate .compare] → e = .notInteger → s'.machine.zero = false

/-! ## The machine at the moment of a report -/

section AtReport

variable (i : Instruction) (m : Machine) (e : Error)

/-- At most the stack pointer and the flag have changed. -/
lemma atReport_rest :
    i.atReport m e =
      { m with
        ip := (i.atReport m e).ip, sp := (i.atReport m e).sp, zero := (i.atReport m e).zero } := by
  cases i with
  | unary op r =>
    cases op with
    | push =>
      rw [Instruction.atReport]
      split <;> rfl
    | _ => rfl
  | branch op t => cases op <;> rfl
  | immediate op r v => cases op <;> rfl
  | plain | binary | ternary | literal => rfl

variable {i e} in
/-- The stack pointer has moved only if it is reported that the stack is full. -/
lemma atReport_sp (he : e ∈ i.opcode.errors) (hfull : ¬e.IsFull) : (i.atReport m e).sp = m.sp := by
  cases i with
  | unary op r =>
    cases op with
    | push =>
      have hpush : e ≠ .stackFull := fun h => hfull (.inl h)
      rw [Instruction.atReport, if_neg hpush]
    | _ => rfl
  | branch op t =>
    cases op with
    | call => exact absurd (.inr (List.mem_singleton.1 he)) hfull
    | _ => rfl
  | immediate op r v => cases op <;> rfl
  | plain | binary | ternary | literal => rfl

variable {i} in
/-- The flag has changed only if something was to be compared with a number. -/
lemma atReport_zero (hop : i.opcode ≠ .immediate .compare) : (i.atReport m e).zero = m.zero := by
  cases i with
  | unary op r =>
    cases op with
    | push =>
      rw [Instruction.atReport]
      split <;> rfl
    | _ => rfl
  | branch op t => cases op <;> rfl
  | immediate op r v =>
    cases op with
    | compare => exact absurd rfl hop
    | store => rfl
  | plain | binary | ternary | literal => rfl

variable {i} in
lemma atReport_cleared (hop : i.opcode = .immediate .compare) : (i.atReport m e).zero = false := by
  cases i <;> cases hop
  rfl

variable {i e} in
/-- Only a push reports that the stack is full. -/
lemma eq_push_of_mem_errors (he : .stackFull ∈ i.opcode.errors) : ∃ r, i = .unary .push r := by
  refine eq_unary_of_opcode ?_
  cases hop : i.opcode with
  | plain op | binary op | ternary op | branch op | immediate op | literal op =>
    rw [hop] at he
    cases op <;> simp [Opcode.errors] at he
  | unary op =>
    rw [hop] at he
    cases op with
    | push => rfl
    | _ => simp [Opcode.errors] at he

variable {i e} in
/-- Only a call reports that there is no room for the address to return to. -/
lemma eq_call_of_mem_errors (he : .callStackFull ∈ i.opcode.errors) : ∃ t, i = .branch .call t := by
  refine eq_branch_of_opcode ?_
  cases hop : i.opcode with
  | plain op | unary op | binary op | ternary op | immediate op | literal op =>
    rw [hop] at he
    cases op <;> simp [Opcode.errors] at he
  | branch op =>
    rw [hop] at he
    cases op with
    | call => rfl
    | _ => simp [Opcode.errors] at he

end AtReport

/-- An action that ends in a report is one that reports. -/
lemma Action.report_of_outcome {α : Type} {a : Action α} {c : Config} {s : State} {e : Error}
    (h : a.outcome c s.machine s.entropy = .error (.reported e)) {may : Permit} (ha : may α s a) :
    may Unit s (.report e) := by
  cases a with
  | report e' =>
    rw [Action.outcome] at h
    cases hpolicy : c.policy with
    | resume =>
      rw [hpolicy] at h
      cases h
    | stop | abort =>
      rw [hpolicy] at h
      cases h
      exact ha
  | register | setRegister | slot | setSlot | command | allot =>
    rw [Action.outcome] at h
    split at h <;> cases h
  | _ => cases h

section Reports

variable {c : Config} (hc : c.policy ≠ .resume) {s s' : State} {e : Error}

include hc

/-- **The machine at the moment of a report.** A register operand is reported when it is read. Any other
error is one of the instruction at the pointer, and finds the machine as this leaves it.

**Proof sketch.** The instruction ends in the action that reports the error. -/
theorem exists_atReport (h : cycle Table.builtin c s = .error (.reported e) s') :
    (e = .registerOutOfBounds ∧ ∃ p, s'.machine = { s.machine with ip := p }) ∨
      ∃ i p, s.instruction? c = some i ∧ e ∈ i.opcode.errors ∧
        s'.machine = i.atReport { s.machine with ip := p } e := by
  cases hop : Opcode.ofByte? s.opcode with
  | none => exact absurd ⟨s', h⟩ (not_endsIn_of_unknown hop (.reported e))
  | some op =>
    replace hop := Opcode.ofByte?_eq_some_iff.1 hop
    by_cases hchecked : ∀ r ∈ s.checkedOperands op, r.toNat < registerCount
    case neg =>
      have hout : ∃ r ∈ s.checkedOperands op, registerCount ≤ r.toNat := by simpa using hchecked
      obtain ⟨k, hfetch⟩ := fetchInstruction_of_outside hc hout
      cases (cycle_of_fetch_error hop hfetch).symm.trans h
      exact .inl ⟨rfl, _, machine_reading s c k⟩
    case pos =>
      obtain ⟨i, hi, rfl⟩ | hreport := exists_instruction? hc hop
      case inr =>
        obtain ⟨r, hr, hout⟩ := (endsIn_registerOutOfBounds_iff hc hop).1 hreport
        exact absurd (hchecked r hr) (Nat.not_lt.2 hout)
      obtain ⟨s₁, hmachine, hcycle⟩ := exists_execute hi
      rw [hcycle] at h
      cases hrun : execute c i s₁ with
      | ok a s₂ =>
        rw [bind_ok hrun] at h
        cases h
      | error halt s₂ =>
        rw [bind_error hrun] at h
        cases h
        obtain ⟨α, a, hdoes, houtcome⟩ := (completes_execute c i s₁).composed.exists_of_error hrun
        obtain ⟨herror, hat⟩ := Action.report_of_outcome houtcome hdoes
        rw [hmachine] at hat
        exact .inr ⟨i, s₁.machine.ip, hi, herror, hat hc⟩

/-- That the stack is full is reported of a number that is pushed onto a full stack. -/
lemma pushesFull_of_endsIn (hrange : s.machine.InRange) (h : s.EndsIn c (.reported .stackFull)) :
    ∃ v, s.PushesFull c v := by
  obtain heq | ⟨i, hi, herror⟩ := exists_mayHalt_of_endsIn hc h
  · cases heq
  obtain ⟨r, rfl⟩ := eq_push_of_mem_errors herror
  cases hv : s.machine.integer? r with
  | none =>
    obtain ⟨s₁, hends⟩ := h
    obtain ⟨s₂, hreport⟩ := endsIn_notInteger_of_push hc hi hv
    cases hreport.symm.trans hends
  | some v =>
    have hfull := (moves_push hc hi hv hrange).not_of_endsIn h
    obtain ⟨hpos, hlt⟩ := hrange
    exact ⟨v, by omega, r, hi, hv⟩

/-- That there is no room for the address to return to is reported of a call on a full stack. -/
lemma call_of_endsIn (hrange : s.machine.InRange) (h : s.EndsIn c (.reported .callStackFull)) :
    s.machine.sp + 1 = stackSize ∧ ∃ t, s.instruction? c = some (.branch .call t) := by
  obtain heq | ⟨i, hi, herror⟩ := exists_mayHalt_of_endsIn hc h
  · cases heq
  obtain ⟨t, rfl⟩ := eq_call_of_mem_errors herror
  obtain ⟨hpos, hlt⟩ := hrange
  have hfull := (moves_call hc hi hpos).not_of_endsIn h
  exact ⟨by omega, t, hi⟩

/-! ## Cycles -/

omit hc in
/-- A machine that reports a register operand is as before, but for its pointer. -/
lemma failed_of_ip {p : UInt32} (hmachine : s'.machine = { s.machine with ip := p }) :
    Failed c .registerOutOfBounds s s' := by
  constructor
  case rest =>
    rw [hmachine]
  case sp =>
    intro _
    rw [hmachine]
  case zero =>
    intro _
    rw [hmachine]
  case pushed => exact nofun
  case called => exact nofun
  case cleared => exact nofun

/-- **A cycle that reports an error has changed nothing before**, but for a push or a call on a full
stack and for a comparison with a number.

**Proof sketch.** At the moment of the report the machine is the one of `exists_atReport`. -/
theorem failed_of_cycle (hrange : s.machine.InRange)
    (h : cycle Table.builtin c s = .error (.reported e) s') : Failed c e s s' := by
  obtain ⟨rfl, p, hmachine⟩ | ⟨i, p, hi, herror, hmachine⟩ := exists_atReport hc h
  · exact failed_of_ip hmachine
  have hop : s.opcode = i.opcode.toByte := (State.instruction?_eq_some_iff.1 hi).1
  constructor
  case rest =>
    rw [hmachine]
    exact atReport_rest i { s.machine with ip := p } e
  case sp =>
    intro hfull
    rw [hmachine]
    exact atReport_sp { s.machine with ip := p } herror hfull
  case pushed =>
    rintro rfl
    obtain ⟨v, hfull⟩ := pushesFull_of_endsIn hc hrange ⟨s', h⟩
    obtain ⟨s'', hsp, hcycle⟩ := cycle_push_of_full hc hfull
    cases hcycle.symm.trans h
    exact ⟨v, hfull, hsp⟩
  case called =>
    rintro rfl
    obtain ⟨hfull, t, ht⟩ := call_of_endsIn hc hrange ⟨s', h⟩
    cases hi.symm.trans ht
    refine ⟨⟨_, List.mem_singleton_self _, hop⟩, hfull, ?_⟩
    rw [hmachine]
    exact hfull
  case zero =>
    intro hnot
    rw [hmachine]
    refine atReport_zero { s.machine with ip := p } e fun hcompare => hnot ⟨?_, ?_⟩
    · exact ⟨_, List.mem_singleton_self _, hop.trans (congrArg Opcode.toByte hcompare)⟩
    · rw [hcompare] at herror
      exact List.mem_singleton.1 herror
  case cleared =>
    rintro ⟨op, hmem, hbyte⟩ rfl
    cases List.mem_singleton.1 hmem
    rw [hmachine]
    refine atReport_cleared { s.machine with ip := p } .notInteger (Option.some.inj ?_)
    rw [← Opcode.ofByte?_eq_some_iff.2 hop, Opcode.ofByte?_eq_some_iff.2 hbyte]

end Reports

/-! ## Hosts that go on after reports -/

/-- The same host, if it stopped at reports. -/
def Config.stopping (c : Config) : Config := { c with policy := .stop }

/-- Up to the first report of an action it does not matter what the host does with reports. -/
lemma Action.related_stopping {α : Type} (a : Action α) (c : Config) (s : State) :
    Related Eq (fun h => ∃ e, h = .reported e) (a.run c.stopping s) (a.run c s) := by
  rw [a.run_apply, a.run_apply]
  have hsame (h : a.outcome c.stopping s.machine s.entropy = a.outcome c s.machine s.entropy) :
      Related Eq (fun h => ∃ e, h = .reported e)
        (s.settle (a.outcome c.stopping s.machine s.entropy))
        (s.settle (a.outcome c s.machine s.entropy)) := by
    rw [h]
    cases s.settle (a.outcome c s.machine s.entropy) with
    | ok => exact .ok rfl
    | error => exact .error rfl
  cases a with
  | report e => exact .free ⟨e, rfl⟩
  | _ => exact hsame rfl

/-- **Up to the first report of a cycle it does not matter what the host does with reports.** -/
theorem related_stopping (c : Config) (s : State) :
    Related Eq (fun h => ∃ e, h = .reported e) (cycle Table.builtin c.stopping s)
      (cycle Table.builtin c s) := by
  refine (composed_cycle c.stopping s).related ?_ rfl
  rintro α a t _ - rfl
  exact a.related_stopping c t

/-- **A cycle that reports an error has changed nothing before**, up to three exceptions. Let the stack
pointer be on a slot. At the moment of the report:

* The memory, all registers and all slots of the stack are as before, and the machine goes on running
  if it did before.
* The stack pointer is where it was, unless a push or a call found the stack full. After a push it is
  then the number that was pushed, and after a call it is 1024.
* The flag is as before, unless a text was to be compared with a number: then it is cleared.

A host that stops at reports finds the machine at that moment. A host that goes on after them finds it
so at the first report of the cycle, since nothing that comes before depends on the host.

**Proof sketch.** Operands are read and checked before anything changes, so this is `failed_of_cycle`
and `related_stopping`. -/
theorem cycle_failed (c : Config) {s : State} (hrange : s.machine.InRange) :
    (c.policy ≠ .resume → ∀ e s', cycle Table.builtin c s = .error (.reported e) s' →
      Failed c e s s') ∧
    ((∀ e, ¬s.EndsIn c.stopping (.reported e)) →
      cycle Table.builtin c s = cycle Table.builtin c.stopping s) := by
  refine ⟨fun hc e s' h => failed_of_cycle hc hrange h, fun hsilent => ?_⟩
  have hrelated := related_stopping c s
  generalize hstop : cycle Table.builtin c.stopping s = r at hrelated
  generalize cycle Table.builtin c s = r' at hrelated ⊢
  cases hrelated with
  | ok heq => rw [heq]
  | error heq => rw [heq]
  | @free h s' _ hreport =>
    obtain ⟨e, rfl⟩ := hreport
    exact absurd ⟨s', hstop⟩ (hsilent e)

/-- A comparison of the first register with 0. -/
def comparing : Bytes := [(Opcode.immediate .compare).toByte, 0, 0, 0]

/-- A machine about to compare a text with 0. The flag is set. -/
def comparingText : State :=
  { loaded comparing with
    machine.registers := Vector.replicate registerCount (.text (.ofBytes [0x30])),
    machine.zero := true }

theorem cycle_failed_comparingText :
    comparingText.machine.InRange ∧ comparingText.machine.zero = true ∧
      ∃ s', cycle Table.builtin {} comparingText = .error (.reported .notInteger) s' ∧
        s'.machine.zero = false ∧ s'.machine.registers = comparingText.machine.registers ∧
        s'.machine.ram = comparingText.machine.ram := by
  have hrange : comparingText.machine.InRange := ⟨by decide, by decide⟩
  have hcycle : ∃ s', cycle Table.builtin {} comparingText = .error (.reported .notInteger) s' :=
    ⟨_, @cycle_of_drop comparing _ _ comparingText 0 rfl rfl rfl {} (by decide)
      (List.forall_mem_singleton.2 (by decide))⟩
  obtain ⟨s', hcycle⟩ := hcycle
  have hfailed := (cycle_failed {} hrange).1 (by decide) _ _ hcycle
  have hopcode : comparingText.opcode = (Opcode.immediate .compare).toByte :=
    comparingText.opcode_eq_operand.trans (@operand_ofBytes comparing comparingText rfl 0)
  refine ⟨hrange, rfl, s', hcycle, ?_, by rw [hfailed.rest], by rw [hfailed.rest]⟩
  exact hfailed.cleared ⟨_, List.mem_singleton_self _, hopcode⟩ rfl

/-- A machine about to push 0 onto a full stack. -/
def pushingFull : State := { loaded pushForever with machine.sp := 1023 }

/-- The stack pointer need not have left its range when it is reported that the stack is full: after
0 was pushed onto a full stack it is 0. -/
theorem sp_cycle_pushingFull :
    pushingFull.machine.InRange ∧ pushingFull.machine.sp + 1 = stackSize ∧
      ∃ s', cycle Table.builtin {} pushingFull = .error (.reported .stackFull) s' ∧
        s'.machine.sp = 0 := by
  have hnext : PushesNext 1023 pushingFull := ⟨rfl, rfl, rfl, rfl, rfl⟩
  obtain ⟨s', hsp, hcycle⟩ :=
    cycle_push_of_full (c := {}) (by decide) (hnext.pushesFull (by decide) {})
  exact ⟨⟨by decide, by decide⟩, by decide, s', hcycle, hsp⟩

end RegisterMachine
