import RegisterMachine.Proofs.Halts
import RegisterMachine.Proofs.Runs

/-!
# Which register operands are safe

The machine has ten registers, and a register operand is a byte, so most bytes name no register. An
operation is safe if a register operand that names no register is always reported, and no register
that is not there is ever read or written. Nearly all operations are. The exceptions are arithmetic,
division and the concatenation of texts: they check their destination, and their sources not at all.

## Main definitions

* `State.RegisterSafe` — the next cycle is safe for the registers.
* `State.SourceOutside` — it is one with a source that names no register and is not checked.
* `Ternary.takes`, `Ternary.mismatch` — the values that an operation wants from its sources, and what
  is reported of others.

## Main results

* `registerSafe_iff` — a cycle is safe for the registers unless it has such a source.
-/

namespace RegisterMachine

open Effect Exec

/-- The next cycle, which is one of the given operation, is safe for the registers. -/
structure State.RegisterSafe (c : Config) (s : State) (op : Opcode) : Prop where
  /-- A register operand that names no register is reported. -/
  reported : ∀ r ∈ s.registerOperands op, registerCount ≤ r.toNat →
    s.EndsIn c (.reported .registerOutOfBounds)
  /-- No register is read or written that is not there. -/
  inside : ∀ n, ¬s.EndsIn c (.trapped (.register n))

/-- The next cycle is one of an operation that does not check its sources. Its destination is a
register, and a source is not. -/
def State.SourceOutside (s : State) (op : Opcode) : Prop :=
  (∃ t : Ternary, op = .ternary t ∧ t.checksSources = false) ∧
    (s.operand 1).toNat < registerCount ∧
    (registerCount ≤ (s.operand 2).toNat ∨ registerCount ≤ (s.operand 3).toNat)

/-! ## Sources that are not checked -/

/-- Whether an operation can use a value as a source. -/
def Ternary.takes : Ternary → Value → Bool
  | .concat, .text _ => true
  | .concat, .int _ => false
  | _, .int _ => true
  | _, .text _ => false

/-- What an operation reports of a source that it cannot use. -/
def Ternary.mismatch : Ternary → Error
  | .concat => .notText
  | .arith _ | .div | .copyBlock => .notInteger

section Sources

variable {c : Config} (hc : c.policy ≠ .resume) {op : Ternary} (hop : op.checksSources = false)
  {d a b : UInt8} {s : State}

include hc hop

/-- The first source is looked at first. -/
lemma executeTernary_of_first (ha : s.machine.register? a.toNat = none) :
    executeTernary c d a b op s = .error (.trapped (.register a.toNat)) s := by
  have hint := intOf_apply hc a s
  have htext := textOf_apply hc a s
  rw [ha] at hint htext
  cases op with
  | arith op => exact bind_error hint
  | div => exact bind_error hint
  | concat => exact bind_error htext
  | copyBlock => exact absurd hop (by decide)

/-- The second source is looked at if the first one can be used. -/
lemma executeTernary_of_second {v : Value} (ha : s.machine.register? a.toNat = some v)
    (hb : s.machine.register? b.toNat = none) :
    executeTernary c d a b op s =
      .error (if op.takes v then .trapped (.register b.toNat) else .reported op.mismatch) s := by
  have hint := intOf_apply hc a s
  have htext := textOf_apply hc a s
  have hint' := intOf_apply hc b s
  have htext' := textOf_apply hc b s
  rw [ha] at hint htext
  rw [hb] at hint' htext'
  cases v with
  | int n =>
    cases op with
    | arith op => exact (bind_ok hint).trans (bind_error hint')
    | div => exact (bind_ok hint).trans (bind_error hint')
    | concat => exact bind_error htext
    | copyBlock => exact absurd hop (by decide)
  | text t =>
    cases op with
    | arith op => exact bind_error hint
    | div => exact bind_error hint
    | concat => exact (bind_ok htext).trans (bind_error htext')
    | copyBlock => exact absurd hop (by decide)

end Sources

section Cycles

variable {c : Config} (hc : c.policy ≠ .resume) {op : Ternary} (hchecks : op.checksSources = false)
  {s : State} (hop : s.opcode = (Opcode.ternary op).toByte)
  (hd : (s.operand 1).toNat < registerCount)

include hc hchecks hop hd

/-- A first source that names no register is read all the same. -/
lemma endsIn_of_first (ha : registerCount ≤ (s.operand 2).toNat) :
    s.EndsIn c (.trapped (.register (s.operand 2).toNat)) := by
  have hfetch := fetchInstruction_ternary c op hd (by simp [hchecks])
  exact (endsIn_iff_execute hop hfetch).2
    ⟨_, executeTernary_of_first hc hchecks (register?_eq_none_iff.2 ha)⟩

/-- So is a second one, unless the first one cannot be used. -/
lemma endsIn_of_second {v : Value} (ha : s.machine.register? (s.operand 2).toNat = some v)
    (hb : registerCount ≤ (s.operand 3).toNat) :
    s.EndsIn c
      (if op.takes v then .trapped (.register (s.operand 3).toNat) else .reported op.mismatch) := by
  have hfetch := fetchInstruction_ternary c op hd (by simp [hchecks])
  refine (endsIn_iff_execute hop hfetch).2
    ⟨_, executeTernary_of_second hc hchecks ?_ (register?_eq_none_iff.2 hb)⟩
  rw [machine_told, machine_reading]
  exact ha

end Cycles

/-! ## Safe and unsafe cycles -/

section Safety

variable {c : Config} (hc : c.policy ≠ .resume) {s : State} {op : Opcode}

/-- Where a register operand names no register, one that is checked does, unless it is a source of
an operation that does not check its sources. -/
lemma exists_checked_of_not_sourceOutside (h : ¬s.SourceOutside op) {r : UInt8}
    (hr : r ∈ s.registerOperands op) (hout : registerCount ≤ r.toNat) :
    ∃ r ∈ s.checkedOperands op, registerCount ≤ r.toNat := by
  have hall (heq : op.checkedArity = op.arity) : r ∈ s.checkedOperands op := by
    rw [State.checkedOperands, heq, List.take_of_length_le (by simp [State.registerOperands])]
    exact hr
  cases op with
  | plain | unary | binary | branch | immediate | literal => exact ⟨r, hall rfl, hout⟩
  | ternary t =>
    cases hchecks : t.checksSources with
    | true => exact ⟨r, hall (by simp [Opcode.checkedArity, Opcode.arity, hchecks]), hout⟩
    | false =>
      have hfirst : s.operand 1 ∈ s.checkedOperands (.ternary t) := by
        simp [State.checkedOperands, State.registerOperands, Opcode.checkedArity, Opcode.arity,
          hchecks, List.range_succ]
      refine ⟨s.operand 1, hfirst, ?_⟩
      -- otherwise the operand that names no register is one of the sources
      by_cases hd : (s.operand 1).toNat < registerCount
      case neg => exact Nat.not_lt.1 hd
      case pos =>
        have hcases : r = s.operand 1 ∨ r = s.operand 2 ∨ r = s.operand 3 := by
          simpa [State.registerOperands, Opcode.arity, List.range_succ] using hr
        obtain rfl | rfl | rfl := hcases
        · exact hout
        · exact absurd ⟨⟨t, rfl, hchecks⟩, hd, .inl hout⟩ h
        · exact absurd ⟨⟨t, rfl, hchecks⟩, hd, .inr hout⟩ h

/-- With such a source nothing is reported of the operands. -/
lemma not_exists_checked_of_sourceOutside (h : s.SourceOutside op) :
    ¬∃ r ∈ s.checkedOperands op, registerCount ≤ r.toNat := by
  obtain ⟨⟨t, rfl, hchecks⟩, hd, -⟩ := h
  rintro ⟨r, hr, hout⟩
  obtain rfl : r = s.operand 1 := by
    simpa [State.checkedOperands, State.registerOperands, Opcode.checkedArity, Opcode.arity,
      hchecks, List.range_succ] using hr
  omega

include hc

/-- **A cycle is safe for the registers unless it has a source that names no register and is not
checked.** Under a host that stops at reports:

* An opcode without a meaning ends in no way early, and whatever its bytes are.
* That a register operand is out of bounds is reported if and only if one that is checked is.
* A cycle is safe for the registers if and only if it is not one with an unchecked source outside.
* Otherwise a first source outside is read though it is not there. A second one is, too, if the first
  can be used; if not, that is what is reported, and nothing is said of the second.

**Proof sketch.** The operands are read and checked before anything is done, so a cycle with all its
checks passed ends early only as its instruction may; and an instruction reaches for a register that
is not there only if it is one of its operands. -/
theorem registerSafe_iff :
    Error.registerOutOfBounds.message = ascii "Register out of bounds" ∧
    (Opcode.ofByte? s.opcode = none → ∀ h, ¬s.EndsIn c h) ∧
    ∀ op, s.opcode = op.toByte →
      (s.EndsIn c (.reported .registerOutOfBounds) ↔
        ∃ r ∈ s.checkedOperands op, registerCount ≤ r.toNat) ∧
      (s.RegisterSafe c op ↔ ¬s.SourceOutside op) ∧
      ∀ t, op = .ternary t → s.SourceOutside op →
        (registerCount ≤ (s.operand 2).toNat →
          s.EndsIn c (.trapped (.register (s.operand 2).toNat))) ∧
        ∀ v, s.machine.register? (s.operand 2).toNat = some v →
          s.EndsIn c (if t.takes v then .trapped (.register (s.operand 3).toNat)
            else .reported t.mismatch) := by
  refine ⟨rfl, not_endsIn_of_unknown, fun op hop =>
    ⟨endsIn_registerOutOfBounds_iff hc hop, ⟨fun hsafe hsource => ?_, fun hsource => ?_⟩, ?_⟩⟩
  · apply not_exists_checked_of_sourceOutside hsource
    rw [← endsIn_registerOutOfBounds_iff hc hop]
    obtain ⟨⟨t, rfl, -⟩, -, hout | hout⟩ := hsource
    · exact hsafe.reported (s.operand 2) (by simp [State.registerOperands, Opcode.arity,
        List.range_succ]) hout
    · exact hsafe.reported (s.operand 3) (by simp [State.registerOperands, Opcode.arity,
        List.range_succ]) hout
  · refine ⟨fun r hr hout => ?_, fun n hends => ?_⟩
    · exact endsIn_of_outside hc hop (exists_checked_of_not_sourceOutside hsource hr hout)
    · by_cases hchecked : ∀ r ∈ s.checkedOperands op, r.toNat < registerCount
      case pos =>
        obtain ⟨i, -, hregisters, hout, r, hr, rfl⟩ := mayHalt_of_endsIn hc hop hchecked hends
        rw [hregisters] at hr
        obtain ⟨r', hr', hout'⟩ := exists_checked_of_not_sourceOutside hsource hr hout
        exact absurd (hchecked r' hr') (Nat.not_lt.2 hout')
      case neg =>
        obtain ⟨s₁, hreport⟩ := endsIn_of_outside hc hop (by simpa using hchecked)
        obtain ⟨s₂, htrap⟩ := hends
        exact absurd (hreport.symm.trans htrap) (by simp)
  · rintro t rfl ⟨⟨t', ht, hchecks⟩, hd, hout⟩
    cases ht
    refine ⟨endsIn_of_first hc hchecks hop hd, fun v hv => endsIn_of_second hc hchecks hop hd hv ?_⟩
    have hfirst : (s.operand 2).toNat < registerCount := by
      rw [← Nat.not_le, ← register?_eq_none_iff (m := s.machine), hv]
      simp
    omega

end Safety

/-- A program that stores a text and adds to it the content of a register that is not there. -/
def addOutside : Bytes :=
  (Opcode.literal .store).toByte :: 3 :: 1 :: 0 :: ascii "x" ++
    [(Opcode.ternary (.arith .add)).toByte, 0, 3, 10, (Opcode.plain .exit).toByte]

/-- The state after the first cycle: the text is in its register. -/
def addOutsideStored : State where
  machine := { (loaded addOutside).machine with
    ip := 5
    registers := (loaded addOutside).machine.registers.set 3 (.text (.ofBytes (ascii "x"))) }
  log := #[]
  entropy := {}

/-- The addition has a source that is not checked and names no register. -/
lemma sourceOutside_addOutside :
    addOutsideStored.opcode = (Opcode.ternary (.arith .add)).toByte ∧
      addOutsideStored.SourceOutside (.ternary (.arith .add)) ∧
      addOutsideStored.machine.register? (addOutsideStored.operand 2).toNat =
        some (.text (.ofBytes (ascii "x"))) := by
  have hoperand := @operand_ofBytes addOutside addOutsideStored rfl
  rw [State.opcode_eq_operand, State.SourceOutside, hoperand 0, hoperand 1, hoperand 2, hoperand 3]
  exact ⟨by decide, ⟨⟨.arith .add, rfl, rfl⟩, by decide, .inr (by decide)⟩, rfl⟩

theorem registerSafe_iff_addOutside :
    (loaded addOutside).RegisterSafe {} (.literal .store) ∧
      ¬addOutsideStored.RegisterSafe {} (.ternary (.arith .add)) ∧
      addOutsideStored.EndsIn {} (.reported .notInteger) := by
  obtain ⟨hadd, hsource, hvalue⟩ := sourceOutside_addOutside
  have hstore : (loaded addOutside).opcode = (Opcode.literal .store).toByte := by
    rw [State.opcode_eq_operand, @operand_ofBytes addOutside (loaded addOutside) rfl]
    decide
  obtain ⟨-, -, hfirst⟩ := registerSafe_iff (c := {}) (by decide) (s := loaded addOutside)
  obtain ⟨-, -, hsecond⟩ := registerSafe_iff (c := {}) (by decide) (s := addOutsideStored)
  obtain ⟨-, hsafe, -⟩ := hfirst _ hstore
  obtain ⟨-, hunsafe, hends⟩ := hsecond _ hadd
  refine ⟨hsafe.2 ?_, fun h => hunsafe.1 h hsource, (hends _ rfl hsource).2 _ hvalue⟩
  rintro ⟨⟨t, ht, -⟩, -⟩
  exact absurd ht (by simp)

/-- An operand that names no register need not be reported: the program is loaded into a new machine,
and its second cycle adds the content of register 10, but what is reported is that register 3 holds a
text. -/
theorem ending_run_addOutside :
    Machine.load? addOutside = some (loaded addOutside).machine ∧
      (run Table.builtin {} 0 4 1 (loaded addOutside)).state = addOutsideStored ∧
      addOutsideStored.registerOperands (.ternary (.arith .add)) = [0, 3, 10] ∧
      (run Table.builtin {} 0 4 2 (loaded addOutside)).ending =
        .halted (.reported .notInteger) := by
  have hstore : cycle Table.builtin {} (loaded addOutside) = .ok (0x30, true) addOutsideStored :=
    @cycle_of_drop addOutside _ _ (loaded addOutside) 0 rfl rfl rfl {} (by decide)
      (List.forall_mem_singleton.2 (by decide))
  obtain ⟨hadd, ⟨⟨t, ht, hchecks⟩, hd, hout⟩, hvalue⟩ := sourceOutside_addOutside
  cases ht
  have hfirst (fuel : Nat) :
      run Table.builtin {} 0 4 (fuel + 1) (loaded addOutside) =
        proceed Table.builtin {} 0 4 fuel
          ((Progress.start (loaded addOutside)).after 0 (loaded addOutside) (0x30, true)
            addOutsideStored) addOutsideStored := by
    have hlimit : addOutsideStored.limited 4 1 = addOutsideStored := rfl
    have hcycle := proceed_of_cycle 0 4 fuel (Progress.start (loaded addOutside)) rfl hstore
    exact hcycle.trans (congrArg _ hlimit)
  have hoperand := @operand_ofBytes addOutside addOutsideStored rfl
  have hthird : registerCount ≤ (addOutsideStored.operand 3).toNat := by
    rw [hoperand 3]
    decide
  obtain ⟨s', hends⟩ := endsIn_of_second (c := {}) (by decide) hchecks hadd hd hvalue hthird
  refine ⟨rfl, congrArg Run.state (hfirst 0), ?_, ?_⟩
  · simp only [State.registerOperands, Opcode.arity, hoperand]
    decide
  · rw [hfirst 1, proceed_of_error 0 4 0 _ rfl hends]
    rfl

end RegisterMachine
