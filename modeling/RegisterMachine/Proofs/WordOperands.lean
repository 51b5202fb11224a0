import RegisterMachine.Proofs.Characters
import RegisterMachine.Proofs.Headwords
import RegisterMachine.Proofs.Rounding

/-!
# Numbers as word operands

A number that is stored, compared or jumped to should be a complete decimal or hexadecimal literal of
a number below 65536, which becomes two bytes, and anything else should be a fault. Of this only the
first half holds: a literal below 65536 becomes its two bytes, but not everything else is a fault. A
number above 65535 is one for a store, and not for a jump or a comparison. There a text counts for as
much of it as makes a number, a comparison takes any text for a number, and a text behind `0x` may be
anything.

So a fault is the exception: it arises where the register or one of the two parts of the word cannot be
written as a character, and where a store finds its number too large.

## Main definitions

* `Spells` — complete literals.
* `Quantity.IsWritable`, `Quantity.HasWord` — numbers that can be written as a character, or as a word.
* `WordUse.Accepts` — a number is written without a fault.
* `WordUse.Kept` — what should become of a number.

## Main results

* `WordUse.statement_number` — what is written for a number.
* `WordUse.accepts_iff` — when there is no fault.
* `WordUse.reads_of_spells`, `WordUse.exceeds_of_spells` — how literals are read.
* `WordUse.kept_statement_iff` — what is written for a word.
* `WordUse.kept_iff` — when a number becomes what it should.
-/

namespace RegisterMachine

open Effect

/-! ## Numbers that can be written -/

namespace Quantity

/-- A number that can be written as a character. -/
def IsWritable (q : Quantity) : Prop := ∃ n, q.character = .ok n

/-- A number below 256 is written as its byte. -/
lemma bytes_ofNat_of_lt {n : Nat} (h : n < 256) : (ofNat n).bytes = [UInt8.ofNat n] := by
  have hle : n ≤ CodePoint.largest := Nat.le_trans (Nat.le_of_lt h) (by decide)
  rw [bytes, Draft.character_ofNat hle]
  exact CodePoint.encode_of_lt h

/-- A number whose two parts can be written: a negative one, or one that is not too large. -/
def HasWord : Quantity → Prop
  | nan => False
  | infinite _ => False
  | finite negative whole _ => negative = true ∨ whole / 256 ≤ CodePoint.largest

/-- Every number that is not too large can be written, and every negative one. -/
lemma isWritable_finite_iff (negative : Bool) (whole fraction : Nat) :
    (finite negative whole fraction).IsWritable ↔
      isNegative (finite negative whole fraction) = true ∨ whole ≤ CodePoint.largest := by
  have hlargest : CodePoint.largest = 0x7FFFFFFFFFFFFFFF := rfl
  rw [IsWritable, character]
  cases isNegative (finite negative whole fraction) with
  | true => simp
  | false =>
    simp only [Bool.false_eq_true, if_false, false_or]
    split
    · next hlarge =>
      simp only [reduceCtorEq, exists_const, false_iff]
      omega
    · next hsmall =>
      simp only [Except.ok.injEq, exists_eq', true_iff]
      omega

lemma isWritable_ofNat_iff (n : Nat) : (ofNat n).IsWritable ↔ n ≤ CodePoint.largest := by
  simp [ofNat, isWritable_finite_iff, isNegative]

/-- **When both parts of a number can be written.** The low part always can, if there is one. -/
lemma hasWord_iff (q : Quantity) : q.HasWord ↔ q.low.IsWritable ∧ q.high.IsWritable := by
  have hnan : ¬nan.IsWritable := fun ⟨n, h⟩ => nomatch h
  cases q with
  | nan => simp [HasWord, low, hnan]
  | infinite negative => simp [HasWord, low, hnan]
  | finite negative whole fraction =>
    have hlow : (low (finite negative whole fraction)).IsWritable := by
      rw [low, isWritable_ofNat_iff]
      have hlargest : CodePoint.largest = 0x7FFFFFFFFFFFFFFF := rfl
      have hmod := Nat.mod_lt whole (by decide : 256 > 0)
      split <;> omega
    simp only [hlow, true_and, HasWord]
    cases negative with
    | false => simp [high, isWritable_finite_iff, isNegative]
    | true =>
      -- the high part of a negative number is negative or zero
      simp only [true_or, high, isWritable_finite_iff, isNegative, Bool.true_and, Bool.or_eq_true,
        bne_iff_ne, true_iff]
      omega

end Quantity

/-- Numbers are written without a fault exactly if each of them can be written. -/
lemma Draft.putAll_ok_iff (qs : List Quantity) (d : Draft) :
    (∃ d', putAll qs d = .ok () d') ↔ ∀ q ∈ qs, q.IsWritable := by
  constructor
  · rintro ⟨d', h⟩
    exact (putAll_ok h).1
  · intro h
    induction qs generalizing d with
    | nil => exact ⟨d, rfl⟩
    | cons q qs ih =>
      obtain ⟨n, hn⟩ := h q (by simp)
      have hput : put q d = .ok () (append (CodePoint.encode n) 1 d) := by
        rw [put, hn]
        rfl
      rw [putAll, bind_ok hput]
      exact ih _ fun p hp => h p (by simp [hp])

/-! ## Literals -/

/-- A text is a complete decimal or hexadecimal literal of a number. -/
inductive Spells : Bytes → Nat → Prop
  | decimal {w : Bytes} (hw : Numeral.IsDecimal w) : Spells w (Numeral.ofDigits w)
  | hex {x : Char} {w : Bytes} (hx : x = 'x' ∨ x = 'X') (hw : Numeral.IsHex w) :
    Spells (byte '0' :: byte x :: w) (Numeral.ofHex w)

namespace WordUse

open Draft Statement

/-! ## What is written -/

/-- The registers of an operation with a word operand. -/
def registers : WordUse → List Quantity
  | branch _ => []
  | immediate _ r => [r]

/-- The opcode of an operation with a word operand. -/
def opcode : WordUse → Opcode
  | branch op => .branch op
  | immediate op _ => .immediate op

/-- Whether numbers above 65535 are refused. -/
def bounded : WordUse → Bool
  | immediate .store _ => true
  | _ => false

/-- A number is written without a fault. -/
structure Accepts (u : WordUse) (q : Quantity) : Prop where
  /-- The register can be written. -/
  registers : ∀ r ∈ u.registers, r.IsWritable
  /-- Both parts of the number can be written. -/
  hasWord : q.HasWord
  /-- It is not too large for a store. -/
  le_bound : u.bounded = true → q.exceeds 65535 = false

variable {u : WordUse} {q : Quantity}

/-- **What is written for a number.** -/
lemma statement_number (u : WordUse) (q : Quantity) (d : Draft) :
    Draft.statement (u.statement (.number q)) d =
      if u.bounded = true ∧ q.exceeds 65535 = true then .error .integerTooLarge d
      else putAll (Draft.opcode u.opcode :: u.registers ++ [q.low, q.high]) d := by
  cases u with
  | branch op => rfl
  | immediate op r =>
    cases op with
    | compare => rfl
    | store =>
      rw [statement, Draft.statement]
      cases q.exceeds 65535 <;> rfl

/-- **When there is no fault.** -/
lemma accepts_iff (u : WordUse) (q : Quantity) (d : Draft) :
    (∃ d', Draft.statement (u.statement (.number q)) d = .ok () d') ↔ u.Accepts q := by
  have hopcode : (Draft.opcode u.opcode).IsWritable := by
    rw [Draft.opcode, Quantity.isWritable_ofNat_iff]
    exact Nat.le_trans (Nat.le_of_lt u.opcode.toByte.toNat_lt) (by decide)
  rw [statement_number]
  split
  · next hlarge =>
    refine ⟨fun ⟨_, h⟩ => (nomatch h), fun h => ?_⟩
    rw [h.le_bound hlarge.1] at hlarge
    exact Bool.noConfusion hlarge.2
  · next hbound =>
    have hparts : (∀ p ∈ Draft.opcode u.opcode :: u.registers ++ [q.low, q.high], p.IsWritable) ↔
        (∀ r ∈ u.registers, r.IsWritable) ∧ q.HasWord := by
      rw [List.forall_mem_append, List.forall_mem_cons, Quantity.hasWord_iff]
      simp [hopcode]
    rw [putAll_ok_iff, hparts]
    constructor
    · rintro ⟨hregisters, hword⟩
      exact ⟨hregisters, hword, fun h => by simpa [h] using hbound⟩
    · intro h
      exact ⟨h.registers, h.hasWord⟩

/-- A fault is the only other outcome. -/
lemma not_accepts_iff (u : WordUse) (q : Quantity) (d : Draft) :
    (∃ f d', Draft.statement (u.statement (.number q)) d = .error f d') ↔ ¬u.Accepts q := by
  rw [← accepts_iff u q d]
  cases Draft.statement (u.statement (.number q)) d <;> simp

/-- The bytes that are written for a number, if there is no fault. -/
lemma code_of_ok {d d' : Draft} (h : Draft.statement (u.statement (.number q)) d = .ok () d') :
    d'.code = d.code ++ (u.opcode.toByte :: (u.registers.flatMap Quantity.bytes ++
      (q.low.bytes ++ q.high.bytes))) := by
  rw [statement_number] at h
  split at h
  · cases h
  · obtain ⟨-, rfl⟩ := putAll_ok h
    have hopcode : (Draft.opcode u.opcode).bytes = [u.opcode.toByte] := by
      rw [Draft.opcode, Quantity.bytes_ofNat_of_lt u.opcode.toByte.toNat_lt, UInt8.ofNat_toNat]
    simp [extend, hopcode]

/-! ## How literals are read -/

section Literals

variable {w : Bytes} {v : Nat}

lemma number_decimal (hw : Numeral.IsDecimal w) : number w = Quantity.read w := by
  rw [number, Quantity.beginsWith_decimal "0x" hw.2 (by decide), if_neg Bool.false_ne_true]

lemma number_hex {x : Char} (hx : x = 'x' ∨ x = 'X') (w : Bytes) :
    number (byte '0' :: byte x :: w) = Quantity.readHex (ascii "0x" ++ w) := by
  rcases hx with rfl | rfl <;> rfl

/-- A literal below `2 ^ 64` is read as the number that it spells. -/
lemma number_of_spells (hw : Spells w v) (hv : v < 2 ^ 64) : number w = .ofNat v := by
  cases hw with
  | decimal hw => rw [number_decimal hw, Quantity.read_decimal hw hv]
  | hex hx hw => rw [number_hex hx, Quantity.readHex_hex hw hv]

/-- A literal above a bound is read as a number above it. -/
lemma exceeds_of_spells (hw : Spells w v) (hv : 65535 < v) : (number w).exceeds 65535 = true := by
  cases hw with
  | decimal hw =>
    rw [number_decimal hw]
    exact Quantity.exceeds_read hw (by decide) hv
  | hex hx hw =>
    rw [number_hex hx]
    exact Quantity.exceeds_readHex hw (by decide) hv

/-- A literal that is read as a number is read as the same number by all operations. -/
lemma reads_of_spells (hw : Spells w v) (h : u.reads w = .number q) : q = number w := by
  have htarget : target w = .number q → q = number w := by
    intro h
    cases hw with
    | decimal hw =>
      have hmark : ¬(ascii "0x").isPrefixOf w = true := by
        intro hprefix
        have hmem : byte 'x' ∈ w :=
          (List.isPrefixOf_iff_prefix.1 hprefix).subset (by decide)
        exact absurd (hw.2 _ hmem) (by decide)
      rw [target, if_neg hmark, if_pos (List.all_eq_true.2 hw.2)] at h
      rw [number_decimal hw]
      exact (Target.number.inj h).symm
    | hex hx hw =>
      rw [number_hex hx]
      rcases hx with rfl | rfl
      · exact (Target.number.inj h).symm
      · exact nomatch h
  cases u with
  | branch op => exact htarget h
  | immediate op r =>
    cases op with
    | store => exact htarget h
    | compare => exact (Target.number.inj h).symm

end Literals

/-! ## What should become of a number -/

/-- What should become of a number: a fault, or the opcode, the register and the two bytes of a number
below 65536 of which the operand is a complete literal. -/
def Kept (u : WordUse) (w : Bytes) (d : Draft) : EStateM.Result Fault Draft Unit → Prop
  | .error _ _ => True
  | .ok _ d' => ∃ v ≤ 65535, Spells w v ∧
    d'.code = d.code ++ (u.opcode.toByte :: (u.registers.flatMap Quantity.bytes ++
      [UInt8.ofNat (v % 256), UInt8.ofNat (v / 256)]))

/-- The bytes of a literal below 65536. -/
lemma bytes_of_spells {w : Bytes} {v : Nat} (hw : Spells w v) (hv : v ≤ 65535)
    (h : u.reads w = .number q) :
    q.low.bytes ++ q.high.bytes = [UInt8.ofNat (v % 256), UInt8.ofNat (v / 256)] := by
  rw [reads_of_spells hw h, number_of_spells hw (by omega), (low_high_ofNat v).1, (low_high_ofNat v).2,
    Quantity.bytes_ofNat_of_lt (Nat.mod_lt v (by decide)), Quantity.bytes_ofNat_of_lt (by omega)]
  rfl

/-- Which literals are accepted: a store takes none above 65535, and the other operations take all
below `2 ^ 64`. -/
lemma accepts_of_spells {w : Bytes} {v : Nat} (hw : Spells w v) (h : u.reads w = .number q) :
    (u.bounded = true → 65535 < v → ¬u.Accepts q) ∧
      ((∀ r ∈ u.registers, r.IsWritable) → v < 2 ^ 64 → (u.bounded = true → v ≤ 65535) →
        u.Accepts q) := by
  constructor
  · intro hbounded hv haccepts
    have hexceeds := exceeds_of_spells hw hv
    rw [← reads_of_spells hw h, haccepts.le_bound hbounded] at hexceeds
    cases hexceeds
  · intro hregisters hv hbound
    rw [reads_of_spells hw h, number_of_spells hw hv]
    refine ⟨hregisters, .inr ?_, fun hbounded => ?_⟩
    · have hlargest : CodePoint.largest = 2 ^ 63 - 1 := rfl
      omega
    · rw [← Bool.not_eq_true, Quantity.exceeds_ofNat]
      exact Nat.not_lt.2 (hbound hbounded)

/-- What is written for a word is what should be, exactly for the literals below 65536 and where there
is a fault. -/
lemma kept_statement_iff {w : Bytes} (h : u.reads w = .number q) (d : Draft) :
    u.Kept w d (Draft.statement (u.statement (.number q)) d) ↔
      (∃ v ≤ 65535, Spells w v) ∨ ¬u.Accepts q := by
  rw [← not_accepts_iff u q d]
  cases hwork : Draft.statement (u.statement (.number q)) d with
  | error f d' => exact ⟨fun _ => .inr ⟨f, d', rfl⟩, fun _ => trivial⟩
  | ok _ d' =>
    constructor
    · rintro ⟨v, hv, hw, -⟩
      exact .inl ⟨v, hv, hw⟩
    · rintro (⟨v, hv, hw⟩ | ⟨f, d'', herror⟩)
      · exact ⟨v, hv, hw, by rw [code_of_ok hwork, bytes_of_spells hw hv h]⟩
      · cases herror

/-- A line with a word operand that states a number has the number in this operand. -/
lemma reads_of_layout {line front w t : Bytes} (hlayout : u.Layout line front w t)
    (h : parse line = u.statement (.number q)) : u.reads w = .number q := by
  rcases parse_of_layout hlayout with hword | hshadow
  · exact (statement_inj (hword.symm.trans h)).2
  · rw [h] at hshadow
    -- registers and text constants are stated otherwise
    cases u with
    | branch op => cases hshadow
    | immediate op r => cases op <;> cases hshadow

/-- **When a number becomes what it should.** Whatever states a number in an operation with a word
operand is a line with such an operand. A line with a word operand is never unknown: it states the
operation with this word, or with a register or a text constant in its place. If it states a number,
then there is a fault exactly if the number is not accepted. If the word is a complete literal below
65536, it becomes its two bytes; any other word is turned into something else without a fault, unless
the number is not accepted. In particular a store accepts no literal above 65535, and jumps and
comparisons accept all of them below `2 ^ 64`.

**Proof sketch.** The form that made the statement tells where the word is, and the first word of the
line leaves no other form than those of its operation. The statement tells what is written. A literal
of a number that 64 bits hold is read as this number, and any larger literal as a number above
65535. -/
theorem kept_iff (u : WordUse) (line : Bytes) :
    (∀ q, parse line = u.statement (.number q) → ∃ front w t, u.Layout line front w t) ∧
    ∀ front w t, u.Layout line front w t →
      (parse line = u.statement (u.reads w) ∨ Shadows w u (parse line)) ∧
      ∀ q, parse line = u.statement (.number q) →
        u.reads w = .number q ∧
        (∀ d, (∃ f d', Draft.statement (parse line) d = .error f d') ↔ ¬u.Accepts q) ∧
        (∀ d, u.Kept w d (Draft.statement (parse line) d) ↔
          (∃ v ≤ 65535, Spells w v) ∨ ¬u.Accepts q) ∧
        ∀ v, Spells w v →
          (u.bounded = true → 65535 < v → ¬u.Accepts q) ∧
          ((∀ r ∈ u.registers, r.IsWritable) → v < 2 ^ 64 → (u.bounded = true → v ≤ 65535) →
            u.Accepts q) := by
  constructor
  · intro q h
    obtain ⟨front, w, t, hlayout, -⟩ := exists_operand h
    exact ⟨front, w, t, hlayout⟩
  · intro front w t hlayout
    refine ⟨parse_of_layout hlayout, fun q h => ?_⟩
    have hreads := reads_of_layout hlayout h
    refine ⟨hreads, fun d => ?_, fun d => ?_, fun v hw => accepts_of_spells hw hreads⟩
    · rw [h]
      exact not_accepts_iff u q d
    · rw [h]
      exact kept_statement_iff hreads d

/-- A number that is one too large for a word, with a zero in front. A store refuses it. -/
theorem kept_iff_storeLarge :
    parse (ascii "\tstore #3, 065536 # more") =
        statement (.number (.ofNat 65536)) (.immediate .store (.ofNat 3)) ∧
      ∀ d, ∃ f d', Draft.statement (parse (ascii "\tstore #3, 065536 # more")) d = .error f d' := by
  have h : parse (ascii "\tstore #3, 065536 # more") =
      statement (.number (.ofNat 65536)) (.immediate .store (.ofNat 3)) := by decide +kernel
  obtain ⟨hstated, hlaid⟩ := kept_iff (.immediate .store (.ofNat 3)) (ascii "\tstore #3, 065536 # more")
  obtain ⟨front, w, t, hlayout⟩ := hstated _ h
  obtain ⟨-, hfault, -⟩ := (hlaid front w t hlayout).2 _ h
  refine ⟨h, fun d => (hfault d).2 fun haccepts => ?_⟩
  exact absurd (haccepts.le_bound rfl) (by decide)

/-- A comparison with a number that is too large for a word, one with a name, a jump to a number that
is too large, and a store of a marked text that is no number: none of them is a fault. -/
theorem assemble_overlarge :
    Spells (ascii "70000") 70000 ∧
      assemble (ascii "\tcmp #1, 70000\n") = ⟨[0x41, 0x01, 0x70, 0xC4, 0x91], [], none⟩ ∧
      assemble (ascii "\tcmp #1, name\n") = ⟨[0x41, 0x01, 0x00, 0x00], [], none⟩ ∧
      assemble (ascii "\tjmp 70000\n") = ⟨[0x10, 0x70, 0xC4, 0x91], [], none⟩ ∧
      assemble (ascii "\tstore #1, 0xyz\n") = ⟨[0x01, 0x01, 0x00, 0x00], [], none⟩ := by
  refine ⟨?_, by decide +kernel, by decide +kernel, by decide +kernel, by decide +kernel⟩
  have hvalue : Numeral.ofDigits (ascii "70000") = 70000 := by decide
  exact hvalue ▸ .decimal (by decide)

end WordUse

end RegisterMachine
