import RegisterMachine.Proofs.Numerals

/-!
# Rounding of whole numbers

A whole number that is read from a text may be rounded to double precision: if it is written with
more digits than 64 bits hold, and also if something stands behind it. Up to 53 binary digits nothing
is lost by this, and a larger number keeps its leading digit, so it stays as large as it is for every
comparison with a power of two.

So a decimal numeral with a blank and anything else behind it is read as the number that it spells.

## Main definitions

* `Quantity.scaled`, `Quantity.leading`, `Quantity.roundAt` — the steps of rounding.

## Main results

* `Quantity.roundRatio_of_lt` — small whole numbers are not rounded.
* `Quantity.le_roundRatio` — rounded numbers keep their size.
* `Quantity.readCharacter_append` — what stands behind a numeral and a blank does not count.
* `Quantity.exceeds_read`, `Quantity.exceeds_readHex` — large numerals are read as large numbers.
-/

namespace RegisterMachine

namespace Quantity

open Numeral

/-! ## The steps of rounding -/

/-- A ratio in units of a power of two, as a ratio of two whole numbers. -/
def scaled (num den : Nat) (e : Int) : Nat × Nat :=
  if 0 ≤ e then (num, den * Nat.pow 2 e.toNat) else (num * Nat.pow 2 (-e).toNat, den)

/-- The exponent of the leading binary digit of a ratio. -/
def leading (num den : Nat) : Int :=
  let guess : Int := (num.log2 : Int) - (den.log2 : Int)
  if (scaled num den guess).2 ≤ (scaled num den guess).1 then guess else guess - 1

/-- A ratio rounded to a multiple of a power of two. -/
def roundAt (negative : Bool) (num den : Nat) (last : Int) : Quantity :=
  let digits := nearest (scaled num den last).1 (scaled num den last).2
  if 0 ≤ last then
    let whole := digits * Nat.pow 2 last.toNat
    if Nat.pow 2 1024 ≤ whole then infinite negative else finite negative whole 0
  else
    let unit := Nat.pow 2 (-last).toNat
    finite negative (digits / unit) (digits % unit * Nat.pow 2 (last + places).toNat)

/-- A ratio is rounded 52 binary digits behind its leading one, or at the last binary place. -/
lemma roundRatio_eq (negative : Bool) {num den : Nat} (hnum : num ≠ 0) (hden : den ≠ 0) :
    roundRatio negative num den =
      roundAt negative num den (max (leading num den - 52) (-(places : Int))) := by
  rw [roundRatio, if_neg (by omega)]
  rfl

/-- The leading digit of a whole number. -/
lemma leading_one {n : Nat} (h : n ≠ 0) : leading n 1 = n.log2 := by
  have hone : Nat.log2 1 = 0 := by decide
  have hle : 1 * Nat.pow 2 (n.log2 : Int).toNat ≤ n := by
    rw [Nat.one_mul, Int.toNat_natCast]
    exact Nat.log2_self_le h
  simp only [leading, hone, Int.natCast_zero, Int.sub_zero, scaled, Int.natCast_nonneg, if_true,
    if_pos hle]

lemma nearest_one (n : Nat) : nearest n 1 = n := by
  simpa using nearest_mul n Nat.one_pos

lemma div_le_nearest (num den : Nat) : num / den ≤ nearest num den := by
  simp only [nearest]
  split
  · omega
  · exact Nat.le_refl _

/-- A whole number in units below one is not rounded. -/
lemma roundAt_of_neg (negative : Bool) (n : Nat) {last : Int} (h : last < 0) :
    roundAt negative n 1 last = finite negative n 0 := by
  have hpos : 0 < Nat.pow 2 (-last).toNat := Nat.pow_pos (by decide)
  have hneg : ¬0 ≤ last := by omega
  simp only [roundAt, scaled, if_neg hneg, nearest_one, Nat.mul_div_cancel n hpos,
    Nat.mul_mod_left, Nat.zero_mul]

/-- A whole number in units of a power of two. -/
lemma roundAt_natCast (negative : Bool) (n k : Nat) :
    roundAt negative n 1 k =
      if Nat.pow 2 1024 ≤ nearest n (2 ^ k) * 2 ^ k then infinite negative
      else finite negative (nearest n (2 ^ k) * 2 ^ k) 0 := by
  simp only [roundAt, scaled, if_pos (Int.natCast_nonneg k), Int.toNat_natCast, Nat.one_mul]
  rfl

/-! ## Small and large whole numbers -/

/-- **A whole number of at most 53 binary digits is not rounded.** -/
theorem roundRatio_of_lt (negative : Bool) {n : Nat} (h : n < 2 ^ 53) :
    roundRatio negative n 1 = finite negative n 0 := by
  by_cases hn : n = 0
  · rw [hn, roundRatio, if_pos (.inl rfl)]
  · have hlead : n.log2 < 53 := (Nat.log2_lt hn).2 h
    have hplaces : (places : Int) = 1074 := rfl
    rw [roundRatio_eq negative hn (by decide), leading_one hn]
    rcases Nat.lt_or_ge n.log2 52 with hsmall | hlarge
    · exact roundAt_of_neg negative n (by omega)
    · have hlast : max ((n.log2 : Int) - 52) (-(places : Int)) = (0 : Nat) := by omega
      have hfinite : ∀ k, 53 ≤ k → ¬Nat.pow 2 k ≤ n := fun k hk =>
        Nat.not_le_of_lt (Nat.lt_of_lt_of_le h (Nat.pow_le_pow_right (by decide) hk))
      rw [hlast, roundAt_natCast, Nat.pow_zero, nearest_one, Nat.mul_one,
        if_neg (hfinite 1024 (by decide))]

/-- **A rounded number keeps its size**: it is not below a power of two that it was not below before.

**Proof sketch.** The number is cut 52 binary digits behind its leading one, so what is kept has the
leading digit in it, and rounding up only adds to it. -/
theorem le_roundRatio (negative : Bool) {n k : Nat} (h : 2 ^ k ≤ n) :
    roundRatio negative n 1 = infinite negative ∨
      ∃ whole fraction, roundRatio negative n 1 = finite negative whole fraction ∧
        2 ^ k ≤ whole := by
  rcases Nat.lt_or_ge n (2 ^ 53) with hlt | hge
  · exact .inr ⟨n, 0, roundRatio_of_lt negative hlt, h⟩
  · have hn : n ≠ 0 := by omega
    have hlead : 53 ≤ n.log2 := (Nat.le_log2 hn).2 hge
    have hk : k ≤ n.log2 := (Nat.le_log2 hn).2 h
    obtain ⟨e, he⟩ : ∃ e, n.log2 = 52 + e := ⟨n.log2 - 52, by omega⟩
    have hlast : max ((n.log2 : Int) - 52) (-(places : Int)) = (e : Nat) := by
      have hplaces : (places : Int) = 1074 := rfl
      omega
    have hkept : 2 ^ k ≤ nearest n (2 ^ e) * 2 ^ e := by
      have hdigits : 2 ^ 52 ≤ n / 2 ^ e := by
        rw [Nat.le_div_iff_mul_le (Nat.two_pow_pos e), ← Nat.pow_add, ← he]
        exact Nat.log2_self_le hn
      calc
        2 ^ k ≤ 2 ^ (52 + e) := Nat.pow_le_pow_right (by decide) (by omega)
        _ = 2 ^ 52 * 2 ^ e := Nat.pow_add 2 52 e
        _ ≤ nearest n (2 ^ e) * 2 ^ e :=
          Nat.mul_le_mul_right _ (Nat.le_trans hdigits (div_le_nearest n (2 ^ e)))
    rw [roundRatio_eq negative hn (by decide), leading_one hn, hlast, roundAt_natCast]
    split
    · exact .inl rfl
    · exact .inr ⟨_, 0, rfl, hkept⟩

/-- A rounded number is above every bound below a power of two that it was not below before. -/
lemma exceeds_roundRatio {n k bound : Nat} (h : 2 ^ k ≤ n) (hb : bound < 2 ^ k) :
    (roundRatio false n 1).exceeds bound = true := by
  rcases le_roundRatio false h with heq | ⟨whole, fraction, heq, hle⟩
  · rw [heq]
    rfl
  · have hlt : bound < whole := Nat.lt_of_lt_of_le hb hle
    simp [heq, exceeds, hlt]

/-- A whole number without an exponent is rounded unless it has too many digits. -/
lemma roundDecimal_zero {n : Nat} (hn : n ≠ 0) :
    roundDecimal false n 0 =
      if 400 < (Nat.toDigits 10 n).length then infinite false else roundRatio false n 1 := by
  have hone : n * Nat.pow 10 (0 : Int).toNat = n := Nat.mul_one n
  have hlong : 400 < ((Nat.toDigits 10 n).length : Int) + 0 ↔ 400 < (Nat.toDigits 10 n).length := by
    omega
  simp only [roundDecimal, hlong]
  rw [if_neg (by omega), if_pos (Int.le_refl 0), hone]

/-- A small number without an exponent is not rounded. -/
lemma roundDecimal_of_lt {n : Nat} (h : n < 2 ^ 53) : roundDecimal false n 0 = ofNat n := by
  by_cases hn : n = 0
  · rw [hn]
    rfl
  · have hsize : (Nat.toDigits 10 n).length ≤ 16 :=
      (Nat.length_toDigits_le_iff (by decide) (by decide)).2 (Nat.lt_trans h (by decide))
    rw [roundDecimal_zero hn, if_neg (by omega), roundRatio_of_lt false h]
    rfl

/-! ## Numerals with something behind them -/

/-- A blank is no digit. -/
lemma isDigit_of_isBlank : ∀ b : UInt8, isBlank b = true → isDigit b = false :=
  forall_byte (by decide +kernel)

/-- The first byte behind the digits of a text whose digits end at a blank is a blank, also if
only the front of the text is looked at. -/
lemma isBlank_behind_digits {d t : Bytes} (hd : ∀ b ∈ d, isDigit b = true)
    (ht : ∀ b ∈ t.head?, isBlank b = true) (k : Nat) :
    ∀ c ∈ ((((d ++ t).take k).map lowerCase).dropWhile isDigit).head?, isBlank c = true := by
  have hblank : ∀ b : UInt8, isBlank b = true → isBlank (lowerCase b) = true ∧
      isDigit (lowerCase b) = false := forall_byte (by decide +kernel)
  induction d generalizing k with
  | nil =>
    cases t with
    | nil => simp
    | cons b t =>
      have hb := hblank b (ht b rfl)
      cases k with
      | zero => simp
      | succ k => simp [hb.1, hb.2]
  | cons b d ih =>
    cases k with
    | zero => simp
    | succ k =>
      have hb : isDigit (lowerCase b) = true := by
        rw [lowerCase_of_isDigit b (hd b List.mem_cons_self)]
        exact hd b List.mem_cons_self
      simpa [hb] using ih (fun c hc => hd c (List.mem_cons_of_mem _ hc)) k

/-- A decimal numeral has neither blanks nor a sign in front, whatever stands behind it. -/
lemma splitSign_append {d : Bytes} (hd : IsDecimal d) (t : Bytes) :
    (d ++ t).dropWhile isBlank = d ++ t ∧ splitSign (d ++ t) = (false, d ++ t) := by
  obtain ⟨b, u, rfl, hb⟩ := hd.exists_cons
  have hs : ∀ b : UInt8, isDigit b = true → isBlank b = false ∧ b ≠ byte '-' ∧ b ≠ byte '+' :=
    forall_byte (by decide +kernel)
  exact ⟨by simp [(hs b hb).1], by simp [splitSign, (hs b hb).2]⟩

section Behind

variable {d t : Bytes} (hd : IsDecimal d) (ht : ∀ b ∈ t.head?, isBlank b = true)

include ht

/-- Digits that end at a blank do not begin with a word that goes on otherwise behind its digits. -/
lemma beginsWith_append (hd : ∀ b ∈ d, isDigit b = true) (word : String)
    (hword : ∃ c ∈ ((ascii word).dropWhile isDigit).head?, isBlank c = false) :
    beginsWith word (d ++ t) = false := by
  obtain ⟨c, hc, hcb⟩ := hword
  rw [beginsWith, beq_eq_false_iff_ne]
  intro heq
  have hblank := isBlank_behind_digits hd ht (ascii word).length c (by rw [heq]; exact hc)
  rw [hblank] at hcb
  exact absurd hcb (by decide)

include hd

/-- A decimal numeral with a blank behind it is no special number. -/
lemma special?_append (negative : Bool) : special? negative (d ++ t) = none := by
  have hmark : afterMark? (d ++ t) = none := by
    simp [afterMark?, beginsWith_append ht hd.2 "1#" (by decide),
      beginsWith_append ht hd.2 "1.#" (by decide)]
  simp [special?, hmark, beginsWith_append ht hd.2 "inf" (by decide),
    beginsWith_append ht hd.2 "nan" (by decide), beginsWith_append ht hd.2 "snan" (by decide),
    beginsWith_append ht hd.2 "qnan" (by decide)]

/-- The number of a decimal numeral with a blank behind it is rounded. -/
lemma readDecimal_append (negative : Bool) :
    readDecimal negative (d ++ t) = roundDecimal negative (ofDigits d) 0 := by
  have hstop : ∀ b ∈ t.head?, isDigit b = false := fun b hb => isDigit_of_isBlank b (ht b hb)
  have hne : d.isEmpty = false := by simpa using hd.1
  have hpoint : beginsWith "." t = false := beginsWith_append (d := []) ht (by simp) "." (by decide)
  have hexponent : readExponent t = 0 := by
    have he : beginsWith "e" t = false := beginsWith_append (d := []) ht (by simp) "e" (by decide)
    simp [readExponent, he]
  simp [readDecimal, splitPoint, takeWhile_append_of_stop hd.2 hstop,
    dropWhile_append_of_stop hd.2 hstop, hpoint, hne, hexponent]

/-- A decimal numeral with a blank behind it is read as a whole, or it is rounded. -/
lemma read_append : read (d ++ t) = ofNat (ofDigits d) ∨
    read (d ++ t) = roundDecimal false (ofDigits d) 0 := by
  have hstop : ∀ b ∈ t.head?, isDigit b = false := fun b hb => isDigit_of_isBlank b (ht b hb)
  obtain ⟨hfront, hsign⟩ := splitSign_append hd t
  simp only [read, hfront, hsign, takeWhile_append_of_stop hd.2 hstop, Bool.false_eq_true, if_false]
  split
  · exact .inl rfl
  · right
    rw [special?_append hd ht, Option.getD_none, readDecimal_append hd ht]

/-- **What stands behind a numeral and a blank does not count** for a number that is written as one
character. -/
theorem readCharacter_append (hv : ofDigits d < 2 ^ 53) :
    readCharacter (d ++ t) = ofNat (ofDigits d) := by
  have hread : read (d ++ t) = ofNat (ofDigits d) := by
    rcases read_append hd ht with h | h
    · exact h
    · rw [h, roundDecimal_of_lt hv]
  have hexact : ofDigits d < 0x20000000000000 := hv
  simp only [readCharacter, (splitSign_append hd t).2, special?_append hd ht, hread, ofNat,
    if_pos hexact]

end Behind

/-! ## Large numerals -/

/-- A whole number above a bound is above it. -/
lemma exceeds_ofNat {n bound : Nat} : (ofNat n).exceeds bound = true ↔ bound < n := by
  simp [exceeds, ofNat]

/-- **A decimal numeral above a bound is read as a number above it**, however many digits it has. -/
lemma exceeds_read {d : Bytes} (hd : IsDecimal d) {bound : Nat} (hb : bound < 2 ^ 53)
    (h : bound < ofDigits d) : (read d).exceeds bound = true := by
  have hread : read d = ofNat (ofDigits d) ∨ read d = roundDecimal false (ofDigits d) 0 := by
    simpa using read_append hd (t := []) (by simp)
  rcases hread with hread | hread
  · rw [hread, exceeds_ofNat]
    exact h
  · rw [hread]
    rcases Nat.lt_or_ge (ofDigits d) (2 ^ 53) with hsmall | hlarge
    · rw [roundDecimal_of_lt hsmall, exceeds_ofNat]
      exact h
    · rw [roundDecimal_zero (by omega)]
      split
      · rfl
      · exact exceeds_roundRatio hlarge hb

/-- **A hexadecimal numeral above a bound is read as a number above it**, however many digits it has.

**Proof sketch.** Up to sixteen digits are exact. If there are more, the first sixteen spell at least
`2 ^ 60`, and neither rounding nor shifting them leads below that. -/
lemma exceeds_readHex {t : Bytes} (ht : IsHex t) {bound : Nat} (hb : bound < 2 ^ 60)
    (h : bound < ofHex t) : (readHex (ascii "0x" ++ t)).exceeds bound = true := by
  rcases Nat.lt_or_ge 16 (significant t).length with hlong | hshort
  · obtain ⟨d, ds, hds⟩ : ∃ d ds, significant t = d :: ds :=
      List.exists_cons_of_length_pos (by omega)
    have hlength : (ds.take 15).length = 15 := by
      rw [List.length_take]
      simp only [hds, List.length_cons] at hlong
      omega
    have hfront : 2 ^ 60 ≤ ofHexDigits ((significant t).take 16) := by
      have hle := le_ofHexDigits (head_significant hds) (ds.take 15)
      rw [hlength] at hle
      rw [hds, List.take_succ_cons]
      exact hle
    rw [readHex_eq, if_neg (by omega)]
    split
    · rfl
    · rcases le_roundRatio false hfront with hinfinite | ⟨whole, fraction, hfinite, hle⟩
      · rw [hinfinite]
        rfl
      · have hshifted : 2 ^ 60 ≤ whole * Nat.pow 16 ((significant t).length - 16) :=
          Nat.le_trans hle (Nat.le_mul_of_pos_right _ (Nat.pow_pos (by decide)))
        rw [hfinite]
        exact exceeds_roundRatio hshifted hb
  · rw [readHex_of_length_le ht hshort, exceeds_ofNat]
    exact h

end Quantity

end RegisterMachine
