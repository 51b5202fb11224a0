import Mathlib.Tactic.Lemma
import Mathlib.Tactic.Ring
import Mathlib.Tactic.Set
import RegisterMachine.Numeral.Reading

/-!
# Numerals are read back

What the number readers make of a well formed numeral. A decimal numeral is a number of decimal
digits, a hexadecimal one a number of hexadecimal digits behind its mark. As long as the number
is small, none of the rules about rounding, signs, fractions and special words has a part in
reading it, and leading zeros do not count.

The numbers that the listing writes are numerals of these kinds.

## Main definitions

* `Numeral.IsDecimal`, `Numeral.IsHex` — decimal and hexadecimal numerals.
* `Numeral.ofHex` — the number that hexadecimal digits spell.

## Main results

* `Quantity.read_decimal`, `Quantity.readCharacter_decimal`, `Quantity.readByte_decimal`,
  `Quantity.readHex_hex` — each reader gives the number that the numeral spells.
* `Numeral.ofDigits_decimal`, `Numeral.ofHex_hex4` — a written number spells itself.
-/

namespace RegisterMachine

/-! ## Character classes -/

/-- A fact about all bytes follows from the 256 cases. -/
lemma forall_byte {P : UInt8 → Prop} (h : ∀ n : Fin 256, P (UInt8.ofFin n)) (b : UInt8) : P b :=
  h b.toFin

/-- A decimal digit is no blank. -/
lemma isBlank_of_isDigit : ∀ b : UInt8, isDigit b = true → isBlank b = false :=
  forall_byte (by decide +kernel)

/-- A hexadecimal digit is no blank. -/
lemma isBlank_of_hexValue? : ∀ b : UInt8, (hexValue? b).isSome = true → isBlank b = false :=
  forall_byte (by decide +kernel)

/-- A decimal digit has no other case. -/
lemma lowerCase_of_isDigit : ∀ b : UInt8, isDigit b = true → lowerCase b = b :=
  forall_byte (by decide +kernel)

/-- A number below 256 is the number of its byte. -/
lemma toNat_ofNat_byte {n : Nat} (h : n < 256) : (UInt8.ofNat n).toNat = n := by
  simp only [UInt8.toNat_ofNat']
  omega

/-- What is taken while a class holds, when all of the front is in the class and the rest begins
outside it. -/
lemma takeWhile_append_of_stop {p : UInt8 → Bool} {front t : Bytes}
    (hf : ∀ b ∈ front, p b = true) (ht : ∀ b ∈ t.head?, p b = false) :
    (front ++ t).takeWhile p = front := by
  rw [List.takeWhile_append_of_pos hf]
  cases t with
  | nil => simp
  | cons b t =>
    have hb : p b = false := ht b (by simp)
    simp [hb]

/-- What is left after the class, when all of the front is in it and the rest begins outside it. -/
lemma dropWhile_append_of_stop {p : UInt8 → Bool} {front t : Bytes}
    (hf : ∀ b ∈ front, p b = true) (ht : ∀ b ∈ t.head?, p b = false) :
    (front ++ t).dropWhile p = t := by
  rw [List.dropWhile_append_of_pos hf]
  cases t with
  | nil => simp
  | cons b t =>
    have hb : p b = false := ht b (by simp)
    simp [hb]

namespace Numeral

/-! ## Decimal numerals -/

/-- A decimal numeral: at least one digit, and nothing but digits. -/
def IsDecimal (t : Bytes) : Prop := t ≠ [] ∧ ∀ b ∈ t, isDigit b = true

instance (t : Bytes) : Decidable (IsDecimal t) :=
  decidable_of_iff (t ≠ [] ∧ t.all isDigit = true) (and_congr_right fun _ => List.all_eq_true)

/-- The digits of a decimal numeral are all of it. -/
lemma IsDecimal.takeWhile {t : Bytes} (h : IsDecimal t) : t.takeWhile isDigit = t := by
  simpa using takeWhile_append_of_stop (t := []) h.2 (by simp)

/-- Nothing follows the digits of a decimal numeral. -/
lemma IsDecimal.dropWhile {t : Bytes} (h : IsDecimal t) : t.dropWhile isDigit = [] := by
  simpa using dropWhile_append_of_stop (t := []) h.2 (by simp)

/-- A decimal numeral has a first digit. -/
lemma IsDecimal.exists_cons {t : Bytes} (h : IsDecimal t) :
    ∃ d u, t = d :: u ∧ isDigit d = true := by
  cases t with
  | nil => exact absurd rfl h.1
  | cons d u => exact ⟨d, u, rfl, h.2 d (by simp)⟩

/-- No blank stands before a decimal numeral. -/
lemma IsDecimal.dropWhile_isBlank {t : Bytes} (h : IsDecimal t) : t.dropWhile isBlank = t := by
  obtain ⟨d, u, rfl, hd⟩ := h.exists_cons
  simp [isBlank_of_isDigit d hd]

/-- A decimal numeral has no sign. -/
lemma IsDecimal.splitSign {t : Bytes} (h : IsDecimal t) : splitSign t = (false, t) := by
  obtain ⟨d, u, rfl, hd⟩ := h.exists_cons
  have hs : ∀ b : UInt8, isDigit b = true → b ≠ byte '-' ∧ b ≠ byte '+' :=
    forall_byte (by decide +kernel)
  simp [Numeral.splitSign, hs d hd]

/-- A digit more makes ten times the number and the value of the digit. -/
lemma ofDigits_concat (t : Bytes) (d : UInt8) :
    ofDigits (t ++ [d]) = 10 * ofDigits t + (d - byte '0').toNat := by
  simp [ofDigits]

/-- A decimal digit as a byte. -/
lemma digitChar_spec {d : Nat} (h : d < 10) :
    isDigit (byte d.digitChar) = true ∧ (byte d.digitChar - byte '0').toNat = d := by
  have hs : ∀ d : Fin 10, isDigit (byte d.val.digitChar) = true ∧
      (byte d.val.digitChar - byte '0').toNat = d.val := by decide
  exact hs ⟨d, h⟩

/-- A number below ten is written as one digit. -/
lemma decimal_of_lt {n : Nat} (h : n < 10) : decimal n = [byte n.digitChar] := by
  rw [decimal, Nat.toDigits_of_lt_base h, List.map_singleton]

/-- A number from ten on is written as what is left without its last digit, and that digit. -/
lemma decimal_of_le {n : Nat} (h : 10 ≤ n) :
    decimal n = decimal (n / 10) ++ [byte (n % 10).digitChar] := by
  rw [decimal, Nat.toDigits_of_base_le (by decide) h, List.map_append, List.map_singleton]
  rfl

/-- A written number is a decimal numeral. -/
theorem isDecimal_decimal (n : Nat) : IsDecimal (decimal n) := by
  induction n using Nat.strongRecOn with
  | ind n ih =>
    rcases Nat.lt_or_ge n 10 with h | h
    · rw [decimal_of_lt h]
      refine ⟨by simp, fun b hb => ?_⟩
      rw [List.mem_singleton.1 hb]
      exact (digitChar_spec h).1
    · rw [decimal_of_le h]
      refine ⟨by simp, fun b hb => ?_⟩
      rcases List.mem_append.1 hb with hb | hb
      · exact (ih (n / 10) (by omega)).2 b hb
      · rw [List.mem_singleton.1 hb]
        exact (digitChar_spec (by omega)).1

/-- A written number spells itself. -/
@[simp]
theorem ofDigits_decimal (n : Nat) : ofDigits (decimal n) = n := by
  induction n using Nat.strongRecOn with
  | ind n ih =>
    rcases Nat.lt_or_ge n 10 with h | h
    · rw [decimal_of_lt h]
      simp [ofDigits, (digitChar_spec h).2]
    · rw [decimal_of_le h, ofDigits_concat, ih (n / 10) (by omega), (digitChar_spec (by omega)).2]
      omega

/-- A signed word has ten digits and a sign at most. -/
lemma length_signed_le (n : Int32) : (signed n).length ≤ 11 := by
  have hle := n.le_toInt
  have hlt := n.toInt_lt
  have hdigits : (decimal n.toInt.natAbs).length ≤ 10 := by
    rw [decimal, List.length_map, Nat.length_toDigits_le_iff (by decide) (by decide)]
    omega
  rw [signed]
  split
  · rw [List.length_cons]
    omega
  · omega

/-! ## Hexadecimal numerals -/

/-- The digits of a hexadecimal numeral: at least one, and nothing else. -/
def IsHex (t : Bytes) : Prop := t ≠ [] ∧ ∀ b ∈ t, (hexValue? b).isSome = true

instance (t : Bytes) : Decidable (IsHex t) :=
  decidable_of_iff (t ≠ [] ∧ (t.all fun b => (hexValue? b).isSome) = true)
    (and_congr_right fun _ => List.all_eq_true)

/-- The number that hexadecimal digits spell. -/
def ofHex (t : Bytes) : Nat := t.foldl (fun n b => 16 * n + (hexValue? b).getD 0) 0

/-- A digit more makes sixteen times the number and the value of the digit. -/
lemma ofHex_concat (t : Bytes) (d : UInt8) :
    ofHex (t ++ [d]) = 16 * ofHex t + (hexValue? d).getD 0 := by
  simp [ofHex]

/-- Zeros in front do not count. -/
lemma ofHex_replicate_zero (n : Nat) (t : Bytes) :
    ofHex (List.replicate n (byte '0') ++ t) = ofHex t := by
  have hz : (hexValue? (byte '0')).getD 0 = 0 := by decide
  induction n with
  | zero => rfl
  | succ n ih =>
    rw [List.replicate_succ, List.cons_append, ← ih]
    simp [ofHex, hz]

/-- A hexadecimal digit as a byte, in a capital letter if it is a letter. -/
lemma hexChar_spec {d : Nat} (h : d < 16) :
    hexValue? (upperCase (byte d.digitChar)) = some d := by
  have hs : ∀ d : Fin 16, hexValue? (upperCase (byte d.val.digitChar)) = some d.val := by decide
  exact hs ⟨d, h⟩

/-- A number below sixteen is written as one digit. -/
lemma hexUpper_of_lt {n : Nat} (h : n < 16) : hexUpper n = [upperCase (byte n.digitChar)] := by
  rw [hexUpper, hexLower, Nat.toDigits_of_lt_base h, List.map_singleton, List.map_singleton]

/-- A number from sixteen on is written as what is left without its last digit, and that digit. -/
lemma hexUpper_of_le {n : Nat} (h : 16 ≤ n) :
    hexUpper n = hexUpper (n / 16) ++ [upperCase (byte (n % 16).digitChar)] := by
  rw [hexUpper, hexLower, Nat.toDigits_of_base_le (by decide) h]
  simp only [List.map_append, List.map_singleton]
  rfl

/-- A number written in capital hexadecimal digits is a numeral and spells itself. -/
lemma hexUpper_spec (n : Nat) : IsHex (hexUpper n) ∧ ofHex (hexUpper n) = n := by
  induction n using Nat.strongRecOn with
  | ind n ih =>
    rcases Nat.lt_or_ge n 16 with h | h
    · rw [hexUpper_of_lt h]
      refine ⟨⟨by simp, fun b hb => ?_⟩, ?_⟩
      · rw [List.mem_singleton.1 hb, hexChar_spec h, Option.isSome_some]
      · simp [ofHex, hexChar_spec h]
    · obtain ⟨ihx, ihv⟩ := ih (n / 16) (by omega)
      have hd := hexChar_spec (d := n % 16) (by omega)
      rw [hexUpper_of_le h]
      refine ⟨⟨by simp, fun b hb => ?_⟩, ?_⟩
      · rcases List.mem_append.1 hb with hb | hb
        · exact ihx.2 b hb
        · rw [List.mem_singleton.1 hb, hd, Option.isSome_some]
      · rw [ofHex_concat, ihv, hd, Option.getD_some]
        omega

/-- A number written in at least four hexadecimal digits is a numeral. -/
theorem isHex_hex4 (n : Nat) : IsHex (hex4 n) := by
  refine ⟨?_, fun b hb => ?_⟩
  · simp [hex4, padded, (hexUpper_spec n).1.1]
  · rcases List.mem_append.1 hb with hb | hb
    · rw [List.eq_of_mem_replicate hb]
      decide
    · exact (hexUpper_spec n).1.2 b hb

/-- A number written in at least four hexadecimal digits spells itself. -/
@[simp]
theorem ofHex_hex4 (n : Nat) : ofHex (hex4 n) = n := by
  rw [hex4, padded, ofHex_replicate_zero, (hexUpper_spec n).2]

end Numeral

namespace Quantity

open Numeral

/-! ## The readers on decimal numerals -/

/-- A decimal numeral does not begin with a word that has a character other than a digit. -/
lemma beginsWith_decimal (word : String) {t : Bytes} (ht : ∀ b ∈ t, isDigit b = true)
    (hw : ∃ c ∈ ascii word, isDigit c = false) : beginsWith word t = false := by
  obtain ⟨c, hc, hcd⟩ := hw
  rw [beginsWith, beq_eq_false_iff_ne]
  intro heq
  rw [← heq, List.mem_map] at hc
  obtain ⟨b, hb, rfl⟩ := hc
  have hbd := ht b (List.mem_of_mem_take hb)
  rw [lowerCase_of_isDigit b hbd, hbd] at hcd
  exact absurd hcd (by decide)

/-- A decimal numeral is no special number, and has no mark of one. -/
lemma special?_decimal {t : Bytes} (ht : ∀ b ∈ t, isDigit b = true) (negative : Bool) :
    afterMark? t = none ∧ special? negative t = none := by
  have hm : afterMark? t = none := by
    simp [afterMark?, beginsWith_decimal "1#" ht (by decide),
      beginsWith_decimal "1.#" ht (by decide)]
  refine ⟨hm, ?_⟩
  simp [special?, hm, beginsWith_decimal "inf" ht (by decide),
    beginsWith_decimal "nan" ht (by decide),
    beginsWith_decimal "snan" ht (by decide),
    beginsWith_decimal "qnan" ht (by decide)]

/-- A decimal numeral is read as the number that it spells. -/
theorem read_decimal {t : Bytes} (h : IsDecimal t) (hv : ofDigits t < 2 ^ 64) :
    read t = ofNat (ofDigits t) := by
  have hle : ofDigits t ≤ 2 ^ 64 - 1 := by omega
  have hne : t.isEmpty = false := by simpa using h.1
  simp only [read, h.dropWhile_isBlank, h.splitSign, h.takeWhile, h.dropWhile, hne]
  rw [if_pos]
  · rfl
  · simpa using hle

/-- A decimal numeral that is written as a character is the number that it spells. -/
theorem readCharacter_decimal {t : Bytes} (h : IsDecimal t) (hv : ofDigits t < 2 ^ 53) :
    readCharacter t = ofNat (ofDigits t) := by
  have hr : read t = ofNat (ofDigits t) := read_decimal h (by omega)
  have hexact : ofDigits t < 0x20000000000000 := hv
  simp only [readCharacter, h.splitSign, (special?_decimal h.2 false).2, hr, ofNat,
    if_pos hexact]

/-- A decimal numeral in a list of bytes is the number that it spells. -/
theorem readByte_decimal {t : Bytes} (h : IsDecimal t) (hv : ofDigits t < 2 ^ 64) :
    readByte t = ofNat (ofDigits t) := by
  have hne : t.isEmpty = false := by simpa using h.1
  have hpoint : splitPoint t = (t, [], []) := by
    simp only [splitPoint, h.takeWhile, h.dropWhile]
    rfl
  have hwhole : wholePart? t = some (ofDigits t) := by
    simp [wholePart?, h.dropWhile_isBlank, h.splitSign, hpoint, (special?_decimal h.2 false).1,
      hne]
    omega
  simp [readByte, read_decimal h hv, ofNat, isNegative, hwhole]

/-! ## The reader of hexadecimal numerals -/

/-- The digits of a hexadecimal numeral are all of it. -/
lemma hexDigits_hex {t : Bytes} (h : ∀ b ∈ t, (hexValue? b).isSome = true) :
    hexDigits t = t.map fun b => (hexValue? b).getD 0 := by
  induction t with
  | nil => rfl
  | cons b t ih =>
    obtain ⟨v, hv⟩ := Option.isSome_iff_exists.1 (h b (by simp))
    simp [hexDigits, hv, ih fun x hx => h x (by simp [hx])]

/-- Zeros in front of hexadecimal digits do not count. -/
lemma ofHexDigits_dropWhile (ds : List Nat) :
    ofHexDigits (ds.dropWhile (· == 0)) = ofHexDigits ds := by
  induction ds with
  | nil => rfl
  | cons d ds ih =>
    by_cases hd : d = 0
    · subst hd
      simpa [ofHexDigits] using ih
    · simp [hd]

/-- What is spelled after a number `a` is at least `a`, shifted by the digits. -/
lemma le_foldl_hex (ds : List Nat) (a : Nat) :
    a * 16 ^ ds.length ≤ ds.foldl (fun n d => 16 * n + d) a := by
  induction ds generalizing a with
  | nil => simp
  | cons d ds ih =>
    calc
      a * 16 ^ (d :: ds).length = (16 * a) * 16 ^ ds.length := by
        rw [List.length_cons, Nat.pow_succ]; ring
      _ ≤ (16 * a + d) * 16 ^ ds.length := Nat.mul_le_mul_right _ (by omega)
      _ ≤ _ := ih (16 * a + d)

/-- Digits without a zero in front spell a number that needs as many of them. -/
lemma le_ofHexDigits {d : Nat} (hd : d ≠ 0) (ds : List Nat) :
    16 ^ ds.length ≤ ofHexDigits (d :: ds) := by
  have hle : d * 16 ^ ds.length ≤ ofHexDigits (d :: ds) := by
    simpa [ofHexDigits] using le_foldl_hex ds d
  exact Nat.le_trans (Nat.le_mul_of_pos_left _ (Nat.pos_of_ne_zero hd)) hle

/-- The hexadecimal digits of a text behind leading zeros. -/
def significant (t : Bytes) : List Nat := (hexDigits t).dropWhile (· == 0)

/-- The significant digits of a hexadecimal numeral spell the same number. -/
lemma ofHexDigits_significant {t : Bytes} (h : IsHex t) : ofHexDigits (significant t) = ofHex t := by
  rw [significant, ofHexDigits_dropWhile, hexDigits_hex h.2, ofHexDigits, ofHex, List.foldl_map]

/-- The first significant digit is not zero. -/
lemma head_significant {t : Bytes} {d : Nat} {ds : List Nat} (h : significant t = d :: ds) : d ≠ 0 := by
  have hhead := List.head?_dropWhile_not (· == 0) (hexDigits t)
  rw [← significant, h] at hhead
  simpa using hhead

/-- A marked number is read from its significant digits. -/
lemma readHex_eq (t : Bytes) : readHex (ascii "0x" ++ t) =
    if (significant t).length - 16 = 0 then ofNat (ofHexDigits ((significant t).take 16))
    else if 240 < (significant t).length - 16 then infinite false
    else
      match roundRatio false (ofHexDigits ((significant t).take 16)) 1 with
      | finite _ whole _ => roundRatio false (whole * Nat.pow 16 ((significant t).length - 16)) 1
      | q => q := rfl

/-- Up to sixteen significant digits are read as they are. -/
lemma readHex_of_length_le {t : Bytes} (h : IsHex t) (hlength : (significant t).length ≤ 16) :
    readHex (ascii "0x" ++ t) = ofNat (ofHex t) := by
  rw [readHex_eq, if_pos (by omega), List.take_of_length_le hlength, ofHexDigits_significant h]

/-- A number of 64 bits has at most sixteen significant digits, since the first of them is not zero. -/
lemma length_significant_le {t : Bytes} (h : IsHex t) (hv : ofHex t < 2 ^ 64) :
    (significant t).length ≤ 16 := by
  cases hds : significant t with
  | nil => simp
  | cons d ds =>
    have hle := le_ofHexDigits (head_significant hds) ds
    rw [← hds, ofHexDigits_significant h] at hle
    have hpow : 16 ^ ds.length < 16 ^ 16 := by omega
    have hlt := (Nat.pow_lt_pow_iff_right (by decide)).1 hpow
    simp only [List.length_cons]
    omega

/-- **A hexadecimal numeral is read as the number that it spells.**

**Proof sketch.** The digits behind leading zeros spell the same number. There are at most sixteen
of them, so all of them are exact and none shifts the number. -/
theorem readHex_hex {t : Bytes} (h : IsHex t) (hv : ofHex t < 2 ^ 64) :
    readHex (ascii "0x" ++ t) = ofNat (ofHex t) :=
  readHex_of_length_le h (length_significant_le h hv)

end Quantity

end RegisterMachine
