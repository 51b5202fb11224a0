/-!
# Bytes and byte text

Machine code and text are both sequences of bytes. Text has no encoding: a register may hold
any bytes, and what a program prints goes out byte for byte. The character classes below are
those of the assembly language and of the machine's own number reader, so they know only
the characters below 128.

## Main definitions

* `Bytes` — a sequence of bytes.
* `ascii` — the bytes of a text constant.
* `Bytes.upToNul` — the part of a text before its first zero byte.
* `isBlank`, `isDigit`, `hexValue?` — the character classes.
-/

namespace RegisterMachine

/-- A sequence of bytes: machine code, or text in no particular encoding. -/
abbrev Bytes := List UInt8

/-- The byte of a character below 256. -/
def byte (c : Char) : UInt8 := UInt8.ofNat c.toNat

/-- The bytes of a text constant, one byte for each character. -/
def ascii (s : String) : Bytes := s.toList.map byte

/-- The part of a text before its first zero byte: a text in a register never holds one. -/
def Bytes.upToNul (t : Bytes) : Bytes := t.takeWhile (· != 0)

/-- Blanks are the space, the tab, the newline, and the three bytes after the newline. -/
def isBlank (b : UInt8) : Bool := b == 32 || (9 ≤ b && b ≤ 13)

/-- The decimal digits. -/
def isDigit (b : UInt8) : Bool := byte '0' ≤ b && b ≤ byte '9'

/-- The small letter of a capital letter; any other byte stays. -/
def lowerCase (b : UInt8) : UInt8 := if byte 'A' ≤ b && b ≤ byte 'Z' then b + 32 else b

/-- The capital letter of a small letter; any other byte stays. -/
def upperCase (b : UInt8) : UInt8 := if byte 'a' ≤ b && b ≤ byte 'z' then b - 32 else b

/-- The value of a hexadecimal digit of either case. -/
def hexValue? (b : UInt8) : Option Nat :=
  if isDigit b then some (b - byte '0').toNat
  else
    let c := lowerCase b
    if byte 'a' ≤ c && c ≤ byte 'f' then some ((c - byte 'a').toNat + 10) else none

/-- A text without the blanks at its two ends. -/
def Bytes.trim (t : Bytes) : Bytes :=
  ((t.dropWhile isBlank).reverse.dropWhile isBlank).reverse

/-- The number that two bytes spell, the low byte first. -/
def wordOf (low high : UInt8) : UInt16 := low.toUInt16 + 256 * high.toUInt16

@[simp]
theorem Bytes.upToNul_nil : Bytes.upToNul [] = [] := rfl

/-- A text cut at its first zero byte holds none. -/
theorem Bytes.not_mem_upToNul (t : Bytes) : (0 : UInt8) ∉ t.upToNul := by
  induction t with
  | nil => simp
  | cons b t ih =>
    by_cases h : b = 0
    · simp [Bytes.upToNul, h]
    · simpa [Bytes.upToNul, h, Ne.symm h] using ih

/-- Cutting a text twice is cutting it once. -/
@[simp]
theorem Bytes.upToNul_upToNul (t : Bytes) : t.upToNul.upToNul = t.upToNul := by
  induction t with
  | nil => rfl
  | cons b t ih =>
    by_cases h : b = 0
    · simp [Bytes.upToNul, h]
    · simpa [Bytes.upToNul, h] using ih

/-- The word of two bytes is below `0x10000` and has them as its digits to the base 256. -/
theorem wordOf_toNat (low high : UInt8) :
    (wordOf low high).toNat = low.toNat + 256 * high.toNat := by
  have hl := low.toNat_lt
  have hh := high.toNat_lt
  simp only [wordOf, UInt16.toNat_add, UInt16.toNat_mul, UInt8.toNat_toUInt16,
    UInt16.reduceToNat]
  omega

end RegisterMachine
