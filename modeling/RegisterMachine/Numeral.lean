import RegisterMachine.Bytes

/-!
# Written numbers

The number formats of the program: decimal and hexadecimal digits, a fixed least width, a sign.
Every number that the machine, its monitor or the listing writes goes through this module.
It also holds the reader by which a text in a register becomes an integer.

## Main definitions

* `Numeral.decimal`, `Numeral.hexLower`, `Numeral.hexUpper` — digits without padding.
* `Numeral.padded` — a least width.
* `Numeral.signed`, `Numeral.signedPadded` — the decimal digits of a signed word.
* `Numeral.readInt32` — the integer that a text spells.
-/

namespace RegisterMachine.Numeral

/-- The decimal digits of a number. -/
def decimal (n : Nat) : Bytes := (Nat.toDigits 10 n).map byte

/-- The hexadecimal digits of a number, in small letters. -/
def hexLower (n : Nat) : Bytes := (Nat.toDigits 16 n).map byte

/-- The hexadecimal digits of a number, in capital letters. -/
def hexUpper (n : Nat) : Bytes := (hexLower n).map upperCase

/-- A text with as many copies of `fill` before it as a least width asks for. -/
def padded (width : Nat) (fill : Char) (t : Bytes) : Bytes :=
  List.replicate (width - t.length) (byte fill) ++ t

/-- Four or more hexadecimal digits in capital letters. -/
def hex4 (n : Nat) : Bytes := padded 4 '0' (hexUpper n)

/-- Four or more hexadecimal digits in small letters. -/
def hex4Lower (n : Nat) : Bytes := padded 4 '0' (hexLower n)

/-- Two or more hexadecimal digits in capital letters. -/
def hex2 (n : Nat) : Bytes := padded 2 '0' (hexUpper n)

/-- Two or more hexadecimal digits in small letters. -/
def hex2Lower (n : Nat) : Bytes := padded 2 '0' (hexLower n)

/-- A signed word in decimal, with a minus sign if it is negative. -/
def signed (n : Int32) : Bytes :=
  if n < 0 then byte '-' :: decimal n.toInt.natAbs else decimal n.toInt.natAbs

/-- A signed word in decimal, padded with zeros between the sign and the digits; the sign
counts for the width. -/
def signedPadded (width : Nat) (n : Int32) : Bytes :=
  if n < 0 then byte '-' :: padded (width - 1) '0' (decimal n.toInt.natAbs)
  else padded width '0' (decimal n.toInt.natAbs)

/-- The number that a sequence of decimal digits spells. -/
def ofDigits (t : Bytes) : Nat := t.foldl (fun n d => 10 * n + (d - byte '0').toNat) 0

/-- Splits a sign from the front of a text: whether it was a minus sign, and what follows. -/
def splitSign : Bytes → Bool × Bytes
  | [] => (false, [])
  | b :: t =>
    if b == byte '-' then (true, t)
    else if b == byte '+' then (false, t)
    else (false, b :: t)

/-- The integer at the front of a text: blanks, a sign, digits; no digits count as 0. The
number is first brought into the range of 64 bit words and then loses its high half. -/
def readInt32 (t : Bytes) : Int32 :=
  let (negative, t) := splitSign (t.dropWhile isBlank)
  let magnitude : Int := ofDigits (t.takeWhile isDigit)
  let value := if negative then -magnitude else magnitude
  Int32.ofInt (max Int64.minValue.toInt (min Int64.maxValue.toInt value))

end RegisterMachine.Numeral
