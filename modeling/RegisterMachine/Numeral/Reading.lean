import RegisterMachine.Numeral.Quantity

/-!
# Numbers in operand text

Of an operand the assembler reads as much as makes a number and leaves the rest. A number is a
decimal numeral, a word for infinity or for no number, or, where the text is marked so, a
hexadecimal numeral.

What a text counts for depends on its use. As a word it is the rounded number. As a character it
is a whole number, and then the digits in front of the point count as they are written wherever
rounding could have changed them.

## Main definitions

* `Quantity.read`, `Quantity.readHex` — the number at the front of a text.
* `Quantity.readCharacter` — the number of a text that is written as one character.
* `Quantity.readByte` — the number of a text in a list of bytes.
-/

namespace RegisterMachine

namespace Quantity

/-- Whether a text begins with a word, in letters of either case; the word is given in small
letters. -/
def beginsWith (word : String) (t : Bytes) : Bool :=
  (t.take (ascii word).length).map lowerCase == ascii word

/-- What follows the mark of a special number, if there is one: the digit one, perhaps a point,
and a number sign. -/
def afterMark? (t : Bytes) : Option Bytes :=
  if beginsWith "1#" t then some (t.drop 2)
  else if beginsWith "1.#" t then some (t.drop 3)
  else none

/-- The words for infinity and for no number, which may follow a mark. Anything may follow the
word. -/
def special? (negative : Bool) (t : Bytes) : Option Quantity :=
  let word := (afterMark? t).getD t
  if beginsWith "inf" word then some (infinite negative)
  else if beginsWith "nan" word || beginsWith "snan" word || beginsWith "qnan" word then some nan
  else if (afterMark? t).isSome && beginsWith "ind" word then some nan
  else none

/-- The exponent at the front of a text, if there is one. -/
def readExponent (t : Bytes) : Int :=
  if beginsWith "e" t then
    let (negative, t) := Numeral.splitSign (t.drop 1)
    let n := Numeral.ofDigits (t.takeWhile isDigit)
    if negative then -n else n
  else 0

/-- The digits in front of the point, those behind it, and what follows them. -/
def splitPoint (t : Bytes) : Bytes × Bytes × Bytes :=
  let whole := t.takeWhile isDigit
  let behind := t.dropWhile isDigit
  if beginsWith "." behind then
    (whole, (behind.drop 1).takeWhile isDigit, (behind.drop 1).dropWhile isDigit)
  else (whole, [], behind)

/-- The decimal numeral at the front of a text. -/
def readDecimal (negative : Bool) (t : Bytes) : Quantity :=
  let (whole, fraction, behind) := splitPoint t
  if whole.isEmpty && fraction.isEmpty then finite negative 0 0
  else
    roundDecimal negative (Numeral.ofDigits (whole ++ fraction))
      (readExponent behind - fraction.length)

/-- The number at the front of a text: blanks, a sign, and a numeral or a word for a special
number. A text without a number counts as 0. -/
def read (t : Bytes) : Quantity :=
  let (negative, t) := Numeral.splitSign (t.dropWhile isBlank)
  let digits := t.takeWhile isDigit
  let n := Numeral.ofDigits digits
  if !digits.isEmpty && (t.dropWhile isDigit).all isBlank &&
      n ≤ (if negative then 0x8000000000000000 else 0xFFFFFFFFFFFFFFFF) then
    finite negative n 0
  else (special? negative t).getD (readDecimal negative t)

/-! ## Characters and bytes -/

/-- Whether a text is a word for infinity with nothing but blanks behind it. Zeros may stand
behind the short form of the word. -/
def isInfinity (t : Bytes) : Bool :=
  if beginsWith "infinity" t then (t.drop 8).all isBlank
  else beginsWith "inf" t && ((t.drop 3).dropWhile (· == byte '0')).all isBlank

/-- The number in front of the point of a text that is a numeral without an exponent and nothing
else but blanks around it, if 64 bits hold it. A marked word for infinity counts for the digit
that its mark begins with. -/
def wholePart? (t : Bytes) : Option Nat :=
  let (_, t) := Numeral.splitSign (t.dropWhile isBlank)
  let (whole, fraction, behind) := splitPoint t
  let n := Numeral.ofDigits whole
  if (afterMark? t).any isInfinity then some 1
  else if (whole.isEmpty && fraction.isEmpty) || !behind.all isBlank || 0x10000000000000000 ≤ n then none
  else some n

/-- The number of a text that is written as one character. A word for a special number at the
very front is no character. Behind blanks it counts like a number too large, which it shares
with numerals too large to be rounded, or as 0. A number from `2 ^ 53` on has the whole part
that the text shows, if it shows one. -/
def readCharacter (t : Bytes) : Quantity :=
  let (negative, front) := Numeral.splitSign t
  match special? negative front with
  | some q => q
  | none =>
    match read t with
    | nan => ofNat 0
    | infinite negative => finite negative ((wholePart? t).getD (Nat.pow 2 1024)) 0
    | finite negative whole fraction =>
      if whole < 0x20000000000000 then finite negative whole fraction
      else finite negative ((wholePart? t).getD whole) 0

/-- The number of a text in a list of bytes: a number that is not negative has the whole part
that the text shows, if it shows one. -/
def readByte (t : Bytes) : Quantity :=
  match read t with
  | finite negative whole fraction =>
    if isNegative (finite negative whole fraction) then finite negative whole fraction
    else ofNat ((wholePart? t).getD whole)
  | q => q

/-! ## Hexadecimal numerals -/

/-- The hexadecimal digits at the front of a text. An underscore may stand before a digit. -/
def hexDigits : Bytes → List Nat
  | [] => []
  | b :: t =>
    match hexValue? b with
    | some v => v :: hexDigits t
    | none =>
      if b == byte '_' && (t.head?.bind hexValue?).isSome then hexDigits t else []

/-- The number that hexadecimal digits spell. -/
def ofHexDigits (ds : List Nat) : Nat := ds.foldl (fun n d => 16 * n + d) 0

/-- The hexadecimal number at the front of a text, with or without the letter that marks it. The
first sixteen digits behind leading zeros are exact. If there are more, the sixteen are rounded
to double precision and the others only tell how far they are to be shifted. -/
def readHex (t : Bytes) : Quantity :=
  let t := if beginsWith "0x" t then t.drop 2 else if beginsWith "x" t then t.drop 1 else t
  let ds := (hexDigits t).dropWhile (· == 0)
  let n := ofHexDigits (ds.take 16)
  let shift := ds.length - 16
  if shift = 0 then ofNat n
  else if 240 < shift then infinite false
  else
    match roundRatio false n 1 with
    | finite _ whole _ => roundRatio false (whole * Nat.pow 16 shift) 1
    | q => q

end Quantity

end RegisterMachine
