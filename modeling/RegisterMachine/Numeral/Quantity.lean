import RegisterMachine.Numeral

/-!
# Quantities

The assembler takes any text for a number. Numerals may have a fraction and an exponent, so what
they name is not always a whole number. Whole numbers of up to 64 bits are exact. All others are
rounded to the nearest double precision number, a tie going to the even neighbour, and numbers
too large for that are infinite.

Every double precision number is a multiple of `1 / 2 ^ 1074`, so a quantity is kept as a whole
number and a count of such units, and nothing is lost.

## Main definitions

* `Quantity` — a number as the assembler sees it.
* `Quantity.low`, `Quantity.high` — the two bytes of a number.
* `Quantity.exceeds` — comparison with a bound.
* `Quantity.nearest`, `Quantity.roundRatio` — the nearest whole number, and the nearest double
  precision number, of a ratio.
* `Quantity.written` — a quantity as text.

## Main results

* `Quantity.nearest_mul` — a ratio that is whole is its own nearest whole number.
-/

namespace RegisterMachine

/-- A number as the assembler sees it. -/
inductive Quantity where
  /-- No number at all. -/
  | nan
  /-- Infinity with a sign. -/
  | infinite (negative : Bool)
  /-- A number with a sign, the whole part of its magnitude, and the number of units of
  `1 / 2 ^ 1074` that the magnitude has beyond that. -/
  | finite (negative : Bool) (whole fraction : Nat)
  deriving DecidableEq, Repr

namespace Quantity

/-- The binary places behind the point. -/
def places : Nat := 1074

/-- A whole number. -/
def ofNat (n : Nat) : Quantity := finite false n 0

/-- Whether a number is below zero. -/
def isNegative : Quantity → Bool
  | nan => false
  | infinite negative => negative
  | finite negative whole fraction => negative && (whole != 0 || fraction != 0)

/-- Whether a number is larger than a bound. -/
def exceeds (bound : Nat) : Quantity → Bool
  | nan => false
  | infinite negative => !negative
  | finite negative whole fraction =>
    !negative && (bound < whole || (whole == bound && fraction != 0))

/-! ## Rounding -/

/-- The nearest whole number to a ratio, a tie going to the even neighbour. -/
def nearest (num den : Nat) : Nat :=
  let quotient := num / den
  let twice := 2 * (num % den)
  if den < twice || (den == twice && quotient % 2 == 1) then quotient + 1 else quotient

/-- A ratio that is whole is its own nearest whole number. -/
@[simp]
theorem nearest_mul (q : Nat) {den : Nat} (h : 0 < den) : nearest (q * den) den = q := by
  have hne : den ≠ 0 := by omega
  simp [nearest, Nat.mul_div_cancel _ h, hne]

/-- The nearest double precision number to the ratio of two numbers: a multiple of
`1 / 2 ^ 1074` with at most 53 binary digits. -/
def roundRatio (negative : Bool) (num den : Nat) : Quantity :=
  if num = 0 ∨ den = 0 then finite negative 0 0
  else
    -- the exponent of the leading binary digit
    let guess : Int := (num.log2 : Int) - (den.log2 : Int)
    let scaled (e : Int) : Nat × Nat :=
      if 0 ≤ e then (num, den * Nat.pow 2 e.toNat) else (num * Nat.pow 2 (-e).toNat, den)
    let lead := if (scaled guess).2 ≤ (scaled guess).1 then guess else guess - 1
    -- the exponent of the last binary digit kept
    let last := max (lead - 52) (-(places : Int))
    let digits := nearest (scaled last).1 (scaled last).2
    if 0 ≤ last then
      let whole := digits * Nat.pow 2 last.toNat
      if Nat.pow 2 1024 ≤ whole then infinite negative else finite negative whole 0
    else
      let unit := Nat.pow 2 (-last).toNat
      finite negative (digits / unit) (digits % unit * Nat.pow 2 (last + places).toNat)

/-- The nearest number to `digits` times a power of ten. Powers beyond every double precision
number are not computed. -/
def roundDecimal (negative : Bool) (digits : Nat) (exponent : Int) : Quantity :=
  let size : Int := (Nat.toDigits 10 digits).length
  if digits = 0 ∨ size + exponent < -400 then finite negative 0 0
  else if 400 < size + exponent then infinite negative
  else if 0 ≤ exponent then roundRatio negative (digits * Nat.pow 10 exponent.toNat) 1
  else roundRatio negative digits (Nat.pow 10 (-exponent).toNat)

/-! ## The bytes of a number -/

/-- The remainder of the whole part by 256, which is not negative; an infinite number has
none. -/
def low : Quantity → Quantity
  | nan => nan
  | infinite _ => nan
  | finite negative whole _ =>
    let r := whole % 256
    ofNat (if negative && r != 0 then 256 - r else r)

/-- What is left of a number without its low byte, divided by 256. A fraction too small for the
division is lost. -/
def high : Quantity → Quantity
  | nan => nan
  | infinite _ => nan
  | finite false whole fraction => finite false (whole / 256) (nearest fraction 256)
  | finite true whole fraction =>
    let r := whole % 256
    let rounded := if r = 0 then whole else whole + (256 - r)
    finite true (rounded / 256) (nearest fraction 256)

/-! ## Writing -/

/-- A whole number in 15 significant digits, with an exponent. -/
def scientific (n : Nat) : Bytes :=
  let size := (Nat.toDigits 10 n).length
  let kept := nearest n (Nat.pow 10 (size - 15))
  let exponent := if kept = 1000000000000000 then size else size - 1
  let digits := (Numeral.decimal kept).reverse.dropWhile (· == byte '0') |>.reverse
  let mantissa :=
    match digits with
    | [] => []
    | [d] => [d]
    | d :: rest => d :: byte '.' :: rest
  mantissa ++ ascii "e+" ++ Numeral.padded 2 '0' (Numeral.decimal exponent)

/-- A quantity as text; the part behind the whole part is not shown. -/
def written : Quantity → Bytes
  | nan => ascii "NaN"
  | infinite false => ascii "Inf"
  | infinite true => ascii "-Inf"
  | finite _ whole _ => if whole < 0x10000000000000000 then Numeral.decimal whole else scientific whole

end Quantity

end RegisterMachine
