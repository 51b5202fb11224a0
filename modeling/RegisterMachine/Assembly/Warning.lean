import RegisterMachine.Assembly.Draft

/-!
# Warnings

The assembler takes any text for a number, but not without a word. A text that is read as a decimal
number and is more than that, digits that are not hexadecimal, hexadecimal numbers of more than 32 bits,
negative numbers that are written as characters, and characters that are no bytes: for each of these
there is a warning. Warnings are no remarks of the assembler. They go to the error stream, they end
nothing, and they leave the code as it is.

A warning is kept by its cause; how it is worded is not up to the assembler. A word for no number may
have a number in parentheses behind it, and that is not followed further here: the text counts as more
than a numeral.

## Main definitions

* `Quantity.isNumeral` — whether a text is a decimal number and nothing else.
* `Warning` — the causes of warnings.
* `Statement.lineWarnings` — the warnings about one line.
* `warnings` — the warnings about a source.
-/

namespace RegisterMachine

namespace Quantity

/-! ## Numerals and nothing else -/

/-- What follows the exponent at the front of a text, if there is one with digits. -/
def afterExponent (t : Bytes) : Bytes :=
  let digits := (Numeral.splitSign (t.drop 1)).2
  if beginsWith "e" t && !(digits.takeWhile isDigit).isEmpty then digits.dropWhile isDigit else t

/-- Whether a text is a decimal numeral, perhaps with an exponent, and blanks behind it. -/
def isDecimal (t : Bytes) : Bool :=
  let (whole, fraction, behind) := splitPoint t
  !(whole.isEmpty && fraction.isEmpty) && (afterExponent behind).all isBlank

/-- What follows a letter at the front of a text that is one of two, or the text itself. -/
def withoutLetter (a b : String) (t : Bytes) : Bytes :=
  if beginsWith a t || beginsWith b t then t.drop 1 else t

/-- Whether a text is a word for infinity or for no number, with blanks behind it. A marked word may
have zeros behind it. -/
def isSpecial (t : Bytes) : Bool :=
  let isMarked := (afterMark? t).isSome
  let word := (afterMark? t).getD t
  let nan := withoutLetter "s" "q" word
  if beginsWith "infinity" word then (word.drop 8).all isBlank
  else if beginsWith "inf" word || (isMarked && beginsWith "ind" word) then
    ((word.drop 3).dropWhile fun b => isMarked && b == byte '0').all isBlank
  else beginsWith "nan" nan && (withoutLetter "q" "s" (nan.drop 3)).all isBlank

/-- Whether a text is a decimal number and nothing else but blanks around it. A minus sign with blanks
behind it counts as a number too, and so does one phrase. -/
def isNumeral (t : Bytes) : Bool :=
  let (negative, unsigned) := Numeral.splitSign (t.dropWhile isBlank)
  isDecimal unsigned || isSpecial unsigned ||
    (negative && !unsigned.isEmpty && unsigned.all isBlank) || t == ascii "0 but true"

/-- What follows the hexadecimal digits at the front of a text. -/
def afterHexDigits : Bytes → Bytes
  | [] => []
  | b :: t =>
    if (hexValue? b).isSome || (b == byte '_' && (t.head?.bind hexValue?).isSome) then afterHexDigits t
    else b :: t

/-- A text without the mark of hexadecimal numbers. -/
def withoutHexMark (t : Bytes) : Bytes :=
  if beginsWith "0x" t then t.drop 2 else if beginsWith "x" t then t.drop 1 else t

end Quantity

/-! ## Warnings about numbers -/

/-- The causes of warnings. -/
inductive Warning where
  /-- A text that is read as a decimal number is more than that, or none. -/
  | notNumeric (text : Bytes)
  /-- A hexadecimal number has more than 64 bits. -/
  | hexOverflow
  /-- A byte behind hexadecimal digits is none, and not zero. -/
  | hexDigit (digit : UInt8)
  /-- A hexadecimal number has more than 32 bits. -/
  | hexLarge
  /-- A negative number is written as a character. -/
  | negativeCharacter
  /-- A character that is no byte is written. -/
  | wideCharacter
  deriving DecidableEq, Repr

namespace Warning

/-- The warnings about a text that is read as a decimal number. -/
def ofDecimal (t : Bytes) : List Warning := if Quantity.isNumeral t then [] else [.notNumeric t]

/-- The warnings about a text that is read as a hexadecimal number. -/
def ofHex (t : Bytes) : List Warning :=
  let t := Quantity.withoutHexMark t
  let digits := (Quantity.hexDigits t).dropWhile (· == 0)
  let stop := (Quantity.afterHexDigits t).head?.filter (· != 0)
  (if 16 < digits.length then [.hexOverflow] else []) ++ (stop.map .hexDigit).toList ++
    (if 0xFFFFFFFF < Quantity.ofHexDigits digits then [.hexLarge] else [])

/-- The warnings about a text that is read as a number of either kind. -/
def ofNumber (t : Bytes) : List Warning :=
  if Quantity.beginsWith "0x" t then ofHex t else ofDecimal t

/-- The warnings about numbers that are written, up to the first that cannot be. -/
def ofWritten : List Quantity → List Warning
  | [] => []
  | q :: qs =>
    match q.character with
    | .error _ => []
    | .ok n =>
      (if q.isNegative then [.negativeCharacter] else []) ++
        (if 255 < n then [.wideCharacter] else []) ++ ofWritten qs

/-- The warnings about the numbers of a data line, up to the first that is too large. -/
def ofItems : List Bytes → List Warning
  | [] => []
  | t :: ts =>
    match Statement.items t with
    | [] => ofItems ts
    | item :: _ =>
      ofNumber t.trim ++
        if item.value.exceeds 255 || item.byte.character.toOption.isNone then []
        else ofWritten [item.byte] ++ ofItems ts

end Warning

/-! ## Warnings about lines -/

namespace Statement

/-- What follows the first byte of a kind in a text. -/
def behind (c : Char) (t : Bytes) : Bytes := (t.dropWhile (· != byte c)).drop 1

/-- The first word of a text, and what follows it. -/
def splitWord (t : Bytes) : Bytes × Bytes :=
  let t := t.dropWhile isBlank
  (t.takeWhile (!isBlank ·), t.dropWhile (!isBlank ·))

/-- The second word of a line: the address of a jump, or the number of a service. -/
def secondWord (line : Bytes) : Bytes := (splitWord (splitWord line).2).1

/-- The word behind the first comma of a line: the value that is stored or compared. -/
def wordBehindComma (line : Bytes) : Bytes := (splitWord (behind ',' line)).1

/-- The warnings about a word that is an address or a value to be stored. -/
def targetWarnings (w : Bytes) : Target → List Warning
  | .number _ => if (ascii "0x").isPrefixOf w then Warning.ofHex w else []
  | .label _ => []

/-- The warnings about a line that states something, with the text that its number was read from: those
that come up when the number is read, and then those when the code is written. -/
def warningsOf (line : Bytes) : Statement → List Warning
  | .skip | .label _ | .plain _ | .unknown _ => []
  | .unary op r =>
    (if takesRest op then Warning.ofDecimal (behind '#' line) else []) ++ Warning.ofWritten [r]
  | .binary _ a b => Warning.ofWritten [a, b]
  | .ternary _ d a b => Warning.ofWritten [d, a, b]
  | .branch _ t =>
    targetWarnings (secondWord line) t ++
      match t with
      | .number q => Warning.ofWritten [q.low, q.high]
      | .label _ => []
  | .immediate .store r t =>
    targetWarnings (wordBehindComma line) t ++
      match t with
      | .number q => if q.exceeds 65535 then [] else Warning.ofWritten [r, q.low, q.high]
      | .label _ => Warning.ofWritten [r]
  | .immediate .compare r t =>
    Warning.ofNumber (wordBehindComma line) ++
      match t with
      | .number q => Warning.ofWritten [r, q.low, q.high]
      | .label _ => Warning.ofWritten [r]
  | .literal _ r t =>
    Warning.ofWritten [r, (Quantity.ofNat t.length).low, (Quantity.ofNat t.length).high]
  | .service n =>
    (if mentionsHex (secondWord line) then Warning.ofHex (secondWord line)
      else Warning.ofDecimal (secondWord line)) ++ Warning.ofWritten [n]
  | .data _ => Warning.ofItems (fields (byte ',') (splitWord line).2)

/-- The warnings about one line. -/
def lineWarnings (line : Bytes) : List Warning := warningsOf line (parse line)

end Statement

/-! ## Warnings about sources -/

/-- The warnings about places that are filled in, up to the first label that stands nowhere. -/
def Warning.ofFilled (labels : List (Bytes × Nat)) : List (Nat × Bytes) → List Warning
  | [] => []
  | (_, name) :: rest =>
    match labels.lookup name with
    | none => []
    | some offset => (if 0xFFFF < offset then [.wideCharacter] else []) ++ ofFilled labels rest

/-- The warnings about the lines of a source and about the places that are filled in behind them, up to
the fault that ends the work. -/
def Draft.warnings : List Bytes → Draft → List Warning
  | [], d => Warning.ofFilled d.labels d.references.toList
  | line :: rest, d =>
    Statement.lineWarnings line ++
      match Draft.statement (Statement.parse line) d with
      | .ok _ d' => warnings rest d'
      | .error _ _ => []

/-- The warnings about a source. -/
def warnings (t : Bytes) : List Warning := Draft.warnings (lines t) {}

end RegisterMachine
