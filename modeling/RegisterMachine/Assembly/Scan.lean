import RegisterMachine.Numeral.Reading

/-!
# Scanning a line

Small recognisers from which the forms of a source line are put together. Each takes what it
recognises from the front of a text and fails if it is not there. None of them ever has to take
back what it took: what may follow a part is never something the part could have taken.

## Main definitions

* `Scan` — recognisers.
* `Scan.blanks`, `Scan.someBlanks`, `Scan.maybeBlank` — any number of blanks, at least one, at
  most one.
* `Scan.name`, `Scan.char`, `Scan.digits`, `Scan.word`, `Scan.quoted`, `Scan.rest` — the parts
  of a line.
* `Scan.first` — the first of several forms that fits.
* `fields`, `lines` — texts split at a byte.
-/

namespace RegisterMachine

/-- A recogniser: it takes a part from the front of a text, or fails. -/
abbrev Scan := StateT Bytes Option

namespace Scan

/-- Any number of blanks. -/
def blanks : Scan Unit := fun t => some ((), t.dropWhile isBlank)

/-- At least one blank. -/
def someBlanks : Scan Unit := fun t =>
  if (t.head?.map isBlank).getD false then some ((), t.dropWhile isBlank) else none

/-- One blank if there is one. -/
def maybeBlank : Scan Unit := fun t =>
  if (t.head?.map isBlank).getD false then some ((), t.drop 1) else some ((), t)

/-- A word, letter for letter. -/
def name (s : String) : Scan Unit := fun t =>
  if (ascii s).isPrefixOf t then some ((), t.drop (ascii s).length) else none

/-- A word in letters of either case; the word is given in small letters. -/
def nameAnyCase (s : String) : Scan Unit := fun t =>
  if Quantity.beginsWith s t then some ((), t.drop (ascii s).length) else none

/-- One character. -/
def char (c : Char) : Scan Unit := fun t =>
  if t.head? = some (byte c) then some ((), t.drop 1) else none

/-- As many bytes of a class as there are, and at least one. -/
def run (p : UInt8 → Bool) : Scan Bytes := fun t =>
  let taken := t.takeWhile p
  if taken.isEmpty then none else some (taken, t.dropWhile p)

/-- Decimal digits. -/
def digits : Scan Bytes := run isDigit

/-- Bytes up to the next blank. -/
def word : Scan Bytes := run fun b => !isBlank b

/-- The double quote. -/
def quote : Char := '\x22'

/-- A text between double quotes; there is no way to write a double quote in it. -/
def quoted : Scan Bytes := do
  char quote
  let t : Bytes ← fun t => some (t.takeWhile (· != byte quote), t.dropWhile (· != byte quote))
  char quote
  return t

/-- All that is left. -/
def rest : Scan Bytes := fun t => some (t, [])

/-- The first of several forms that fits the whole text; a form may leave a part of it. -/
def first {α : Type} (forms : List (Scan α)) (t : Bytes) : Option α :=
  forms.findSome? fun form => (form t).map Prod.fst

end Scan

/-! ## Splitting -/

/-- Splits a text at each `separator`; `field` (in reverse) is the part since the last one, and
`done` (in reverse) holds the parts before it. -/
def fieldsAfter (separator : UInt8) (field : Bytes) (done : List Bytes) : Bytes → List Bytes
  | [] => (field.reverse :: done).reverse
  | b :: t =>
    if b == separator then fieldsAfter separator [] (field.reverse :: done) t
    else fieldsAfter separator (b :: field) done t

/-- The parts of a text between separators. -/
def fields (separator : UInt8) (t : Bytes) : List Bytes := fieldsAfter separator [] [] t

/-- The lines of a text. A newline ends a line, and what follows the last newline is a line
unless it is empty. -/
def lines (t : Bytes) : List Bytes :=
  let parts := fields (byte '\n') t
  if parts.getLast? = some [] then parts.dropLast else parts

end RegisterMachine
