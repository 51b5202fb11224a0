import RegisterMachine.Assembly.Scan
import RegisterMachine.Instruction

/-!
# Source lines

What a line of assembly source states. Lines are recognised by their form alone, one by one; the
first form that fits decides, and whatever a form leaves at the end of the line is ignored. So a
comment may follow an instruction, and so may anything else.

A register is a number sign and decimal digits. Where an instruction takes a word, a text that
begins like a hexadecimal number, or has only decimal digits, is a number, and any other text
is the name of a label.

## Main definitions

* `Target`, `Item`, `Statement` — what a line can state.
* `Statement.forms` — the forms of a line, in the order in which they are tried.
* `Statement.parse` — the statement of a line.
-/

namespace RegisterMachine

/-- A word operand: a number, or the address of a label. -/
inductive Target where
  | number (q : Quantity)
  | label (name : Bytes)
  deriving DecidableEq, Repr

/-- One byte of a data line, and how a message names it. -/
structure Item where
  /-- The number, which tells whether it is too large. -/
  value : Quantity
  /-- The number that is written. -/
  byte : Quantity
  /-- Its text. -/
  text : Bytes
  deriving DecidableEq, Repr

/-- What a source line states. Registers are numbers of any size here. -/
inductive Statement where
  /-- Nothing: an empty line, or a comment. -/
  | skip
  /-- The name of the place where the line stands. -/
  | label (name : Bytes)
  | plain (op : Plain)
  | unary (op : Unary) (reg : Quantity)
  | binary (op : Binary) (first second : Quantity)
  | ternary (op : Ternary) (dest left right : Quantity)
  | branch (op : Branch) (target : Target)
  | immediate (op : Immediate) (reg : Quantity) (value : Target)
  | literal (op : Literal) (reg : Quantity) (text : Bytes)
  /-- A call of a service of the host, for machines that have such an opcode. -/
  | service (number : Quantity)
  /-- Bytes as they stand. -/
  | data (items : List Item)
  /-- A line of no known form. -/
  | unknown (line : Bytes)
  deriving DecidableEq, Repr

namespace Statement

open Scan

/-! ## Operands -/

/-- A register. -/
def register : Scan Quantity := do
  char '#'
  return Quantity.readCharacter (← digits)

/-- A comma with any blanks around it. -/
def comma : Scan Unit := do
  blanks
  char ','
  blanks

/-- A comma with at most one blank on either side. -/
def closeComma : Scan Unit := do
  maybeBlank
  char ','
  maybeBlank

/-- The target that a word names: `0x` marks a hexadecimal number, in a small letter only. -/
def target (w : Bytes) : Target :=
  if (ascii "0x").isPrefixOf w then .number (Quantity.readHex w)
  else if w.all isDigit then .number (Quantity.read w)
  else .label w

/-- The number that a text names: `0x` at its front, in letters of either case, marks a
hexadecimal number. -/
def number (w : Bytes) : Quantity :=
  if Quantity.beginsWith "0x" w then Quantity.readHex w else Quantity.read w

/-- Whether a text has `0x` in it somewhere, in letters of either case. -/
def mentionsHex : Bytes → Bool
  | [] => false
  | b :: t => Quantity.beginsWith "0x" (b :: t) || mentionsHex t

/-- The number of a service: `0x` anywhere in it marks a hexadecimal number. -/
def serviceNumber (w : Bytes) : Quantity :=
  if mentionsHex w then Quantity.readHex w else Quantity.readCharacter w

/-- A text constant with its newlines and tabs, which are written with a backslash and a
letter. A backslash before anything else stands for itself. -/
def unescape : Bytes → Bytes
  | [] => []
  | [b] => [b]
  | a :: b :: t =>
    if a == byte '\\' && b == byte 'n' then byte '\n' :: unescape t
    else if a == byte '\\' && b == byte 't' then byte '\t' :: unescape t
    else a :: unescape (b :: t)

/-- The bytes of a data line: numbers between commas, with blanks around them. Empty places are
left out. -/
def items (t : Bytes) : List Item :=
  ((fields (byte ',') t).map Bytes.trim).filterMap fun w =>
    if w.isEmpty then none
    else if Quantity.beginsWith "0x" w then
      let q := Quantity.readHex w
      some { value := q, byte := q, text := q.written }
    else some { value := Quantity.read w, byte := Quantity.readByte w, text := w }

/-! ## The forms of a line -/

/-- A comment. -/
def comment : Scan Statement := do
  blanks
  char '#'
  return .skip

/-- A label: all that follows the colon is its name. -/
def labelLine : Scan Statement := do
  blanks
  char ':'
  return .label (← rest)

/-- The front of the three forms of `store`, which must be indented. -/
def storeFront : Scan Quantity := do
  someBlanks
  name "store"
  someBlanks
  let r ← register
  closeComma
  return r

/-- A text constant into a register. -/
def storeText : Scan Statement := do
  let r ← storeFront
  return .literal .store r (unescape (← quoted))

/-- A register into another. -/
def storeRegister : Scan Statement := do
  let r ← storeFront
  return .binary .copy r (← register)

/-- A number or the address of a label into a register. -/
def storeWord : Scan Statement := do
  let r ← storeFront
  return .immediate .store r (target (← word))

/-- The operations without operands. Two of them must be indented. -/
def plainLine (op : Plain) : Scan Statement := do
  if op = .ret then blanks else someBlanks
  name op.mnemonic
  return .plain op

/-- The operations that show a register or hand it to the host. -/
def takesRest : Unary → Bool
  | .printInt | .printText | .shell => true
  | _ => false

/-- The line of such an operation: all that follows the number sign is the register. -/
def showLine (op : Unary) : Scan Statement := do
  blanks
  name op.mnemonic
  maybeBlank
  char '#'
  return .unary op (Quantity.readCharacter (← rest))

/-- The other operations on one register. -/
def unaryLine (op : Unary) : Scan Statement := do
  blanks
  name op.mnemonic
  someBlanks
  return .unary op (← register)

/-- The operations that name an address, under a given name. -/
def branchLine (s : String) (op : Branch) : Scan Statement := do
  blanks
  name s
  someBlanks
  return .branch op (target (← word))

/-- A call of a service. -/
def serviceLine : Scan Statement := do
  blanks
  name "syscall"
  someBlanks
  return .service (serviceNumber (← word))

/-- The reads and writes of the memory. -/
def memoryLine (op : Binary) : Scan Statement := do
  blanks
  name op.mnemonic
  someBlanks
  let a ← register
  comma
  return .binary op a (← register)

/-- The operations on three registers. -/
def ternaryLine (op : Ternary) : Scan Statement := do
  blanks
  name op.mnemonic
  someBlanks
  let d ← register
  comma
  let a ← register
  comma
  return .ternary op d a (← register)

/-- The front of two of the forms of `cmp`, in letters of either case. -/
def compareFront : Scan Quantity := do
  blanks
  nameAnyCase "cmp"
  someBlanks
  let r ← register
  comma
  return r

/-- Two registers compared. -/
def compareRegisters : Scan Statement := do
  let r ← compareFront
  return .binary .compare r (← register)

/-- A register compared with a text constant, which is taken as it stands. The line must be
indented. -/
def compareText : Scan Statement := do
  someBlanks
  name "cmp"
  someBlanks
  let r ← register
  closeComma
  return .literal .compare r (← quoted)

/-- A register compared with a number. There is no label here. -/
def compareWord : Scan Statement := do
  let r ← compareFront
  return .immediate .compare r (.number (number (← word)))

/-- Bytes as they stand, under a given name. -/
def dataLine (s : String) : Scan Statement := do
  blanks
  nameAnyCase s
  someBlanks
  return .data (items (← rest))

/-- All forms of a line, in the order in which they are tried. -/
def forms : List (Scan Statement) :=
  [comment, labelLine, storeText, storeRegister, storeWord] ++
  [Plain.exit, .nop].map plainLine ++
  [Unary.printInt, .printText, .shell].map showLine ++
  [branchLine "goto" .jump] ++
  [Branch.jump, .jumpZero, .jumpNonzero, .call].map (fun op => branchLine op.mnemonic op) ++
  [serviceLine] ++
  [Ternary.arith .add, .arith .and, .arith .sub, .arith .mul, .div, .arith .or, .arith .xor,
    .concat].map ternaryLine ++
  [Unary.dec, .inc, .intToText, .random, .textToInt].map unaryLine ++
  [compareRegisters, compareText, compareWord] ++
  [Unary.isText, .isInt].map unaryLine ++
  [Binary.peek, .poke].map memoryLine ++
  [ternaryLine .copyBlock] ++
  [Unary.push, .pop].map unaryLine ++
  [plainLine .ret, dataLine "db", dataLine "data"]

/-- The statement of a line. -/
def parse (line : Bytes) : Statement :=
  if line.isEmpty then .skip else (first forms line).getD (.unknown line)

end Statement

end RegisterMachine
