import RegisterMachine.Assembly.Statement
import RegisterMachine.Numeral.CodePoint

/-!
# From source to code

The assembler goes through the source once, line by line, and writes the code of each line as a
sequence of characters. A label stands for the number of characters before it. An instruction that
refers to a label gets zeros for the address, and when the source is done these places are filled
in, in the order in which they were met.

The first fault ends the work. What was written before it stays: the code of the lines before
and of the front of the line itself, and the addresses that were filled in already.

## Main definitions

* `Notice`, `Notice.message` — remarks about the source that do not end the work.
* `Fault`, `Fault.message` — what ends it.
* `Draft` — the code so far, with the labels and the places to fill in.
* `Draft.statement`, `Draft.resolve` — the code of one line, and the filling in.
* `Assembly`, `assemble` — all that becomes of a source.
-/

namespace RegisterMachine

/-! ## Notices and faults -/

/-- Remarks about the source. -/
inductive Notice where
  /-- The name of a label is in use already, for a place that is not the start of the code. -/
  | repeatedLabel (name : Bytes)
  /-- The name of a label looks like a number, so nothing can refer to it. -/
  | numericLabel (name : Bytes)
  /-- A line of no known form. -/
  | unknownLine (line : Bytes)
  /-- The source states no code. -/
  | noCode
  deriving DecidableEq, Repr

/-- The wording of a remark. -/
def Notice.message : Notice → Bytes
  | repeatedLabel name =>
    ascii "WARNING: Label name '" ++ name ++ ascii "' defined multiple times!\n" ++
      ascii "         Picking first occurrence.\n" ++
      ascii "         This is probably your bug.\n"
  | numericLabel name =>
    ascii "WARNING: Label named '" ++ name ++ ascii "' WILL be confused for an address\n" ++
      ascii "         Strongly consider changing this\n"
  | unknownLine line => ascii "WARNING UNKNOWN LINE: " ++ line ++ ascii "\n"
  | noCode => ascii "WARNING: Didn't generate any code\n"

/-- What ends the work. -/
inductive Fault where
  /-- An integer to be stored is not below 65536. -/
  | integerTooLarge
  /-- A number of a data line is not below 256. -/
  | dataTooLarge (text : Bytes)
  /-- A number that is no number, or infinite, is to be written. -/
  | notACharacter (q : Quantity)
  /-- A number beyond the last character is to be written. -/
  | characterTooLarge (n : Nat)
  /-- A label is used and stands nowhere. -/
  | undefinedLabel (name : Bytes)
  deriving DecidableEq, Repr

/-- The wording of a fault. -/
def Fault.message : Fault → Bytes
  | integerTooLarge => ascii "Int too large"
  | dataTooLarge text => ascii "Data too large for a byte: " ++ text
  | notACharacter q => ascii "Cannot chr " ++ q.written
  | characterTooLarge n =>
    ascii "Use of code point 0x" ++ Numeral.hexUpper n ++
      ascii " is not allowed; the permissible max is 0x" ++ Numeral.hexUpper CodePoint.largest
  | undefinedLabel name =>
    ascii "No target for label '" ++ name ++ ascii "' - Label not defined!"

/-! ## Drafts -/

/-- The work so far. -/
structure Draft where
  /-- The bytes written. -/
  code : Array UInt8 := #[]
  /-- The number of characters written. -/
  offset : Nat := 0
  /-- The labels met, the latest first. -/
  labels : List (Bytes × Nat) := []
  /-- The places to fill in, each with the label that belongs there. -/
  references : Array (Nat × Bytes) := #[]
  /-- The remarks made. -/
  notices : Array Notice := #[]

/-- A piece of work on a draft, which a fault may end. -/
abbrev Drafting := EStateM Fault Draft

/-- The character that a number is written as: its whole part, or a replacement if it is
negative. Numbers above the largest 64 bit word count as that word. -/
def Quantity.character : Quantity → Except Fault Nat
  | .nan => .error (.notACharacter .nan)
  | .infinite negative => .error (.notACharacter (.infinite negative))
  | .finite negative whole fraction =>
    if Quantity.isNegative (.finite negative whole fraction) then .ok CodePoint.replacement
    else
      let n := min whole 0xFFFFFFFFFFFFFFFF
      if CodePoint.largest < n then .error (.characterTooLarge n) else .ok n

namespace Draft

/-- Writes the bytes of so many characters at the end. -/
def append (bytes : Bytes) (characters : Nat) (d : Draft) : Draft :=
  { d with code := d.code ++ bytes, offset := d.offset + characters }

/-- Writes one number. -/
def put (q : Quantity) : Drafting Unit := do
  match q.character with
  | .error fault => throw fault
  | .ok n => modify (append (CodePoint.encode n) 1)

/-- Writes several numbers. -/
def putAll : List Quantity → Drafting Unit
  | [] => pure ()
  | q :: qs => do
    put q
    putAll qs

/-- Writes a text as it stands. -/
def putText (t : Bytes) : Drafting Unit := modify (append t t.length)

/-- Makes a remark. -/
def remark (n : Notice) : Drafting Unit :=
  modify fun d => { d with notices := d.notices.push n }

/-- The opcode as a number to write. -/
def opcode (op : Opcode) : Quantity := .ofNat op.toByte.toNat

/-- Writes numbers and a word behind them. A label leaves zeros, and the place is kept in mind. -/
def putWord (front : List Quantity) : Target → Drafting Unit
  | .number q => putAll (front ++ [q.low, q.high])
  | .label name => do
    putAll (front ++ [.ofNat 0, .ofNat 0])
    modify fun d => { d with references := d.references.push (d.offset - 2, name) }

/-- Writes the numbers of a data line. -/
def putItems : List Item → Drafting Unit
  | [] => pure ()
  | item :: rest => do
    if item.value.exceeds 255 then throw (.dataTooLarge item.text)
    put item.byte
    putItems rest

/-- Whether the name of a label would be taken for a number. -/
def looksNumeric (name : Bytes) : Bool :=
  Quantity.beginsWith "0x" name || (!name.isEmpty && name.all isDigit)

/-- Notes where a label stands. A later place takes over from an earlier one. A repeated name
is remarked on, unless the earlier place is the start of the code. -/
def defineLabel (name : Bytes) : Drafting Unit := do
  if ((← get).labels.lookup name).getD 0 != 0 then remark (.repeatedLabel name)
  if looksNumeric name then remark (.numericLabel name)
  modify fun d => { d with labels := (name, d.offset) :: d.labels }

/-- The opcode of the call of a service. -/
def serviceOpcode : Quantity := .ofNat 0x52

/-- Writes the code of one statement. -/
def statement : Statement → Drafting Unit
  | .skip => pure ()
  | .label name => defineLabel name
  | .plain op => putAll [opcode (.plain op)]
  | .unary op r => putAll [opcode (.unary op), r]
  | .binary op a b => putAll [opcode (.binary op), a, b]
  | .ternary op d a b => putAll [opcode (.ternary op), d, a, b]
  | .branch op t => putWord [opcode (.branch op)] t
  | .immediate .store r (.number q) =>
    if q.exceeds 65535 then throw .integerTooLarge
    else putWord [opcode (.immediate .store), r] (.number q)
  | .immediate op r t => putWord [opcode (.immediate op), r] t
  | .literal op r t => do
    putWord [opcode (.literal op), r] (.number (.ofNat t.length))
    putText t
  | .service n => putAll [serviceOpcode, n]
  | .data items => putItems items
  | .unknown line => remark (.unknownLine line)

/-- Writes the code of statements, one after the other. -/
def statements : List Statement → Drafting Unit
  | [] => pure ()
  | s :: rest => do
    statement s
    statements rest

/-- The code with bytes written over it from a position on. -/
def overwrite (position : Nat) : Bytes → Array UInt8 → Array UInt8
  | [], code => code
  | b :: bytes, code =>
    overwrite (position + 1) bytes
      (if position < code.size then code.setIfInBounds position b else code.push b)

/-- Fills in one place. -/
def fill (position : Nat) (name : Bytes) : Drafting Unit := do
  match (← get).labels.lookup name with
  | none => throw (.undefinedLabel name)
  | some offset =>
    let bytes := CodePoint.encode (offset % 256) ++ CodePoint.encode (offset / 256)
    modify fun d => { d with code := overwrite position bytes d.code }

/-- Fills in places in order. -/
def fillAll : List (Nat × Bytes) → Drafting Unit
  | [] => pure ()
  | (position, name) :: rest => do
    fill position name
    fillAll rest

/-- Fills in all places that refer to a label. -/
def resolve : Drafting Unit := do
  fillAll (← get).references.toList

/-- The work on a whole source. -/
def source (t : Bytes) : Drafting Unit := do
  statements ((lines t).map Statement.parse)
  if (← get).offset < 1 then remark .noCode
  resolve

end Draft

/-! ## Assemblies -/

/-- All that becomes of a source. -/
structure Assembly where
  /-- The code, as far as the work went. -/
  code : Bytes
  /-- The remarks, in order. -/
  notices : List Notice
  /-- The fault that ended the work, if one did. -/
  fault : Option Fault
  deriving DecidableEq, Repr

/-- The assembly of a source. -/
def assemble (t : Bytes) : Assembly :=
  match Draft.source t {} with
  | .ok _ d => { code := d.code.toList, notices := d.notices.toList, fault := none }
  | .error f d => { code := d.code.toList, notices := d.notices.toList, fault := some f }

/-- The remarks of an assembly as text. -/
def Assembly.messages (a : Assembly) : Bytes := a.notices.flatMap Notice.message

end RegisterMachine
