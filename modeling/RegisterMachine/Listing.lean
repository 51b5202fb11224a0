import RegisterMachine.Instruction
import RegisterMachine.Numeral

/-!
# Listings

A listing shows code as assembly source, one line for each instruction. The code is read from its
start to its end, instruction after instruction. A byte that is no opcode is listed as data. Code
may end in the middle of an instruction: an operand byte that is missing is taken for zero, and
a text constant is listed as far as it goes.

## Main definitions

* `Listing.Line` — an instruction, or a byte of data.
* `Listing.decode` — the line at the front of some code, and how many bytes it covers.
* `Listing.Entry`, `Listing.entries` — the lines of a whole code, with their addresses.
* `Instruction.source` — an instruction in assembly language.
* `Listing.render` — the listing of a code as text.
-/

namespace RegisterMachine

namespace Listing

/-- One line of a listing. -/
inductive Line where
  | instruction (i : Instruction)
  | data (b : UInt8)
  deriving DecidableEq, Repr

/-- The operand byte at a position, or zero behind the end. -/
def operand (t : Bytes) (i : Nat) : UInt8 := t.getD i 0

/-- The operand word at a position. -/
def operandWord (t : Bytes) (i : Nat) : UInt16 := wordOf (operand t i) (operand t (i + 1))

/-- The instruction of an opcode whose operands stand at the front of `t`, and how many bytes of
operands it has. These may be more than there are. -/
def operands (t : Bytes) : Opcode → Instruction × Nat
  | .plain op => (.plain op, 0)
  | .unary op => (.unary op (operand t 0), 1)
  | .binary op => (.binary op (operand t 0) (operand t 1), 2)
  | .ternary op => (.ternary op (operand t 0) (operand t 1) (operand t 2), 3)
  | .branch op => (.branch op (operandWord t 0), 2)
  | .immediate op => (.immediate op (operand t 0) (operandWord t 1), 3)
  | .literal op =>
    let length := (operandWord t 1).toNat
    (.literal op (operand t 0) ((t.drop 3).take length), 3 + length)

/-- The line of a byte of the code, given the bytes behind it, and how many of these it covers. -/
def decode (b : UInt8) (t : Bytes) : Line × Nat :=
  match Opcode.ofByte? b with
  | some op => ((.instruction (operands t op).1), (operands t op).2)
  | none => (.data b, 0)

/-- A line and the address of its first byte. -/
structure Entry where
  /-- The address. -/
  address : Nat
  /-- The line. -/
  line : Line
  deriving DecidableEq, Repr

/-- The lines of a code whose first byte has a given address, behind those in `done` (which is
in reverse). -/
def entriesAfter (done : List Entry) (address : Nat) (code : Bytes) : List Entry :=
  match code with
  | [] => done.reverse
  | b :: t =>
    let (line, length) := decode b t
    entriesAfter ({ address, line } :: done) (address + 1 + length) (t.drop length)
termination_by code.length
decreasing_by
  simp only [List.length_drop, List.length_cons]
  omega

/-- The lines of a code. -/
def entries (code : Bytes) : List Entry := entriesAfter [] 0 code

end Listing

namespace Instruction

/-- A register in assembly language. -/
def registerSource (r : UInt8) : Bytes := ascii "#" ++ Numeral.decimal r.toNat

/-- A word in assembly language. -/
def wordSource (w : UInt16) : Bytes := ascii "0x" ++ Numeral.hex4 w.toNat

/-- A byte of a text constant; a newline and a tab are written with a backslash and a letter. -/
def escape (b : UInt8) : Bytes :=
  if b == byte '\n' then ascii "\\n" else if b == byte '\t' then ascii "\\t" else [b]

/-- A text constant in assembly language. -/
def textSource (t : Bytes) : Bytes := ascii "\"" ++ t.flatMap escape ++ ascii "\""

/-- The comma between two registers. -/
def separator : Binary → String
  | .compare | .copy => ","
  | .peek | .poke => ", "

/-- An instruction in assembly language. -/
def source : Instruction → Bytes
  | plain op => ascii op.mnemonic
  | unary op r => ascii op.mnemonic ++ ascii " " ++ registerSource r
  | binary op a b =>
    ascii op.mnemonic ++ ascii " " ++ registerSource a ++ ascii (separator op) ++ registerSource b
  | ternary op d a b =>
    ascii op.mnemonic ++ ascii " " ++ registerSource d ++ ascii ", " ++ registerSource a ++
      ascii ", " ++ registerSource b
  | branch op t => ascii op.mnemonic ++ ascii " " ++ wordSource t
  | immediate .store r v =>
    ascii "store " ++ registerSource r ++ ascii ", " ++ wordSource v
  | immediate .compare r v => ascii "cmp " ++ registerSource r ++ ascii "," ++ wordSource v
  | literal op r t =>
    ascii op.mnemonic ++ ascii " " ++ registerSource r ++ ascii ", " ++ textSource t

end Instruction

namespace Listing

/-- A line in assembly language. -/
def Line.source : Line → Bytes
  | instruction i => i.source
  | data b => ascii "DATA " ++ Numeral.decimal b.toNat

/-- An entry as a line of text, with its address in front if that is wanted. -/
def Entry.render (addresses : Bool) (e : Entry) : Bytes :=
  (if addresses then Numeral.hex4 e.address else []) ++ ascii "\t" ++ e.line.source ++ ascii "\n"

/-- The listing of a code as text. -/
def render (addresses : Bool) (code : Bytes) : Bytes :=
  (entries code).flatMap (Entry.render addresses)

end Listing

end RegisterMachine
