import RegisterMachine.Bytes

/-!
# The instruction set

Instructions are grouped by the shape of their operands. The shape alone fixes how long an
instruction is, in which order its operands stand after the opcode, and how they are written,
so the machine, the assembler and the listing all read the tables of this module.

A register operand is one byte and a word operand two bytes, the low byte first. A text operand
is a word that gives its length and then as many bytes.

## Main definitions

* `Plain`, `Unary`, `Binary`, `Ternary`, `Branch`, `Immediate`, `Literal` — the operations, by the
  shape of their operands.
* `Opcode` — an operation of any shape, with `Opcode.toByte` and `Opcode.ofByte?`.
* `Instruction` — an operation with its operands, and `Instruction.encode`, its bytes.

## Main results

* `Opcode.ofByte?_eq_some_iff` — the opcode table has no two operations on one byte.
-/

namespace RegisterMachine

/-! ## Operations by shape -/

/-- Operations without operands. -/
inductive Plain where
  | exit
  | nop
  | ret
  deriving DecidableEq, Repr

/-- Operations on one register. -/
inductive Unary where
  | printInt
  | intToText
  | random
  | inc
  | dec
  | printText
  | shell
  | textToInt
  | isText
  | isInt
  | push
  | pop
  deriving DecidableEq, Repr

/-- Operations on two registers. -/
inductive Binary where
  | compare
  | copy
  | peek
  | poke
  deriving DecidableEq, Repr

/-- The arithmetic of two integer registers. -/
inductive Arith where
  | xor
  | add
  | sub
  | mul
  | and
  | or
  deriving DecidableEq, Repr

/-- Operations on three registers: the first is the destination. -/
inductive Ternary where
  | arith (op : Arith)
  | div
  | concat
  | copyBlock
  deriving DecidableEq, Repr

/-- Operations that name an address of the code. -/
inductive Branch where
  | jump
  | jumpZero
  | jumpNonzero
  | call
  deriving DecidableEq, Repr

/-- Operations on a register and an integer constant. -/
inductive Immediate where
  | store
  | compare
  deriving DecidableEq, Repr

/-- Operations on a register and a text constant. -/
inductive Literal where
  | store
  | compare
  deriving DecidableEq, Repr

/-- An operation of any shape. -/
inductive Opcode where
  | plain (op : Plain)
  | unary (op : Unary)
  | binary (op : Binary)
  | ternary (op : Ternary)
  | branch (op : Branch)
  | immediate (op : Immediate)
  | literal (op : Literal)
  deriving DecidableEq, Repr

/-! ## The opcode table -/

/-- The byte that stands for an operation in the code. -/
def Opcode.toByte : Opcode → UInt8
  | .plain .exit => 0x00
  | .immediate .store => 0x01
  | .unary .printInt => 0x02
  | .unary .intToText => 0x03
  | .unary .random => 0x04
  | .branch .jump => 0x10
  | .branch .jumpZero => 0x11
  | .branch .jumpNonzero => 0x12
  | .ternary (.arith .xor) => 0x20
  | .ternary (.arith .add) => 0x21
  | .ternary (.arith .sub) => 0x22
  | .ternary (.arith .mul) => 0x23
  | .ternary .div => 0x24
  | .unary .inc => 0x25
  | .unary .dec => 0x26
  | .ternary (.arith .and) => 0x27
  | .ternary (.arith .or) => 0x28
  | .literal .store => 0x30
  | .unary .printText => 0x31
  | .ternary .concat => 0x32
  | .unary .shell => 0x33
  | .unary .textToInt => 0x34
  | .binary .compare => 0x40
  | .immediate .compare => 0x41
  | .literal .compare => 0x42
  | .unary .isText => 0x43
  | .unary .isInt => 0x44
  | .plain .nop => 0x50
  | .binary .copy => 0x51
  | .binary .peek => 0x60
  | .binary .poke => 0x61
  | .ternary .copyBlock => 0x62
  | .unary .push => 0x70
  | .unary .pop => 0x71
  | .plain .ret => 0x72
  | .branch .call => 0x73

/-- The operation that a byte of the code stands for, if there is one. -/
def Opcode.ofByte? (b : UInt8) : Option Opcode :=
  match b.toNat with
  | 0x00 => some (.plain .exit)
  | 0x01 => some (.immediate .store)
  | 0x02 => some (.unary .printInt)
  | 0x03 => some (.unary .intToText)
  | 0x04 => some (.unary .random)
  | 0x10 => some (.branch .jump)
  | 0x11 => some (.branch .jumpZero)
  | 0x12 => some (.branch .jumpNonzero)
  | 0x20 => some (.ternary (.arith .xor))
  | 0x21 => some (.ternary (.arith .add))
  | 0x22 => some (.ternary (.arith .sub))
  | 0x23 => some (.ternary (.arith .mul))
  | 0x24 => some (.ternary .div)
  | 0x25 => some (.unary .inc)
  | 0x26 => some (.unary .dec)
  | 0x27 => some (.ternary (.arith .and))
  | 0x28 => some (.ternary (.arith .or))
  | 0x30 => some (.literal .store)
  | 0x31 => some (.unary .printText)
  | 0x32 => some (.ternary .concat)
  | 0x33 => some (.unary .shell)
  | 0x34 => some (.unary .textToInt)
  | 0x40 => some (.binary .compare)
  | 0x41 => some (.immediate .compare)
  | 0x42 => some (.literal .compare)
  | 0x43 => some (.unary .isText)
  | 0x44 => some (.unary .isInt)
  | 0x50 => some (.plain .nop)
  | 0x51 => some (.binary .copy)
  | 0x60 => some (.binary .peek)
  | 0x61 => some (.binary .poke)
  | 0x62 => some (.ternary .copyBlock)
  | 0x70 => some (.unary .push)
  | 0x71 => some (.unary .pop)
  | 0x72 => some (.plain .ret)
  | 0x73 => some (.branch .call)
  | _ => none

/-- The byte of an operation stands for that operation. -/
@[simp]
theorem Opcode.ofByte?_toByte (op : Opcode) : Opcode.ofByte? op.toByte = some op := by
  cases op with
  | plain op => cases op <;> rfl
  | unary op => cases op <;> rfl
  | binary op => cases op <;> rfl
  | ternary op =>
    cases op with
    | arith op => cases op <;> rfl
    | _ => rfl
  | branch op => cases op <;> rfl
  | immediate op => cases op <;> rfl
  | literal op => cases op <;> rfl

/-- A byte stands for an operation exactly if it is the byte of that operation. -/
theorem Opcode.ofByte?_eq_some_iff {b : UInt8} {op : Opcode} :
    Opcode.ofByte? b = some op ↔ b = op.toByte := by
  constructor
  · intro h
    apply UInt8.toNat_inj.1
    unfold Opcode.ofByte? at h
    split at h <;> first | (cases h; assumption) | exact absurd h (by simp)
  · rintro rfl
    exact Opcode.ofByte?_toByte op

/-! ## Names in the assembly language -/

/-- The name of an operation without operands. -/
def Plain.mnemonic : Plain → String
  | .exit => "exit"
  | .nop => "nop"
  | .ret => "ret"

/-- The name of an operation on one register. -/
def Unary.mnemonic : Unary → String
  | .printInt => "print_int"
  | .intToText => "int2string"
  | .random => "random"
  | .inc => "inc"
  | .dec => "dec"
  | .printText => "print_str"
  | .shell => "system"
  | .textToInt => "string2int"
  | .isText => "is_string"
  | .isInt => "is_integer"
  | .push => "push"
  | .pop => "pop"

/-- The name of an operation on two registers. -/
def Binary.mnemonic : Binary → String
  | .compare => "cmp"
  | .copy => "store"
  | .peek => "peek"
  | .poke => "poke"

/-- The name of an arithmetic operation. -/
def Arith.mnemonic : Arith → String
  | .xor => "xor"
  | .add => "add"
  | .sub => "sub"
  | .mul => "mul"
  | .and => "and"
  | .or => "or"

/-- The name of an operation on three registers. -/
def Ternary.mnemonic : Ternary → String
  | .arith op => op.mnemonic
  | .div => "div"
  | .concat => "concat"
  | .copyBlock => "memcpy"

/-- The name of an operation that names an address. -/
def Branch.mnemonic : Branch → String
  | .jump => "jmp"
  | .jumpZero => "jmpz"
  | .jumpNonzero => "jmpnz"
  | .call => "call"

/-- The name of an operation with an integer constant. -/
def Immediate.mnemonic : Immediate → String
  | .store => "store"
  | .compare => "cmp"

/-- The name of an operation with a text constant. -/
def Literal.mnemonic : Literal → String
  | .store => "store"
  | .compare => "cmp"

/-! ## Instructions -/

/-- An operation with its operands, as they stand in the code: a register operand may be
any byte, whether or not the machine has such a register. -/
inductive Instruction where
  | plain (op : Plain)
  | unary (op : Unary) (reg : UInt8)
  | binary (op : Binary) (first second : UInt8)
  | ternary (op : Ternary) (dest left right : UInt8)
  | branch (op : Branch) (target : UInt16)
  | immediate (op : Immediate) (reg : UInt8) (value : UInt16)
  | literal (op : Literal) (reg : UInt8) (text : Bytes)
  deriving DecidableEq, Repr

namespace Instruction

/-- The operation of an instruction. -/
def opcode : Instruction → Opcode
  | plain op => .plain op
  | unary op _ => .unary op
  | binary op _ _ => .binary op
  | ternary op _ _ _ => .ternary op
  | branch op _ => .branch op
  | immediate op _ _ => .immediate op
  | literal op _ _ => .literal op

/-- The two bytes of a word, the low byte first. -/
def wordBytes (w : UInt16) : Bytes := [w.toUInt8, (w >>> 8).toUInt8]

/-- The operand bytes of an instruction. -/
def operandBytes : Instruction → Bytes
  | plain _ => []
  | unary _ r => [r]
  | binary _ a b => [a, b]
  | ternary _ d a b => [d, a, b]
  | branch _ t => wordBytes t
  | immediate _ r v => r :: wordBytes v
  | literal _ r t => r :: wordBytes (UInt16.ofNat t.length) ++ t

/-- The bytes of an instruction. -/
def encode (i : Instruction) : Bytes := i.opcode.toByte :: i.operandBytes

end Instruction

end RegisterMachine
