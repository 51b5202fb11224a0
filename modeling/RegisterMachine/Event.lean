import RegisterMachine.Error
import RegisterMachine.Instruction
import RegisterMachine.Memory
import RegisterMachine.Numeral

/-!
# What the machine says

What the machine prints is a log of events, each with its text. Most events are explanations: they
are there for a user who has asked for them, and without that the machine does not print them. What
a program shows is printed for every user, but in words of its own for those who want explanations.

## Main definitions

* `Event` — something that is said, with all that the text for it mentions.
* `Event.render` — the text for an event.
* `Event.renderAll` — the text for a part of a log.
-/

namespace RegisterMachine

/-- Something that is said while the machine runs. -/
inductive Event where
  /-- A cycle begins: an opcode was read at an address. -/
  | fetched (address : UInt32) (opcode : UInt8)
  /-- The opcode has no meaning. -/
  | unknown (address : UInt32) (opcode : UInt8)
  /-- An instruction and all its operands were read. -/
  | decoded (i : Instruction)
  /-- The program shows an integer, tersely or with explanations. -/
  | showInt (verbose : Bool) (reg : UInt8) (n : Int32)
  /-- The program shows a text; there is none after a report that was survived. -/
  | showText (verbose : Bool) (reg : UInt8) (t : Option Bytes)
  /-- A register is compared with a text constant. -/
  | comparing (reg : UInt8) (current : Option Bytes) (text : Bytes)
  /-- A memory byte is about to be written. -/
  | poking (address value : Int32)
  /-- A block is about to be copied. -/
  | copying (dest source size : Int32)
  /-- An integer is about to be pushed. -/
  | pushing (reg : UInt8) (n : Int32)
  /-- An integer was popped. -/
  | popped (reg : UInt8) (n : Int32)
  /-- A return address was popped. -/
  | returned (n : Int32)
  /-- The host is asked to run a command. -/
  | command (t : Option Bytes)
  /-- A command is left out. -/
  | skipped (t : Option Bytes)
  /-- A run has ended. -/
  | executed (cycles : Nat)
  /-- An error was reported, and the machine went on. -/
  | reported (error : Error)
  /-- A host's own text. -/
  | note (t : Bytes)
  deriving DecidableEq, Repr

namespace Event

open Numeral

/-- A text, or the word that stands for a missing one. -/
def orNull (t : Option Bytes) : Bytes := t.getD (ascii "(null)")

/-- A register number in decimal. -/
def reg (r : UInt8) : Bytes := decimal r.toNat

/-- The digits of a signed word read as an unsigned one. -/
def unsigned (n : Int32) : Nat := n.toUInt32.toNat

/-- A line about three registers and the sign that joins the sources. -/
def equation (name : String) (sign : String) (d a b : UInt8) : Bytes :=
  ascii name ++ ascii "(Register:" ++ reg d ++ ascii " = Register:" ++ reg a ++ ascii sign ++
    ascii "Register:" ++ reg b ++ ascii ")\n"

/-- A line about one register. -/
def about (name : String) (r : UInt8) : Bytes :=
  ascii name ++ ascii "(Register " ++ reg r ++ ascii ")\n"

/-- A line about an address of the code. -/
def offset (name : String) (target : UInt16) : Bytes :=
  ascii name ++ ascii "(Offset:" ++ decimal target.toNat ++ ascii " [Hex:" ++ hex4 target.toNat ++
    ascii "]\n"

/-- The name and the sign of an arithmetic operation in the explanations. -/
def arithName : Arith → String × String
  | .xor => ("op_xor", " ^ ")
  | .add => ("op_add", " + ")
  | .sub => ("op_sub", " - ")
  | .mul => ("op_mul", " * ")
  | .and => ("op_and", " & ")
  | .or => ("op_or", " | ")

/-- The explanation of a decoded instruction. Some operations explain themselves only later,
by an event of their own. -/
def explain : Instruction → Bytes
  | .plain .nop => ascii "nop()\n"
  | .plain _ => []
  | .unary .printInt r => about "INT_PRINT" r
  | .unary .intToText r => about "INT_TOSTRING" r
  | .unary .random r => about "INT_RANDOM" r
  | .unary .inc r => about "INC_OP" r
  | .unary .dec r => about "DEC_OP" r
  | .unary .printText r => about "STRING_PRINT" r
  | .unary .shell r => about "STRING_SYSTEM" r
  | .unary .textToInt r => ascii "STRING_TOINT(Register:" ++ reg r ++ ascii ")\n"
  | .unary .isText r => ascii "is register " ++ hex2 r.toNat ++ ascii " a string?\n"
  | .unary .isInt r => ascii "is register " ++ hex2 r.toNat ++ ascii " an integer?\n"
  | .unary _ _ => []
  | .binary .compare a b =>
    ascii "CMP(Register:" ++ reg a ++ ascii " vs Register:" ++ reg b ++ ascii ")\n"
  | .binary .copy d s =>
    ascii "STORE(Reg" ++ hex2Lower d.toNat ++ ascii " will be set to contents of Reg" ++
      hex2Lower s.toNat ++ ascii ")\n"
  | .binary .peek r a =>
    ascii "LOAD_FROM_RAM(Register:" ++ reg r ++ ascii " will contain contents of address " ++
      hex4 a.toNat ++ ascii ")\n"
  | .binary .poke _ _ => []
  | .ternary (.arith op) d a b => equation (arithName op).1 (arithName op).2 d a b
  | .ternary .div d a b => equation "DIV" " / " d a b
  | .ternary .concat d a b => equation "STRING_CONCAT" " + " d a b
  | .ternary .copyBlock _ _ _ => []
  | .branch .jump t => offset "JUMP_TO" t
  | .branch .jumpZero t => offset "JUMP_Z" t
  | .branch .jumpNonzero t => offset "JUMP_NZ" t
  | .branch .call _ => []
  | .immediate .store r v =>
    ascii "STORE_INT(Reg:" ++ hex2Lower r.toNat ++ ascii ") => " ++
      padded 4 '0' (decimal v.toNat) ++ ascii " [Hex:" ++ hex4Lower v.toNat ++ ascii "]\n"
  | .immediate .compare r v =>
    ascii "CMP_IMMEDIATE(Register:" ++ reg r ++ ascii " vs " ++ decimal v.toNat ++
      ascii " [Hex:" ++ hex4 v.toNat ++ ascii "])\n"
  | .literal .store r t =>
    ascii "STRING_STORE(Register " ++ reg r ++ ascii ") = '" ++ t ++ ascii "'\n"
  | .literal .compare _ _ => []

/-- The lines about each byte of a block copy, in the order in which they are copied. -/
def copyLines (dest source size : Nat) : Bytes :=
  (List.range size).flatMap fun i =>
    ascii "\tCopying from: " ++ hex4Lower (Address.onRing (source + i)).val ++
      ascii " Copying-to " ++ hex4 (Address.onRing (dest + i)).val ++ ascii "\n"

/-- The text for an event. -/
def render : Event → Bytes
  | fetched a op =>
    hex4Lower a.toNat ++ ascii " - Parsing OpCode Hex:" ++ hex2 op.toNat ++ ascii "\n"
  | unknown a op =>
    hex4 a.toNat ++ ascii " - op_unknown(" ++ hex2 op.toNat ++ ascii ")\n"
  | decoded i => explain i
  | showInt true r n =>
    ascii "[STDOUT] Register R" ++ padded 2 '0' (reg r) ++ ascii " => " ++ signed n ++
      ascii " [Hex:" ++ hex4Lower (unsigned n) ++ ascii "]\n"
  | showInt false _ n => ascii "0x" ++ hex4 (unsigned n)
  | showText true r t =>
    ascii "[stdout] register R" ++ padded 2 '0' (reg r) ++ ascii " => " ++ orNull t ++ ascii "\n"
  | showText false _ t => orNull t
  | comparing r current t =>
    ascii "Comparing register-" ++ reg r ++ ascii " ('" ++ orNull current ++
      ascii "') - with string '" ++ t ++ ascii "'\n"
  | poking a v =>
    ascii "STORE_IN_RAM(Address " ++ hex4 (unsigned a) ++ ascii " set to " ++
      hex2 (unsigned v) ++ ascii ")\n"
  | copying d s n =>
    ascii "Copying " ++ padded 4 ' ' (hexLower (unsigned n)) ++ ascii " bytes from " ++
      hex4Lower (unsigned s) ++ ascii " to " ++ hex4 (unsigned d) ++ ascii "\n" ++
      copyLines (unsigned d) (unsigned s) n.toInt.toNat
  | pushing r n =>
    ascii "PUSH(Register " ++ reg r ++ ascii " [=" ++ hex4Lower (unsigned n) ++ ascii "])\n"
  | popped r n =>
    ascii "POP(Register " ++ reg r ++ ascii ") => " ++ hex4Lower (unsigned n) ++ ascii "\n"
  | returned n => ascii "RET() => " ++ hex4Lower (unsigned n) ++ ascii "\n"
  | command _ => []
  | skipped t => ascii "Fuzzing - skipping execution of: " ++ orNull t ++ ascii "\n"
  | executed n => ascii "Executed " ++ decimal n ++ ascii " instructions\n"
  | reported _ => []
  | note t => t

/-- The text for the events of a log from one position up to another. -/
def renderAll (log : Array Event) (start stop : Nat) : Bytes :=
  (log.extract start stop).toList.flatMap render

end Event

end RegisterMachine
