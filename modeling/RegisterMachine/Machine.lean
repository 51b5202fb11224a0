import RegisterMachine.Memory
import RegisterMachine.Numeral

/-!
# The machine

The state of the machine: ten registers that hold an integer or a text, a zero flag, the
instruction pointer, the memory, and a stack of 1024 slots with its pointer.

The stack pointer is the number of the slot that was written last; the first push writes slot 1,
so slot 0 is written by no program that reports no error. The pointer lies directly behind the
last slot: slot 1024 *is* the stack pointer, and writing there moves it.

Nothing of the machine lies behind the memory. The byte there is kept apart from it; no program is
loaded into it, and a new machine is taken to find a zero there.

## Main definitions

* `Value.Text`, `Value` — a text without zero bytes, and what a register holds.
* `Machine` — the state of the machine.
* `Machine.load?` — a new machine with a program in its memory.
* `Machine.byteAt`, `Machine.setByteAt` — the places of single reads and writes.
* `Machine.slot?`, `Machine.setSlot?` — the stack as numbered slots.
* `Machine.dump` — the registers and the flag as text.
-/

namespace RegisterMachine

/-- A text that a register can hold: a zero byte would end it. -/
@[ext]
structure Value.Text where
  /-- The bytes of the text. -/
  bytes : Bytes
  /-- None of them is zero. -/
  noZero : (0 : UInt8) ∉ bytes
  deriving DecidableEq, Repr

namespace Value.Text

/-- The text in front of the first zero byte. -/
def ofBytes (t : Bytes) : Value.Text := ⟨t.upToNul, t.not_mem_upToNul⟩

/-- One text behind another. -/
instance : Append Value.Text where
  append t u := ⟨t.bytes ++ u.bytes, by simp [t.noZero, u.noZero]⟩

@[simp]
theorem bytes_ofBytes (t : Bytes) : (ofBytes t).bytes = t.upToNul := rfl

@[simp]
theorem ofBytes_upToNul (t : Bytes) : ofBytes t.upToNul = ofBytes t :=
  Value.Text.ext t.upToNul_upToNul

@[simp]
theorem bytes_append (t u : Value.Text) : (t ++ u).bytes = t.bytes ++ u.bytes := rfl

end Value.Text

/-- What a register holds. -/
inductive Value where
  | int (n : Int32)
  | text (t : Value.Text)
  deriving DecidableEq, Repr

/-- The number of registers. -/
abbrev registerCount : Nat := 10

/-- The number of slots of the stack. -/
abbrev stackSize : Nat := 1024

/-- The state of the machine. -/
structure Machine where
  /-- The registers. -/
  registers : Vector Value registerCount
  /-- The zero flag. -/
  zero : Bool
  /-- The instruction pointer as it is stored: it may lie beyond the memory. -/
  ip : UInt32
  /-- The memory. -/
  ram : Ram
  /-- The byte directly behind the memory. -/
  behind : UInt8
  /-- The slots of the stack. -/
  stack : Vector Int32 stackSize
  /-- The stack pointer. -/
  sp : Int
  /-- Whether the machine goes on with a next instruction. -/
  running : Bool
  /-- The length of the program that was loaded. -/
  size : Nat
  deriving DecidableEq

namespace Machine

/-- A new machine with a program at the start of its memory: every register is the integer 0,
the stack is empty, and the machine is running. There is none for an empty program, nor for
one that is longer than the memory. -/
def load? (image : Bytes) : Option Machine :=
  if image.length = 0 ∨ ramSize < image.length then none
  else some {
    registers := Vector.replicate registerCount (.int 0)
    zero := false
    ip := 0
    ram := Ram.ofBytes image
    behind := 0
    stack := Vector.replicate stackSize 0
    sp := 0
    running := true
    size := image.length }

/-- The byte at a place. -/
def byteAt (m : Machine) : Place → UInt8
  | .inside a => m.ram[a]
  | .behind => m.behind

/-- The machine with the byte at a place written. -/
def setByteAt (m : Machine) (p : Place) (b : UInt8) : Machine :=
  match p with
  | .inside a => { m with ram := m.ram.set a.val b a.isLt }
  | .behind => { m with behind := b }

/-- The content of a numbered slot of the stack. The slot behind the last one is the stack
pointer; there is no other. -/
def slot? (m : Machine) (i : Int) : Option Int32 :=
  if 0 ≤ i then
    if h : i.toNat < stackSize then some m.stack[i.toNat]
    else if i.toNat = stackSize then some (Int32.ofInt m.sp)
    else none
  else none

/-- The machine with a numbered slot of the stack written. -/
def setSlot? (m : Machine) (i : Int) (n : Int32) : Option Machine :=
  if 0 ≤ i then
    if h : i.toNat < stackSize then some { m with stack := m.stack.set i.toNat n h }
    else if i.toNat = stackSize then some { m with sp := n.toInt }
    else none
  else none

/-- The content of a register, if the machine has it. -/
def register? (m : Machine) (r : Nat) : Option Value := m.registers[r]?

/-- The machine with a register written. -/
def setRegister (m : Machine) (r : Fin registerCount) (v : Value) : Machine :=
  { m with registers := m.registers.set r.val v r.isLt }

/-- The stack from the first slot that a program writes up to the stack pointer. -/
def stackContent (m : Machine) : List Int32 :=
  (List.range m.sp.toNat).filterMap fun i : Nat => m.slot? (i + 1)

/-- One line about a register. -/
def dumpRegister (r : Nat) : Value → Bytes
  | .text t =>
    ascii "\tRegister " ++ Numeral.padded 2 '0' (Numeral.decimal r) ++ ascii " - str: " ++
      t.bytes ++ ascii "\n"
  | .int n =>
    ascii "\tRegister " ++ Numeral.padded 2 '0' (Numeral.decimal r) ++ ascii " - Decimal:" ++
      Numeral.signedPadded 4 n ++ ascii " [Hex:" ++ Numeral.hex4 n.toUInt32.toNat ++ ascii "]\n"

/-- The registers and the flag as text. -/
def dump (m : Machine) : Bytes :=
  ascii "Register dump\n" ++
    (m.registers.toList.zipIdx.flatMap fun (v, r) => dumpRegister r v) ++
    (if m.zero then ascii "\tZ-FLAG:true\n" else ascii "\tZ-FLAG:false\n")

end Machine

end RegisterMachine
