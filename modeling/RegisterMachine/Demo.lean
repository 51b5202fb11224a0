import RegisterMachine.Run

/-!
# A host with an opcode of its own

A small demonstration of how a host extends the machine: it loads a program that uses an opcode
the machine does not know, and installs a handler for it.

## Main definitions

* `Demo.announce` — the host's handler.
* `Demo.image`, `Demo.opcode` — the program, and the opcode it uses.
* `Demo.run` — what happens when the program is run.
-/

namespace RegisterMachine.Demo

open Exec

/-- Says how long the loaded program is. -/
def announce : Handler := fun _ => do
  let m ← machine
  emit (.note (ascii "\nCustom Handling Here\n"))
  emit (.note (ascii "\tOur bytecode is " ++ Numeral.decimal m.size ++ ascii " bytes long\n"))
  advance

/-- The opcode of the host. -/
def opcode : UInt8 := 0xCD

/-- Stores a number, shows it, calls the host and ends. -/
def image : Bytes :=
  Instruction.encode (.immediate .store 1 0x1234) ++ Instruction.encode (.unary .printInt 1) ++
    [opcode] ++ Instruction.encode (.plain .exit)

/-- Runs the program on a machine of its own and adds what happens to a log. -/
def run (c : Config) (log : Array Event) : Array Event :=
  match Machine.load? image with
  | none => log
  | some m =>
    let table := Table.builtin.install opcode (some announce)
    (RegisterMachine.run table c 0 0 image.length { machine := m, log, entropy := {} }).state.log

end RegisterMachine.Demo
