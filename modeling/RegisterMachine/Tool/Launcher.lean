import RegisterMachine.Demo
import RegisterMachine.Files

/-!
# The launcher as a tool

The launcher runs a code file, with a limit on the number of instructions if it is given one. A run
that stops at an error ends with a message on the error stream.

A run may take long, so the launcher is also there in parts: how it begins, and how it ends once
a run, perhaps in several stretches, is over.

## Main definitions

* `Launcher.Settings`, `Launcher.Result` — what the user has decided, and how it ends.
* `Launcher.start` — a machine that is ready to run, or the end already.
* `Launcher.conclude` — the end of a run.
* `Launcher.launch`, `Launcher.demo` — the launcher, and the demonstration.
-/

namespace RegisterMachine

namespace Launcher

/-- What the user has decided. -/
structure Settings where
  /-- Whether the output explains what happens, and ends with the registers. -/
  verbose : Bool := false
  /-- Whether commands are left out. -/
  skipCommands : Bool := false

/-- How a tool ended. -/
inductive Result where
  /-- It ended with a status, and printed this to its two streams. -/
  | exited (status : Nat) (output errors : Bytes)
  /-- An access had no meaning. -/
  | trapped (trap : Trap)
  /-- A signal ended it. -/
  | killed (signal : Signal)
  /-- It did not end within its fuel. -/
  | unfinished
  deriving DecidableEq, Repr

/-- What the machine is told. -/
def Settings.config (g : Settings) : Config :=
  { policy := .abort, skipCommands := g.skipCommands, verbose := g.verbose }

/-- What the launcher does first. -/
inductive Opening where
  /-- It ends at once. -/
  | ended (r : Result)
  /-- It runs a machine with a limit on the number of instructions. -/
  | ready (limit : Int) (s : State)

/-- A machine with a program, ready to run. -/
def load (limit : Int) (image : Bytes) : Opening :=
  match Machine.load? image with
  | none => .ended (.exited 1 (ascii "Failed to create virtual machine instance.\n") [])
  | some m => .ready limit { machine := m, log := #[], entropy := {} }

/-- Reads the arguments: the first is the code file, and the second the limit. The launcher knows the
name by which it was called. -/
def start (self : Bytes) (fs : Files) : List Bytes → Opening
  | [] => .ended (.exited 0 (ascii "Usage: " ++ self ++ ascii " input-file\n") [])
  | name :: args =>
    match fs.read name with
    | .error _ => .ended (.exited 1 (ascii "Failed to read file: " ++ name ++ ascii "\n") [])
    | .ok [] => .ended (.exited 1 [] (ascii "Failed to wholly read input file\n"))
    | .ok image => load ((args.head?.map fun a => (Numeral.readInt32 a).toInt).getD 0) image

/-- The end of a run. -/
def conclude (g : Settings) (r : Run) : Result :=
  let s := r.state
  let output := Event.renderAll s.log 0 s.log.size
  match r.ending with
  | .stopped => .exited 0 (output ++ if g.verbose then s.machine.dump else []) []
  | .halted (.reported e) =>
    .exited 1 output (ascii "ERROR running script - " ++ e.message ++ ascii "\n")
  | .halted (.trapped t) => .trapped t
  | .halted (.killed s) => .killed s
  | .outOfFuel => .unfinished

/-- The launcher. -/
def launch (g : Settings) (fuel : Nat) (self : Bytes) (fs : Files) (args : List Bytes) : Result :=
  match start self fs args with
  | .ended r => r
  | .ready limit s => conclude g (run Table.builtin g.config 0 limit fuel s)

/-- The demonstration. -/
def demo (g : Settings) : Result :=
  let log := Demo.run g.config #[]
  .exited 0 (Event.renderAll log 0 log.size) []

end Launcher

end RegisterMachine
