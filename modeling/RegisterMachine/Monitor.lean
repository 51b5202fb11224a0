import RegisterMachine.Demo

/-!
# The monitor

A host works on one machine through commands: it loads a program, runs it or carries out single
instructions, looks into the registers, the memory and the stack, and changes them. Every command
has an answer, which tells what was said on the way and how the machine stands afterwards. If a
command ends early, its answer tells why, and the session is over.

## Main definitions

* `Monitor.Command`, `Monitor.Answer` — what the host asks for, and what it gets.
* `Monitor.Session` — the machine of the host, and what outlives it.
* `Monitor.perform` — one command.
* `Monitor.performAll` — a list of commands, up to the first that ends early.
-/

namespace RegisterMachine.Monitor

open Exec

/-! ## Commands and answers -/

/-- What a host can ask for. -/
inductive Command where
  /-- A new machine with the first `size` bytes of an image as its program. -/
  | load (image : Option Bytes) (size : Nat)
  /-- Another policy for reports. -/
  | handle (policy : Policy)
  /-- A run with a limit, recording up to `depth` steps. -/
  | run (limit : Int) (depth : Nat)
  /-- One instruction, wherever the pointer stands and whether or not the machine is running. -/
  | step
  /-- Makes the machine run again. -/
  | start
  /-- Writes a register. -/
  | setRegister (reg : Nat) (v : Value)
  /-- Moves the instruction pointer. -/
  | setPointer (p : UInt32)
  /-- Sets the zero flag. -/
  | setFlag (z : Bool)
  /-- Replaces the handler of an opcode. -/
  | install (opcode : UInt8) (h : Option Handler)
  /-- Writes to the memory. -/
  | write (address : Nat) (bytes : Bytes)
  /-- Reads from the memory. -/
  | read (address length : Nat)
  /-- Sums up the memory. -/
  | digest
  /-- Shows the stack. -/
  | stack
  /-- Writes out the registers and the flag. -/
  | dump
  /-- Reads the next byte of the code. -/
  | fetchByte
  /-- Reads a text constant of the code. -/
  | fetchText
  /-- The integer in a register. -/
  | getInt (reg : Nat)
  /-- The text in a register. -/
  | getText (reg : Nat)
  /-- Reports an error of the host, whose message ends at its first zero byte. -/
  | raise (message : Bytes)
  /-- Runs the demonstration. -/
  | demo
  /-- Gives the machine up. -/
  | unload

/-- What a command found out. -/
inductive Finding where
  | nothing
  | loaded (ok : Bool)
  | ran (steps : Array Step) (calls : Nat)
  | memory (bytes : Bytes)
  | digest (sum : UInt32) (nonzero : Nat)
  | stack (slots : List Int32)
  | byte (b : UInt8)
  | text (t : Option Bytes)
  | int (n : Int32)
  | status (n : Nat)

/-- The answer to a command. -/
inductive Answer where
  /-- The command was carried out: what was said, which reports were survived, how the machine
  stands, and what was found. -/
  | done (output : Bytes) (reports : List Error) (machine : Option Machine) (finding : Finding)
  /-- The command ended early: why, under which policy, what was said, how the machine stood then,
  and the recorded steps and the number of calls if it was a run. -/
  | failed (halt : Halt) (policy : Policy) (output : Bytes) (machine : Machine)
      (course : Option (Array Step × Nat))
  /-- A run did not end within its fuel. -/
  | unfinished

/-- What does not change during a session. -/
structure Settings where
  /-- Whether the output explains what happens. -/
  verbose : Bool := false
  /-- Whether commands are left out. -/
  skipCommands : Bool := false
  /-- The number of cycles that a run may take. -/
  fuel : Nat

/-- The machine of the host, if it has one, and what outlives it. -/
structure Session where
  /-- The machine. -/
  machine : Option Machine := none
  /-- Its opcode table. -/
  table : Table := Table.builtin
  /-- What becomes of reports. -/
  policy : Policy := .stop
  /-- What has happened. -/
  log : Array Event := #[]
  /-- What the host will come up with. -/
  entropy : Entropy

namespace Session

/-- What the host has decided for the machine. -/
def config (s : Session) (g : Settings) : Config :=
  { policy := s.policy, skipCommands := g.skipCommands, verbose := g.verbose }

/-- The session with the machine and the log of a state, and with what the host will come up with. -/
def restore (s : Session) (t : State) : Session :=
  { s with machine := some t.machine, log := t.log, entropy := t.entropy }

/-- The reports in the log from a position on. -/
def reportsFrom (s : Session) (start : Nat) : List Error :=
  (s.log.extract start s.log.size).toList.filterMap fun
    | .reported e => some e
    | _ => none

/-- The answer of a command that was carried out: the log was `said` long where what it says
begins, and `start` long when the command began. -/
def answer (s : Session) (start said : Nat) (f : Finding) : Answer × Session :=
  (.done (Event.renderAll s.log said s.log.size) (s.reportsFrom start) s.machine f, s)

/-- Carries out a program on the machine; without a machine nothing happens. -/
def perform {α : Type} (s : Session) (find : α → Finding) (x : Exec α) : Answer × Session :=
  let start := s.log.size
  match s.machine with
  | none => s.answer start start .nothing
  | some m =>
    match x { machine := m, log := s.log, entropy := s.entropy } with
    | .ok a t => (s.restore t).answer start start (find a)
    | .error h t =>
      (.failed h s.policy (Event.renderAll t.log start t.log.size) t.machine none, s.restore t)

/-- Looks at the machine. -/
def inspect (s : Session) (find : Machine → Finding) : Answer × Session :=
  s.perform find Exec.machine

/-- Changes the machine. -/
def modify (s : Session) (f : Machine → Machine) : Answer × Session :=
  s.perform (fun _ => .nothing) (update f)

/-- Runs the machine. -/
def run (s : Session) (g : Settings) (limit : Int) (depth : Nat) : Answer × Session :=
  let start := s.log.size
  match s.machine with
  | none => s.answer start start (.ran #[] 0)
  | some m =>
    let r := RegisterMachine.run s.table (s.config g) depth limit g.fuel
      { machine := m, log := s.log, entropy := s.entropy }
    let s := s.restore r.state
    match r.ending with
    | .stopped => s.answer start r.covered (.ran r.steps r.calls)
    | .outOfFuel => (.unfinished, s)
    | .halted h =>
      let output := Event.renderAll s.log r.covered s.log.size
      (.failed h s.policy output r.state.machine (some (r.steps, r.calls)), s)

end Session

/-! ## Sums over the memory -/

/-- The FNV-1a hash of the memory, in 32 bits. -/
def fnv (ram : Ram) : UInt32 :=
  ram.foldl (fun h b => (h ^^^ b.toUInt32) * 16777619) 2166136261

/-- The number of bytes of the memory that are not zero. -/
def nonzero (ram : Ram) : Nat := ram.foldl (fun n b => if b = 0 then n else n + 1) 0

/-! ## The commands -/

/-- The register of a number. A number too large for a register operand is no register either. -/
def registerByte (r : Nat) : UInt8 := UInt8.ofNat (min r 255)

/-- Calls the handler of the opcode under the pointer, once. -/
def stepOnce (t : Table) (c : Config) : Exec Unit := do
  match t (← currentByte) with
  | some handler => handler c
  | none => pure ()

/-- Carries out one command. -/
def perform (g : Settings) (s : Session) : Command → Answer × Session
  | .load image size =>
    let machine := image.bind fun b => if ramSize < size then none else Machine.load? (b.take size)
    { s with machine, table := Table.builtin, policy := .stop }.answer s.log.size s.log.size
      (.loaded machine.isSome)
  | .handle policy => { s with policy }.answer s.log.size s.log.size .nothing
  | .run limit depth => s.run g limit depth
  | .step => s.perform (fun _ => .nothing) (stepOnce s.table (s.config g))
  | .start => s.modify fun m => { m with running := true }
  | .setRegister r v => s.perform (fun _ => .nothing) (setRegister (registerByte r) v)
  | .setPointer p => s.modify fun m => { m with ip := p }
  | .setFlag z => s.modify fun m => { m with zero := z }
  | .install opcode h =>
    { s with table := s.table.install opcode h }.answer s.log.size s.log.size .nothing
  | .write address bytes => s.modify fun m => { m with ram := Ram.write address bytes m.ram }
  | .read address length =>
    s.inspect fun m => .memory (m.ram.toArray.extract address (address + length)).toList
  | .digest => s.inspect fun m => .digest (fnv m.ram) (nonzero m.ram)
  | .stack => s.inspect fun m => .stack m.stackContent
  | .dump => s.perform (fun _ => .nothing) (do emit (.note (← Exec.machine).dump))
  | .fetchByte => s.perform .byte fetchByte
  | .fetchText => s.perform (fun t => .text (some t)) fetchText
  | .getInt r => s.perform .int (intOf (s.config g) (registerByte r))
  | .getText r =>
    s.perform (fun t => .text (t.map (·.bytes))) (textOf (s.config g) (registerByte r))
  | .raise message => s.perform (fun _ => .nothing) (report (s.config g) (.raised message.upToNul))
  | .demo =>
    { s with log := Demo.run (s.config g) s.log }.answer s.log.size s.log.size (.status 0)
  | .unload => { s with machine := none }.answer s.log.size s.log.size .nothing

/-- Carries out commands one after the other, up to the first that ends early. -/
def performAll (g : Settings) : Session → List Command → List Answer
  | _, [] => []
  | s, c :: rest =>
    match perform g s c with
    | (.done o r m f, s) => .done o r m f :: performAll g s rest
    | (a, _) => [a]

end RegisterMachine.Monitor
