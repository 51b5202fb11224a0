import RegisterMachine.Execution

/-!
# Runs

A run starts at the beginning of the memory and goes on, cycle by cycle, while the machine is
running. A limit on the number of cycles stops the machine after that many; the limit 0 is none, and
a negative one stops it after the first cycle.

A run may go on for ever, so it is given *fuel*, the number of cycles after which the model gives
up. What a run finds does not depend on its fuel, except that more of it may be found.

While it runs, the first so many calls of a handler are recorded as steps, each with what it
changed and with the part of the log since the step before.

## Main definitions

* `cycle` — one opcode is read and its handler called.
* `Step` — the record of one call of a handler.
* `Ending` — how a run ended.
* `Progress`, `Run` — what is counted on the way, and the course of a whole run.
* `proceed`, `run` — a run from any state, and from the beginning of the memory.
-/

namespace RegisterMachine

open Exec

/-- Reads the opcode under the pointer, which first goes back to the start if it lies beyond
the memory, and calls its handler. Tells which opcode it was, and whether it had a handler. -/
def cycle (t : Table) (c : Config) : Exec (UInt8 × Bool) := do
  let a := Address.ofPointer (← pointer)
  jump a.toPointer
  let opcode := (← memory).get a
  explain c (.fetched a.toPointer opcode)
  match t opcode with
  | some handler =>
    handler c
    return (opcode, true)
  | none => return (opcode, false)

/-- The record of one call of a handler. -/
structure Step where
  /-- Where the instruction was. -/
  address : Address
  /-- Its opcode. -/
  opcode : UInt8
  /-- The instruction pointer after it. -/
  ip : UInt32
  /-- The zero flag after it. -/
  zero : Bool
  /-- The stack pointer after it. -/
  sp : Int
  /-- The registers whose content it changed, with the content after it. -/
  changes : List (Nat × Value)
  /-- What was said since the step before. -/
  events : Array Event
  deriving DecidableEq, Repr

/-- How a run ended. -/
inductive Ending where
  /-- The machine stopped by itself or at the limit. -/
  | stopped
  /-- A handler ended early. -/
  | halted (h : Halt)
  /-- The fuel was used up first. -/
  | outOfFuel
  deriving DecidableEq, Repr

/-- What is counted and recorded while a run goes on. -/
structure Progress where
  /-- The number of cycles. -/
  cycles : Nat
  /-- The number of calls of a handler; a call that ended early counts. -/
  calls : Nat
  /-- The recorded steps. -/
  steps : Array Step
  /-- The length of the part of the log that the recorded steps cover. -/
  covered : Nat

/-- The course of a whole run. -/
structure Run extends Progress where
  /-- The state reached. -/
  state : State
  /-- How the run ended. -/
  ending : Ending

/-- The registers whose content differs, with the content after the difference. -/
def changedRegisters (before after : Vector Value registerCount) : List (Nat × Value) :=
  ((before.toList.zip after.toList).zipIdx).filterMap fun ((v, w), r) =>
    if v = w then none else some (r, w)

/-- Whether a limit stops the machine after so many cycles. -/
def limitReached (limit : Int) (cycles : Nat) : Bool := limit != 0 && decide (limit ≤ cycles)

/-- The state with the machine stopped if the limit is reached. -/
def State.limited (s : State) (limit : Int) (cycles : Nat) : State :=
  if limitReached limit cycles then { s with machine := { s.machine with running := false } } else s

namespace Progress

/-- A run that has not begun. -/
def start (s : State) : Progress :=
  { cycles := 0, calls := 0, steps := #[], covered := s.log.size }

/-- Counts one more cycle in which no handler was called. -/
def idle (p : Progress) : Progress := { p with cycles := p.cycles + 1 }

/-- Counts one more cycle in which a handler was called. It is recorded if there are fewer than
`depth` steps yet: the instruction at `address` found the registers `before` and left `s`. -/
def called (p : Progress) (depth : Nat) (address : Address) (opcode : UInt8)
    (before : Vector Value registerCount) (s : State) : Progress :=
  let p := { p with cycles := p.cycles + 1, calls := p.calls + 1 }
  if p.steps.size < depth then
    let step : Step := {
      address
      opcode
      ip := s.machine.ip
      zero := s.machine.zero
      sp := s.machine.sp
      changes := changedRegisters before s.machine.registers
      events := s.log.extract p.covered s.log.size }
    { p with steps := p.steps.push step, covered := s.log.size }
  else p

end Progress

/-- The state at the end of a run that was not cut short: a user who wants explanations is told the
number of cycles. -/
def State.concluded (s : State) (c : Config) (cycles : Nat) : State :=
  if c.verbose then { s with log := s.log.push (.executed cycles) } else s

/-- Goes on with a run while the machine is running and there is fuel. -/
def proceed (t : Table) (c : Config) (depth : Nat) (limit : Int) : Nat → Progress → State → Run
  | 0, p, s => { p with state := s, ending := .outOfFuel }
  | fuel + 1, p, s =>
    if s.machine.running then
      let address := Address.ofPointer s.machine.ip
      let before := s.machine.registers
      match cycle t c s with
      | .error h s => { p with calls := p.calls + 1, state := s, ending := .halted h }
      | .ok (opcode, handled) s =>
        let p := if handled then p.called depth address opcode before s else p.idle
        proceed t c depth limit fuel p (s.limited limit p.cycles)
    else
      { p with state := s.concluded c p.cycles, ending := .stopped }

/-- A run from the beginning of the memory. -/
def run (t : Table) (c : Config) (depth : Nat) (limit : Int) (fuel : Nat) (s : State) : Run :=
  let s := { s with machine := { s.machine with ip := 0 } }
  proceed t c depth limit fuel (Progress.start s) s

end RegisterMachine
