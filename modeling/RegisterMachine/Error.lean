import RegisterMachine.Bytes

/-!
# What can go wrong

A program that does something the machine refuses makes it *report* an error; what follows is
up to the host. A host that goes on after a report, or a program that reaches one of the few
operations the machine does not guard, can make it touch something that is not there. Such
an access has no meaning at all, and the model ends in a *trap* instead of making one up. Two
operations are refused by the processor or by the operating system instead: the program is then
ended by a *signal*, and nobody is told.

## Main definitions

* `Error`, `Error.message` — the errors that the machine reports, and their wording.
* `Trap` — the accesses that have no meaning.
* `Signal`, `Signal.name` — the signals that end the program as a whole, and their names.
* `Halt` — the ways in which execution ends early.
* `Policy` — what the host does with a report.
-/

namespace RegisterMachine

/-- The errors that the machine reports to its host. -/
inductive Error where
  /-- A register operand is not below 10. -/
  | registerOutOfBounds
  /-- An integer was wanted and the register holds a text. -/
  | notInteger
  /-- A text was wanted and the register holds an integer. -/
  | notText
  /-- The divisor is zero. -/
  | divisionByZero
  /-- The address of a read is not a 16 bit number. -/
  | readOutsideRam
  /-- The address of a write is not a 16 bit number. -/
  | writeOutsideRam
  /-- A block copy starts at a negative address, or goes to one. -/
  | negativeAddress
  /-- A push found no room. -/
  | stackFull
  /-- A call found no room for the address to return to. -/
  | callStackFull
  /-- A pop or a return found nothing on the stack. -/
  | stackEmpty
  /-- The host itself reports an error. -/
  | raised (message : Bytes)
  deriving DecidableEq, Repr

/-- The wording of an error. -/
def Error.message : Error → Bytes
  | registerOutOfBounds => ascii "Register out of bounds"
  | notInteger => ascii "The register doesn't contain an integer"
  | notText => ascii "The register deesn't contain a string"
  | divisionByZero => ascii "Division by zero!"
  | readOutsideRam => ascii "Reading from outside RAM"
  | writeOutsideRam => ascii "Writing outside RAM"
  | negativeAddress => ascii "cannot copy to/from negative addresses"
  | stackFull => ascii "stack overflow - stack is full"
  | callStackFull => ascii "stack overflow - stack is full!"
  | stackEmpty => ascii "stack overflow - stack is empty"
  | raised message => message

/-- Accesses without a meaning. -/
inductive Trap where
  /-- A memory address outside the memory. -/
  | ram (address : Int)
  /-- A register that the machine does not have. -/
  | register (index : Nat)
  /-- A stack slot that the machine does not have. -/
  | stack (index : Int)
  /-- A block copy whose addresses grow past the largest signed word. -/
  | copyRange
  /-- A text is used after the report that there is none. -/
  | noText
  /-- An integer is put into a register that goes on being a text. -/
  | mixedRegister
  /-- The digits of an integer do not fit into the block that they are written to. -/
  | textBlock
  deriving DecidableEq, Repr

/-- The signals that end the program as a whole. -/
inductive Signal where
  /-- The processor refuses a division. -/
  | arithmetic
  /-- The operating system refuses an address. -/
  | segmentation
  deriving DecidableEq, Repr

/-- The name of a signal. -/
def Signal.name : Signal → String
  | arithmetic => "SIGFPE"
  | segmentation => "SIGSEGV"

/-- The ways in which execution ends early. -/
inductive Halt where
  /-- An error was reported, and the host stops at it. -/
  | reported (error : Error)
  /-- An access had no meaning. -/
  | trapped (trap : Trap)
  /-- A signal ended the program. -/
  | killed (signal : Signal)
  deriving DecidableEq, Repr

/-- What the host does with a report. -/
inductive Policy where
  /-- It stops the machine there. -/
  | stop
  /-- It takes note, and the machine goes on. -/
  | resume
  /-- It writes the message to its error stream and ends. -/
  | abort
  deriving DecidableEq, Repr

end RegisterMachine
