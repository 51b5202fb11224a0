import RegisterMachine.Event
import RegisterMachine.Machine

/-!
# Execution

One instruction at a time. An instruction is first read, operand by operand, with the checks
that its operands undergo on the way, and then carried out. While it is read, the instruction
pointer stands on the byte that was read last; carrying it out moves the pointer on by one, or to
the target of a jump, so a report in between finds the pointer on the byte it is about.

Execution is a program over a state that is kept when it ends early: the state that an error
leaves behind can be looked at. What it says it says on the way: an instruction explains itself if
the user has asked for that, and goes on in the same way if not.

Some of what happens is up to the host alone: the random numbers, what is found where a text was
given up, and how much room there is for the digits of an integer.

## Main definitions

* `Entropy` — what the host comes up with.
* `State` — the machine, the log of events, and what the host will come up with.
* `Config` — what is decided before execution: the policy, whether commands are run, whether the
  output explains what happens, and the room for digits.
* `Exec` — programs over a state that may end early.
* `fetchByte`, `fetchWord`, `fetchText`, `fetchInstruction` — reading the code.
* `execute` — the meaning of an instruction.
* `Handler`, `Table`, `Table.builtin` — what the machine does for each opcode.
-/

namespace RegisterMachine

/-- What the host comes up with while the machine runs. -/
structure Entropy where
  /-- The random numbers still to come; every number after the last one is 0. -/
  numbers : List Nat := []
  /-- What will be found where a text was given up, time after time; after the last there is
  nothing. -/
  debris : List Value.Text := []
  deriving DecidableEq

/-- All that execution works on. -/
structure State where
  /-- The machine. -/
  machine : Machine
  /-- What was said, the latest last. -/
  log : Array Event
  /-- What the host will come up with. -/
  entropy : Entropy

/-- What is decided before execution. -/
structure Config where
  /-- What becomes of a report. -/
  policy : Policy := .stop
  /-- Whether commands are left out. -/
  skipCommands : Bool := false
  /-- Whether the output explains what happens. -/
  verbose : Bool := false
  /-- The bytes that the host keeps ready for the digits of an integer and the zero byte behind them.
  It is asked for ten, and gives no fewer than it has in its smallest block. -/
  block : Nat := 24
  deriving DecidableEq, Repr

/-- A program over a state. It gives a result or ends early, and keeps its state either way. -/
abbrev Exec := EStateM Halt State

/-! ## Single effects -/

namespace Exec

/-- The machine as it is now. -/
def machine : Exec Machine := do return (← get).machine

/-- Changes the machine. -/
def update (f : Machine → Machine) : Exec Unit :=
  modify fun s => { s with machine := f s.machine }

/-- Says something. -/
def emit (e : Event) : Exec Unit := modify fun s => { s with log := s.log.push e }

/-- Says something to a user who has asked for explanations. -/
def explain (c : Config) (e : Event) : Exec Unit := if c.verbose then emit e else pure ()

/-- Ends in an access without a meaning. -/
def trap {α : Type} (t : Trap) : Exec α := throw (.trapped t)

/-- Ends by a signal. -/
def kill {α : Type} (g : Signal) : Exec α := throw (.killed g)

/-- Reports an error: execution ends here, unless the host goes on after reports. -/
def report (c : Config) (e : Error) : Exec Unit :=
  match c.policy with
  | .resume => emit (.reported e)
  | .stop | .abort => throw (.reported e)

/-- The instruction pointer. -/
def pointer : Exec UInt32 := return (← machine).ip

/-- Moves the instruction pointer. -/
def jump (p : UInt32) : Exec Unit := update fun m => { m with ip := p }

/-- Moves the instruction pointer on by one: the instruction is done. -/
def advance : Exec Unit := update fun m => { m with ip := m.ip + 1 }

/-- The zero flag. -/
def flag : Exec Bool := return (← machine).zero

/-- Sets the zero flag. -/
def setZero (z : Bool) : Exec Unit := update fun m => { m with zero := z }

/-- The next random number. -/
def draw : Exec Nat :=
  modifyGet fun s =>
    (s.entropy.numbers.headD 0, { s with entropy.numbers := s.entropy.numbers.tail })

/-- What is found where a text was given up. -/
def salvage : Exec Value.Text :=
  modifyGet fun s =>
    (s.entropy.debris.headD (.ofBytes []), { s with entropy.debris := s.entropy.debris.tail })

/-! ## The memory -/

/-- The whole memory. -/
def memory : Exec Ram := return (← machine).ram

/-- The byte at a place. -/
def byteAt (p : Place) : Exec UInt8 := return (← machine).byteAt p

/-- Writes the byte at a place. -/
def setByteAt (p : Place) (b : UInt8) : Exec Unit := update fun m => m.setByteAt p b

/-- Copies a block of the memory, byte by byte, on the ring of all addresses. -/
def copyBlock (dest source count : Nat) : Exec Unit :=
  update fun m => { m with ram := Ram.copy dest source count m.ram }

/-! ## Registers -/

/-- The content of a register. -/
def register (r : UInt8) : Exec Value := do
  match (← machine).register? r.toNat with
  | some v => return v
  | none => trap (.register r.toNat)

/-- Writes a register. -/
def setRegister (r : UInt8) (v : Value) : Exec Unit :=
  if h : r.toNat < registerCount then update (·.setRegister ⟨r.toNat, h⟩ v)
  else trap (.register r.toNat)

/-- The integer in a register; 0 after a report that the host survives. -/
def intOf (c : Config) (r : UInt8) : Exec Int32 := do
  match ← register r with
  | .int n => return n
  | .text _ =>
    report c .notInteger
    return 0

/-- The text in a register; none after a report that the host survives. -/
def textOf (c : Config) (r : UInt8) : Exec (Option Value.Text) := do
  match ← register r with
  | .text t => return some t
  | .int _ =>
    report c .notText
    return none

/-- A text that has to be there. -/
def present : Option Value.Text → Exec Value.Text
  | some t => return t
  | none => trap .noText

/-- Writes the result of an operation and sets the zero flag by it. -/
def setResult (r : UInt8) (n : Int32) : Exec Unit := do
  setRegister r (.int n)
  setZero (n == 0)

/-- Writes the integer of a register that was an integer before, and sets the zero flag. -/
def adjust (c : Config) (r : UInt8) (f : Int32 → Int32) : Exec Unit := do
  let n ← intOf c r
  match ← register r with
  | .int _ => setResult r (f n)
  | .text _ => trap .mixedRegister

/-- What a copy from `b` to `a` writes. The text in `a` is given up before the one in `b` is read, so
if they are one and the same, what is read is whatever is found in its place. -/
def copied (a b : UInt8) : Exec Value := do
  match ← register b with
  | .int n => return .int n
  | .text t => if a = b then return .text (← salvage) else return .text t

/-- Makes sure that there is room for so many digits and the zero byte behind them. -/
def allot (c : Config) (count : Nat) : Exec Unit :=
  if count < c.block then pure () else trap .textBlock

/-! ## The stack -/

/-- The stack pointer. -/
def stackPointer : Exec Int := return (← machine).sp

/-- Moves the stack pointer. -/
def setStackPointer (i : Int) : Exec Unit := update fun m => { m with sp := i }

/-- The content of a slot of the stack. -/
def slot (i : Int) : Exec Int32 := do
  match (← machine).slot? i with
  | some n => return n
  | none => trap (.stack i)

/-- Writes a slot of the stack. -/
def setSlot (i : Int) (n : Int32) : Exec Unit := do
  match (← machine).setSlot? i n with
  | some m => update fun _ => m
  | none => trap (.stack i)

/-- Pushes an integer: the pointer moves, the slot is written, and only then it is checked where the
pointer was moved to. -/
def push (c : Config) (n : Int32) : Exec Unit := do
  let i := (← stackPointer) + 1
  setStackPointer i
  setSlot i n
  if stackSize ≤ i then report c .stackFull

/-- Pushes the address to return to: the pointer moves and is checked, and then the slot is
written. -/
def pushReturn (c : Config) : Exec Unit := do
  let i := (← stackPointer) + 1
  setStackPointer i
  if stackSize ≤ i then report c .callStackFull
  setSlot i ((← pointer) + 1).toInt32

/-- Pops an integer. -/
def pop (c : Config) : Exec Int32 := do
  let i ← stackPointer
  if i ≤ 0 then report c .stackEmpty
  let n ← slot i
  setStackPointer (i - 1)
  return n

/-! ## Reading the code -/

/-- Moves the pointer on and reads the byte there. -/
def fetchByte : Exec UInt8 := do
  let a := Address.ofPointer ((← pointer) + 1)
  jump a.toPointer
  return (← memory)[a]

/-- Reads a word, the low byte first. -/
def fetchWord : Exec UInt16 := do
  let low ← fetchByte
  let high ← fetchByte
  return wordOf low high

/-- Reads a text: its length, and then its bytes one after the other. The pointer ends on
the last byte read. What follows a zero byte is read and dropped. -/
def fetchText : Exec Bytes := do
  let length ← fetchWord
  let start := (← pointer) + 1
  let (bytes, behind) := (← memory).read length.toNat start
  jump (behind - 1)
  return bytes.upToNul

/-- Checks that the machine has a register. -/
def checkRegister (c : Config) (r : UInt8) : Exec Unit :=
  if r.toNat < registerCount then pure () else report c .registerOutOfBounds

/-- Reads a register operand and checks it. -/
def fetchRegister (c : Config) : Exec UInt8 := do
  let r ← fetchByte
  checkRegister c r
  return r

end Exec

open Exec

/-- Whether the source operands of an operation on three registers are checked while they
are read. The destination always is. -/
def Ternary.checksSources : Ternary → Bool
  | .copyBlock => true
  | .arith _ | .div | .concat => false

/-- Reads the operands of an operation. -/
def fetchInstruction (c : Config) : Opcode → Exec Instruction
  | .plain op => return .plain op
  | .unary op => do
    let r ← fetchRegister c
    return .unary op r
  | .binary op => do
    let a ← fetchRegister c
    let b ← fetchRegister c
    return .binary op a b
  | .ternary op => do
    let d ← fetchRegister c
    let a ← if op.checksSources then fetchRegister c else fetchByte
    let b ← if op.checksSources then fetchRegister c else fetchByte
    return .ternary op d a b
  | .branch op => do
    let t ← fetchWord
    return .branch op t
  | .immediate op => do
    let r ← fetchRegister c
    let v ← fetchWord
    return .immediate op r v
  | .literal op => do
    let r ← fetchRegister c
    let t ← fetchText
    return .literal op r t

/-! ## The meaning of the instructions -/

/-- The result of an arithmetic operation. It wraps around. -/
def Arith.apply : Arith → Int32 → Int32 → Int32
  | .xor => (· ^^^ ·)
  | .add => (· + ·)
  | .sub => (· - ·)
  | .mul => (· * ·)
  | .and => (· &&& ·)
  | .or => (· ||| ·)

/-- Operations without operands. -/
def executePlain (c : Config) : Plain → Exec Unit
  | .exit => do
    update fun m => { m with running := false }
    advance
  | .nop => advance
  | .ret => do
    let n ← pop c
    explain c (.returned n)
    jump n.toUInt32

/-- Operations on one register. A command that is left out does not move the pointer. -/
def executeUnary (c : Config) (r : UInt8) : Unary → Exec Unit
  | .printInt => do
    let n ← intOf c r
    emit (.showInt c.verbose r n)
    advance
  | .intToText => do
    let n ← intOf c r
    allot c (Numeral.signed n).length
    setRegister r (.text (.ofBytes (Numeral.signed n)))
    advance
  | .random => do
    let n ← draw
    setRegister r (.int (Int32.ofNat (n % ramSize)))
    advance
  | .inc => do
    adjust c r (· + 1)
    advance
  | .dec => do
    adjust c r (· - 1)
    advance
  | .printText => do
    let t ← textOf c r
    emit (.showText c.verbose r (t.map (·.bytes)))
    advance
  | .shell => do
    let t ← textOf c r
    if c.skipCommands then emit (.skipped (t.map (·.bytes)))
    else
      emit (.command (t.map (·.bytes)))
      advance
  | .textToInt => do
    let t ← present (← textOf c r)
    setRegister r (.int (Numeral.readInt32 t.bytes))
    advance
  | .isText => do
    setZero (match ← register r with | .text _ => true | .int _ => false)
    advance
  | .isInt => do
    setZero (match ← register r with | .text _ => false | .int _ => true)
    advance
  | .push => do
    let n ← intOf c r
    explain c (.pushing r n)
    push c n
    advance
  | .pop => do
    let n ← pop c
    explain c (.popped r n)
    setRegister r (.int n)
    advance

/-- The addresses that single reads and writes admit: all 16 bit numbers, which is one more
than the memory has. -/
def admitted (n : Int32) : Bool := 0 ≤ n.toInt && n.toInt ≤ 0xFFFF

/-- Operations on two registers. -/
def executeBinary (c : Config) (a b : UInt8) : Binary → Exec Unit
  | .compare => do
    let x ← register a
    let y ← register b
    setZero (x == y)
    advance
  | .copy => do
    setRegister a (← copied a b)
    advance
  | .peek => do
    let n ← intOf c b
    if !admitted n then report c .readOutsideRam
    match Place.ofInt? n.toInt with
    | none => trap (.ram n.toInt)
    | some place =>
      setRegister a (.int (Int32.ofNat (← byteAt place).toNat))
      advance
  | .poke => do
    let v ← intOf c a
    let n ← intOf c b
    explain c (.poking n v)
    if !admitted n then report c .writeOutsideRam
    match Place.ofInt? n.toInt with
    | none => trap (.ram n.toInt)
    | some place =>
      setByteAt place v.toUInt32.toUInt8
      advance

/-- The most bytes that a text takes, with the zero byte behind it. The host gives no larger block, and
a text that is too long for it is written to no address. -/
def largestText : Nat := 0x7FFFFFFF

/-- Operations on three registers. A division by zero and a copy with a negative address do not
move the pointer. The one quotient of two words that is no word is refused by the processor. -/
def executeTernary (c : Config) (d a b : UInt8) : Ternary → Exec Unit
  | .arith op => do
    let x ← intOf c a
    let y ← intOf c b
    setResult d (op.apply x y)
    advance
  | .div => do
    let x ← intOf c a
    let y ← intOf c b
    if y = 0 then report c .divisionByZero
    else if x = Int32.minValue ∧ y = -1 then kill .arithmetic
    else
      setResult d (x / y)
      advance
  | .concat => do
    let s ← textOf c a
    let t ← textOf c b
    let joined := (← present s) ++ (← present t)
    if largestText < joined.bytes.length + 1 then kill .segmentation
    else
      setRegister d (.text joined)
      advance
  | .copyBlock => do
    let source ← intOf c a
    let dest ← intOf c d
    let size ← intOf c b
    if source < 0 ∨ dest < 0 then report c .negativeAddress
    else
      explain c (.copying dest source size)
      let count := size.toInt.toNat
      if 0x80000000 < max dest.toInt source.toInt + count then trap .copyRange
      else
        copyBlock dest.toInt.toNat source.toInt.toNat count
        advance

/-- Operations that name an address of the code. -/
def executeBranch (c : Config) (target : UInt16) : Branch → Exec Unit
  | .jump => jump target.toUInt32
  | .jumpZero => do
    if ← flag then jump target.toUInt32 else advance
  | .jumpNonzero => do
    if ← flag then advance else jump target.toUInt32
  | .call => do
    pushReturn c
    jump target.toUInt32

/-- Operations with an integer constant. The flag is cleared before the register is looked at. -/
def executeImmediate (c : Config) (r : UInt8) (v : UInt16) : Immediate → Exec Unit
  | .store => do
    setRegister r (.int (Int32.ofNat v.toNat))
    advance
  | .compare => do
    setZero false
    let n ← intOf c r
    if n = Int32.ofNat v.toNat then setZero true
    advance

/-- Operations with a text constant, which ends at its first zero byte. -/
def executeLiteral (c : Config) (r : UInt8) (t : Bytes) : Literal → Exec Unit
  | .store => do
    setRegister r (.text (.ofBytes t))
    advance
  | .compare => do
    let current ← textOf c r
    explain c (.comparing r (current.map (·.bytes)) t)
    setZero ((← present current) == .ofBytes t)
    advance

/-- The meaning of an instruction whose operands have been read. -/
def execute (c : Config) : Instruction → Exec Unit
  | .plain op => executePlain c op
  | .unary op r => executeUnary c r op
  | .binary op a b => executeBinary c a b op
  | .ternary op d a b => executeTernary c d a b op
  | .branch op t => executeBranch c t op
  | .immediate op r v => executeImmediate c r v op
  | .literal op r t => executeLiteral c r t op

/-! ## Handlers -/

/-- What the machine does for an opcode when the pointer stands on it. -/
abbrev Handler := Config → Exec Unit

/-- Reads the operands of an operation and carries it out. -/
def Opcode.handler (op : Opcode) : Handler := fun c => do
  let i ← fetchInstruction c op
  explain c (.decoded i)
  execute c i

/-- The byte of the memory under the instruction pointer. -/
def currentByte : Exec UInt8 := do
  let p ← pointer
  match (← memory)[p.toNat]? with
  | some b => return b
  | none => trap (.ram p.toNat)

/-- Opcodes without a meaning are announced and skipped. -/
def unknownHandler : Handler := fun _ => do
  let b ← currentByte
  emit (.unknown (← pointer) b)
  advance

/-- What the machine does for each opcode; it does nothing at all where there is no handler. -/
abbrev Table := UInt8 → Option Handler

/-- The opcode table of a new machine. -/
def Table.builtin : Table := fun b =>
  match Opcode.ofByte? b with
  | some op => some op.handler
  | none => some unknownHandler

/-- A table with one entry replaced. -/
def Table.install (t : Table) (b : UInt8) (h : Option Handler) : Table :=
  fun x => if x = b then h else t x

end RegisterMachine
