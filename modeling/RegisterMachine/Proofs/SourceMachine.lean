import RegisterMachine.Execution
import RegisterMachine.Proofs.TwoPass

/-!
# Running source programs

A machine that runs a program line by line, without any code: its program counter is an index into
the lines of code, and a jump to a label goes on at the line after the label. Addresses play a part
only where the language makes them visible, that is in numeric targets and in the integers that a
call pushes and a return pops.

The machine has the registers, the flag and the stack of a real one, but no memory; operations on the
memory and on the host are none of its business. A text that is copied to its own register is given up
before it is read, so the host decides what is there afterwards. The machine is *stuck* where a program
leaves the realm of its source: on a line of data, at an address at which no line begins, on a stack of
more than 1023 integers, at the one quotient that is no word, and at a text that is too long for any
block. The end of the program ends the run.

## Main definitions

* `Source.codes`, `Source.byteAddress`, `Source.labelIndex`, `Source.indexAt?` — lines of code, their
  addresses, and the lines at labels and addresses.
* `Source.Situation` — a state of the machine.
* `Source.Outcome` — what a step or a run leads to.
* `Source.Situation.step`, `Source.Situation.run` — one step, and so many steps.
* `Source.Code.Covered` — the lines of code that the machine is for.
* `Source.Strays` — the ways in which such a program leaves its source.

## Main results

* `Source.Situation.strays_of_run` — a run is stuck only after it has come to a situation in which the
  program strays.
-/

namespace RegisterMachine.Source

/-! ## Lines of code -/

/-- The code of a line, if it is no label. -/
def Line.code? : Line → Option Code
  | label _ => none
  | code _ c => some c

/-- The lines of code of a program. -/
def codes (p : List Line) : List Code := p.filterMap Line.code?

/-- The address of a line of code: the sizes of those before it. The number of lines stands for the end
of the program. -/
def byteAddress (p : List Line) (k : Nat) : Nat := (((codes p).take k).map Code.size).sum

/-- The line of code after a label. -/
def labelIndex (p : List Line) (name : Name) : Nat :=
  (codes (p.takeWhile fun l => l.label? ≠ some name)).length

/-- The line of code at an address, if one begins there. -/
def indexAt? (p : List Line) (address : Nat) : Option Nat :=
  (List.range ((codes p).length + 1)).find? fun k => byteAddress p k == address

/-- The line that an operand names as a target. -/
def Operand.index? (p : List Line) : Operand → Option Nat
  | number n => indexAt? p n.value
  | label name => some (labelIndex p name)

/-- The number that an operand names. -/
def Operand.value (p : List Line) : Operand → Nat
  | number n => n.value
  | label name => byteAddress p (labelIndex p name)

/-! ## States -/

/-- A state of the machine that runs source programs. -/
structure Situation where
  /-- The index of the next line of code. -/
  pc : Nat
  /-- The registers. -/
  registers : Vector Value registerCount
  /-- The zero flag. -/
  zero : Bool
  /-- The stack, the top first. -/
  stack : List Int32
  /-- What was printed. -/
  output : Bytes
  /-- What the host will come up with. -/
  entropy : Entropy

/-- What a step or a run leads to. -/
inductive Outcome where
  /-- The program goes on. -/
  | running (s : Situation)
  /-- The program has ended. -/
  | exited (s : Situation)
  /-- The program did something that is refused. -/
  | failed (error : Error) (output : Bytes)
  /-- The program has left its source. -/
  | stuck

namespace Situation

/-- The start of a program. -/
def start (entropy : Entropy) : Situation where
  pc := 0
  registers := Vector.replicate registerCount (.int 0)
  zero := false
  stack := []
  output := []
  entropy := entropy

/-- The most integers that the stack holds. -/
def stackLimit : Nat := 1023

variable (s : Situation)

/-- The content of a register. -/
def value (r : Register) : Value := s.registers[r.value]?.getD (.int 0)

/-- The state with a register written. -/
def assign (r : Register) (v : Value) : Situation :=
  { s with registers := s.registers.setIfInBounds r.value v }

/-- The state with the result of an operation in a register, and the flag set by it. -/
def assignResult (r : Register) (n : Int32) : Situation :=
  { s.assign r (.int n) with zero := n == 0 }

/-- The program goes on at the next line. -/
def next : Outcome := .running { s with pc := s.pc + 1 }

/-- The program goes on at a line, if there is one. -/
def goTo : Option Nat → Outcome
  | some k => .running { s with pc := k }
  | none => .stuck

/-- What is done with the integer of a register. -/
def withInt (r : Register) (f : Int32 → Outcome) : Outcome :=
  match s.value r with
  | .int n => f n
  | .text _ => .failed .notInteger s.output

/-- What is done with the text of a register. -/
def withText (r : Register) (f : Value.Text → Outcome) : Outcome :=
  match s.value r with
  | .int _ => .failed .notText s.output
  | .text t => f t

/-- What is done after an integer was pushed. -/
def pushed (n : Int32) (f : Situation → Outcome) : Outcome :=
  if s.stack.length < stackLimit then f { s with stack := n :: s.stack } else .stuck

/-- What is done with an integer that was popped. -/
def popped (f : Int32 → Situation → Outcome) : Outcome :=
  match s.stack with
  | [] => .failed .stackEmpty s.output
  | n :: rest => f n { s with stack := rest }

/-! ## Steps -/

/-- An operation on one register. -/
def stepUnary (r : Register) : Unary → Outcome
  | .printInt => s.withInt r fun n =>
    next { s with output := s.output ++ (ascii "0x" ++ Numeral.hex4 n.toUInt32.toNat) }
  | .intToText => s.withInt r fun n => (s.assign r (.text (.ofBytes (Numeral.signed n)))).next
  | .random =>
    next { s.assign r (.int (Int32.ofNat (s.entropy.numbers.headD 0 % 0xFFFF))) with
      entropy.numbers := s.entropy.numbers.tail }
  | .inc => s.withInt r fun n => (s.assignResult r (n + 1)).next
  | .dec => s.withInt r fun n => (s.assignResult r (n - 1)).next
  | .printText => s.withText r fun t => next { s with output := s.output ++ t.bytes }
  | .textToInt => s.withText r fun t => (s.assign r (.int (Numeral.readInt32 t.bytes))).next
  | .isText => next { s with zero := match s.value r with | .text _ => true | .int _ => false }
  | .isInt => next { s with zero := match s.value r with | .text _ => false | .int _ => true }
  | .push => s.withInt r fun n => s.pushed n next
  | .pop => s.popped fun n s => (s.assign r (.int n)).next
  | .shell => .stuck

/-- The state after a copy from `b` to `a`. A text that is copied to its own register is given up first,
so what is found in its place is there afterwards. -/
def copy (a b : Register) : Situation :=
  match s.value b with
  | .int n => s.assign a (.int n)
  | .text t =>
    if a.value = b.value then
      { s.assign a (.text (s.entropy.debris.headD (.ofBytes []))) with
        entropy.debris := s.entropy.debris.tail }
    else s.assign a (.text t)

/-- An operation on two registers. -/
def stepBinary (a b : Register) : Binary → Outcome
  | .compare => next { s with zero := s.value a == s.value b }
  | .copy => (s.copy a b).next
  | .peek | .poke => .stuck

/-- The result of an arithmetic operation on words. -/
def arith : Arith → Int32 → Int32 → Int32
  | .xor, x, y => x ^^^ y
  | .add, x, y => x + y
  | .sub, x, y => x - y
  | .mul, x, y => x * y
  | .and, x, y => x &&& y
  | .or, x, y => x ||| y

/-- An operation on three registers. -/
def stepTernary (d a b : Register) : Ternary → Outcome
  | .arith op => s.withInt a fun x => s.withInt b fun y => (s.assignResult d (arith op x y)).next
  | .div => s.withInt a fun x => s.withInt b fun y =>
    if y = 0 then .failed .divisionByZero s.output
    else if x = Int32.minValue ∧ y = -1 then .stuck
    else (s.assignResult d (x / y)).next
  | .concat => s.withText a fun t => s.withText b fun u =>
    if largestText < (t ++ u).bytes.length + 1 then .stuck else (s.assign d (.text (t ++ u))).next
  | .copyBlock => .stuck

/-- An operation that names a target. A call pushes the address of the next line. -/
def stepBranch (p : List Line) (target : Option Nat) : Branch → Outcome
  | .jump => s.goTo target
  | .jumpZero => if s.zero then s.goTo target else s.next
  | .jumpNonzero => if s.zero then s.next else s.goTo target
  | .call => s.pushed (Int32.ofNat (byteAddress p (s.pc + 1))) fun s => s.goTo target

/-- One instruction. -/
def stepInstr (p : List Line) : Instr → Outcome
  | .plain .exit => .exited s
  | .plain .nop => s.next
  | .plain .ret => s.popped fun n s => s.goTo (indexAt? p n.toUInt32.toNat)
  | .unary op r => s.stepUnary r op
  | .binary op a b => s.stepBinary a b op
  | .ternary op d a b => s.stepTernary d a b op
  | .goto t => s.stepBranch p (t.index? p) .jump
  | .branch op t => s.stepBranch p (t.index? p) op
  | .store r v => (s.assign r (.int (Int32.ofNat (v.value p)))).next
  | .compare r n => s.withInt r fun m => next { s with zero := m == Int32.ofNat n.value }
  | .literal .store r t => (s.assign r (.text (.ofBytes (literalBytes .store t)))).next
  | .literal .compare r t =>
    s.withText r fun u => next { s with zero := u == .ofBytes (literalBytes .compare t) }

/-- One step. The end of the program ends the run. -/
def step (p : List Line) : Outcome :=
  match (codes p)[s.pc]? with
  | none => .exited s
  | some (.instr i) => s.stepInstr p i
  | some (.service _) | some (.data _ _ _) => .stuck

/-- So many steps, or fewer if the program does not go on for so long. -/
def run (p : List Line) : Nat → Situation → Outcome
  | 0, s => .running s
  | n + 1, s =>
    match s.step p with
    | .running s => run p n s
    | o => o

end Situation

/-! ## Lines of code that the machine is for -/

/-- The registers of an instruction. -/
def Instr.registers : Instr → List Register
  | plain _ => []
  | unary _ r => [r]
  | binary _ a b => [a, b]
  | ternary _ d a b => [d, a, b]
  | goto _ => []
  | branch _ _ => []
  | store r _ => [r]
  | compare r _ => [r]
  | literal _ r _ => [r]

/-- Whether an instruction neither looks at the memory nor asks the host for anything. -/
def Instr.isLocal : Instr → Bool
  | unary .shell _ => false
  | binary .peek _ _ | binary .poke _ _ => false
  | ternary .copyBlock _ _ _ => false
  | _ => true

/-- The lines of code that the machine is for: data, and local instructions on the registers that
there are. -/
def Code.Covered : Code → Prop
  | instr i => i.isLocal = true ∧ ∀ r ∈ i.registers, r.value < registerCount
  | service _ => False
  | data _ _ _ => True

instance : (c : Code) → Decidable c.Covered
  | .instr i =>
    inferInstanceAs (Decidable (i.isLocal = true ∧ ∀ r ∈ i.registers, r.value < registerCount))
  | .service _ => inferInstanceAs (Decidable False)
  | .data _ _ _ => inferInstanceAs (Decidable True)

/-! ## Straying -/

/-- The ways in which a program leaves its source: control is at a line of data, a number or a popped
integer is taken for the address of a line, the stack is to hold too many integers, a quotient is no
word, or a text is too long. -/
inductive Strays (p : List Line) (s : Situation) : Prop where
  | data {name : DataName} {first : Number 255} {rest : List (Number 255)}
    (hcode : (codes p)[s.pc]? = some (.data name first rest))
  | target {i : Instr} {n : Number 65535} (hcode : (codes p)[s.pc]? = some (.instr i))
    (hi : i = .goto (.number n) ∨ ∃ op, i = .branch op (.number n))
    (hnone : indexAt? p n.value = none)
  | ret {n : Int32} {rest : List Int32} (hcode : (codes p)[s.pc]? = some (.instr (.plain .ret)))
    (hstack : s.stack = n :: rest) (hnone : indexAt? p n.toUInt32.toNat = none)
  | full {i : Instr} (hcode : (codes p)[s.pc]? = some (.instr i))
    (hi : (∃ r, i = .unary .push r) ∨ ∃ o, i = .branch .call o)
    (hfull : Situation.stackLimit ≤ s.stack.length)
  | quotient {d a b : Register} (hcode : (codes p)[s.pc]? = some (.instr (.ternary .div d a b)))
    (ha : s.value a = .int Int32.minValue) (hb : s.value b = .int (-1))
  | long {d a b : Register} {t u : Value.Text}
    (hcode : (codes p)[s.pc]? = some (.instr (.ternary .concat d a b)))
    (ha : s.value a = .text t) (hb : s.value b = .text u)
    (hlong : largestText < (t ++ u).bytes.length + 1)

namespace Situation

variable {p : List Line} {s : Situation}

lemma of_withInt_stuck {r : Register} {f : Int32 → Outcome} (h : s.withInt r f = .stuck) :
    ∃ n, s.value r = .int n ∧ f n = .stuck := by
  rw [withInt] at h
  split at h
  · exact ⟨_, by assumption, h⟩
  · cases h

lemma of_withText_stuck {r : Register} {f : Value.Text → Outcome} (h : s.withText r f = .stuck) :
    ∃ t, s.value r = .text t ∧ f t = .stuck := by
  rw [withText] at h
  split at h
  · cases h
  · exact ⟨_, by assumption, h⟩

lemma of_pushed_stuck {n : Int32} {f : Situation → Outcome} (h : s.pushed n f = .stuck) :
    stackLimit ≤ s.stack.length ∨ ∃ s', f s' = .stuck := by
  rw [pushed] at h
  split at h
  · exact .inr ⟨_, h⟩
  · exact .inl (by omega)

lemma of_popped_stuck {f : Int32 → Situation → Outcome} (h : s.popped f = .stuck) :
    ∃ n rest, s.stack = n :: rest ∧ f n { s with stack := rest } = .stuck := by
  rw [popped] at h
  split at h
  · cases h
  · exact ⟨_, _, by assumption, h⟩

lemma of_goTo_stuck {target : Option Nat} (h : s.goTo target = .stuck) : target = none := by
  cases target with
  | none => rfl
  | some k => cases h

/-- Only a number can miss all lines; a label never does. -/
lemma strays_of_target {i : Instr} {o : Operand} (hcode : (codes p)[s.pc]? = some (.instr i))
    (hi : i = .goto o ∨ ∃ op, i = .branch op o) (h : o.index? p = none) : Strays p s := by
  cases o with
  | number n => exact .target hcode hi h
  | label name => cases h

/-- A branch is stuck only on a target that is no line, or on a full stack. -/
lemma strays_of_branch {i : Instr} {o : Operand} {op : Branch}
    (hcode : (codes p)[s.pc]? = some (.instr i))
    (hi : i = .goto o ∧ op = .jump ∨ i = .branch op o)
    (h : s.stepBranch p (o.index? p) op = .stuck) : Strays p s := by
  have htarget : i = .goto o ∨ ∃ op, i = .branch op o := by
    rcases hi with ⟨hi, -⟩ | hi
    · exact .inl hi
    · exact .inr ⟨op, hi⟩
  cases op with
  | jump => exact strays_of_target hcode htarget (of_goTo_stuck h)
  | jumpZero =>
    rw [stepBranch] at h
    split at h
    · exact strays_of_target hcode htarget (of_goTo_stuck h)
    · cases h
  | jumpNonzero =>
    rw [stepBranch] at h
    split at h
    · cases h
    · exact strays_of_target hcode htarget (of_goTo_stuck h)
  | call =>
    rw [stepBranch] at h
    rcases of_pushed_stuck h with hfull | ⟨s', h⟩
    · rcases hi with ⟨-, hop⟩ | hi
      · cases hop
      · exact .full hcode (.inr ⟨o, hi⟩) hfull
    · exact strays_of_target hcode htarget (of_goTo_stuck h)

/-- An operation on one register is stuck only on a full stack. -/
lemma strays_of_unary {op : Unary} {r : Register}
    (hcode : (codes p)[s.pc]? = some (.instr (.unary op r)))
    (hlocal : (Instr.unary op r).isLocal = true) (h : s.stepUnary r op = .stuck) : Strays p s := by
  cases op with
  | shell => cases hlocal
  | random | isText | isInt => cases h
  | printInt | intToText | inc | dec =>
    obtain ⟨n, -, h⟩ := of_withInt_stuck h
    cases h
  | printText | textToInt =>
    obtain ⟨t, -, h⟩ := of_withText_stuck h
    cases h
  | push =>
    obtain ⟨n, -, h⟩ := of_withInt_stuck h
    rcases of_pushed_stuck h with hfull | ⟨s', h⟩
    · exact .full hcode (.inl ⟨r, rfl⟩) hfull
    · cases h
  | pop =>
    rw [stepUnary] at h
    obtain ⟨n, rest, -, h⟩ := of_popped_stuck h
    cases h

/-- An operation on three registers is stuck only on a quotient that is no word, or on a text that is
too long. -/
lemma strays_of_ternary {op : Ternary} {d a b : Register}
    (hcode : (codes p)[s.pc]? = some (.instr (.ternary op d a b)))
    (hlocal : (Instr.ternary op d a b).isLocal = true) (h : s.stepTernary d a b op = .stuck) :
    Strays p s := by
  cases op with
  | copyBlock => cases hlocal
  | arith op =>
    obtain ⟨x, -, h⟩ := of_withInt_stuck h
    obtain ⟨y, -, h⟩ := of_withInt_stuck h
    cases h
  | div =>
    obtain ⟨x, hx, h⟩ := of_withInt_stuck h
    obtain ⟨y, hy, h⟩ := of_withInt_stuck h
    split at h
    · cases h
    · split at h
      · rename_i hwide
        rw [hwide.1] at hx
        rw [hwide.2] at hy
        exact .quotient hcode hx hy
      · cases h
  | concat =>
    obtain ⟨t, ht, h⟩ := of_withText_stuck h
    obtain ⟨u, hu, h⟩ := of_withText_stuck h
    split at h
    case isTrue hlong => exact .long hcode ht hu hlong
    case isFalse => cases h

/-- **A step is stuck only where the program strays.** -/
lemma strays_of_step (hcovered : ∀ a ∈ codes p, a.Covered) (h : s.step p = .stuck) : Strays p s := by
  rw [step] at h
  cases hcode : (codes p)[s.pc]? with
  | none =>
    rw [hcode] at h
    cases h
  | some a =>
    rw [hcode] at h
    have ha : a.Covered := hcovered a (List.mem_of_getElem? hcode)
    cases a with
    | service n => exact ha.elim
    | data name first rest => exact .data hcode
    | instr i =>
      cases i with
      | plain op =>
        cases op with
        | exit | nop => cases h
        | ret =>
          simp only [stepInstr] at h
          obtain ⟨n, rest, hstack, h⟩ := of_popped_stuck h
          exact .ret hcode hstack (of_goTo_stuck h)
      | unary op r => exact strays_of_unary hcode ha.1 h
      | binary op x y =>
        cases op with
        | compare | copy => cases h
        | peek | poke => exact absurd ha.1 Bool.false_ne_true
      | ternary op d x y => exact strays_of_ternary hcode ha.1 h
      | goto o => exact strays_of_branch hcode (.inl ⟨rfl, rfl⟩) h
      | branch op o => exact strays_of_branch hcode (.inr rfl) h
      | store r o => cases h
      | compare r n =>
        obtain ⟨m, -, h⟩ := of_withInt_stuck h
        cases h
      | literal op r t =>
        cases op with
        | store => cases h
        | compare =>
          obtain ⟨u, -, h⟩ := of_withText_stuck h
          cases h

/-- **A run is stuck only after it has come to a situation in which the program strays.** -/
lemma strays_of_run (hcovered : ∀ a ∈ codes p, a.Covered) {n : Nat} (h : s.run p n = .stuck) :
    ∃ k < n, ∃ s', s.run p k = .running s' ∧ Strays p s' := by
  induction n generalizing s with
  | zero => cases h
  | succ n ih =>
    rw [run] at h
    cases hstep : s.step p with
    | running s₁ =>
      rw [hstep] at h
      obtain ⟨k, hk, s', hrun, hstrays⟩ := ih h
      refine ⟨k + 1, by omega, s', ?_, hstrays⟩
      rw [run, hstep]
      exact hrun
    | stuck => exact ⟨0, by omega, s, rfl, strays_of_step hcovered hstep⟩
    | exited s₁ | failed e output =>
      rw [hstep] at h
      cases h

end Situation

end RegisterMachine.Source
