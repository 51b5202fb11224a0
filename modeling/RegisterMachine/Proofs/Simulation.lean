import RegisterMachine.Proofs.Composition
import RegisterMachine.Proofs.Layout
import RegisterMachine.Proofs.Numerals

/-!
# The machine runs source programs

The code of a program does on the machine what the program does on the machine for source programs,
step by step: registers, flag, stack, output and random numbers are the same, and the pointer is at
the address of the next line.

## Main definitions

* `Source.Holds` — a machine is in a situation, apart from its pointer.
* `Source.Matches` — its pointer is at the next line, too.
* `Source.Ready` — it is about to finish the current line.
* `Source.Roomy` — the host has room for the digits of integers.
* `Source.Corresponds` — the result of an instruction is the outcome of a step.

## Main results

* `Source.Ready.execute` — every instruction does what its line does.
* `Source.Matches.cycle` — so does every cycle.
-/

namespace RegisterMachine.Source

open Effect Exec Listing

/-! ## Situations of the machine -/

/-- The integers of a stack are in the slots from the first one on that a program writes. -/
def OnStack (slots : Vector Int32 stackSize) : List Int32 → Prop
  | [] => True
  | n :: rest => slots[rest.length + 1]? = some n ∧ OnStack slots rest

/-- A machine is in a situation, apart from its pointer. -/
structure Holds (p : List Line) (s : Situation) (t : State) : Prop where
  registers : t.machine.registers = s.registers
  zero : t.machine.zero = s.zero
  ram : t.machine.ram = Ram.ofBytes (image p)
  sp : t.machine.sp = s.stack.length
  stack : OnStack t.machine.stack s.stack
  depth : s.stack.length ≤ Situation.stackLimit
  output : t.printed = s.output
  entropy : t.entropy = s.entropy

/-- A machine is in a situation, with its pointer at the next line. -/
structure Matches (p : List Line) (s : Situation) (t : State) : Prop extends Holds p s t where
  pc : s.pc ≤ (codes p).length
  ip : t.machine.ip = UInt32.ofNat (byteAddress p s.pc)

/-- A machine is in a situation, with its pointer on the last byte of the current line. -/
structure Ready (p : List Line) (s : Situation) (t : State) : Prop extends Holds p s t where
  pc : s.pc < (codes p).length
  ip : t.machine.ip + 1 = UInt32.ofNat (byteAddress p (s.pc + 1))
  running : t.machine.running = true

/-- The result of an instruction is the outcome of a step. A host that goes on after reports leaves
the realm of the program, so nothing is said about errors then. -/
def Corresponds {α : Type} (p : List Line) (c : Config) (r : EStateM.Result Halt State α) :
    Outcome → Prop
  | .running s => ∃ a t, r = .ok a t ∧ Matches p s t ∧ t.machine.running = true
  | .exited s => ∃ a t, r = .ok a t ∧ Holds p s t ∧ t.machine.running = false
  | .failed e output =>
    c.policy ≠ .resume → ∃ t, r = .error (.reported e) t ∧ t.printed = output
  | .stuck => True

/-- There is room for the digits of every integer, if a program converts any. -/
def Roomy (p : List Line) (c : Config) : Prop :=
  ∀ r, .instr (.unary .intToText r) ∈ codes p → 12 ≤ c.block

/-- Writing a slot above a stack leaves the stack alone. -/
lemma OnStack.set {slots : Vector Int32 stackSize} {stack : List Int32} (h : OnStack slots stack)
    {k : Nat} (hk : k < stackSize) (hlt : stack.length < k) (n : Int32) :
    OnStack (slots.set k n hk) stack := by
  induction stack with
  | nil => trivial
  | cons m rest ih =>
    rw [List.length_cons] at hlt
    refine ⟨?_, ih h.2 (by omega)⟩
    rw [Vector.getElem?_set_ne hk (by omega)]
    exact h.1

/-- The registers of a situation are those of the machine. -/
lemma Holds.register? {p : List Line} {s : Situation} {t : State} (h : Holds p s t) {r : Register}
    (hr : r.value < registerCount) :
    t.machine.register? (registerByte r).toNat = some (s.value r) := by
  rw [Machine.register?, toNat_registerByte, h.registers, Situation.value,
    Vector.getElem?_eq_getElem hr]
  rfl

/-! ## Single effects -/

section Effects

variable {p : List Line} {s : Situation} {t : State} {c : Config}

/-- What follows an effect that gives a result. -/
lemma Ready.bind {α : Type} {x : Exec α} {a : α} {s' : Situation} {f : α → Exec Unit} {o : Outcome}
    (hx : ∃ t', x t = .ok a t' ∧ Ready p s' t')
    (hf : ∀ t', Ready p s' t' → Corresponds p c (f a t') o) : Corresponds p c ((x >>= f) t) o := by
  obtain ⟨t', hrun, hready⟩ := hx
  rw [bind_ok hrun]
  exact hf t' hready

lemma present_apply (u : Value.Text) (t : State) : present (some u) t = .ok u t := rfl

lemma Ready.runRegister (h : Ready p s t) {r : Register} (hr : r.value < registerCount) :
    Exec.register (registerByte r) t = .ok (s.value r) t := by
  rw [register_apply, h.register? hr]

lemma Ready.setRegister (h : Ready p s t) {r : Register} (hr : r.value < registerCount) (v : Value) :
    ∃ t', Exec.setRegister (registerByte r) v t = .ok () t' ∧ Ready p (s.assign r v) t' := by
  have hlt : (registerByte r).toNat < registerCount := by rwa [toNat_registerByte]
  refine ⟨{ t with machine := t.machine.setRegister ⟨_, hlt⟩ v }, ?_, { h with registers := ?_ }⟩
  · rw [setRegister_apply, dif_pos hlt]
  · simp only [Machine.setRegister, Situation.assign, h.registers, toNat_registerByte]
    apply Vector.ext
    intro i hi
    rw [Vector.getElem_set, Vector.getElem_setIfInBounds]

lemma Ready.setZero (h : Ready p s t) (z : Bool) :
    ∃ t', Exec.setZero z t = .ok () t' ∧ Ready p { s with zero := z } t' :=
  ⟨{ t with machine := { t.machine with zero := z } }, rfl, { h with zero := rfl }⟩

lemma Ready.setResult (h : Ready p s t) {r : Register} (hr : r.value < registerCount) (n : Int32) :
    ∃ t', Exec.setResult (registerByte r) n t = .ok () t' ∧ Ready p (s.assignResult r n) t' := by
  obtain ⟨t₁, hset, h₁⟩ := h.setRegister hr (.int n)
  obtain ⟨t₂, hzero, h₂⟩ := h₁.setZero (n == 0)
  refine ⟨t₂, ?_, h₂⟩
  rw [Exec.setResult, bind_ok hset, hzero]

lemma Ready.emit (h : Ready p s t) (e : Event) :
    ∃ t', Exec.emit e t = .ok () t' ∧ Ready p { s with output := s.output ++ e.render } t' :=
  ⟨{ t with log := t.log.push e }, rfl, { h with output := by rw [printed_push, h.output] }⟩

/-- Nothing is explained. -/
lemma explain_of_terse (hc : c.verbose = false) (e : Event) (t : State) :
    Exec.explain c e t = .ok () t := by
  rw [explain_apply, told_of_terse t e hc]

lemma Ready.draw (h : Ready p s t) :
    ∃ t', Exec.draw t = .ok (s.entropy.numbers.headD 0) t' ∧
      Ready p { s with entropy.numbers := s.entropy.numbers.tail } t' := by
  rw [← h.entropy]
  exact ⟨_, rfl, { h with entropy := rfl }⟩

lemma Ready.salvage (h : Ready p s t) :
    ∃ t', Exec.salvage t = .ok (s.entropy.debris.headD (.ofBytes [])) t' ∧
      Ready p { s with entropy.debris := s.entropy.debris.tail } t' := by
  rw [← h.entropy]
  exact ⟨_, rfl, { h with entropy := rfl }⟩

/-- The integer of a register, or the error that it is a text. -/
lemma Ready.withInt (h : Ready p s t) {r : Register} (hr : r.value < registerCount)
    {f : Int32 → Exec Unit} {g : Int32 → Outcome}
    (hfg : ∀ n, s.value r = .int n → Corresponds p c (f n t) (g n)) :
    Corresponds p c ((intOf c (registerByte r) >>= f) t) (s.withInt r g) := by
  have hread := h.runRegister hr
  rw [Situation.withInt]
  cases hvalue : s.value r with
  | int n =>
    have hint : intOf c (registerByte r) t = .ok n t := by
      rw [intOf, bind_ok hread, hvalue]
      rfl
    rw [bind_ok hint]
    exact hfg n hvalue
  | text u =>
    intro hpolicy
    have herror : intOf c (registerByte r) t = .error (.reported .notInteger) t := by
      rw [intOf, bind_ok hread, hvalue]
      exact bind_error (report_stopping hpolicy _ t)
    exact ⟨t, bind_error herror, h.output⟩

/-- The text of a register, or the error that it is an integer. -/
lemma Ready.withText (h : Ready p s t) {r : Register} (hr : r.value < registerCount)
    {f : Option Value.Text → Exec Unit} {g : Value.Text → Outcome}
    (hfg : ∀ u, s.value r = .text u → Corresponds p c (f (some u) t) (g u)) :
    Corresponds p c ((textOf c (registerByte r) >>= f) t) (s.withText r g) := by
  have hread := h.runRegister hr
  rw [Situation.withText]
  cases hvalue : s.value r with
  | text u =>
    have htext : textOf c (registerByte r) t = .ok (some u) t := by
      rw [textOf, bind_ok hread, hvalue]
      rfl
    rw [bind_ok htext]
    exact hfg u hvalue
  | int n =>
    intro hpolicy
    have herror : textOf c (registerByte r) t = .error (.reported .notText) t := by
      rw [textOf, bind_ok hread, hvalue]
      exact bind_error (report_stopping hpolicy _ t)
    exact ⟨t, bind_error herror, h.output⟩

/-- Where the source stack has room, the next slot of the machine is a slot of its stack. -/
lemma Holds.nextSlot (h : Holds p s t) (hroom : s.stack.length < Situation.stackLimit) :
    t.machine.sp + 1 = ((s.stack.length + 1 : Nat) : Int) ∧ s.stack.length + 1 < stackSize ∧
      ¬ (stackSize : Int) ≤ t.machine.sp + 1 := by
  have hlimit : Situation.stackLimit = 1023 := rfl
  have hstack : stackSize = 1024 := rfl
  rw [h.sp]
  omega

/-- The slot above the stack can be written, and the integer there is then on top. -/
lemma Ready.setSlot (h : Ready p s t) (hroom : s.stack.length < Situation.stackLimit) (n : Int32) :
    ∃ t', Exec.setSlot (t.machine.sp + 1) n
        { t with machine := { t.machine with sp := t.machine.sp + 1 } } = .ok () t' ∧
      Ready p { s with stack := n :: s.stack } t' := by
  obtain ⟨hsp, hlt, -⟩ := h.nextSlot hroom
  rw [hsp]
  refine ⟨{ t with machine := { t.machine with
      sp := ((s.stack.length + 1 : Nat) : Int)
      stack := t.machine.stack.set (s.stack.length + 1) n hlt } }, ?_,
    { h with sp := rfl, stack := ⟨?_, h.stack.set hlt (by omega) n⟩, depth := hroom }⟩
  · have hslot : ∀ m : Machine, m.setSlot? ((s.stack.length + 1 : Nat) : Int) n =
        some { m with stack := m.stack.set (s.stack.length + 1) n hlt } := by
      intro m
      rw [Machine.setSlot?, if_pos (Int.natCast_nonneg _)]
      exact dif_pos hlt
    rw [setSlot_apply, hslot]
  · exact Vector.getElem?_set_self hlt

lemma Ready.push (h : Ready p s t) (hroom : s.stack.length < Situation.stackLimit) (n : Int32) :
    ∃ t', Exec.push c n t = .ok () t' ∧ Ready p { s with stack := n :: s.stack } t' := by
  obtain ⟨-, -, hfree⟩ := h.nextSlot hroom
  obtain ⟨t', hslot, h'⟩ := h.setSlot hroom n
  refine ⟨t', ?_, h'⟩
  have hpointer : Exec.stackPointer t = .ok t.machine.sp t := rfl
  have hmove : Exec.setStackPointer (t.machine.sp + 1) t =
      .ok () { t with machine := { t.machine with sp := t.machine.sp + 1 } } := rfl
  rw [Exec.push, bind_ok hpointer, bind_ok hmove, bind_ok hslot, if_neg hfree]
  rfl

/-- A call pushes the address of the next line. -/
lemma Ready.pushReturn (h : Ready p s t) (hroom : s.stack.length < Situation.stackLimit) :
    ∃ t', Exec.pushReturn c t = .ok () t' ∧
      Ready p { s with stack := Int32.ofNat (byteAddress p (s.pc + 1)) :: s.stack } t' := by
  obtain ⟨-, -, hfree⟩ := h.nextSlot hroom
  obtain ⟨t', hslot, h'⟩ := h.setSlot hroom (Int32.ofNat (byteAddress p (s.pc + 1)))
  have hreturn : (t.machine.ip + 1).toInt32 = Int32.ofNat (byteAddress p (s.pc + 1)) := by
    rw [h.ip]
    rfl
  refine ⟨t', ?_, h'⟩
  have hpointer : Exec.stackPointer t = .ok t.machine.sp t := rfl
  have hmove : Exec.setStackPointer (t.machine.sp + 1) t =
      .ok () { t with machine := { t.machine with sp := t.machine.sp + 1 } } := rfl
  rw [Exec.pushReturn, bind_ok hpointer, bind_ok hmove, if_neg hfree]
  refine (bind_ok (pointer_apply _)).trans ?_
  simp only [hreturn]
  exact hslot

/-- The integer on top of the stack, or the error that there is none. -/
lemma Ready.popped (h : Ready p s t) {f : Int32 → Exec Unit} {g : Int32 → Situation → Outcome}
    (hfg : ∀ n rest t', Ready p { s with stack := rest } t' →
      Corresponds p c (f n t') (g n { s with stack := rest })) :
    Corresponds p c ((Exec.pop c >>= f) t) (s.popped g) := by
  have hpointer : Exec.stackPointer t = .ok t.machine.sp t := rfl
  rw [Situation.popped]
  cases hstack : s.stack with
  | nil =>
    intro hpolicy
    have hsp : t.machine.sp ≤ 0 := by
      rw [h.sp, hstack]
      exact Int.le_refl 0
    have herror : Exec.pop c t = .error (.reported .stackEmpty) t := by
      rw [Exec.pop, bind_ok hpointer, if_pos hsp]
      exact bind_error (report_stopping hpolicy _ t)
    exact ⟨t, bind_error herror, h.output⟩
  | cons n rest =>
    have hsp := h.sp
    have hslots := h.stack
    have hdepth := h.depth
    rw [hstack] at hsp hslots hdepth
    rw [List.length_cons] at hsp hdepth
    have hpos : ¬ t.machine.sp ≤ 0 := by omega
    have hslot : t.machine.slot? t.machine.sp = some n := by
      obtain ⟨hlt, hget⟩ := Vector.getElem?_eq_some_iff.1 hslots.1
      rw [hsp, Machine.slot?, if_pos (Int.natCast_nonneg _)]
      exact (dif_pos hlt).trans (congrArg some hget)
    have hpop : Exec.pop c t =
        .ok n { t with machine := { t.machine with sp := t.machine.sp - 1 } } := by
      have hread : Exec.slot t.machine.sp t = .ok n t := by rw [slot_apply, hslot]
      rw [Exec.pop, bind_ok hpointer, if_neg hpos]
      exact bind_ok hread
    rw [bind_ok hpop]
    refine hfg n rest _ { h with sp := ?_, stack := hslots.2, depth := Nat.le_of_succ_le hdepth }
    change t.machine.sp - 1 = (rest.length : Int)
    omega

/-! ## Ends of instructions -/

/-- The program goes on at the next line. -/
lemma Ready.next (h : Ready p s t) : Corresponds p c (advance t) s.next :=
  ⟨(), { t with machine := { t.machine with ip := t.machine.ip + 1 } }, rfl,
    { h with pc := h.pc, ip := h.ip }, h.running⟩

/-- The program goes on at a line, if the pointer moves to its address. -/
lemma Ready.goTo (h : Ready p s t) {q : UInt32} {target : Option Nat}
    (hq : ∀ k, target = some k → q = UInt32.ofNat (byteAddress p k) ∧ k ≤ (codes p).length) :
    Corresponds p c (jump q t) (s.goTo target) := by
  cases target with
  | none => trivial
  | some k =>
    obtain ⟨hip, hk⟩ := hq k rfl
    exact ⟨(), { t with machine := { t.machine with ip := q } }, rfl,
      { h with pc := hk, ip := hip }, h.running⟩

/-! ## Instructions -/

section Unary

variable {r : Register} (hr : r.value < registerCount)

include hr

/-- An integer changed in its register. -/
lemma Ready.adjust (h : Ready p s t) (f : Int32 → Int32) :
    Corresponds p c ((Exec.adjust c (registerByte r) f >>= fun _ => advance) t)
      (s.withInt r fun n => (s.assignResult r (f n)).next) := by
  rw [Exec.adjust, bind_assoc]
  refine h.withInt hr fun n hn => ?_
  rw [bind_assoc, bind_ok (h.runRegister hr), hn]
  exact Ready.bind (h.setResult hr (f n)) fun t' h' => h'.next

/-- **Operations on one register** do what their lines do. A conversion needs room for the digits. -/
lemma Ready.executeUnary (hc : c.verbose = false) {op : Unary} (hroom : op = .intToText → 12 ≤ c.block)
    (h : Ready p s t) :
    Corresponds p c (RegisterMachine.executeUnary c (registerByte r) op t) (s.stepUnary r op) := by
  cases op with
  | printInt =>
    refine h.withInt hr fun n _ => ?_
    rw [hc]
    exact Ready.bind (h.emit (.showInt false (registerByte r) n)) fun t' h' => h'.next
  | intToText =>
    refine h.withInt hr fun n _ => ?_
    have hallot : Exec.allot c (Numeral.signed n).length t = .ok () t := by
      have hlength := Numeral.length_signed_le n
      have hblock := hroom rfl
      rw [Exec.allot, if_pos (by omega)]
      rfl
    rw [bind_ok hallot]
    exact Ready.bind (h.setRegister hr _) fun t' h' => h'.next
  | random =>
    refine Ready.bind h.draw fun t' h' => ?_
    exact Ready.bind (h'.setRegister hr _) fun t'' h'' => h''.next
  | inc => exact h.adjust hr _
  | dec => exact h.adjust hr _
  | printText =>
    refine h.withText hr fun u _ => ?_
    rw [hc]
    exact Ready.bind (h.emit (.showText false (registerByte r) (some u.bytes))) fun t' h' => h'.next
  | shell => trivial
  | textToInt =>
    refine h.withText hr fun u _ => ?_
    rw [bind_ok (present_apply u t)]
    exact Ready.bind (h.setRegister hr _) fun t' h' => h'.next
  | isText | isInt =>
    rw [RegisterMachine.executeUnary, bind_ok (h.runRegister hr)]
    exact Ready.bind (h.setZero _) fun t' h' => h'.next
  | push =>
    refine h.withInt hr fun n _ => ?_
    rw [bind_ok (explain_of_terse hc _ t), Situation.pushed]
    by_cases hroom : s.stack.length < Situation.stackLimit
    · rw [if_pos hroom]
      exact Ready.bind (h.push hroom n) fun t' h' => h'.next
    · rw [if_neg hroom]
      trivial
  | pop =>
    rw [RegisterMachine.executeUnary, Situation.stepUnary]
    refine h.popped fun n rest t' h' => ?_
    rw [bind_ok (explain_of_terse hc _ t')]
    exact Ready.bind (h'.setRegister hr _) fun t'' h'' => h''.next

end Unary

/-- Registers are the same if their numbers are. -/
lemma registerByte_eq_iff {a b : Register} : registerByte a = registerByte b ↔ a.value = b.value := by
  rw [← UInt8.toNat_inj, toNat_registerByte, toNat_registerByte]

/-- A copy does what its line does: a text that is copied to its own register is lost. -/
lemma Ready.copy (h : Ready p s t) {a b : Register} (ha : a.value < registerCount)
    (hb : b.value < registerCount) :
    Corresponds p c ((do Exec.setRegister (registerByte a) (← copied (registerByte a) (registerByte b))
                         advance) t) (s.copy a b).next := by
  rw [copied, bind_assoc, bind_ok (h.runRegister hb), Situation.copy]
  cases hvalue : s.value b with
  | int n =>
    simp only [pure_bind]
    exact Ready.bind (h.setRegister ha _) fun t' h' => h'.next
  | text u =>
    by_cases hself : a.value = b.value
    · simp only [if_pos hself, if_pos (registerByte_eq_iff.2 hself), bind_assoc, pure_bind]
      refine Ready.bind h.salvage fun t' h' => ?_
      exact Ready.bind (h'.setRegister ha _) fun t'' h'' => h''.next
    · simp only [if_neg hself, if_neg fun heq => hself (registerByte_eq_iff.1 heq), pure_bind]
      exact Ready.bind (h.setRegister ha _) fun t' h' => h'.next

/-- Operations on two registers do what their lines do. -/
lemma Ready.executeBinary (h : Ready p s t) {a b : Register} (ha : a.value < registerCount)
    (hb : b.value < registerCount) (op : Binary) :
    Corresponds p c (RegisterMachine.executeBinary c (registerByte a) (registerByte b) op t)
      (s.stepBinary a b op) := by
  cases op with
  | compare =>
    rw [RegisterMachine.executeBinary, bind_ok (h.runRegister ha), bind_ok (h.runRegister hb)]
    exact Ready.bind (h.setZero _) fun t' h' => h'.next
  | copy => exact h.copy ha hb
  | peek | poke => trivial

/-- Operations on three registers do what their lines do. -/
lemma Ready.executeTernary (h : Ready p s t) {d a b : Register} (hd : d.value < registerCount)
    (ha : a.value < registerCount) (hb : b.value < registerCount) (op : Ternary) :
    Corresponds p c
      (RegisterMachine.executeTernary c (registerByte d) (registerByte a) (registerByte b) op t)
      (s.stepTernary d a b op) := by
  cases op with
  | arith op =>
    rw [RegisterMachine.executeTernary, Situation.stepTernary]
    refine h.withInt ha fun x _ => h.withInt hb fun y _ => ?_
    have harith : op.apply x y = Situation.arith op x y := by cases op <;> rfl
    rw [harith]
    exact Ready.bind (h.setResult hd _) fun t' h' => h'.next
  | div =>
    rw [RegisterMachine.executeTernary, Situation.stepTernary]
    refine h.withInt ha fun x _ => h.withInt hb fun y _ => ?_
    by_cases hzero : y = 0
    · rw [if_pos hzero, if_pos hzero]
      exact fun hpolicy => ⟨t, report_stopping hpolicy _ t, h.output⟩
    · rw [if_neg hzero, if_neg hzero]
      by_cases hwide : x = Int32.minValue ∧ y = -1
      · rw [if_pos hwide, if_pos hwide]
        trivial
      · rw [if_neg hwide, if_neg hwide]
        exact Ready.bind (h.setResult hd _) fun t' h' => h'.next
  | concat =>
    rw [RegisterMachine.executeTernary, Situation.stepTernary]
    refine h.withText ha fun u _ => h.withText hb fun v _ => ?_
    rw [bind_ok (present_apply u t), bind_ok (present_apply v t)]
    by_cases hlong : largestText < (u ++ v).bytes.length + 1
    · rw [if_pos hlong, if_pos hlong]
      trivial
    · rw [if_neg hlong, if_neg hlong]
      exact Ready.bind (h.setRegister hd _) fun t' h' => h'.next
  | copyBlock => trivial

/-- Operations that name a target do what their lines do. -/
lemma Ready.executeBranch (h : Ready p s t) (hsize : size p ≤ 65534) (o : Operand) (op : Branch) :
    Corresponds p c (RegisterMachine.executeBranch c (o.word (address p)) op t)
      (s.stepBranch p (o.index? p) op) := by
  have htarget : ∀ k, o.index? p = some k →
      (o.word (address p)).toUInt32 = UInt32.ofNat (byteAddress p k) ∧ k ≤ (codes p).length := by
    intro k hk
    obtain ⟨hword, hle⟩ := toNat_word_target hsize hk
    refine ⟨?_, hle⟩
    rw [← hword]
    exact (UInt32.ofNat_uInt16ToNat _).symm
  have hzero : t.machine.zero = s.zero := h.zero
  have hflag : Exec.flag t = .ok t.machine.zero t := rfl
  cases op with
  | jump => exact h.goTo htarget
  | jumpZero =>
    rw [RegisterMachine.executeBranch, bind_ok hflag, hzero, Situation.stepBranch]
    cases s.zero with
    | true => exact h.goTo htarget
    | false => exact h.next
  | jumpNonzero =>
    rw [RegisterMachine.executeBranch, bind_ok hflag, hzero, Situation.stepBranch]
    cases s.zero with
    | true => exact h.next
    | false => exact h.goTo htarget
  | call =>
    rw [RegisterMachine.executeBranch, Situation.stepBranch, Situation.pushed]
    by_cases hroom : s.stack.length < Situation.stackLimit
    · rw [if_pos hroom]
      exact Ready.bind (h.pushReturn hroom) fun t' h' => h'.goTo htarget
    · rw [if_neg hroom]
      trivial

/-- An integer constant is stored as its line says. -/
lemma Ready.storeInt (h : Ready p s t) {r : Register} (hr : r.value < registerCount) (v : UInt16) :
    Corresponds p c (executeImmediate c (registerByte r) v .store t)
      (s.assign r (.int (Int32.ofNat v.toNat))).next :=
  Ready.bind (h.setRegister hr _) fun _ h' => h'.next

/-- An integer constant is compared as its line says. The flag is cleared before the register is looked
at, which the program cannot see: either the flag is set again, or the program has failed. -/
lemma Ready.compareInt (h : Ready p s t) {r : Register} (hr : r.value < registerCount)
    (v : UInt16) :
    Corresponds p c (executeImmediate c (registerByte r) v .compare t)
      (s.withInt r fun n => Situation.next { s with zero := n == Int32.ofNat v.toNat }) := by
  refine Ready.bind (h.setZero false) fun t' h' => ?_
  refine h'.withInt hr fun n _ => ?_
  by_cases heq : n = Int32.ofNat v.toNat
  · rw [if_pos heq, heq, beq_self_eq_true]
    exact Ready.bind (h'.setZero true) fun t'' h'' => h''.next
  · rw [if_neg heq, beq_false_of_ne heq]
    exact h'.next

/-- A text constant is stored as its line says. -/
lemma Ready.storeText (h : Ready p s t) {r : Register} (hr : r.value < registerCount)
    (text : Bytes) :
    Corresponds p c (executeLiteral c (registerByte r) text .store t)
      (s.assign r (.text (.ofBytes text))).next :=
  Ready.bind (h.setRegister hr _) fun _ h' => h'.next

/-- A text constant is compared as its line says. -/
lemma Ready.compareText (hc : c.verbose = false) (h : Ready p s t) {r : Register}
    (hr : r.value < registerCount) (text : Bytes) :
    Corresponds p c (executeLiteral c (registerByte r) text .compare t)
      (s.withText r fun u => Situation.next { s with zero := u == .ofBytes text }) := by
  refine h.withText hr fun u _ => ?_
  rw [bind_ok (explain_of_terse hc _ t), bind_ok (present_apply u t)]
  exact Ready.bind (h.setZero _) fun t' h' => h'.next

/-- The end of a run leaves the situation as it is. -/
lemma Holds.executeExit (h : Holds p s t) :
    Corresponds p c (RegisterMachine.executePlain c .exit t) (.exited s) :=
  ⟨(), { t with machine := { t.machine with running := false, ip := t.machine.ip + 1 } }, rfl,
    { h with }, rfl⟩

/-- **Every instruction does what its line does.** -/
theorem Ready.execute (hc : c.verbose = false) (h : Ready p s t) (hsize : size p ≤ 65534) {i : Instr}
    (hroom : ∀ r, i = .unary .intToText r → 12 ≤ c.block)
    (hregs : ∀ r ∈ i.registers, r.value < registerCount) :
    Corresponds p c (RegisterMachine.execute c (i.resolve (address p)).cut t) (s.stepInstr p i) := by
  cases i with
  | plain op =>
    cases op with
    | exit => exact h.executeExit
    | nop => exact h.next
    | ret =>
      rw [Situation.stepInstr]
      refine h.popped fun n rest t' h' => ?_
      rw [bind_ok (explain_of_terse hc _ t')]
      refine h'.goTo fun k hk => ?_
      obtain ⟨haddress, hle⟩ := of_indexAt? hk
      exact ⟨by rw [haddress, UInt32.ofNat_toNat], hle⟩
  | unary op r =>
    exact Ready.executeUnary (hregs r (by simp [Instr.registers])) hc (fun hop => hroom r (by rw [hop])) h
  | binary op a b =>
    exact h.executeBinary (hregs a (by simp [Instr.registers])) (hregs b (by simp [Instr.registers])) op
  | ternary op d a b =>
    exact h.executeTernary (hregs d (by simp [Instr.registers])) (hregs a (by simp [Instr.registers]))
      (hregs b (by simp [Instr.registers])) op
  | goto o => exact h.executeBranch hsize o .jump
  | branch op o => exact h.executeBranch hsize o op
  | store r o =>
    rw [Situation.stepInstr, ← toNat_word_operand hsize o]
    exact h.storeInt (hregs r (by simp [Instr.registers])) _
  | compare r n =>
    rw [Situation.stepInstr, ← toNat_word n]
    exact h.compareInt (hregs r (by simp [Instr.registers])) _
  | literal op r u =>
    cases op with
    | store =>
      rw [Situation.stepInstr, ← Value.Text.ofBytes_upToNul]
      exact h.storeText (hregs r (by simp [Instr.registers])) _
    | compare =>
      rw [Situation.stepInstr, ← Value.Text.ofBytes_upToNul]
      exact Ready.compareText hc h (hregs r (by simp [Instr.registers])) _

/-! ## Cycles -/

/-- What comes of an effect does not depend on the result that is made of it. -/
lemma Corresponds.bind_pure {α β : Type} {x : Exec α} {b : β} {o : Outcome}
    (h : Corresponds p c (x t) o) : Corresponds p c ((x >>= fun _ => pure b) t) o := by
  cases o with
  | running s' =>
    obtain ⟨a, t', hrun, hrest⟩ := h
    exact ⟨b, t', bind_ok hrun, hrest⟩
  | exited s' =>
    obtain ⟨a, t', hrun, hrest⟩ := h
    exact ⟨b, t', bind_ok hrun, hrest⟩
  | failed e output =>
    intro hpolicy
    obtain ⟨t', hrun, hrest⟩ := h hpolicy
    exact ⟨t', bind_error hrun, hrest⟩
  | stuck => trivial

/-- Moving the pointer leaves the situation as it is. -/
lemma Holds.seek (h : Holds p s t) (k : Nat) : Holds p s (t.seek k) := { h with }

/-- A cycle at an instruction comes to what the instruction comes to. -/
lemma Matches.cycle_of_execute (hc : c.verbose = false) (h : Matches p s t)
    (hrunning : t.machine.running = true)
    (hsize : size p ≤ 65535) {i : Instr} (hcode : (codes p)[s.pc]? = some (.instr i))
    (hregs : ∀ r ∈ i.registers, r.value < registerCount) {o : Outcome}
    (hexecute : ∀ t', Ready p s t' →
      Corresponds p c (RegisterMachine.execute c (i.resolve (address p)).cut t') o) :
    Corresponds p c (RegisterMachine.cycle Table.builtin c t) o := by
  rw [cycle_instr hsize hcode hregs h.ram h.ip c, State.fetched, told_of_terse t _ hc]
  have hnext := byteAddress_succ hcode
  have hpos : 0 < (Code.instr i).size := by
    rw [← Code.length_encode _ (address p)]
    exact Nat.succ_pos _
  have hready : Ready p s (t.seek (byteAddress p (s.pc + 1) - 1)) :=
    { h.seek _ with
      pc := (List.getElem?_eq_some_iff.1 hcode).1
      ip := (ofNat_add_one _).trans (congrArg UInt32.ofNat (by omega))
      running := hrunning }
  apply Corresponds.bind_pure
  rw [Listing.Line.perform, bind_ok (explain_of_terse hc _ _)]
  exact hexecute _ hready

/-- **Every cycle does what the source machine does in a step.**

**Proof sketch.** At a line of code the cycle reads the instruction of the line and is then ready to
carry it out; behind the last line it finds a zero byte, which is an exit. On a line of data the
source machine is stuck. -/
theorem Matches.cycle (hc : c.verbose = false) (hroom : Roomy p c) (h : Matches p s t)
    (hrunning : t.machine.running = true)
    (hsize : size p ≤ 65534) (hcovered : ∀ a ∈ codes p, a.Covered) :
    Corresponds p c (RegisterMachine.cycle Table.builtin c t) (s.step p) := by
  rw [Situation.step]
  cases hcode : (codes p)[s.pc]? with
  | none =>
    have hend : s.pc = (codes p).length := Nat.le_antisymm h.pc (List.getElem?_eq_none_iff.1 hcode)
    have hip := h.ip
    rw [hend, byteAddress_length] at hip
    rw [cycle_end hsize h.ram hip c, State.fetched, told_of_terse t _ hc]
    apply Corresponds.bind_pure
    rw [Listing.Line.perform, bind_ok (explain_of_terse hc _ _)]
    exact (h.seek (size p)).executeExit
  | some a =>
    cases a with
    | service n => trivial
    | data word first rest => trivial
    | instr i =>
      have hmem : Code.instr i ∈ codes p := List.mem_of_getElem? hcode
      obtain ⟨-, hregs⟩ := hcovered _ hmem
      exact Matches.cycle_of_execute hc h hrunning (by omega) hcode hregs fun t' h' =>
        Ready.execute hc h' hsize (fun r hi => hroom r (hi ▸ hmem)) hregs

end Effects

end RegisterMachine.Source
