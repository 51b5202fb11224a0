import RegisterMachine.Proofs.Fetching

/-!
# What instructions are composed of

Whatever the machine does in a cycle is put together from actions. For each instruction it is said here,
once, which actions those may be and what is known when they are carried out: which parts of the machine
they change, which registers, slots and bytes they reach, which errors they report and what has become of
the machine by then, and where the pointer goes in the end. What later modules say about instructions,
cycles and runs is derived from this.

Under a host that goes on after reports an instruction goes on with made-up values, so what depends on
the content of a register is said for the other hosts only.

## Main definitions

* `Part`, `Opcode.footprint` — the parts of a machine, and those that an operation may change.
* `Machine.integer?` — the integer that a register holds.
* `Instruction.address?`, `Instruction.slot?` — the address of a single read or write, and the slot of
  the stack that is read or written.
* `Opcode.errors`, `Instruction.atReport` — the errors that an operation may report, and the machine at
  that moment.
* `Instruction.Refused` — the machines on which an instruction is ended by a signal.
* `Instruction.successor` — where the machine goes on after an instruction.
* `Instruction.Does` — the actions of an instruction.

## Main results

* `completes_execute` — every instruction is composed of its actions, and moves the pointer last.
* `composed_fetchInstruction` — reading the operands moves the pointer, and may report one error.
* `composed_cycle` — every cycle is composed of actions.
-/

namespace RegisterMachine

open Effect Exec

/-! ## What an instruction may do -/

/-- The parts of a machine, apart from its pointer. -/
inductive Part where
  | ram
  /-- The slots of the stack and the stack pointer. -/
  | stack
  | zero
  | register (r : Nat)
  | running
  /-- The length of the program that was loaded. -/
  | size
  deriving DecidableEq

/-- The parts of the machine that an operation may change, if its first operand is `r`. -/
def Opcode.footprint (r : Nat) : Opcode → List Part
  | .plain .exit => [.running]
  | .plain .nop => []
  | .plain .ret => [.stack]
  | .unary .printInt | .unary .printText | .unary .shell => []
  | .unary .intToText | .unary .random | .unary .textToInt => [.register r]
  | .unary .inc | .unary .dec => [.register r, .zero]
  | .unary .isText | .unary .isInt => [.zero]
  | .unary .push => [.stack]
  | .unary .pop => [.register r, .stack]
  | .binary .compare => [.zero]
  | .binary .copy | .binary .peek => [.register r]
  | .binary .poke => [.ram]
  | .ternary (.arith _) | .ternary .div => [.register r, .zero]
  | .ternary .concat => [.register r]
  | .ternary .copyBlock => [.ram]
  | .branch .call => [.stack]
  | .branch .jump | .branch .jumpZero | .branch .jumpNonzero => []
  | .immediate .store | .literal .store => [.register r]
  | .immediate .compare | .literal .compare => [.zero]

/-- The first register operand of an instruction, or 0 if it has none. -/
def Instruction.firstRegister (i : Instruction) : UInt8 := i.registers.headD 0

/-- The parts of the machine that an instruction may change. -/
def Instruction.footprint (i : Instruction) : List Part := i.opcode.footprint i.firstRegister.toNat

/-- The integer that a register holds. -/
def Machine.integer? (m : Machine) (r : UInt8) : Option Int32 :=
  match m.register? r.toNat with
  | some (.int n) => some n
  | some (.text _) | none => none

/-- The address of a single read or write. Where an operand is not the integer that it should be,
there is none: that is reported before anything is read or written. -/
def Instruction.address? (m : Machine) : Instruction → Option Int
  | .binary .peek _ b => (m.integer? b).map Int32.toInt
  | .binary .poke a b => (m.integer? a).bind fun _ => (m.integer? b).map Int32.toInt
  | _ => none

/-- The slot of the stack that an instruction reads or writes. A call checks that there is one
before it writes there, and a pop that the stack is not empty before it reads. -/
def Instruction.slot? (m : Machine) : Instruction → Option Int
  | .unary op r => match op with
    | .push => (m.integer? r).map fun _ => m.sp + 1
    | .pop => if 0 < m.sp then some m.sp else none
    | _ => none
  | .branch op _ => match op with
    | .call => if m.sp + 1 < stackSize then some (m.sp + 1) else none
    | _ => none
  | .plain op => match op with
    | .ret => if 0 < m.sp then some m.sp else none
    | _ => none
  | _ => none

/-- The errors that an operation may report once its operands have been read. -/
def Opcode.errors : Opcode → List Error
  | .plain .ret | .unary .pop => [.stackEmpty]
  | .unary .printInt | .unary .intToText | .unary .inc | .unary .dec => [.notInteger]
  | .unary .printText | .unary .shell | .unary .textToInt => [.notText]
  | .unary .push => [.notInteger, .stackFull]
  | .binary .peek => [.notInteger, .readOutsideRam]
  | .binary .poke => [.notInteger, .writeOutsideRam]
  | .ternary (.arith _) => [.notInteger]
  | .ternary .div => [.notInteger, .divisionByZero]
  | .ternary .concat => [.notText]
  | .ternary .copyBlock => [.notInteger, .negativeAddress]
  | .branch .call => [.callStackFull]
  | .immediate .compare => [.notInteger]
  | .literal .compare => [.notText]
  | _ => []

/-- The machine at the moment in which an instruction reports an error, given the machine before it. A
push on a full stack has overwritten the stack pointer by then, a call has moved it, and a comparison
with an integer has cleared the flag. -/
def Instruction.atReport (m : Machine) (e : Error) : Instruction → Machine
  | .unary .push r =>
    if e = .stackFull then { m with sp := ((m.integer? r).getD 0).toInt } else m
  | .branch .call _ => { m with sp := m.sp + 1 }
  | .immediate .compare _ _ => { m with zero := false }
  | _ => m

/-- The machines on which an instruction is ended by a signal. -/
def Instruction.Refused (m : Machine) (g : Signal) : Instruction → Prop
  | .ternary .div _ a b =>
    g = .arithmetic ∧ m.integer? a = some Int32.minValue ∧ m.integer? b = some (-1)
  | .ternary .concat _ a b =>
    g = .segmentation ∧ ∃ t u, m.register? a.toNat = some (.text t) ∧
      m.register? b.toNat = some (.text u) ∧ largestText < (t ++ u).bytes.length + 1
  | _ => False

/-- Where the machine goes on after an instruction, given the machine before it and the pointer behind
the instruction: a jump that is taken and a call go to the address that they name, and a return goes to
the integer on top of the stack. -/
def Instruction.successor (m : Machine) (behind : UInt32) : Instruction → Option UInt32
  | .branch .jump t => some t.toUInt32
  | .branch .jumpZero t => some (if m.zero then t.toUInt32 else behind)
  | .branch .jumpNonzero t => some (if m.zero then behind else t.toUInt32)
  | .branch .call t => some t.toUInt32
  | .plain .ret => (m.slot? m.sp).map Int32.toUInt32
  | _ => some behind

/-- An event that is an explanation. -/
def Event.IsExplanation : Event → Prop
  | .fetched _ _ | .decoded _ | .comparing _ _ _ | .poking _ _ | .copying _ _ _ | .pushing _ _
  | .popped _ _ | .returned _ => True
  | _ => False

/-- **The actions of an instruction**, given the machine before it: what each action that is carried out
may be, and what is known in the state in which it is. -/
def Instruction.Does (i : Instruction) (c : Config) (m : Machine) : Permit
  | _, _, .register r => r ∈ i.registers
  | _, _, .setRegister r _ => r ∈ i.registers ∧ .register r.toNat ∈ i.footprint
  | _, _, .setZero _ => .zero ∈ i.footprint
  | _, _, .pointer => i.opcode = .branch .call
  | _, _, .jump p => i.successor m (m.ip + 1) = some p
  | _, _, .advance => i.successor m (m.ip + 1) = some (m.ip + 1)
  | _, _, .stop => .running ∈ i.footprint
  | _, _, .memory => False
  | _, _, .byteAt p =>
    c.policy ≠ .resume → ∃ n, i.address? m = some n ∧ Place.ofInt? n = some p
  | _, _, .setByteAt p _ => .ram ∈ i.footprint ∧
    (c.policy ≠ .resume → ∃ n, i.address? m = some n ∧ Place.ofInt? n = some p)
  | _, _, .copyBlock _ _ _ => .ram ∈ i.footprint
  | _, _, .setStackPointer _ => .stack ∈ i.footprint
  | _, _, .slot j => .stack ∈ i.footprint ∧ (c.policy ≠ .resume → i.slot? m = some j ∧ j = m.sp)
  | _, _, .setSlot j _ =>
    .stack ∈ i.footprint ∧ (c.policy ≠ .resume → i.slot? m = some j ∧ j = m.sp + 1)
  | _, _, .explain e => e.IsExplanation
  | _, _, .announce _ _ => False
  | _, _, .command _ => i.opcode = .unary .shell
  | _, _, .allot n => ∃ r k, i = .unary .intToText r ∧ n = (Numeral.signed k).length ∧
    (c.policy ≠ .resume → m.integer? r = some k)
  | _, s, .report e =>
    e ∈ i.opcode.errors ∧ (c.policy ≠ .resume → s.machine = i.atReport m e)
  | _, _, .trap t => c.policy ≠ .resume → t = .copyRange ∧ i.opcode = .ternary .copyBlock
  | _, _, .kill g => c.policy ≠ .resume → i.Refused m g
  | _, _, .flag | _, _, .stackPointer | _, _, .draw | _, _, .salvage | _, _, .showInt _ _
  | _, _, .showText _ _ => True

/-! ## What is known after a look -/

section Looks

variable {c : Config} {s s' : State} {r : UInt8}

lemma integer?_eq_some_iff {m : Machine} {n : Int32} :
    m.integer? r = some n ↔ m.register? r.toNat = some (.int n) := by
  rw [Machine.integer?]
  split <;> simp_all

lemma of_register {v : Value} (h : register r s = .ok v s') :
    s' = s ∧ s.machine.register? r.toNat = some v := by
  rw [register_apply] at h
  cases hvalue : s.machine.register? r.toNat with
  | none =>
    rw [hvalue] at h
    cases h
  | some w =>
    rw [hvalue] at h
    cases h
    exact ⟨rfl, rfl⟩

/-- A host that does not go on after reports stops at each. -/
lemma report_stopping (hc : c.policy ≠ .resume) (e : Error) (s : State) :
    report c e s = .error (.reported e) s := by
  unfold report
  cases hpolicy : c.policy with
  | resume => exact absurd hpolicy hc
  | stop | abort => rfl

/-- What follows a report is done by a host that goes on, and on the same machine. -/
lemma of_report {e : Error} (h : report c e s = .ok () s') :
    c.policy = .resume ∧ s'.machine = s.machine := by
  by_cases hc : c.policy = .resume
  case neg =>
    rw [report_stopping hc] at h
    cases h
  case pos =>
    unfold report at h
    rw [hc] at h
    cases h
    exact ⟨hc, rfl⟩

lemma of_intOf {n : Int32} (h : intOf c r s = .ok n s') :
    s'.machine = s.machine ∧ (c.policy ≠ .resume → s.machine.integer? r = some n) := by
  obtain ⟨v, s₁, hregister, h⟩ := of_bind_ok h
  obtain ⟨rfl, hvalue⟩ := of_register hregister
  cases v with
  | int k =>
    cases h
    exact ⟨rfl, fun _ => integer?_eq_some_iff.2 hvalue⟩
  | text t =>
    obtain ⟨_, s₂, hreport, h⟩ := of_bind_ok h
    cases h
    obtain ⟨hresume, hmachine⟩ := of_report hreport
    exact ⟨hmachine, fun hc => absurd hresume hc⟩

lemma of_textOf {o : Option Value.Text} (h : textOf c r s = .ok o s') :
    s'.machine = s.machine ∧ (c.policy ≠ .resume →
      ∃ t, o = some t ∧ s.machine.register? r.toNat = some (.text t)) := by
  obtain ⟨v, s₁, hregister, h⟩ := of_bind_ok h
  obtain ⟨rfl, hvalue⟩ := of_register hregister
  cases v with
  | text t =>
    cases h
    exact ⟨rfl, fun _ => ⟨t, rfl, hvalue⟩⟩
  | int k =>
    obtain ⟨_, s₂, hreport, h⟩ := of_bind_ok h
    cases h
    obtain ⟨hresume, hmachine⟩ := of_report hreport
    exact ⟨hmachine, fun hc => absurd hresume hc⟩

lemma of_present {o : Option Value.Text} {t : Value.Text} (h : present o s = .ok t s') :
    s' = s ∧ o = some t := by
  cases o with
  | some u =>
    cases h
    exact ⟨rfl, rfl⟩
  | none => exact absurd h throw_ne_ok

lemma of_explain {e : Event} (h : explain c e s = .ok () s') : s'.machine = s.machine := by
  rw [explain_apply] at h
  cases h
  exact machine_told s c e

lemma of_slot {j : Int} {n : Int32} (h : slot j s = .ok n s') :
    s' = s ∧ s.machine.slot? j = some n := by
  rw [slot_apply] at h
  cases hslot : s.machine.slot? j with
  | none =>
    rw [hslot] at h
    cases h
  | some k =>
    rw [hslot] at h
    cases h
    exact ⟨rfl, rfl⟩

lemma of_setSlot {j : Int} {n : Int32} (h : setSlot j n s = .ok () s') :
    s.machine.setSlot? j n = some s'.machine := by
  rw [setSlot_apply] at h
  cases hslot : s.machine.setSlot? j n with
  | none =>
    rw [hslot] at h
    cases h
  | some m =>
    rw [hslot] at h
    cases h
    rfl

/-- What is popped is the slot at the stack pointer. -/
lemma of_pop {n : Int32} (h : pop c s = .ok n s') : s.machine.slot? s.machine.sp = some n := by
  obtain ⟨j, s₁, hpointer, h⟩ := of_bind_ok h
  cases hpointer
  split at h
  · obtain ⟨_, s₂, hreport, h⟩ := of_bind_ok h
    obtain ⟨k, s₃, hslot, h⟩ := of_bind_ok h
    obtain ⟨_, s₄, -, h⟩ := of_bind_ok h
    cases h
    have htop := (of_slot hslot).2
    rwa [(of_report hreport).2] at htop
  · obtain ⟨k, s₃, hslot, h⟩ := of_bind_ok h
    obtain ⟨_, s₄, -, h⟩ := of_bind_ok h
    cases h
    exact (of_slot hslot).2

/-- A slot that is written behind the last one is the stack pointer. -/
lemma of_setSlot?_of_le {m m' : Machine} {j : Int} {n : Int32} (hj : (stackSize : Int) ≤ j)
    (h : m.setSlot? j n = some m') : j = stackSize ∧ m' = { m with sp := n.toInt } := by
  unfold Machine.setSlot? at h
  rw [if_pos (by omega), dif_neg (by omega)] at h
  split at h
  case isTrue hlast =>
    cases h
    exact ⟨by omega, rfl⟩
  case isFalse => cases h

/-- The check of single reads and writes lets just the places pass. -/
lemma exists_place {n : Int32} (h : admitted n = true) : ∃ p, Place.ofInt? n.toInt = some p := by
  obtain ⟨hpos, hle⟩ := Bool.and_eq_true_iff.1 h
  rw [decide_eq_true_iff] at hpos hle
  have hsize : ramSize = 0xFFFF := rfl
  unfold Place.ofInt? Address.ofInt?
  by_cases hin : 0 ≤ n.toInt ∧ n.toInt.toNat < ramSize
  · rw [dif_pos hin]
    exact ⟨_, rfl⟩
  · rw [dif_neg hin]
    have hbehind : n.toInt = ramSize := by omega
    simp only [if_pos hbehind]
    exact ⟨_, rfl⟩

/-- What passes the check under a host that stops is a place. -/
lemma exists_place_of_check {n : Int32} {e : Error} (hc : c.policy ≠ .resume)
    (h : (!admitted n) = true → report c e s = .ok () s') :
    ∃ p, Place.ofInt? n.toInt = some p := by
  cases hadmitted : admitted n with
  | true => exact exists_place hadmitted
  | false =>
    rw [hadmitted] at h
    exact absurd (of_report (h rfl)).1 hc

end Looks

/-! ## Compound effects -/

section Effects

variable {i : Instruction} {c : Config} {m : Machine} {s : State} {r : UInt8}

/-- An error that finds the machine as it was before. -/
lemma does_report {e : Error} (he : e ∈ i.opcode.errors) (hat : i.atReport m e = m)
    (hs : s.machine = m) : (i.Does c m).still Unit s (.report e) :=
  ⟨id, he, fun _ => hs.trans hat.symm⟩

lemma composed_register (hr : r ∈ i.registers) :
    Composed (i.Does c m).still c (fun _ => register r) s :=
  .act (a := .register r) ⟨id, hr⟩

lemma composed_setRegister (hr : r ∈ i.registers) (hwrites : .register r.toNat ∈ i.footprint)
    (v : Value) : Composed (i.Does c m).still c (fun _ => setRegister r v) s :=
  .act (a := .setRegister r v) ⟨id, hr, hwrites⟩

lemma composed_setZero (hwrites : .zero ∈ i.footprint) (z : Bool) :
    Composed (i.Does c m).still c (fun _ => setZero z) s :=
  .act (a := .setZero z) ⟨id, hwrites⟩

lemma composed_explain {e : Event} (he : e.IsExplanation) :
    Composed (i.Does c m).still c (fun c => explain c e) s :=
  .act (a := .explain e) ⟨id, he⟩

lemma composed_intOf (hr : r ∈ i.registers)
    (he : (i.Does c m).still Unit s (.report .notInteger)) :
    Composed (i.Does c m).still c (fun c => intOf c r) s := by
  refine .bind (composed_register hr) fun v s' h => ?_
  obtain ⟨rfl, -⟩ := of_register h
  cases v with
  | int n => exact .pure n s'
  | text t => exact .bind (.act he) fun _ s₁ _ => .pure 0 s₁

lemma composed_textOf (hr : r ∈ i.registers)
    (he : (i.Does c m).still Unit s (.report .notText)) :
    Composed (i.Does c m).still c (fun c => textOf c r) s := by
  refine .bind (composed_register hr) fun v s' h => ?_
  obtain ⟨rfl, -⟩ := of_register h
  cases v with
  | text t => exact .pure (some t) s'
  | int n => exact .bind (.act he) fun _ s₁ _ => .pure none s₁

/-- A text that is missing was reported before. -/
lemma composed_present {o : Option Value.Text} (ho : c.policy ≠ .resume → ∃ t, o = some t) :
    Composed (i.Does c m).still c (fun _ => present o) s := by
  cases o with
  | some t => exact .pure t s
  | none =>
    refine .act (a := .trap .noText) ⟨id, fun hc => ?_⟩
    obtain ⟨t, ht⟩ := ho hc
    cases ht

lemma composed_setResult (hr : r ∈ i.registers) (hwrites : .register r.toNat ∈ i.footprint)
    (hzero : .zero ∈ i.footprint) (n : Int32) :
    Composed (i.Does c m).still c (fun _ => setResult r n) s :=
  .bind (composed_setRegister hr hwrites _) fun _ _ _ => composed_setZero hzero _

/-- A register that is a text was reported before. -/
lemma composed_adjust (hr : r ∈ i.registers) (hwrites : .register r.toNat ∈ i.footprint)
    (hzero : .zero ∈ i.footprint) (he : (i.Does c m).still Unit s (.report .notInteger))
    (f : Int32 → Int32) : Composed (i.Does c m).still c (fun c => adjust c r f) s := by
  refine .bind (composed_intOf hr he) fun n s₁ hint => .bind (composed_register hr) fun v s₂ h => ?_
  obtain ⟨rfl, hvalue⟩ := of_register h
  obtain ⟨hmachine, hinteger⟩ := of_intOf hint
  cases v with
  | int k => exact composed_setResult hr hwrites hzero _
  | text t =>
    refine .act (a := .trap .mixedRegister) ⟨id, fun hc => ?_⟩
    have hint' := integer?_eq_some_iff.1 (hinteger hc)
    rw [hmachine, hint'] at hvalue
    cases hvalue

/-- What a push reports it reports when the slot behind the last one was written. -/
lemma composed_push {n : Int32} (hs : s.machine = m)
    (hn : c.policy ≠ .resume → m.integer? r = some n) :
    Composed ((Instruction.unary .push r).Does c m).still c (fun c => push c n) s := by
  subst hs
  refine .bind (.act (a := .stackPointer) ⟨id, trivial⟩) fun j s₁ hpointer => ?_
  cases hpointer
  refine .bind (.act (a := .setStackPointer (s.machine.sp + 1)) ⟨id, List.mem_cons_self⟩)
    fun _ s₂ hmove => ?_
  cases hmove
  refine .bind (.act (a := .setSlot (s.machine.sp + 1) n) ⟨id, List.mem_cons_self, fun hc => ?slot⟩)
    fun _ s₃ hset => .ite
      (fun hfull => .act (a := .report .stackFull) ⟨id, .tail _ (.head _), fun hc => ?report⟩)
      fun _ => .pure () s₃
  case slot =>
    rw [Instruction.slot?, hn hc]
    exact ⟨rfl, rfl⟩
  case report =>
    obtain ⟨-, hmachine⟩ := of_setSlot?_of_le hfull (of_setSlot hset)
    rw [hmachine, Instruction.atReport, if_pos rfl, hn hc]
    rfl

/-- A call reports that the stack is full before it writes to it. -/
lemma composed_pushReturn {t : UInt16} (hs : s.machine = m) :
    Composed ((Instruction.branch .call t).Does c m).still c (fun c => pushReturn c) s := by
  subst hs
  refine .bind (.act (a := .stackPointer) ⟨id, trivial⟩) fun j s₁ hpointer => ?_
  cases hpointer
  refine .bind (.act (a := .setStackPointer (s.machine.sp + 1)) ⟨id, List.mem_cons_self⟩)
    fun _ s₂ hmove => ?_
  cases hmove
  refine .check (e := .callStackFull) (fun _ => ⟨id, List.mem_cons_self, fun _ => ?report⟩)
    fun s₃ hfull _ => .bind (.act (a := .pointer) ⟨id, rfl⟩) fun p s₄ _ =>
      .act (a := .setSlot (s.machine.sp + 1) (p + 1).toInt32)
        ⟨id, List.mem_cons_self, fun hc => ?slot⟩
  case report => rfl
  case slot =>
    -- a host that stops has passed the check
    have hroom : s.machine.sp + 1 < stackSize :=
      Int.not_le.1 fun hle => hc (of_report (hfull hle)).1
    rw [Instruction.slot?, if_pos hroom]
    exact ⟨rfl, rfl⟩

/-- What is popped is looked for before the stack pointer moves. -/
lemma composed_pop (hs : s.machine = m)
    (hslot : i.slot? m = if 0 < m.sp then some m.sp else none) (hstack : .stack ∈ i.footprint)
    (he : (i.Does c m).still Unit s (.report .stackEmpty)) :
    Composed (i.Does c m).still c (fun c => pop c) s := by
  subst hs
  refine .bind (.act (a := .stackPointer) ⟨id, trivial⟩) fun j s₁ hpointer => ?_
  cases hpointer
  refine .check (e := .stackEmpty) (fun _ => he) fun s₂ hempty _ =>
    .bind (.act (a := .slot s.machine.sp) ⟨id, hstack, fun hc => ?_⟩) fun n s₃ _ =>
      .bind (.act (a := .setStackPointer (s.machine.sp - 1)) ⟨id, hstack⟩) fun _ s₄ _ => .pure n s₄
  have hpos : 0 < s.machine.sp := Int.not_le.1 fun hle => hc (of_report (hempty hle)).1
  rw [hslot, if_pos hpos]
  exact ⟨rfl, rfl⟩

/-- A text that is copied to its own register is given up first. -/
lemma composed_copied {a b : UInt8} (hb : b ∈ i.registers) :
    Composed (i.Does c m).still c (fun _ => copied a b) s := by
  refine .bind (composed_register hb) fun v s₁ _ => ?_
  cases v with
  | int n => exact .pure _ s₁
  | text t =>
    exact .ite (fun _ => .bind (.act (a := .salvage) ⟨id, trivial⟩) fun _ s₂ _ => .pure _ s₂)
      fun _ => .pure _ s₁

end Effects

/-! ## Instructions -/

section Instructions

variable {c : Config} {s : State}

lemma completes_advance {i : Instruction} {m : Machine}
    (h : i.successor m (m.ip + 1) = some (m.ip + 1)) :
    Completes (i.Does c m) c (fun _ => advance) s :=
  .last .advance h

lemma completes_plain (op : Plain) :
    Completes ((Instruction.plain op).Does c s.machine) c (fun c => executePlain c op) s := by
  cases op with
  | exit =>
    exact .bind (.act (a := .stop) ⟨id, List.mem_cons_self⟩) fun _ _ _ => completes_advance rfl
  | nop => exact completes_advance rfl
  | ret =>
    refine .bind (composed_pop rfl rfl List.mem_cons_self (does_report List.mem_cons_self rfl rfl))
      fun n s₁ hpop => .bind (composed_explain trivial) fun _ s₂ _ =>
        .last (.jump n.toUInt32) ?_
    exact congrArg (Option.map Int32.toUInt32) (of_pop hpop)

lemma completes_unary (op : Unary) (r : UInt8) :
    Completes ((Instruction.unary op r).Does c s.machine) c (fun c => executeUnary c r op) s := by
  have hr : r ∈ (Instruction.unary op r).registers := List.mem_cons_self
  have hon (s' : State) :
      Completes ((Instruction.unary op r).Does c s.machine) c (fun _ => advance) s' :=
    completes_advance rfl
  cases op with
  | printInt =>
    exact .bind (composed_intOf hr (does_report List.mem_cons_self rfl rfl)) fun n _ _ =>
      .bind (.act (a := .showInt r n) ⟨id, trivial⟩) fun _ _ _ => hon _
  | intToText =>
    exact .bind (composed_intOf hr (does_report List.mem_cons_self rfl rfl)) fun n _ hint =>
      .bind (.act (a := .allot (Numeral.signed n).length) ⟨id, r, n, rfl, rfl, (of_intOf hint).2⟩) fun _ _ _ =>
        .bind (composed_setRegister hr List.mem_cons_self _) fun _ _ _ => hon _
  | random =>
    exact .bind (.act (a := .draw) ⟨id, trivial⟩) fun _ _ _ =>
      .bind (composed_setRegister hr List.mem_cons_self _) fun _ _ _ => hon _
  | inc | dec =>
    exact .bind (composed_adjust hr List.mem_cons_self (.tail _ (.head _))
      (does_report List.mem_cons_self rfl rfl) _) fun _ _ _ => hon _
  | printText =>
    exact .bind (composed_textOf hr (does_report List.mem_cons_self rfl rfl)) fun t _ _ =>
      .bind (.act (a := .showText r (t.map Value.Text.bytes)) ⟨id, trivial⟩) fun _ _ _ => hon _
  | shell =>
    exact .bind (composed_textOf hr (does_report List.mem_cons_self rfl rfl)) fun t _ _ =>
      .last (.command (t.map Value.Text.bytes)) rfl
  | textToInt =>
    exact .bind (composed_textOf hr (does_report List.mem_cons_self rfl rfl)) fun _ _ htext =>
      .bind (composed_present fun hc => ((of_textOf htext).2 hc).imp fun _ => And.left) fun _ _ _ =>
        .bind (composed_setRegister hr List.mem_cons_self _) fun _ _ _ => hon _
  | isText | isInt =>
    exact .bind (composed_register hr) fun _ _ _ =>
      .bind (composed_setZero List.mem_cons_self _) fun _ _ _ => hon _
  | push =>
    refine .bind (composed_intOf hr (does_report List.mem_cons_self rfl rfl)) fun n _ hint =>
      .bind (composed_explain trivial) fun _ _ hexplain =>
        .bind (composed_push ?_ (of_intOf hint).2) fun _ _ _ => hon _
    exact (of_explain hexplain).trans (of_intOf hint).1
  | pop =>
    exact .bind (composed_pop rfl rfl (.tail _ (.head _))
      (does_report List.mem_cons_self rfl rfl)) fun _ _ _ =>
        .bind (composed_explain trivial) fun _ _ _ =>
          .bind (composed_setRegister hr List.mem_cons_self _) fun _ _ _ => hon _

lemma completes_binary (op : Binary) (a b : UInt8) :
    Completes ((Instruction.binary op a b).Does c s.machine) c (fun c => executeBinary c a b op)
      s := by
  have ha : a ∈ (Instruction.binary op a b).registers := List.mem_cons_self
  have hb : b ∈ (Instruction.binary op a b).registers := .tail _ (.head _)
  have hon (s' : State) :
      Completes ((Instruction.binary op a b).Does c s.machine) c (fun _ => advance) s' :=
    completes_advance rfl
  cases op with
  | compare =>
    exact .bind (composed_register ha) fun _ _ _ => .bind (composed_register hb) fun _ _ _ =>
      .bind (composed_setZero List.mem_cons_self _) fun _ _ _ => hon _
  | copy =>
    exact .bind (composed_copied hb) fun _ _ _ =>
      .bind (composed_setRegister ha List.mem_cons_self _) fun _ _ _ => hon _
  | peek =>
    refine .bind (composed_intOf hb (does_report List.mem_cons_self rfl rfl)) fun n s₁ hint => ?_
    obtain ⟨hmachine, hinteger⟩ := of_intOf hint
    refine .check (e := .readOutsideRam)
      (fun _ => (does_report (.tail _ (.head _)) rfl hmachine).2) fun s₂ hreport _ => ?_
    cases hplace : Place.ofInt? n.toInt with
    | none =>
      refine .last (.trap (.ram n.toInt)) fun hc => ?_
      obtain ⟨p, hp⟩ := exists_place_of_check hc hreport
      rw [hplace] at hp
      cases hp
    | some p =>
      refine .bind (.act (a := .byteAt p) ⟨id, fun hc => ⟨n.toInt, ?_, hplace⟩⟩) fun _ _ _ =>
        .bind (composed_setRegister ha List.mem_cons_self _) fun _ _ _ => hon _
      rw [Instruction.address?, hinteger hc]
      rfl
  | poke =>
    refine .bind (composed_intOf ha (does_report List.mem_cons_self rfl rfl)) fun v s₁ hint => ?_
    obtain ⟨hmachine, hinteger⟩ := of_intOf hint
    refine .bind (composed_intOf hb (does_report List.mem_cons_self rfl hmachine))
      fun n s₂ hint' => .bind (composed_explain trivial) fun _ s₃ hexplain => ?_
    obtain ⟨hmachine', hinteger'⟩ := of_intOf hint'
    have hkept : s₃.machine = s.machine := (of_explain hexplain).trans (hmachine'.trans hmachine)
    rw [hmachine] at hinteger'
    refine .check (e := .writeOutsideRam) (fun _ => (does_report (.tail _ (.head _)) rfl hkept).2)
      fun s₄ hreport _ => ?_
    cases hplace : Place.ofInt? n.toInt with
    | none =>
      refine .last (.trap (.ram n.toInt)) fun hc => ?_
      obtain ⟨p, hp⟩ := exists_place_of_check hc hreport
      rw [hplace] at hp
      cases hp
    | some p =>
      refine .bind (.act (a := .setByteAt p v.toUInt32.toUInt8)
        ⟨id, List.mem_cons_self, fun hc => ⟨n.toInt, ?_, hplace⟩⟩) fun _ _ _ => hon _
      rw [Instruction.address?, hinteger hc, hinteger' hc]
      rfl

/-- The operands of an operation on three registers are looked at in a row. -/
lemma completes_ternary (op : Ternary) (d a b : UInt8) :
    Completes ((Instruction.ternary op d a b).Does c s.machine) c
      (fun c => executeTernary c d a b op) s := by
  have hd : d ∈ (Instruction.ternary op d a b).registers := List.mem_cons_self
  have ha : a ∈ (Instruction.ternary op d a b).registers := .tail _ (.head _)
  have hb : b ∈ (Instruction.ternary op d a b).registers := .tail _ (.tail _ (.head _))
  have hon (s' : State) :
      Completes ((Instruction.ternary op d a b).Does c s.machine) c (fun _ => advance) s' :=
    completes_advance rfl
  cases op with
  | arith op =>
    exact .bind (composed_intOf ha (does_report List.mem_cons_self rfl rfl)) fun _ _ hx =>
      .bind (composed_intOf hb (does_report List.mem_cons_self rfl (of_intOf hx).1)) fun _ _ _ =>
        .bind (composed_setResult hd List.mem_cons_self (.tail _ (.head _)) _) fun _ _ _ => hon _
  | div =>
    refine .bind (composed_intOf ha (does_report List.mem_cons_self rfl rfl)) fun x s₁ hx => ?_
    obtain ⟨hmachine, hinteger⟩ := of_intOf hx
    refine .bind (composed_intOf hb (does_report List.mem_cons_self rfl hmachine))
      fun y s₂ hy => ?_
    obtain ⟨hmachine', hinteger'⟩ := of_intOf hy
    rw [hmachine] at hinteger'
    refine .ite (fun _ => .last (.report .divisionByZero)
      (does_report (.tail _ (.head _)) rfl (hmachine'.trans hmachine)).2) fun _ =>
      .ite (fun hwide => .last (.kill .arithmetic) fun hc => ?_) fun _ =>
        .bind (composed_setResult hd List.mem_cons_self (.tail _ (.head _)) _) fun _ _ _ => hon _
    rw [hwide.1] at hinteger
    rw [hwide.2] at hinteger'
    exact ⟨rfl, hinteger hc, hinteger' hc⟩
  | concat =>
    refine .bind (composed_textOf ha (does_report List.mem_cons_self rfl rfl)) fun o s₁ ht => ?_
    obtain ⟨hmachine, htext⟩ := of_textOf ht
    refine .bind (composed_textOf hb (does_report List.mem_cons_self rfl hmachine))
      fun o' s₂ hu => ?_
    obtain ⟨-, htext'⟩ := of_textOf hu
    rw [hmachine] at htext'
    refine .bind (composed_present fun hc => (htext hc).imp fun _ => And.left) fun t _ hpresent =>
      .bind (composed_present fun hc => (htext' hc).imp fun _ => And.left) fun u _ hpresent' =>
      .ite (fun hlong => .last (.kill .segmentation) fun hc => ?_) fun _ =>
        .bind (composed_setRegister hd List.mem_cons_self _) fun _ _ _ => hon _
    obtain ⟨t', ho, hta⟩ := htext hc
    obtain ⟨u', ho', hub⟩ := htext' hc
    obtain rfl := Option.some.inj (ho.symm.trans (of_present hpresent).2)
    obtain rfl := Option.some.inj (ho'.symm.trans (of_present hpresent').2)
    exact ⟨rfl, t', u', hta, hub, hlong⟩
  | copyBlock =>
    refine .bind (composed_intOf ha (does_report List.mem_cons_self rfl rfl)) fun source s₁ hx => ?_
    obtain ⟨hmachine, -⟩ := of_intOf hx
    refine .bind (composed_intOf hd (does_report List.mem_cons_self rfl hmachine))
      fun dest s₂ hy => ?_
    have hmachine' := (of_intOf hy).1.trans hmachine
    refine .bind (composed_intOf hb (does_report List.mem_cons_self rfl hmachine'))
      fun size s₃ hz => ?_
    have hmachine'' := (of_intOf hz).1.trans hmachine'
    exact .ite (fun _ => .last (.report .negativeAddress)
      (does_report (.tail _ (.head _)) rfl hmachine'').2) fun _ =>
      .bind (composed_explain trivial) fun _ _ _ =>
        .ite (fun _ => .last (.trap .copyRange) fun _ => ⟨rfl, rfl⟩) fun _ =>
          .bind (.act (a := .copyBlock dest.toInt.toNat source.toInt.toNat size.toInt.toNat)
            ⟨id, List.mem_cons_self⟩) fun _ _ _ => hon _

lemma completes_branch (op : Branch) (t : UInt16) :
    Completes ((Instruction.branch op t).Does c s.machine) c (fun c => executeBranch c t op) s := by
  cases op with
  | jump => exact .last (.jump t.toUInt32) rfl
  | jumpZero =>
    refine .bind (.act (a := .flag) ⟨id, trivial⟩) fun z s₁ hflag => ?_
    cases hflag
    exact .ite (fun hz => .last (.jump t.toUInt32) (congrArg some (if_pos hz)))
      fun hz => completes_advance (congrArg some (if_neg hz))
  | jumpNonzero =>
    refine .bind (.act (a := .flag) ⟨id, trivial⟩) fun z s₁ hflag => ?_
    cases hflag
    exact .ite (fun hz => completes_advance (congrArg some (if_pos hz)))
      fun hz => .last (.jump t.toUInt32) (congrArg some (if_neg hz))
  | call =>
    exact .bind (composed_pushReturn rfl) fun _ _ _ => .last (.jump t.toUInt32) rfl

/-- The flag is cleared before the register is looked at. -/
lemma completes_immediate (op : Immediate) (r : UInt8) (v : UInt16) :
    Completes ((Instruction.immediate op r v).Does c s.machine) c
      (fun c => executeImmediate c r v op) s := by
  have hr : r ∈ (Instruction.immediate op r v).registers := List.mem_cons_self
  have hon (s' : State) :
      Completes ((Instruction.immediate op r v).Does c s.machine) c (fun _ => advance) s' :=
    completes_advance rfl
  cases op with
  | store => exact .bind (composed_setRegister hr List.mem_cons_self _) fun _ _ _ => hon _
  | compare =>
    refine .bind (composed_setZero List.mem_cons_self false) fun _ s₁ hclear => ?_
    cases hclear
    exact .bind (composed_intOf hr ⟨id, List.mem_cons_self, fun _ => rfl⟩) fun n _ _ =>
      .ite (fun _ => .bind (composed_setZero List.mem_cons_self true) fun _ _ _ => hon _)
        fun _ => hon _

lemma completes_literal (op : Literal) (r : UInt8) (t : Bytes) :
    Completes ((Instruction.literal op r t).Does c s.machine) c
      (fun c => executeLiteral c r t op) s := by
  have hr : r ∈ (Instruction.literal op r t).registers := List.mem_cons_self
  cases op with
  | store =>
    exact .bind (composed_setRegister hr List.mem_cons_self _) fun _ _ _ => completes_advance rfl
  | compare =>
    exact .bind (composed_textOf hr (does_report List.mem_cons_self rfl rfl)) fun _ _ htext =>
      .bind (composed_explain trivial) fun _ _ _ =>
        .bind (composed_present fun hc => ((of_textOf htext).2 hc).imp fun _ => And.left)
          fun _ _ _ => .bind (composed_setZero List.mem_cons_self _) fun _ _ _ =>
            completes_advance rfl

/-- **Every instruction is composed of its actions**, and moves the pointer with the last of them.

**Proof sketch.** Each instruction is followed from its first action to its last. What is known about an
action is known because no look changes the machine, and because under a host that stops at reports
whatever follows a check has passed it. -/
theorem completes_execute (c : Config) (i : Instruction) (s : State) :
    Completes (i.Does c s.machine) c (fun c => execute c i) s := by
  cases i with
  | plain op => exact completes_plain op
  | unary op r => exact completes_unary op r
  | binary op a b => exact completes_binary op a b
  | ternary op d a b => exact completes_ternary op d a b
  | branch op t => exact completes_branch op t
  | immediate op r v => exact completes_immediate op r v
  | literal op r t => exact completes_literal op r t

end Instructions

/-! ## Reading the code -/

/-- The actions with which the code is read. -/
def Reads : Permit
  | _, _, .pointer | _, _, .memory | _, _, .jump _ => True
  | _, _, .report e => e = .registerOutOfBounds
  | _, _, .explain e => e.IsExplanation
  | _, _, _ => False

section Reading

variable {c : Config} {s : State}

lemma composed_fetchByte : Composed Reads c (fun _ => fetchByte) s :=
  .bind (.act (a := .pointer) trivial) fun p _ _ =>
    .bind (.act (a := .jump (Address.ofPointer (p + 1)).toPointer) trivial) fun _ _ _ =>
      .bind (.act (a := .memory) trivial) fun _ _ _ => .pure _ _

lemma composed_fetchWord : Composed Reads c (fun _ => fetchWord) s :=
  .bind composed_fetchByte fun _ _ _ => .bind composed_fetchByte fun _ _ _ => .pure _ _

lemma composed_fetchText : Composed Reads c (fun _ => fetchText) s :=
  .bind composed_fetchWord fun length _ _ => .bind (.act (a := .pointer) trivial) fun p _ _ =>
    .bind (.act (a := .memory) trivial) fun ram _ _ =>
      .bind (.act (a := .jump ((ram.read length.toNat (p + 1)).2 - 1)) trivial) fun _ _ _ => .pure _ _

lemma composed_fetchRegister : Composed Reads c (fun c => fetchRegister c) s :=
  .bind composed_fetchByte fun _ _ _ =>
    .bind (.ite (fun _ => .pure _ _) fun _ => .act (a := .report .registerOutOfBounds) rfl)
      fun _ _ _ => .pure _ _

/-- **Reading the operands moves the pointer**, and reports no error but a register that is not
there. -/
theorem composed_fetchInstruction (c : Config) (op : Opcode) (s : State) :
    Composed Reads c (fun c => fetchInstruction c op) s := by
  have hregister (s' : State) : Composed Reads c (fun c => fetchRegister c) s' :=
    composed_fetchRegister
  cases op with
  | plain op => exact .pure _ _
  | unary op => exact .bind (hregister _) fun _ _ _ => .pure _ _
  | binary op => exact .bind (hregister _) fun _ _ _ => .bind (hregister _) fun _ _ _ => .pure _ _
  | ternary op =>
    have hsource {f : UInt8 → Config → Exec Instruction} (s' : State)
        (hrest : ∀ r s'', Composed Reads c (f r) s'') :
        Composed Reads c (fun c => if op.checksSources then fetchRegister c >>= fun r => f r c
          else fetchByte >>= fun r => f r c) s' :=
      .ite (fun _ => .bind (hregister s') fun r s'' _ => hrest r s'')
        fun _ => .bind composed_fetchByte fun r s'' _ => hrest r s''
    exact .bind (hregister _) fun _ _ _ => hsource _ fun _ _ => hsource _ fun _ _ => .pure _ _
  | branch op => exact .bind composed_fetchWord fun _ _ _ => .pure _ _
  | immediate op =>
    exact .bind (hregister _) fun _ _ _ => .bind composed_fetchWord fun _ _ _ => .pure _ _
  | literal op =>
    exact .bind (hregister _) fun _ _ _ => .bind composed_fetchText fun _ _ _ => .pure _ _

/-- The operands that are read are those of the operation asked for. -/
lemma opcode_of_fetchInstruction {op : Opcode} {s' : State} {i : Instruction}
    (h : fetchInstruction c op s = .ok i s') : i.opcode = op := by
  have hlast {j : Instruction} {t : State} (hj : (pure j : Exec Instruction) t = .ok i s') :
      j.opcode = i.opcode := by
    cases hj
    rfl
  cases op with
  | plain op => exact (hlast h).symm
  | unary op | branch op =>
    obtain ⟨_, _, _, h⟩ := of_bind_ok h
    exact (hlast h).symm
  | binary op | immediate op | literal op =>
    obtain ⟨_, _, _, h⟩ := of_bind_ok h
    obtain ⟨_, _, _, h⟩ := of_bind_ok h
    exact (hlast h).symm
  | ternary op =>
    obtain ⟨_, _, _, h⟩ := of_bind_ok h
    cases hchecks : op.checksSources with
    | true | false =>
      rw [hchecks] at h
      obtain ⟨_, _, _, h⟩ := of_bind_ok h
      obtain ⟨_, _, _, h⟩ := of_bind_ok h
      exact (hlast h).symm

end Reading

/-! ## Cycles -/

/-- The actions of a cycle that starts in a state: the code is read, and then the instruction that stands
there is carried out, or it is announced that there is none. -/
inductive State.Acts (s : State) (c : Config) : Permit where
  | reads {α : Type} {s' : State} {a : Action α} (h : Reads α s' a) : Acts s c α s' a
  | does {α : Type} {s' s₁ : State} {a : Action α} {i : Instruction}
    (hop : Opcode.ofByte? s.opcode = some i.opcode)
    (hfetch : fetchInstruction c i.opcode (s.begun c) = .ok i s₁)
    (h : i.Does c s₁.machine α s' a) : Acts s c α s' a
  | announces {s' : State} {p : UInt32} {b : UInt8} (hop : Opcode.ofByte? s.opcode = none) :
    Acts s c Unit s' (.announce p b)
  | skips {s' : State} (hop : Opcode.ofByte? s.opcode = none) : Acts s c Unit s' .advance

section Cycles

variable {c : Config} {s : State}

/-- An instruction that was read is explained and carried out. -/
lemma composed_handler {may : Permit} {op : Opcode}
    (hreads : ∀ {α : Type} {t : State} {a : Action α}, Reads α t a → may α t a)
    (hdoes : ∀ {i : Instruction} {s₁ : State}, fetchInstruction c op s = .ok i s₁ →
      ∀ {α : Type} {t : State} {a : Action α}, i.Does c s₁.machine α t a → may α t a) :
    Composed may c (fun c => op.handler c) s := by
  refine .bind ((composed_fetchInstruction c op s).mono fun _ _ h => hreads h) fun i s₁ hfetch => ?_
  refine .bind (.act (a := .explain (.decoded i)) (hreads trivial)) fun _ s₂ hexplain => ?_
  have hmachine := of_explain hexplain
  exact (completes_execute c i s₂).composed.mono fun _ _ h => hdoes hfetch (hmachine ▸ h)

/-- A cycle has moved the pointer into the memory, so there is a byte under it. -/
lemma composed_unknownHandler (hop : Opcode.ofByte? s.opcode = none) :
    Composed (s.Acts c) c (fun c => unknownHandler c) (s.begun c) := by
  have hbyte : Composed (s.Acts c) c (fun _ => currentByte) (s.begun c) := by
    refine .bind (.act (a := .pointer) (.reads trivial)) fun p s₁ hpointer => ?_
    cases hpointer
    refine .bind (.act (a := .memory) (.reads trivial)) fun ram s₂ hmemory => ?_
    cases hmemory
    have hlt : (s.begun c).machine.ip.toNat < ramSize := by
      have haddress := (Address.ofPointer s.machine.ip).isLt
      have hsize : ramSize = 0xFFFF := rfl
      rw [machine_begun]
      change (UInt32.ofNat (Address.ofPointer s.machine.ip).val).toNat < ramSize
      rw [UInt32.toNat_ofNat']
      omega
    simp only [Vector.getElem?_eq_getElem hlt]
    exact .pure _ _
  exact .bind hbyte fun b s₁ _ => .bind (.act (a := .pointer) (.reads trivial)) fun p s₂ _ =>
    .bind (.act (a := .announce p b) (.announces hop)) fun _ _ _ => .act (a := .advance) (.skips hop)

/-- **Every cycle is composed of actions**: the code is read, and the instruction that was read is
carried out. -/
theorem composed_cycle (c : Config) (s : State) :
    Composed (s.Acts c) c (fun c => cycle Table.builtin c) s := by
  refine .bind (.act (a := .pointer) (.reads trivial)) fun p s₁ hpointer => ?_
  cases hpointer
  refine .bind (.act (a := .jump (Address.ofPointer s.machine.ip).toPointer) (.reads trivial))
    fun _ s₂ hjump => ?_
  cases hjump
  refine .bind (.act (a := .memory) (.reads trivial)) fun ram s₃ hmemory => ?_
  cases hmemory
  refine .bind (.act (a := .explain (.fetched (Address.ofPointer s.machine.ip).toPointer s.opcode))
    (.reads trivial)) fun _ s₄ hexplain => ?_
  obtain rfl : s₄ = s.begun c := by
    change explain c _ _ = _ at hexplain
    rw [explain_apply] at hexplain
    cases hexplain
    rfl
  have hopcode : s.machine.ram.get (Address.ofPointer s.machine.ip) = s.opcode := rfl
  simp only [hopcode, Table.builtin]
  cases hop : Opcode.ofByte? s.opcode with
  | some op =>
    refine .bind (composed_handler .reads fun hfetch => ?_) fun _ _ _ => .pure _ _
    obtain rfl := opcode_of_fetchInstruction hfetch
    exact .does hop hfetch
  | none => exact .bind (composed_unknownHandler hop) fun _ _ _ => .pure _ _

end Cycles

end RegisterMachine
