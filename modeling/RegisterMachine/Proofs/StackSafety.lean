import RegisterMachine.Proofs.Blindness
import RegisterMachine.Proofs.Segments

/-!
# Which uses of the stack are safe

The stack has 1024 slots, and its pointer is the number of the slot that was written last. A cycle is
sound for the stack if it makes no access to a slot that is not there, leaves the pointer on one of the
slots, and reports that the stack is full, or empty, where it is. It is safe if moreover it reads and
writes no slot but those from 1 to 1023.

Under a host that stops at reports every cycle of every run is sound. A call checks that there is room
before it writes, and so does every pop before it reads; but a push writes first and checks then. On a
full stack it therefore writes the slot behind the last one, which is the stack pointer, before it
reports that the stack is full. So a run is safe for the stack exactly as long as it pushes nothing onto
a full stack.

## Main definitions

* `Machine.InRange` — the stack pointer is the number of a slot.
* `State.slot?` — the slot that the next cycle reads or writes.
* `State.PushesFull` — the next cycle pushes a number onto a full stack.
* `Moves` — a program that moves the stack pointer, or reports an error.
* `State.StackSound`, `State.StackSafe` — the next cycle is sound, or safe, for the stack.

## Main results

* `moves_push`, `moves_call`, `moves_pop`, `moves_ret` — what the operations on the stack do to its
  pointer.
* `cycle_push_of_full` — what a push onto a full stack leaves behind.
* `stackSound` — every cycle that starts with the pointer on a slot is sound for the stack.
* `run_stackSafe_iff` — which cycles of a run are safe.
-/

namespace RegisterMachine

open Effect Exec

/-! ## Slots and the pointer -/

/-- The stack pointer is the number of a slot. -/
def Machine.InRange (m : Machine) : Prop := 0 ≤ m.sp ∧ m.sp < stackSize

/-- The slot of the stack that the next cycle reads or writes. -/
def State.slot? (c : Config) (s : State) : Option Int :=
  (s.instruction? c).bind (·.slot? s.machine)

/-- The next cycle pushes a number onto a full stack. -/
def State.PushesFull (c : Config) (s : State) (v : Int32) : Prop :=
  s.machine.sp + 1 = stackSize ∧
    ∃ r, s.instruction? c = some (.unary .push r) ∧ s.machine.integer? r = some v

/-- The next cycle is sound for the stack. -/
structure State.StackSound (c : Config) (s : State) : Prop where
  /-- No slot is read or written that is not there. -/
  present : ∀ j, ¬s.EndsIn c (.trapped (.stack j))
  /-- If nothing is reported, the pointer is the number of a slot afterwards. -/
  pointer : ∀ a s', cycle Table.builtin c s = .ok a s' → s'.machine.InRange
  /-- A push onto a full stack is reported, whatever is pushed. -/
  pushed : ∀ v, s.PushesFull c v → s.EndsIn c (.reported .stackFull)
  /-- So is a call. -/
  called : s.machine.sp + 1 = stackSize → s.Executes [.branch .call] →
    s.EndsIn c (.reported .callStackFull)
  /-- A pop from an empty stack, or a return, is reported in some way. -/
  popped : s.machine.sp = 0 → s.Executes [.unary .pop, .plain .ret] →
    ∃ e, s.EndsIn c (.reported e)

/-- The next cycle is safe for the stack. -/
structure State.StackSafe (c : Config) (s : State) : Prop extends s.StackSound c where
  /-- The slot that is read or written is one that a program may use. -/
  slots : ∀ j, s.slot? c = some j → 1 ≤ j ∧ j < stackSize

lemma setSlot?_of_lt (m : Machine) {i : Int} (hpos : 0 ≤ i) (hlt : i < stackSize) (n : Int32) :
    ∃ stack, m.setSlot? i n = some { m with stack } := by
  have hlt' : i.toNat < stackSize := by omega
  exact ⟨_, by rw [Machine.setSlot?, if_pos hpos, dif_pos hlt']⟩

lemma slot?_of_inRange {m : Machine} (h : m.InRange) : ∃ n, m.slot? m.sp = some n := by
  obtain ⟨hpos, hlt⟩ := h
  have hlt' : m.sp.toNat < stackSize := by omega
  exact ⟨_, by rw [Machine.slot?, if_pos hpos, dif_pos hlt']⟩

/-! ## Moving the pointer -/

/-- A program that moves the stack pointer to a given number if a condition holds, and reports an
error otherwise. -/
def Moves {α : Type} (p : Prop) (n : Int) (e : Error) (x : Exec α) (s : State) : Prop :=
  (p → ∃ a s', x s = .ok a s' ∧ s'.machine.sp = n) ∧ (¬p → ∃ s', x s = .error (.reported e) s')

/-- What comes after the move leaves the pointer where it is. -/
lemma Moves.bind {α β : Type} {p : Prop} {n : Int} {e : Error} {x : Exec α} {f : α → Exec β}
    {s : State} (hx : Moves p n e x s)
    (hf : ∀ a s', ∃ b s'', f a s' = .ok b s'' ∧ s''.machine.sp = s'.machine.sp) :
    Moves p n e (x >>= f) s := by
  refine ⟨fun hp => ?_, fun hp => ?_⟩
  · obtain ⟨a, s', hrun, hsp⟩ := hx.1 hp
    obtain ⟨b, s'', hrest, hsame⟩ := hf a s'
    exact ⟨b, s'', (bind_ok hrun).trans hrest, hsame.trans hsp⟩
  · obtain ⟨s', hrun⟩ := hx.2 hp
    exact ⟨s', bind_error hrun⟩

/-- What comes before the move leaves the pointer where it is. -/
lemma Moves.after {α β : Type} {p : Prop} {n : Int} {e : Error} {x : Exec α} {f : α → Exec β}
    {s s' : State} {a : α} (hx : x s = .ok a s') (hf : Moves p n e (f a) s') :
    Moves p n e (x >>= f) s := by
  rw [Moves, bind_ok hx]
  exact hf

/-! ## The operations on the stack -/

section Operations

variable {c : Config} (hc : c.policy ≠ .resume) {s : State}

include hc

/-- A push onto a full stack writes the pointer, and then reports. -/
lemma push_of_full (n : Int32) (hfull : s.machine.sp + 1 = stackSize) :
    push c n s =
      .error (.reported .stackFull) { s with machine := { s.machine with sp := n.toInt } } := by
  have hset : s.raised.machine.setSlot? (s.machine.sp + 1) n =
      some { s.machine with sp := n.toInt } := by
    -- the slot behind the last one is the pointer
    rw [hfull]
    rfl
  rw [push_apply hc, hset]
  exact if_pos (Int.le_of_eq hfull.symm)

/-- A push moves the pointer up if there is room, and is reported otherwise. -/
lemma moves_pushSlot (n : Int32) (hrange : s.machine.InRange) :
    Moves (s.machine.sp + 1 < stackSize) (s.machine.sp + 1) .stackFull (Exec.push c n) s := by
  obtain ⟨hpos, hlt⟩ := hrange
  refine ⟨fun hroom => ?_, fun hfull => ⟨_, push_of_full hc n (by omega)⟩⟩
  obtain ⟨stack, hset⟩ := setSlot?_of_lt s.raised.machine
    (show 0 ≤ s.machine.sp + 1 by omega) hroom n
  have hpush := push_apply hc n s
  rw [hset] at hpush
  exact ⟨_, _, hpush.trans (if_neg (Int.not_le.2 hroom)), rfl⟩

/-- What is pushed is in a register. -/
lemma moves_executePush {r : UInt8} {v : Int32} (hv : s.machine.integer? r = some v)
    (hrange : s.machine.InRange) :
    Moves (s.machine.sp + 1 < stackSize) (s.machine.sp + 1) .stackFull
      (executeUnary c r .push) s := by
  have hpush := moves_pushSlot hc (s := s.told c (.pushing r v)) v (by rwa [machine_told])
  rw [machine_told] at hpush
  exact .after (intOf_of_integer? c hv) <| .after (explain_apply s c _) <|
    hpush.bind fun _ _ => ⟨_, _, rfl, rfl⟩

/-- A call moves the pointer up if there is room, and is reported otherwise. -/
lemma moves_executeCall (t : UInt16) (hpos : 0 ≤ s.machine.sp) :
    Moves (s.machine.sp + 1 < stackSize) (s.machine.sp + 1) .callStackFull
      (executeBranch c t .call) s := by
  refine Moves.bind ?_ fun _ _ => ⟨_, _, rfl, rfl⟩
  have hpush := pushReturn_apply hc s
  refine ⟨fun hroom => ?_, fun hfull => ?_⟩
  · obtain ⟨stack, hset⟩ := setSlot?_of_lt s.raised.machine
      (show 0 ≤ s.machine.sp + 1 by omega) hroom (s.machine.ip + 1).toInt32
    rw [if_neg (Int.not_le.2 hroom), setSlot_apply, hset] at hpush
    exact ⟨_, _, hpush, rfl⟩
  · rw [if_pos (Int.not_lt.1 hfull)] at hpush
    exact ⟨_, hpush⟩

/-- What is popped is there, unless the stack is empty. -/
lemma moves_popSlot (hrange : s.machine.InRange) :
    Moves (0 < s.machine.sp) (s.machine.sp - 1) .stackEmpty (Exec.pop c) s := by
  have hpop := pop_apply hc s
  refine ⟨fun hpos => ?_, fun hempty => ?_⟩
  · obtain ⟨n, hslot⟩ := slot?_of_inRange hrange
    rw [if_neg (Int.not_le.2 hpos), hslot] at hpop
    exact ⟨_, _, hpop, rfl⟩
  · rw [if_pos (Int.not_lt.1 hempty)] at hpop
    exact ⟨_, hpop⟩

/-- A pop moves the pointer down, or is reported. -/
lemma moves_executePop {r : UInt8} (hr : r.toNat < registerCount) (hrange : s.machine.InRange) :
    Moves (0 < s.machine.sp) (s.machine.sp - 1) .stackEmpty (executeUnary c r .pop) s := by
  refine (moves_popSlot hc hrange).bind fun n s' => ?_
  have hset := setRegister_apply r (.int n) (s'.told c (.popped r n))
  rw [dif_pos hr] at hset
  refine ⟨_, _, (bind_ok (explain_apply s' c _)).trans (bind_ok hset), ?_⟩
  change (s'.told c (.popped r n)).machine.sp = s'.machine.sp
  rw [machine_told]

/-- So does a return. -/
lemma moves_executeRet (hrange : s.machine.InRange) :
    Moves (0 < s.machine.sp) (s.machine.sp - 1) .stackEmpty (executePlain c .ret) s := by
  refine (moves_popSlot hc hrange).bind fun n s' => ?_
  refine ⟨_, _, bind_ok (explain_apply s' c _), ?_⟩
  change (s'.told c (.returned n)).machine.sp = s'.machine.sp
  rw [machine_told]

/-! ## Cycles that use the stack -/

omit hc in
/-- A cycle carries out the instruction at the pointer, and reading it moves nothing but the
pointer. -/
lemma exists_execute {i : Instruction} (h : s.instruction? c = some i) :
    ∃ s₁ : State, s₁.machine = { s.machine with ip := s₁.machine.ip } ∧
      cycle Table.builtin c s = (execute c i >>= fun _ => pure (s.opcode, true)) s₁ := by
  obtain ⟨hop, s₁, hfetch⟩ := State.instruction?_eq_some_iff.1 h
  refine ⟨s₁.told c (.decoded i), ?_, cycle_of_fetch hop hfetch⟩
  rw [machine_told, machine_of_fetchInstruction hfetch, machine_begun]

omit hc in
lemma eq_plain_of_opcode {i : Instruction} {op : Plain} (h : i.opcode = .plain op) :
    i = .plain op := by
  cases i <;> cases h
  rfl

omit hc in
lemma eq_unary_of_opcode {i : Instruction} {op : Unary} (h : i.opcode = .unary op) :
    ∃ r, i = .unary op r := by
  cases i <;> cases h
  exact ⟨_, rfl⟩

omit hc in
lemma eq_branch_of_opcode {i : Instruction} {op : Branch} (h : i.opcode = .branch op) :
    ∃ t, i = .branch op t := by
  cases i <;> cases h
  exact ⟨_, rfl⟩

/-- The operand of an operation on one register that is carried out is a register. -/
lemma unary_lt {op : Unary} {r : UInt8} (h : s.instruction? c = some (.unary op r)) :
    r.toNat < registerCount := by
  have hr : (s.operand 1).toNat < registerCount := lt_of_instruction? hc h _ List.mem_cons_self
  obtain ⟨-, s', hfetch⟩ := State.instruction?_eq_some_iff.1 h
  cases hfetch.symm.trans (fetchInstruction_unary c op hr)
  exact hr

omit hc in
/-- A cycle moves the pointer as its instruction does. -/
lemma moves_cycle {i : Instruction} {p : Prop} {n : Int} {e : Error}
    (h : s.instruction? c = some i)
    (hi : ∀ s₁ : State, s₁.machine = { s.machine with ip := s₁.machine.ip } →
      Moves p n e (execute c i) s₁) :
    Moves p n e (cycle Table.builtin c) s := by
  obtain ⟨s₁, hmachine, hcycle⟩ := exists_execute h
  have hmoves := (hi s₁ hmachine).bind (f := fun _ => pure (s.opcode, true)) fun _ _ =>
    ⟨_, _, rfl, rfl⟩
  rw [Moves, hcycle]
  exact hmoves

/-- **A push moves the pointer up if there is room**, and is reported otherwise. -/
lemma moves_push {r : UInt8} {v : Int32} (h : s.instruction? c = some (.unary .push r))
    (hv : s.machine.integer? r = some v) (hrange : s.machine.InRange) :
    Moves (s.machine.sp + 1 < stackSize) (s.machine.sp + 1) .stackFull
      (cycle Table.builtin c) s := by
  refine moves_cycle h fun s₁ hmachine => ?_
  have hv₁ : s₁.machine.integer? r = some v := by
    rw [hmachine]
    exact hv
  have hpush := moves_executePush hc hv₁ (by rw [hmachine]; exact hrange)
  rwa [hmachine] at hpush

/-- What is not an integer is not pushed. -/
lemma endsIn_notInteger_of_push {r : UInt8} (h : s.instruction? c = some (.unary .push r))
    (hv : s.machine.integer? r = none) : s.EndsIn c (.reported .notInteger) := by
  have hr := unary_lt hc h
  obtain ⟨s₁, hmachine, hcycle⟩ := exists_execute h
  have hv₁ : s₁.machine.integer? r = none := by
    rw [hmachine]
    exact hv
  have hint := intOf_of_lt hc hr s₁
  rw [hv₁] at hint
  exact ⟨s₁, hcycle.trans (bind_error (bind_error hint))⟩

/-- **A push onto a full stack makes what it pushes the stack pointer**, and is reported. -/
lemma cycle_push_of_full {v : Int32} (h : s.PushesFull c v) :
    ∃ s', s'.machine.sp = v.toInt ∧ cycle Table.builtin c s = .error (.reported .stackFull) s' := by
  obtain ⟨hfull, r, hpush, hv⟩ := h
  obtain ⟨s₁, hmachine, hcycle⟩ := exists_execute hpush
  have hv₁ : s₁.machine.integer? r = some v := by
    rw [hmachine]
    exact hv
  have hfull₁ : (s₁.told c (.pushing r v)).machine.sp + 1 = stackSize := by
    rw [machine_told, hmachine]
    exact hfull
  have hrun := bind_error (f := fun _ => advance) (push_of_full hc v hfull₁)
  have hexecute : executeUnary c r .push s₁ = _ :=
    (bind_ok (intOf_of_integer? c hv₁)).trans ((bind_ok (explain_apply s₁ c _)).trans hrun)
  exact ⟨_, rfl, hcycle.trans (bind_error hexecute)⟩

/-- **A call moves the pointer up if there is room**, and is reported otherwise. -/
lemma moves_call {t : UInt16} (h : s.instruction? c = some (.branch .call t))
    (hpos : 0 ≤ s.machine.sp) :
    Moves (s.machine.sp + 1 < stackSize) (s.machine.sp + 1) .callStackFull
      (cycle Table.builtin c) s := by
  refine moves_cycle h fun s₁ hmachine => ?_
  have hcall := moves_executeCall hc (s := s₁) t (by rw [hmachine]; exact hpos)
  rwa [hmachine] at hcall

/-- **A pop moves the pointer down**, or is reported. -/
lemma moves_pop {r : UInt8} (h : s.instruction? c = some (.unary .pop r))
    (hrange : s.machine.InRange) :
    Moves (0 < s.machine.sp) (s.machine.sp - 1) .stackEmpty (cycle Table.builtin c) s := by
  have hr := unary_lt hc h
  refine moves_cycle h fun s₁ hmachine => ?_
  have hpop := moves_executePop hc (s := s₁) hr (by rw [hmachine]; exact hrange)
  rwa [hmachine] at hpop

/-- **So does a return.** -/
lemma moves_ret (h : s.instruction? c = some (.plain .ret)) (hrange : s.machine.InRange) :
    Moves (0 < s.machine.sp) (s.machine.sp - 1) .stackEmpty (cycle Table.builtin c) s := by
  refine moves_cycle h fun s₁ hmachine => ?_
  have hret := moves_executeRet hc (s := s₁) (by rw [hmachine]; exact hrange)
  rwa [hmachine] at hret

/-! ## Which cycles are safe -/

omit hc in
/-- The slot behind the last one is reached by a push onto a full stack, and in no other way. -/
lemma pushesFull_of_slot? (hrange : s.machine.InRange) {j : Int} (h : s.slot? c = some j) :
    (1 ≤ j ∧ j < stackSize) ∨ ∃ v, s.PushesFull c v := by
  obtain ⟨hpos, hlt⟩ := hrange
  obtain ⟨i, hi, hslot⟩ := Option.bind_eq_some_iff.1 h
  cases i with
  | unary op r =>
    cases op with
    | push =>
      obtain ⟨v, hv, rfl⟩ := Option.map_eq_some_iff.1 hslot
      by_cases hfull : s.machine.sp + 1 = stackSize
      · exact .inr ⟨v, hfull, r, hi, hv⟩
      · exact .inl ⟨by omega, by omega⟩
    | pop =>
      obtain ⟨hsome, heq⟩ := Option.ite_none_right_eq_some.1 hslot
      cases heq
      exact .inl ⟨hsome, hlt⟩
    | _ => exact absurd hslot (by simp [Instruction.slot?])
  | branch op t =>
    cases op with
    | call =>
      obtain ⟨hroom, heq⟩ := Option.ite_none_right_eq_some.1 hslot
      cases heq
      exact .inl ⟨by omega, hroom⟩
    | _ => exact absurd hslot (by simp [Instruction.slot?])
  | plain op =>
    cases op with
    | ret =>
      obtain ⟨hsome, heq⟩ := Option.ite_none_right_eq_some.1 hslot
      cases heq
      exact .inl ⟨hsome, hlt⟩
    | _ => exact absurd hslot (by simp [Instruction.slot?])
  | binary | ternary | immediate | literal => exact absurd hslot (by simp [Instruction.slot?])

omit hc in
lemma slot?_of_pushesFull {v : Int32} (h : s.PushesFull c v) :
    s.slot? c = some (stackSize : Int) := by
  obtain ⟨hfull, r, hpush, hv⟩ := h
  rw [State.slot?, hpush, ← hfull]
  simp [Instruction.slot?, hv]

/-- The next cycle reports an error, or leaves the stack pointer on a slot. -/
def State.Settles (c : Config) (s : State) : Prop :=
  (∃ e, s.EndsIn c (.reported e)) ∨
    ∃ a s', cycle Table.builtin c s = .ok a s' ∧ s'.machine.InRange

omit hc in
lemma Moves.settles {p : Prop} {n : Int} {e : Error} (h : Moves p n e (cycle Table.builtin c) s)
    (hn : p → 0 ≤ n ∧ n < stackSize) : s.Settles c := by
  by_cases hp : p
  case pos =>
    obtain ⟨a, s', hcycle, hsp⟩ := h.1 hp
    exact .inr ⟨a, s', hcycle, by rw [Machine.InRange, hsp]; exact hn hp⟩
  case neg => exact .inl ⟨e, h.2 hp⟩

omit hc in
/-- A cycle that ends early does not move the pointer. -/
lemma Moves.not_of_endsIn {p : Prop} {n : Int} {e : Error} (h : Moves p n e (cycle Table.builtin c) s)
    {halt : Halt} (hends : s.EndsIn c halt) : ¬p := by
  intro hp
  obtain ⟨a, s', hok, -⟩ := h.1 hp
  obtain ⟨s'', hend⟩ := hends
  cases hok.symm.trans hend

lemma settles_push {r : UInt8} (hrange : s.machine.InRange)
    (h : s.instruction? c = some (.unary .push r)) : s.Settles c := by
  have ⟨hpos, hlt⟩ := hrange
  cases hv : s.machine.integer? r with
  | none => exact .inl ⟨_, endsIn_notInteger_of_push hc h hv⟩
  | some v => exact (moves_push hc h hv hrange).settles fun hroom => ⟨by omega, hroom⟩

/-- **An operation on the stack reports an error or leaves the pointer on a slot.** -/
lemma settles (hrange : s.machine.InRange) (hop : s.Executes stackOperations) : s.Settles c := by
  obtain ⟨op, hop, hbyte⟩ := hop
  obtain ⟨i, hi, hopcode⟩ | hreport := exists_instruction? hc hbyte
  case inr => exact .inl ⟨_, hreport⟩
  have ⟨hpos, hlt⟩ := hrange
  simp only [stackOperations, List.mem_cons, List.not_mem_nil, or_false] at hop
  obtain rfl | rfl | rfl | rfl := hop
  · obtain ⟨r, rfl⟩ := eq_unary_of_opcode hopcode
    exact settles_push hc hrange hi
  · obtain ⟨r, rfl⟩ := eq_unary_of_opcode hopcode
    exact (moves_pop hc hi hrange).settles fun _ => by omega
  · obtain ⟨t, rfl⟩ := eq_branch_of_opcode hopcode
    exact (moves_call hc hi hpos).settles fun _ => by omega
  · cases eq_plain_of_opcode hopcode
    exact (moves_ret hc hi hrange).settles fun _ => by omega

/-- A call on a full stack is reported. -/
lemma endsIn_callStackFull (hfull : s.machine.sp + 1 = stackSize)
    (hop : s.Executes [.branch .call]) : s.EndsIn c (.reported .callStackFull) := by
  obtain ⟨op, hop, hbyte⟩ := hop
  cases List.mem_singleton.1 hop
  obtain ⟨i, hi, hopcode⟩ | hreport := exists_instruction? hc hbyte
  case inr =>
    -- a call has no register operand that could be reported
    obtain ⟨r, hr, -⟩ := (endsIn_registerOutOfBounds_iff hc hbyte).1 hreport
    exact absurd hr List.not_mem_nil
  obtain ⟨t, rfl⟩ := eq_branch_of_opcode hopcode
  have hsize : (0 : Int) < stackSize := by decide
  exact (moves_call hc hi (by omega)).2 (by omega)

/-- A pop from an empty stack, or a return, is reported. -/
lemma exists_endsIn_of_empty (hempty : s.machine.sp = 0)
    (hop : s.Executes [.unary .pop, .plain .ret]) : ∃ e, s.EndsIn c (.reported e) := by
  have hrange : s.machine.InRange := by
    rw [Machine.InRange, hempty]
    decide
  have hsp : ¬0 < s.machine.sp := by omega
  obtain ⟨op, hop, hbyte⟩ := hop
  obtain ⟨i, hi, hopcode⟩ | hreport := exists_instruction? hc hbyte
  case inr => exact ⟨_, hreport⟩
  simp only [List.mem_cons, List.not_mem_nil, or_false] at hop
  obtain rfl | rfl := hop
  · obtain ⟨r, rfl⟩ := eq_unary_of_opcode hopcode
    exact ⟨_, (moves_pop hc hi hrange).2 hsp⟩
  · cases eq_plain_of_opcode hopcode
    exact ⟨_, (moves_ret hc hi hrange).2 hsp⟩

/-- **Every cycle that starts with the pointer on a slot is sound for the stack.**

**Proof sketch.** A slot that is not there is reached for only if the pointer is not on a slot, by
`instruction?_of_trapped`. Only the four operations on the stack move the pointer, and each of them moves
it to a slot or reports an error. -/
theorem stackSound (hrange : s.machine.InRange) : s.StackSound c := by
  constructor
  case present =>
    intro j htrap
    obtain ⟨i, -, -, hout⟩ := instruction?_of_trapped hc htrap
    obtain ⟨hpos, hlt⟩ := hrange
    omega
  case pointer =>
    intro a s' hcycle
    by_cases hstack : .stack ∈ s.footprint
    · obtain ⟨op, hbyte, hop⟩ := s.exists_of_mem_footprint hstack
      obtain ⟨e, s'', hreport⟩ | ⟨a', s'', hcycle', hin⟩ :=
        settles hc hrange ⟨op, mem_stackOperations hop, hbyte⟩
      · exact absurd (hcycle.symm.trans hreport) (by simp)
      · cases hcycle.symm.trans hcycle'
        exact hin
    · -- no other operation moves the pointer
      have hsame := same_cycle c hstack
      rw [hcycle] at hsame
      have hsp : s'.machine.sp = s.machine.sp := hsame.1
      rw [Machine.InRange, hsp]
      exact hrange
  case pushed =>
    intro v hfull
    obtain ⟨s', -, hcycle⟩ := cycle_push_of_full hc hfull
    exact ⟨s', hcycle⟩
  case called => exact endsIn_callStackFull hc
  case popped => exact exists_endsIn_of_empty hc

/-- A cycle that starts with the pointer on a slot is safe for the stack, unless it pushes onto a full
stack. -/
lemma stackSafe_iff (hrange : s.machine.InRange) : s.StackSafe c ↔ ∀ v, ¬s.PushesFull c v := by
  refine ⟨fun h v hfull => ?_, fun hfull => ⟨stackSound hc hrange, fun j hj => ?_⟩⟩
  · exact Int.lt_irrefl _ (h.slots _ (slot?_of_pushesFull hfull)).2
  · obtain hin | ⟨v, hv⟩ := pushesFull_of_slot? hrange hj
    · exact hin
    · exact absurd hv (hfull v)

end Operations

/-! ## Which runs are safe -/

/-- **The pointer stays on a slot in every run**, under a host that stops at reports.

**Proof sketch.** By induction on the number of cycles. Each of them is sound for the stack, since it
starts with the pointer on a slot, and the limit does not concern the stack. -/
theorem inRange_run {c : Config} (hc : c.policy ≠ .resume) {depth : Nat} {limit : Int} {s : State}
    {k : Nat} (hstart : s.machine.InRange)
    (hk : (run Table.builtin c depth limit k s).ending = .outOfFuel) :
    (run Table.builtin c depth limit k s).state.machine.InRange := by
  have hsegment := segment_proceed hk
  have hinv (l : Nat) (hl : l ≤ k) :
      (run Table.builtin c depth limit l s).state.machine.InRange := by
    induction l with
    | zero => exact hstart
    | succ l ih =>
      have hsound := stackSound hc (ih (by omega))
      obtain ⟨a, s', hcycle, hstack, -⟩ := hsegment.exists_cycle hl
      have hsp : (run Table.builtin c depth limit (l + 1) s).state.machine.sp = s'.machine.sp :=
        hstack.1
      rw [Machine.InRange, hsp]
      exact hsound.pointer a s' hcycle
  exact hinv k (Nat.le_refl k)

/-- The stack of a new machine is empty. -/
lemma inRange_of_load? {image : Bytes} {m : Machine} (h : Machine.load? image = some m) :
    m.InRange := by
  rw [(eq_loaded_of_load? h).2]
  exact ⟨Int.le_refl 0, show (0 : Int) < stackSize by decide⟩

/-- **Every run from a new machine is sound for the stack, and it is safe as long as it pushes nothing
onto a full stack.** Here a host that stops at reports runs any program, with any limit and for any number
of cycles. Of each cycle that is carried out:

* It makes no access to a slot that is not there. The pointer is on a slot after it, unless it reports
  something. A push or a call on a full stack is reported, whatever is pushed, and a pop or a return on
  an empty one.
* It reads and writes no slot but those from 1 to 1023, if and only if it does not push onto a full stack.
* It neither reads nor writes any other slot than the one that it is said to.
* A push onto a full stack reaches the slot behind the last one, which is the stack pointer. When it is
  reported, the number that was pushed has become the pointer.

**Proof sketch.** The pointer of a new machine is on a slot, and by `inRange_run` it stays on one, so
this is `stackSound` and `stackSafe_iff` for each cycle. The slots are those of `blind_cycle`. -/
theorem run_stackSafe_iff {image : Bytes} {s : State} (hload : Machine.load? image = some s.machine)
    {c : Config} (hc : c.policy ≠ .resume) (depth : Nat) (limit : Int) :
    (∀ k, (run Table.builtin c depth limit k s).Going →
      (run Table.builtin c depth limit k s).state.StackSound c ∧
      ((run Table.builtin c depth limit k s).state.StackSafe c ↔
        ∀ v, ¬(run Table.builtin c depth limit k s).state.PushesFull c v)) ∧
    (∀ (s' : State) (j : Fin stackSize) (v : Int32), s'.slot? c ≠ some (j.val : Int) →
      Blind (.slot j v) (cycle Table.builtin c) s') ∧
    ∀ (s' : State) (v : Int32), s'.PushesFull c v →
      s'.slot? c = some (stackSize : Int) ∧
      ∃ s'', s''.machine.sp = v.toInt ∧
        cycle Table.builtin c s' = .error (.reported .stackFull) s'' := by
  refine ⟨fun k hgoing => ?_, fun s' j v hslot => ?_, fun s' v hfull => ?_⟩
  · have hrange := inRange_run hc (inRange_of_load? hload) hgoing.1
    exact ⟨stackSound hc hrange, stackSafe_iff hc hrange⟩
  · refine blind_cycle hc fun hreaches => hslot ?_
    obtain ⟨i, hi, hreached⟩ := hreaches
    rw [State.slot?, hi]
    exact hreached
  · exact ⟨slot?_of_pushesFull hfull, cycle_push_of_full hc hfull⟩

/-- A program that pushes the number in the first register again and again. -/
def pushForever : Bytes :=
  [(Opcode.unary .push).toByte, 0, (Opcode.branch .jump).toByte, 0, 0]

/-- A state in which that program is about to push, and has pushed 0 so many times. -/
structure PushesNext (k : Nat) (s : State) : Prop where
  ram : s.machine.ram = Ram.ofBytes pushForever
  ip : s.machine.ip = 0
  register : s.machine.integer? 0 = some 0
  sp : s.machine.sp = k
  running : s.machine.running = true

section PushForever

variable {k : Nat} {s : State} (h : PushesNext k s)

include h

lemma PushesNext.instruction? (c : Config) : s.instruction? c = some (.unary .push 0) := by
  have hcode : s.At pushForever := at_of_ofBytes h.ram h.ip (by decide)
  have hfirst : s.operand 1 = 0 := hcode.operand_eq rfl
  have hread := @fetchInstruction_unary c s .push (by rw [hfirst]; decide)
  rw [hfirst] at hread
  exact State.instruction?_eq_some_iff.2 ⟨hcode.opcode_eq, _, hread⟩

/-- As long as there is room, the program pushes and jumps back. -/
lemma PushesNext.two_cycles (hk : k + 1 < stackSize) :
    ∃ a s₁ a' s₂, cycle Table.builtin {} s = .ok a s₁ ∧ s₁.machine.running = true ∧
      cycle Table.builtin {} s₁ = .ok a' s₂ ∧ PushesNext (k + 1) s₂ := by
  have hsp := h.sp
  obtain ⟨stack, hset⟩ := setSlot?_of_lt ((s.fetched {} 0 0x70).seek 1).raised.machine
    (show 0 ≤ s.machine.sp + 1 by omega) (by omega) 0
  have hslot := push_apply (c := {}) (by decide) 0 ((s.fetched {} 0 0x70).seek 1)
  have hroom : ¬(stackSize : Int) ≤ ((s.fetched {} 0 0x70).seek 1).machine.sp + 1 := by
    change ¬(stackSize : Int) ≤ s.machine.sp + 1
    omega
  have hset' : ((s.fetched {} 0 0x70).seek 1).raised.machine.setSlot?
      (((s.fetched {} 0 0x70).seek 1).machine.sp + 1) 0 = _ := hset
  rw [hset'] at hslot
  replace hslot := hslot.trans (if_neg hroom)
  have hinteger := intOf_of_integer? {} (s := (s.fetched {} 0 0x70).seek 1) h.register
  have hrun : executeUnary {} 0 .push ((s.fetched {} 0 0x70).seek 1) = .ok () _ :=
    (bind_ok hinteger).trans (bind_ok hslot)
  have hpush := @cycle_of_drop pushForever _ _ s 0 h.ram h.ip rfl {} (by decide)
    (List.forall_mem_singleton.2 (by decide))
  have hpushed := hpush.trans (bind_ok hrun)
  have hjump (s₁ : State) (hram : s₁.machine.ram = Ram.ofBytes pushForever)
      (hip : s₁.machine.ip = 2) :=
    @cycle_of_drop pushForever _ _ s₁ 2 hram hip rfl {} (by decide) (List.forall_mem_nil _)
  refine ⟨_, _, _, _, hpushed, h.running, hjump _ h.ram rfl, h.ram, rfl, h.register, ?_, h.running⟩
  exact_mod_cast congrArg (· + 1) h.sp

/-- The run goes on from a state in which the number has been pushed more often. -/
lemma PushesNext.proceed (j : Nat) (hj : k + j < stackSize) (q : Progress) :
    ∃ q' s', PushesNext (k + j) s' ∧ ∀ fuel,
      proceed Table.builtin {} 0 0 (2 * j + fuel) q s =
        proceed Table.builtin {} 0 0 fuel q' s' := by
  induction j generalizing k s q with
  | zero => exact ⟨q, s, h, fun fuel => by rw [Nat.mul_zero, Nat.zero_add]⟩
  | succ j ih =>
    obtain ⟨a, s₁, a', s₂, hpush, hrunning, hjump, hnext⟩ := h.two_cycles (by omega)
    obtain ⟨q', s', hlast, hrest⟩ := ih hnext (by omega)
      ((q.after 0 s a s₁).after 0 s₁ a' s₂)
    refine ⟨q', s', by rwa [Nat.add_comm j, ← Nat.add_assoc], fun fuel => ?_⟩
    rw [show 2 * (j + 1) + fuel = 2 * j + fuel + 1 + 1 by omega,
      proceed_of_cycle 0 0 _ q h.running hpush, State.limited_zero,
      proceed_of_cycle 0 0 _ _ hrunning hjump, State.limited_zero, hrest]

lemma PushesNext.pushesFull (hk : k + 1 = stackSize) (c : Config) : s.PushesFull c 0 :=
  ⟨by rw [h.sp]; exact_mod_cast hk, 0, h.instruction? c, h.register⟩

end PushForever

/-- After 2046 cycles of the program the stack is full. -/
lemma exists_full_pushForever :
    ∃ q s, PushesNext 1023 s ∧ ∀ fuel,
      run Table.builtin {} 0 0 (2046 + fuel) (loaded pushForever) =
        proceed Table.builtin {} 0 0 fuel q s := by
  have hstart : PushesNext 0 (loaded pushForever) := ⟨rfl, rfl, rfl, rfl, rfl⟩
  exact hstart.proceed 1023 (by decide) (Progress.start (loaded pushForever))

theorem run_stackSafe_iff_pushForever :
    Machine.load? pushForever = some (loaded pushForever).machine ∧
      (run Table.builtin {} 0 0 2046 (loaded pushForever)).Going ∧
      (run Table.builtin {} 0 0 2046 (loaded pushForever)).state.StackSound {} ∧
      ¬(run Table.builtin {} 0 0 2046 (loaded pushForever)).state.StackSafe {} := by
  have hload : Machine.load? pushForever = some (loaded pushForever).machine := rfl
  obtain ⟨hsafe, -, -⟩ := run_stackSafe_iff hload (c := {}) (by decide) 0 0
  obtain ⟨q, s, hnext, hrun⟩ := exists_full_pushForever
  have hstate : run Table.builtin {} 0 0 2046 (loaded pushForever) =
      proceed Table.builtin {} 0 0 0 q s := hrun 0
  have hgoing : (run Table.builtin {} 0 0 2046 (loaded pushForever)).Going := by
    rw [hstate]
    exact ⟨rfl, hnext.running⟩
  obtain ⟨hsound, hiff⟩ := hsafe 2046 hgoing
  refine ⟨hload, hgoing, hsound, fun h => hiff.1 h 0 ?_⟩
  rw [hstate]
  exact hnext.pushesFull (by decide) {}

/-- A push may write a slot that the stack does not have: after 1023 pushes of 0 by a program in a new
machine the stack is full, and one more push of 0 writes the slot behind the last one. When it is
reported, the stack pointer is 0. -/
theorem sp_run_pushForever :
    Machine.load? pushForever = some (loaded pushForever).machine ∧
      (run Table.builtin {} 0 0 2046 (loaded pushForever)).Going ∧
      (run Table.builtin {} 0 0 2046 (loaded pushForever)).state.machine.sp = 1023 ∧
      (run Table.builtin {} 0 0 2046 (loaded pushForever)).state.slot? {} = some 1024 ∧
      (run Table.builtin {} 0 0 2047 (loaded pushForever)).ending =
        .halted (.reported .stackFull) ∧
      (run Table.builtin {} 0 0 2047 (loaded pushForever)).state.machine.sp = 0 := by
  obtain ⟨q, s, hnext, hrun⟩ := exists_full_pushForever
  have hfull := hnext.pushesFull (by decide) {}
  obtain ⟨s', hsp, hcycle⟩ := cycle_push_of_full (c := {}) (by decide) hfull
  have hbefore : run Table.builtin {} 0 0 2046 (loaded pushForever) =
      proceed Table.builtin {} 0 0 0 q s := hrun 0
  have hafter : run Table.builtin {} 0 0 2047 (loaded pushForever) = _ :=
    (hrun 1).trans (proceed_of_error 0 0 0 q hnext.running hcycle)
  rw [hbefore, hafter]
  exact ⟨rfl, ⟨rfl, hnext.running⟩, hnext.sp, slot?_of_pushesFull hfull, rfl, hsp⟩

end RegisterMachine
