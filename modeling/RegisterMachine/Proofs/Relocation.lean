import RegisterMachine.Proofs.Decoding
import RegisterMachine.Proofs.Halts
import RegisterMachine.Proofs.Segments

/-!
# Straight-line code can be moved

The bytes of an instruction are read on the ring of all addresses, wherever it stands, and apart from a
call no instruction does anything with the address that it has. So code that goes on from each
instruction to the next does the same at one place of the memory as at another, if it does not write to
the memory. Only the pointer differs, and what is explained about it; a user who asked for no
explanations sees the same.

## Main definitions

* `Alike` — states that differ in nothing but the pointer, and in what is explained about it.
* `Opcode.isLinear` — an operation after which the machine goes on behind it, and which does not change
  the memory.
* `Relocated` — two runs of the same code at different places.

## Main results

* `related_execute` — every instruction but a call does the same wherever it stands.
* `alike_cycle` — so does a cycle, if the operands are the same.
* `proceed_relocated` — straight-line code can be moved.
-/

namespace RegisterMachine

open Effect Exec Listing

/-! ## States that differ in the pointer -/

/-- States that differ in nothing but the pointer, and in what is explained about it. -/
structure Alike (c : Config) (s s' : State) : Prop where
  /-- The machines differ in nothing but the pointer. -/
  machine : s'.machine = { s.machine with ip := s'.machine.ip }
  /-- The host will come up with the same. -/
  entropy : s'.entropy = s.entropy
  /-- Without explanations the same was printed. -/
  printed : c.verbose = false → s'.printed = s.printed

section Effects

variable {c : Config} {s s' : State}

/-- What is explained need not be the same. -/
lemma Alike.told (h : Alike c s s') (e e' : Event) : Alike c (s.told c e) (s'.told c e') := by
  refine ⟨?_, ?_, fun hc => ?_⟩
  · rw [machine_told, machine_told]
    exact h.machine
  · rw [entropy_told, entropy_told, h.entropy]
  · rw [told_of_terse s e hc, told_of_terse s' e' hc]
    exact h.printed hc

/-- The machine is changed in the same way. -/
lemma Alike.update (h : Alike c s s') {m m' : Machine} (hm : m' = { m with ip := m'.ip }) :
    Alike c { s with machine := m } { s' with machine := m' } :=
  ⟨hm, h.entropy, h.printed⟩

/-- What is printed with more events. -/
lemma printed_append (s : State) (m : Machine) (said : Array Event) (e : Entropy) :
    State.printed ⟨m, s.log ++ said, e⟩ = s.printed ++ said.toList.flatMap Event.render := by
  simp only [State.printed, Event.renderAll, Array.extract_size, Array.toList_append,
    List.flatMap_append]

/-- Outcomes that differ in nothing but the pointer lead to states that do. -/
lemma Alike.settle {α : Type} (h : Alike c s s') {v : α} {m m' : Machine}
    (hm : m' = { m with ip := m'.ip }) (e : Entropy) (said : Array Event) :
    Related (Alike c) (fun _ => False) (s.settle (.ok ⟨v, m, e, said⟩))
      (s'.settle (.ok ⟨v, m', e, said⟩)) := by
  refine .ok ⟨hm, rfl, fun hc => ?_⟩
  rw [printed_append, printed_append, h.printed hc]

/-- The pointer is not part of the stack. -/
lemma setSlot?_ip (m : Machine) (p : UInt32) (i : Int) (n : Int32) :
    ({ m with ip := p } : Machine).setSlot? i n = (m.setSlot? i n).map ({ · with ip := p }) := by
  unfold Machine.setSlot?
  split
  case isFalse => rfl
  case isTrue =>
    split
    case isTrue => rfl
    case isFalse => split <;> rfl

/-- An action that looks at the pointer. -/
def Action.Locates {α : Type} : Action α → Prop
  | .pointer => True
  | _ => False

/-- **An action that does not look at the pointer does the same wherever it stands.** -/
theorem Action.related_alike {α : Type} {a : Action α} (ha : ¬a.Locates) (h : Alike c s s') :
    Related (Alike c) (fun _ => False) (a.run c s) (a.run c s') := by
  rw [a.run_apply, a.run_apply, h.entropy, h.machine]
  cases a with
  | pointer => exact absurd trivial ha
  | flag | setZero | jump | advance | stop | memory | copyBlock | stackPointer | setStackPointer
  | draw | salvage | explain | showInt | showText | announce => exact h.settle rfl _ _
  | byteAt p =>
    have hbyte : ({ s.machine with ip := s'.machine.ip } : Machine).byteAt p = s.machine.byteAt p := by
      cases p <;> rfl
    rw [Action.outcome, Action.outcome, hbyte]
    exact h.settle rfl _ _
  | setByteAt p b => exact h.settle (by cases p <;> rfl) _ _
  | trap | kill => exact .error h
  | register r =>
    have hvalue : ({ s.machine with ip := s'.machine.ip } : Machine).register? r.toNat =
        s.machine.register? r.toNat := rfl
    rw [Action.outcome, Action.outcome, hvalue]
    cases s.machine.register? r.toNat with
    | some v => exact h.settle rfl _ _
    | none => exact .error h
  | setRegister r v =>
    rw [Action.outcome, Action.outcome]
    split
    · exact h.settle rfl _ _
    · exact .error h
  | slot i =>
    have hslot : ({ s.machine with ip := s'.machine.ip } : Machine).slot? i = s.machine.slot? i := rfl
    rw [Action.outcome, Action.outcome, hslot]
    cases s.machine.slot? i with
    | some n => exact h.settle rfl _ _
    | none => exact .error h
  | setSlot i n =>
    rw [Action.outcome, Action.outcome, setSlot?_ip s.machine s'.machine.ip]
    cases s.machine.setSlot? i n with
    | some m => exact h.settle rfl _ _
    | none => exact .error h
  | command t =>
    rw [Action.outcome, Action.outcome]
    split
    · exact h.settle rfl _ _
    · exact h.settle rfl _ _
  | allot count =>
    rw [Action.outcome, Action.outcome]
    split
    · exact h.settle rfl _ _
    · exact .error h
  | report e =>
    rw [Action.outcome, Action.outcome]
    cases c.policy with
    | resume => exact h.settle rfl _ _
    | stop | abort => exact .error h

/-- **Every instruction but a call does the same wherever it stands.**

**Proof sketch.** A call is the only instruction that looks at the pointer. -/
theorem related_execute {i : Instruction} (hi : i.opcode ≠ .branch .call) (h : Alike c s s') :
    Related (Alike c) (fun _ => False) (execute c i s) (execute c i s') := by
  refine (completes_execute c i s).composed.related (fun a t t' hdoes ht => ?_) h
  refine Action.related_alike (fun hlocates => ?_) ht
  cases a with
  | pointer => exact hi hdoes
  | _ => exact hlocates

end Effects

/-! ## Cycles -/

/-- The pointers are moved. -/
lemma Alike.seek {c : Config} {s s' : State} (h : Alike c s s') (n n' : Nat) :
    Alike c (s.seek n) (s'.seek n') := by
  refine h.update ?_
  rw [h.machine]

/-- Reading the operands moves the pointer, and what it tells of is an explanation. -/
lemma Alike.reading {c : Config} {s s' : State} (h : Alike c s s') (k k' : Nat) :
    Alike c (s.reading c k) (s'.reading c k') :=
  ((h.seek _ _).told _ _).seek _ _

/-- The operands of an operation are the bytes behind its opcode. -/
lemma operands_congr {s s' : State} {op : Opcode}
    (h : ∀ k ≤ (s.operands op).2, s'.operand k = s.operand k) : s'.operands op = s.operands op := by
  cases op with
  | plain op => rfl
  | unary op => simp only [State.operands, h 1 (Nat.le_refl 1)]
  | binary op =>
    have hle : 2 ≤ (s.operands (.binary op)).2 := Nat.le_refl 2
    simp only [State.operands, h 1 (by omega), h 2 hle]
  | ternary op =>
    have hle : 3 ≤ (s.operands (.ternary op)).2 := Nat.le_refl 3
    simp only [State.operands, h 1 (by omega), h 2 (by omega), h 3 hle]
  | branch op =>
    have hle : 2 ≤ (s.operands (.branch op)).2 := Nat.le_refl 2
    simp only [State.operands, State.operandWord, h 1 (by omega), h 2 hle]
  | immediate op =>
    have hle : 3 ≤ (s.operands (.immediate op)).2 := Nat.le_refl 3
    simp only [State.operands, State.operandWord, h 1 (by omega), h 2 (by omega), h 3 hle]
  | literal op =>
    have hle : (s.operands (.literal op)).2 = 3 + (s.operandWord 2).toNat := rfl
    have hword : s'.operandWord 2 = s.operandWord 2 := by
      rw [State.operandWord, State.operandWord, h 2 (by omega), h 3 (by omega)]
    have hbytes : s'.operandBytes 3 (s.operandWord 2).toNat =
        s.operandBytes 3 (s.operandWord 2).toNat := by
      refine List.map_congr_left fun j hj => h _ ?_
      have hlt := List.mem_range.1 hj
      omega
    simp only [State.operands, h 1 (by omega), hword, hbytes]

/-- **An operation other than a call does the same wherever it stands**, if its operands are the same.

**Proof sketch.** The same operands pass the checks, and then the same instruction is carried out from
states that are alike, by `related_execute`. -/
theorem alike_cycle {c : Config} (hc : c.policy ≠ .resume) {s s' : State} (h : Alike c s s')
    {op : Opcode} (hcall : op ≠ .branch .call) (hop : s.opcode = op.toByte)
    (hsame : ∀ k ≤ (s.operands op).2, s'.operand k = s.operand k) :
    Related (Alike c) (fun _ => False) (cycle Table.builtin c s) (cycle Table.builtin c s') := by
  have hop' : s'.opcode = op.toByte := by
    rw [State.opcode_eq_operand, hsame 0 (Nat.zero_le _), ← State.opcode_eq_operand, hop]
  have hoperands := operands_congr hsame
  have hchecks : s'.checkedOperands op = s.checkedOperands op := by
    rw [State.checkedOperands, State.checkedOperands, ← State.registers_operands,
      ← State.registers_operands, hoperands]
  by_cases hchecked : ∀ r ∈ s.checkedOperands op, r.toNat < registerCount
  case pos =>
    have hfetch := fetchInstruction_of_checked c hchecked
    rw [← hchecks] at hchecked
    have hfetch' := fetchInstruction_of_checked c hchecked
    rw [hoperands] at hfetch'
    rw [cycle_of_fetch hop hfetch, cycle_of_fetch hop' hfetch', hop, hop']
    have hcall' : (s.operands op).1.opcode ≠ .branch .call := by rwa [s.opcode_operands op]
    exact (related_execute hcall' ((h.reading _ _).told _ _)).bind fun _ _ _ _ ht => .ok ht
  case neg =>
    have hout : ∃ r ∈ s.checkedOperands op, registerCount ≤ r.toNat := by simpa using hchecked
    obtain ⟨k, hfetch⟩ := fetchInstruction_of_outside hc hout
    rw [← hchecks] at hout
    obtain ⟨k', hfetch'⟩ := fetchInstruction_of_outside hc hout
    rw [cycle_of_fetch_error hop hfetch, cycle_of_fetch_error hop' hfetch']
    exact .error (h.reading k k')

/-! ## Straight-line code -/

/-- The operations after which the machine goes on behind them, and which neither write to the memory nor
run a command. -/
def Opcode.isLinear : Opcode → Bool
  | .plain .exit | .plain .ret | .unary .shell | .binary .poke | .ternary .copyBlock | .branch _ =>
    false
  | _ => true

/-- After a linear operation the machine goes on behind it. -/
lemma successor_of_isLinear {i : Instruction} (h : i.opcode.isLinear = true) (m : Machine)
    (behind : UInt32) : i.successor m behind = some behind := by
  cases i with
  | plain op =>
    cases op with
    | nop => rfl
    | exit | ret => cases h
  | branch => cases h
  | unary | binary | ternary | immediate | literal => rfl

section Lines

variable {op : Opcode} {t : Bytes} {s : State}

/-- The bytes that are read are those of the line. -/
lemma State.At.operand_succ (h : s.At (op.toByte :: t)) {k : Nat} (hk : k < t.length) :
    s.operand (k + 1) = Listing.operand t k := by
  rw [Listing.operand, List.getD_eq_getElem?_getD, List.getElem?_eq_getElem hk, Option.getD_some]
  exact h.operand_eq (List.getElem?_eq_getElem hk)

/-- So many bytes are read as the line has. -/
lemma State.At.length_operands (h : s.At (op.toByte :: t))
    (hline : (Listing.operands t op).2 ≤ t.length) :
    (s.operands op).2 = (Listing.operands t op).2 := by
  cases op with
  | literal op =>
    -- the length of the text is an operand
    have hlength : 3 ≤ t.length := Nat.le_trans (Nat.le_add_right 3 _) hline
    have hword : s.operandWord 2 = Listing.operandWord t 1 := by
      rw [State.operandWord, Listing.operandWord, h.operand_succ (k := 1) (by omega),
        h.operand_succ (k := 2) (by omega)]
    simp only [State.operands, Listing.operands, hword]
  | plain | unary | binary | ternary | branch | immediate => rfl

variable {c : Config} (hc : c.policy ≠ .resume)

include hc

/-- After a linear operation the machine goes on behind its operands. -/
lemma ofPointer_of_linear (hlinear : op.isLinear = true) (hop : s.opcode = op.toByte)
    {v : UInt8 × Bool} {s' : State} (hrun : cycle Table.builtin c s = .ok v s') :
    Address.ofPointer s'.machine.ip =
      Address.onRing ((Address.ofPointer s.machine.ip).val + 1 + (s.operands op).2) := by
  by_cases hchecked : ∀ r ∈ s.checkedOperands op, r.toNat < registerCount
  case neg =>
    obtain ⟨s'', hends⟩ := endsIn_of_outside hc hop (by simpa using hchecked)
    exact absurd (hends.symm.trans hrun) (by simp)
  case pos =>
    have hi := s.opcode_operands op
    rw [cycle_of_fetch hop (fetchInstruction_of_checked c hchecked)] at hrun
    obtain ⟨_, s₂, hexecute, hpure⟩ := of_bind_ok hrun
    cases hpure
    generalize (s.operands op).1 = i at hi hexecute
    subst hi
    have hgoes := execute_successor (by rintro r rfl; cases hlinear) hexecute
      fun hresume => absurd hresume hc
    rw [successor_of_isLinear hlinear, Option.some.injEq, machine_told, machine_reading] at hgoes
    rw [hgoes]
    refine (ofPointer_toPointer_succ _).trans ?_
    rw [onRing_add, Nat.add_right_comm]

/-- **A linear line leads to the code behind it.**

**Proof sketch.** The pointer moves behind the line by `ofPointer_of_linear`, and no linear operation
changes the memory or stops the machine. -/
theorem State.At.step (hlinear : op.isLinear = true) (h : s.At (op.toByte :: t))
    (hline : (Listing.operands t op).2 ≤ t.length) {v : UInt8 × Bool} {s' : State}
    (hrun : cycle Table.builtin c s = .ok v s') :
    s'.At (t.drop (Listing.operands t op).2) ∧
      Address.ofPointer s'.machine.ip =
        Address.onRing ((Address.ofPointer s.machine.ip).val + 1 + (Listing.operands t op).2) ∧
      s'.machine.running = s.machine.running := by
  have hwrites : ¬s.Executes memoryWriters := by
    rw [State.executes_iff h.opcode_eq]
    intro hmem
    simp only [memoryWriters, List.mem_cons, List.not_mem_nil, or_false] at hmem
    rcases hmem with rfl | rfl <;> cases hlinear
  have hexits : ¬s.Executes [.plain .exit] := by
    rw [State.executes_iff h.opcode_eq]
    intro hmem
    cases List.mem_singleton.1 hmem
    cases hlinear
  have hram : s'.machine.ram = s.machine.ram :=
    same_of_not_executes (p := .ram) hrun hwrites mem_memoryWriters
  have hrunning : s'.machine.running = s.machine.running :=
    same_of_not_executes (p := .running) hrun hexits fun hmem => by simp [eq_exit hmem]
  have hip := ofPointer_of_linear hc hlinear h.opcode_eq hrun
  rw [h.length_operands hline] at hip
  refine ⟨?_, hip, hrunning⟩
  rw [Nat.add_assoc] at hip
  have hbehind := h.drop hram hip
  rwa [Nat.add_comm 1, List.drop_succ_cons] at hbehind

end Lines

/-! ## Runs -/

/-- Two runs of the same code of `m` bytes at different places. -/
structure Relocated (c : Config) (a d m : Nat) (r r' : Run) : Prop where
  /-- The runs end in the same way. -/
  ending : r'.ending = r.ending
  /-- The last line has been carried out, or something has ended the run early. -/
  finished : r.ending = .outOfFuel ∨ ∃ h, r.ending = .halted h
  /-- They carry out as many cycles. -/
  cycles : r'.cycles = r.cycles
  /-- They do the same to everything but the pointer. -/
  state : Alike c r.state r'.state
  /-- Each goes on behind the code, if nothing has ended it early. -/
  next : r.ending = .outOfFuel →
    Address.ofPointer r.state.machine.ip = Address.onRing (a + m) ∧
      Address.ofPointer r'.state.machine.ip = Address.onRing (d + m)

/-- A linear line is that of a linear operation. -/
lemma exists_isLinear {b : UInt8} {t : Bytes}
    (h : ∃ i, (decode b t).1 = .instruction i ∧ i.opcode.isLinear = true) :
    ∃ op : Opcode, b = op.toByte ∧ op.isLinear = true := by
  obtain ⟨i, hline, hlinear⟩ := h
  rw [decode] at hline
  split at hline
  case h_2 => cases hline
  case h_1 op hop =>
    cases hline
    rw [opcode_operands] at hlinear
    exact ⟨op, Opcode.ofByte?_eq_some_iff.1 hop, hlinear⟩

/-- **Two runs of straight-line code go line by line.**

**Proof sketch.** By induction along the lines. By `alike_cycle` both runs carry out the line alike; if
it does not end them, both are at the code behind it by `State.At.step`. -/
theorem relocated_proceed {code : Bytes} (hcomplete : Complete code) {n : Nat}
    (hlinear : ∀ e ∈ entriesAfter [] n code,
      ∃ i, e.line = .instruction i ∧ i.opcode.isLinear = true)
    {c : Config} (hc : c.policy ≠ .resume) (depth : Nat) {a d : Nat} {q q' : Progress}
    {s s' : State} (hq : q'.cycles = q.cycles) (h : Alike c s s')
    (hrunning : s.machine.running = true) (ha : s.At code)
    (hip : Address.ofPointer s.machine.ip = Address.onRing a) (hd : s'.At code)
    (hip' : Address.ofPointer s'.machine.ip = Address.onRing d) :
    Relocated c a d code.length
      (proceed Table.builtin c depth 0 (entriesAfter [] n code).length q s)
      (proceed Table.builtin c depth 0 (entriesAfter [] n code).length q' s') := by
  induction hcomplete generalizing n a d q q' s s' with
  | nil =>
    rw [entriesAfter_nil]
    exact ⟨rfl, .inl rfl, hq, h, fun _ => ⟨hip, hip'⟩⟩
  | @cons b t hline hrest ih =>
    rw [entriesAfter_cons] at hlinear ⊢
    obtain ⟨op, rfl, hop⟩ := exists_isLinear (hlinear _ List.mem_cons_self)
    rw [decode_toByte] at hline ih hlinear ⊢
    simp only at hline ih hlinear ⊢
    have hsame (k : Nat) (hk : k ≤ (s.operands op).2) : s'.operand k = s.operand k := by
      rw [ha.length_operands hline] at hk
      have hlt : k < (op.toByte :: t).length := by
        rw [List.length_cons]
        omega
      exact hd.operand_eq (ha k hlt)
    have hcall : op ≠ .branch .call := by
      rintro rfl
      cases hop
    have hrunning' : s'.machine.running = true := by
      rw [h.machine]
      exact hrunning
    have hcycles := alike_cycle hc h hcall ha.opcode_eq hsame
    simp only [List.length_cons]
    generalize hrun : cycle Table.builtin c s = x at hcycles
    generalize hrun' : cycle Table.builtin c s' = x' at hcycles
    cases hcycles with
    | @ok v s₁ s₁' hstates =>
      rw [proceed_of_cycle _ _ _ _ hrunning hrun, proceed_of_cycle _ _ _ _ hrunning' hrun',
        State.limited_zero, State.limited_zero]
      have hcount : (q'.after depth s' v s₁').cycles = (q.after depth s v s₁).cycles := by
        rw [q.cycles_after, q'.cycles_after, hq]
      obtain ⟨hnext, hpointer, hgoing⟩ := ha.step hc hop hline hrun
      obtain ⟨hnext', hpointer', -⟩ := hd.step hc hop hline hrun'
      rw [hip, Nat.add_assoc, onRing_add, ← Nat.add_assoc] at hpointer
      rw [hip', Nat.add_assoc, onRing_add, ← Nat.add_assoc] at hpointer'
      have hbehind := ih (fun e he => hlinear e (List.mem_cons_of_mem _ he)) hcount hstates
        (hgoing.trans hrunning) hnext hpointer hnext' hpointer'
      have hadd (p : Nat) : p + 1 + (Listing.operands t op).2 +
          (t.drop (Listing.operands t op).2).length = p + (t.length + 1) := by
        rw [List.length_drop]
        omega
      refine { hbehind with next := fun hfuel => ?_ }
      rw [← hadd, ← hadd]
      exact hbehind.next hfuel
    | error hstates =>
      rw [proceed_of_error _ _ _ _ hrunning hrun, proceed_of_error _ _ _ _ hrunning' hrun']
      exact ⟨rfl, .inr ⟨_, rfl⟩, hq, hstates, fun hfuel => by cases hfuel⟩
    | free hfree => exact hfree.elim

/-- The pointer is set to an address. -/
lemma ofPointer_seek (s : State) (a : Address) :
    Address.ofPointer (s.seek a.val).machine.ip = Address.onRing a.val := by
  have hring : Address.onRing a.val = a := Fin.ext (Nat.mod_eq_of_lt a.isLt)
  rw [hring]
  exact a.ofPointer_toPointer

/-- **Straight-line code can be moved.** Let a running machine hold the same code at two addresses; both
copies may go on at the beginning of the memory from its end. Let all lines of the code be complete, and
let each be a known instruction that is no jump, call or return, does not stop the machine, does not
write to the memory and runs no command. Then, under a host that stops at reports, the machine does the
same whether its pointer is set to the one address or to the other, for as many cycles as the code has
lines:

* It ends with the same error, or with none in both cases.
* Registers, flag, stack, stack pointer and memory are the same, as is what the host will come up with,
  and what a user sees who asked for no explanations.
* If there was no error, the next opcode is fetched from directly behind the code, on the ring of all
  addresses.

**Proof sketch.** The two runs are compared line by line in `relocated_proceed`. -/
theorem proceed_relocated {code : Bytes} {s : State} (hrunning : s.machine.running = true)
    (hcomplete : Complete code)
    (hlinear : ∀ e ∈ entries code, ∃ i, e.line = .instruction i ∧ i.opcode.isLinear = true)
    {a d : Address} (ha : s.machine.ram.Holds a.val code) (hd : s.machine.ram.Holds d.val code)
    {c : Config} (hc : c.policy ≠ .resume) (depth : Nat) (q : Progress) :
    Relocated c a.val d.val code.length
      (proceed Table.builtin c depth 0 (entries code).length q (s.seek a.val))
      (proceed Table.builtin c depth 0 (entries code).length q (s.seek d.val)) := by
  have halike : Alike c (s.seek a.val) (s.seek d.val) := ⟨rfl, rfl, fun _ => rfl⟩
  exact relocated_proceed hcomplete hlinear hc depth rfl halike hrunning (at_seek ha)
    (ofPointer_seek s a) (at_seek hd) (ofPointer_seek s d)

/-- Code that stores a text and prints it, and stores a number, counts it up and pushes it. -/
def tile : Bytes :=
  [(Opcode.literal .store).toByte, 1, 1, 0, byte 'x', (Opcode.unary .printText).toByte, 1,
    (Opcode.immediate .store).toByte, 2, 7, 0, (Opcode.unary .inc).toByte, 2,
    (Opcode.unary .push).toByte, 2]

/-- A memory that is tiled with this code all around the ring. One tile begins two bytes before the end
of the memory. -/
def tiling : Ram := Vector.ofFn fun a => tile.getD ((a.val + 2) % 15) 0

/-- Every tile holds the code. -/
lemma holds_tiling {a : Nat} (ha : (a + 2) % 15 = 0) : tiling.Holds a tile := by
  intro k hk
  have hbyte : tiling.get (Address.onRing (a + k)) = tile.getD (((a + k) % 65535 + 2) % 15) 0 :=
    Vector.getElem_ofFn (Address.onRing (a + k)).isLt
  have hlength : k < 15 := hk
  have hindex : ((a + k) % 65535 + 2) % 15 = k := by omega
  rw [hbyte, hindex, List.getD_eq_getElem?_getD, List.getElem?_eq_getElem hk, Option.getD_some]

/-- A machine with this memory. -/
def tiled : State := { loaded [] with machine.ram := tiling }

lemma entries_tile : entries tile =
    [⟨0, .instruction (.literal .store 1 [byte 'x'])⟩, ⟨5, .instruction (.unary .printText 1)⟩,
      ⟨7, .instruction (.immediate .store 2 7)⟩, ⟨11, .instruction (.unary .inc 2)⟩,
      ⟨13, .instruction (.unary .push 2)⟩] := by
  have hpush : entriesAfter [] 13 [0x70, 2] = [⟨13, .instruction (.unary .push 2)⟩] :=
    (entriesAfter_cons _ _ _).trans (congrArg _ (entriesAfter_nil [] 15))
  have hinc : entriesAfter [] 11 [0x25, 2, 0x70, 2] = ⟨11, .instruction (.unary .inc 2)⟩ :: _ :=
    (entriesAfter_cons _ _ _).trans (congrArg _ hpush)
  have hstore : entriesAfter [] 7 [0x01, 2, 7, 0, 0x25, 2, 0x70, 2] =
      ⟨7, .instruction (.immediate .store 2 7)⟩ :: _ :=
    (entriesAfter_cons _ _ _).trans (congrArg _ hinc)
  have hprint : entriesAfter [] 5 [0x31, 1, 0x01, 2, 7, 0, 0x25, 2, 0x70, 2] =
      ⟨5, .instruction (.unary .printText 1)⟩ :: _ :=
    (entriesAfter_cons _ _ _).trans (congrArg _ hstore)
  exact (entriesAfter_cons _ _ _).trans (congrArg _ hprint)

/-- One of the two tiles goes on at the beginning of the memory, from within the operands of its first
line. -/
theorem proceed_relocated_tiled :
    tiled.machine.running = true ∧ Complete tile ∧
      (∀ e ∈ entries tile, ∃ i, e.line = .instruction i ∧ i.opcode.isLinear = true) ∧
      tiled.machine.ram.Holds 13 tile ∧ tiled.machine.ram.Holds 65533 tile ∧
      Relocated {} 13 65533 15
        (proceed Table.builtin {} 0 0 5 (Progress.start tiled) (tiled.seek 13))
        (proceed Table.builtin {} 0 0 5 (Progress.start tiled) (tiled.seek 65533)) := by
  have hcomplete : Complete tile :=
    .cons (by decide) (.cons (by decide) (.cons (by decide) (.cons (by decide) (.cons (by decide)
      .nil))))
  have hlinear : ∀ e ∈ entries tile, ∃ i, e.line = .instruction i ∧ i.opcode.isLinear = true := by
    rw [entries_tile]
    simp [Instruction.opcode, Opcode.isLinear]
  have hinside : tiled.machine.ram.Holds 13 tile := holds_tiling (by decide)
  have hacross : tiled.machine.ram.Holds 65533 tile := holds_tiling (by decide)
  have hmoved := @proceed_relocated tile tiled rfl hcomplete hlinear ⟨13, by decide⟩
    ⟨65533, by decide⟩ hinside hacross {} (by decide) 0 (Progress.start tiled)
  rw [entries_tile] at hmoved
  exact ⟨rfl, hcomplete, hlinear, hinside, hacross, hmoved⟩

end RegisterMachine
