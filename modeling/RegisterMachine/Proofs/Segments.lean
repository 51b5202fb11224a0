import RegisterMachine.Monitor
import RegisterMachine.Proofs.Runs
import RegisterMachine.Proofs.StackOperations
import Mathlib.Data.Nat.Init

/-!
# Segments of a run

A segment is a stretch of a run from one state to another, cycle by cycle, in which no cycle ends
early. What every cycle of a segment leaves alone is the same at its end. So each part of the
machine can be followed through a segment by looking only at the opcodes under the pointer.

## Main definitions

* `Segment` — the states through which a machine goes in so many cycles of a run.
* `State.Executes` — the opcode under the pointer is that of one of some operations.
* `Avoids` — no cycle between two moments carries out one of some operations.
* `memoryWriters`, `flagSetters`, `registerWriters` — the operations that change a part of the
  machine.

## Main results

* `segment_proceed` — the states of a run that is not over form a segment.
* `Segment.same` — a part outside the footprints of a segment is the same at its end.
* `Segment.frame` — which operations change which parts of the machine.
-/

namespace RegisterMachine

open Effect Exec

/-! ## Segments -/

/-- The states through which a machine goes in `n` cycles of a run with a limit, when `k` cycles lie
behind it. The machine is running before each of the cycles, and no cycle ends early. -/
structure Segment (t : Table) (c : Config) (limit : Int) (k n : Nat) (σ : Nat → State) : Prop where
  running : ∀ i < n, (σ i).machine.running = true
  step : ∀ i < n, ∃ a s, cycle t c (σ i) = .ok a s ∧ σ (i + 1) = s.limited limit (k + i + 1)

section Runs

variable {t : Table} {c : Config} {depth : Nat} {limit : Int}

/-- The states of a run that is not over form a segment.

**Proof sketch.** By induction on the number of cycles. A run that is not over after its first cycle
goes on with the states of the run from there. -/
theorem segment_proceed {n : Nat} {q : Progress} {s : State}
    (h : (proceed t c depth limit n q s).ending = .outOfFuel) :
    Segment t c limit q.cycles n fun i => (proceed t c depth limit i q s).state := by
  induction n generalizing q s with
  | zero => exact ⟨fun i hi => absurd hi (by omega), fun i hi => absurd hi (by omega)⟩
  | succ n ih =>
    cases hrunning : s.machine.running with
    | false =>
      rw [proceed_of_stopped depth limit n q hrunning] at h
      exact absurd h (by simp)
    | true =>
      cases hcycle : cycle t c s with
      | error e s' =>
        rw [proceed_of_error depth limit n q hrunning hcycle] at h
        exact absurd h (by simp)
      | ok a s' =>
        have hfirst (i : Nat) := proceed_of_cycle depth limit i q hrunning hcycle
        rw [hfirst] at h
        have hrest := ih h
        rw [q.cycles_after] at hrest
        constructor
        · intro i hi
          cases i with
          | zero => exact hrunning
          | succ i =>
            simp only [hfirst]
            exact hrest.running i (by omega)
        · intro i hi
          cases i with
          | zero =>
            refine ⟨a, s', hcycle, ?_⟩
            simp only [hfirst]
            rfl
          | succ i =>
            simp only [hfirst]
            rw [show q.cycles + (i + 1) + 1 = q.cycles + 1 + i + 1 by omega]
            exact hrest.step i (by omega)

end Runs

/-- What every step between two moments keeps is kept from the first to the last. -/
lemma rel_of_steps {R : State → State → Prop} (hrefl : ∀ s, R s s)
    (htrans : ∀ {s₁ s₂ s₃}, R s₁ s₂ → R s₂ s₃ → R s₁ s₃) {σ : Nat → State} {i j : Nat} (hij : i ≤ j)
    (hstep : ∀ l, i ≤ l → l < j → R (σ l) (σ (l + 1))) : R (σ i) (σ j) := by
  induction j, hij using Nat.le_induction with
  | base => exact hrefl _
  | succ j hij ih =>
    have hbefore : R (σ i) (σ j) := ih fun l hil hlj => hstep l hil (by omega)
    exact htrans hbefore (hstep j hij (by omega))

/-- A limit changes nothing but whether the machine is running, and nothing at all before it is
reached. -/
lemma same_limited {p : Part} (s : State) (limit : Int) (k : Nat)
    (hp : p = .running → limitReached limit k = false) :
    p.Same s.machine (s.limited limit k).machine := by
  rw [State.limited]
  split
  case isFalse => exact p.same_refl _
  case isTrue hreached =>
    cases p with
    | running => exact absurd hreached (by simp [hp rfl])
    | stack => exact ⟨rfl, rfl⟩
    | ram | zero | register | size => rfl

lemma State.ip_limited (s : State) (limit : Int) (k : Nat) :
    (s.limited limit k).machine.ip = s.machine.ip := by
  rw [State.limited]
  split <;> rfl

section Parts

variable {c : Config} {limit : Int} {k n : Nat} {σ : Nat → State}

/-- One cycle of a segment, as far as the stack and the pointer go: the limit has no part in it. -/
lemma Segment.exists_cycle {t : Table} (h : Segment t c limit k n σ) {l : Nat} (hl : l < n) :
    ∃ a s, cycle t c (σ l) = .ok a s ∧ Part.stack.Same s.machine (σ (l + 1)).machine ∧
      (σ (l + 1)).machine.ip = s.machine.ip := by
  obtain ⟨a, s, hcycle, hnext⟩ := h.step l hl
  refine ⟨a, s, hcycle, ?_, ?_⟩
  · rw [hnext]
    exact same_limited s limit _ (by simp)
  · rw [hnext, State.ip_limited]

/-- A part outside the footprint of a cycle is the same after it. -/
lemma Segment.same_step (h : Segment Table.builtin c limit k n σ) {l : Nat} (hl : l < n) {p : Part}
    (hp : p ∉ (σ l).footprint) (hlimit : p = .running → limitReached limit (k + l + 1) = false) :
    p.Same (σ l).machine (σ (l + 1)).machine := by
  obtain ⟨a, s, hcycle, hnext⟩ := h.step l hl
  have hsame := same_cycle c hp
  rw [hcycle] at hsame
  rw [hnext]
  exact hsame.trans (same_limited s limit _ hlimit)

/-- **A part outside the footprints of a segment is the same at its end**; whether the machine is
running, only if the limit is not reached. -/
theorem Segment.same (h : Segment Table.builtin c limit k n σ) {i j : Nat} (hij : i ≤ j)
    (hjn : j ≤ n) {p : Part} (hp : ∀ l, i ≤ l → l < j → p ∉ (σ l).footprint)
    (hlimit : p = .running → ∀ l, i ≤ l → l < j → limitReached limit (k + l + 1) = false) :
    p.Same (σ i).machine (σ j).machine := by
  refine rel_of_steps (R := fun s s' => p.Same s.machine s'.machine)
    (fun s => p.same_refl s.machine) Part.Same.trans hij fun l hil hlj => ?_
  exact h.same_step (by omega) (hp l hil hlj) fun hrunning => hlimit hrunning l hil hlj

end Parts

/-! ## Which operations change which parts -/

/-- The opcode under the pointer is that of one of some operations. -/
def State.Executes (s : State) (ops : List Opcode) : Prop := ∃ op ∈ ops, s.opcode = op.toByte

/-- An opcode is that of no other operation. -/
lemma State.executes_iff {s : State} {op : Opcode} (hop : s.opcode = op.toByte) {ops : List Opcode} :
    s.Executes ops ↔ op ∈ ops := by
  refine ⟨?_, fun hmem => ⟨op, hmem, hop⟩⟩
  rintro ⟨op', hmem, hop'⟩
  rw [← Opcode.ofByte?_eq_some_iff] at hop hop'
  cases hop.symm.trans hop'
  exact hmem

/-- No cycle between two moments carries out one of some operations. -/
def Avoids (σ : Nat → State) (i j : Nat) (ops : List Opcode) : Prop :=
  ∀ l, i ≤ l → l < j → ¬(σ l).Executes ops

/-- The operations that write to the memory. -/
def memoryWriters : List Opcode := [.binary .poke, .ternary .copyBlock]

/-- The operations whose result is a number that decides the flag. -/
def arithmetic : List Opcode :=
  [.ternary (.arith .xor), .ternary (.arith .add), .ternary (.arith .sub), .ternary (.arith .mul),
    .ternary .div, .unary .inc, .unary .dec, .ternary (.arith .and), .ternary (.arith .or)]

/-- The operations that set the flag. -/
def flagSetters : List Opcode :=
  arithmetic ++
    [.binary .compare, .immediate .compare, .literal .compare, .unary .isText, .unary .isInt]

/-- The operations that write to the register named by their first operand. -/
def registerWriters : List Opcode :=
  arithmetic ++
    [.immediate .store, .unary .intToText, .unary .random, .literal .store, .ternary .concat,
      .unary .textToInt, .binary .copy, .binary .peek, .unary .pop]

section Writers

variable {op : Opcode} {r r' : Nat}

lemma mem_memoryWriters (h : .ram ∈ op.footprint r) : op ∈ memoryWriters := by
  cases op with
  | plain op | unary op | binary op | ternary op | branch op | immediate op | literal op =>
    cases op <;> simp_all [Opcode.footprint, memoryWriters]

lemma mem_flagSetters (h : .zero ∈ op.footprint r) : op ∈ flagSetters := by
  cases op with
  | plain op | unary op | binary op | branch op | immediate op | literal op =>
    cases op <;> simp_all [Opcode.footprint, flagSetters, arithmetic]
  | ternary op =>
    cases op with
    | arith op => cases op <;> simp [flagSetters, arithmetic]
    | div | concat | copyBlock => simp_all [Opcode.footprint, flagSetters, arithmetic]

lemma mem_registerWriters (h : .register r' ∈ op.footprint r) : op ∈ registerWriters ∧ r = r' := by
  cases op with
  | plain op | unary op | binary op | branch op | immediate op | literal op =>
    cases op <;> simp_all [Opcode.footprint, registerWriters, arithmetic]
  | ternary op =>
    cases op with
    | arith op => cases op <;> simp_all [Opcode.footprint, registerWriters, arithmetic]
    | div | concat | copyBlock => simp_all [Opcode.footprint, registerWriters, arithmetic]

lemma eq_exit (h : .running ∈ op.footprint r) : op = .plain .exit := by
  cases op with
  | plain op | unary op | binary op | ternary op | branch op | immediate op | literal op =>
    cases op <;> simp_all [Opcode.footprint]

lemma size_not_mem_footprint : .size ∉ op.footprint r := by
  cases op with
  | plain op | unary op | binary op | ternary op | branch op | immediate op | literal op =>
    cases op <;> simp [Opcode.footprint]

/-- A part that only some operations change is the same after a cycle without one of them. -/
lemma same_of_not_executes {c : Config} {s s' : State} {a : UInt8 × Bool} {p : Part}
    {ops : List Opcode} (h : cycle Table.builtin c s = .ok a s') (hops : ¬s.Executes ops)
    (hp : ∀ {op : Opcode} {r : Nat}, p ∈ op.footprint r → op ∈ ops) :
    p.Same s.machine s'.machine := by
  have hsame := same_cycle c (s := s) (p := p) fun hmem => hops <| by
    obtain ⟨op, hop, hwrites⟩ := s.exists_of_mem_footprint hmem
    exact ⟨op, hp hwrites, hop⟩
  rwa [h] at hsame

end Writers

section Frames

variable {c : Config} {limit : Int} {k n : Nat} {σ : Nat → State}

/-- A part that only some operations change is the same where they are avoided. -/
lemma Segment.same_of_avoids (h : Segment Table.builtin c limit k n σ) {i j : Nat} (hij : i ≤ j)
    (hjn : j ≤ n) {ops : List Opcode} (havoids : Avoids σ i j ops) {p : Part}
    (hp : ∀ {op : Opcode} {r : Nat}, p ∈ op.footprint r → op ∈ ops) (hrunning : p ≠ .running) :
    p.Same (σ i).machine (σ j).machine := by
  refine h.same hij hjn (fun l hil hlj hmem => ?_) fun heq => absurd heq hrunning
  obtain ⟨op, hop, hwrites⟩ := (σ l).exists_of_mem_footprint hmem
  exact havoids l hil hlj ⟨op, hp hwrites, hop⟩

/-- A push moves the stack pointer up by one, unless the stack is full. -/
lemma Segment.sp_of_push (h : Segment Table.builtin c limit k n σ) {l : Nat} (hl : l < n)
    (hpush : (σ l).Executes [.unary .push, .branch .call])
    (hroom : (σ l).machine.sp + 1 < stackSize) :
    (σ (l + 1)).machine.sp = (σ l).machine.sp + 1 := by
  obtain ⟨a, s, hcycle, hstack, -⟩ := h.exists_cycle hl
  obtain ⟨op, hop, hbyte⟩ := hpush
  rw [hstack.1]
  simp only [List.mem_cons, List.not_mem_nil, or_false] at hop
  obtain rfl | rfl := hop
  · obtain ⟨m, hpushed⟩ := pushed_of_cycle_push hcycle hbyte
    exact hpushed.sp hroom
  · exact (pushed_of_cycle_call hcycle hbyte).sp hroom

/-- A pop moves the stack pointer down by one. -/
lemma Segment.sp_of_pop (h : Segment Table.builtin c limit k n σ) {l : Nat} (hl : l < n)
    (hpop : (σ l).Executes [.unary .pop, .plain .ret]) :
    (σ (l + 1)).machine.sp = (σ l).machine.sp - 1 := by
  obtain ⟨a, s, hcycle, hstack, -⟩ := h.exists_cycle hl
  obtain ⟨op, hop, hbyte⟩ := hpop
  rw [hstack.1]
  simp only [List.mem_cons, List.not_mem_nil, or_false] at hop
  obtain rfl | rfl := hop
  · obtain ⟨m, hpopped⟩ := popped_of_cycle_pop hcycle hbyte
    exact hpopped.sp
  · obtain ⟨m, hpopped, -⟩ := popped_of_cycle_ret hcycle hbyte
    exact hpopped.sp

lemma table_run (x : Monitor.Session) (g : Monitor.Settings) (limit : Int) (depth : Nat) :
    (x.run g limit depth).2.table = x.table := by
  unfold Monitor.Session.run
  split
  · rfl
  · dsimp only
    split <;> rfl

/-- **Which operations change which parts of the machine.** Let there be two moments of a segment.

* The memory is the same at both, unless in between a byte is poked or a block copied.
* The stack is the same, unless something is pushed, popped, called or returned from. Each of these
  moves the stack pointer by one: up if the stack is not full, and down.
* The flag is the same, unless there is arithmetic, a comparison or a question about a type.
* A register is the same, unless an operation that writes registers names it as its first operand.
* The machine is running at both or at none, unless it exits or the limit is reached.
* The length of its program is the same, and no run changes the opcode table of a session.

**Proof sketch.** Each part is outside the footprint of every operation not in its list, so this is
`Segment.same` for each of them. -/
theorem Segment.frame (h : Segment Table.builtin c limit k n σ) {i j : Nat} (hij : i ≤ j)
    (hjn : j ≤ n) :
    (Avoids σ i j memoryWriters → (σ j).machine.ram = (σ i).machine.ram) ∧
    (Avoids σ i j stackOperations →
      (σ j).machine.sp = (σ i).machine.sp ∧ (σ j).machine.stack = (σ i).machine.stack) ∧
    (∀ l < n, (σ l).Executes [.unary .push, .branch .call] →
      (σ l).machine.sp + 1 < stackSize → (σ (l + 1)).machine.sp = (σ l).machine.sp + 1) ∧
    (∀ l < n, (σ l).Executes [.unary .pop, .plain .ret] →
      (σ (l + 1)).machine.sp = (σ l).machine.sp - 1) ∧
    (Avoids σ i j flagSetters → (σ j).machine.zero = (σ i).machine.zero) ∧
    (∀ r : Nat,
      (∀ l, i ≤ l → l < j → ¬((σ l).Executes registerWriters ∧ (σ l).firstOperand.toNat = r)) →
        (σ j).machine.registers[r]? = (σ i).machine.registers[r]?) ∧
    (Avoids σ i j [.plain .exit] →
      (∀ l, i ≤ l → l < j → limitReached limit (k + l + 1) = false) →
        (σ j).machine.running = (σ i).machine.running) ∧
    (σ j).machine.size = (σ i).machine.size ∧
    ∀ (x : Monitor.Session) (g : Monitor.Settings) (limit : Int) (depth : Nat),
      (x.run g limit depth).2.table = x.table := by
  refine ⟨fun havoids => ?_, fun havoids => ?_, fun l hl => h.sp_of_push hl,
    fun l hl => h.sp_of_pop hl, fun havoids => ?_, fun r hr => ?_, fun havoids hlimit => ?_, ?_,
    table_run⟩
  · exact h.same_of_avoids hij hjn havoids (p := .ram) mem_memoryWriters (by simp)
  · exact h.same_of_avoids hij hjn havoids (p := .stack) mem_stackOperations (by simp)
  · exact h.same_of_avoids hij hjn havoids (p := .zero) mem_flagSetters (by simp)
  · refine h.same hij hjn (p := .register r) (fun l hil hlj hmem => ?_) (by simp)
    obtain ⟨op, hop, hwrites⟩ := (σ l).exists_of_mem_footprint hmem
    obtain ⟨hwriter, hfirst⟩ := mem_registerWriters hwrites
    exact hr l hil hlj ⟨⟨op, hwriter, hop⟩, hfirst⟩
  · refine h.same hij hjn (p := .running) (fun l hil hlj hmem => ?_) fun _ => hlimit
    obtain ⟨op, hop, hwrites⟩ := (σ l).exists_of_mem_footprint hmem
    exact havoids l hil hlj ⟨op, by simp [eq_exit hwrites], hop⟩
  · have havoids : Avoids σ i j [] := fun l _ _ hop => by simp [State.Executes] at hop
    exact h.same_of_avoids hij hjn havoids (p := .size)
      (fun hmem => absurd hmem size_not_mem_footprint) (by simp)

end Frames

/-- A program that compares, stores and jumps: what is stored does not concern the flag. -/
def compareThenStore : Bytes :=
  [(Opcode.immediate .compare).toByte, 0, 0, 0, (Opcode.immediate .store).toByte, 1, 7, 0,
    (Opcode.branch .jumpZero).toByte, 0, 0]

/-- The state after the first cycle: the flag is set. -/
def compared : State where
  machine := { (loaded compareThenStore).machine with ip := 4, zero := true }
  log := #[]
  entropy := {}

/-- The state after the second cycle: a register is written. -/
def stored : State where
  machine := { compared.machine with
    ip := 8
    registers := compared.machine.registers.set 1 (.int 7) }
  log := #[]
  entropy := {}

/-- The state after the third cycle: the pointer is at the start again. -/
def jumped : State where
  machine := { stored.machine with ip := 0 }
  log := #[]
  entropy := {}

/-- The first three cycles of the program. -/
lemma run_compareThenStore :
    (run Table.builtin {} 0 0 1 (loaded compareThenStore)).state = compared ∧
    (run Table.builtin {} 0 0 2 (loaded compareThenStore)).state = stored ∧
    (run Table.builtin {} 0 0 3 (loaded compareThenStore)).ending = .outOfFuel := by
  have hcompare : cycle Table.builtin {} (loaded compareThenStore) = .ok (0x41, true) compared :=
    @cycle_of_drop compareThenStore _ _ (loaded compareThenStore) 0 rfl rfl rfl {} (by decide)
      (List.forall_mem_singleton.2 (by decide))
  have hstore : cycle Table.builtin {} compared = .ok (0x01, true) stored :=
    @cycle_of_drop compareThenStore _ _ compared 4 rfl rfl rfl {} (by decide)
      (List.forall_mem_singleton.2 (by decide))
  have hjump : cycle Table.builtin {} stored = .ok (0x11, true) jumped :=
    @cycle_of_drop compareThenStore _ _ stored 8 rfl rfl rfl {} (by decide)
      (List.forall_mem_nil _)
  have hfirst (fuel : Nat) (q : Progress) := proceed_of_cycle 0 0 fuel q rfl hcompare
  have hsecond (fuel : Nat) (q : Progress) := proceed_of_cycle 0 0 fuel q rfl hstore
  have hthird (fuel : Nat) (q : Progress) := proceed_of_cycle 0 0 fuel q rfl hjump
  have hrun (fuel : Nat) : run Table.builtin {} 0 0 fuel (loaded compareThenStore) =
      proceed Table.builtin {} 0 0 fuel (Progress.start (loaded compareThenStore))
        (loaded compareThenStore) := rfl
  refine ⟨?_, ?_, ?_⟩
  · rw [hrun, hfirst]
    rfl
  · rw [hrun, hfirst, State.limited_zero, hsecond]
    rfl
  · rw [hrun, hfirst, State.limited_zero, hsecond, State.limited_zero, hthird]
    rfl

theorem frame_compareThenStore :
    let σ := fun i => (run Table.builtin {} 0 0 i (loaded compareThenStore)).state
    Segment Table.builtin {} 0 0 3 σ ∧ Avoids σ 1 3 flagSetters ∧ (σ 1).machine.zero = true ∧
      (σ 3).machine.zero = true := by
  intro σ
  obtain ⟨hcompared, hstored, hending⟩ := run_compareThenStore
  have hsegment : Segment Table.builtin {} 0 0 3 σ := segment_proceed hending
  have hstore : compared.opcode = 0x01 :=
    @ram_seek compareThenStore _ compared 4 rfl rfl (by decide)
  have hjump : stored.opcode = 0x11 :=
    @ram_seek compareThenStore _ stored 8 rfl rfl (by decide)
  have havoids : Avoids σ 1 3 flagSetters := by
    intro l hl hl' hop
    obtain rfl | rfl : l = 1 ∨ l = 2 := by omega
    · simp only [State.Executes, σ, hcompared, hstore] at hop
      exact absurd hop (by decide)
    · simp only [State.Executes, σ, hstored, hjump] at hop
      exact absurd hop (by decide)
  have hzero : (σ 1).machine.zero = true := by
    simp only [σ, hcompared]
    rfl
  obtain ⟨-, -, -, -, hflag, -⟩ := hsegment.frame (i := 1) (j := 3) (by decide) (by decide)
  exact ⟨hsegment, havoids, hzero, (hflag havoids).trans hzero⟩

end RegisterMachine
