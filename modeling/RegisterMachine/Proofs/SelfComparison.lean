import RegisterMachine.Proofs.Escapes
import RegisterMachine.Proofs.Explanations
import RegisterMachine.Proofs.Offsets
import RegisterMachine.Proofs.Refinement

/-!
# A text constant compared with itself

A program stores a text constant in a register and then compares the register with the same constant.
The constant is written twice in the same way, and still the two need not agree: a backslash and a
letter become a newline or a tab where a text is stored, and stay as they are where a text is
compared. What stands behind a zero byte does not matter, since the machine takes no notice of it.

The program may fill the memory. Then the pointer comes back to the start and the program runs for
ever, but the flag does not change any more.

## Main definitions

* `Source.selfComparison` — the program.
* `Source.Settled` — a run of it after the comparison.

## Main results

* `Source.Settled.cycle`, `Source.Settled.zero_proceed` — the flag stays as the comparison left it.
* `Source.zero_run` — the flag after a run.
* `Source.selfComparison_zero_iff` — when the comparison finds the texts equal.
-/

namespace RegisterMachine.Source

open Draft Effect Listing Statement

/-- A program that stores a text constant and compares the register with the same constant. -/
def selfComparison (gap gap' : Nat) (r : Register) (t : Text) : List Line :=
  [.code gap (.instr (.literal .store r t)), .code gap' (.instr (.literal .compare r t))]

/-- The text that the first line leaves in the register. -/
def Text.stored (t : Text) : Value.Text := .ofBytes (unescape t.bytes)

/-- **The stored text is the compared one exactly if the part of it that the machine sees has nothing
in it that looks like an escape.** -/
lemma Text.stored_eq_iff (t : Text) :
    t.stored = .ofBytes t.bytes ↔ ¬LooksEscaped t.bytes.upToNul := by
  rw [stored, Value.Text.ext_iff, Value.Text.bytes_ofBytes, Value.Text.bytes_ofBytes, upToNul_unescape,
    unescape_eq_self_iff]

section Programs

variable {gap gap' : Nat} {r : Register} {t : Text}

/-! ## The code -/

lemma size_selfComparison :
    size (selfComparison gap gap' r t) = 8 + (unescape t.bytes).length + t.bytes.length := by
  have hline : ∀ (op : Literal) (n : Nat),
      (Line.code n (.instr (.literal op r t))).size = 4 + (literalBytes op t).length := by
    intro op n
    simp only [Line.size, Line.encode, Code.encode, Instr.resolve, Instruction.encode,
      Instruction.operandBytes, List.length_cons, List.length_append, Instruction.wordBytes,
      List.length_nil]
    omega
  simp only [size, selfComparison, List.map_cons, List.map_nil, List.sum_cons, List.sum_nil, hline,
    literalBytes]
  omega

lemma closed_selfComparison : Closed (selfComparison gap gap' r t) :=
  ⟨List.nodup_nil, fun _ h => absurd h (List.not_mem_nil)⟩

lemma covered_selfComparison (hr : r.value < registerCount) :
    ∀ a ∈ codes (selfComparison gap gap' r t), a.Covered := by
  intro a ha
  have hcases : a = .instr (.literal .store r t) ∨ a = .instr (.literal .compare r t) := by
    simpa [codes, selfComparison, Line.code?] using ha
  rcases hcases with rfl | rfl <;> exact ⟨rfl, by simpa [Instr.registers] using hr⟩

/-- The program converts no integer. -/
lemma roomy_selfComparison (c : Config) : Roomy (selfComparison gap gap' r t) c := by
  intro q hq
  simp [codes, selfComparison, Line.code?] at hq

/-- Without a fault, the code has no fewer bytes than the lines have. -/
lemma size_le_length (h : (assemble (text (selfComparison gap gap' r t))).fault = none) :
    size (selfComparison gap gap' r t) ≤
      (assemble (text (selfComparison gap gap' r t))).code.length := by
  have hstated : stated (text (selfComparison gap gap' r t)) =
      (selfComparison gap gap' r t).map Line.statement := parse_lines_text _
  obtain ⟨d, d', hstatements, hcode, -, hfill, hassemble⟩ := assemble_ok h
  rw [draftAt, List.take_length, hstated] at hstatements hfill hcode
  set ss := (selfComparison gap gap' r t).map Line.statement
  have hfirst := adds_after hstatements (k := 0) rfl
  have hsecond := adds_after hstatements (k := 1) rfl
  -- there are no labels, so nothing is filled in
  have hreferences : (Draft.after ss).references = #[] := by
    have hlast := hsecond.references
    rw [hfirst.references] at hlast
    exact hlast
  rw [hreferences] at hfill
  cases hfill
  have hone : 0 + (4 + (unescape t.bytes).length) ≤ (Draft.after (ss.take 1)).code.size :=
    hfirst.size_eq_iff.1
  have htwo : (Draft.after (ss.take 1)).code.size + (4 + t.bytes.length) ≤ (Draft.after ss).code.size :=
    hsecond.size_eq_iff.1
  rw [hassemble, Array.length_toList, hcode, size_selfComparison]
  omega

/-! ## Steps and cycles -/

/-- The situation after the first line: the text is stored. -/
def Situation.afterStore (s : Situation) (r : Register) (t : Text) : Situation :=
  { s.assign r (.text t.stored) with pc := 1 }

/-- The situation after the second line: the flag tells whether the texts are equal. -/
def Situation.afterCompare (s : Situation) (t : Text) : Situation :=
  { s with zero := t.stored == .ofBytes t.bytes, pc := 2 }

section Steps

variable {s : Situation}

lemma Situation.value_afterStore (hr : r.value < registerCount) :
    (s.afterStore r t).value r = .text t.stored := by
  simp [Situation.value, Situation.afterStore, Situation.assign, hr]

lemma step_store (hpc : s.pc = 0) :
    s.step (selfComparison gap gap' r t) = .running (s.afterStore r t) := by
  have hcode : (codes (selfComparison gap gap' r t))[s.pc]? =
      some (.instr (.literal .store r t)) := by rw [hpc]; rfl
  rw [Situation.step, hcode]
  simp only [Situation.stepInstr, Situation.next, Situation.afterStore, Situation.assign, hpc]
  rfl

lemma step_compare (hpc : s.pc = 1) (hvalue : s.value r = .text t.stored) :
    s.step (selfComparison gap gap' r t) = .running (s.afterCompare t) := by
  have hcode : (codes (selfComparison gap gap' r t))[s.pc]? =
      some (.instr (.literal .compare r t)) := by rw [hpc]; rfl
  rw [Situation.step, hcode]
  simp only [Situation.stepInstr, Situation.withText, hvalue, Situation.next, hpc]
  rfl

lemma step_end (hpc : s.pc = 2) : s.step (selfComparison gap gap' r t) = .exited s := by
  rw [Situation.step, hpc]
  rfl

/-- The source machine takes three steps to the end of the program. -/
lemma run_three (hr : r.value < registerCount) (hpc : s.pc = 0) :
    s.run (selfComparison gap gap' r t) 3 = .exited ((s.afterStore r t).afterCompare t) := by
  have hcompare : (s.afterStore r t).step (selfComparison gap gap' r t) = _ :=
    step_compare rfl (Situation.value_afterStore hr)
  simp only [Situation.run, step_store hpc, hcompare]
  rw [step_end rfl]

variable {x : State} (hr : r.value < registerCount)
  (hsize : size (selfComparison gap gap' r t) ≤ 65535)
  (h : Matches (selfComparison gap gap' r t) s x) (hrunning : x.machine.running = true)

include hr hsize h hrunning

/-- **A cycle at one of the two lines does what the source machine does in a step**, also if the
program fills the memory. -/
lemma Matches.cycle_line (hpc : s.pc < 2) {c : Config} (hc : c.verbose = false) :
    Corresponds (selfComparison gap gap' r t) c (RegisterMachine.cycle Table.builtin c x)
      (s.step (selfComparison gap gap' r t)) := by
  have hregs : ∀ op, ∀ q ∈ (Instr.literal op r t).registers, q.value < registerCount := by
    intro op
    simpa [Instr.registers] using hr
  obtain hpc | hpc : s.pc = 0 ∨ s.pc = 1 := by omega
  · have hcode : (codes (selfComparison gap gap' r t))[s.pc]? =
        some (.instr (.literal .store r t)) := by rw [hpc]; rfl
    rw [Situation.step, hcode]
    refine Matches.cycle_of_execute hc h hrunning hsize hcode (hregs .store) fun _ h' => ?_
    have hstore := h'.storeText (c := c) hr (literalBytes .store t).upToNul
    rw [Value.Text.ofBytes_upToNul] at hstore
    exact hstore
  · have hcode : (codes (selfComparison gap gap' r t))[s.pc]? =
        some (.instr (.literal .compare r t)) := by rw [hpc]; rfl
    rw [Situation.step, hcode]
    refine Matches.cycle_of_execute hc h hrunning hsize hcode (hregs .compare) fun _ h' => ?_
    have hcompare := Ready.compareText hc h' hr (literalBytes .compare t).upToNul
    rw [Value.Text.ofBytes_upToNul] at hcompare
    exact hcompare

end Steps

/-! ## After the comparison -/

/-- A run of the program after the comparison. The flag has the value `z`; a machine that is still
running is behind the last line, or it came back to the start and is at the second line again. -/
def Settled (p : List Line) (r : Register) (t : Text) (z : Bool) (x : State) : Prop :=
  ∃ s, Holds p s x ∧ s.zero = z ∧ (x.machine.running = true →
    Matches p s x ∧ (s.pc = 2 ∨ s.pc = 1 ∧ s.value r = .text t.stored))

/-- A limit leaves the flag. -/
lemma Settled.limited {p : List Line} {z : Bool} {x : State} (h : Settled p r t z x) (limit : Int)
    (k : Nat) : Settled p r t z (x.limited limit k) := by
  obtain ⟨s, hholds, hzero, hplace⟩ := h
  refine ⟨s, hholds.limited limit k, hzero, fun hrunning => ?_⟩
  have hbefore : x.machine.running = true := by
    by_contra hstopped
    rw [Bool.not_eq_true] at hstopped
    rw [State.running_limited hstopped] at hrunning
    exact Bool.noConfusion hrunning
  exact ⟨(hplace hbefore).1.limited limit k, (hplace hbefore).2⟩

section Settled

variable (hr : r.value < registerCount) (hsize : size (selfComparison gap gap' r t) ≤ 65535)

include hr hsize

/-- **A cycle after the comparison leaves the flag.** Only a program that does not fill the memory ends.

**Proof sketch.** Behind the last line there is an exit, or the end of the memory, where the pointer
goes back to the start: then the first line stores the same text again, and the second line compares
it with the same result. -/
lemma Settled.cycle {x : State}
    (h : Settled (selfComparison gap gap' r t) r t (t.stored == .ofBytes t.bytes) x)
    (hrunning : x.machine.running = true) {c : Config} (hc : c.verbose = false) :
    ∃ a x', RegisterMachine.cycle Table.builtin c x = .ok a x' ∧
      Settled (selfComparison gap gap' r t) r t (t.stored == .ofBytes t.bytes) x' ∧
      (size (selfComparison gap gap' r t) = 65535 → x'.machine.running = true) := by
  obtain ⟨s, -, hzero, hplace⟩ := h
  obtain ⟨hmatches, hpc | ⟨hpc, hvalue⟩⟩ := hplace hrunning
  · have hip := hmatches.ip
    have hlast : byteAddress (selfComparison gap gap' r t) 2 = size (selfComparison gap gap' r t) :=
      byteAddress_length _
    rw [hpc, hlast] at hip
    by_cases hfull : size (selfComparison gap gap' r t) = 65535
    · -- the pointer is beyond the memory
      have hstart : Address.ofPointer x.machine.ip = Address.ofPointer (UInt32.ofNat 0) := by
        rw [hip, hfull]
        decide
      have hback : Matches (selfComparison gap gap' r t) { s with pc := 0 } (x.seek 0) :=
        { hmatches.toHolds with pc := Nat.zero_le _, ip := rfl }
      have hstore := hback.cycle_line hr hsize hrunning Nat.zero_lt_two hc
      rw [step_store rfl, cycle_seek hstart] at hstore
      obtain ⟨a, x', hcycle, hnext, hgoing⟩ := hstore
      exact ⟨a, x', hcycle, ⟨_, hnext.toHolds, hzero, fun _ =>
        ⟨hnext, .inr ⟨rfl, Situation.value_afterStore hr⟩⟩⟩, fun _ => hgoing⟩
    · have hexit := Matches.cycle hc (roomy_selfComparison c) hmatches hrunning (by omega)
        (covered_selfComparison hr)
      rw [step_end hpc] at hexit
      obtain ⟨a, x', hcycle, hholds, hstopped⟩ := hexit
      exact ⟨a, x', hcycle, ⟨s, hholds, hzero, fun hgoing => by rw [hstopped] at hgoing; cases hgoing⟩,
        fun h => absurd h hfull⟩
  · have hcompare := hmatches.cycle_line hr hsize hrunning (by omega) hc
    rw [step_compare hpc hvalue] at hcompare
    obtain ⟨a, x', hcycle, hnext, hgoing⟩ := hcompare
    exact ⟨a, x', hcycle, ⟨_, hnext.toHolds, rfl, fun _ => ⟨hnext, .inl rfl⟩⟩, fun _ => hgoing⟩

/-- **A run after the comparison leaves the flag.** -/
lemma Settled.zero_proceed {x : State}
    (h : Settled (selfComparison gap gap' r t) r t (t.stored == .ofBytes t.bytes) x) {c : Config}
    (hc : c.verbose = false) (depth : Nat) (limit : Int) (fuel : Nat) (q : Progress) :
    (proceed Table.builtin c depth limit fuel q x).state.machine.zero =
      (t.stored == .ofBytes t.bytes) := by
  induction fuel generalizing q x with
  | zero =>
    obtain ⟨s, hholds, hzero, -⟩ := h
    exact hholds.zero.trans hzero
  | succ fuel ih =>
    cases hrunning : x.machine.running with
    | false =>
      obtain ⟨s, hholds, hzero, -⟩ := h
      rw [proceed_of_stopped depth limit fuel q hrunning, State.concluded_eq_told, machine_told]
      exact hholds.zero.trans hzero
    | true =>
      obtain ⟨a, x', hcycle, hsettled, -⟩ := h.cycle hr hsize hrunning hc
      rw [proceed_of_cycle depth limit fuel q hrunning hcycle]
      exact ih (hsettled.limited _ _) _

/-- A program that fills the memory does not end. -/
lemma Settled.outOfFuel_proceed (hfull : size (selfComparison gap gap' r t) = 65535) {x : State}
    (h : Settled (selfComparison gap gap' r t) r t (t.stored == .ofBytes t.bytes) x)
    (hrunning : x.machine.running = true) {c : Config} (hc : c.verbose = false) (depth : Nat)
    (fuel : Nat) (q : Progress) :
    (proceed Table.builtin c depth 0 fuel q x).ending = .outOfFuel := by
  induction fuel generalizing q x with
  | zero => rfl
  | succ fuel ih =>
    obtain ⟨a, x', hcycle, hsettled, hgoing⟩ := h.cycle hr hsize hrunning hc
    rw [proceed_of_cycle depth 0 fuel q hrunning hcycle]
    exact ih hsettled (hgoing hfull) _

end Settled

/-! ## Whole runs -/

section Runs

variable (hr : r.value < registerCount) {m : Machine}
  (hload : Machine.load? (image (selfComparison gap gap' r t)) = some m)
  (hsize : size (selfComparison gap gap' r t) ≤ 65535)
  {c : Config} (hc : c.verbose = false) (depth : Nat) (entropy : Entropy)

include hr hload hsize hc

/-- The first two cycles of a run: the text is stored and compared, and what is left of the run begins
after the comparison. -/
lemma run_settled {limit : Int} (hlimit : limit = 0 ∨ 2 ≤ limit) (fuel : Nat) :
    ∃ q x, x.machine.running = true ∧
      Settled (selfComparison gap gap' r t) r t (t.stored == .ofBytes t.bytes) x ∧
      run Table.builtin c depth limit (fuel + 2) ⟨m, #[], entropy⟩ =
        proceed Table.builtin c depth limit fuel q (x.limited limit 2) := by
  obtain ⟨hstart, hrunning⟩ := matches_start hload entropy
  have hstore := hstart.cycle_line hr hsize hrunning Nat.zero_lt_two hc
  rw [step_store rfl] at hstore
  obtain ⟨a, x₁, hfirst, hmatches, hgoing⟩ := hstore
  have hcompare := hmatches.cycle_line hr hsize hgoing Nat.one_lt_two hc
  rw [step_compare rfl (Situation.value_afterStore hr)] at hcompare
  obtain ⟨b, x₂, hsecond, hmatches', hgoing'⟩ := hcompare
  have hfree : limitReached limit 1 = false := by
    simp only [limitReached, Bool.and_eq_false_iff, bne_eq_false_iff_eq, decide_eq_false_iff_not]
    omega
  have hkept : x₁.limited limit 1 = x₁ := by rw [State.limited, hfree, if_neg Bool.false_ne_true]
  obtain ⟨q₁, hcycles, hrest⟩ := proceed_of_ok depth limit (fuel + 1)
    (Progress.start ⟨{ m with ip := 0 }, #[], entropy⟩) hrunning hfirst
  obtain ⟨q₂, -, hrest'⟩ := proceed_of_ok depth limit fuel q₁ hgoing hsecond
  have hone : (Progress.start ⟨{ m with ip := 0 }, #[], entropy⟩).cycles + 1 = 1 := rfl
  rw [hone] at hcycles hrest
  rw [hkept] at hrest
  rw [hcycles] at hrest'
  exact ⟨q₂, x₂, hgoing', ⟨_, hmatches'.toHolds, rfl, fun _ => ⟨hmatches', .inl rfl⟩⟩,
    hrest.trans hrest'⟩

/-- **The flag after a run of at least two cycles.** -/
lemma zero_run {limit : Int} (hlimit : limit = 0 ∨ 2 ≤ limit) {fuel : Nat} (hfuel : 2 ≤ fuel) :
    (run Table.builtin c depth limit fuel ⟨m, #[], entropy⟩).state.machine.zero = true ↔
      ¬LooksEscaped t.bytes.upToNul := by
  obtain ⟨k, rfl⟩ : ∃ k, fuel = k + 2 := ⟨fuel - 2, by omega⟩
  obtain ⟨q, x, -, hsettled, hrun⟩ := run_settled hr hload hsize hc depth entropy hlimit k
  rw [hrun, (hsettled.limited limit 2).zero_proceed hr hsize hc, beq_iff_eq, Text.stored_eq_iff]

/-- How a run without a limit ends. -/
lemma ending_run {fuel : Nat} (hfuel : 4 ≤ fuel) :
    (run Table.builtin c depth 0 fuel ⟨m, #[], entropy⟩).ending =
      if size (selfComparison gap gap' r t) = 65535 then .outOfFuel else .stopped := by
  split
  case isTrue hfull =>
    obtain ⟨k, rfl⟩ : ∃ k, fuel = k + 2 := ⟨fuel - 2, by omega⟩
    obtain ⟨q, x, hgoing, hsettled, hrun⟩ := run_settled hr hload hsize hc depth entropy (.inl rfl) k
    rw [hrun, State.limited_zero]
    exact hsettled.outOfFuel_proceed hr hsize hfull hgoing hc depth k q
  case isFalse hroom =>
    obtain ⟨hstart, hrunning⟩ := matches_start hload entropy
    obtain ⟨k, rfl⟩ : ∃ k, fuel = 3 + k + 1 := ⟨fuel - 4, by omega⟩
    have hexit : (Situation.start entropy).run (selfComparison gap gap' r t) 3 = _ :=
      run_three hr rfl
    have hagree := agrees_proceed (by omega) (covered_selfComparison hr) hc
      (roomy_selfComparison c) depth 0 3 k hstart hrunning (q := Progress.start ⟨{ m with ip := 0 }, #[], entropy⟩) (fun _ _ _ => rfl)
      (fun s' hgoing => by rw [hexit] at hgoing; cases hgoing)
    rw [hexit] at hagree
    exact hagree.1

end Runs

/-- The code of a program that is not too long. -/
lemma assemble_selfComparison (hsize : size (selfComparison gap gap' r t) ≤ 65535) :
    (assemble (text (selfComparison gap gap' r t))).fault = none ∧
      (assemble (text (selfComparison gap gap' r t))).code = image (selfComparison gap gap' r t) := by
  rw [assemble_closed closed_selfComparison hsize]
  exact ⟨rfl, rfl⟩

/-- The program can be assembled and loaded exactly if it is not too long for the memory. -/
lemma exists_load?_selfComparison :
    (assemble (text (selfComparison gap gap' r t))).fault = none ∧
        (∃ m, Machine.load? (assemble (text (selfComparison gap gap' r t))).code = some m) ↔
      size (selfComparison gap gap' r t) ≤ 65535 := by
  constructor
  · rintro ⟨hfault, m, hload⟩
    have hle := size_le_length hfault
    have hram : ramSize = 65535 := rfl
    rw [Machine.load?] at hload
    split at hload
    · cases hload
    · omega
  · intro hsize
    have hlength : (image (selfComparison gap gap' r t)).length = size (selfComparison gap gap' r t) :=
      length_flatMap_encode _ (address _)
    obtain ⟨hfault, hcode⟩ := assemble_selfComparison hsize
    rw [hcode]
    rw [← hlength] at hsize
    exact ⟨hfault, exists_load? (by rw [hlength, size_selfComparison]; omega) hsize⟩

end Programs

/-- **When a text constant is equal to itself.** The program that stores a text constant and compares
the register with the same constant can be assembled and loaded exactly if it fits into the memory. A
run of it, whatever the host, the random numbers and a limit that lets both lines be carried out,
leaves the flag set exactly if there is neither a backslash with an `n` nor one with a `t` behind it in
the constant, or only behind a zero byte. Without a limit the run ends, unless the program fills the
memory.

**Proof sketch.** The first line leaves the constant in the register with its escapes undone, and the
second line compares this with the constant as it is written, both up to the first zero byte.
Afterwards the flag stays, also when the program runs again from its start. -/
theorem selfComparison_zero_iff (gap gap' : Nat) {r : Register} (hr : r.value < registerCount)
    (t : Text) :
    ((assemble (text (selfComparison gap gap' r t))).fault = none ∧
        (∃ m, Machine.load? (assemble (text (selfComparison gap gap' r t))).code = some m) ↔
      8 + (unescape t.bytes).length + t.bytes.length ≤ 65535) ∧
    ((assemble (text (selfComparison gap gap' r t))).fault = none →
      ∀ m, Machine.load? (assemble (text (selfComparison gap gap' r t))).code = some m →
      ∀ (c : Config) (depth : Nat) (entropy : Entropy),
        (∀ (limit : Int) (fuel : Nat), limit = 0 ∨ 2 ≤ limit → 2 ≤ fuel →
          ((run Table.builtin c depth limit fuel ⟨m, #[], entropy⟩).state.machine.zero = true ↔
            ¬LooksEscaped t.bytes.upToNul)) ∧
        ∀ fuel, 4 ≤ fuel → (run Table.builtin c depth 0 fuel ⟨m, #[], entropy⟩).ending =
          if 8 + (unescape t.bytes).length + t.bytes.length = 65535 then .outOfFuel
          else .stopped) := by
  have hlength : size (selfComparison gap gap' r t) = _ := size_selfComparison
  rw [← hlength]
  refine ⟨exists_load?_selfComparison, fun hfault m hload c depth entropy => ?_⟩
  have hsize := exists_load?_selfComparison.1 ⟨hfault, m, hload⟩
  rw [(assemble_selfComparison hsize).2] at hload
  -- explanations change neither the flag nor the end of the run
  refine ⟨fun limit fuel hlimit hfuel => ?_, fun fuel hfuel => ?_⟩
  · rw [(run_talking c depth limit fuel m entropy).1]
    exact zero_run hr hload hsize rfl depth entropy hlimit hfuel
  · rw [(run_talking c depth 0 fuel m entropy).2]
    exact ending_run hr hload hsize rfl depth entropy hfuel

/-- A constant with a backslash in it that begins no escape, and with an escape behind a zero byte. -/
theorem selfComparison_zero_iff_behindNul :
    let r : Register := ⟨ascii "9", by decide, by decide⟩
    let t : Text := ⟨ascii "a\\b" ++ 0 :: ascii "\\n", by decide, by decide⟩
    r.value < registerCount ∧
      ∃ m, Machine.load? (assemble (text (selfComparison 0 3 r t))).code = some m ∧
        (run Table.builtin {} 0 0 4 ⟨m, #[], {}⟩).ending = .stopped ∧
        (run Table.builtin {} 0 0 4 ⟨m, #[], {}⟩).state.machine.zero = true := by
  intro r t
  have hr : r.value < registerCount := by decide
  obtain ⟨hfits, hruns⟩ := selfComparison_zero_iff 0 3 hr t
  obtain ⟨hfault, m, hload⟩ := hfits.2 (by decide)
  obtain ⟨hzero, hending⟩ := hruns hfault m hload {} 0 {}
  have hplain : ¬LooksEscaped t.bytes.upToNul := (unescape_eq_self_iff _).1 (by decide)
  exact ⟨hr, m, hload, hending 4 (by decide), (hzero 0 4 (.inl rfl) (by decide)).2 hplain⟩

/-- A constant with an escape in it is not equal to itself. -/
theorem selfComparison_newline :
    let r : Register := ⟨ascii "1", by decide, by decide⟩
    let t : Text := ⟨ascii "a\\n", by decide, by decide⟩
    r.value < registerCount ∧
      text (selfComparison 0 0 r t) = ascii "\tstore #1, \"a\\n\"\n\tcmp #1, \"a\\n\"\n" ∧
      ∃ m, Machine.load? (assemble (text (selfComparison 0 0 r t))).code = some m ∧
        (run Table.builtin {} 0 0 4 ⟨m, #[], {}⟩).ending = .stopped ∧
        (run Table.builtin {} 0 0 4 ⟨m, #[], {}⟩).state.machine.zero = false := by
  intro r t
  have hr : r.value < registerCount := by decide
  have hsize : size (selfComparison 0 0 r t) ≤ 65535 := by decide
  have hcode := (assemble_selfComparison hsize).2
  obtain ⟨-, m, hload⟩ := exists_load?_selfComparison.2 hsize
  have htwo : 2 ≤ 4 := by decide
  have hzero := zero_run hr (hcode ▸ hload) hsize (c := {}) rfl 0 {} (.inl rfl) htwo
  have hending := ending_run hr (hcode ▸ hload) hsize (c := {}) rfl 0 {} (Nat.le_refl 4)
  have hescaped : LooksEscaped t.bytes.upToNul := .inl ⟨ascii "a", [], by decide⟩
  refine ⟨hr, by decide, m, hload, hending, ?_⟩
  rw [← Bool.not_eq_true, hzero]
  exact fun h => h hescaped

end RegisterMachine.Source
