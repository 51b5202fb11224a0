import RegisterMachine.Proofs.Runs
import RegisterMachine.Proofs.Simulation

/-!
# Assembled programs run as written

The machine runs the code of a program as the source machine runs the program: after every number
of cycles that a limit allows it is where the source machine is after as many steps, it ends when the
source machine ends, and it reports what the source machine refuses. This holds as long as the source
machine is not stuck, and a program gets stuck only by straying from its source.

## Main definitions

* `Source.Agrees` — the run of a machine comes to what a run of the source machine comes to.

## Main results

* `Source.agrees_proceed` — a run with a limit, or up to its end.
* `Source.outOfFuel_proceed` — a run that goes on.
* `Source.run_assemble_text` — assembling and running a program is running the program.
-/

namespace RegisterMachine

open Exec

namespace Source

/-! ## Agreement of runs -/

/-- The run of a machine comes to what `n` steps of the source machine come to: where the program is
still running, the machine was stopped after as many cycles. -/
def Agrees (p : List Line) (c : Config) (n : Nat) (r : Run) : Outcome → Prop
  | .running s => r.ending = .stopped ∧ r.cycles = n ∧ Matches p s r.state
  | .exited s => r.ending = .stopped ∧ r.cycles ≤ n ∧ Holds p s r.state
  | .failed e output =>
    c.policy ≠ .resume → r.ending = .halted (.reported e) ∧ r.state.printed = output
  | .stuck => True

section Stopped

variable {p : List Line} {s : Situation} {t : State} {c : Config} {depth fuel n : Nat} {limit : Int}
  {q : Progress}

/-- A limit leaves the situation as it is. -/
lemma Holds.limited (h : Holds p s t) (limit : Int) (k : Nat) : Holds p s (t.limited limit k) := by
  rw [State.limited]
  split
  · exact { h with }
  · exact h

/-- A limit does not move the pointer. -/
lemma Matches.limited (h : Matches p s t) (limit : Int) (k : Nat) :
    Matches p s (t.limited limit k) := by
  refine { h.toHolds.limited limit k with pc := h.pc, ip := ?_ }
  rw [← h.ip, State.limited]
  split <;> rfl

/-- The run of a machine that was stopped agrees with a program that goes on. -/
lemma Matches.agrees (hc : c.verbose = false) (h : Matches p s t)
    (hstopped : t.machine.running = false) (hcycles : q.cycles = n) :
    Agrees p c n (proceed Table.builtin c depth limit (fuel + 1) q t) (.running s) := by
  rw [proceed_of_stopped depth limit fuel q hstopped, State.concluded_eq_told, told_of_terse t _ hc]
  exact ⟨rfl, hcycles, h⟩

/-- The run of a machine that has stopped by itself agrees with a program that has ended. -/
lemma Holds.agrees (hc : c.verbose = false) (h : Holds p s t) (hstopped : t.machine.running = false)
    (hcycles : q.cycles ≤ n) :
    Agrees p c n (proceed Table.builtin c depth limit (fuel + 1) q t) (.exited s) := by
  rw [proceed_of_stopped depth limit fuel q hstopped, State.concluded_eq_told, told_of_terse t _ hc]
  exact ⟨rfl, hcycles, h⟩

end Stopped

section Runs

variable {p : List Line} (hsize : size p ≤ 65534) (hcovered : ∀ a ∈ codes p, a.Covered)
  {c : Config} (hc : c.verbose = false) (hroom : Roomy p c) (depth : Nat) (limit : Int)

include hsize hcovered hc hroom

/-- **A run with a limit, or up to the end of the program**, agrees with the run of the source machine.

**Proof sketch.** Induction on the number of steps. A cycle does what a step does; if the program goes
on, the limit stops the machine after the last step and not before. If the program has ended, the
machine is not running any more, whether the limit is reached or not. -/
theorem agrees_proceed (n m : Nat) {s : Situation} {t : State} {q : Progress} (h : Matches p s t)
    (hrunning : t.machine.running = true)
    (hbefore : ∀ k, k < n → 0 < k → limitReached limit (q.cycles + k) = false)
    (hlast : ∀ s', s.run p n = .running s' → 0 < n ∧ limitReached limit (q.cycles + n) = true) :
    Agrees p c (q.cycles + n) (proceed Table.builtin c depth limit (n + m + 1) q t) (s.run p n) := by
  induction n generalizing s t q with
  | zero => exact absurd (hlast s rfl).1 (Nat.lt_irrefl 0)
  | succ n ih =>
    have hcycle := Matches.cycle hc hroom h hrunning hsize hcovered
    have hfuel : n + 1 + m + 1 = n + m + 1 + 1 := by omega
    rw [hfuel]
    rw [Situation.run] at hlast ⊢
    cases hstep : s.step p with
    | running s' =>
      rw [hstep] at hcycle hlast
      obtain ⟨a, t', hok, hmatches, hgoing⟩ := hcycle
      obtain ⟨q', hcycles, hproceed⟩ := proceed_of_ok depth limit (n + m + 1) q hrunning hok
      have hcount : ∀ k, q'.cycles + k = q.cycles + (k + 1) := by
        intro k
        omega
      rw [hproceed]
      cases n with
      | zero =>
        -- the last step: the limit stops the machine where it is
        have hstopped : (t'.limited limit (q.cycles + 1)).machine.running = false := by
          rw [State.limited, if_pos (hlast s' rfl).2]
        exact Matches.agrees hc (hmatches.limited limit (q.cycles + 1)) hstopped hcycles
      | succ n =>
        have hfree : limitReached limit (q.cycles + 1) = false := hbefore 1 (by omega) (by omega)
        rw [State.limited, hfree, if_neg Bool.false_ne_true, ← hcount]
        refine ih hmatches hgoing ?_ ?_
        · intro k hk hpos
          rw [hcount]
          exact hbefore (k + 1) (by omega) (by omega)
        · intro s'' hrun
          rw [hcount]
          exact ⟨by omega, (hlast s'' hrun).2⟩
    | exited s' =>
      rw [hstep] at hcycle
      obtain ⟨a, t', hok, hholds, hstopped⟩ := hcycle
      obtain ⟨q', hcycles, hproceed⟩ := proceed_of_ok depth limit (n + m + 1) q hrunning hok
      rw [hproceed]
      exact Holds.agrees hc (hholds.limited _ _) (State.running_limited hstopped _ _) (by omega)
    | failed e output =>
      rw [hstep] at hcycle
      intro hpolicy
      obtain ⟨t', herror, hprinted⟩ := hcycle hpolicy
      rw [proceed_of_error _ _ _ _ hrunning herror]
      exact ⟨rfl, hprinted⟩
    | stuck => trivial

/-- **A run without a limit goes on** as long as the program does. -/
theorem outOfFuel_proceed (n : Nat) {s s' : Situation} {t : State} {q : Progress}
    (h : Matches p s t) (hrunning : t.machine.running = true) (hrun : s.run p n = .running s') :
    (proceed Table.builtin c depth 0 n q t).ending = .outOfFuel ∧
      Matches p s' (proceed Table.builtin c depth 0 n q t).state := by
  induction n generalizing s t q with
  | zero =>
    cases hrun
    exact ⟨rfl, h⟩
  | succ n ih =>
    have hcycle := Matches.cycle hc hroom h hrunning hsize hcovered
    rw [Situation.run] at hrun
    cases hstep : s.step p with
    | running s₁ =>
      rw [hstep] at hcycle hrun
      obtain ⟨a, t', hok, hmatches, hgoing⟩ := hcycle
      obtain ⟨q', -, hproceed⟩ := proceed_of_ok depth 0 n q hrunning hok
      rw [hproceed]
      exact ih hmatches hgoing hrun
    | exited s₁ | failed e output | stuck =>
      rw [hstep] at hrun
      cases hrun

end Runs

/-! ## Loading -/

/-- A new machine with the code of a program is where the source machine starts. -/
lemma matches_start {p : List Line} {m : Machine} (hload : Machine.load? (image p) = some m)
    (entropy : Entropy) :
    Matches p (Situation.start entropy) ⟨{ m with ip := 0 }, #[], entropy⟩ ∧ m.running = true := by
  rw [Machine.load?] at hload
  split at hload
  · cases hload
  · cases hload
    exact ⟨{ registers := rfl, zero := rfl, ram := rfl, sp := rfl, stack := trivial
             depth := Nat.zero_le _, output := rfl, entropy := rfl, pc := Nat.zero_le _, ip := rfl },
      rfl⟩

/-- Code of one to 65535 bytes can be loaded. -/
lemma exists_load? {code : Bytes} (hpos : 0 < code.length) (hle : code.length ≤ 0xFFFF) :
    ∃ m, Machine.load? code = some m := by
  have hsize : ramSize = 0xFFFF := rfl
  rw [Machine.load?, if_neg (by omega)]
  exact ⟨_, rfl⟩

section Programs

variable {p : List Line} (hcovered : ∀ a ∈ codes p, a.Covered) (hsize : size p ≤ 65534) {m : Machine}
  (hload : Machine.load? (image p) = some m) {c : Config} (hc : c.verbose = false)
  (hroom : Roomy p c) (depth : Nat) (entropy : Entropy) {n fuel : Nat} (hfuel : n < fuel)

include hcovered hsize hload hc hroom hfuel

/-- A run with a limit of `n` cycles: the limit is reached after `n` cycles and not before. -/
lemma agrees_run (hpos : 0 < n) :
    Agrees p c n (run Table.builtin c depth n fuel ⟨m, #[], entropy⟩)
      ((Situation.start entropy).run p n) := by
  obtain ⟨hstart, hrunning⟩ := matches_start hload entropy
  obtain ⟨k, rfl⟩ : ∃ k, fuel = n + k + 1 := ⟨fuel - n - 1, by omega⟩
  have hzero : (Progress.start ⟨{ m with ip := 0 }, #[], entropy⟩).cycles + n = n := Nat.zero_add n
  have hagree := agrees_proceed hsize hcovered hc hroom depth n n k hstart hrunning
    (q := Progress.start ⟨{ m with ip := 0 }, #[], entropy⟩) ?_ ?_
  · rw [hzero] at hagree
    exact hagree
  · intro j hj _
    rw [Bool.eq_false_iff, Ne, limitReached_natCast]
    change ¬ (0 < n ∧ n ≤ 0 + j)
    omega
  · intro s _
    rw [hzero, limitReached_natCast]
    exact ⟨hpos, hpos, Nat.le_refl n⟩

/-- A run without a limit, up to the end of the program. -/
lemma agrees_run_of_ends (hfinal : ∀ s, (Situation.start entropy).run p n ≠ .running s) :
    Agrees p c n (run Table.builtin c depth 0 fuel ⟨m, #[], entropy⟩)
      ((Situation.start entropy).run p n) := by
  obtain ⟨hstart, hrunning⟩ := matches_start hload entropy
  obtain ⟨k, rfl⟩ : ∃ k, fuel = n + k + 1 := ⟨fuel - n - 1, by omega⟩
  have hzero : (Progress.start ⟨{ m with ip := 0 }, #[], entropy⟩).cycles + n = n := Nat.zero_add n
  have hagree := agrees_proceed hsize hcovered hc hroom depth 0 n k hstart hrunning
    (q := Progress.start ⟨{ m with ip := 0 }, #[], entropy⟩) (fun _ _ _ => rfl)
    (fun s hrun => absurd hrun (hfinal s))
  rw [hzero] at hagree
  exact hagree

end Programs

/-- The code of a program is assembled without a fault, and can be loaded unless there is none. -/
lemma load_assemble {p : List Line} (hclosed : Closed p) (hsize : size p ≤ 65534) :
    (assemble (text p)).fault = none ∧ (assemble (text p)).code = image p ∧
      (0 < size p → ∃ m, Machine.load? (image p) = some m) := by
  have hlength : (image p).length = size p := length_flatMap_encode p (address p)
  rw [assemble_closed hclosed (by omega)]
  refine ⟨rfl, rfl, fun hpos => ?_⟩
  rw [← hlength] at hpos hsize
  exact exists_load? hpos (by omega)

/-- **Assembling and running a program is running the program**, on a machine that explains nothing and
has room for the digits of integers. The program is assembled without a fault, and the code can be
loaded unless there is none. Whatever the random numbers and whatever is found where a text was given up,
a run of `n` cycles comes to what `n` steps of the source machine come to; a run without a limit ends as
the program ends, and goes on as long as the program does. The source machine is stuck only after the
program has come to a situation in which it strays.

**Proof sketch.** The machine starts where the source machine starts, and every cycle does what a step
does. -/
theorem run_assemble_text {p : List Line} (hclosed : Closed p)
    (hcovered : ∀ a ∈ codes p, a.Covered) (hsize : size p ≤ 65534) :
    (assemble (text p)).fault = none ∧
    (0 < size p → ∃ m, Machine.load? (assemble (text p)).code = some m) ∧
    ∀ m, Machine.load? (assemble (text p)).code = some m →
      ∀ c : Config, c.verbose = false → Roomy p c →
      ∀ (depth : Nat) (entropy : Entropy) (n : Nat),
        (0 < n → ∀ fuel, n < fuel →
          Agrees p c n (run Table.builtin c depth n fuel ⟨m, #[], entropy⟩)
            ((Situation.start entropy).run p n)) ∧
        ((∀ s, (Situation.start entropy).run p n ≠ .running s) → ∀ fuel, n < fuel →
          Agrees p c n (run Table.builtin c depth 0 fuel ⟨m, #[], entropy⟩)
            ((Situation.start entropy).run p n)) ∧
        (∀ s, (Situation.start entropy).run p n = .running s →
          (run Table.builtin c depth 0 n ⟨m, #[], entropy⟩).ending = .outOfFuel ∧
            Matches p s (run Table.builtin c depth 0 n ⟨m, #[], entropy⟩).state) ∧
        ((Situation.start entropy).run p n = .stuck →
          ∃ k < n, ∃ s, (Situation.start entropy).run p k = .running s ∧ Strays p s) := by
  obtain ⟨hfault, hcode, hfits⟩ := load_assemble hclosed hsize
  rw [hcode]
  refine ⟨hfault, hfits, fun m hload c hc hroom depth entropy n => ?_⟩
  obtain ⟨hstart, hrunning⟩ := matches_start hload entropy
  refine ⟨fun hpos fuel hfuel => ?_, fun hfinal fuel hfuel => ?_, fun s hrun => ?_,
    Situation.strays_of_run hcovered⟩
  · exact agrees_run hcovered hsize hload hc hroom depth entropy hfuel hpos
  · exact agrees_run_of_ends hcovered hsize hload hc hroom depth entropy hfuel hfinal
  · exact outOfFuel_proceed hsize hcovered hc hroom depth n hstart hrunning hrun

/-- A program that counts down from 2 and calls a line below its data to show each number. -/
def spin : List Line :=
  let next : Name := ⟨ascii "next", by decide, by decide⟩
  let display : Name := ⟨ascii "display", by decide, by decide⟩
  let counter : Register := ⟨ascii "4", by decide, by decide⟩
  [.code 0 (.instr (.store counter (.number (.decimal ⟨ascii "2", by decide, by decide⟩)))),
    .label next,
    .code 0 (.instr (.branch .call (.label display))),
    .code 0 (.instr (.unary .dec counter)),
    .code 0 (.instr (.branch .jumpNonzero (.label next))),
    .code 0 (.instr (.plain .exit)),
    .code 0 (.data .db (.decimal ⟨ascii "9", by decide, by decide⟩) []),
    .label display,
    .code 0 (.instr (.unary .printInt counter)),
    .code 0 (.instr (.plain .ret))]

theorem run_assemble_text_spin :
    Closed spin ∧ (∀ a ∈ codes spin, a.Covered) ∧ size spin ≤ 65534 ∧
      ∃ m, Machine.load? (assemble (text spin)).code = some m ∧
        (run Table.builtin {} 0 12 13 ⟨m, #[], {}⟩).ending = .stopped ∧
        (run Table.builtin {} 0 12 13 ⟨m, #[], {}⟩).state.printed = ascii "0x00020x0001" := by
  have hclosed : Closed spin := by decide
  have hcovered : ∀ a ∈ codes spin, a.Covered := by decide
  have hsize : size spin ≤ 65534 := by decide
  obtain ⟨-, hload, hruns⟩ := run_assemble_text hclosed hcovered hsize
  obtain ⟨m, hm⟩ := hload (by decide)
  obtain ⟨s, hrun, hout⟩ : ∃ s, (Situation.start {}).run spin 12 = .exited s ∧
      s.output = ascii "0x00020x0001" := ⟨_, rfl, rfl⟩
  have hagree := (hruns m hm {} rfl (fun _ _ => by decide) 0 {} 12).1 (by decide) 13 (by decide)
  rw [hrun] at hagree
  obtain ⟨hending, -, hholds⟩ := hagree
  exact ⟨hclosed, hcovered, hsize, m, hm, hending, hholds.output.trans hout⟩

/-- A program that stores a text, copies it to its own register and compares it. -/
def copyToItself : List Line :=
  let reg : Register := ⟨ascii "5", by decide, by decide⟩
  let words : Text := ⟨ascii "simple virtual machine", by decide, by decide⟩
  [.code 0 (.instr (.literal .store reg words)),
    .code 0 (.instr (.binary .copy reg reg)),
    .code 0 (.instr (.literal .compare reg words)),
    .code 0 (.instr (.store reg (.number (.decimal ⟨ascii "0", by decide, by decide⟩)))),
    .code 0 (.instr (.plain .exit))]

/-- A copy of a register to itself need not keep what is in it: the program is assembled, loaded and run
to its end, and the text is not found equal to itself. -/
theorem zero_run_copyToItself :
    ∃ m, Machine.load? (assemble (text copyToItself)).code = some m ∧
      (run Table.builtin {} 0 0 6 ⟨m, #[], {}⟩).ending = .stopped ∧
      (run Table.builtin {} 0 0 6 ⟨m, #[], {}⟩).state.machine.zero = false := by
  have hclosed : Closed copyToItself := by decide
  have hcovered : ∀ a ∈ codes copyToItself, a.Covered := by decide
  have hsize : size copyToItself ≤ 65534 := by decide
  obtain ⟨-, hcode, hfits⟩ := load_assemble hclosed hsize
  obtain ⟨m, hload⟩ := hfits (by decide)
  obtain ⟨s, hrun, hzero⟩ : ∃ s, (Situation.start {}).run copyToItself 5 = .exited s ∧
      s.zero = false := ⟨_, rfl, rfl⟩
  have hagree := agrees_run_of_ends (c := {}) (n := 5) hcovered hsize hload rfl (fun _ _ => by decide) 0 {}
    (show 5 < 6 by decide) (by rw [hrun]; exact nofun)
  rw [hrun] at hagree
  obtain ⟨hending, -, hholds⟩ := hagree
  rw [hcode]
  exact ⟨m, hload, hending, hholds.zero.trans hzero⟩

end Source

end RegisterMachine
