import RegisterMachine.Proofs.Decoding
import RegisterMachine.Proofs.Runs
import Mathlib.Data.List.Infix

/-!
# Limits

A limit cuts a run short and does nothing else. The run with a limit of `n` cycles is the run
without a limit for `n` cycles, after which a machine that is still going is stopped. So all limits
show beginnings of one and the same run: a larger limit shows at least as many steps and says at
least as much. What does not fit in is the line with the number of cycles that explains the end of a
run, wherever that end is.

## Main definitions

* `Table.Appends` — a table whose handlers take nothing from the log.
* `Run.cut` — a run that is cut short.
* `Run.said`, `Run.closing` — what is logged up to the end of a run, and the line about its end.
* `Run.output`, `Run.text` — what a run prints, with that line and without.

## Main results

* `run_limit` — a run with a limit is the run without a limit, cut short.
* `cut_proceed_of_stopped` — a run that stops by itself is not changed by a limit that it keeps to.
* `begins_proceed_of_le` — more fuel shows more of a run.
* `limit_truncates` — a limit only truncates a run.
-/

namespace RegisterMachine

open Effect Exec

/-! ## Cutting a run short -/

/-- A run that is cut short: a machine that is still going is stopped, and the run is over. -/
def Run.cut (r : Run) (c : Config) : Run :=
  match r.ending with
  | .outOfFuel =>
    { r with
      state := { r.state with
        machine := { r.state.machine with running := false } }.concluded c r.cycles
      ending := .stopped }
  | .stopped | .halted _ => r

section Cut

variable {t : Table} {c : Config} {depth : Nat}

/-- What is left of a run with a limit is what is left of the run without a limit, cut short after
as many cycles as the limit still admits.

**Proof sketch.** By induction on that number. After the last of these cycles the limit stops the
machine, and before it has no effect. -/
lemma proceed_limit {j f : Nat} {q : Progress} {s : State} (hj : 0 < j) (hf : j < f) :
    proceed t c depth ↑(q.cycles + j) f q s = (proceed t c depth 0 j q s).cut c := by
  induction j generalizing f q s with
  | zero => exact absurd hj (by omega)
  | succ j ih =>
    obtain ⟨f, rfl⟩ : ∃ g, f = g + 1 := ⟨f - 1, by omega⟩
    cases hrunning : s.machine.running with
    | false =>
      rw [proceed_of_stopped _ _ _ _ hrunning, proceed_of_stopped _ _ _ _ hrunning]
      rfl
    | true =>
      cases hcycle : cycle t c s with
      | error e s' =>
        rw [proceed_of_error _ _ _ _ hrunning hcycle, proceed_of_error _ _ _ _ hrunning hcycle]
        rfl
      | ok a s' =>
        rw [proceed_of_cycle _ _ _ _ hrunning hcycle, proceed_of_cycle _ _ _ _ hrunning hcycle,
          State.limited_zero]
        have hcycles := q.cycles_after depth s a s'
        cases j with
        | zero =>
          have hreached : limitReached ↑(q.cycles + (0 + 1)) (q.cycles + 1) = true :=
            limitReached_natCast.2 (by omega)
          obtain ⟨f, rfl⟩ : ∃ g, f = g + 1 := ⟨f - 1, by omega⟩
          rw [State.limited, if_pos hreached, proceed_of_stopped _ _ _ _ rfl]
          rfl
        | succ j =>
          have hbefore : ¬limitReached ↑(q.cycles + (j + 1 + 1)) (q.cycles + 1) = true := by
            rw [limitReached_natCast]
            omega
          have hrest := ih (f := f) (q := q.after depth s a s') (s := s') (by omega) (by omega)
          rw [hcycles] at hrest
          rw [State.limited, if_neg hbefore, ← hrest]
          congr 2
          omega

/-- **A run with a limit is the run without a limit, cut short.** -/
theorem run_limit {n f : Nat} (hn : 0 < n) (hf : n < f) (s : State) :
    run t c depth n f s = (run t c depth 0 n s).cut c := by
  have hlimit : proceed t c depth ↑(0 + n) f _ { s with machine := { s.machine with ip := 0 } } =
      (proceed t c depth 0 n _ { s with machine := { s.machine with ip := 0 } }).cut c :=
    proceed_limit (q := Progress.start { s with machine := { s.machine with ip := 0 } }) hn hf
  rwa [Nat.zero_add] at hlimit

/-- A negative limit stops the machine after the first cycle. -/
lemma proceed_of_neg {limit : Int} (hlimit : limit < 0) (f : Nat) (q : Progress) (s : State) :
    proceed t c depth limit f q s = proceed t c depth 1 f q s := by
  induction f generalizing q s with
  | zero => rfl
  | succ f ih =>
    cases hrunning : s.machine.running with
    | false => rw [proceed_of_stopped _ _ _ _ hrunning, proceed_of_stopped _ _ _ _ hrunning]
    | true =>
      cases hcycle : cycle t c s with
      | error e s' =>
        rw [proceed_of_error _ _ _ _ hrunning hcycle, proceed_of_error _ _ _ _ hrunning hcycle]
      | ok a s' =>
        have hreached {l : Int} (hl : l ≠ 0) (hle : l ≤ 1) :
            limitReached l (q.cycles + 1) = true := by
          simp only [limitReached, Bool.and_eq_true, bne_iff_ne, ne_eq, decide_eq_true_eq]
          omega
        rw [proceed_of_cycle _ _ _ _ hrunning hcycle, proceed_of_cycle _ _ _ _ hrunning hcycle, ih,
          State.limited, State.limited, if_pos (hreached (by omega) (by omega)),
          if_pos (hreached (by decide) (by decide))]

/-- Cycles are only added. -/
lemma cycles_le_proceed (limit : Int) (f : Nat) (q : Progress) (s : State) :
    q.cycles ≤ (proceed t c depth limit f q s).cycles := by
  induction f generalizing q s with
  | zero => exact Nat.le_refl _
  | succ f ih =>
    cases hrunning : s.machine.running with
    | false =>
      rw [proceed_of_stopped _ _ _ _ hrunning]
    | true =>
      cases hcycle : cycle t c s with
      | error e s' =>
        rw [proceed_of_error _ _ _ _ hrunning hcycle]
      | ok a s' =>
        rw [proceed_of_cycle _ _ _ _ hrunning hcycle]
        have hrest := ih (q.after depth s a s') (s'.limited limit (q.cycles + 1))
        rw [q.cycles_after] at hrest
        omega

/-- **A run that stops by itself is not changed by a limit that it keeps to.**

**Proof sketch.** By induction on the fuel of the run. At its end the machine is not running, so
nothing changes if it is stopped. -/
theorem cut_proceed_of_stopped {f n : Nat} {q : Progress} {s : State}
    (h : (proceed t c depth 0 f q s).ending = .stopped)
    (hn : (proceed t c depth 0 f q s).cycles ≤ q.cycles + n) :
    (proceed t c depth 0 n q s).cut c = proceed t c depth 0 f q s := by
  induction f generalizing q s n with
  | zero => exact absurd h (by simp [proceed])
  | succ f ih =>
    cases hrunning : s.machine.running with
    | false =>
      rw [proceed_of_stopped _ _ _ _ hrunning]
      cases n with
      | zero =>
        have hmachine : { s.machine with running := false } = s.machine := by rw [← hrunning]
        simp only [proceed, Run.cut, hmachine]
      | succ n =>
        rw [proceed_of_stopped _ _ _ _ hrunning]
        rfl
    | true =>
      cases hcycle : cycle t c s with
      | error e s' =>
        rw [proceed_of_error _ _ _ _ hrunning hcycle] at h
        exact absurd h (by simp)
      | ok a s' =>
        rw [proceed_of_cycle _ _ _ _ hrunning hcycle, State.limited_zero] at h hn ⊢
        have hcycles := q.cycles_after depth s a s'
        have hle : (q.after depth s a s').cycles ≤
            (proceed t c depth 0 f (q.after depth s a s') s').cycles := cycles_le_proceed 0 f _ s'
        obtain ⟨n, rfl⟩ : ∃ m, n = m + 1 := ⟨n - 1, by omega⟩
        rw [proceed_of_cycle _ _ _ _ hrunning hcycle, State.limited_zero]
        exact ih h (by omega)

/-- A run that takes at least so many cycles is not over after as many. -/
lemma outOfFuel_of_le_cycles {limit : Int} {f n : Nat} {q : Progress} {s : State}
    (hn : q.cycles + n ≤ (proceed t c depth limit f q s).cycles) :
    (proceed t c depth limit n q s).ending = .outOfFuel ∧
      (proceed t c depth limit n q s).cycles = q.cycles + n := by
  induction n generalizing f q s with
  | zero => exact ⟨rfl, rfl⟩
  | succ n ih =>
    cases f with
    | zero =>
      simp only [proceed] at hn
      omega
    | succ f =>
      cases hrunning : s.machine.running with
      | false =>
        rw [proceed_of_stopped _ _ _ _ hrunning] at hn
        exact absurd hn (by simp)
      | true =>
        cases hcycle : cycle t c s with
        | error e s' =>
          rw [proceed_of_error _ _ _ _ hrunning hcycle] at hn
          exact absurd hn (by simp)
        | ok a s' =>
          rw [proceed_of_cycle _ _ _ _ hrunning hcycle] at hn ⊢
          have hcycles := q.cycles_after depth s a s'
          have hrest : (q.after depth s a s').cycles + n ≤ (proceed t c depth limit f
              (q.after depth s a s') (s'.limited limit (q.cycles + 1))).cycles := by omega
          obtain ⟨hending, hcount⟩ := ih hrest
          exact ⟨hending, by omega⟩

end Cut

/-! ## Beginnings of a run -/

/-- A table whose handlers take nothing from the log. -/
def Table.Appends (t : Table) : Prop :=
  ∀ b handler, t b = some handler → ∀ c s, s.log.toList <+: (reached (handler c s)).log.toList

lemma Composed.appends {may : Permit} {c : Config} {α : Type} {x : Config → Exec α} {s : State}
    (hx : Composed may c x s) : s.log.toList <+: (reached (x c s)).log.toList := by
  obtain ⟨said, hsaid⟩ := hx.exists_log_eq
  rw [hsaid, Array.toList_append]
  exact List.prefix_append _ _

/-- Whatever it stands on, an opcode without a meaning is announced and skipped, or there is none. -/
lemma composed_unknownHandler_of_true (c : Config) (s : State) :
    Composed (fun _ _ _ => True) c (fun c => unknownHandler c) s := by
  refine .bind (.bind (.act (a := .pointer) trivial) fun p _ _ =>
    .bind (.act (a := .memory) trivial) fun ram _ _ => ?_) fun b _ _ =>
    .bind (.act (a := .pointer) trivial) fun p _ _ =>
      .bind (.act (a := .announce p b) trivial) fun _ _ _ => .act (a := .advance) trivial
  cases ram[p.toNat]? with
  | some b => exact .pure b _
  | none => exact .act (a := .trap (.ram p.toNat)) trivial

/-- The handlers of a new machine take nothing from the log. -/
lemma appends_builtin : Table.builtin.Appends := by
  intro b handler hhandler c s
  rw [Table.builtin] at hhandler
  cases hop : Opcode.ofByte? b with
  | some op =>
    rw [hop] at hhandler
    cases hhandler
    have hcomposed : Composed (fun _ _ _ => True) c (fun c => op.handler c) s :=
      composed_handler (fun _ => trivial) fun _ _ _ _ _ => trivial
    exact hcomposed.appends
  | none =>
    rw [hop] at hhandler
    cases hhandler
    exact (composed_unknownHandler_of_true c s).appends

/-- Nor do those of a table from which a handler is removed. -/
lemma Table.Appends.install_none {t : Table} (ht : t.Appends) (b : UInt8) :
    (t.install b none).Appends := by
  intro b' handler hhandler
  rw [Table.install] at hhandler
  split at hhandler
  · exact absurd hhandler (by simp)
  · exact ht b' handler hhandler

/-- The events of the log up to the end of a run, without the one about its end. -/
def Run.said (r : Run) (c : Config) : List Event :=
  match r.ending with
  | .stopped => if c.verbose then r.state.log.toList.dropLast else r.state.log.toList
  | .halted _ | .outOfFuel => r.state.log.toList

/-- What happened in a run up to some moment comes first in what happened later. -/
structure Run.Begins (c : Config) (r r' : Run) : Prop where
  steps : r.steps.toList <+: r'.steps.toList
  said : r.said c <+: r'.said c

lemma Progress.steps_prefix_after (q : Progress) (depth : Nat) (s : State) (a : UInt8 × Bool)
    (s' : State) : q.steps.toList <+: (q.after depth s a s').steps.toList := by
  rw [Progress.after]
  split
  · rw [Progress.called]
    split
    · rw [Array.toList_push]
      exact List.prefix_append _ _
    · exact List.prefix_rfl
  · exact List.prefix_rfl

section Beginnings

variable {t : Table} (ht : t.Appends) {c : Config} {depth : Nat} {limit : Int}

include ht

lemma appends_cycle (c : Config) (s : State) :
    s.log.toList <+: (reached (cycle t c s)).log.toList := by
  have hbegun : s.log.toList <+: (s.begun c).log.toList := by
    rw [State.begun, State.told]
    split
    · rw [Array.toList_push]
      exact List.prefix_append _ _
    · exact List.prefix_rfl
  rw [cycle_apply]
  cases hhandler : t s.opcode with
  | none => exact hbegun
  | some handler =>
    have hprefix := hbegun.trans (ht _ handler hhandler c (s.begun c))
    cases hrun : handler c (s.begun c) with
    | ok a s' =>
      rw [hrun] at hprefix
      simp only [bind_ok hrun]
      exact hprefix
    | error e s' =>
      rw [hrun] at hprefix
      simp only [bind_error hrun]
      exact hprefix

/-- A run goes on from what has happened.

**Proof sketch.** By induction on the fuel: every cycle adds to the steps and to the log. -/
lemma begins_proceed (c : Config) (depth : Nat) (limit : Int) (f : Nat) (q : Progress) (s : State) :
    (proceed t c depth limit 0 q s).Begins c (proceed t c depth limit f q s) := by
  induction f generalizing q s with
  | zero => exact ⟨List.prefix_rfl, List.prefix_rfl⟩
  | succ f ih =>
    cases hrunning : s.machine.running with
    | false =>
      rw [proceed_of_stopped _ _ _ _ hrunning]
      refine ⟨List.prefix_rfl, ?_⟩
      simp only [Run.said, proceed, State.concluded]
      split
      · rw [Array.toList_push, List.dropLast_concat]
      · exact List.prefix_rfl
    | true =>
      have hlog := appends_cycle ht c s
      cases hcycle : cycle t c s with
      | error e s' =>
        rw [hcycle] at hlog
        rw [proceed_of_error _ _ _ _ hrunning hcycle]
        exact ⟨List.prefix_rfl, hlog⟩
      | ok a s' =>
        rw [hcycle] at hlog
        rw [proceed_of_cycle _ _ _ _ hrunning hcycle]
        have hrest := ih (q.after depth s a s') (s'.limited limit (q.cycles + 1))
        refine ⟨(q.steps_prefix_after depth s a s').trans hrest.steps, ?_⟩
        have hlimited : s'.log.toList <+: (s'.limited limit (q.cycles + 1)).log.toList := by
          rw [State.log_limited]
        exact (hlog.trans hlimited).trans hrest.said

/-- **More fuel shows more of a run.** -/
theorem begins_proceed_of_le {i j : Nat} (hij : i ≤ j) (q : Progress) (s : State) :
    (proceed t c depth limit i q s).Begins c (proceed t c depth limit j q s) := by
  induction i generalizing j q s with
  | zero => exact begins_proceed ht c depth limit j q s
  | succ i ih =>
    obtain ⟨j, rfl⟩ : ∃ k, j = k + 1 := ⟨j - 1, by omega⟩
    cases hrunning : s.machine.running with
    | false =>
      rw [proceed_of_stopped _ _ _ _ hrunning, proceed_of_stopped _ _ _ _ hrunning]
      exact ⟨List.prefix_rfl, List.prefix_rfl⟩
    | true =>
      cases hcycle : cycle t c s with
      | error e s' =>
        rw [proceed_of_error _ _ _ _ hrunning hcycle, proceed_of_error _ _ _ _ hrunning hcycle]
        exact ⟨List.prefix_rfl, List.prefix_rfl⟩
      | ok a s' =>
        rw [proceed_of_cycle _ _ _ _ hrunning hcycle, proceed_of_cycle _ _ _ _ hrunning hcycle]
        exact ih (by omega) _ _

end Beginnings

/-! ## What a run prints -/

/-- What a run prints, if there were so many events in the log when it began. -/
def Run.output (r : Run) (start : Nat) : Bytes :=
  Event.renderAll r.state.log start r.state.log.size

/-- What a run prints before the line about its end. -/
def Run.text (r : Run) (c : Config) (start : Nat) : Bytes :=
  ((r.said c).drop start).flatMap Event.render

/-- The line about the end of a run. It is printed only with explanations. -/
def Run.closing (r : Run) (c : Config) : Bytes :=
  match r.ending with
  | .stopped => if c.verbose then Event.render (.executed r.cycles) else []
  | .halted _ | .outOfFuel => []

/-- Cutting a run short changes neither its steps nor what it says before its end. -/
lemma Run.begins_cut {c : Config} {r r' : Run} (h : r.Begins c r') :
    (r.cut c).Begins c (r'.cut c) := by
  have hsteps (r : Run) : (r.cut c).steps = r.steps := by
    rw [Run.cut]
    split <;> rfl
  have hsaid (r : Run) : (r.cut c).said c = r.said c := by
    cases hending : r.ending with
    | outOfFuel =>
      simp only [Run.cut, Run.said, hending, State.concluded]
      split
      · rw [Array.toList_push, List.dropLast_concat]
      · rfl
    | stopped | halted => simp [Run.cut, Run.said, hending]
  constructor
  · rw [hsteps, hsteps]
    exact h.steps
  · rw [hsaid, hsaid]
    exact h.said

lemma Run.output_cut {r : Run} (h : r.ending = .outOfFuel) {c : Config} (hc : c.verbose = true)
    (start : Nat) :
    (r.cut c).output start = Event.renderAll (r.state.log.push (.executed r.cycles)) start
      (r.state.log.size + 1) := by
  simp [Run.output, Run.cut, h, State.concluded, hc]

/-- With explanations the last event of a run that stops is the one about its end. -/
lemma log_of_stopped {t : Table} {c : Config} {depth : Nat} {limit : Int} {f : Nat} {q : Progress}
    {s : State} (h : (proceed t c depth limit f q s).ending = .stopped) (hc : c.verbose = true) :
    ∃ l, (proceed t c depth limit f q s).state.log.toList =
      l ++ [.executed (proceed t c depth limit f q s).cycles] := by
  induction f generalizing q s with
  | zero => exact absurd h (by simp [proceed])
  | succ f ih =>
    cases hrunning : s.machine.running with
    | false =>
      rw [proceed_of_stopped _ _ _ _ hrunning, State.concluded, if_pos hc]
      exact ⟨s.log.toList, Array.toList_push⟩
    | true =>
      cases hcycle : cycle t c s with
      | error e s' =>
        rw [proceed_of_error _ _ _ _ hrunning hcycle] at h
        exact absurd h (by simp)
      | ok a s' =>
        rw [proceed_of_cycle _ _ _ _ hrunning hcycle] at h ⊢
        exact ih h

/-- **A run prints its text and then the line about its end.** -/
lemma output_run {t : Table} (ht : t.Appends) (c : Config) (depth : Nat) (limit : Int) (f : Nat)
    (s : State) :
    (run t c depth limit f s).output s.log.size =
      (run t c depth limit f s).text c s.log.size ++ (run t c depth limit f s).closing c := by
  have hbegins : s.log.toList <+: (run t c depth limit f s).said c :=
    (begins_proceed ht c depth limit f _ { s with machine := { s.machine with ip := 0 } }).said
  have hoffset : s.log.size ≤ ((run t c depth limit f s).said c).length := hbegins.length_le
  have houtput : (run t c depth limit f s).output s.log.size =
      ((run t c depth limit f s).state.log.toList.drop s.log.size).flatMap Event.render := by
    rw [Run.output, Event.renderAll, Array.toList_extract, List.extract_eq_take_drop,
      List.take_of_length_le (by simp)]
  rw [houtput, Run.text]
  cases hending : (run t c depth limit f s).ending with
  | halted | outOfFuel => simp [Run.said, Run.closing, hending]
  | stopped =>
    cases hverbose : c.verbose with
    | false => simp [Run.said, Run.closing, hending, hverbose]
    | true =>
      obtain ⟨l, hl⟩ := log_of_stopped hending hverbose
      have hlog : (run t c depth limit f s).state.log.toList =
          (run t c depth limit f s).said c ++ [.executed (run t c depth limit f s).cycles] := by
        simp only [Run.said, hending, hverbose, if_true]
        rw [show (run t c depth limit f s).state.log.toList = _ from hl, List.dropLast_concat]
        rfl
      rw [hlog, List.drop_append_of_le_length hoffset, List.flatMap_append, List.flatMap_singleton]
      simp only [Run.closing, hending, hverbose, if_true]

/-- Without explanations the end of a run is not told. -/
lemma Run.closing_terse {c : Config} (hc : c.verbose = false) (r : Run) : r.closing c = [] := by
  rw [Run.closing, hc]
  split <;> rfl

/-- **A limit only truncates a run.** Let the handlers take nothing from the log.

* The steps of a run with a limit are the first steps of any run with a larger limit. What it prints
  comes first in what the other one prints; with explanations, what it prints before the line about
  its end does.
* If the run without a limit stops after `k` cycles, then any limit from `k` on gives the very same
  run. A smaller limit gives a run that stops after as many cycles, and the machine is the one that
  the run without a limit has reached by then, except that it is not running.
* A negative limit is the limit 1.

**Proof sketch.** The run with a limit is the run without a limit, with the limit as its fuel, and
cut short. More fuel shows more of a run, and cutting it short changes neither its steps nor its
text. -/
theorem limit_truncates {t : Table} (ht : t.Appends) (c : Config) (depth : Nat) (s : State) :
    (∀ n m f f' : Nat, 0 < n → n < f → n + m < f' →
      (run t c depth n f s).steps.toList <+: (run t c depth ↑(n + m) f' s).steps.toList ∧
      (c.verbose = false → (run t c depth n f s).output s.log.size <+:
        (run t c depth ↑(n + m) f' s).output s.log.size) ∧
      (run t c depth n f s).text c s.log.size <+: (run t c depth ↑(n + m) f' s).text c s.log.size) ∧
    (∀ (limit : Int) (f : Nat),
      (run t c depth limit f s).output s.log.size =
        (run t c depth limit f s).text c s.log.size ++ (run t c depth limit f s).closing c) ∧
    (∀ F : Nat, (run t c depth 0 F s).ending = .stopped → ∀ n f : Nat, 0 < n → n < f →
      ((run t c depth 0 F s).cycles ≤ n → run t c depth n f s = run t c depth 0 F s) ∧
      (n < (run t c depth 0 F s).cycles →
        (run t c depth 0 n s).ending = .outOfFuel ∧ (run t c depth 0 n s).cycles = n ∧
        (run t c depth n f s).ending = .stopped ∧ (run t c depth n f s).cycles = n ∧
        (run t c depth n f s).state.machine =
          { (run t c depth 0 n s).state.machine with running := false })) ∧
    ∀ limit < 0, ∀ f, run t c depth limit f s = run t c depth 1 f s := by
  refine ⟨fun n m f f' hn hf hf' => ?_,
    fun limit f => output_run ht c depth limit f s,
    fun F hstopped n f hn hf => ⟨fun hk => ?_, fun hk => ?_⟩, fun limit hlimit f => ?_⟩
  · have hbegins : (run t c depth n f s).Begins c (run t c depth ↑(n + m) f' s) := by
      rw [run_limit hn hf, run_limit (by omega) hf']
      exact Run.begins_cut (begins_proceed_of_le ht (by omega) _ _)
    have htext : (run t c depth n f s).text c s.log.size <+:
        (run t c depth ↑(n + m) f' s).text c s.log.size := (hbegins.said.drop _).flatMap _
    refine ⟨hbegins.steps, fun hc => ?_, htext⟩
    rw [output_run ht, output_run ht, Run.closing_terse hc, Run.closing_terse hc, List.append_nil,
      List.append_nil]
    exact htext
  · rw [run_limit hn hf]
    refine cut_proceed_of_stopped hstopped (hk.trans (Nat.le_of_eq ?_))
    exact (Nat.zero_add n).symm
  · have hgoing : (run t c depth 0 n s).ending = .outOfFuel ∧
        (run t c depth 0 n s).cycles = 0 + n :=
      outOfFuel_of_le_cycles (f := F) ((Nat.le_of_eq (Nat.zero_add n)).trans (Nat.le_of_lt hk))
    obtain ⟨hending, hcycles⟩ := hgoing
    rw [Nat.zero_add] at hcycles
    rw [run_limit hn hf]
    simp only [Run.cut, hending, hcycles, true_and, State.concluded_eq_told, machine_told]
  · exact proceed_of_neg hlimit f _ _

/-- A program of two instructions that do nothing, and its end. -/
def idleTwice : Bytes :=
  [(Opcode.plain .nop).toByte, (Opcode.plain .nop).toByte, (Opcode.plain .exit).toByte]

/-- The states after the cycles of the program, with explanations. -/
def idled : Nat → State
  | 0 => loaded idleTwice
  | 1 => {
    machine := { (loaded idleTwice).machine with ip := 1 }
    log := #[.fetched 0 0x50, .decoded (.plain .nop)]
    entropy := {} }
  | 2 => {
    machine := { (loaded idleTwice).machine with ip := 2 }
    log := #[.fetched 0 0x50, .decoded (.plain .nop), .fetched 1 0x50, .decoded (.plain .nop)]
    entropy := {} }
  | _ => {
    machine := { (loaded idleTwice).machine with ip := 3, running := false }
    log := #[.fetched 0 0x50, .decoded (.plain .nop), .fetched 1 0x50, .decoded (.plain .nop),
      .fetched 2 0x00, .decoded (.plain .exit)]
    entropy := {} }

/-- The course of the program without a limit. -/
lemma run_idleTwice (depth : Nat) :
    ((run Table.builtin { verbose := true } depth 0 1 (loaded idleTwice)).state = idled 1 ∧
      (run Table.builtin { verbose := true } depth 0 1 (loaded idleTwice)).cycles = 1 ∧
      (run Table.builtin { verbose := true } depth 0 1 (loaded idleTwice)).ending = .outOfFuel) ∧
    ((run Table.builtin { verbose := true } depth 0 2 (loaded idleTwice)).state = idled 2 ∧
      (run Table.builtin { verbose := true } depth 0 2 (loaded idleTwice)).cycles = 2 ∧
      (run Table.builtin { verbose := true } depth 0 2 (loaded idleTwice)).ending = .outOfFuel) ∧
    (run Table.builtin { verbose := true } depth 0 4 (loaded idleTwice)).cycles = 3 ∧
    (run Table.builtin { verbose := true } depth 0 4 (loaded idleTwice)).ending = .stopped := by
  have hfirst : cycle Table.builtin { verbose := true } (loaded idleTwice) =
      .ok (0x50, true) (idled 1) :=
    @cycle_of_drop idleTwice _ _ (loaded idleTwice) 0 rfl rfl rfl { verbose := true } (by decide)
      (List.forall_mem_nil _)
  have hsecond : cycle Table.builtin { verbose := true } (idled 1) = .ok (0x50, true) (idled 2) :=
    @cycle_of_drop idleTwice _ _ (idled 1) 1 rfl rfl rfl { verbose := true } (by decide)
      (List.forall_mem_nil _)
  have hthird : cycle Table.builtin { verbose := true } (idled 2) = .ok (0x00, true) (idled 3) :=
    @cycle_of_drop idleTwice _ _ (idled 2) 2 rfl rfl rfl { verbose := true } (by decide)
      (List.forall_mem_nil _)
  have hrun (f : Nat) : run Table.builtin { verbose := true } depth 0 f (loaded idleTwice) =
      proceed Table.builtin { verbose := true } depth 0 f (Progress.start (loaded idleTwice))
        (loaded idleTwice) := rfl
  refine ⟨?_, ?_, ?_⟩
  · rw [hrun, proceed_of_cycle _ _ _ _ rfl hfirst]
    exact ⟨rfl, Progress.cycles_after .., rfl⟩
  · rw [hrun, proceed_of_cycle _ _ _ _ rfl hfirst, State.limited_zero,
      proceed_of_cycle _ _ _ _ rfl hsecond]
    refine ⟨rfl, ?_, rfl⟩
    simp only [proceed, Progress.cycles_after]
    rfl
  · rw [hrun, proceed_of_cycle _ _ _ _ rfl hfirst, State.limited_zero,
      proceed_of_cycle _ _ _ _ rfl hsecond, State.limited_zero,
      proceed_of_cycle _ _ _ _ rfl hthird, State.limited_zero, proceed_of_stopped _ _ _ _ rfl]
    simp only [Progress.cycles_after, and_true]
    rfl

theorem limit_truncates_idleTwice :
    (run Table.builtin { verbose := true } 64 1 2 (loaded idleTwice)).steps.toList <+:
      (run Table.builtin { verbose := true } 64 2 3 (loaded idleTwice)).steps.toList ∧
    run Table.builtin { verbose := true } 64 3 4 (loaded idleTwice) =
      run Table.builtin { verbose := true } 64 0 4 (loaded idleTwice) ∧
    (run Table.builtin { verbose := true } 64 2 3 (loaded idleTwice)).state.machine =
      { (idled 2).machine with running := false } ∧
    run Table.builtin { verbose := true } 64 (-7) 4 (loaded idleTwice) =
      run Table.builtin { verbose := true } 64 1 4 (loaded idleTwice) ∧
    (run (Table.builtin.install 0x50 none) {} 64 1 2 (loaded idleTwice)).output 0 <+:
      (run (Table.builtin.install 0x50 none) {} 64 2 3 (loaded idleTwice)).output 0 := by
  obtain ⟨hbegins, -, hstops, hneg⟩ :=
    limit_truncates appends_builtin { verbose := true } 64 (loaded idleTwice)
  obtain ⟨-, ⟨hstate, -⟩, hcycles, hstopped⟩ := run_idleTwice 64
  obtain ⟨hsteps, -⟩ := hbegins 1 1 2 3 (by decide) (by decide) (by decide)
  obtain ⟨hsame, -⟩ := hstops 4 hstopped 3 4 (by decide) (by decide)
  obtain ⟨-, hcut⟩ := hstops 4 hstopped 2 3 (by decide) (by decide)
  obtain ⟨-, -, -, -, hmachine⟩ := hcut (by omega)
  rw [hstate] at hmachine
  have hequal := hsame (by omega)
  -- An opcode may also be without a handler, and nothing need be explained.
  obtain ⟨hnone, -⟩ := limit_truncates (appends_builtin.install_none 0x50) {} 64 (loaded idleTwice)
  obtain ⟨-, hterse, -⟩ := hnone 1 1 2 3 (by decide) (by decide) (by decide)
  have houtput := hterse rfl
  simp only [Nat.reduceAdd, Int.cast_ofNat_Int] at hsteps hequal hmachine houtput
  exact ⟨hsteps, hequal, hmachine, hneg (-7) (by decide) 4, houtput⟩

/-- With explanations, the line about the end of a run is in the way: the run with the limit 1 ends
where the run with the limit 2 goes on. -/
theorem not_output_prefix_idleTwice :
    ¬(run Table.builtin { verbose := true } 0 1 2 (loaded idleTwice)).output 0 <+:
      (run Table.builtin { verbose := true } 0 2 3 (loaded idleTwice)).output 0 := by
  obtain ⟨⟨hstate₁, hcycles₁, hending₁⟩, ⟨hstate₂, hcycles₂, hending₂⟩, -⟩ := run_idleTwice 0
  have hone := @run_limit Table.builtin { verbose := true } 0 1 2 (by decide) (by decide)
    (loaded idleTwice)
  have htwo := @run_limit Table.builtin { verbose := true } 0 2 3 (by decide) (by decide)
    (loaded idleTwice)
  simp only [Int.cast_ofNat_Int] at hone htwo
  rw [hone, htwo, Run.output_cut hending₁ rfl, Run.output_cut hending₂ rfl, hstate₁, hstate₂, hcycles₁,
    hcycles₂]
  decide

end RegisterMachine
