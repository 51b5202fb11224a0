import RegisterMachine.Proofs.Runs

/-!
# Explanations

A user may ask for explanations. The machine then says what it reads and does, in every instruction and
at the end of a run, and shows what a program prints in other words. This is all that it does
otherwise: with explanations and without, a run goes through the same machines, takes the same things
from the host and ends in the same way, at the same instruction. What is said without explanations is
what is said with them, less the explanations and in fewer words.

## Main definitions

* `Event.terse?` — what is said without explanations where an event is said with them.
* `terse`, `State.terse`, `Step.terse`, `Run.terse` — a log, a state, a recorded step and a run without
  the explanations.

## Main results

* `cycle_terse` — one cycle, with and without explanations.
* `proceed_terse` — a run without explanations is the run with explanations, less these.
* `run_verbose` — explanations change nothing but what is said.
-/

namespace RegisterMachine

open Effect Exec

/-! ## Leaving explanations out -/

/-- What is decided before execution, with explanations or without. -/
def Config.talking (c : Config) (b : Bool) : Config := { c with verbose := b }

/-- What is said without explanations where an event is said with them. -/
def Event.terse? : Event → Option Event
  | .fetched _ _ | .decoded _ | .comparing _ _ _ | .poking _ _ | .copying _ _ _ | .pushing _ _
  | .popped _ _ | .returned _ | .executed _ => none
  | .showInt _ r n => some (.showInt false r n)
  | .showText _ r t => some (.showText false r t)
  | .unknown p b => some (.unknown p b)
  | .command t => some (.command t)
  | .skipped t => some (.skipped t)
  | .reported e => some (.reported e)
  | .note t => some (.note t)

lemma Event.IsExplanation.terse?_eq_none {e : Event} (h : e.IsExplanation) : e.terse? = none := by
  cases e with
  | unknown | showInt | showText | command | skipped | executed | reported | note => exact h.elim
  | _ => rfl

/-- A log without the explanations. -/
def terse (log : Array Event) : Array Event := log.filterMap Event.terse?

@[simp]
lemma terse_append (l l' : Array Event) : terse (l ++ l') = terse l ++ terse l' :=
  Array.filterMap_append Array.size_append

/-- A state without the explanations in its log. -/
def State.terse (s : State) : State := { s with log := RegisterMachine.terse s.log }

/-- A recorded step without the explanations. -/
def Step.terse (s : Step) : Step := { s with events := RegisterMachine.terse s.events }

/-- What is counted and recorded on the way, if nothing had been explained. -/
def Progress.terse (q : Progress) (log : Array Event) : Progress :=
  { q with
    steps := q.steps.map Step.terse
    covered := (RegisterMachine.terse (log.extract 0 q.covered)).size }

/-- A run without the explanations. -/
def Run.terse (r : Run) : Run :=
  { r.toProgress.terse r.state.log with state := r.state.terse, ending := r.ending }

/-! ## One cycle -/

/-- What comes of an action, less the explanations. -/
def Answer.terse {α : Type} (o : Answer α) : Answer α := { o with said := RegisterMachine.terse o.said }

/-- **What an action does is the same with explanations and without**, but for what is said. -/
lemma State.Acts.outcome_talking {α : Type} {a : Action α} {c : Config} {s t : State}
    (ha : s.Acts (c.talking true) α t a) :
    a.outcome (c.talking false) t.machine t.entropy =
      (a.outcome (c.talking true) t.machine t.entropy).map Answer.terse := by
  cases a with
  | explain e =>
    have he : e.IsExplanation := by
      cases ha with
      | reads h => exact h
      | does _ _ h => exact h
    have hnone : RegisterMachine.terse #[e] = #[] := by simp [RegisterMachine.terse, he.terse?_eq_none]
    simp [Action.outcome, Config.talking, Except.map, Answer.terse, hnone]
  | register | setRegister | slot | setSlot | report =>
    simp only [Action.outcome, Config.talking]
    split <;> rfl
  | allot count =>
    change (if count < c.block then _ else _) = Except.map _ (if count < c.block then _ else _)
    split <;> rfl
  | command t =>
    change (if c.skipCommands then _ else _) = Except.map _ (if c.skipCommands then _ else _)
    split <;> rfl
  | _ => rfl

/-- **One cycle, with and without explanations**: what it finds and what it does is the same, and less
is said.

**Proof sketch.** The code is read and the instruction carried out in the same actions, and each does the
same either way. -/
theorem cycle_terse (c : Config) (s : State) :
    Related (fun t t' => t' = t.terse) (fun _ => False) (cycle Table.builtin (c.talking true) s)
      (cycle Table.builtin (c.talking false) s.terse) := by
  refine (composed_cycle (c.talking true) s).related ?_ rfl
  rintro α a t _ ha rfl
  rw [a.run_apply, a.run_apply]
  change Related _ _ _ (t.terse.settle (a.outcome (c.talking false) t.machine t.entropy))
  rw [ha.outcome_talking]
  cases a.outcome (c.talking true) t.machine t.entropy with
  | error h => exact .error rfl
  | ok o => exact .ok (by simp [State.terse, Answer.terse])

/-! ## Runs -/

variable {c : Config} {depth : Nat} {limit : Int} {fuel : Nat}

/-- What is covered by the recorded steps does not change when something is said. -/
lemma Progress.terse_append {q : Progress} {log : Array Event} (hq : q.covered ≤ log.size)
    (said : Array Event) : q.terse (log ++ said) = q.terse log := by
  simp [Progress.terse, Array.extract_append, hq]

lemma State.terse_limited (s : State) (limit : Int) (k : Nat) :
    (s.limited limit k).terse = s.terse.limited limit k := by
  rw [State.limited, State.limited]
  split <;> rfl

/-- What is said behind a part of the log. -/
lemma terse_extract {log : Array Event} {k : Nat} (hk : k ≤ log.size) :
    terse (log.extract k log.size) =
      (terse log).extract (terse (log.extract 0 k)).size (terse log).size := by
  have hsplit : log = log.extract 0 k ++ log.extract k log.size := by
    rw [Array.extract_append_extract, Nat.min_eq_left (Nat.zero_le k), Nat.max_eq_right hk,
      Array.extract_size]
  have hterse : terse log = terse (log.extract 0 k) ++ terse (log.extract k log.size) := by
    rw [← terse_append, ← hsplit]
  rw [hterse]
  simp [Array.extract_append]

/-- A call is recorded in the same way, less the explanations. -/
lemma Progress.terse_after {q : Progress} {s s' : State} {said : Array Event}
    (hlog : s'.log = s.log ++ said) (hq : q.covered ≤ s.log.size) (depth : Nat) (a : UInt8 × Bool) :
    (q.terse s.log).after depth s.terse a s'.terse = (q.after depth s a s').terse s'.log := by
  have hq' : q.covered ≤ s'.log.size := by
    rw [hlog, Array.size_append]
    omega
  have hterse : q.terse s.log = q.terse s'.log := by rw [hlog, Progress.terse_append hq]
  rw [hterse]
  obtain ⟨opcode, handled⟩ := a
  cases handled with
  | false => rfl
  | true =>
    simp only [Progress.after, if_true, Progress.called, Progress.terse, Array.size_map]
    split
    · simp [State.terse, Step.terse, terse_extract hq']
    · rfl

lemma Progress.covered_after {q : Progress} {s s' : State} (hq : q.covered ≤ s'.log.size) (depth : Nat)
    (a : UInt8 × Bool) : (q.after depth s a s').covered ≤ s'.log.size := by
  rw [Progress.after]
  split
  · rw [Progress.called]
    dsimp only
    split
    · exact Nat.le_refl _
    · exact hq
  · exact hq

/-- **A run without explanations is the run with explanations, less these.**

**Proof sketch.** By induction on the fuel. One cycle is the same either way, less the explanations, and
so is the line about the end of the run, which is one. -/
theorem proceed_terse {q : Progress} {s : State} (hq : q.covered ≤ s.log.size) :
    proceed Table.builtin (c.talking false) depth limit fuel (q.terse s.log) s.terse =
      (proceed Table.builtin (c.talking true) depth limit fuel q s).terse := by
  induction fuel generalizing q s with
  | zero => rfl
  | succ fuel ih =>
    cases hrunning : s.machine.running with
    | false =>
      have hlast : s.concluded (c.talking true) q.cycles =
          { s with log := s.log ++ #[.executed q.cycles] } := by
        rw [← Array.push_eq_append]
        rfl
      have hnone : terse #[Event.executed q.cycles] = #[] := rfl
      rw [proceed_of_stopped (s := s.terse) _ _ _ _ hrunning, proceed_of_stopped _ _ _ _ hrunning,
        hlast, Run.terse, Progress.terse_append hq, State.terse, State.terse, terse_append, hnone,
        Array.append_empty]
      rfl
    | true =>
      obtain ⟨said, hlog⟩ := (composed_cycle (c.talking true) s).exists_log_eq
      have hcycle := cycle_terse c s
      generalize hloud : cycle Table.builtin (c.talking true) s = r at hcycle
      generalize hquiet : cycle Table.builtin (c.talking false) s.terse = r' at hcycle
      rw [hloud] at hlog
      cases hcycle with
      | free h => exact h.elim
      | @error e s' _ h =>
        subst h
        rw [proceed_of_error (s := s.terse) _ _ _ _ hrunning hquiet,
          proceed_of_error _ _ _ _ hrunning hloud, ← q.terse_append hq said, ← hlog]
        rfl
      | @ok a s' _ h =>
        subst h
        have hlog' : s'.log = s.log ++ said := hlog
        have hle : q.covered ≤ s'.log.size := by
          rw [hlog', Array.size_append]
          omega
        have hrest := ih (q := q.after depth s a s') (s := s'.limited limit (q.cycles + 1))
          (by rw [State.log_limited]; exact Progress.covered_after hle depth a)
        rw [State.log_limited, ← Progress.terse_after hlog' hq, State.terse_limited] at hrest
        rw [proceed_of_cycle (s := s.terse) _ _ _ _ hrunning hquiet,
          proceed_of_cycle _ _ _ _ hrunning hloud]
        exact hrest

/-- The same from the beginning of the memory. -/
theorem run_terse (c : Config) (depth : Nat) (limit : Int) (fuel : Nat) (m : Machine)
    (entropy : Entropy) :
    run Table.builtin (c.talking false) depth limit fuel ⟨m, #[], entropy⟩ =
      (run Table.builtin (c.talking true) depth limit fuel ⟨m, #[], entropy⟩).terse := by
  let start : State := ⟨{ m with ip := 0 }, #[], entropy⟩
  have hstart : (Progress.start start).terse start.log = .start start.terse := by
    simp [Progress.start, Progress.terse, State.terse, start]
  have hcovered : (Progress.start start).covered ≤ start.log.size := Nat.le_refl _
  have hrun := @proceed_terse c depth limit fuel (.start start) start hcovered
  rw [hstart] at hrun
  exact hrun

/-- What a run comes to does not depend on whether it is explained. -/
lemma run_talking (c : Config) (depth : Nat) (limit : Int) (fuel : Nat) (m : Machine)
    (entropy : Entropy) :
    (run Table.builtin c depth limit fuel ⟨m, #[], entropy⟩).state.machine =
        (run Table.builtin (c.talking false) depth limit fuel ⟨m, #[], entropy⟩).state.machine ∧
      (run Table.builtin c depth limit fuel ⟨m, #[], entropy⟩).ending =
        (run Table.builtin (c.talking false) depth limit fuel ⟨m, #[], entropy⟩).ending := by
  cases hverbose : c.verbose with
  | false =>
    have hc : c.talking false = c := by rw [Config.talking, ← hverbose]
    rw [hc]
    exact ⟨rfl, rfl⟩
  | true =>
    have hc : c.talking true = c := by rw [Config.talking, ← hverbose]
    rw [run_terse, hc]
    exact ⟨rfl, rfl⟩

end RegisterMachine
