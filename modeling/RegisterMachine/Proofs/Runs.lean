import RegisterMachine.Proofs.Composition

/-!
# Runs, cycle by cycle

A run is one cycle after another. After each of them the machine may be stopped by the limit, which
changes nothing else. The log grows from cycle to cycle and with the fuel, and nothing is ever taken
from it.

## Main definitions

* `Progress.after` — what has been counted and recorded after one more cycle.
* `Run.Going` — a run that is not over.

## Main results

* `proceed_of_cycle`, `proceed_of_error`, `proceed_of_stopped` — the first cycle of a run.
* `proceed_add` — a run that is not over goes on from where it is.
* `mem_log_proceed`, `mem_log_proceed_of_le` — what is in the log stays there.
-/

namespace RegisterMachine

open Exec

/-! ## Limits -/

/-- A positive limit is reached after as many cycles. -/
lemma limitReached_natCast {n k : Nat} : limitReached n k = true ↔ 0 < n ∧ n ≤ k := by
  simp only [limitReached, Bool.and_eq_true, bne_iff_ne, ne_eq, decide_eq_true_eq]
  omega

/-- The limit 0 is none. -/
lemma State.limited_zero (s : State) (k : Nat) : s.limited 0 k = s := rfl

/-- A machine that is not running does not run again because of a limit. -/
lemma State.running_limited {t : State} (h : t.machine.running = false) (limit : Int) (k : Nat) :
    (t.limited limit k).machine.running = false := by
  rw [State.limited]
  split
  · rfl
  · exact h

lemma State.log_limited (s : State) (limit : Int) (k : Nat) : (s.limited limit k).log = s.log := by
  rw [State.limited]
  split <;> rfl

/-- The number of cycles is an explanation like any other. -/
lemma State.concluded_eq_told (s : State) (c : Config) (k : Nat) :
    s.concluded c k = s.told c (.executed k) := rfl

/-! ## Cycles of a run -/

/-- What has been counted and recorded after one more cycle, from one state to another. -/
def Progress.after (q : Progress) (depth : Nat) (s : State) (a : UInt8 × Bool) (s' : State) :
    Progress :=
  if a.2 then q.called depth (Address.ofPointer s.machine.ip) a.1 s.machine.registers s' else q.idle

lemma Progress.cycles_after (q : Progress) (depth : Nat) (s : State) (a : UInt8 × Bool)
    (s' : State) : (q.after depth s a s').cycles = q.cycles + 1 := by
  rw [Progress.after]
  split
  · rw [Progress.called]
    split <;> rfl
  · rfl

/-- A run that is not over: it was given no more fuel, but there is a next cycle. -/
def Run.Going (r : Run) : Prop := r.ending = .outOfFuel ∧ r.state.machine.running = true

section Proceeding

variable {table : Table} {c : Config} (depth : Nat) (limit : Int) (fuel : Nat) (q : Progress)
  {s s' : State}

/-- A cycle that gives a result, and what is left of the run after it. -/
lemma proceed_of_cycle {a : UInt8 × Bool} (hrunning : s.machine.running = true)
    (hcycle : cycle table c s = .ok a s') :
    proceed table c depth limit (fuel + 1) q s =
      proceed table c depth limit fuel (q.after depth s a s')
        (s'.limited limit (q.cycles + 1)) := by
  rw [proceed, if_pos hrunning, hcycle, ← q.cycles_after depth s a s']
  rfl

lemma proceed_of_ok {a : UInt8 × Bool} (hrunning : s.machine.running = true)
    (hcycle : cycle table c s = .ok a s') :
    ∃ q' : Progress, q'.cycles = q.cycles + 1 ∧
      proceed table c depth limit (fuel + 1) q s =
        proceed table c depth limit fuel q' (s'.limited limit (q.cycles + 1)) :=
  ⟨_, q.cycles_after depth s a s', proceed_of_cycle depth limit fuel q hrunning hcycle⟩

/-- A cycle that ends early ends the run. -/
lemma proceed_of_error {e : Halt} (hrunning : s.machine.running = true)
    (hcycle : cycle table c s = .error e s') :
    proceed table c depth limit (fuel + 1) q s =
      { q with calls := q.calls + 1, state := s', ending := .halted e } := by
  rw [proceed, if_pos hrunning, hcycle]

/-- A machine that is not running any more ends the run. -/
lemma proceed_of_stopped (hstopped : s.machine.running = false) :
    proceed table c depth limit (fuel + 1) q s =
      { q with state := s.concluded c q.cycles, ending := .stopped } := by
  rw [proceed, if_neg (by rw [hstopped]; exact Bool.false_ne_true)]

end Proceeding

/-! ## Runs in parts -/

section Parts

variable {table : Table} {c : Config} {depth : Nat} {limit : Int} {q : Progress} {s : State}

/-- The first cycle of a run that is not over after it gave a result. -/
lemma exists_cycle_of_outOfFuel {k : Nat}
    (h : (proceed table c depth limit (k + 1) q s).ending = .outOfFuel) :
    s.machine.running = true ∧ ∃ a s', cycle table c s = .ok a s' := by
  cases hrunning : s.machine.running with
  | false =>
    rw [proceed_of_stopped _ _ _ _ hrunning] at h
    exact absurd h (by simp)
  | true =>
    cases hcycle : cycle table c s with
    | error e s' =>
      rw [proceed_of_error _ _ _ _ hrunning hcycle] at h
      exact absurd h (by simp)
    | ok a s' => exact ⟨rfl, a, s', rfl⟩

/-- **A run that is not over goes on from where it is.** -/
theorem proceed_add {k : Nat} (h : (proceed table c depth limit k q s).ending = .outOfFuel)
    (j : Nat) :
    proceed table c depth limit (k + j) q s =
      proceed table c depth limit j (proceed table c depth limit k q s).toProgress
        (proceed table c depth limit k q s).state := by
  induction k generalizing q s with
  | zero => rw [Nat.zero_add, proceed]
  | succ k ih =>
    obtain ⟨hrunning, a, s', hcycle⟩ := exists_cycle_of_outOfFuel h
    rw [proceed_of_cycle _ _ _ _ hrunning hcycle] at h
    rw [Nat.add_right_comm, proceed_of_cycle _ _ _ _ hrunning hcycle,
      proceed_of_cycle _ _ _ _ hrunning hcycle]
    exact ih h

/-- A run that is not over has taken as many cycles as it was given fuel. -/
lemma cycles_of_outOfFuel {k : Nat} (h : (proceed table c depth limit k q s).ending = .outOfFuel) :
    (proceed table c depth limit k q s).cycles = q.cycles + k := by
  induction k generalizing q s with
  | zero => rfl
  | succ k ih =>
    obtain ⟨hrunning, a, s', hcycle⟩ := exists_cycle_of_outOfFuel h
    rw [proceed_of_cycle _ _ _ _ hrunning hcycle] at h ⊢
    rw [ih h, q.cycles_after]
    omega

/-- A run that is not over was not over before. -/
lemma going_of_outOfFuel {k n : Nat} (hk : k < n)
    (h : (proceed table c depth limit n q s).ending = .outOfFuel) :
    (proceed table c depth limit k q s).Going := by
  obtain ⟨n, rfl⟩ : ∃ m, n = m + 1 := ⟨n - 1, by omega⟩
  obtain ⟨hrunning, a, s', hcycle⟩ := exists_cycle_of_outOfFuel h
  induction k generalizing n q s a s' with
  | zero => exact ⟨rfl, hrunning⟩
  | succ k ih =>
    obtain ⟨n, rfl⟩ : ∃ m, n = m + 1 := ⟨n - 1, by omega⟩
    rw [proceed_of_cycle _ _ _ _ hrunning hcycle] at h ⊢
    obtain ⟨hrunning', a', s'', hcycle'⟩ := exists_cycle_of_outOfFuel h
    exact ih n (by omega) h hrunning' a' s'' hcycle'

end Parts

/-! ## The log of a run -/

section Log

variable {c : Config} {depth : Nat} {limit : Int} {s : State} {q : Progress} {e : Event}

/-- A run takes nothing from the log. -/
lemma mem_log_proceed (c : Config) (depth : Nat) (limit : Int) (fuel : Nat) (q : Progress)
    (he : e ∈ s.log) : e ∈ (proceed Table.builtin c depth limit fuel q s).state.log := by
  induction fuel generalizing q s with
  | zero => exact he
  | succ fuel ih =>
    cases hrunning : s.machine.running with
    | false =>
      rw [proceed_of_stopped depth limit fuel q hrunning]
      exact mem_log_told c he
    | true =>
      have hmem := (composed_cycle c s).mem_log he
      cases hcycle : cycle Table.builtin c s with
      | error h s' =>
        rw [hcycle] at hmem
        rw [proceed_of_error depth limit fuel q hrunning hcycle]
        exact hmem
      | ok a s' =>
        rw [hcycle] at hmem
        rw [proceed_of_cycle depth limit fuel q hrunning hcycle]
        exact ih _ (by rwa [State.log_limited])

/-- With more fuel the log of a run only grows. -/
lemma mem_log_proceed_of_le {k n : Nat} (hkn : k ≤ n)
    (he : e ∈ (proceed Table.builtin c depth limit k q s).state.log) :
    e ∈ (proceed Table.builtin c depth limit n q s).state.log := by
  induction k generalizing n q s with
  | zero => exact mem_log_proceed c depth limit n q he
  | succ k ih =>
    obtain ⟨n, rfl⟩ : ∃ j, n = j + 1 := ⟨n - 1, by omega⟩
    cases hrunning : s.machine.running with
    | false =>
      rw [proceed_of_stopped _ _ _ _ hrunning] at he ⊢
      exact he
    | true =>
      cases hcycle : cycle Table.builtin c s with
      | error h s' =>
        rw [proceed_of_error _ _ _ _ hrunning hcycle] at he ⊢
        exact he
      | ok a s' =>
        rw [proceed_of_cycle _ _ _ _ hrunning hcycle] at he ⊢
        exact ih (by omega) he

end Log

end RegisterMachine
