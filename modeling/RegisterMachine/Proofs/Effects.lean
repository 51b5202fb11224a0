import Mathlib.Tactic.Lemma

/-!
# Programs over a state

The assembler and the machine are both programs over a state that may end early. A run of such a
program is put together from the runs of its parts, and taken apart into them.

## Main results

* `Effect.bind_ok`, `Effect.bind_error` — the run of a sequence, from the run of its first part.
* `Effect.bind_eq_bind` — sequences whose first parts run alike.
* `Effect.of_bind_ok` — the parts of a sequence that gave a result.
-/

namespace RegisterMachine.Effect

variable {ε σ α β : Type} {x : EStateM ε σ α} {f : α → EStateM ε σ β} {s s' : σ}

/-- What follows a part that gives a result. -/
lemma bind_ok {a : α} (h : x s = .ok a s') : (x >>= f) s = f a s' := by
  change EStateM.bind x f s = _
  rw [EStateM.bind, h]

/-- Nothing follows a part that ends early. -/
lemma bind_error {e : ε} (h : x s = .error e s') : (x >>= f) s = .error e s' := by
  change EStateM.bind x f s = _
  rw [EStateM.bind, h]

/-- Two sequences run alike if their first parts do. -/
lemma bind_eq_bind {y : EStateM ε σ α} (h : x s = y s') : (x >>= f) s = (y >>= f) s' := by
  change EStateM.bind x f s = EStateM.bind y f s'
  rw [EStateM.bind, EStateM.bind, h]

/-- A program that ends early gives no result. -/
lemma throw_ne_ok {e : ε} {a : α} : (throw e : EStateM ε σ α) s ≠ .ok a s' := by
  intro h
  change EStateM.Result.error e s = .ok a s' at h
  cases h

/-- The first part of a sequence that gives a result gives one too. -/
lemma of_bind_ok {b : β} {s'' : σ} (h : (x >>= f) s = .ok b s'') :
    ∃ a s', x s = .ok a s' ∧ f a s' = .ok b s'' := by
  cases hx : x s with
  | ok a s' =>
    rw [bind_ok hx] at h
    exact ⟨a, s', rfl, h⟩
  | error e s' =>
    rw [bind_error hx] at h
    exact absurd h (by simp)

end RegisterMachine.Effect
