import RegisterMachine.Proofs.Drafting

/-!
# What is remarked on

Only two kinds of lines are remarked on while a source is worked on: labels and lines of no known
form. What is remarked on a label depends on the labels before it. The numbers and texts that other
lines write, and the faults that end the work, leave the remarks as they are.

## Main definitions

* `Draft.left` — the draft that a piece of work leaves.
* `Statement.remarks` — what is remarked on a statement.

## Main results

* `Draft.notices_left_statement` — a statement adds its remarks to those before.
* `Draft.quiet_fillAll` — the filling in adds none.
-/

namespace RegisterMachine

open Effect

/-- What is remarked on a statement, given the work before it. -/
def Statement.remarks (d : Draft) : Statement → List Notice
  | label name =>
    (if (d.labels.lookup name).getD 0 != 0 then [.repeatedLabel name] else []) ++
      (if Draft.looksNumeric name then [.numericLabel name] else [])
  | unknown line => [.unknownLine line]
  | _ => []

namespace Draft

/-- The draft that a piece of work leaves, whether or not a fault has ended it. -/
def left (x : Drafting Unit) (d : Draft) : Draft :=
  match x d with
  | .ok _ d' => d'
  | .error _ d' => d'

lemma left_of_ok {x : Drafting Unit} {d d' : Draft} (h : x d = .ok () d') : left x d = d' := by
  rw [left, h]

lemma left_of_error {x : Drafting Unit} {d d' : Draft} {f : Fault} (h : x d = .error f d') :
    left x d = d' := by
  rw [left, h]

/-- A piece of work that makes no remarks. -/
def Quiet (x : Drafting Unit) : Prop := ∀ d, (left x d).notices = d.notices

lemma quiet_pure : Quiet (pure ()) := fun _ => rfl

lemma quiet_throw (f : Fault) : Quiet (throw f) := fun _ => rfl

/-- A change of anything but the remarks. -/
lemma quiet_modify {f : Draft → Draft} (h : ∀ d, (f d).notices = d.notices) : Quiet (modify f) := h

/-- Quiet work one after the other is quiet, wherever a fault ends it. -/
lemma Quiet.bind {x y : Drafting Unit} (hx : Quiet x) (hy : Quiet y) :
    Quiet (x >>= fun _ => y) := by
  intro d
  have hfirst := hx d
  cases h : x d with
  | ok _ d' =>
    rw [left_of_ok h] at hfirst
    rw [left, bind_ok h]
    exact (hy d').trans hfirst
  | error f d' =>
    rw [left_of_error h] at hfirst
    rw [left_of_error (bind_error h)]
    exact hfirst

lemma quiet_put (q : Quantity) : Quiet (put q) := by
  rw [put]
  cases q.character with
  | error f => exact quiet_throw f
  | ok n => exact quiet_modify fun _ => rfl

lemma quiet_putAll (qs : List Quantity) : Quiet (putAll qs) := by
  induction qs with
  | nil => exact quiet_pure
  | cons q qs ih => exact (quiet_put q).bind ih

lemma quiet_putWord (front : List Quantity) (t : Target) : Quiet (putWord front t) := by
  cases t with
  | number q => exact quiet_putAll _
  | label name => exact (quiet_putAll _).bind (quiet_modify fun _ => rfl)

lemma quiet_putItems (items : List Item) : Quiet (putItems items) := by
  induction items with
  | nil => exact quiet_pure
  | cons item items ih =>
    rw [putItems]
    split
    · exact (quiet_throw _).bind ((quiet_put _).bind ih)
    · exact (quiet_put _).bind ih

/-- What is remarked on a label. -/
lemma notices_left_defineLabel (name : Bytes) (d : Draft) :
    (left (defineLabel name) d).notices.toList =
      d.notices.toList ++ (Statement.label name).remarks d := by
  have hget : (get : Drafting Draft) d = .ok d d := rfl
  rw [left, defineLabel, bind_ok hget, Statement.remarks]
  cases (d.labels.lookup name).getD 0 != 0 <;> cases looksNumeric name
  · exact (List.append_nil _).symm
  · exact Array.toList_push
  · exact Array.toList_push
  · change ((d.notices.push _).push _).toList = _
    rw [Array.toList_push, Array.toList_push, List.append_assoc]
    rfl

/-- **A statement adds its remarks to those before.** -/
theorem notices_left_statement (s : Statement) (d : Draft) :
    (left (statement s) d).notices.toList = d.notices.toList ++ s.remarks d := by
  have hquiet : Quiet (statement s) → s.remarks d = [] →
      (left (statement s) d).notices.toList = d.notices.toList ++ s.remarks d := by
    intro hs hnone
    rw [hs d, hnone, List.append_nil]
  cases s with
  | label name => exact notices_left_defineLabel name d
  | unknown line => exact Array.toList_push
  | skip => exact hquiet quiet_pure rfl
  | plain | unary | binary | ternary | service => exact hquiet (quiet_putAll _) rfl
  | branch op t => exact hquiet (quiet_putWord _ _) rfl
  | immediate op r t =>
    refine hquiet ?_ rfl
    cases op with
    | compare => exact quiet_putWord _ _
    | store =>
      cases t with
      | label name => exact quiet_putWord [opcode (.immediate .store), r] (.label name)
      | number q =>
        rw [statement]
        split
        · exact quiet_throw _
        · exact quiet_putWord _ _
  | literal op r t =>
    exact hquiet ((quiet_putWord _ _).bind (quiet_modify fun _ => rfl)) rfl
  | data items => exact hquiet (quiet_putItems items) rfl

lemma quiet_fill (position : Nat) (name : Bytes) : Quiet (fill position name) := by
  intro d
  have hget : (get : Drafting Draft) d = .ok d d := rfl
  rw [left, fill, bind_ok hget]
  cases d.labels.lookup name with
  | none => rfl
  | some offset => rfl

/-- The filling in makes no remarks. -/
lemma quiet_fillAll (refs : List (Nat × Bytes)) : Quiet (fillAll refs) := by
  induction refs with
  | nil => exact quiet_pure
  | cons r refs ih => exact (quiet_fill r.1 r.2).bind ih

end Draft

end RegisterMachine
