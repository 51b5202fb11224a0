import RegisterMachine.Listing
import Mathlib.Tactic.Lemma

/-!
# The lines of a listing

A listing takes the code apart line by line, and each line begins where the one before it ends.
The lines are collected in an accumulator; here they are given by plain recursion over the code,
and a line is found again in the code at its address.

## Main definitions

* `Listing.span` — the number of bytes that the line at an address covers. These may be more than
  the code has.
* `Listing.Complete` — code that ends with the end of a line.

## Main results

* `Listing.entriesAfter_cons` — the first line, and those behind it.
* `Listing.induction_lines` — induction along the lines of a code.
* `Listing.exists_of_mem_entries` — a line shows the bytes at its address.
* `Listing.exists_next` — behind a line of complete code comes another line, or the end.
-/

namespace RegisterMachine.Listing

/-- The number of bytes that the line at an address covers. -/
def span (code : Bytes) (address : Nat) : Nat :=
  match code.drop address with
  | [] => 0
  | b :: t => 1 + (decode b t).2

/-- Code that ends with the end of a line: no operand of the last instruction is missing, nor a byte of
its text. -/
inductive Complete : Bytes → Prop where
  | nil : Complete []
  | cons {b : UInt8} {t : Bytes} (hline : (decode b t).2 ≤ t.length)
    (hrest : Complete (t.drop (decode b t).2)) : Complete (b :: t)

/-! ## Recursion over the lines -/

/-- **Induction along the lines of a code.** -/
theorem induction_lines {motive : Bytes → Prop} (nil : motive [])
    (cons : ∀ b t, motive (t.drop (decode b t).2) → motive (b :: t)) (code : Bytes) :
    motive code := by
  match code with
  | [] => exact nil
  | b :: t => exact cons b t (induction_lines nil cons (t.drop (decode b t).2))
termination_by code.length
decreasing_by
  simp only [List.length_drop, List.length_cons]
  omega

lemma entriesAfter_nil (done : List Entry) (address : Nat) :
    entriesAfter done address [] = done.reverse := by
  rw [entriesAfter]

/-- The first line comes into the accumulator. -/
lemma entriesAfter_step (done : List Entry) (address : Nat) (b : UInt8) (t : Bytes) :
    entriesAfter done address (b :: t) =
      entriesAfter ({ address, line := (decode b t).1 } :: done) (address + 1 + (decode b t).2)
        (t.drop (decode b t).2) := by
  rw [entriesAfter]

/-- What is in the accumulator stands in front. -/
lemma entriesAfter_eq (done : List Entry) (address : Nat) (code : Bytes) :
    entriesAfter done address code = done.reverse ++ entriesAfter [] address code := by
  induction code using induction_lines generalizing done address with
  | nil => rw [entriesAfter_nil, entriesAfter_nil, List.reverse_nil, List.append_nil]
  | cons b t ih =>
    rw [entriesAfter_step, ih, entriesAfter_step [], ih [_]]
    simp

/-- The first line, and those behind it. -/
lemma entriesAfter_cons (address : Nat) (b : UInt8) (t : Bytes) :
    entriesAfter [] address (b :: t) =
      { address, line := (decode b t).1 } ::
        entriesAfter [] (address + 1 + (decode b t).2) (t.drop (decode b t).2) := by
  rw [entriesAfter_step, entriesAfter_eq]
  rfl

/-! ## Lines and their addresses -/

/-- A line behind a start shows the bytes at its distance from the start. -/
lemma exists_of_mem_entriesAfter {code : Bytes} {address : Nat} {e : Entry}
    (h : e ∈ entriesAfter [] address code) :
    ∃ k b t, e.address = address + k ∧ code.drop k = b :: t ∧ e.line = (decode b t).1 := by
  induction code using induction_lines generalizing address with
  | nil => simp [entriesAfter_nil] at h
  | cons b t ih =>
    rw [entriesAfter_cons, List.mem_cons] at h
    rcases h with rfl | h
    · exact ⟨0, b, t, rfl, rfl, rfl⟩
    · obtain ⟨k, c, u, haddress, hdrop, hline⟩ := ih h
      refine ⟨1 + (decode b t).2 + k, c, u, by omega, ?_, hline⟩
      rw [List.drop_drop] at hdrop
      rw [show 1 + (decode b t).2 + k = ((decode b t).2 + k) + 1 by omega, List.drop_succ_cons, hdrop]

/-- **A line of a listing shows the bytes at its address**, and covers as many as its span. -/
theorem exists_of_mem_entries {code : Bytes} {e : Entry} (h : e ∈ entries code) :
    ∃ b t, code.drop e.address = b :: t ∧ e.line = (decode b t).1 ∧
      span code e.address = 1 + (decode b t).2 := by
  obtain ⟨k, b, t, haddress, hdrop, hline⟩ := exists_of_mem_entriesAfter h
  rw [Nat.zero_add] at haddress
  rw [← haddress] at hdrop
  exact ⟨b, t, hdrop, hline, by rw [span, hdrop]⟩

lemma opcode_operands (t : Bytes) (op : Opcode) : (operands t op).1.opcode = op := by
  cases op <;> rfl

lemma decode_toByte (op : Opcode) (t : Bytes) :
    decode op.toByte t = (.instruction (operands t op).1, (operands t op).2) := by
  rw [decode, Opcode.ofByte?_toByte]

/-- Behind a line of complete code comes another line, or the end of the code. -/
lemma exists_next {code : Bytes} (hcomplete : Complete code) {address : Nat} {e : Entry}
    (h : e ∈ entriesAfter [] address code) :
    ∃ k b t, e.address = address + k ∧ code.drop k = b :: t ∧ e.line = (decode b t).1 ∧
      k + 1 + (decode b t).2 ≤ code.length ∧
      (k + 1 + (decode b t).2 < code.length → ∃ e' ∈ entriesAfter [] address code,
        e'.address = address + (k + 1 + (decode b t).2)) := by
  induction hcomplete generalizing address with
  | nil => simp [entriesAfter_nil] at h
  | @cons b t hline hrest ih =>
    rw [entriesAfter_cons] at h ⊢
    rcases List.mem_cons.1 h with rfl | h
    · refine ⟨0, b, t, rfl, rfl, rfl, ?_, fun hlt => ?_⟩
      · simp only [List.length_cons]
        omega
      · cases hnext : t.drop (decode b t).2 with
        | nil =>
          have hend := List.drop_eq_nil_iff.1 hnext
          simp only [List.length_cons] at hlt
          omega
        | cons b' t' =>
          rw [entriesAfter_cons]
          exact ⟨_, List.mem_cons_of_mem _ List.mem_cons_self, by simp only; omega⟩
    · obtain ⟨k, c, u, haddress, hdrop, hline', hle, hnext⟩ := ih h
      refine ⟨1 + (decode b t).2 + k, c, u, by omega, ?_, hline', ?_, fun hlt => ?_⟩
      · rw [List.drop_drop] at hdrop
        rw [show 1 + (decode b t).2 + k = ((decode b t).2 + k) + 1 by omega, List.drop_succ_cons,
          hdrop]
      · simp only [List.length_drop, List.length_cons] at hle ⊢
        omega
      · simp only [List.length_drop, List.length_cons] at hlt hnext
        obtain ⟨e', he', heq⟩ := hnext (by omega)
        exact ⟨e', List.mem_cons_of_mem _ he', by omega⟩

end RegisterMachine.Listing
