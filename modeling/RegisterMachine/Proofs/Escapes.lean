import RegisterMachine.Assembly.Statement
import RegisterMachine.Listing
import RegisterMachine.Proofs.Numerals
import Mathlib.Data.List.TakeWhile

/-!
# Text constants in a listing

A listing writes the newlines and tabs of a text constant with a backslash and a letter. The
assembler reads the text up to the next double quote; it undoes the escapes of a constant that is
stored, but not of one that is compared. So a text is not always what is read again.

## Main definitions

* `Listing.recovered` — the text that is read again.

## Main results

* `Listing.unescape_eq_self_iff` — a text is kept as it is if nothing in it looks like an escape.
* `Listing.upToNul_unescape` — a text may be cut at its first zero byte before or after.
* `Listing.recovered_store_eq_iff` — a stored text is read again if it has no double quote in it
  and nothing that looks like an escape.
* `Listing.recovered_compare_eq_iff` — a compared text is read again if it has no double quote, no
  newline and no tab in it.
* `Listing.recovered_recovered` — a text that was read again once is read again as it is.
-/

namespace RegisterMachine.Listing

open Instruction Statement Scan

/-- The text that is read again from the listing of a text constant. -/
def recovered : Literal → Bytes → Bytes
  | .store, p => unescape ((p.takeWhile (· != byte quote)).flatMap escape)
  | .compare, p => (p.takeWhile (· != byte quote)).flatMap escape

/-! ## Escapes -/

/-- The three ways to write a byte. -/
lemma escape_cases (b : UInt8) :
    (b = byte '\n' ∧ escape b = [byte '\\', byte 'n']) ∨
      (b = byte '\t' ∧ escape b = [byte '\\', byte 't']) ∨
      (b ≠ byte '\n' ∧ b ≠ byte '\t' ∧ escape b = [b]) := by
  by_cases hn : b = byte '\n'
  · exact Or.inl ⟨hn, by rw [hn]; rfl⟩
  · by_cases ht : b = byte '\t'
    · exact Or.inr (Or.inl ⟨ht, by rw [ht]; rfl⟩)
    · exact Or.inr (Or.inr ⟨hn, ht, by simp [escape, hn, ht]⟩)

/-- There is no newline and no tab in what is written for a text, and a double quote only if the text
has one. -/
lemma mem_flatMap_escape {p : Bytes} {c : UInt8} (h : c ∈ p.flatMap escape) :
    c ≠ byte '\n' ∧ c ≠ byte '\t' ∧ (c = byte quote → c ∈ p) := by
  obtain ⟨b, hb, hc⟩ := List.mem_flatMap.1 h
  rcases escape_cases b with ⟨-, he⟩ | ⟨-, he⟩ | ⟨hn, ht, he⟩
  · rw [he] at hc
    simp only [List.mem_cons, List.not_mem_nil, or_false] at hc
    rcases hc with rfl | rfl <;> exact ⟨by decide, by decide, fun h => absurd h (by decide)⟩
  · rw [he] at hc
    simp only [List.mem_cons, List.not_mem_nil, or_false] at hc
    rcases hc with rfl | rfl <;> exact ⟨by decide, by decide, fun h => absurd h (by decide)⟩
  · rw [he, List.mem_singleton] at hc
    subst hc
    exact ⟨hn, ht, fun _ => hb⟩

/-- A text without newlines and tabs is written as it stands. -/
lemma flatMap_escape {p : Bytes} (hn : byte '\n' ∉ p) (ht : byte '\t' ∉ p) :
    p.flatMap escape = p := by
  induction p with
  | nil => rfl
  | cons b p ih =>
    rw [List.mem_cons, not_or] at hn ht
    rcases escape_cases b with ⟨rfl, -⟩ | ⟨rfl, -⟩ | ⟨-, -, he⟩
    · exact absurd rfl hn.1
    · exact absurd rfl ht.1
    · rw [List.flatMap_cons, he, ih hn.2 ht.2]
      rfl

/-- What is written for a text is at most twice as long. -/
lemma length_flatMap_escape_le (p : Bytes) : (p.flatMap escape).length ≤ 2 * p.length := by
  induction p with
  | nil => simp
  | cons b p ih =>
    rw [List.flatMap_cons, List.length_append, List.length_cons]
    rcases escape_cases b with ⟨-, he⟩ | ⟨-, he⟩ | ⟨-, -, he⟩
    · rw [he]; simp only [List.length_cons, List.length_nil]; omega
    · rw [he]; simp only [List.length_cons, List.length_nil]; omega
    · rw [he]; simp only [List.length_cons, List.length_nil]; omega

/-! ## Undoing the escapes -/

/-- A byte that begins no escape stands for itself. -/
lemma unescape_cons {a : UInt8} {t : Bytes}
    (h : ¬(a = byte '\\' ∧ (t.head? = some (byte 'n') ∨ t.head? = some (byte 't')))) :
    unescape (a :: t) = a :: unescape t := by
  cases t with
  | nil => rfl
  | cons b t =>
    rw [List.head?_cons, Option.some.injEq, Option.some.injEq] at h
    have hn : (a == byte '\\' && b == byte 'n') = false := by
      rw [Bool.and_eq_false_iff, beq_eq_false_iff_ne, beq_eq_false_iff_ne]
      by_contra hcon
      exact h (by tauto)
    have ht : (a == byte '\\' && b == byte 't') = false := by
      rw [Bool.and_eq_false_iff, beq_eq_false_iff_ne, beq_eq_false_iff_ne]
      by_contra hcon
      exact h (by tauto)
    rw [unescape, hn, ht]
    rfl

/-- What is written for a text begins with a letter only if the text does. -/
lemma head?_flatMap_escape {p : Bytes} {c : UInt8} (h : (p.flatMap escape).head? = some c)
    (hc : c ≠ byte '\\') : p.head? = some c := by
  cases p with
  | nil => simp at h
  | cons b p =>
    rw [List.flatMap_cons] at h
    rcases escape_cases b with ⟨-, he⟩ | ⟨-, he⟩ | ⟨-, -, he⟩
    · rw [he] at h
      exact absurd (Option.some.inj h).symm hc
    · rw [he] at h
      exact absurd (Option.some.inj h).symm hc
    · rw [he] at h
      exact h

/-- A text whose first byte begins no escape keeps that byte. -/
lemma unescape_escape_cons {b : UInt8} {p : Bytes}
    (h : ¬(b = byte '\\' ∧ (p.head? = some (byte 'n') ∨ p.head? = some (byte 't')))) :
    unescape ((b :: p).flatMap escape) = b :: unescape (p.flatMap escape) := by
  rw [List.flatMap_cons]
  rcases escape_cases b with ⟨rfl, he⟩ | ⟨rfl, he⟩ | ⟨-, -, he⟩
  · rw [he]
    rfl
  · rw [he]
    rfl
  · rw [he, List.singleton_append, unescape_cons]
    rintro ⟨hb, hnext | hnext⟩
    · exact h ⟨hb, Or.inl (head?_flatMap_escape hnext (by decide))⟩
    · exact h ⟨hb, Or.inr (head?_flatMap_escape hnext (by decide))⟩

/-- A backslash before one of the two letters is taken for an escape. -/
lemma unescape_escape_pair {c : UInt8} (h : c = byte 'n' ∨ c = byte 't') (p : Bytes) :
    ∃ e, e ≠ byte '\\' ∧
      unescape ((byte '\\' :: c :: p).flatMap escape) = e :: unescape (p.flatMap escape) := by
  rcases h with rfl | rfl
  · exact ⟨byte '\n', by decide, rfl⟩
  · exact ⟨byte '\t', by decide, rfl⟩

/-- The two escapes that a text may seem to have. -/
def LooksEscaped (p : Bytes) : Prop :=
  [byte '\\', byte 'n'] <:+: p ∨ [byte '\\', byte 't'] <:+: p

/-- An escape is at the front of a text or behind its first byte. -/
lemma looksEscaped_cons (b : UInt8) (p : Bytes) :
    LooksEscaped (b :: p) ↔
      (b = byte '\\' ∧ (p.head? = some (byte 'n') ∨ p.head? = some (byte 't'))) ∨
        LooksEscaped p := by
  have hpair : ∀ c : UInt8, [byte '\\', c] <:+: b :: p ↔
      (b = byte '\\' ∧ p.head? = some c) ∨ [byte '\\', c] <:+: p := by
    intro c
    rw [List.infix_cons_iff, List.cons_prefix_cons]
    cases p with
    | nil => simp
    | cons d p => simp [List.cons_prefix_cons, eq_comm]
  rw [LooksEscaped, LooksEscaped, hpair, hpair]
  tauto

/-- **Undoing the escapes of a written text gives the text back exactly if nothing in it looks like
an escape**, and never a longer one.

**Proof sketch.** By strong induction on the length. A backslash and a letter become one other
byte; any other byte is kept. -/
lemma unescape_escape (p : Bytes) :
    (unescape (p.flatMap escape)).length ≤ p.length ∧
      (unescape (p.flatMap escape) = p ↔ ¬LooksEscaped p) := by
  induction hk : p.length using Nat.strong_induction_on generalizing p with
  | _ k ih =>
    subst hk
    cases p with
    | nil => exact ⟨Nat.le_refl _, by simp [LooksEscaped, unescape]⟩
    | cons b p =>
      rw [looksEscaped_cons]
      by_cases hb : b = byte '\\' ∧ (p.head? = some (byte 'n') ∨ p.head? = some (byte 't'))
      · -- the first two bytes become one, which is no backslash
        obtain ⟨rfl, hnext⟩ := hb
        obtain ⟨c, q, rfl, hc⟩ : ∃ c q, p = c :: q ∧ (c = byte 'n' ∨ c = byte 't') := by
          cases p with
          | nil => simp at hnext
          | cons c q => exact ⟨c, q, rfl, by simpa using hnext⟩
        obtain ⟨e, hne, he⟩ := unescape_escape_pair hc q
        have hlength := (ih q.length (by simp only [List.length_cons]; omega) q rfl).1
        rw [he]
        refine ⟨by simp only [List.length_cons]; omega, ?_⟩
        constructor
        · intro h
          exact absurd (List.cons.inj h).1 hne
        · intro h
          exact absurd (Or.inl ⟨rfl, hnext⟩) h
      · obtain ⟨hlength, hiff⟩ := ih p.length (by simp) p rfl
        rw [unescape_escape_cons hb]
        refine ⟨by simpa using hlength, ?_⟩
        rw [List.cons.injEq, hiff]
        tauto

/-! ## What is read again -/

/-- A text without a double quote is read to its end. -/
lemma takeWhile_quote {p : Bytes} (h : byte quote ∉ p) : p.takeWhile (· != byte quote) = p := by
  rw [List.takeWhile_eq_self_iff]
  intro b hb
  rw [bne_iff_ne]
  rintro rfl
  exact h hb

/-- What is read has no double quote. -/
lemma quote_not_mem_takeWhile (p : Bytes) : byte quote ∉ p.takeWhile (· != byte quote) := by
  intro h
  simpa using List.mem_takeWhile_imp h

/-- Undoing the escapes of a text brings no double quote into it. -/
lemma mem_of_mem_unescape {t : Bytes} (h : byte quote ∈ unescape t) : byte quote ∈ t := by
  fun_induction unescape t with
  | case1 => exact h
  | case2 b => exact h
  | case3 a b t hab ih =>
    rcases List.mem_cons.1 h with h | h
    · exact absurd h (by decide)
    · exact List.mem_cons_of_mem _ (List.mem_cons_of_mem _ (ih h))
  | case4 a b t hn hab ih =>
    rcases List.mem_cons.1 h with h | h
    · exact absurd h (by decide)
    · exact List.mem_cons_of_mem _ (List.mem_cons_of_mem _ (ih h))
  | case5 a b t hn ht ih =>
    rcases List.mem_cons.1 h with h | h
    · exact h ▸ List.mem_cons_self
    · exact List.mem_cons_of_mem _ (ih h)

/-- What is left of a text without its escapes begins with the first byte of the text, or with a
newline or a tab. -/
lemma head?_unescape (b : UInt8) (t : Bytes) :
    (unescape (b :: t)).head? = some b ∨ (unescape (b :: t)).head? = some (byte '\n') ∨
      (unescape (b :: t)).head? = some (byte '\t') := by
  cases t with
  | nil => exact Or.inl rfl
  | cons c t =>
    rw [unescape]
    split
    · exact Or.inr (Or.inl rfl)
    · split
      · exact Or.inr (Or.inr rfl)
      · exact Or.inl rfl

/-- **Undoing escapes makes no new ones.** A backslash that stays is followed by neither letter, and
what an escape becomes is neither a backslash nor a letter. -/
lemma not_looksEscaped_unescape (t : Bytes) : ¬LooksEscaped (unescape t) := by
  have hnil : ¬LooksEscaped [] := by simp [LooksEscaped]
  fun_induction unescape t with
  | case1 => exact hnil
  | case2 b =>
    rw [looksEscaped_cons]
    simp [hnil]
  | case3 a b t hab ih =>
    rw [looksEscaped_cons, not_or]
    exact ⟨fun h => absurd h.1 (by decide), ih⟩
  | case4 a b t hn hab ih =>
    rw [looksEscaped_cons, not_or]
    exact ⟨fun h => absurd h.1 (by decide), ih⟩
  | case5 a b t hn ht ih =>
    rw [looksEscaped_cons, not_or]
    refine ⟨?_, ih⟩
    rintro ⟨rfl, hnext⟩
    -- the next byte is the second one of the text, which is neither letter, or it is no letter
    rcases head?_unescape b t with hhead | hhead | hhead
    · rw [hhead, Option.some.injEq, Option.some.injEq] at hnext
      rcases hnext with rfl | rfl
      · exact hn (by decide)
      · exact ht (by decide)
    · rw [hhead] at hnext
      exact absurd hnext (by decide)
    · rw [hhead] at hnext
      exact absurd hnext (by decide)

/-- **A text is kept as it is exactly if nothing in it looks like an escape.** -/
lemma unescape_eq_self_iff (t : Bytes) : unescape t = t ↔ ¬LooksEscaped t := by
  constructor
  · intro h
    exact h ▸ not_looksEscaped_unescape t
  · intro h
    induction t with
    | nil => rfl
    | cons b t ih =>
      rw [looksEscaped_cons, not_or] at h
      rw [unescape_cons h.1, ih h.2]

/-- Escapes may be undone before or after a text is cut at its first zero byte. -/
lemma upToNul_unescape (t : Bytes) : (unescape t).upToNul = unescape t.upToNul := by
  -- a byte that begins no escape does not begin one in front of less text either
  have hcons : ∀ (a : UInt8) (u : Bytes), Bytes.upToNul (a :: u) =
      if a = 0 then [] else a :: u.upToNul := by
    intro a u
    by_cases ha : a = 0 <;> simp [Bytes.upToNul, ha]
  fun_induction unescape t with
  | case1 => rfl
  | case2 b =>
    rw [hcons]
    split <;> rfl
  | case3 a b t hab ih =>
    obtain ⟨rfl, rfl⟩ : a = byte '\\' ∧ b = byte 'n' := by simpa using hab
    rw [hcons, if_neg (by decide), ih, hcons, if_neg (by decide), hcons, if_neg (by decide)]
    rfl
  | case4 a b t hn hab ih =>
    obtain ⟨rfl, rfl⟩ : a = byte '\\' ∧ b = byte 't' := by simpa using hab
    rw [hcons, if_neg (by decide), ih, hcons, if_neg (by decide), hcons, if_neg (by decide)]
    rfl
  | case5 a b t hn ht ih =>
    rw [hcons, ih, hcons a]
    split
    · rfl
    · refine (unescape_cons ?_).symm
      rintro ⟨rfl, hnext⟩
      rw [hcons] at hnext
      split at hnext
      · simp at hnext
      · rcases hnext with hnext | hnext
        · exact hn (by simpa using hnext)
        · exact ht (by simpa using hnext)

/-- There never is a double quote in what is read again. -/
lemma quote_not_mem_recovered (op : Literal) (p : Bytes) : byte quote ∉ recovered op p := by
  have hwritten : byte quote ∉ (p.takeWhile (· != byte quote)).flatMap escape := by
    intro h
    exact quote_not_mem_takeWhile p ((mem_flatMap_escape h).2.2 rfl)
  cases op with
  | store => exact fun h => hwritten (mem_of_mem_unescape h)
  | compare => exact hwritten

/-- What is written for a text constant is a double quote, what is read again before its escapes are
undone, and another double quote, behind which there may be more. -/
lemma exists_textSource (p : Bytes) :
    ∃ t, textSource p = byte quote :: (recovered .compare p ++ byte quote :: t) := by
  have hsplit : p.takeWhile (· != byte quote) ++ p.dropWhile (· != byte quote) = p :=
    List.takeWhile_append_dropWhile
  cases hrest : p.dropWhile (· != byte quote) with
  | nil =>
    rw [hrest, List.append_nil] at hsplit
    exact ⟨[], by rw [recovered, hsplit]; rfl⟩
  | cons b u =>
    have hb : b = byte quote := by
      have hhead := List.head?_dropWhile_not (· != byte quote) p
      rw [hrest] at hhead
      simpa using hhead
    rw [hrest, hb] at hsplit
    have hwritten : p.flatMap escape = recovered .compare p ++ byte quote :: u.flatMap escape := by
      have hquote : escape (byte quote) = [byte quote] := rfl
      calc p.flatMap escape
          = (p.takeWhile (· != byte quote) ++ byte quote :: u).flatMap escape := by
            rw [hsplit]
        _ = recovered .compare p ++ byte quote :: u.flatMap escape := by
            rw [List.flatMap_append, List.flatMap_cons, hquote, recovered, List.singleton_append]
    refine ⟨u.flatMap escape ++ ascii "\"", ?_⟩
    rw [textSource, hwritten, List.append_assoc, List.append_assoc]
    rfl

/-- **When a stored text is read again.** -/
theorem recovered_store_eq_iff (p : Bytes) :
    recovered .store p = p ↔ byte quote ∉ p ∧ ¬LooksEscaped p := by
  constructor
  · intro h
    have hquote : byte quote ∉ p := h ▸ quote_not_mem_recovered .store p
    rw [recovered, takeWhile_quote hquote] at h
    exact ⟨hquote, (unescape_escape p).2.1 h⟩
  · rintro ⟨hquote, hescape⟩
    rw [recovered, takeWhile_quote hquote]
    exact (unescape_escape p).2.2 hescape

/-- **When a compared text is read again.** -/
theorem recovered_compare_eq_iff (p : Bytes) :
    recovered .compare p = p ↔ byte quote ∉ p ∧ byte '\n' ∉ p ∧ byte '\t' ∉ p := by
  constructor
  · intro h
    refine ⟨h ▸ quote_not_mem_recovered .compare p, ?_, ?_⟩
    · intro hmem
      rw [← h] at hmem
      exact (mem_flatMap_escape hmem).1 rfl
    · intro hmem
      rw [← h] at hmem
      exact (mem_flatMap_escape hmem).2.1 rfl
  · rintro ⟨hquote, hn, ht⟩
    rw [recovered, takeWhile_quote hquote, flatMap_escape hn ht]

/-- **A text that was read again once is read again as it is.** -/
theorem recovered_recovered (op : Literal) (p : Bytes) :
    recovered op (recovered op p) = recovered op p := by
  have hquote := quote_not_mem_recovered op p
  cases op with
  | store => exact (recovered_store_eq_iff _).2 ⟨hquote, not_looksEscaped_unescape _⟩
  | compare =>
    refine (recovered_compare_eq_iff _).2 ⟨hquote, ?_, ?_⟩
    · exact fun h => (mem_flatMap_escape h).1 rfl
    · exact fun h => (mem_flatMap_escape h).2.1 rfl

/-- A stored text does not get longer. -/
lemma length_recovered_store_le (p : Bytes) : (recovered .store p).length ≤ p.length :=
  Nat.le_trans (unescape_escape _).1 (List.takeWhile_sublist _).length_le

/-- A compared text gets at most twice as long. -/
lemma length_recovered_compare_le (p : Bytes) : (recovered .compare p).length ≤ 2 * p.length :=
  Nat.le_trans (length_flatMap_escape_le _)
    (Nat.mul_le_mul_left 2 (List.takeWhile_sublist _).length_le)

end RegisterMachine.Listing
