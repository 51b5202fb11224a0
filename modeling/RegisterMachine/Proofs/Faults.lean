import RegisterMachine.Proofs.RepeatedLabels
import RegisterMachine.Tool.Assembler

/-!
# What a fault leaves in the file

The first fault ends the work on a source, and what was written before it stays in the file. A number
that is too large is found before any byte of it is written. So the file holds what the lines before
wrote, with zeros where addresses belong, and of a data line also the numbers before the one that is
too large. A label that stands nowhere is found when addresses are filled in. So the file holds what all
lines wrote, and the addresses that come before the first one that is missing.

## Main definitions

* `Statement.bytes`, `Statement.width` — what a statement writes, and how many characters that is.
* `unfilled` — what statements write before addresses are filled in.
* `recorded` — the places to fill in, in the order of the lines.
* `Draft.Refused` — a statement with a number that is too large for it.
* `FilledUpTo` — some of the places to fill in are filled in, and nothing else has changed.

## Main results

* `Draft.statements_ok` — what statements add to a draft.
* `Draft.statement_error`, `Draft.statements_error`, `Draft.fillAll_error` — what comes before a fault.
* `assemble_faulty` — the file after a fault.
-/

namespace RegisterMachine

open Effect

/-! ## What statements write -/

/-- The bytes that a statement writes. Zeros stand for an address. -/
def Statement.bytes (s : Statement) : Bytes := s.numbers.flatMap Quantity.bytes ++ s.text

/-- The number of characters that a statement writes. -/
def Statement.width (s : Statement) : Nat := s.numbers.length + s.text.length

/-- What statements write before addresses are filled in. -/
def unfilled (ss : List Statement) : Bytes := ss.flatMap Statement.bytes

/-- The number of characters that statements write. -/
def extent (ss : List Statement) : Nat := (ss.map Statement.width).sum

/-- The places to fill in of statements behind `start` characters, in order, each with its label: the
last two characters of every statement that refers to a label. -/
def recorded (start : Nat) : List Statement → List (Nat × Bytes)
  | [] => []
  | s :: ss => (s.reference?.map (start + s.width - 2, ·)).toList ++ recorded (start + s.width) ss

namespace Statement

/-- A statement that refers to a label ends with zeros. -/
lemma exists_front {s : Statement} {name : Bytes} (h : s.reference? = some name) :
    ∃ front, s.numbers = front ++ [.ofNat 0, .ofNat 0] ∧ s.text = [] := by
  have hlabel {t : Target} (ht : t.label? = some name) : t.numbers = [.ofNat 0, .ofNat 0] := by
    cases t with
    | number q => cases ht
    | label n => rfl
  cases s with
  | branch op t => exact ⟨[Draft.opcode (.branch op)], by rw [numbers, hlabel h]; rfl, rfl⟩
  | immediate op r t =>
    exact ⟨[Draft.opcode (.immediate op), r], by rw [numbers, hlabel h]; rfl, rfl⟩
  | _ => cases h

/-- In the file, too. -/
lemma suffix_bytes {s : Statement} {name : Bytes} (h : s.reference? = some name) :
    [0, 0] <:+ s.bytes := by
  obtain ⟨front, hnumbers, htext⟩ := exists_front h
  refine ⟨front.flatMap Quantity.bytes, ?_⟩
  rw [bytes, hnumbers, htext, List.flatMap_append, List.append_nil]
  rfl

end Statement

namespace Draft

/-- **What statements add to a draft**, if there is no fault. -/
theorem statements_ok {ss : List Statement} {d d' : Draft} (h : statements ss d = .ok () d') :
    d'.code.toList = d.code.toList ++ unfilled ss ∧ d'.offset = d.offset + extent ss ∧
      d'.references.toList = d.references.toList ++ recorded d.offset ss := by
  induction ss generalizing d with
  | nil =>
    cases h
    simp [unfilled, extent, recorded]
  | cons s ss ih =>
    obtain ⟨_, d₁, hstatement, hrest⟩ := of_bind_ok h
    have hadds := adds_statement hstatement
    have hoffset : d₁.offset = d.offset + s.width := hadds.offset
    obtain ⟨hcode, hextent, hreferences⟩ := ih hrest
    refine ⟨?_, ?_, ?_⟩
    · rw [hcode, hadds.code, Array.toList_appendList, List.append_assoc]
      rfl
    · rw [hextent, hoffset, extent, extent, List.map_cons, List.sum_cons, Nat.add_assoc]
    · rw [hreferences, hadds.references, Array.toList_appendList, hoffset, List.append_assoc]
      rfl

end Draft

/-! ## Faults -/

/-- The faults of numbers that cannot be written. -/
def Fault.IsCharacter : Fault → Prop
  | notACharacter _ | characterTooLarge _ => True
  | integerTooLarge | dataTooLarge _ | undefinedLabel _ => False

lemma Quantity.isCharacter_of_error {q : Quantity} {f : Fault} (h : q.character = .error f) :
    f.IsCharacter := by
  cases q with
  | nan =>
    cases h
    trivial
  | infinite negative =>
    cases h
    trivial
  | finite negative whole fraction =>
    rw [character] at h
    split at h
    · cases h
    · dsimp only at h
      split at h
      · cases h
        trivial
      · cases h

namespace Draft

/-- Work that only a number can end that cannot be written. -/
def FaultsInCharacters (x : Drafting Unit) : Prop := ∀ d f d', x d = .error f d' → f.IsCharacter

lemma FaultsInCharacters.bind {x y : Drafting Unit} (hx : FaultsInCharacters x)
    (hy : FaultsInCharacters y) : FaultsInCharacters (x >>= fun _ => y) := by
  intro d f d'' h
  cases hfirst : x d with
  | ok _ d' =>
    rw [bind_ok hfirst] at h
    exact hy d' f d'' h
  | error f' d' =>
    rw [bind_error hfirst] at h
    cases h
    exact hx d f d'' hfirst

lemma faultsInCharacters_modify (g : Draft → Draft) : FaultsInCharacters (modify g) := by
  intro d f d' h
  cases h

lemma put_error {q : Quantity} {d d' : Draft} {f : Fault} (h : put q d = .error f d') :
    q.character = .error f ∧ d' = d := by
  rw [put] at h
  cases hq : q.character with
  | error f' =>
    rw [hq] at h
    cases h
    exact ⟨rfl, rfl⟩
  | ok n =>
    rw [hq] at h
    cases h

lemma faultsInCharacters_put (q : Quantity) : FaultsInCharacters (put q) := by
  intro d f d' h
  exact Quantity.isCharacter_of_error (put_error h).1

lemma faultsInCharacters_putAll (qs : List Quantity) : FaultsInCharacters (putAll qs) := by
  induction qs with
  | nil =>
    intro d f d' h
    cases h
  | cons q qs ih => exact (faultsInCharacters_put q).bind ih

lemma faultsInCharacters_putWord (front : List Quantity) (t : Target) :
    FaultsInCharacters (putWord front t) := by
  cases t with
  | number q => exact faultsInCharacters_putAll _
  | label name => exact (faultsInCharacters_putAll _).bind (faultsInCharacters_modify _)

/-- A label is noted without a fault. -/
lemma defineLabel_ne_error (name : Bytes) (d d' : Draft) (f : Fault) :
    defineLabel name d ≠ .error f d' := by
  intro h
  have hget : (get : Drafting Draft) d = .ok d d := rfl
  unfold defineLabel at h
  rw [bind_ok hget] at h
  cases hrepeated : (d.labels.lookup name).getD 0 != 0 <;> cases hnumeric : looksNumeric name
  all_goals
    rw [hrepeated, hnumeric] at h
    cases h

/-- The work on a data line before its first number that is too large, or that cannot be written. -/
lemma putItems_error {items : List Item} {d d' : Draft} {f : Fault}
    (h : putItems items d = .error f d') :
    ∃ front item rest, items = front ++ item :: rest ∧ putItems front d = .ok () d' ∧
      (f.IsCharacter ∨ item.value.exceeds 255 = true ∧ f = .dataTooLarge item.text) := by
  induction items generalizing d with
  | nil => cases h
  | cons item items ih =>
    rw [putItems] at h
    cases hlarge : item.value.exceeds 255 with
    | true =>
      rw [hlarge] at h
      cases h
      exact ⟨[], item, items, rfl, rfl, .inr ⟨hlarge, rfl⟩⟩
    | false =>
      rw [hlarge] at h
      change (put item.byte >>= fun _ => putItems items) d = .error f d' at h
      cases hput : put item.byte d with
      | error f' d₁ =>
        rw [bind_error hput] at h
        cases h
        obtain ⟨hcharacter, rfl⟩ := put_error hput
        exact ⟨[], item, items, rfl, rfl, .inl (Quantity.isCharacter_of_error hcharacter)⟩
      | ok _ d₁ =>
        rw [bind_ok hput] at h
        obtain ⟨front, item', rest, rfl, hfront, hfault⟩ := ih h
        refine ⟨item :: front, item', rest, rfl, ?_, hfault⟩
        rw [putItems, hlarge]
        exact (bind_ok hput).trans hfront

/-- The numbers of a data line that are written are not too large. -/
lemma exceeds_of_putItems {items : List Item} {d d' : Draft} (h : putItems items d = .ok () d') :
    ∀ item ∈ items, item.value.exceeds 255 = false := by
  induction items generalizing d with
  | nil => exact fun item hitem => absurd hitem List.not_mem_nil
  | cons item items ih =>
    rw [putItems] at h
    cases hlarge : item.value.exceeds 255 with
    | true =>
      rw [hlarge] at h
      exact absurd h throw_ne_ok
    | false =>
      rw [hlarge] at h
      obtain ⟨_, d₁, -, hrest⟩ := of_bind_ok h
      exact List.forall_mem_cons.2 ⟨hlarge, ih hrest⟩

/-- The bytes of the numbers of a data line. -/
lemma code_putItems {items : List Item} {d d' : Draft} (h : putItems items d = .ok () d') :
    d'.code.toList = d.code.toList ++ items.flatMap fun i => i.byte.bytes := by
  obtain ⟨-, rfl⟩ := putAll_ok (putItems_ok h)
  rw [extend, Array.toList_appendList, List.flatMap_map]

/-- A statement with a number that is too large for it: the fault, and the draft that it leaves. -/
inductive Refused (d : Draft) : Statement → Fault → Draft → Prop
  | store {r q : Quantity} (hlarge : q.exceeds 65535 = true) :
      Refused d (.immediate .store r (.number q)) .integerTooLarge d
  | data {front rest : List Item} {item : Item} {d' : Draft} (hfront : putItems front d = .ok () d')
      (hlarge : item.value.exceeds 255 = true) :
      Refused d (.data (front ++ item :: rest)) (.dataTooLarge item.text) d'

/-- **How a statement ends the work**: with a number that cannot be written, or with one that is too
large for it. -/
theorem statement_error {s : Statement} {d d' : Draft} {f : Fault}
    (h : statement s d = .error f d') : f.IsCharacter ∨ Refused d s f d' := by
  cases s with
  | skip => cases h
  | unknown line => cases h
  | label name => exact absurd h (defineLabel_ne_error name d d' f)
  | plain | unary | binary | ternary | service =>
    exact .inl (faultsInCharacters_putAll _ d f d' h)
  | branch op t => exact .inl (faultsInCharacters_putWord _ t d f d' h)
  | literal op r t =>
    exact .inl (((faultsInCharacters_putWord _ _).bind (faultsInCharacters_modify _)) d f d' h)
  | immediate op r t =>
    cases op with
    | compare => exact .inl (faultsInCharacters_putWord _ t d f d' h)
    | store =>
      cases t with
      | label name =>
        exact .inl (faultsInCharacters_putWord [opcode (.immediate .store), r] (.label name) d f d' h)
      | number q =>
        rw [statement] at h
        split at h
        case isTrue hlarge =>
          cases h
          exact .inr (.store hlarge)
        case isFalse => exact .inl (faultsInCharacters_putWord _ _ d f d' h)
  | data items =>
    obtain ⟨front, item, rest, rfl, hfront, hcharacter | ⟨hlarge, rfl⟩⟩ := putItems_error h
    · exact .inl hcharacter
    · exact .inr (.data hfront hlarge)

/-- **The lines before a fault are done**, and the work ends on the line behind them. -/
theorem statements_error {ss : List Statement} {d d' : Draft} {f : Fault}
    (h : statements ss d = .error f d') :
    ∃ k s d₁, ss[k]? = some s ∧ statements (ss.take k) d = .ok () d₁ ∧
      statement s d₁ = .error f d' := by
  induction ss generalizing d with
  | nil => cases h
  | cons s ss ih =>
    cases hstatement : statement s d with
    | error f' d₁ =>
      cases (bind_error hstatement).symm.trans h
      exact ⟨0, s, d, rfl, rfl, hstatement⟩
    | ok _ d₁ =>
      obtain ⟨k, s', d₂, hs', hdone, hlast⟩ := ih ((bind_ok hstatement).symm.trans h)
      exact ⟨k + 1, s', d₂, hs', (bind_ok hstatement).trans hdone, hlast⟩

/-- **The places before a fault are filled in**, and the label of the place behind them stands
nowhere. -/
theorem fillAll_error {refs : List (Nat × Bytes)} {d d' : Draft} {f : Fault}
    (h : fillAll refs d = .error f d') :
    ∃ i place name, refs[i]? = some (place, name) ∧ d.labels.lookup name = none ∧
      f = .undefinedLabel name ∧ fillAll (refs.take i) d = .ok () d' := by
  induction refs generalizing d with
  | nil => cases h
  | cons r refs ih =>
    obtain ⟨place, name⟩ := r
    cases hfill : fill place name d with
    | error f' d₁ =>
      cases (bind_error hfill).symm.trans h
      have hget : (get : Drafting Draft) d = .ok d d := rfl
      unfold fill at hfill
      rw [bind_ok hget] at hfill
      cases hname : d.labels.lookup name with
      | some a =>
        rw [hname] at hfill
        cases hfill
      | none =>
        rw [hname] at hfill
        cases hfill
        exact ⟨0, place, name, rfl, hname, rfl, rfl⟩
    | ok _ d₁ =>
      obtain ⟨i, place', name', hi, hnone, hfault, hdone⟩ := ih ((bind_ok hfill).symm.trans h)
      obtain ⟨a, -, rfl⟩ := fill_ok hfill
      exact ⟨i + 1, place', name', hi, hnone, hfault, (bind_ok hfill).trans hdone⟩

end Draft

open Draft

/-! ## Places to fill in -/

lemma Quantity.length_bytes_of_isByte {q : Quantity} (h : q.IsByte) : q.bytes.length = 1 := by
  have hcharacter : ∃ n, q.character = .ok n := by
    cases q with
    | nan => exact absurd h id
    | infinite negative => exact absurd h id
    | finite negative whole fraction =>
      obtain ⟨hpositive, hsmall⟩ := h
      have hlargest : 256 ≤ CodePoint.largest := by decide
      rw [character, hpositive, if_neg Bool.false_ne_true, if_neg (by omega)]
      exact ⟨_, rfl⟩
  obtain ⟨n, hn⟩ := hcharacter
  exact (length_bytes hn).2.2 h

/-- Where every number is one byte, the bytes of a statement are as many as its characters. -/
lemma Statement.length_bytes {s : Statement} (h : s.Fits) : s.bytes.length = s.width := by
  have hnumbers : ∀ qs : List Quantity, (∀ q ∈ qs, q.IsByte) →
      (qs.flatMap Quantity.bytes).length = qs.length := by
    intro qs hqs
    induction qs with
    | nil => rfl
    | cons q qs ih =>
      obtain ⟨hq, hqs⟩ := List.forall_mem_cons.1 hqs
      rw [List.flatMap_cons, List.length_append, Quantity.length_bytes_of_isByte hq, ih hqs,
        List.length_cons, Nat.add_comm]
  rw [bytes, width, List.length_append, hnumbers _ h]

/-- **Zeros stand at the places to fill in**, where every number is one byte. -/
lemma zeros_unfilled {ss : List Statement} (hfits : ∀ s ∈ ss, s.Fits) {start : Nat}
    {r : Nat × Bytes} (hr : r ∈ recorded start ss) :
    ∃ n, r.1 = start + n ∧ (unfilled ss)[n]? = some 0 ∧ (unfilled ss)[n + 1]? = some 0 := by
  induction ss generalizing start with
  | nil => cases hr
  | cons s ss ih =>
    obtain ⟨hs, hss⟩ := List.forall_mem_cons.1 hfits
    have hlength := Statement.length_bytes hs
    have hunfilled : unfilled (s :: ss) = s.bytes ++ unfilled ss := rfl
    rw [hunfilled]
    rcases List.mem_append.1 hr with hfirst | hrest
    · obtain ⟨name, hname, rfl⟩ := Option.map_eq_some_iff.1 (Option.mem_toList.1 hfirst)
      obtain ⟨front, hfront⟩ := Statement.suffix_bytes hname
      have hwidth : front.length + 2 = s.width := by
        rw [← hlength, ← hfront, List.length_append]
        rfl
      refine ⟨front.length, by simp only; omega, ?_, ?_⟩
      · rw [← hfront, List.append_assoc, List.getElem?_append_right (Nat.le_refl _), Nat.sub_self]
        rfl
      · rw [← hfront, List.append_assoc, List.getElem?_append_right (Nat.le_add_right _ 1),
          Nat.add_sub_cancel_left]
        rfl
    · obtain ⟨n, hn, hlow, hhigh⟩ := ih hss hrest
      refine ⟨s.bytes.length + n, by omega, ?_, ?_⟩
      · rw [List.getElem?_append_right (Nat.le_add_right _ _), Nat.add_sub_cancel_left]
        exact hlow
      · rw [Nat.add_assoc, List.getElem?_append_right (Nat.le_add_right _ _),
          Nat.add_sub_cancel_left]
        exact hhigh

/-- The first `i` places hold their addresses, all other places hold zeros, and no other byte has
changed. -/
structure FilledUpTo (i : Nat) (address : Bytes → Nat) (refs : List (Nat × Bytes))
    (old new : Bytes) : Prop where
  filled : ∀ n < i, ∀ r, refs[n]? = some r → (Listing.operandWord new r.1).toNat = address r.2
  zeros : ∀ n, i ≤ n → ∀ r, refs[n]? = some r → (Listing.operandWord new r.1).toNat = 0
  rest : ∀ p, (∀ r ∈ refs.take i, p < r.1 ∨ r.1 + 2 ≤ p) → new[p]? = old[p]?

/-! ## Whole sources -/

section Source

variable {t : Bytes}

/-- All lines are done. -/
lemma statements_of_reached (h : Reached t (stated t).length) :
    statements (stated t) {} = .ok () (draftAt t (stated t).length) := by
  rw [← h, List.take_length]

/-- The code after so many lines without a fault. -/
lemma code_draftAt {k : Nat} (h : Reached t k) :
    (draftAt t k).code.toList = unfilled ((stated t).take k) := (statements_ok h).1

/-- The places to fill in, when all lines are done. -/
lemma references_draftAt (h : Reached t (stated t).length) :
    (draftAt t (stated t).length).references.toList = recorded 0 (stated t) := by
  have hreferences := (statements_ok h).2.2
  rw [List.take_length] at hreferences
  exact hreferences

/-- The two ways in which a fault ends the work on a source: while its lines are worked on, or while
addresses are filled in. -/
lemma assemble_error {f : Fault} (h : (assemble t).fault = some f) :
    (∃ d, statements (stated t) {} = .error f d ∧ (assemble t).code = d.code.toList) ∨
    ∃ d d', statements (stated t) {} = .ok () (draftAt t (stated t).length) ∧
      d.code = (draftAt t (stated t).length).code ∧
      d.labels = (draftAt t (stated t).length).labels ∧
      fillAll (draftAt t (stated t).length).references.toList d = .error f d' ∧
      (assemble t).code = d'.code.toList := by
  cases hsource : Draft.source t {} with
  | ok _ d' =>
    rw [assemble, hsource] at h
    cases h
  | error f' d' =>
    have hfault : some f' = some f := by
      rw [← h, assemble, hsource]
    cases hfault
    have hcode : (assemble t).code = d'.code.toList := by rw [assemble, hsource]
    cases hstatements : statements (stated t) {} with
    | error f₁ d₁ =>
      cases (bind_error hstatements).symm.trans hsource
      exact .inl ⟨d', rfl, hcode⟩
    | ok _ d₁ =>
      have hlast : draftAt t (stated t).length = d₁ := by
        rw [draftAt, List.take_length, Draft.after, hstatements]
      obtain ⟨d, hsame, hlabels, -, hfill⟩ := source_eq_fillAll hstatements
      rw [hlast]
      exact .inr ⟨d, d', rfl, hsame, hlabels, hfill.symm.trans hsource, hcode⟩

/-- The label of one place stands nowhere, and those of all places before it stand somewhere: at the
last lines that define them. -/
structure FirstMissing (t : Bytes) (i : Nat) (name : Bytes) (address : Bytes → Nat) : Prop where
  place : ∃ place, (recorded 0 (stated t))[i]? = some (place, name)
  nowhere : ∀ j : Nat, (stated t)[j]? ≠ some (.label name)
  before : ∀ r ∈ (recorded 0 (stated t)).take i,
    ∃ j, LastLabel (stated t) r.2 j ∧ address r.2 = extent ((stated t).take j)

/-- A number that is too large ends the work on its line, before any address is filled in. -/
lemma assemble_refused {f : Fault} (h : (assemble t).fault = some f) (hcharacter : ¬f.IsCharacter)
    (hlabel : ∀ name, f ≠ .undefinedLabel name) :
    ∃ k s d, Reached t k ∧ (stated t)[k]? = some s ∧ Refused (draftAt t k) s f d ∧
      (assemble t).code = d.code.toList := by
  obtain ⟨d, hstatements, hcode⟩ | ⟨d, d', -, -, -, hfill, -⟩ := assemble_error h
  · obtain ⟨k, s, d₁, hs, hdone, hlast⟩ := statements_error hstatements
    have hreached : Reached t k := by
      rw [Reached, draftAt, Draft.after, hdone]
    cases hdone.symm.trans hreached
    exact ⟨k, s, d, hreached, hs, (statement_error hlast).resolve_left hcharacter, hcode⟩
  · obtain ⟨-, -, name, -, -, rfl, -⟩ := fillAll_error hfill
    exact absurd rfl (hlabel name)

/-- A label that stands nowhere ends the filling in. -/
lemma assemble_undefined {name : Bytes} (h : (assemble t).fault = some (.undefinedLabel name)) :
    ∃ d d' i place, Reached t (stated t).length ∧
      d.code = (draftAt t (stated t).length).code ∧
      d.labels = (draftAt t (stated t).length).labels ∧
      (recorded 0 (stated t))[i]? = some (place, name) ∧ d.labels.lookup name = none ∧
      fillAll ((recorded 0 (stated t)).take i) d = .ok () d' ∧
      (assemble t).code = d'.code.toList := by
  obtain ⟨d, hstatements, -⟩ | ⟨d, d', hstatements, hcode, hlabels, hfill, hassemble⟩ :=
    assemble_error h
  · obtain ⟨_, _, _, -, -, hlast⟩ := statements_error hstatements
    rcases statement_error hlast with hcharacter | hrefused
    · exact absurd hcharacter id
    · cases hrefused
  · have hreached : Reached t (stated t).length := by rw [Reached, List.take_length, hstatements]
    rw [references_draftAt hreached] at hfill
    obtain ⟨i, place, _, hplace, hnone, hname, hdone⟩ := fillAll_error hfill
    cases hname
    exact ⟨d, d', i, place, hreached, hcode, hlabels, hplace, hnone, hdone, hassemble⟩

/-- A label for which nothing is found is defined by no line. -/
lemma not_label_of_lookup {name : Bytes} (h : Reached t (stated t).length)
    (hnone : (draftAt t (stated t).length).labels.lookup name = none) (j : Nat) :
    (stated t)[j]? ≠ some (.label name) := by
  intro hj
  have hlt : j < (stated t).length := (List.getElem?_eq_some_iff.1 hj).1
  obtain ⟨a, ha⟩ := exists_lookup (statements_of_reached h) (Nat.le_refl _) hlt hj
  exact absurd (ha.symm.trans hnone) (by simp)

/-- A label for which something is found stands at the last line that defines it. -/
lemma lastLabel_of_lookup {name : Bytes} {a : Nat} (h : Reached t (stated t).length)
    (ha : (draftAt t (stated t).length).labels.lookup name = some a) :
    ∃ j, LastLabel (stated t) name j ∧ a = extent ((stated t).take j) := by
  obtain ⟨j, hj, rfl⟩ := (lookup_draftAt_iff h (Nat.le_refl _)).1 ha
  have hoffset := (statements_ok (statements_take (statements_of_reached h) j)).2.1
  exact ⟨j, hj.lastLabel, hoffset.trans (Nat.zero_add _)⟩

/-- Where every number is one byte, the places before the first one whose label is missing are filled
in, and nothing else has changed. -/
lemma filledUpTo_of_fillAll (h : Reached t (stated t).length) (hfits : ∀ s ∈ stated t, s.Fits)
    {d d' : Draft} {i : Nat} (hcode : d.code = (draftAt t (stated t).length).code)
    (hfill : fillAll ((recorded 0 (stated t)).take i) d = .ok () d')
    (hnear : ∀ r ∈ (recorded 0 (stated t)).take i, (d.labels.lookup r.2).getD 0 < 65536) :
    FilledUpTo i (fun name => (d.labels.lookup name).getD 0) (recorded 0 (stated t))
      (unfilled (stated t)) d'.code.toList := by
  have hstatements := statements_of_reached h
  have hsize := (offset_eq_size_iff hstatements (Nat.le_refl _)).2.2 fun s hs =>
    hfits s (List.mem_of_mem_take hs)
  obtain ⟨hapart, hwithin, -⟩ := references_after hstatements (Nat.le_refl (stated t).length)
  have hrecorded := references_draftAt h
  rw [draftAt] at hrecorded hcode
  rw [hrecorded] at hapart hwithin
  have hold : d.code.toList = unfilled (stated t) := by
    rw [hcode, ← draftAt, code_draftAt h, List.take_length]
  obtain ⟨hkept, hfilled⟩ := fillAll_ok hfill
    (fun r hr a ha => by simpa [ha] using hnear r hr)
    (hapart.sublist (List.take_sublist i _))
    (fun r hr => by
      rw [hcode, ← hsize]
      exact (hwithin r (List.mem_of_mem_take hr)).1)
  have hrest : ∀ p, (∀ r ∈ (recorded 0 (stated t)).take i, p < r.1 ∨ r.1 + 2 ≤ p) →
      d'.code.toList[p]? = (unfilled (stated t))[p]? := by
    intro p hp
    rw [Array.getElem?_toList, hkept p hp, ← hold, Array.getElem?_toList]
  refine ⟨fun n hn r hr => ?_, fun n hn r hr => ?_, hrest⟩
  · obtain ⟨a, ha, hsmall, hlow, hhigh⟩ := hfilled r
      (List.mem_of_getElem? ((List.getElem?_take_of_lt hn).trans hr))
    rw [toNat_operandWord hsmall hlow hhigh]
    simp [ha]
  · -- a place that was not filled in lies behind all that were
    have hbehind : ∀ q ∈ (recorded 0 (stated t)).take i, q.1 + 2 ≤ r.1 := by
      intro q hq
      obtain ⟨m, hm⟩ := List.getElem?_of_mem hq
      have hmi : m < i := by
        by_contra hle
        rw [List.getElem?_take_eq_none (by omega)] at hm
        cases hm
      rw [List.getElem?_take_of_lt hmi] at hm
      obtain ⟨hmlt, rfl⟩ := List.getElem?_eq_some_iff.1 hm
      obtain ⟨hnlt, rfl⟩ := List.getElem?_eq_some_iff.1 hr
      exact List.pairwise_iff_getElem.1 hapart m n hmlt hnlt (by omega)
    obtain ⟨m, hm, hlow, hhigh⟩ := zeros_unfilled hfits (List.mem_of_getElem? hr)
    rw [Nat.zero_add] at hm
    rw [← hm] at hlow hhigh
    rw [← hrest r.1 fun q hq => .inr (hbehind q hq), Array.getElem?_toList] at hlow
    rw [← hrest (r.1 + 1) fun q hq => .inr (by have := hbehind q hq; omega),
      Array.getElem?_toList] at hhigh
    exact toNat_operandWord (by decide) hlow hhigh

end Source

/-! ## The file -/

namespace Files

/-- An entry that is replaced is found with its new content. -/
lemma lookup_replaced {p : Path} (content : Bytes) {entries : List (Path × Bytes)}
    (h : entries.any (fun e => e.1 == p) = true) :
    (entries.map fun e => if e.1 == p then (p, content) else e).lookup p = some content := by
  induction entries with
  | nil => cases h
  | cons e entries ih =>
    rw [List.map_cons]
    by_cases he : e.1 = p
    · rw [if_pos (beq_iff_eq.2 he), List.lookup_cons_self]
    · have hne : (p == e.1) = false := beq_eq_false_iff_ne.2 (Ne.symm he)
      have hbehind : entries.any (fun e => e.1 == p) = true := by
        simpa [List.any_cons, he] using h
      rw [if_neg (mt beq_iff_eq.1 he), List.lookup_cons, hne]
      exact ih hbehind

/-- A file that was written holds what was written. -/
lemma kind_put (fs : Files) (p : Path) (content : Bytes) :
    (fs.put p content).kind p = .file content := by
  have hlookup : (fs.put p content).entries.lookup p = some content := by
    rw [put]
    split
    case isTrue hany => exact lookup_replaced content hany
    case isFalse hany =>
      have hnone : fs.entries.lookup p = none := by
        rw [List.lookup_eq_none_iff]
        intro e he
        rw [bne_iff_ne]
        rintro rfl
        exact hany (List.any_eq_true.2 ⟨e, he, beq_self_eq_true _⟩)
      rw [List.lookup_append, hnone, List.lookup_cons_self, Option.none_or]
  rw [kind, hlookup]

end Files

/-- What becomes of one source file: the work on it is that on its text, and the code file holds the
code. -/
lemma buildOne_apply {fs : Files} {name t : Bytes} {p : Path} (hread : (fs.read name).isOk = true)
    (htarget : fs.target (Assembler.outputName name) = .ok p)
    (hsource : (fs.put p []).read name = .ok t) :
    (Assembler.buildOne fs name).failure = (assemble t).fault.map .faulty ∧
      (Assembler.buildOne fs name).files.kind p = .file (assemble t).code := by
  cases hfirst : fs.read name with
  | error problem =>
    rw [hfirst] at hread
    cases hread
  | ok old =>
    have hsame : ((fs.put p []).read name).toOption.getD [] = t := by rw [hsource]; rfl
    rw [Assembler.buildOne, hfirst]
    simp only [htarget, hsame]
    exact ⟨trivial, Files.kind_put _ _ _⟩

/-- **The file after a fault.** The code file of a source holds its code, whether or not there was a
fault. Every statement that refers to a label writes two zeros for it in the end.

* If an integer is too large, the file holds what the lines before wrote, with these zeros, and
  nothing of the line itself.
* If a number of a data line is too large, the numbers before it on the line follow.
* If a label stands nowhere, all lines are done, and the file holds what they wrote, with the addresses
  filled in up to the first place whose label is missing. Where every number is one byte and the
  addresses fit into two, these places hold the addresses, all other places still hold the zeros, and no
  other byte has changed.

**Proof sketch.** A fault ends the work where it is, so the work before it was done without one. A
number is compared with its limit before it is written, and a label is looked up before its place is
filled in. -/
theorem assemble_faulty (t : Bytes) :
    (∀ fs name p, (fs.read name).isOk = true → fs.target (Assembler.outputName name) = .ok p →
      (fs.put p []).read name = .ok t →
        (Assembler.buildOne fs name).failure = (assemble t).fault.map .faulty ∧
          (Assembler.buildOne fs name).files.kind p = .file (assemble t).code) ∧
    (∀ s ∈ stated t, ∀ name, s.reference? = some name → [0, 0] <:+ s.bytes) ∧
    ((assemble t).fault = some .integerTooLarge →
      ∃ k r q, Reached t k ∧ (stated t)[k]? = some (.immediate .store r (.number q)) ∧
        q.exceeds 65535 = true ∧ (assemble t).code = unfilled ((stated t).take k)) ∧
    (∀ text, (assemble t).fault = some (.dataTooLarge text) →
      ∃ k front item rest, Reached t k ∧ (stated t)[k]? = some (.data (front ++ item :: rest)) ∧
        (∀ i ∈ front, i.value.exceeds 255 = false) ∧ item.value.exceeds 255 = true ∧
        item.text = text ∧ (assemble t).code =
          unfilled ((stated t).take k) ++ front.flatMap fun i => i.byte.bytes) ∧
    ∀ name, (assemble t).fault = some (.undefinedLabel name) →
      ∃ i address, Reached t (stated t).length ∧ FirstMissing t i name address ∧
        (assemble t).code = (patch address ((recorded 0 (stated t)).take i)
          (unfilled (stated t)).toArray).toList ∧
        ((∀ s ∈ stated t, s.Fits) →
          (∀ r ∈ (recorded 0 (stated t)).take i, address r.2 < 65536) →
          FilledUpTo i address (recorded 0 (stated t)) (unfilled (stated t)) (assemble t).code) := by
  refine ⟨fun fs name p => buildOne_apply, fun s _ name hname => Statement.suffix_bytes hname,
    fun h => ?_, fun text h => ?_, fun name h => ?_⟩
  · obtain ⟨k, s, d, hreached, hs, hrefused, hcode⟩ := assemble_refused h id (by simp)
    cases hrefused with
    | store hlarge => exact ⟨k, _, _, hreached, hs, hlarge, hcode.trans (code_draftAt hreached)⟩
  · obtain ⟨k, s, d, hreached, hs, hrefused, hcode⟩ := assemble_refused h id (by simp)
    cases hrefused with
    | data hfront hlarge =>
      refine ⟨k, _, _, _, hreached, hs, exceeds_of_putItems hfront, hlarge, rfl, ?_⟩
      rw [hcode, code_putItems hfront, code_draftAt hreached]
  · obtain ⟨d, d', i, place, hreached, hcode, hlabels, hplace, hnone, hdone, hassemble⟩ :=
      assemble_undefined h
    obtain ⟨hfound, hpatch⟩ := fillAll_eq_patch hdone
    have hold : d.code = (unfilled (stated t)).toArray := by
      rw [hcode, ← Array.toList_inj, code_draftAt hreached, List.take_length]
    refine ⟨i, fun n => (d.labels.lookup n).getD 0, hreached,
      ⟨⟨place, hplace⟩, ?_, fun r hr => ?_⟩, ?_, fun hfits hnear => ?_⟩
    · exact not_label_of_lookup hreached (hlabels ▸ hnone)
    · obtain ⟨a, ha⟩ := hfound r hr
      obtain ⟨j, hj, hextent⟩ := lastLabel_of_lookup hreached (hlabels ▸ ha)
      exact ⟨j, hj, by rw [ha]; exact hextent⟩
    · rw [hassemble, hpatch, hold]
    · rw [hassemble]
      exact filledUpTo_of_fillAll hreached hfits hcode hdone hnear

/-- A source with an integer that is too large, behind a line that refers to a label. -/
def overlargeInteger : Bytes := ascii "\tgoto a\n:a\n\tstore #1, 65536\n\tnop\n"

/-- A source with a number that is too large in the middle of a data line. -/
def overlargeItem : Bytes := ascii ":a\n\tstore #1, b\n\tgoto a\n\tdb 7, 0x08, 300, 9\n:b\n"

/-- A source in which the second of three labels stands nowhere. -/
def missingLabel : Bytes := ascii "\tgoto b\n\tgoto nowhere\n\tstore #1, b\n:b\n"

theorem assemble_faulty_sources :
    (assemble overlargeInteger).code = [0x10, 0, 0] ∧
    (∃ k r q, Reached overlargeInteger k ∧
      (stated overlargeInteger)[k]? = some (.immediate .store r (.number q)) ∧
      q.exceeds 65535 = true ∧
      (assemble overlargeInteger).code = unfilled ((stated overlargeInteger).take k)) ∧
    (assemble overlargeItem).code = [0x01, 1, 0, 0, 0x10, 0, 0, 7, 8] ∧
    (∃ k front item rest, Reached overlargeItem k ∧
      (stated overlargeItem)[k]? = some (.data (front ++ item :: rest)) ∧
      item.text = ascii "300" ∧ (assemble overlargeItem).code =
        unfilled ((stated overlargeItem).take k) ++ front.flatMap fun i => i.byte.bytes) ∧
    (assemble missingLabel).code = [0x10, 10, 0, 0x10, 0, 0, 0x01, 1, 0, 0] ∧
    (Assembler.buildOne ⟨[([ascii "p.in"], missingLabel)]⟩ (ascii "p.in")).files.kind
      [ascii "p.raw"] = .file (assemble missingLabel).code ∧
    ∃ i address, FirstMissing missingLabel i (ascii "nowhere") address ∧
      FilledUpTo i address (recorded 0 (stated missingLabel)) (unfilled (stated missingLabel))
        (assemble missingLabel).code := by
  have hinteger : (assemble overlargeInteger).fault = some .integerTooLarge := by decide +kernel
  have hitem : (assemble overlargeItem).fault = some (.dataTooLarge (ascii "300")) := by
    decide +kernel
  have hlabel : (assemble missingLabel).fault = some (.undefinedLabel (ascii "nowhere")) := by
    decide +kernel
  have hfits : ∀ s ∈ stated missingLabel, s.Fits := by decide +kernel
  have hextents : ∀ j < (stated missingLabel).length,
      extent ((stated missingLabel).take j) < 65536 := by decide +kernel
  obtain ⟨-, -, hfirst, -, -⟩ := assemble_faulty overlargeInteger
  obtain ⟨-, -, -, hsecond, -⟩ := assemble_faulty overlargeItem
  obtain ⟨hfile, -, -, -, hthird⟩ := assemble_faulty missingLabel
  obtain ⟨k, front, item, rest, hreached, hs, -, -, htext, hcode⟩ := hsecond _ hitem
  obtain ⟨i, address, -, hmissing, -, hfilled⟩ := hthird _ hlabel
  refine ⟨by decide +kernel, hfirst hinteger, by decide +kernel,
    ⟨k, front, item, rest, hreached, hs, htext, hcode⟩, by decide +kernel,
    (hfile ⟨[([ascii "p.in"], missingLabel)]⟩ (ascii "p.in") _ rfl rfl rfl).2, i, address, hmissing,
    hfilled hfits fun r hr => ?_⟩
  obtain ⟨j, hj, haddress⟩ := hmissing.before r hr
  rw [haddress]
  exact hextents j (List.getElem?_eq_some_iff.1 hj.1).1

end RegisterMachine
