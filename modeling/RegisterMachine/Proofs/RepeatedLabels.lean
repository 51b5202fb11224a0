import RegisterMachine.Proofs.Offsets
import RegisterMachine.Proofs.Remarks

/-!
# Labels that are defined several times

The remark on a repeated label says that its first place is taken. This is not what happens: a later
place takes over from an earlier one, so in the end a label stands for the place of the last line that
defines it. Nor is the remark made on every line that repeats a label: the place of the line before
that defines it must not be the start of the code.

## Main definitions

* `Reached` — the work on a source gets to a line.
* `lineNotices` — what is remarked while a line is worked on.
* `LatestBefore`, `FirstLabel` — the latest line before a line, and the first line, that define a label.
* `WarnsOnRepeats`, `FillsFirst` — what the remark announces.
* `patch` — the code with addresses filled in.

## Main results

* `notices_assemble` — all remarks on a source, line by line.
* `mem_lineNotices_iff` — when a line is remarked on as a repetition.
* `code_assemble` — the addresses that are filled in are those of the last lines.
* `announced_iff` — when the announcement is kept.
-/

namespace RegisterMachine

open Effect Draft

/-! ## Remarks, line by line -/

/-- The work on a source gets to a line: there is no fault before it. -/
def Reached (t : Bytes) (k : Nat) : Prop :=
  statements ((stated t).take k) {} = .ok () (draftAt t k)

/-- What is remarked while a line is worked on. -/
def lineNotices (t : Bytes) (k : Nat) : List Notice :=
  (draftAt t (k + 1)).notices.toList.drop (draftAt t k).notices.size

/-- One more line, whether or not a fault ends the work on it. -/
lemma draftAt_succ_of_reached {t : Bytes} {k : Nat} (h : Reached t k) {s : Statement}
    (hs : (stated t)[k]? = some s) : draftAt t (k + 1) = left (statement s) (draftAt t k) := by
  have hone : statements [s] (draftAt t k) = (statement s >>= fun _ => pure ()) (draftAt t k) := rfl
  have hstep : statements ((stated t).take (k + 1)) {} =
      (statement s >>= fun _ => pure ()) (draftAt t k) := by
    rw [take_succ_of_getElem? hs, statements_append, bind_ok h, hone]
  rw [draftAt, Draft.after, hstep]
  cases hwork : statement s (draftAt t k) with
  | ok _ d => rw [bind_ok hwork, left_of_ok hwork]; rfl
  | error f d => rw [bind_error hwork, left_of_error hwork]

/-- Nothing is worked on behind a fault. -/
lemma draftAt_succ_of_not_reached {t : Bytes} {k : Nat} (h : ¬Reached t k) :
    draftAt t (k + 1) = draftAt t k := by
  cases hwork : statements ((stated t).take k) {} with
  | ok _ d =>
    refine absurd ?_ h
    rw [Reached, hwork, draftAt, Draft.after, hwork]
  | error f d =>
    have hmore : statements ((stated t).take (k + 1)) {} = .error f d := by
      rw [List.take_add_one, statements_append, bind_error hwork]
    rw [draftAt, draftAt, Draft.after, Draft.after, hmore, hwork]

/-- The lines of a source are as many as its statements. -/
lemma draftAt_succ_of_length_le {t : Bytes} {k : Nat} (h : (stated t).length ≤ k) :
    draftAt t (k + 1) = draftAt t k := by
  rw [draftAt, draftAt, List.take_of_length_le h, List.take_of_length_le (by omega)]

/-- What is remarked on a line that the work gets to. -/
lemma lineNotices_of_reached {t : Bytes} {k : Nat} (h : Reached t k) {s : Statement}
    (hs : (stated t)[k]? = some s) : lineNotices t k = s.remarks (draftAt t k) := by
  rw [lineNotices, draftAt_succ_of_reached h hs, notices_left_statement, ← Array.length_toList,
    List.drop_left]

/-- Nothing is remarked where nothing is done: behind a fault and behind the last line. -/
lemma lineNotices_of_eq {t : Bytes} {k : Nat} (h : draftAt t (k + 1) = draftAt t k) :
    lineNotices t k = [] := by
  rw [lineNotices, h, ← Array.length_toList, List.drop_length]

/-- A line is worked on, or nothing is done. -/
lemma reached_or_eq (t : Bytes) (k : Nat) :
    (Reached t k ∧ ∃ s, (stated t)[k]? = some s) ∨ draftAt t (k + 1) = draftAt t k := by
  by_cases hreached : Reached t k
  · cases hs : (stated t)[k]? with
    | none => exact .inr (draftAt_succ_of_length_le (List.getElem?_eq_none_iff.1 hs))
    | some s => exact .inl ⟨hreached, s, rfl⟩
  · exact .inr (draftAt_succ_of_not_reached hreached)

/-- The remarks after one more line. -/
lemma notices_draftAt_succ (t : Bytes) (k : Nat) :
    (draftAt t (k + 1)).notices.toList = (draftAt t k).notices.toList ++ lineNotices t k := by
  rcases reached_or_eq t k with ⟨hreached, s, hs⟩ | hsame
  · rw [lineNotices_of_reached hreached hs, draftAt_succ_of_reached hreached hs,
      notices_left_statement]
  · rw [lineNotices_of_eq hsame, hsame, List.append_nil]

/-- The remarks after so many lines. -/
lemma notices_draftAt (t : Bytes) (n : Nat) :
    (draftAt t n).notices.toList = (List.range n).flatMap (lineNotices t) := by
  induction n with
  | zero => rfl
  | succ n ih =>
    rw [notices_draftAt_succ, ih, List.range_succ, List.flatMap_append, List.flatMap_singleton]

/-- **All remarks on a source**: those on its lines, in order, and at most the one that there is no
code. -/
theorem notices_assemble (t : Bytes) :
    ∃ closing, (closing = [] ∨ closing = [.noCode]) ∧
      (assemble t).notices = (List.range (stated t).length).flatMap (lineNotices t) ++ closing := by
  have hlast : draftAt t (stated t).length = Draft.after (stated t) := by
    rw [draftAt, List.take_length]
  rw [← notices_draftAt, hlast]
  have hnotices : (assemble t).notices = (left (Draft.source t) {}).notices.toList := by
    rw [assemble, left]
    cases Draft.source t {} <;> rfl
  rw [hnotices]
  cases hwork : statements (stated t) {} with
  | error f d =>
    have hsource : Draft.source t {} = .error f d := bind_error hwork
    refine ⟨[], .inl rfl, ?_⟩
    rw [left_of_error hsource, Draft.after, hwork, List.append_nil]
  | ok _ d =>
    obtain ⟨d', -, -, hremark, hsource⟩ := source_eq_fillAll hwork
    rw [left, hsource, ← left, quiet_fillAll, Draft.after, hwork]
    rcases hremark with hremark | hremark
    · exact ⟨[], .inl rfl, by rw [hremark, List.append_nil]⟩
    · exact ⟨[.noCode], .inr rfl, by rw [hremark, Array.toList_push]⟩

/-! ## Repetitions -/

/-- The latest line before line `k` that defines a label. -/
structure LatestBefore (ss : List Statement) (name : Bytes) (k j : Nat) : Prop where
  lt : j < k
  label : ss[j]? = some (.label name)
  latest : ∀ i, j < i → i < k → ss[i]? ≠ some (.label name)

lemma LatestBefore.isGreatest {ss : List Statement} {name : Bytes} {k j : Nat}
    (h : LatestBefore ss name k j) : IsGreatest {i | i < k ∧ ss[i]? = some (.label name)} j :=
  ⟨⟨h.lt, h.label⟩, fun i hi => Nat.le_of_not_lt fun hlt => h.latest i hlt hi.1 hi.2⟩

/-- Of the lines before a line that define a label, one is the latest. -/
lemma exists_latestBefore {ss : List Statement} {name : Bytes} {k j : Nat} (hj : j < k)
    (hlabel : ss[j]? = some (.label name)) : ∃ i, LatestBefore ss name k i := by
  induction k with
  | zero => omega
  | succ k ih =>
    by_cases hlast : ss[k]? = some (.label name)
    · exact ⟨k, by omega, hlast, fun i hki hik => absurd hik (by omega)⟩
    · have hjk : j < k := by
        rcases Nat.lt_succ_iff_lt_or_eq.1 hj with hlt | rfl
        · exact hlt
        · exact absurd hlabel hlast
      obtain ⟨i, hi⟩ := ih hjk
      refine ⟨i, by have := hi.lt; omega, hi.label, fun l hil hlk => ?_⟩
      rcases Nat.lt_succ_iff_lt_or_eq.1 hlk with hlt | rfl
      · exact hi.latest l hil hlt
      · exact hlast

section Lookups

variable {ss : List Statement} {d : Draft} (hss : statements ss {} = .ok () d) {k : Nat}
  (hk : k ≤ ss.length) {name : Bytes}

include hss hk

/-- A label that was defined stands for something. -/
lemma exists_lookup {j : Nat} (hj : j < k) (hlabel : ss[j]? = some (.label name)) :
    ∃ a, (Draft.after (ss.take k)).labels.lookup name = some a := by
  induction k with
  | zero => omega
  | succ k ih =>
    obtain ⟨s, hs⟩ : ∃ s, ss[k]? = some s := ⟨ss[k], List.getElem?_eq_getElem hk⟩
    rw [(adds_after hss hs).labels]
    by_cases hnew : s = .label name
    · subst hnew
      exact ⟨_, List.lookup_cons_self⟩
    · have hother : j ≠ k := by
        rintro rfl
        exact hnew (Option.some.inj (hs.symm.trans hlabel))
      rw [lookup_of_ne hnew]
      exact ih (by omega) (by omega)

/-- **What a label stands for after so many lines**: the place of the latest line that defines it. -/
lemma lookup_eq_some_iff {a : Nat} : (Draft.after (ss.take k)).labels.lookup name = some a ↔
    ∃ j, LatestBefore ss name k j ∧ a = (Draft.after (ss.take j)).offset := by
  constructor
  · intro ha
    obtain ⟨j, hj, hlabel, hlatest, hoffset⟩ := lookup_labels hss hk ha
    exact ⟨j, ⟨hj, hlabel, hlatest⟩, hoffset⟩
  · rintro ⟨j, hj, rfl⟩
    obtain ⟨a, ha⟩ := exists_lookup hss hk hj.lt hj.label
    obtain ⟨i, hi, hlabel, hlatest, rfl⟩ := lookup_labels hss hk ha
    have hlast : LatestBefore ss name k i := ⟨hi, hlabel, hlatest⟩
    rw [hj.isGreatest.unique hlast.isGreatest]
    exact ha

end Lookups

/-- A line is looked for in the lines before it only. -/
lemma latestBefore_take {ss : List Statement} {name : Bytes} {k j : Nat} :
    LatestBefore (ss.take k) name k j ↔ LatestBefore ss name k j := by
  have hget : ∀ i, i < k → (ss.take k)[i]? = ss[i]? := fun i hi => List.getElem?_take_of_lt hi
  constructor
  · intro h
    exact ⟨h.lt, hget j h.lt ▸ h.label, fun i hji hik => hget i hik ▸ h.latest i hji hik⟩
  · intro h
    exact ⟨h.lt, (hget j h.lt).symm ▸ h.label, fun i hji hik => (hget i hik).symm ▸ h.latest i hji hik⟩

/-- The same while a line of a source is worked on. -/
lemma lookup_draftAt_iff {t : Bytes} {k : Nat} (h : Reached t k) (hk : k ≤ (stated t).length)
    {name : Bytes} {a : Nat} : (draftAt t k).labels.lookup name = some a ↔
      ∃ j, LatestBefore (stated t) name k j ∧ a = (draftAt t j).offset := by
  have hlength : ((stated t).take k).length = k := List.length_take_of_le hk
  have hwhole : draftAt t k = Draft.after (((stated t).take k).take k) := by
    rw [List.take_take, Nat.min_self, draftAt]
  rw [hwhole, lookup_eq_some_iff h hlength.ge]
  refine exists_congr fun j => ?_
  rw [latestBefore_take]
  refine and_congr_right fun hj => ?_
  rw [List.take_take, Nat.min_eq_left (Nat.le_of_lt hj.lt), draftAt]

/-- When a statement is remarked on as a repetition. -/
lemma mem_remarks_iff (s : Statement) (d : Draft) (name : Bytes) :
    .repeatedLabel name ∈ s.remarks d ↔
      s = .label name ∧ ∃ a, d.labels.lookup name = some a ∧ a ≠ 0 := by
  have hfound : ∀ o : Option Nat, o.getD 0 ≠ 0 ↔ ∃ a, o = some a ∧ a ≠ 0 := by
    intro o
    cases o <;> simp
  rw [← hfound]
  cases s with
  | label n =>
    rw [Statement.remarks, List.mem_append]
    constructor
    · rintro (h | h)
      · split at h
        · next hplace =>
          obtain rfl : name = n := by simpa using h
          exact ⟨rfl, by simpa using hplace⟩
        · cases h
      · split at h <;> simp at h
    · rintro ⟨hname, hplace⟩
      cases hname
      left
      rw [if_pos (by simpa using hplace)]
      exact List.mem_singleton_self _
  | _ => simp [Statement.remarks]

/-- **When a line is remarked on as a repetition**: the work gets to it, and the place of the latest
line before that defines the same label is not the start of the code. -/
theorem mem_lineNotices_iff (t : Bytes) (k : Nat) (name : Bytes) :
    .repeatedLabel name ∈ lineNotices t k ↔
      Reached t k ∧ (stated t)[k]? = some (.label name) ∧
        ∃ j, LatestBefore (stated t) name k j ∧ (draftAt t j).offset ≠ 0 := by
  by_cases hline : Reached t k ∧ ∃ s, (stated t)[k]? = some s
  · obtain ⟨hreached, s, hs⟩ := hline
    have hk : k ≤ (stated t).length := Nat.le_of_lt (List.getElem?_eq_some_iff.1 hs).1
    rw [lineNotices_of_reached hreached hs, mem_remarks_iff, hs, Option.some.injEq]
    simp only [lookup_draftAt_iff hreached hk, hreached, true_and]
    refine and_congr_right fun _ => ⟨?_, ?_⟩
    · rintro ⟨a, ⟨j, hj, rfl⟩, hplace⟩
      exact ⟨j, hj, hplace⟩
    · rintro ⟨j, hj, hplace⟩
      exact ⟨_, ⟨j, hj, rfl⟩, hplace⟩
  · rw [lineNotices_of_eq ((reached_or_eq t k).resolve_left hline)]
    refine ⟨fun h => absurd h List.not_mem_nil, ?_⟩
    rintro ⟨hreached, hs, -⟩
    exact absurd ⟨hreached, _, hs⟩ hline

/-! ## Addresses -/

/-- The code with an address filled in at each of some places. -/
def patch (address : Bytes → Nat) (refs : List (Nat × Bytes)) (code : Array UInt8) : Array UInt8 :=
  refs.foldl (fun code r => overwrite r.1 (lengthBytes (address r.2)) code) code

/-- The bytes that filling in writes, wherever the places are and whatever the addresses. -/
lemma fillAll_eq_patch {refs : List (Nat × Bytes)} {d d' : Draft} (h : fillAll refs d = .ok () d') :
    (∀ r ∈ refs, ∃ a, d.labels.lookup r.2 = some a) ∧
      d'.code = patch (fun name => (d.labels.lookup name).getD 0) refs d.code := by
  induction refs generalizing d with
  | nil =>
    cases h
    simp [patch]
  | cons r refs ih =>
    obtain ⟨_, d₁, hfill, hrest⟩ := of_bind_ok h
    obtain ⟨a, ha, rfl⟩ := fill_ok hfill
    obtain ⟨hfound, hcode⟩ := ih hrest
    refine ⟨List.forall_mem_cons.2 ⟨⟨a, ha⟩, hfound⟩, ?_⟩
    rw [hcode, patch, patch, List.foldl_cons, ha]
    rfl

/-- The latest of all lines that define a label is the last one. -/
lemma LatestBefore.lastLabel {ss : List Statement} {name : Bytes} {j : Nat}
    (h : LatestBefore ss name ss.length j) : LastLabel ss name j := by
  refine ⟨h.label, fun i hji => ?_⟩
  by_cases hi : i < ss.length
  · exact h.latest i hji hi
  · rw [List.getElem?_eq_none (by omega)]
    exact fun hnone => nomatch hnone

/-- **The addresses that are filled in are those of the last lines** that define the labels. -/
theorem code_assemble {t : Bytes} (h : (assemble t).fault = none) :
    ∃ address : Bytes → Nat,
      (∀ r ∈ (draftAt t (stated t).length).references.toList,
        ∃ j, LastLabel (stated t) r.2 j ∧ address r.2 = (draftAt t j).offset) ∧
      (assemble t).code = (patch address (draftAt t (stated t).length).references.toList
        (draftAt t (stated t).length).code).toList := by
  obtain ⟨d, d', hstatements, hcode, hlabels, hfill, hassemble⟩ := assemble_ok h
  obtain ⟨hfound, hpatch⟩ := fillAll_eq_patch hfill
  have hreached : Reached t (stated t).length := by rw [Reached, List.take_length, hstatements]
  rw [hlabels] at hfound hpatch
  refine ⟨_, fun r hr => ?_, by rw [hassemble, hpatch, hcode]⟩
  obtain ⟨a, ha⟩ := hfound r hr
  obtain ⟨j, hj, rfl⟩ := (lookup_draftAt_iff hreached (Nat.le_refl _)).1 ha
  exact ⟨j, hj.lastLabel, by rw [ha]; rfl⟩

/-! ## What is announced -/

/-- A line is the first one that defines a label. -/
def FirstLabel (ss : List Statement) (name : Bytes) (j : Nat) : Prop :=
  ss[j]? = some (.label name) ∧ ∀ i < j, ss[i]? ≠ some (.label name)

lemma FirstLabel.isLeast {ss : List Statement} {name : Bytes} {j : Nat} (h : FirstLabel ss name j) :
    IsLeast {i | ss[i]? = some (.label name)} j :=
  ⟨h.1, fun i hi => Nat.le_of_not_lt fun hlt => h.2 i hlt hi⟩

/-- Of the lines that define a label, one is the first. -/
lemma exists_firstLabel {ss : List Statement} {name : Bytes} {k : Nat}
    (h : ss[k]? = some (.label name)) : ∃ j, FirstLabel ss name j := by
  classical
  have hsome : ∃ j : Nat, ss[j]? = some (.label name) := ⟨k, h⟩
  exact ⟨Nat.find hsome, Nat.find_spec hsome, fun i hi => Nat.find_min hsome hi⟩

/-- A line is remarked on as a repetition exactly if it defines a label that a line before it
defines. -/
def WarnsOnRepeats (t : Bytes) : Prop :=
  ∀ (k : Nat) (name : Bytes), .repeatedLabel name ∈ lineNotices t k ↔
    (stated t)[k]? = some (.label name) ∧ ∃ j < k, (stated t)[j]? = some (.label name)

/-- Every line of a source that refers to a label ends, in the file, with the place of the first line
that defines the label. -/
def FillsFirst (t : Bytes) : Prop :=
  ∀ k s name, (stated t)[k]? = some s → s.reference? = some name →
    ∃ j, FirstLabel (stated t) name j ∧
      (Listing.operandWord (assemble t).code ((draftAt t (k + 1)).code.size - 2)).toNat =
        (draftAt t j).offset

/-- **When all repetitions are remarked on**: the work gets to them, and the label was never at the
start of the code before. -/
lemma warnsOnRepeats_iff (t : Bytes) :
    WarnsOnRepeats t ↔ ∀ k j name, (stated t)[k]? = some (.label name) →
      LatestBefore (stated t) name k j → Reached t k ∧ (draftAt t j).offset ≠ 0 := by
  constructor
  · intro h k j name hk hj
    have hwarned := (h k name).2 ⟨hk, j, hj.lt, hj.label⟩
    obtain ⟨hreached, -, i, hi, hplace⟩ := (mem_lineNotices_iff t k name).1 hwarned
    rw [hj.isGreatest.unique hi.isGreatest]
    exact ⟨hreached, hplace⟩
  · intro h k name
    rw [mem_lineNotices_iff]
    constructor
    · rintro ⟨-, hk, j, hj, -⟩
      exact ⟨hk, j, hj.lt, hj.label⟩
    · rintro ⟨hk, j, hjk, hlabel⟩
      obtain ⟨i, hi⟩ := exists_latestBefore hjk hlabel
      obtain ⟨hreached, hplace⟩ := h k i name hk hi
      exact ⟨hreached, hk, i, hi, hplace⟩

/-- **When the first place is filled in**: it is the last place, too. -/
lemma fillsFirst_iff {t : Bytes} (h : (assemble t).fault = none) (hfits : ∀ s ∈ stated t, s.Fits)
    (hnear : LabelsNear t) :
    FillsFirst t ↔ ∀ s ∈ stated t, ∀ name, s.reference? = some name → ∀ i j,
      FirstLabel (stated t) name i → LastLabel (stated t) name j →
        (draftAt t i).offset = (draftAt t j).offset := by
  have hfilled := labelsFilled_of_near h hfits hnear
  have hoffset : ∀ name j, LastLabel (stated t) name j →
      (draftAt t j).offset = (draftAt t j).code.size := fun name j hj =>
    offset_draftAt h hfits (Nat.le_of_lt (List.getElem?_eq_some_iff.1 hj.1).1)
  constructor
  · intro hfirst s hs name hname i j hi hj
    obtain ⟨k, hk⟩ := List.getElem?_of_mem hs
    obtain ⟨i', hi', hword⟩ := hfirst k s name hk hname
    obtain ⟨j', hj', hword'⟩ := hfilled k s name hk hname
    rw [hi.isLeast.unique hi'.isLeast, hj.isGreatest.unique hj'.isGreatest, hoffset name j' hj', ← hword,
      ← hword']
  · intro hsame k s name hk hname
    obtain ⟨j, hj, hword⟩ := hfilled k s name hk hname
    obtain ⟨i, hi⟩ := exists_firstLabel hj.1
    refine ⟨i, hi, ?_⟩
    rw [hword, hsame s (List.mem_of_getElem? hk) name hname i j hi hj, hoffset name j hj]

/-- **When the announcement is kept.** The remarks on a source are those on its lines, in order, and at
most the one that there is no code. Every line that repeats a label is remarked on exactly if the work
gets to all of them and none of the places that are taken over is the start of the code. If there is no
fault, the addresses that are filled in are the places of the last lines that define the labels. So,
where every number is one byte and all labels are near, they are the places of the first lines exactly
if the first and the last line that define a label have the same place, for each label to which the
source refers.

**Proof sketch.** While a line is worked on, a label stands for the place of the latest line before
that defines it, and a label at the start of the code is not told apart from one that is nowhere. The
filling in comes last, and then the latest line is the last one. -/
theorem announced_iff (t : Bytes) :
    (∃ closing, (closing = [] ∨ closing = [.noCode]) ∧
      (assemble t).notices = (List.range (stated t).length).flatMap (lineNotices t) ++ closing) ∧
    (WarnsOnRepeats t ↔ ∀ k j name, (stated t)[k]? = some (.label name) →
      LatestBefore (stated t) name k j → Reached t k ∧ (draftAt t j).offset ≠ 0) ∧
    ((assemble t).fault = none →
      (∃ address : Bytes → Nat,
        (∀ r ∈ (draftAt t (stated t).length).references.toList,
          ∃ j, LastLabel (stated t) r.2 j ∧ address r.2 = (draftAt t j).offset) ∧
        (assemble t).code = (patch address (draftAt t (stated t).length).references.toList
          (draftAt t (stated t).length).code).toList) ∧
      ((∀ s ∈ stated t, s.Fits) → LabelsNear t →
        (FillsFirst t ↔ ∀ s ∈ stated t, ∀ name, s.reference? = some name → ∀ i j,
          FirstLabel (stated t) name i → LastLabel (stated t) name j →
            (draftAt t i).offset = (draftAt t j).offset))) :=
  ⟨notices_assemble t, warnsOnRepeats_iff t, fun h =>
    ⟨code_assemble h, fun hfits hnear => fillsFirst_iff h hfits hnear⟩⟩

/-- A source with a label that is defined twice at one place, which is not the start of the code. -/
def twoNames : Bytes := ascii "\tnop\n:loop\n:loop\n\tinc #3\n\tgoto loop\n"

theorem announced_iff_twoNames :
    (assemble twoNames).fault = none ∧ (∀ s ∈ stated twoNames, s.Fits) ∧ LabelsNear twoNames ∧
      WarnsOnRepeats twoNames ∧ FillsFirst twoNames := by
  have hfault : (assemble twoNames).fault = none := by decide +kernel
  have hfits : ∀ s ∈ stated twoNames, s.Fits := by decide +kernel
  have hsizes : ∀ j < (stated twoNames).length, (draftAt twoNames j).code.size < 65536 := by
    decide +kernel
  have hnear : LabelsNear twoNames := fun s _ name _ j hj =>
    hsizes j (List.getElem?_eq_some_iff.1 hj.1).1
  have hplaces : ∀ j < (stated twoNames).length,
      ((stated twoNames)[j]?.bind Statement.label?).isSome → (draftAt twoNames j).offset = 1 := by
    decide +kernel
  have hplace : ∀ (j : Nat) name, (stated twoNames)[j]? = some (.label name) →
      (draftAt twoNames j).offset = 1 := fun j name hj =>
    hplaces j (List.getElem?_eq_some_iff.1 hj).1 (by rw [hj]; rfl)
  obtain ⟨-, -, hstatements, -⟩ := assemble_ok hfault
  obtain ⟨-, hwarns, hfills⟩ := announced_iff twoNames
  refine ⟨hfault, hfits, hnear, hwarns.2 ?_, ((hfills hfault).2 hfits hnear).2 ?_⟩
  · intro k j name _ hj
    exact ⟨statements_take hstatements k, by rw [hplace j name hj.label]; decide⟩
  · intro s _ name _ i j hi hj
    rw [hplace i name hi.1, hplace j name hj.1]

/-- A source with a label at the start of the code that is defined again behind it. -/
def movedStart : Bytes := ascii ":a\n\tnop\n:a\n\tgoto a\n"

/-- The repetition is not remarked on, and the address is that of the second place. -/
theorem announced_movedStart :
    (assemble movedStart).fault = none ∧ (assemble movedStart).notices = [] ∧
      (assemble movedStart).code = [0x50, 0x10, 0x01, 0x00] ∧
      ¬WarnsOnRepeats movedStart ∧ ¬FillsFirst movedStart := by
  refine ⟨by decide +kernel, by decide +kernel, by decide +kernel, fun h => ?_, fun h => ?_⟩
  · have hwarned := (h 2 (ascii "a")).2 ⟨by decide +kernel, 0, by decide, by decide +kernel⟩
    have hsilent : lineNotices movedStart 2 = [] := by decide +kernel
    rw [hsilent] at hwarned
    cases hwarned
  · obtain ⟨j, hj, hword⟩ := h 3 (.branch .jump (.label (ascii "a"))) (ascii "a")
      (by decide +kernel) rfl
    have hfirst : FirstLabel (stated movedStart) (ascii "a") 0 :=
      ⟨by decide +kernel, fun i hi => absurd hi (Nat.not_lt_zero i)⟩
    rw [hj.isLeast.unique hfirst.isLeast] at hword
    exact absurd hword (by decide +kernel)

end RegisterMachine
