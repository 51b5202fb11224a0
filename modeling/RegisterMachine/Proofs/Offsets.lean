import Mathlib.Order.Bounds.Basic
import RegisterMachine.Listing
import RegisterMachine.Proofs.Characters
import RegisterMachine.Proofs.TwoPass

/-!
# The addresses that the assembler tracks

The assembler takes the number of characters that it has written for its position in the file. This
is right as long as every number that it has written is one byte, and no longer: from the first
number on that takes several bytes all labels stand for places too near to the start of the file,
and addresses are filled in at the wrong places.

Where every number is one byte, an address is filled in as the last two bytes of the line that
refers to the label, and it is the position of the code behind the last line that defines the label,
if that position fits into two bytes.

## Main definitions

* `stated` — the statements of the lines of a source.
* `draftAt` — the work after so many lines.
* `LastLabel` — the last line that defines a label.
* `LabelsFilled` — every address in the file is the position of its label.
* `LabelsNear` — the positions of the labels fit into two bytes.

## Main results

* `offset_eq_size_iff` — when the count of characters is the position in the file.
* `lookup_labels` — what a label stands for.
* `fillAll_ok` — the bytes that are filled in.
* `offsets_eq_iff` — the addresses of a source that is assembled without a fault.
-/

namespace RegisterMachine

open Effect Draft

/-! ## The work after so many lines -/

/-- The statements of the lines of a source. -/
def stated (t : Bytes) : List Statement := (lines t).map Statement.parse

/-- The work on statements. -/
def Draft.after (ss : List Statement) : Draft :=
  match statements ss {} with
  | .ok _ d => d
  | .error _ d => d

/-- The work after so many lines of a source. -/
def draftAt (t : Bytes) (k : Nat) : Draft := Draft.after ((stated t).take k)

lemma statements_append (ss ss' : List Statement) (d : Draft) :
    statements (ss ++ ss') d = (statements ss >>= fun _ => statements ss') d := by
  induction ss generalizing d with
  | nil => rfl
  | cons s ss ih =>
    rw [List.cons_append, statements, statements, bind_assoc]
    cases hs : statement s d with
    | error f d' => rw [bind_error hs, bind_error hs]
    | ok u d' =>
      rw [bind_ok hs, bind_ok hs]
      exact ih d'

lemma take_succ_of_getElem? {ss : List Statement} {k : Nat} {s : Statement} (hs : ss[k]? = some s) :
    ss.take (k + 1) = ss.take k ++ [s] := by
  rw [List.take_add_one, hs]
  rfl

/-- A label stands for the same after a line that does not define it. -/
lemma lookup_of_ne {s : Statement} {name : Bytes} (h : s ≠ .label name) (a : Nat)
    (labels : List (Bytes × Nat)) :
    ((s.label?.map (·, a)).toList ++ labels).lookup name = labels.lookup name := by
  cases s with
  | label n =>
    have hne : (name == n) = false := beq_eq_false_iff_ne.2 fun heq => h (by rw [heq])
    simp [Statement.label?, List.lookup_cons, hne]
  | _ => rfl

section Lines

variable {ss : List Statement} {d : Draft} (hss : statements ss {} = .ok () d)

include hss

lemma statements_take (k : Nat) : statements (ss.take k) {} = .ok () (after (ss.take k)) := by
  have hsplit := statements_append (ss.take k) (ss.drop k) {}
  rw [List.take_append_drop, hss] at hsplit
  obtain ⟨_, d', htake, -⟩ := of_bind_ok hsplit.symm
  rw [after, htake]

/-- One more line. -/
lemma adds_after {k : Nat} {s : Statement} (hs : ss[k]? = some s) :
    Adds (after (ss.take k)) s (after (ss.take (k + 1))) := by
  have hnext := statements_take hss (k + 1)
  rw [take_succ_of_getElem? hs, statements_append, bind_ok (statements_take hss k)] at hnext
  obtain ⟨_, d', hstatement, hdone⟩ := of_bind_ok hnext
  cases hdone
  rw [take_succ_of_getElem? hs]
  exact adds_statement hstatement

/-- **When the count of characters is the position in the file.**

**Proof sketch.** By induction on the number of lines: each of them adds at least as many bytes as
characters, and as many exactly if it fits. -/
theorem offset_eq_size_iff {k : Nat} (hk : k ≤ ss.length) :
    (after (ss.take k)).offset ≤ (after (ss.take k)).code.size ∧
      ((after (ss.take k)).offset = (after (ss.take k)).code.size ↔ ∀ s ∈ ss.take k, s.Fits) := by
  induction k with
  | zero =>
    have hempty : after [] = {} := rfl
    simp [hempty]
  | succ k ih =>
    obtain ⟨s, hs⟩ : ∃ s, ss[k]? = some s := ⟨ss[k], List.getElem?_eq_getElem hk⟩
    obtain ⟨hle, hiff⟩ := ih (by omega)
    have hadds := adds_after hss hs
    obtain ⟨hmore, hfits⟩ := hadds.size_eq_iff
    have hoffset := hadds.offset
    have hall : (∀ r ∈ ss.take (k + 1), r.Fits) ↔ (∀ r ∈ ss.take k, r.Fits) ∧ s.Fits := by
      rw [take_succ_of_getElem? hs, List.forall_mem_append, List.forall_mem_singleton]
    rw [hall, ← hiff, ← hfits]
    omega

/-- **What a label stands for**: the number of characters before the last line that defines it.

**Proof sketch.** By induction on the number of lines. A line that defines a label puts it in front
of the labels before. -/
theorem lookup_labels {k : Nat} (hk : k ≤ ss.length) {name : Bytes} {a : Nat}
    (ha : (after (ss.take k)).labels.lookup name = some a) :
    ∃ j < k, ss[j]? = some (.label name) ∧
      (∀ i, j < i → i < k → ss[i]? ≠ some (.label name)) ∧ a = (after (ss.take j)).offset := by
  induction k with
  | zero => cases ha
  | succ k ih =>
    obtain ⟨s, hs⟩ : ∃ s, ss[k]? = some s := ⟨ss[k], List.getElem?_eq_getElem hk⟩
    have hadds := adds_after hss hs
    rw [hadds.labels] at ha
    by_cases hnew : s = .label name
    · subst hnew
      have hfound : some (after (ss.take k)).offset = some a := by
        simpa [Statement.label?] using ha
      cases hfound
      exact ⟨k, by omega, hs, fun i hi hik => absurd hik (by omega), rfl⟩
    · rw [lookup_of_ne hnew] at ha
      obtain ⟨j, hj, hlabel, hlast, hoffset⟩ := ih (by omega) ha
      refine ⟨j, by omega, hlabel, fun i hji hik => ?_, hoffset⟩
      rcases Nat.lt_succ_iff_lt_or_eq.1 hik with hlt | rfl
      · exact hlast i hji hlt
      · rw [hs]
        exact fun h => hnew (Option.some.inj h)

/-- The places to fill in lie apart, within what has been counted, and belong to the lines that
refer to a label. -/
lemma references_after {k : Nat} (hk : k ≤ ss.length) :
    (after (ss.take k)).references.toList.Pairwise (fun r r' => r.1 + 2 ≤ r'.1) ∧
      (∀ r ∈ (after (ss.take k)).references.toList, r.1 + 2 ≤ (after (ss.take k)).offset ∧
        ∃ s ∈ ss, s.reference? = some r.2) ∧
      ∀ i < k, ∀ s name, ss[i]? = some s → s.reference? = some name →
        ((after (ss.take (i + 1))).offset - 2, name) ∈ (after (ss.take k)).references.toList := by
  induction k with
  | zero =>
    have hempty : after [] = {} := rfl
    simp [hempty]
  | succ k ih =>
    obtain ⟨s, hs⟩ : ∃ s, ss[k]? = some s := ⟨ss[k], List.getElem?_eq_getElem hk⟩
    obtain ⟨hapart, hwithin, hall⟩ := ih (by omega)
    have hadds := adds_after hss hs
    have hoffset := hadds.offset
    have hreferences : (after (ss.take (k + 1))).references.toList =
        (after (ss.take k)).references.toList ++
          (s.reference?.map ((after (ss.take (k + 1))).offset - 2, ·)).toList := by
      rw [hadds.references, Array.toList_appendList]
    rw [hreferences]
    cases href : s.reference? with
    | none =>
      rw [Option.map_none, Option.toList_none, List.append_nil]
      refine ⟨hapart, fun r hr => ?_, fun i hi r name hir hname => ?_⟩
      · obtain ⟨hle, hline⟩ := hwithin r hr
        exact ⟨by omega, hline⟩
      · rcases Nat.lt_succ_iff_lt_or_eq.1 hi with hlt | rfl
        · exact hall i hlt r name hir hname
        · cases hs.symm.trans hir
          cases href.symm.trans hname
    | some n =>
      have htwo := Statement.two_le_length_numbers href
      rw [Option.map_some, Option.toList_some]
      refine ⟨List.pairwise_append.2 ⟨hapart, List.pairwise_singleton _ _, ?_⟩, ?_, ?_⟩
      · intro r hr r' hr'
        obtain rfl := List.mem_singleton.1 hr'
        have hle := (hwithin r hr).1
        simp only
        omega
      · intro r hr
        rcases List.mem_append.1 hr with hold | hnew
        · obtain ⟨hle, hline⟩ := hwithin r hold
          exact ⟨by omega, hline⟩
        · obtain rfl := List.mem_singleton.1 hnew
          refine ⟨?_, s, List.mem_of_getElem? hs, href⟩
          simp only
          omega
      · intro i hi r name hir hname
        rcases Nat.lt_succ_iff_lt_or_eq.1 hi with hlt | rfl
        · exact List.mem_append_left _ (hall i hlt r name hir hname)
        · cases hs.symm.trans hir
          cases href.symm.trans hname
          exact List.mem_append_right _ (List.mem_singleton_self _)

end Lines

/-! ## Filling in -/

/-- Two bytes written over others. -/
lemma overwrite_pair {code : Array UInt8} {p : Nat} (h : p + 2 ≤ code.size) (b c : UInt8) :
    overwrite p [b, c] code = (code.setIfInBounds p b).setIfInBounds (p + 1) c := by
  have hfirst : p < code.size := by omega
  have hsecond : p + 1 < (code.setIfInBounds p b).size := by
    rw [Array.size_setIfInBounds]
    omega
  rw [overwrite, if_pos hfirst, overwrite, if_pos hsecond, overwrite]

/-- A place that is filled in. -/
lemma fill_ok {p : Nat} {name : Bytes} {d d' : Draft} (h : fill p name d = .ok () d') :
    ∃ a, d.labels.lookup name = some a ∧
      d' = { d with code := overwrite p (lengthBytes a) d.code } := by
  have hget : (get : Drafting Draft) d = .ok d d := rfl
  unfold fill at h
  rw [bind_ok hget] at h
  cases hname : d.labels.lookup name with
  | none =>
    rw [hname] at h
    exact absurd h throw_ne_ok
  | some a =>
    rw [hname] at h
    cases h
    exact ⟨a, rfl, rfl⟩

/-- **The bytes that are filled in**, if the places lie apart and within the code and all addresses
fit into two bytes. All other bytes stay.

**Proof sketch.** By induction on the places. What is filled in at the first place is not touched by
the others. -/
theorem fillAll_ok {refs : List (Nat × Bytes)} {d d' : Draft} (h : fillAll refs d = .ok () d')
    (hshort : ∀ r ∈ refs, ∀ a, d.labels.lookup r.2 = some a → a < 65536)
    (hapart : refs.Pairwise fun r r' => r.1 + 2 ≤ r'.1)
    (hwithin : ∀ r ∈ refs, r.1 + 2 ≤ d.code.size) :
    (∀ i, (∀ r ∈ refs, i < r.1 ∨ r.1 + 2 ≤ i) → d'.code[i]? = d.code[i]?) ∧
      ∀ r ∈ refs, ∃ a, d.labels.lookup r.2 = some a ∧ a < 65536 ∧
        d'.code[r.1]? = some (UInt8.ofNat (a % 256)) ∧
        d'.code[r.1 + 1]? = some (UInt8.ofNat (a / 256)) := by
  induction refs generalizing d with
  | nil =>
    cases h
    simp
  | cons r refs ih =>
    obtain ⟨_, d₁, hfill, hrest⟩ := of_bind_ok h
    obtain ⟨a, ha, rfl⟩ := fill_ok hfill
    have hsmall := hshort r (by simp) a ha
    have hfits := hwithin r (by simp)
    obtain ⟨hbehind, hapart⟩ := List.pairwise_cons.1 hapart
    have hcode : overwrite r.1 (lengthBytes a) d.code =
        (d.code.setIfInBounds r.1 (UInt8.ofNat (a % 256))).setIfInBounds (r.1 + 1)
          (UInt8.ofNat (a / 256)) := by
      rw [lengthBytes_of_lt hsmall, wordBytes_ofNat hsmall, overwrite_pair hfits]
    rw [hcode] at hrest
    obtain ⟨hkept, hfilled⟩ := ih hrest (fun q hq => hshort q (by simp [hq])) hapart (by
      intro q hq
      simpa using hwithin q (by simp [hq]))
    -- the places behind the first one do not touch it
    have hfirst : d'.code[r.1]? = some (UInt8.ofNat (a % 256)) := by
      rw [hkept r.1 fun q hq => .inl (by have := hbehind q hq; omega),
        Array.getElem?_setIfInBounds_ne (by omega),
        Array.getElem?_setIfInBounds_self_of_lt (by omega)]
    have hsecond : d'.code[r.1 + 1]? = some (UInt8.ofNat (a / 256)) := by
      rw [hkept (r.1 + 1) fun q hq => .inl (by have := hbehind q hq; omega),
        Array.getElem?_setIfInBounds_self_of_lt (by rw [Array.size_setIfInBounds]; omega)]
    refine ⟨fun i hi => ?_, List.forall_mem_cons.2 ⟨⟨a, ha, hsmall, hfirst, hsecond⟩, hfilled⟩⟩
    have hr := hi r (by simp)
    rw [hkept i fun q hq => hi q (by simp [hq]), Array.getElem?_setIfInBounds_ne (by omega),
      Array.getElem?_setIfInBounds_ne (by omega)]

/-- The word of the two bytes of an address. -/
lemma toNat_operandWord {code : Array UInt8} {p a : Nat} (ha : a < 65536)
    (hlow : code[p]? = some (UInt8.ofNat (a % 256)))
    (hhigh : code[p + 1]? = some (UInt8.ofNat (a / 256))) :
    (Listing.operandWord code.toList p).toNat = a := by
  have hfirst : Listing.operand code.toList p = UInt8.ofNat (a % 256) := by
    rw [Listing.operand, List.getD_eq_getElem?_getD, Array.getElem?_toList, hlow]
    rfl
  have hsecond : Listing.operand code.toList (p + 1) = UInt8.ofNat (a / 256) := by
    rw [Listing.operand, List.getD_eq_getElem?_getD, Array.getElem?_toList, hhigh]
    rfl
  rw [Listing.operandWord, hfirst, hsecond, wordOf_toNat,
    toNat_ofNat_byte (Nat.mod_lt _ (by decide)), toNat_ofNat_byte (by omega)]
  omega

/-! ## Whole sources -/

/-- A line is the last one that defines a label. -/
def LastLabel (ss : List Statement) (name : Bytes) (j : Nat) : Prop :=
  ss[j]? = some (.label name) ∧ ∀ i, j < i → ss[i]? ≠ some (.label name)

lemma LastLabel.isGreatest {ss : List Statement} {name : Bytes} {j : Nat} (h : LastLabel ss name j) :
    IsGreatest {i | ss[i]? = some (.label name)} j :=
  ⟨h.1, fun i hi => Nat.le_of_not_lt fun hlt => h.2 i hlt hi⟩

/-- Every line of a source that refers to a label ends, in the file, with the position in the file
of the code behind the last line that defines the label. -/
def LabelsFilled (t : Bytes) : Prop :=
  ∀ k s name, (stated t)[k]? = some s → s.reference? = some name →
    ∃ j, LastLabel (stated t) name j ∧
      (Listing.operandWord (assemble t).code ((draftAt t (k + 1)).code.size - 2)).toNat =
        (draftAt t j).code.size

/-- The positions of all labels to which a source refers fit into two bytes. -/
def LabelsNear (t : Bytes) : Prop :=
  ∀ s ∈ stated t, ∀ name, s.reference? = some name →
    ∀ j, LastLabel (stated t) name j → (draftAt t j).code.size < 65536

/-- When all lines are done, addresses are filled in. Only the remark that there is no code may come in
between. -/
lemma source_eq_fillAll {t : Bytes} {d₀ : Draft} (h : statements (stated t) {} = .ok () d₀) :
    ∃ d, d.code = d₀.code ∧ d.labels = d₀.labels ∧
      (d.notices = d₀.notices ∨ d.notices = d₀.notices.push .noCode) ∧
      Draft.source t {} = fillAll d₀.references.toList d := by
  have hget : (get : Drafting Draft) d₀ = .ok d₀ d₀ := rfl
  by_cases hempty : d₀.offset < 1
  · refine ⟨{ d₀ with notices := d₀.notices.push .noCode }, rfl, rfl, .inr rfl, ?_⟩
    rw [Draft.source, ← stated, bind_ok h, bind_ok hget, if_pos hempty]
    rfl
  · refine ⟨d₀, rfl, rfl, .inl rfl, ?_⟩
    rw [Draft.source, ← stated, bind_ok h, bind_ok hget, if_neg hempty]
    rfl

/-- The two parts of the work on a source that ends without a fault. Only remarks come between
them. -/
lemma assemble_ok {t : Bytes} (h : (assemble t).fault = none) :
    ∃ d d', statements (stated t) {} = .ok () (draftAt t (stated t).length) ∧
      d.code = (draftAt t (stated t).length).code ∧
      d.labels = (draftAt t (stated t).length).labels ∧
      fillAll (draftAt t (stated t).length).references.toList d = .ok () d' ∧
      (assemble t).code = d'.code.toList := by
  cases hstatements : statements (stated t) {} with
  | error f d =>
    have hsource : Draft.source t {} = .error f d := bind_error hstatements
    rw [assemble, hsource] at h
    cases h
  | ok u d₀ =>
    have hlast : draftAt t (stated t).length = d₀ := by
      rw [draftAt, List.take_length, Draft.after, hstatements]
    obtain ⟨d, hcode, hlabels, -, hsource⟩ := source_eq_fillAll hstatements
    rw [hlast]
    cases hfill : fillAll d₀.references.toList d with
    | error f d' =>
      rw [assemble, hsource, hfill] at h
      cases h
    | ok u d' => exact ⟨d, d', rfl, hcode, hlabels, hfill, by rw [assemble, hsource, hfill]⟩

section Source

variable {t : Bytes} (h : (assemble t).fault = none)

include h

/-- When the tracked address is the position in the file, line by line. -/
lemma offset_draftAt_iff {k : Nat} (hk : k ≤ (stated t).length) :
    (draftAt t k).offset = (draftAt t k).code.size ↔ ∀ s ∈ (stated t).take k, s.Fits := by
  obtain ⟨-, -, hstatements, -⟩ := assemble_ok h
  exact (offset_eq_size_iff hstatements hk).2

lemma offset_draftAt (hfits : ∀ s ∈ stated t, s.Fits) {k : Nat} (hk : k ≤ (stated t).length) :
    (draftAt t k).offset = (draftAt t k).code.size :=
  (offset_draftAt_iff h hk).2 fun s hs => hfits s (List.mem_of_mem_take hs)

/-- What a label stands for in the end, if every number is one byte. -/
lemma lookup_draftAt (hfits : ∀ s ∈ stated t, s.Fits) {name : Bytes} {a : Nat}
    (ha : (draftAt t (stated t).length).labels.lookup name = some a) :
    ∃ j, LastLabel (stated t) name j ∧ a = (draftAt t j).code.size := by
  obtain ⟨-, -, hstatements, -⟩ := assemble_ok h
  obtain ⟨j, hj, hlabel, hlast, rfl⟩ := lookup_labels hstatements (Nat.le_refl _) ha
  refine ⟨j, ⟨hlabel, fun i hi => ?_⟩, offset_draftAt h hfits (by omega)⟩
  by_cases hlength : i < (stated t).length
  · exact hlast i hi hlength
  · rw [List.getElem?_eq_none (by omega)]
    exact fun hnone => nomatch hnone

/-- If every number is one byte and all labels are near, the addresses are filled in as they should
be. -/
lemma labelsFilled_of_near (hfits : ∀ s ∈ stated t, s.Fits) (hnear : LabelsNear t) :
    LabelsFilled t := by
  intro k s name hs hname
  obtain ⟨d, d', hstatements, hcode, hlabels, hfill, hassemble⟩ := assemble_ok h
  have hk : k + 1 ≤ (stated t).length := (List.getElem?_eq_some_iff.1 hs).1
  obtain ⟨hapart, hwithin, hall⟩ := references_after hstatements (Nat.le_refl (stated t).length)
  have hshort : ∀ r ∈ (draftAt t (stated t).length).references.toList,
      ∀ a, d.labels.lookup r.2 = some a → a < 65536 := by
    intro r hr a ha
    obtain ⟨-, u, hu, hreference⟩ := hwithin r hr
    rw [hlabels] at ha
    obtain ⟨j, hj, rfl⟩ := lookup_draftAt h hfits ha
    exact hnear u hu r.2 hreference j hj
  have hfit : ∀ r ∈ (draftAt t (stated t).length).references.toList, r.1 + 2 ≤ d.code.size := by
    rw [hcode, ← offset_draftAt h hfits (Nat.le_refl _)]
    exact fun r hr => (hwithin r hr).1
  obtain ⟨a, ha, hsmall, hlow, hhigh⟩ :=
    (fillAll_ok hfill hshort hapart hfit).2 _ (hall k hk s name hs hname)
  rw [hlabels] at ha
  obtain ⟨j, hj, rfl⟩ := lookup_draftAt h hfits ha
  refine ⟨j, hj, ?_⟩
  rw [hassemble, ← offset_draftAt h hfits hk]
  exact toNat_operandWord hsmall hlow hhigh

/-- **The addresses of a source that is assembled without a fault.** At the end of a line the
tracked address is the number of bytes in the file exactly if every number that was written up to
there is one byte: it is not negative, and its whole part is below 256. If this is so for the whole
source, every address that was filled in is the position of its label exactly if these positions are
below 65536.

**Proof sketch.** Every line adds to the file at least as many bytes as characters. If it is always
as many, the places to fill in are the last two bytes of the lines that refer to a label; they lie
apart, so none of them is filled in twice. -/
theorem offsets_eq_iff :
    (∀ k ≤ (stated t).length, (draftAt t k).offset = (draftAt t k).code.size ↔
      ∀ s ∈ (stated t).take k, s.Fits) ∧
    ((∀ s ∈ stated t, s.Fits) → (LabelsFilled t ↔ LabelsNear t)) := by
  refine ⟨fun k hk => offset_draftAt_iff h hk, fun hfits => ⟨fun hfilled => ?_, ?_⟩⟩
  · intro s hs name hname j hj
    obtain ⟨k, hk⟩ := List.getElem?_of_mem hs
    obtain ⟨i, hi, haddress⟩ := hfilled k s name hk hname
    obtain rfl := hi.isGreatest.unique hj.isGreatest
    rw [← haddress]
    exact UInt16.toNat_lt _
  · exact labelsFilled_of_near h hfits

end Source

/-- A source with a label in front of its reference and one behind it. -/
def jumpOver : Bytes := ascii ":again\n\tstore #1, there\n\tinc #255\n:there\n\tgoto again\n"

theorem offsets_eq_iff_jumpOver :
    (assemble jumpOver).fault = none ∧
      (∀ k ≤ (stated jumpOver).length,
        (draftAt jumpOver k).offset = (draftAt jumpOver k).code.size) ∧
      LabelsFilled jumpOver := by
  have hfault : (assemble jumpOver).fault = none := by decide +kernel
  have hfits : ∀ s ∈ stated jumpOver, s.Fits := by decide +kernel
  have hsizes : ∀ j < (stated jumpOver).length, (draftAt jumpOver j).code.size < 65536 := by
    decide +kernel
  have hnear : LabelsNear jumpOver := fun s _ name _ j hj =>
    hsizes j (List.getElem?_eq_some_iff.1 hj.1).1
  obtain ⟨hoffsets, hlabels⟩ := offsets_eq_iff hfault
  refine ⟨hfault, fun k hk => (hoffsets k hk).2 ?_, (hlabels hfits).2 hnear⟩
  exact fun s hs => hfits s (List.mem_of_mem_take hs)

/-- A source with a number that takes two bytes, in front of a label. -/
def wideNumber : Bytes := ascii "\tinc #256\n:here\n\tgoto here\n"

/-- The tracked address may fall behind the file: the label has position 3 and is taken for 2, and
the address is written over the opcode of the jump. -/
theorem offset_draftAt_wideNumber :
    (assemble wideNumber).fault = none ∧ (draftAt wideNumber 1).offset = 2 ∧
      (draftAt wideNumber 1).code.size = 3 ∧
      (assemble wideNumber).code = [0x25, 0xC4, 0x80, 0x02, 0x00, 0x00] := by
  decide +kernel

end RegisterMachine
