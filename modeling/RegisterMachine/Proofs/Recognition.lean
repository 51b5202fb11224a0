import Mathlib.Data.List.TakeWhile
import RegisterMachine.Proofs.Scanning

/-!
# What a recognised line looks like

The recognisers of a source line take what they are made for, and nothing else: from what a recogniser
gave and what it left one can tell what stood there. So a line that states an operation with a word
operand consists of the name of the operation, the operands before the word, the word, and a rest that
begins with a blank, and no other form makes such a statement of a line.

## Main definitions

* `Scan.Blank` — texts of blanks.
* `Scan.Yields` — all that a recogniser gives is of a kind.
* `WordUse` — the operations with a word operand.
* `WordUse.Front` — what stands in front of the word.
* `WordUse.reads` — what the word stands for.

## Main results

* `Scan.of_blanks`, `of_name`, `of_run`, `Statement.of_register`, `of_comma` — what was taken.
* `Statement.exists_form` — the form that made a statement of a line.
* `WordUse.exists_operand` — a line with a word operand.
-/

namespace RegisterMachine

namespace Scan

variable {α β : Type}

/-- A text of blanks, perhaps empty. -/
def Blank (bs : Bytes) : Prop := ∀ b ∈ bs, isBlank b = true

/-! ## What was taken -/

section Taken

variable {t u : Bytes}

/-- What two recognisers took one after the other. -/
lemma of_bind {x : Scan α} {f : α → Scan β} {b : β} (h : (x >>= f) t = some (b, u)) :
    ∃ a v, x t = some (a, v) ∧ f a v = some (b, u) := by
  rw [bind_apply] at h
  obtain ⟨⟨a, v⟩, hx, hf⟩ := Option.bind_eq_some_iff.1 h
  exact ⟨a, v, hx, hf⟩

/-- What the second of two recognisers took, if it is known what the first one took. -/
lemma of_bind_of_eq {x : Scan α} {f : α → Scan β} {a : α} {b : β} {v : Bytes}
    (hx : x t = some (a, v)) (h : (x >>= f) t = some (b, u)) : f a v = some (b, u) := by
  rwa [bind_apply, hx] at h

lemma blank_takeWhile (t : Bytes) : Blank (t.takeWhile isBlank) := fun _ hb => List.mem_takeWhile_imp hb

lemma of_blanks {a : Unit} (h : blanks t = some (a, u)) : ∃ bs, Blank bs ∧ t = bs ++ u := by
  cases h
  exact ⟨_, blank_takeWhile t, List.takeWhile_append_dropWhile.symm⟩

lemma of_someBlanks {a : Unit} (h : someBlanks t = some (a, u)) :
    ∃ bs, bs ≠ [] ∧ Blank bs ∧ t = bs ++ u := by
  rw [someBlanks] at h
  split at h
  case isFalse => cases h
  case isTrue hhead =>
    cases h
    refine ⟨_, ?_, blank_takeWhile t, List.takeWhile_append_dropWhile.symm⟩
    cases t with
    | nil => cases hhead
    | cons b t =>
      have hb : isBlank b = true := hhead
      simp [hb]

lemma of_maybeBlank {a : Unit} (h : maybeBlank t = some (a, u)) :
    ∃ bs, bs.length ≤ 1 ∧ Blank bs ∧ t = bs ++ u := by
  rw [maybeBlank] at h
  split at h
  case isFalse =>
    cases h
    exact ⟨[], Nat.zero_le _, List.forall_mem_nil _, rfl⟩
  case isTrue hhead =>
    cases h
    cases t with
    | nil => cases hhead
    | cons b t => exact ⟨[b], Nat.le_refl _, List.forall_mem_singleton.2 hhead, rfl⟩

lemma of_name {s : String} {a : Unit} (h : name s t = some (a, u)) : t = ascii s ++ u := by
  rw [name] at h
  split at h
  case isFalse => cases h
  case isTrue hprefix =>
    cases h
    obtain ⟨v, rfl⟩ := List.isPrefixOf_iff_prefix.1 hprefix
    rw [List.drop_left]

lemma of_nameAnyCase {s : String} {a : Unit} (h : nameAnyCase s t = some (a, u)) :
    ∃ w, w.map lowerCase = ascii s ∧ t = w ++ u := by
  rw [nameAnyCase] at h
  split at h
  case isFalse => cases h
  case isTrue hbegins =>
    cases h
    exact ⟨_, beq_iff_eq.1 hbegins, (List.take_append_drop _ t).symm⟩

lemma of_char {c : Char} {a : Unit} (h : char c t = some (a, u)) : t = byte c :: u := by
  rw [char] at h
  split at h
  case isFalse => cases h
  case isTrue hhead =>
    cases h
    cases t with
    | nil => cases hhead
    | cons b t =>
      cases hhead
      rfl

lemma of_run {p : UInt8 → Bool} {w : Bytes} (h : run p t = some (w, u)) :
    w ≠ [] ∧ (∀ b ∈ w, p b = true) ∧ Stops p u ∧ t = w ++ u := by
  rw [run] at h
  split at h
  case isTrue => cases h
  case isFalse hne =>
    cases h
    refine ⟨by simpa using hne, fun b hb => List.mem_takeWhile_imp hb, fun b hb => ?_,
      List.takeWhile_append_dropWhile.symm⟩
    have hhead := List.head?_dropWhile_not p t
    rw [Option.mem_def.1 hb] at hhead
    simpa using hhead

/-- A word was taken up to its end. -/
lemma of_word {w : Bytes} (h : word t = some (w, u)) :
    w ≠ [] ∧ (∀ b ∈ w, isBlank b = false) ∧ Ends u ∧ t = w ++ u := by
  obtain ⟨hne, hw, hstops, rfl⟩ := of_run h
  exact ⟨hne, fun b hb => by simpa using hw b hb, fun b hb => by simpa using hstops b hb, rfl⟩

end Taken

/-! ## The kind of what is given -/

/-- All that a recogniser gives is of a kind. -/
def Yields (P : α → Prop) (x : Scan α) : Prop := ∀ t a u, x t = some (a, u) → P a

lemma Yields.bind {P : β → Prop} {x : Scan α} {f : α → Scan β} (h : ∀ a, Yields P (f a)) :
    Yields P (x >>= f) := by
  intro t b u hxf
  obtain ⟨a, v, -, hf⟩ := of_bind hxf
  exact h a v b u hf

lemma Yields.pure {P : α → Prop} {a : α} (h : P a) : Yields P (pure a) := by
  intro t b u hpure
  cases hpure
  exact h

end Scan

namespace Statement

open Scan

/-! ## Operands -/

section Operands

variable {t u : Bytes} {q : Quantity}

lemma of_register (h : register t = some (q, u)) :
    ∃ d, Numeral.IsDecimal d ∧ q = Quantity.readCharacter d ∧ t = ascii "#" ++ (d ++ u) := by
  obtain ⟨_, v, hchar, hrest⟩ := of_bind h
  obtain ⟨d, _, hdigits, hdone⟩ := of_bind hrest
  cases hdone
  obtain ⟨hne, hd, -, rfl⟩ := of_run hdigits
  exact ⟨d, ⟨hne, hd⟩, rfl, of_char hchar⟩

lemma of_comma {a : Unit} (h : comma t = some (a, u)) :
    ∃ l r, Blank l ∧ Blank r ∧ t = l ++ (ascii "," ++ (r ++ u)) := by
  obtain ⟨_, v, hleft, hrest⟩ := of_bind h
  obtain ⟨_, v', hchar, hright⟩ := of_bind hrest
  obtain ⟨l, hl, rfl⟩ := of_blanks hleft
  obtain ⟨r, hr, rfl⟩ := of_blanks hright
  exact ⟨l, r, hl, hr, congrArg (l ++ ·) (of_char hchar)⟩

lemma of_closeComma {a : Unit} (h : closeComma t = some (a, u)) :
    ∃ l r, Blank l ∧ l.length ≤ 1 ∧ Blank r ∧ r.length ≤ 1 ∧ t = l ++ (ascii "," ++ (r ++ u)) := by
  obtain ⟨_, v, hleft, hrest⟩ := of_bind h
  obtain ⟨_, v', hchar, hright⟩ := of_bind hrest
  obtain ⟨l, hlength, hl, rfl⟩ := of_maybeBlank hleft
  obtain ⟨r, hlength', hr, rfl⟩ := of_maybeBlank hright
  exact ⟨l, r, hl, hlength, hr, hlength', congrArg (l ++ ·) (of_char hchar)⟩

end Operands

/-! ## Forms -/

/-- The statements with a word operand. -/
def takesWord : Statement → Bool
  | branch _ _ | immediate _ _ _ => true
  | _ => false

/-- The forms that make statements with a word operand. -/
inductive IsWordForm : Scan Statement → Prop
  | branch (op : Branch) : IsWordForm (branchLine op.mnemonic op)
  | goto : IsWordForm (branchLine "goto" .jump)
  | store : IsWordForm storeWord
  | compare : IsWordForm compareWord

/-- A form that makes no statements with a word operand. -/
def Wordless (form : Scan Statement) : Prop := Yields (·.takesWord = false) form

/-- **Only four forms make statements with a word operand.** -/
lemma isWordForm_or_wordless : ∀ form ∈ forms, IsWordForm form ∨ Wordless form := by
  have hcomment : Wordless comment := .bind fun _ => .bind fun _ => .pure rfl
  have hlabel : Wordless labelLine := .bind fun _ => .bind fun _ => .bind fun _ => .pure rfl
  have hstoreText : Wordless storeText := .bind fun _ => .bind fun _ => .pure rfl
  have hstoreRegister : Wordless storeRegister := .bind fun _ => .bind fun _ => .pure rfl
  have hplain : ∀ op, Wordless (plainLine op) := by
    intro op
    rw [plainLine]
    split <;> exact .bind fun _ => .bind fun _ => .pure rfl
  have hshow : ∀ op, Wordless (showLine op) := fun _ =>
    .bind fun _ => .bind fun _ => .bind fun _ => .bind fun _ => .bind fun _ => .pure rfl
  have hunary : ∀ op, Wordless (unaryLine op) := fun _ =>
    .bind fun _ => .bind fun _ => .bind fun _ => .bind fun _ => .pure rfl
  have hservice : Wordless serviceLine :=
    .bind fun _ => .bind fun _ => .bind fun _ => .bind fun _ => .pure rfl
  have hmemory : ∀ op, Wordless (memoryLine op) := fun _ =>
    .bind fun _ => .bind fun _ => .bind fun _ => .bind fun _ => .bind fun _ => .bind fun _ => .pure rfl
  have hternary : ∀ op, Wordless (ternaryLine op) := fun _ =>
    .bind fun _ => .bind fun _ => .bind fun _ => .bind fun _ => .bind fun _ => .bind fun _ =>
      .bind fun _ => .bind fun _ => .pure rfl
  have hcompareRegisters : Wordless compareRegisters := .bind fun _ => .bind fun _ => .pure rfl
  have hcompareText : Wordless compareText :=
    .bind fun _ => .bind fun _ => .bind fun _ => .bind fun _ => .bind fun _ => .bind fun _ => .pure rfl
  have hdata : ∀ s, Wordless (dataLine s) := fun _ =>
    .bind fun _ => .bind fun _ => .bind fun _ => .bind fun _ => .pure rfl
  simp only [forms, List.forall_mem_append, List.forall_mem_map, List.forall_mem_cons,
    List.not_mem_nil, false_imp_iff, implies_true, hcomment, hlabel, hstoreText, hstoreRegister, hplain,
    hshow, hunary, hservice, hmemory, hternary, hcompareRegisters, hcompareText, hdata,
    IsWordForm.store, IsWordForm.goto, IsWordForm.branch, IsWordForm.compare, true_or, or_true, and_true]

/-- **The form that made a statement with a word operand of a line.** -/
lemma exists_form {line : Bytes} {s : Statement} (h : parse line = s) (hs : s.takesWord = true) :
    ∃ form, IsWordForm form ∧ ∃ t, form line = some (s, t) := by
  rw [parse] at h
  split at h
  case isTrue =>
    subst h
    cases hs
  case isFalse =>
    cases hfirst : first forms line with
    | none =>
      rw [hfirst] at h
      subst h
      cases hs
    | some s' =>
      rw [hfirst] at h
      obtain rfl : s' = s := h
      obtain ⟨form, hmem, hform⟩ := List.exists_of_findSome?_eq_some hfirst
      obtain ⟨⟨_, t⟩, hfits, rfl⟩ := Option.map_eq_some_iff.1 hform
      rcases isWordForm_or_wordless form hmem with hword | hwordless
      · exact ⟨form, hword, t, hfits⟩
      · rw [hwordless line _ t hfits] at hs
        cases hs

end Statement

/-! ## Word operands -/

/-- The operations with a word operand, and the register that goes with it. -/
inductive WordUse where
  | branch (op : Branch)
  | immediate (op : Immediate) (reg : Quantity)

namespace WordUse

open Scan Statement

/-- The statement of an operation with a word operand. -/
def statement (t : Target) : WordUse → Statement
  | branch op => .branch op t
  | immediate op r => .immediate op r t

/-- What a word stands for as an operand. Only a comparison has no labels. -/
def reads (w : Bytes) : WordUse → Target
  | immediate .compare _ => .number (number w)
  | _ => target w

/-- What stands in front of the word: blanks, the name of the operation, blanks, and a register and a
comma if there is a register. -/
inductive Front : WordUse → Bytes → Prop
  | branch {op : Branch} {s : String} {bs gap : Bytes}
    (hname : s = op.mnemonic ∨ s = "goto" ∧ op = .jump) (hbs : Blank bs) (hgap : Blank gap)
    (hne : gap ≠ []) : Front (.branch op) (bs ++ (ascii s ++ gap))
  | store {bs gap d l r : Bytes} (hbs : Blank bs) (hne : bs ≠ []) (hgap : Blank gap)
    (hne' : gap ≠ []) (hd : Numeral.IsDecimal d) (hl : Blank l) (hle : l.length ≤ 1) (hr : Blank r)
    (hle' : r.length ≤ 1) :
    Front (.immediate .store (Quantity.readCharacter d))
      (bs ++ (ascii "store" ++ (gap ++ (ascii "#" ++ (d ++ (l ++ (ascii "," ++ r)))))))
  | compare {bs s gap d l r : Bytes} (hname : s.map lowerCase = ascii "cmp") (hbs : Blank bs)
    (hgap : Blank gap) (hne : gap ≠ []) (hd : Numeral.IsDecimal d) (hl : Blank l) (hr : Blank r) :
    Front (.immediate .compare (Quantity.readCharacter d))
      (bs ++ (s ++ (gap ++ (ascii "#" ++ (d ++ (l ++ (ascii "," ++ r)))))))

/-- A line with a word operand: what stands in front of the word, the word, and the rest. -/
structure Layout (u : WordUse) (line front w t : Bytes) : Prop where
  line : line = front ++ (w ++ t)
  front : u.Front front
  ne_nil : w ≠ []
  noBlank : ∀ b ∈ w, isBlank b = false
  ends : Ends t

/-- Where a word is taken behind a front, it is the operand. -/
lemma Front.layout {u : WordUse} {front v w t : Bytes} (h : u.Front front)
    (hword : word v = some (w, t)) : u.Layout (front ++ v) front w t := by
  obtain ⟨hw, hnoBlank, hends, rfl⟩ := of_word hword
  exact ⟨rfl, h, hw, hnoBlank, hends⟩

section Forms

variable {line t : Bytes} {s : Statement}

lemma layout_of_branchLine {m : String} {op : Branch}
    (hname : m = op.mnemonic ∨ m = "goto" ∧ op = .jump) (h : branchLine m op line = some (s, t)) :
    ∃ front w, Layout (.branch op) line front w t ∧
      s = statement (reads w (.branch op)) (.branch op) := by
  obtain ⟨_, t₁, hblanks, h⟩ := of_bind h
  obtain ⟨_, t₂, hmnemonic, h⟩ := of_bind h
  obtain ⟨_, t₃, hspace, h⟩ := of_bind h
  obtain ⟨w, _, hword, h⟩ := of_bind h
  cases h
  obtain ⟨bs, hbs, rfl⟩ := of_blanks hblanks
  obtain rfl := of_name hmnemonic
  obtain ⟨gap, hne, hgap, rfl⟩ := of_someBlanks hspace
  have hlayout := (Front.branch hname hbs hgap hne).layout hword
  simp only [List.append_assoc] at hlayout
  exact ⟨_, w, hlayout, rfl⟩

/-- The front of the forms of `store`. -/
lemma front_of_storeFront {q : Quantity} (h : storeFront line = some (q, t)) :
    ∃ front, Front (.immediate .store q) front ∧ line = front ++ t := by
  obtain ⟨_, t₁, hblanks, h⟩ := of_bind h
  obtain ⟨_, t₂, hmnemonic, h⟩ := of_bind h
  obtain ⟨_, t₃, hspace, h⟩ := of_bind h
  obtain ⟨r, t₄, hregister, h⟩ := of_bind h
  obtain ⟨_, t₅, hcomma, h⟩ := of_bind h
  cases h
  obtain ⟨bs, hne, hbs, rfl⟩ := of_someBlanks hblanks
  obtain rfl := of_name hmnemonic
  obtain ⟨gap, hne', hgap, rfl⟩ := of_someBlanks hspace
  obtain ⟨d, hd, rfl, rfl⟩ := of_register hregister
  obtain ⟨l, r, hl, hle, hr, hle', rfl⟩ := of_closeComma hcomma
  exact ⟨_, .store hbs hne hgap hne' hd hl hle hr hle', by simp only [List.append_assoc]⟩

/-- The front of two of the forms of `cmp`. -/
lemma front_of_compareFront {q : Quantity} (h : compareFront line = some (q, t)) :
    ∃ front, Front (.immediate .compare q) front ∧ line = front ++ t := by
  obtain ⟨_, t₁, hblanks, h⟩ := of_bind h
  obtain ⟨_, t₂, hmnemonic, h⟩ := of_bind h
  obtain ⟨_, t₃, hspace, h⟩ := of_bind h
  obtain ⟨r, t₄, hregister, h⟩ := of_bind h
  obtain ⟨_, t₅, hcomma, h⟩ := of_bind h
  cases h
  obtain ⟨bs, hbs, rfl⟩ := of_blanks hblanks
  obtain ⟨m, hm, rfl⟩ := of_nameAnyCase hmnemonic
  obtain ⟨gap, hne, hgap, rfl⟩ := of_someBlanks hspace
  obtain ⟨d, hd, rfl, rfl⟩ := of_register hregister
  obtain ⟨l, r, hl, hr, rfl⟩ := of_comma hcomma
  exact ⟨_, .compare hm hbs hgap hne hd hl hr, by simp only [List.append_assoc]⟩

lemma layout_of_storeWord (h : storeWord line = some (s, t)) :
    ∃ q front w, Layout (.immediate .store q) line front w t ∧
      s = statement (reads w (.immediate .store q)) (.immediate .store q) := by
  obtain ⟨q, t₁, htaken, h⟩ := of_bind h
  obtain ⟨w, _, hword, h⟩ := of_bind h
  cases h
  obtain ⟨front, hfront, rfl⟩ := front_of_storeFront htaken
  exact ⟨q, front, w, hfront.layout hword, rfl⟩

lemma layout_of_compareWord (h : compareWord line = some (s, t)) :
    ∃ q front w, Layout (.immediate .compare q) line front w t ∧
      s = statement (reads w (.immediate .compare q)) (.immediate .compare q) := by
  obtain ⟨q, t₁, htaken, h⟩ := of_bind h
  obtain ⟨w, _, hword, h⟩ := of_bind h
  cases h
  obtain ⟨front, hfront, rfl⟩ := front_of_compareFront htaken
  exact ⟨q, front, w, hfront.layout hword, rfl⟩

end Forms

/-- Operations with a word operand are told apart by their statements. -/
lemma statement_inj {u u' : WordUse} {x x' : Target} (h : u.statement x = u'.statement x') :
    u = u' ∧ x = x' := by
  cases u <;> cases u' <;> cases h <;> exact ⟨rfl, rfl⟩

/-- **A line with a word operand**: the word stands behind the name of the operation and the register,
and what follows it begins with a blank. -/
theorem exists_operand {line : Bytes} {u : WordUse} {x : Target} (h : parse line = u.statement x) :
    ∃ front w t, u.Layout line front w t ∧ u.reads w = x := by
  have htakes : (u.statement x).takesWord = true := by cases u <;> rfl
  obtain ⟨form, hform, t, hfits⟩ := exists_form h htakes
  obtain ⟨u', front, w, hlayout, hs⟩ : ∃ u' front w, Layout u' line front w t ∧
      u.statement x = u'.statement (u'.reads w) := by
    cases hform with
    | branch op => exact ⟨_, layout_of_branchLine (.inl rfl) hfits⟩
    | goto => exact ⟨_, layout_of_branchLine (.inr ⟨rfl, rfl⟩) hfits⟩
    | store => exact (layout_of_storeWord hfits).imp' _ fun _ h => h
    | compare => exact (layout_of_compareWord hfits).imp' _ fun _ h => h
  obtain ⟨rfl, rfl⟩ := statement_inj hs
  exact ⟨front, w, t, hlayout, rfl⟩

end WordUse

end RegisterMachine
