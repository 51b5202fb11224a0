import Mathlib.Data.List.Basic
import RegisterMachine.Proofs.Forms
import RegisterMachine.Proofs.Recognition

/-!
# The first word of a line

A form fits only lines with its own name in front. So the first word of a line leaves few of the
forms, and the order in which they are tried matters only among these. Behind the name of an operation
with a word operand, its blanks, its register and its comma, any word is taken, and no such line is
unknown: it states the operation with this word, unless the word begins like a register or a text
constant and the line has the form for one.

## Main definitions

* `Scan.headword` — the first word of a line.
* `Scan.Heads` — a recogniser fits only lines whose first word is of a kind.
* `Statement.WordName` — the names of the operations with a word operand, and their forms.
* `WordUse.Shadows` — what takes the place of a word operand.

## Main results

* `Scan.heads_of_takes`, `Scan.heads_of_takes_someBlanks` — the first word, by the name in a form.
* `Statement.mem_forms_of_fits` — the forms that a first word leaves.
* `WordUse.parse_of_layout` — what a line with a word operand states.
-/

namespace RegisterMachine

namespace Scan

variable {α β : Type}

/-! ## First words -/

/-- The first word of a line, in small letters. -/
def headword (line : Bytes) : Bytes :=
  ((line.dropWhile isBlank).takeWhile fun b => !isBlank b).map lowerCase

lemma isBlank_lowerCase : ∀ b : UInt8, isBlank (lowerCase b) = isBlank b :=
  forall_byte (by decide +kernel)

/-- A name that can be a first word, or the beginning of one. -/
abbrev IsName (s : String) : Prop := ascii s ≠ [] ∧ ∀ b ∈ ascii s, isBlank b = false

section Words

variable {s : String} {bs w t : Bytes}

lemma IsName.noBlank (hs : IsName s) (hw : w.map lowerCase = ascii s) :
    w ≠ [] ∧ ∀ b ∈ w, isBlank b = false := by
  rw [IsName, ← hw] at hs
  exact ⟨by simpa using hs.1, fun b hb => by
    rw [← isBlank_lowerCase]
    exact hs.2 _ (List.mem_map_of_mem hb)⟩

/-- The first word of a line begins with the name that stands there. -/
lemma headword_append (hs : IsName s) (hbs : Blank bs) (hw : w.map lowerCase = ascii s) :
    headword (bs ++ (w ++ t)) = ascii s ++ (t.takeWhile fun b => !isBlank b).map lowerCase := by
  obtain ⟨hne, hnoBlank⟩ := hs.noBlank hw
  rw [headword, dropWhile_append_of_stop hbs (Statement.stops_isBlank_word hne hnoBlank),
    List.takeWhile_append_of_pos fun b hb => by rw [hnoBlank b hb]; rfl, List.map_append, hw]

/-- A name with a blank behind it is the first word of a line. -/
lemma headword_eq (hs : IsName s) (hbs : Blank bs) (hw : w.map lowerCase = ascii s) (ht : Ends t) :
    headword (bs ++ (w ++ t)) = ascii s := by
  have hstop : (t.takeWhile fun b => !isBlank b) = [] := by
    simpa using @takeWhile_append_of_stop _ [] t (by simp) ht.stops_word
  rw [headword_append hs hbs hw, hstop, List.map_nil, List.append_nil]

end Words

/-- A text of blanks is where a word ends. -/
lemma Blank.ends {bs : Bytes} (hbs : Blank bs) (hne : bs ≠ []) (t : Bytes) : Ends (bs ++ t) := by
  cases bs with
  | nil => exact absurd rfl hne
  | cons b bs => simpa [Ends] using hbs b (by simp)

/-! ## Recognisers and first words -/

/-- A recogniser fits only lines whose first word is of a kind. -/
def Heads (P : Bytes → Prop) (x : Scan α) : Prop :=
  ∀ line a t, x line = some (a, t) → P (headword line)

lemma Heads.bind {P : Bytes → Prop} {x : Scan α} (h : Heads P x) (f : α → Scan β) :
    Heads P (x >>= f) := by
  intro line b t hxf
  obtain ⟨a, v, hx, -⟩ := of_bind hxf
  exact h line a v hx

lemma Heads.imp {P Q : Bytes → Prop} {x : Scan α} (h : Heads P x) (hPQ : ∀ k, P k → Q k) :
    Heads Q x := fun line a t hx => hPQ _ (h line a t hx)

/-- A recogniser takes only blanks. -/
def Skips (x : Scan Unit) : Prop := ∀ t a u, x t = some (a, u) → ∃ bs, Blank bs ∧ t = bs ++ u

/-- A recogniser takes only a name, in letters of some case. -/
def Takes (s : String) (x : Scan Unit) : Prop :=
  ∀ t a u, x t = some (a, u) → ∃ w, w.map lowerCase = ascii s ∧ t = w ++ u

lemma skips_blanks : Skips blanks := fun _ _ _ h => of_blanks h

lemma skips_someBlanks : Skips someBlanks := fun _ _ _ h =>
  (of_someBlanks h).imp fun _ h => h.2

lemma takes_name {s : String} (hs : (ascii s).map lowerCase = ascii s) : Takes s (name s) :=
  fun _ _ _ h => ⟨_, hs, of_name h⟩

lemma takes_nameAnyCase (s : String) : Takes s (nameAnyCase s) := fun _ _ _ h => of_nameAnyCase h

lemma takes_char {c : Char} {s : String} (hs : [lowerCase (byte c)] = ascii s) : Takes s (char c) :=
  fun _ _ _ h => ⟨[byte c], hs, of_char h⟩

section Fronts

variable {x y : Scan Unit} {s : String}

/-- The first word begins with the name. -/
lemma heads_of_takes (hx : Skips x) (hy : Takes s y) (hs : IsName s) (f : Unit → Scan α) :
    Heads (ascii s <+: ·) (x >>= fun _ => y >>= f) := by
  intro line a t h
  obtain ⟨_, t₁, hblanks, h⟩ := of_bind h
  obtain ⟨_, t₂, hname, -⟩ := of_bind h
  obtain ⟨bs, hbs, rfl⟩ := hx _ _ _ hblanks
  obtain ⟨w, hw, rfl⟩ := hy _ _ _ hname
  rw [headword_append hs hbs hw]
  exact List.prefix_append _ _

/-- The first word is the name, if there must be a blank behind it. -/
lemma heads_of_takes_someBlanks (hx : Skips x) (hy : Takes s y) (hs : IsName s) (f : Unit → Scan α) :
    Heads (· = ascii s) (x >>= fun _ => y >>= fun _ => someBlanks >>= f) := by
  intro line a t h
  obtain ⟨_, t₁, hblanks, h⟩ := of_bind h
  obtain ⟨_, t₂, hname, h⟩ := of_bind h
  obtain ⟨_, t₃, hspace, -⟩ := of_bind h
  obtain ⟨bs, hbs, rfl⟩ := hx _ _ _ hblanks
  obtain ⟨w, hw, rfl⟩ := hy _ _ _ hname
  obtain ⟨gap, hne, hgap, rfl⟩ := of_someBlanks hspace
  exact headword_eq hs hbs hw (hgap.ends hne t₃)

end Fronts

end Scan

namespace Statement

open Scan

/-! ## Forms and first words -/

/-- The names of the operations with a word operand. -/
inductive WordName where
  | goto
  | branch (op : Branch)
  | store
  | compare
  deriving DecidableEq

namespace WordName

def text : WordName → String
  | goto => "goto"
  | branch op => op.mnemonic
  | store => "store"
  | compare => "cmp"

/-- The forms that begin with a name. -/
def forms : WordName → List (Scan Statement)
  | goto => [branchLine "goto" .jump]
  | branch op => [branchLine op.mnemonic op]
  | store => [storeText, storeRegister, storeWord]
  | compare => [compareRegisters, compareText, compareWord]

def all : List WordName :=
  [goto, branch .jump, branch .jumpZero, branch .jumpNonzero, branch .call, store, compare]

lemma mem_all (n : WordName) : n ∈ all := by
  rcases n with _ | op | _ | _
  · decide
  · cases op <;> decide
  · decide
  · decide

lemma isName (n : WordName) : IsName n.text ∧ (ascii n.text).map lowerCase = ascii n.text := by
  have hall : ∀ n ∈ all, IsName n.text ∧ (ascii n.text).map lowerCase = ascii n.text := by
    decide +kernel
  exact hall n n.mem_all

lemma text_inj {n n' : WordName} (h : ascii n.text = ascii n'.text) : n = n' := by
  have hall : ∀ n ∈ all, ∀ n' ∈ all, ascii n.text = ascii n'.text → n = n' := by decide
  exact hall n n.mem_all n' n'.mem_all h

/-- The forms that begin with a name fit only lines with just this name for the first word. -/
lemma heads (n : WordName) : ∀ form ∈ n.forms, Heads (· = ascii n.text) form := by
  have hname : ∀ {x : Scan Unit} {α : Type} {f : Unit → Scan α}, Skips x →
      Heads (· = ascii n.text) (x >>= fun _ => name n.text >>= fun _ => someBlanks >>= f) :=
    fun hx => heads_of_takes_someBlanks hx (takes_name n.isName.2) n.isName.1 _
  cases n with
  | goto => exact List.forall_mem_singleton.2 (hname skips_blanks)
  | branch op => exact List.forall_mem_singleton.2 (hname skips_blanks)
  | store =>
    have hfront : Heads (· = ascii "store") storeFront := hname skips_someBlanks
    simp only [forms, List.forall_mem_cons, List.not_mem_nil, false_imp_iff, implies_true, and_true]
    exact ⟨hfront.bind _, hfront.bind _, hfront.bind _⟩
  | compare =>
    have hfront : Heads (· = ascii "cmp") compareFront :=
      heads_of_takes_someBlanks skips_blanks (takes_nameAnyCase _) compare.isName.1 _
    simp only [forms, List.forall_mem_cons, List.not_mem_nil, false_imp_iff, implies_true, and_true]
    exact ⟨hfront.bind _, hname skips_someBlanks, hfront.bind _⟩

end WordName

/-- A name in small letters with which no operation with a word operand begins. -/
abbrev IsForeign (s : String) : Prop :=
  IsName s ∧ (ascii s).map lowerCase = ascii s ∧ ∀ n ∈ WordName.all, ¬ascii s <+: ascii n.text

/-- A form that fits no line that begins with the name of an operation with a word operand. -/
def Foreign (form : Scan Statement) : Prop := Heads (fun k => ∀ n : WordName, k ≠ ascii n.text) form

lemma IsForeign.foreign {s : String} (hs : IsForeign s) {x y : Scan Unit} (hx : Skips x)
    (hy : Takes s y) (f : Unit → Scan Statement) : Foreign (x >>= fun _ => y >>= f) := by
  refine (heads_of_takes hx hy hs.1 f).imp fun k hk n hn => hs.2.2 n n.mem_all ?_
  rw [← hn]
  exact hk

/-- **The names in the forms.** -/
lemma named_or_foreign :
    ∀ form ∈ forms, (∃ n : WordName, form ∈ n.forms) ∨ Foreign form := by
  have hforeign : ∀ {s : String} {x : Scan Unit} {f : Unit → Scan Statement}, IsForeign s → Skips x →
      Foreign (x >>= fun _ => name s >>= f) := fun hs hx => hs.foreign hx (takes_name hs.2.1) _
  have hcomment : Foreign comment :=
    IsForeign.foreign (s := "#") (by decide +kernel) skips_blanks (takes_char (by decide)) _
  have hlabel : Foreign labelLine :=
    IsForeign.foreign (s := ":") (by decide +kernel) skips_blanks (takes_char (by decide)) _
  have hplain : ∀ op, Foreign (plainLine op) := by
    intro op
    have hop : IsForeign op.mnemonic := by cases op <;> decide +kernel
    rw [plainLine]
    split
    · exact hforeign hop skips_blanks
    · exact hforeign hop skips_someBlanks
  have hunaryName : ∀ op : Unary, IsForeign op.mnemonic := by
    intro op
    cases op <;> decide +kernel
  have hshow : ∀ op, Foreign (showLine op) := fun op => hforeign (hunaryName op) skips_blanks
  have hunary : ∀ op, Foreign (unaryLine op) := fun op => hforeign (hunaryName op) skips_blanks
  have hservice : Foreign serviceLine := hforeign (by decide +kernel) skips_blanks
  have hpeek : Foreign (memoryLine .peek) := hforeign (by decide +kernel) skips_blanks
  have hpoke : Foreign (memoryLine .poke) := hforeign (by decide +kernel) skips_blanks
  have hternary : ∀ op, Foreign (ternaryLine op) := by
    intro op
    have hop : IsForeign op.mnemonic := by
      rcases op with op | _ | _ | _
      · cases op <;> decide +kernel
      all_goals decide +kernel
    exact hforeign hop skips_blanks
  have hdata : ∀ s, IsForeign s → Foreign (dataLine s) := fun s hs =>
    hs.foreign skips_blanks (takes_nameAnyCase s) _
  have hdb := hdata "db" (by decide +kernel)
  have hbytes := hdata "data" (by decide +kernel)
  have hgoto : ∃ n : WordName, branchLine "goto" .jump ∈ n.forms := ⟨.goto, List.mem_singleton_self _⟩
  have hbranch : ∀ op, ∃ n : WordName, branchLine op.mnemonic op ∈ n.forms := fun op =>
    ⟨.branch op, List.mem_singleton_self _⟩
  have hstore : ∀ form ∈ [storeText, storeRegister, storeWord], ∃ n : WordName, form ∈ n.forms :=
    fun _ hform => ⟨.store, hform⟩
  have hcompare : ∀ form ∈ [compareRegisters, compareText, compareWord],
      ∃ n : WordName, form ∈ n.forms := fun _ hform => ⟨.compare, hform⟩
  simp only [List.forall_mem_cons, List.not_mem_nil, false_imp_iff, implies_true, and_true]
    at hstore hcompare
  simp only [forms, List.forall_mem_append, List.forall_mem_map, List.forall_mem_cons,
    List.not_mem_nil, false_imp_iff, implies_true, hcomment, hlabel, hplain, hshow, hunary, hservice,
    hpeek, hpoke, hternary, hdb, hbytes, hgoto, hbranch, hstore, hcompare, true_or, or_true, and_true]

/-- **The forms that a first word leaves.** -/
lemma mem_forms_of_fits {form : Scan Statement} (hmem : form ∈ forms) {line t : Bytes}
    {s : Statement} (hfits : form line = some (s, t)) {n : WordName}
    (hline : headword line = ascii n.text) : form ∈ n.forms := by
  rcases named_or_foreign form hmem with ⟨n', hn'⟩ | hforeign
  · obtain rfl : n = n' := WordName.text_inj (hline.symm.trans (n'.heads form hn' line s t hfits))
    exact hn'
  · exact absurd hline (hforeign line s t hfits n)

/-- What all forms that fit a line make of it is what the line states, if there is such a form. The
order of the forms does not matter then. -/
lemma parse_of_fits {P : Statement → Prop} {line : Bytes} (hne : line ≠ [])
    (hsome : ∃ form ∈ forms, ∃ s t, form line = some (s, t))
    (hall : ∀ form ∈ forms, ∀ s t, form line = some (s, t) → P s) : P (parse line) := by
  obtain ⟨form, hmem, s, t, hfits⟩ := hsome
  cases hfirst : first forms line with
  | none =>
    have hnone := List.findSome?_eq_none_iff.1 hfirst form hmem
    rw [hfits] at hnone
    cases hnone
  | some s' =>
    obtain ⟨form', hmem', hform'⟩ := List.exists_of_findSome?_eq_some hfirst
    obtain ⟨⟨_, t'⟩, hfits', rfl⟩ := Option.map_eq_some_iff.1 hform'
    rw [parse_of_first hne hfirst]
    exact hall form' hmem' _ t' hfits'

end Statement

namespace WordUse

open Scan Statement

/-! ## Lines with a word operand -/

/-- The front of a `store` is taken. -/
lemma storeFront_of_front {front v : Bytes} {q : Quantity} (h : Front (.immediate .store q) front)
    (hv : Stops isBlank v) : storeFront (front ++ v) = some (q, v) := by
  cases h with
  | store hbs hne hgap hne' hd hl hle hr hle' =>
    have hname : ∀ t, Stops isBlank (ascii "store" ++ t) := fun _ => stops_cons (by decide)
    simp only [List.append_assoc, storeFront, bind_apply, Option.bind_some, name_append,
      someBlanks_append hne hbs (hname _),
      someBlanks_append hne' hgap (stops_isBlank_register _),
      register_append hd (stops_isDigit_comma hl _), closeComma_between hl hle hr hle' hv]
    rfl

/-- The front of a `cmp` is taken. -/
lemma compareFront_of_front {front v : Bytes} {q : Quantity}
    (h : Front (.immediate .compare q) front) (hv : Stops isBlank v) :
    compareFront (front ++ v) = some (q, v) := by
  cases h with
  | compare hname hbs hgap hne hd hl hr =>
    obtain ⟨hne', hnoBlank⟩ := WordName.compare.isName.1.noBlank hname
    simp only [List.append_assoc, compareFront, bind_apply, Option.bind_some,
      blanks_append hbs (stops_isBlank_word hne' hnoBlank), nameAnyCase_append hname,
      someBlanks_append hne hgap (stops_isBlank_register _),
      register_append hd (stops_isDigit_comma hl _), comma_between hl hr hv]
    rfl

/-- The word operand of a jump or a call is taken. -/
lemma branchLine_of_front {op : Branch} {s : String} {bs gap w t : Bytes} (hs : IsName s)
    (hbs : Blank bs) (hgap : Blank gap) (hne : gap ≠ []) (hw : w ≠ [])
    (hnoBlank : ∀ b ∈ w, isBlank b = false) (ht : Ends t) :
    branchLine s op (bs ++ (ascii s ++ gap) ++ (w ++ t)) = some (.branch op (target w), t) := by
  simp only [List.append_assoc, branchLine, bind_apply, Option.bind_some, name_append,
    blanks_append hbs (stops_isBlank_word hs.1 hs.2),
    someBlanks_append hne hgap (stops_isBlank_word hw hnoBlank), word_append hw hnoBlank ht]
  rfl

/-- What takes the place of a word operand: a register or a text constant. -/
inductive Shadows (w : Bytes) : WordUse → Statement → Prop
  | copy {q r : Quantity} (h : w.head? = some (byte '#')) :
    Shadows w (.immediate .store q) (.binary .copy q r)
  | compareRegisters {q r : Quantity} (h : w.head? = some (byte '#')) :
    Shadows w (.immediate .compare q) (.binary .compare q r)
  | storeText {q : Quantity} {v : Bytes} (h : w.head? = some (byte quote)) :
    Shadows w (.immediate .store q) (.literal .store q v)
  | compareText {q : Quantity} {v : Bytes} (h : w.head? = some (byte quote)) :
    Shadows w (.immediate .compare q) (.literal .compare q v)

/-! ## What is stated -/

section Lines

variable {line front w t t' : Bytes} {form : Scan Statement} {s : Statement} {q : Quantity}

lemma head?_of_register (h : register t = some (q, t')) : t.head? = some (byte '#') := by
  obtain ⟨_, _, hchar, -⟩ := of_bind h
  rw [of_char hchar]
  rfl

lemma head?_of_quoted {x : Bytes} (h : quoted t = some (x, t')) : t.head? = some (byte quote) := by
  obtain ⟨_, _, hchar, -⟩ := of_bind h
  rw [of_char hchar]
  rfl

/-- A jump or a call is stated by its own form only. -/
lemma of_fits_branch {op : Branch} (h : Layout (.branch op) line front w t) (hmem : form ∈ forms)
    (hfits : form line = some (s, t')) : s = .branch op (target w) := by
  obtain ⟨rfl, hfront, hne, hw, ht⟩ := h
  cases hfront with
  | @branch _ m bs gap hname hbs hgap hgap' =>
    obtain ⟨n, rfl, hforms⟩ : ∃ n : WordName, n.text = m ∧ n.forms = [branchLine m op] := by
      rcases hname with rfl | ⟨rfl, rfl⟩
      · exact ⟨.branch op, rfl, rfl⟩
      · exact ⟨.goto, rfl, rfl⟩
    have hline : headword (bs ++ (ascii n.text ++ gap) ++ (w ++ t)) = ascii n.text := by
      rw [List.append_assoc, List.append_assoc,
        headword_eq n.isName.1 hbs n.isName.2 (hgap.ends hgap' _)]
    have hform := mem_forms_of_fits hmem hfits hline
    rw [hforms, List.mem_singleton] at hform
    rw [hform, branchLine_of_front n.isName.1 hbs hgap hgap' hne hw ht] at hfits
    cases hfits
    rfl

/-- A `store` is stated by one of its forms. -/
lemma of_fits_store (h : Layout (.immediate .store q) line front w t) (hmem : form ∈ forms)
    (hfits : form line = some (s, t')) :
    s = .immediate .store q (target w) ∨ Shadows w (.immediate .store q) s := by
  obtain ⟨rfl, hfront, hne, hw, ht⟩ := h
  have htaken := storeFront_of_front hfront (stops_isBlank_word (t := t) hne hw)
  have hhead : (w ++ t).head? = w.head? := List.head?_append_of_ne_nil w hne
  have hline : headword (front ++ (w ++ t)) = ascii WordName.store.text := by
    cases hfront with
    | store hbs _ hgap hgap' =>
      simp only [List.append_assoc]
      exact headword_eq WordName.store.isName.1 hbs WordName.store.isName.2 (hgap.ends hgap' _)
  have hform := mem_forms_of_fits hmem hfits hline
  simp only [WordName.forms, List.mem_cons, List.not_mem_nil, or_false] at hform
  rcases hform with rfl | rfl | rfl
  -- all three take the same front and differ in what they take behind it
  all_goals
    have htail := of_bind_of_eq htaken hfits
    obtain ⟨_, _, htail, hdone⟩ := of_bind htail
    cases hdone
  · exact .inr (.storeText (hhead ▸ head?_of_quoted htail))
  · exact .inr (.copy (hhead ▸ head?_of_register htail))
  · rw [word_append hne hw ht] at htail
    cases htail
    exact .inl rfl

/-- The front of the form with a text constant is one of the fronts of `cmp`. -/
lemma front_of_compareText (h : compareText line = some (s, t')) :
    ∃ q v, s = .literal .compare q v ∧ ∃ u, compareFront line = some (q, u) ∧
      u.head? = some (byte quote) := by
  obtain ⟨_, t₁, hblanks, h⟩ := of_bind h
  obtain ⟨_, t₂, hmnemonic, h⟩ := of_bind h
  obtain ⟨_, t₃, hspace, h⟩ := of_bind h
  obtain ⟨q, t₄, hregister, h⟩ := of_bind h
  obtain ⟨_, t₅, hcomma, h⟩ := of_bind h
  obtain ⟨v, _, hquoted, h⟩ := of_bind h
  cases h
  obtain ⟨bs, -, hbs, rfl⟩ := of_someBlanks hblanks
  obtain rfl := of_name hmnemonic
  obtain ⟨gap, hne, hgap, rfl⟩ := of_someBlanks hspace
  obtain ⟨d, hd, rfl, rfl⟩ := of_register hregister
  obtain ⟨l, r, hl, -, hr, -, rfl⟩ := of_closeComma hcomma
  have hhead := head?_of_quoted hquoted
  have hstops : Stops isBlank t₅ := by
    intro b hb
    rw [hhead] at hb
    cases hb
    rfl
  refine ⟨_, v, rfl, t₅, ?_, hhead⟩
  have hname : (ascii "cmp").map lowerCase = ascii "cmp" := WordName.compare.isName.2
  simpa only [List.append_assoc] using
    compareFront_of_front (.compare hname hbs hgap hne hd hl hr) hstops

/-- A `cmp` is stated by one of its forms. -/
lemma of_fits_compare (h : Layout (.immediate .compare q) line front w t) (hmem : form ∈ forms)
    (hfits : form line = some (s, t')) :
    s = .immediate .compare q (.number (number w)) ∨ Shadows w (.immediate .compare q) s := by
  obtain ⟨rfl, hfront, hne, hw, ht⟩ := h
  have htaken := compareFront_of_front hfront (stops_isBlank_word (t := t) hne hw)
  have hhead : (w ++ t).head? = w.head? := List.head?_append_of_ne_nil w hne
  have hline : headword (front ++ (w ++ t)) = ascii WordName.compare.text := by
    cases hfront with
    | compare hname hbs hgap hgap' =>
      simp only [List.append_assoc]
      exact headword_eq WordName.compare.isName.1 hbs hname (hgap.ends hgap' _)
  have hform := mem_forms_of_fits hmem hfits hline
  simp only [WordName.forms, List.mem_cons, List.not_mem_nil, or_false] at hform
  rcases hform with rfl | rfl | rfl
  · have htail := of_bind_of_eq htaken hfits
    obtain ⟨_, _, htail, hdone⟩ := of_bind htail
    cases hdone
    exact .inr (.compareRegisters (hhead ▸ head?_of_register htail))
  · -- this form takes fewer blanks at the comma than the others, but never other ones
    obtain ⟨q', v, rfl, u, hcompare, hquote⟩ := front_of_compareText hfits
    rw [htaken] at hcompare
    cases hcompare
    exact .inr (.compareText (hhead ▸ hquote))
  · have htail := of_bind_of_eq htaken hfits
    obtain ⟨_, _, htail, hdone⟩ := of_bind htail
    cases hdone
    rw [word_append hne hw ht] at htail
    cases htail
    exact .inl rfl

end Lines

/-- A line with a word operand fits a form, which states the operation with this word. -/
lemma exists_fits {u : WordUse} {line front w t : Bytes} (h : u.Layout line front w t) :
    ∃ form ∈ forms, form line = some (u.statement (u.reads w), t) := by
  obtain ⟨rfl, hfront, hne, hw, ht⟩ := h
  have hstops := stops_isBlank_word (t := t) hne hw
  cases u with
  | branch op =>
    cases hfront with
    | @branch _ m bs gap hname hbs hgap hgap' =>
      obtain ⟨hm, hmem⟩ : IsName m ∧ branchLine m op ∈ forms := by
        rcases hname with rfl | ⟨rfl, rfl⟩
        · obtain ⟨k, hk, -⟩ := leads_branch op
          exact ⟨(WordName.branch op).isName.1, List.mem_of_getElem? hk⟩
        · exact ⟨WordName.goto.isName.1, List.mem_of_getElem? (i := 10) rfl⟩
      exact ⟨_, hmem, branchLine_of_front hm hbs hgap hgap' hne hw ht⟩
  | immediate op q =>
    cases op with
    | store =>
      refine ⟨storeWord, List.mem_of_getElem? (i := 4) rfl, ?_⟩
      simp only [storeWord, bind_apply, storeFront_of_front hfront hstops, Option.bind_some,
        word_append hne hw ht]
      rfl
    | compare =>
      refine ⟨compareWord, List.mem_of_getElem? (i := 31) rfl, ?_⟩
      simp only [compareWord, bind_apply, compareFront_of_front hfront hstops, Option.bind_some,
        word_append hne hw ht]
      rfl

/-- **What a line with a word operand states**: the operation with this word, or what takes the place
of the word. -/
theorem parse_of_layout {u : WordUse} {line front w t : Bytes} (h : u.Layout line front w t) :
    parse line = u.statement (u.reads w) ∨ Shadows w u (parse line) := by
  have hline : line ≠ [] := by
    obtain ⟨rfl, -, hne, -⟩ := h
    simp [hne]
  obtain ⟨form, hmem, hfits⟩ := exists_fits h
  refine parse_of_fits (P := fun s => s = u.statement (u.reads w) ∨ Shadows w u s) hline
    ⟨form, hmem, _, t, hfits⟩ fun form' hmem' s t' hfits' => ?_
  cases u with
  | branch op => exact .inl (of_fits_branch h hmem' hfits')
  | immediate op q =>
    cases op with
    | store => exact of_fits_store h hmem' hfits'
    | compare => exact of_fits_compare h hmem' hfits'

end WordUse

end RegisterMachine
