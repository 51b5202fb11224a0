import RegisterMachine.Assembly.Statement
import RegisterMachine.Proofs.Numerals

/-!
# What the recognisers take

Each recogniser of a source line on the texts that it is made for: it takes exactly its own part and
leaves the rest. The rest is arbitrary, except that it must not begin with something that the
recogniser could take too.

Texts that are joined by a separator are split again into the parts that they were joined from.

## Main definitions

* `Scan.Stops` — a text that begins outside a class of bytes, or is empty.
* `Scan.Ends` — a text behind which nothing more of a word can come.
* `Statement.IsComma` — the ways in which a comma is written.
* `IsWhole` — a text that consists of whole lines.

## Main results

* `Scan.digits_append`, `Scan.word_append`, `Scan.quoted_append` — the parts of a line.
* `Statement.register_append`, `Statement.comma_between`, `Statement.closeComma_between` — operands.
* `fields_join`, `lines_join` — joined texts are split where they were joined.
* `IsWhole.lines_append`, `lines_line` — the lines of a text, from those of its parts.
-/

namespace RegisterMachine

namespace Scan

variable {α β : Type}

/-! ## Sequences of recognisers -/

/-- One recogniser after another: the second works on what the first has left. -/
lemma bind_apply (x : Scan α) (f : α → Scan β) (t : Bytes) :
    (x >>= f) t = (x t).bind fun p => f p.1 p.2 := rfl

/-- The first of several forms, some of which are tried before the others. -/
lemma first_append (a b : List (Scan α)) (t : Bytes) :
    first (a ++ b) t = (first a t).or (first b t) := by
  simp [first, List.findSome?_append]

/-- A form that does not fit is passed over. -/
lemma first_cons_of_none {form : Scan α} {forms : List (Scan α)} {t : Bytes}
    (h : form t = none) : first (form :: forms) t = first forms t := by
  simp [first, h]

/-- A form decides if it fits and none of those before it does. -/
lemma first_of_get {forms : List (Scan α)} {form : Scan α} {t u : Bytes} {a : α} (k : Nat)
    (hk : forms[k]? = some form) (hbefore : first (forms.take k) t = none)
    (hfits : form t = some (a, u)) : first forms t = some a := by
  have hsplit : forms = forms.take k ++ form :: forms.drop (k + 1) := by
    obtain ⟨hlt, rfl⟩ := List.getElem?_eq_some_iff.1 hk
    rw [List.getElem_cons_drop, List.take_append_drop]
  rw [hsplit, first_append, hbefore, Option.none_or]
  simp [first, hfits]

/-! ## Texts that a part cannot go on into -/

/-- A text that begins outside a class of bytes, or is empty. -/
def Stops (p : UInt8 → Bool) (t : Bytes) : Prop := ∀ b ∈ t.head?, p b = false

/-- A text that begins with a blank, or is empty. -/
def Ends (t : Bytes) : Prop := ∀ b ∈ t.head?, isBlank b = true

lemma stops_cons {p : UInt8 → Bool} {b : UInt8} {t : Bytes} (h : p b = false) :
    Stops p (b :: t) := by
  simpa [Stops] using h

lemma ends_nil : Ends [] := by simp [Ends]

/-- No digit follows at the end of a word. -/
lemma Ends.stops_isDigit {t : Bytes} (h : Ends t) : Stops isDigit t := by
  intro b hb
  rw [← Bool.not_eq_true]
  intro hd
  have := isBlank_of_isDigit b hd
  rw [h b hb] at this
  exact absurd this (by decide)

/-- The end of a word ends the run of bytes that are no blanks. -/
lemma Ends.stops_word {t : Bytes} (h : Ends t) : Stops (fun b => !isBlank b) t := by
  intro b hb
  simp [h b hb]

/-! ## Single parts -/

/-- Blanks are taken as far as they go. -/
lemma blanks_append {bs t : Bytes} (hbs : ∀ b ∈ bs, isBlank b = true) (ht : Stops isBlank t) :
    blanks (bs ++ t) = some ((), t) := by
  rw [blanks, dropWhile_append_of_stop hbs ht]

/-- At least one blank is taken, and then as many as there are. -/
lemma someBlanks_append {bs t : Bytes} (hne : bs ≠ []) (hbs : ∀ b ∈ bs, isBlank b = true)
    (ht : Stops isBlank t) : someBlanks (bs ++ t) = some ((), t) := by
  have hhead : ((bs ++ t).head?.map isBlank).getD false = true := by
    cases bs with
    | nil => exact absurd rfl hne
    | cons b bs => simp [hbs b (by simp)]
  rw [someBlanks, if_pos hhead, dropWhile_append_of_stop hbs ht]

/-- One blank is taken where there is at most one. -/
lemma maybeBlank_append {bs t : Bytes} (hbs : ∀ b ∈ bs, isBlank b = true) (hle : bs.length ≤ 1)
    (ht : Stops isBlank t) : maybeBlank (bs ++ t) = some ((), t) := by
  match bs with
  | [] =>
    cases t with
    | nil => rfl
    | cons b t => simp [maybeBlank, ht b (by simp)]
  | [b] => simp [maybeBlank, hbs b (by simp)]

/-- A word is taken letter for letter. -/
lemma name_append (s : String) (t : Bytes) : name s (ascii s ++ t) = some ((), t) := by
  have hp : (ascii s).isPrefixOf (ascii s ++ t) = true := by
    rw [List.isPrefixOf_iff_prefix]
    exact List.prefix_append _ _
  rw [name, if_pos hp, List.drop_left]

/-- A word in letters of either case is taken. -/
lemma nameAnyCase_append {s : String} {w : Bytes} (hw : w.map lowerCase = ascii s) (t : Bytes) :
    nameAnyCase s (w ++ t) = some ((), t) := by
  have hlen : (ascii s).length = w.length := by rw [← hw, List.length_map]
  have hb : Quantity.beginsWith s (w ++ t) = true := by
    rw [Quantity.beginsWith, hlen, List.take_left, hw, beq_self_eq_true]
  rw [nameAnyCase, if_pos hb, hlen, List.drop_left]

/-- A character is taken. -/
lemma char_cons (c : Char) (t : Bytes) : char c (byte c :: t) = some ((), t) := by
  simp [char]

/-- A character is not taken where another stands. -/
lemma char_cons_of_ne {c : Char} {b : UInt8} (h : b ≠ byte c) (t : Bytes) :
    char c (b :: t) = none := by
  simp [char, h]

/-- A run of bytes of a class is taken as far as it goes. -/
lemma run_append {p : UInt8 → Bool} {w t : Bytes} (hne : w ≠ []) (hw : ∀ b ∈ w, p b = true)
    (ht : Stops p t) : run p (w ++ t) = some (w, t) := by
  have he : w.isEmpty = false := by simpa using hne
  simp [run, takeWhile_append_of_stop hw ht, dropWhile_append_of_stop hw ht, he]

/-- A decimal numeral is taken as a whole. -/
lemma digits_append {d t : Bytes} (hd : Numeral.IsDecimal d) (ht : Stops isDigit t) :
    digits (d ++ t) = some (d, t) :=
  run_append hd.1 hd.2 ht

/-- A word without blanks is taken as a whole. -/
lemma word_append {w t : Bytes} (hne : w ≠ []) (hw : ∀ b ∈ w, isBlank b = false) (ht : Ends t) :
    word (w ++ t) = some (w, t) :=
  run_append hne (fun b hb => by simp [hw b hb]) ht.stops_word

/-- A text without a double quote is taken from between its quotes. -/
lemma quoted_append {w t : Bytes} (hw : byte quote ∉ w) :
    quoted (byte quote :: (w ++ byte quote :: t)) = some (w, t) := by
  have hall : ∀ b ∈ w, (b != byte quote) = true := by
    intro b hb
    rw [bne_iff_ne]
    rintro rfl
    exact hw hb
  have hstop : ∀ b ∈ (byte quote :: t).head?, (b != byte quote) = false := by simp
  simp only [quoted, bind_apply, char_cons, Option.bind_some,
    takeWhile_append_of_stop hall hstop, dropWhile_append_of_stop hall hstop]
  rfl

end Scan

namespace Statement

open Scan

/-! ## Operands -/

/-- The ways in which a comma between operands is written: alone, or with one blank behind it. -/
def IsComma (sep : Bytes) : Prop := sep = ascii "," ∨ sep = ascii ", "

/-- A register is taken as a whole. -/
lemma register_append {d t : Bytes} (hd : Numeral.IsDecimal d) (ht : Stops isDigit t) :
    register (ascii "#" ++ (d ++ t)) = some (Quantity.readCharacter d, t) := by
  have hc : char '#' (ascii "#" ++ (d ++ t)) = some ((), d ++ t) := char_cons '#' (d ++ t)
  simp only [register, bind_apply, hc, Option.bind_some, digits_append hd ht]
  rfl

/-- There is no register where no number sign stands. -/
lemma register_of_ne {b : UInt8} {t : Bytes} (h : b ≠ byte '#') : register (b :: t) = none := by
  simp only [register, bind_apply, char_cons_of_ne h, Option.bind_none]

/-- No digit follows where a comma stands. -/
lemma IsComma.stops_isDigit {sep : Bytes} (h : IsComma sep) (t : Bytes) :
    Stops isDigit (sep ++ t) := by
  rcases h with rfl | rfl
  · exact stops_cons (by decide)
  · exact stops_cons (by decide)

/-- No digit follows where a comma stands, perhaps behind blanks. -/
lemma stops_isDigit_comma {l : Bytes} (hl : ∀ b ∈ l, isBlank b = true) (t : Bytes) :
    Stops isDigit (l ++ (ascii "," ++ t)) := by
  cases l with
  | nil => exact stops_cons (by decide)
  | cons b l =>
    have hends : Ends (b :: (l ++ (ascii "," ++ t))) := by simpa [Ends] using hl b (by simp)
    exact hends.stops_isDigit

/-- A comma is taken with the blanks around it. -/
lemma comma_between {l r t : Bytes} (hl : ∀ b ∈ l, isBlank b = true)
    (hr : ∀ b ∈ r, isBlank b = true) (ht : Stops isBlank t) :
    comma (l ++ (ascii "," ++ (r ++ t))) = some ((), t) := by
  have hchar : char ',' (ascii "," ++ (r ++ t)) = some ((), r ++ t) := char_cons ',' (r ++ t)
  have hcomma : Stops isBlank (ascii "," ++ (r ++ t)) := stops_cons (by decide)
  simp only [comma, bind_apply, blanks_append hl hcomma, Option.bind_some, hchar, blanks_append hr ht]

/-- A comma is taken with at most one blank on either side. -/
lemma closeComma_between {l r t : Bytes} (hl : ∀ b ∈ l, isBlank b = true) (hle : l.length ≤ 1)
    (hr : ∀ b ∈ r, isBlank b = true) (hle' : r.length ≤ 1) (ht : Stops isBlank t) :
    closeComma (l ++ (ascii "," ++ (r ++ t))) = some ((), t) := by
  have hchar : char ',' (ascii "," ++ (r ++ t)) = some ((), r ++ t) := char_cons ',' (r ++ t)
  have hcomma : Stops isBlank (ascii "," ++ (r ++ t)) := stops_cons (by decide)
  simp only [closeComma, bind_apply, maybeBlank_append hl hle hcomma, Option.bind_some, hchar,
    maybeBlank_append hr hle' ht]

/-- The blank behind a comma, if there is one. -/
lemma IsComma.exists_blank {sep : Bytes} (h : IsComma sep) :
    ∃ r, (∀ b ∈ r, isBlank b = true) ∧ r.length ≤ 1 ∧ sep = ascii "," ++ r := by
  rcases h with rfl | rfl
  · exact ⟨[], List.forall_mem_nil _, Nat.zero_le _, rfl⟩
  · exact ⟨ascii " ", List.forall_mem_singleton.2 rfl, Nat.le_refl _, rfl⟩

/-- A comma is taken with the blank behind it. -/
lemma comma_append {sep t : Bytes} (h : IsComma sep) (ht : Stops isBlank t) :
    comma (sep ++ t) = some ((), t) := by
  obtain ⟨r, hr, -, rfl⟩ := h.exists_blank
  rw [List.append_assoc]
  exact comma_between (List.forall_mem_nil _) hr ht

/-- Where at most one blank is taken, the same holds. -/
lemma closeComma_append {sep t : Bytes} (h : IsComma sep) (ht : Stops isBlank t) :
    closeComma (sep ++ t) = some ((), t) := by
  obtain ⟨r, hr, hle, rfl⟩ := h.exists_blank
  rw [List.append_assoc]
  exact closeComma_between (List.forall_mem_nil _) (Nat.zero_le _) hr hle ht

end Statement

/-! ## Splitting -/

/-- What is collected while no separator comes. -/
lemma fieldsAfter_append {separator : UInt8} {w : Bytes} (hw : separator ∉ w) (field : Bytes)
    (done : List Bytes) (t : Bytes) :
    fieldsAfter separator field done (w ++ t) =
      fieldsAfter separator (w.reverse ++ field) done t := by
  induction w generalizing field with
  | nil => rfl
  | cons b w ih =>
    have hb : (b == separator) = false := by
      rw [beq_eq_false_iff_ne]
      rintro rfl
      exact hw (by simp)
    rw [List.cons_append, fieldsAfter, hb, if_neg (by decide), ih (fun h => hw (by simp [h]))]
    simp

/-- Parts with a separator before each are split off one by one. -/
lemma fieldsAfter_flatMap {separator : UInt8} {parts : List Bytes}
    (hp : ∀ w ∈ parts, separator ∉ w) (field : Bytes) (done : List Bytes) :
    fieldsAfter separator field done (parts.flatMap (separator :: ·)) =
      done.reverse ++ field.reverse :: parts := by
  induction parts generalizing field done with
  | nil => simp [fieldsAfter]
  | cons w parts ih =>
    rw [List.flatMap_cons, List.cons_append, fieldsAfter, beq_self_eq_true, if_pos rfl,
      fieldsAfter_append (hp w (by simp)), ih fun v hv => hp v (by simp [hv])]
    simp

/-- Parts joined by a separator are split again. -/
theorem fields_join {separator : UInt8} {w : Bytes} {parts : List Bytes} (hw : separator ∉ w)
    (hp : ∀ v ∈ parts, separator ∉ v) :
    fields separator (w ++ parts.flatMap (separator :: ·)) = w :: parts := by
  rw [fields, fieldsAfter_append hw, fieldsAfter_flatMap hp]
  simp

/-- A text without a separator is one part. -/
lemma fields_of_not_mem {separator : UInt8} {w : Bytes} (hw : separator ∉ w) :
    fields separator w = [w] := by
  have h : fields separator (w ++ [].flatMap (separator :: ·)) = [w] := fields_join hw (by simp)
  rwa [List.flatMap_nil, List.append_nil] at h

/-- Parts with a separator behind each are parts with a separator between them, the last of which
is empty. -/
lemma flatMap_separator (separator : UInt8) (w : Bytes) (parts : List Bytes) :
    (w :: parts).flatMap (· ++ [separator]) = w ++ (parts ++ [[]]).flatMap (separator :: ·) := by
  induction parts generalizing w with
  | nil => simp
  | cons v parts ih =>
    rw [List.flatMap_cons, ih]
    simp

/-- Lines that each end in a newline are split again. -/
theorem lines_join {parts : List Bytes} (hp : ∀ w ∈ parts, byte '\n' ∉ w) :
    lines (parts.flatMap (· ++ [byte '\n'])) = parts := by
  cases parts with
  | nil => rfl
  | cons w parts =>
    have hparts : ∀ v ∈ parts ++ [[]], byte '\n' ∉ v := by
      intro v hv
      rcases List.mem_append.1 hv with hv | hv
      · exact hp v (by simp [hv])
      · simp [List.mem_singleton.1 hv]
    have hfields := fields_join (hp w (by simp)) hparts
    rw [← flatMap_separator] at hfields
    have hlast : (w :: (parts ++ [[]])).getLast? = some [] := by
      rw [← List.cons_append, List.getLast?_concat]
    rw [lines, hfields, if_pos hlast, ← List.cons_append, List.dropLast_concat]

end RegisterMachine
