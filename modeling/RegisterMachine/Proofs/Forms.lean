import RegisterMachine.Proofs.Scanning

/-!
# Lines and the forms that fit them

The forms of a source line are tried in a fixed order, and the first that fits decides. Here it is
shown, for each group of operations, that a line in the usual layout gets past all forms that do
not belong to it and is then taken apart by its own: a tab, the name of the operation, blanks, and
the operands with commas between them. Behind the last operand anything may follow that begins
with a blank.

## Main definitions

* `Statement.gapText` — the blanks between the name of an operation and its operands.
* `Statement.Leads` — a form is the first that can fit the lines with a given beginning.

## Main results

* `Statement.parse_plain`, `parse_show`, `parse_unary`, `parse_memory`, `parse_ternary`,
  `parse_branch`, `parse_goto`, `parse_service`, `parse_data` — the statement of a line, by the
  shape of the operands.
* `Statement.parse_storeText`, `parse_storeRegister`, `parse_storeWord` — the forms of `store`.
* `Statement.parse_compareText`, `parse_compareRegisters`, `parse_compareWord` — the forms of `cmp`.
-/

namespace RegisterMachine.Statement

open Scan Numeral

/-! ## The form that decides -/

/-- The blanks between the name of an operation and its operands: one, and `gap` more. -/
def gapText (gap : Nat) : Bytes := List.replicate (gap + 1) (byte ' ')

/-- A form is the first that can fit the lines with a given beginning. -/
def Leads (form : Scan Statement) (front : Bytes) : Prop :=
  ∃ k, forms[k]? = some form ∧ ∀ t, first (forms.take k) (front ++ t) = none

/-- A line states what the first form that fits makes of it. -/
lemma parse_of_first {line : Bytes} {s : Statement} (hne : line ≠ [])
    (h : first forms line = some s) : parse line = s := by
  have he : line.isEmpty = false := by simpa using hne
  simp [parse, he, h]

/-- A line states what its leading form makes of it, if that fits. -/
lemma Leads.parse {form : Scan Statement} {front t u : Bytes} {s : Statement}
    (h : Leads form front) (hne : front ≠ []) (hfits : form (front ++ t) = some (s, u)) :
    parse (front ++ t) = s := by
  obtain ⟨k, hk, hbefore⟩ := h
  exact parse_of_first (by simp [hne]) (first_of_get k hk (hbefore t) hfits)

/-! ## Beginnings of lines -/

/-- The tab in front of a line is passed over. -/
lemma blanks_tab {t : Bytes} (ht : Stops isBlank t) : blanks (ascii "\t" ++ t) = some ((), t) :=
  blanks_append (List.forall_mem_singleton.2 rfl) ht

/-- The tab in front of a line counts as its indentation. -/
lemma someBlanks_tab {t : Bytes} (ht : Stops isBlank t) :
    someBlanks (ascii "\t" ++ t) = some ((), t) :=
  someBlanks_append (by decide) (List.forall_mem_singleton.2 rfl) ht

lemma isBlank_gapText (gap : Nat) : ∀ b ∈ gapText gap, isBlank b = true := by
  intro b hb
  rw [List.eq_of_mem_replicate hb]
  decide

/-- A text that begins with such blanks begins with one. -/
lemma ends_gapText (gap : Nat) (t : Bytes) : Ends (gapText gap ++ t) := by
  intro b hb
  obtain rfl : byte ' ' = b := Option.some.inj hb
  decide

/-- The blanks behind the name of an operation are passed over. -/
lemma someBlanks_gap (gap : Nat) {t : Bytes} (ht : Stops isBlank t) :
    someBlanks (gapText gap ++ t) = some ((), t) :=
  someBlanks_append (by simp [gapText]) (isBlank_gapText gap) ht

/-- A line with a name in front of its operands is passed over up to these. -/
lemma front_apply {s : String} (hs : ∀ t, Stops isBlank (ascii s ++ t)) (gap : Nat) {t : Bytes}
    (ht : Stops isBlank t) (operands : Scan Statement) :
    (do blanks; name s; someBlanks; operands : Scan Statement)
      (ascii "\t" ++ (ascii s ++ (gapText gap ++ t))) = operands t := by
  simp only [bind_apply, blanks_tab (hs _), Option.bind_some, name_append, someBlanks_gap gap ht]

/-- A line states what its leading form makes of it, whatever the blanks behind the name. -/
lemma Leads.parse_gap {form : Scan Statement} {s : String} {gap : Nat} {t u : Bytes}
    {st : Statement} (h : Leads form (ascii "\t" ++ ascii s ++ ascii " "))
    (hfits : form (ascii "\t" ++ (ascii s ++ (gapText gap ++ t))) = some (st, u)) :
    Statement.parse (ascii "\t" ++ (ascii s ++ (gapText gap ++ t))) = st := by
  have hline : ascii "\t" ++ (ascii s ++ (gapText gap ++ t)) =
      (ascii "\t" ++ ascii s ++ ascii " ") ++ (List.replicate gap (byte ' ') ++ t) := by
    simp [gapText, List.replicate_succ, ascii]
  rw [hline] at hfits ⊢
  exact h.parse (List.append_ne_nil_of_right_ne_nil _ (by decide)) hfits

/-- No blank stands before a register. -/
lemma stops_isBlank_register (t : Bytes) : Stops isBlank (ascii "#" ++ t) :=
  stops_cons (by decide)

/-- A word without blanks does not begin with one. -/
lemma stops_isBlank_word {w t : Bytes} (hne : w ≠ []) (hw : ∀ b ∈ w, isBlank b = false) :
    Stops isBlank (w ++ t) := by
  cases w with
  | nil => exact absurd rfl hne
  | cons b w => exact stops_cons (hw b (by simp))

/-! ## Operations by the shape of their operands -/

/-- The line of an operation without operands. -/
theorem parse_plain (op : Plain) (t : Bytes) :
    parse (ascii "\t" ++ ascii op.mnemonic ++ t) = .plain op := by
  cases op with
  | exit => exact Leads.parse ⟨5, rfl, fun _ => rfl⟩ (by decide) rfl
  | nop => exact Leads.parse ⟨6, rfl, fun _ => rfl⟩ (by decide) rfl
  | ret => exact Leads.parse ⟨39, rfl, fun _ => rfl⟩ (by decide) rfl

/-- The line of an operation whose register is all that follows the number sign. -/
theorem parse_show {op : Unary} (hop : takesRest op = true) (t : Bytes) :
    parse (ascii "\t" ++ ascii op.mnemonic ++ ascii " #" ++ t) =
      .unary op (Quantity.readCharacter t) := by
  cases op with
  | printInt => exact Leads.parse ⟨7, rfl, fun _ => rfl⟩ (by decide) rfl
  | printText => exact Leads.parse ⟨8, rfl, fun _ => rfl⟩ (by decide) rfl
  | shell => exact Leads.parse ⟨9, rfl, fun _ => rfl⟩ (by decide) rfl
  | _ => exact absurd hop (by decide)

/-- The other operations on one register are told apart by their names. -/
lemma leads_unary {op : Unary} (hop : takesRest op = false) :
    Leads (unaryLine op) (ascii "\t" ++ ascii op.mnemonic ++ ascii " ") := by
  cases op with
  | printInt | printText | shell => exact absurd hop (by decide)
  | dec => exact ⟨24, rfl, fun _ => rfl⟩
  | inc => exact ⟨25, rfl, fun _ => rfl⟩
  | intToText => exact ⟨26, rfl, fun _ => rfl⟩
  | random => exact ⟨27, rfl, fun _ => rfl⟩
  | textToInt => exact ⟨28, rfl, fun _ => rfl⟩
  | isText => exact ⟨32, rfl, fun _ => rfl⟩
  | isInt => exact ⟨33, rfl, fun _ => rfl⟩
  | push => exact ⟨37, rfl, fun _ => rfl⟩
  | pop => exact ⟨38, rfl, fun _ => rfl⟩

/-- The operations on three registers are told apart by their names. -/
lemma leads_ternary (op : Ternary) :
    Leads (ternaryLine op) (ascii "\t" ++ ascii op.mnemonic ++ ascii " ") := by
  cases op with
  | arith op =>
    cases op with
    | add => exact ⟨16, rfl, fun _ => rfl⟩
    | and => exact ⟨17, rfl, fun _ => rfl⟩
    | sub => exact ⟨18, rfl, fun _ => rfl⟩
    | mul => exact ⟨19, rfl, fun _ => rfl⟩
    | or => exact ⟨21, rfl, fun _ => rfl⟩
    | xor => exact ⟨22, rfl, fun _ => rfl⟩
  | div => exact ⟨20, rfl, fun _ => rfl⟩
  | concat => exact ⟨23, rfl, fun _ => rfl⟩
  | copyBlock => exact ⟨36, rfl, fun _ => rfl⟩

/-- The operations that name an address are told apart by their names and the blank behind. -/
lemma leads_branch (op : Branch) :
    Leads (branchLine op.mnemonic op) (ascii "\t" ++ ascii op.mnemonic ++ ascii " ") := by
  cases op with
  | jump => exact ⟨11, rfl, fun _ => rfl⟩
  | jumpZero => exact ⟨12, rfl, fun _ => rfl⟩
  | jumpNonzero => exact ⟨13, rfl, fun _ => rfl⟩
  | call => exact ⟨14, rfl, fun _ => rfl⟩

/-- The names of the operations on one register do not begin with a blank. -/
lemma stops_isBlank_unary (op : Unary) (t : Bytes) : Stops isBlank (ascii op.mnemonic ++ t) := by
  cases op <;> exact stops_cons (by decide)

/-- The names of the operations on three registers do not begin with a blank. -/
lemma stops_isBlank_ternary (op : Ternary) (t : Bytes) :
    Stops isBlank (ascii op.mnemonic ++ t) := by
  cases op with
  | arith op => cases op <;> exact stops_cons (by decide)
  | div | concat | copyBlock => exact stops_cons (by decide)

/-- The names of the operations that name an address do not begin with a blank. -/
lemma stops_isBlank_branch (op : Branch) (t : Bytes) :
    Stops isBlank (ascii op.mnemonic ++ t) := by
  cases op <;> exact stops_cons (by decide)

/-- The line of an operation on one register. -/
theorem parse_unary {op : Unary} (hop : takesRest op = false) (gap : Nat) {d t : Bytes}
    (hd : IsDecimal d) (ht : Ends t) :
    parse (ascii "\t" ++ (ascii op.mnemonic ++ (gapText gap ++ (ascii "#" ++ (d ++ t))))) =
      .unary op (Quantity.readCharacter d) := by
  apply (leads_unary hop).parse_gap
  rw [unaryLine, front_apply (stops_isBlank_unary op) gap (stops_isBlank_register _), bind_apply,
    register_append hd ht.stops_isDigit]
  rfl

/-- The line of an operation on three registers. -/
theorem parse_ternary (op : Ternary) (gap : Nat) {sep sep' d a b t : Bytes} (hsep : IsComma sep)
    (hsep' : IsComma sep') (hd : IsDecimal d) (ha : IsDecimal a) (hb : IsDecimal b) (ht : Ends t) :
    parse (ascii "\t" ++ (ascii op.mnemonic ++ (gapText gap ++ (ascii "#" ++ (d ++ (sep ++
      (ascii "#" ++ (a ++ (sep' ++ (ascii "#" ++ (b ++ t))))))))))) =
      .ternary op (Quantity.readCharacter d) (Quantity.readCharacter a)
        (Quantity.readCharacter b) := by
  apply (leads_ternary op).parse_gap
  rw [ternaryLine, front_apply (stops_isBlank_ternary op) gap (stops_isBlank_register _)]
  simp only [bind_apply, register_append hd (hsep.stops_isDigit _), Option.bind_some,
    comma_append hsep (stops_isBlank_register _), register_append ha (hsep'.stops_isDigit _),
    comma_append hsep' (stops_isBlank_register _), register_append hb ht.stops_isDigit]
  rfl

/-- The line of a read or a write of the memory. -/
theorem parse_memory {op : Binary} (hop : op = .peek ∨ op = .poke) (gap : Nat) {sep a b t : Bytes}
    (hsep : IsComma sep) (ha : IsDecimal a) (hb : IsDecimal b) (ht : Ends t) :
    parse (ascii "\t" ++ (ascii op.mnemonic ++ (gapText gap ++ (ascii "#" ++ (a ++ (sep ++
      (ascii "#" ++ (b ++ t)))))))) =
      .binary op (Quantity.readCharacter a) (Quantity.readCharacter b) := by
  have hleads : Leads (memoryLine op) (ascii "\t" ++ ascii op.mnemonic ++ ascii " ") := by
    rcases hop with rfl | rfl
    · exact ⟨34, rfl, fun _ => rfl⟩
    · exact ⟨35, rfl, fun _ => rfl⟩
  have hname : ∀ u, Stops isBlank (ascii op.mnemonic ++ u) := by
    rcases hop with rfl | rfl
    · exact fun _ => stops_cons (by decide)
    · exact fun _ => stops_cons (by decide)
  apply hleads.parse_gap
  rw [memoryLine, front_apply hname gap (stops_isBlank_register _)]
  simp only [bind_apply, register_append ha (hsep.stops_isDigit _), Option.bind_some,
    comma_append hsep (stops_isBlank_register _), register_append hb ht.stops_isDigit]
  rfl

/-- The line of an operation that names an address. -/
theorem parse_branch (op : Branch) (gap : Nat) {w t : Bytes} (hne : w ≠ [])
    (hw : ∀ b ∈ w, isBlank b = false) (ht : Ends t) :
    parse (ascii "\t" ++ (ascii op.mnemonic ++ (gapText gap ++ (w ++ t)))) =
      .branch op (target w) := by
  apply (leads_branch op).parse_gap
  rw [branchLine, front_apply (stops_isBlank_branch op) gap (stops_isBlank_word hne hw),
    bind_apply, word_append hne hw ht]
  rfl

/-- The line of a jump under its other name. -/
theorem parse_goto (gap : Nat) {w t : Bytes} (hne : w ≠ []) (hw : ∀ b ∈ w, isBlank b = false)
    (ht : Ends t) :
    parse (ascii "\t" ++ (ascii "goto" ++ (gapText gap ++ (w ++ t)))) =
      .branch .jump (target w) := by
  have hleads : Leads (branchLine "goto" .jump) (ascii "\t" ++ ascii "goto" ++ ascii " ") :=
    ⟨10, rfl, fun _ => rfl⟩
  apply hleads.parse_gap
  rw [branchLine, front_apply (fun _ => stops_cons (by decide)) gap (stops_isBlank_word hne hw),
    bind_apply, word_append hne hw ht]
  rfl

/-- The line of a call of a service. -/
theorem parse_service (gap : Nat) {w t : Bytes} (hne : w ≠ []) (hw : ∀ b ∈ w, isBlank b = false)
    (ht : Ends t) :
    parse (ascii "\t" ++ (ascii "syscall" ++ (gapText gap ++ (w ++ t)))) =
      .service (serviceNumber w) := by
  have hleads : Leads serviceLine (ascii "\t" ++ ascii "syscall" ++ ascii " ") :=
    ⟨15, rfl, fun _ => rfl⟩
  apply hleads.parse_gap
  rw [serviceLine, front_apply (fun _ => stops_cons (by decide)) gap (stops_isBlank_word hne hw),
    bind_apply, word_append hne hw ht]
  rfl

/-! ## The forms of `store` and `cmp` -/

/-- The text of a line whose first operand is a register: the name of the operation, the register and
a comma. -/
def registerFront (s : String) (gap : Nat) (d sep : Bytes) (t : Bytes) : Bytes :=
  ascii "\t" ++ (ascii s ++ (gapText gap ++ (ascii "#" ++ (d ++ (sep ++ t)))))

section Front

variable {d sep t : Bytes} (gap : Nat) (hd : IsDecimal d) (hsep : IsComma sep)
  (ht : Stops isBlank t)

include hd hsep ht in
/-- The front of the forms of `store` takes the register and the comma. -/
lemma storeFront_apply :
    storeFront (registerFront "store" gap d sep t) = some (Quantity.readCharacter d, t) := by
  have hname : Stops isBlank (ascii "store" ++
      (gapText gap ++ (ascii "#" ++ (d ++ (sep ++ t))))) := stops_cons (by decide)
  simp only [storeFront, registerFront, bind_apply, someBlanks_tab hname, Option.bind_some,
    name_append, someBlanks_gap gap (stops_isBlank_register _),
    register_append hd (hsep.stops_isDigit t), closeComma_append hsep ht]
  rfl

include hd hsep ht in
/-- The front of two of the forms of `cmp` takes the register and the comma. -/
lemma compareFront_apply :
    compareFront (registerFront "cmp" gap d sep t) = some (Quantity.readCharacter d, t) := by
  have hname : Stops isBlank (ascii "cmp" ++
      (gapText gap ++ (ascii "#" ++ (d ++ (sep ++ t))))) := stops_cons (by decide)
  have hcase : (ascii "cmp").map lowerCase = ascii "cmp" := by decide
  simp only [compareFront, registerFront, bind_apply, blanks_tab hname, Option.bind_some,
    nameAnyCase_append hcase, someBlanks_gap gap (stops_isBlank_register _),
    register_append hd (hsep.stops_isDigit t), comma_append hsep ht]
  rfl

include hd hsep ht in
/-- The form of `cmp` with a text takes the register and the comma, and then the text. -/
lemma compareText_apply :
    compareText (registerFront "cmp" gap d sep t) =
      (quoted t).bind fun p => some (.literal .compare (Quantity.readCharacter d) p.1, p.2) := by
  have hname : Stops isBlank (ascii "cmp" ++
      (gapText gap ++ (ascii "#" ++ (d ++ (sep ++ t))))) := stops_cons (by decide)
  simp only [compareText, registerFront, bind_apply, someBlanks_tab hname, Option.bind_some,
    name_append, someBlanks_gap gap (stops_isBlank_register _),
    register_append hd (hsep.stops_isDigit t), closeComma_append hsep ht]
  rfl

/-- The two forms before those of `store` do not fit a line that begins with the name. -/
lemma first_before_store (u : Bytes) :
    first [comment, labelLine] (registerFront "store" gap d sep u) = none := rfl

/-- The forms before those of `cmp` do not fit a line that begins with the name. -/
lemma first_before_compare (u : Bytes) :
    first (forms.take 29) (registerFront "cmp" gap d sep u) = none := by
  have hline : registerFront "cmp" gap d sep u = ascii "\tcmp " ++
      (List.replicate gap (byte ' ') ++ (ascii "#" ++ (d ++ (sep ++ u)))) := rfl
  rw [hline]
  rfl

end Front

/-- There is no text where no quote stands. -/
lemma quoted_of_ne {b : UInt8} {t : Bytes} (h : b ≠ byte quote) : quoted (b :: t) = none := by
  simp only [quoted, bind_apply, char_cons_of_ne h, Option.bind_none]

section Store

variable {d sep : Bytes} (gap : Nat) (hd : IsDecimal d) (hsep : IsComma sep)

include hd hsep in
/-- The line that stores a text constant. -/
theorem parse_storeText {w : Bytes} (hw : byte quote ∉ w) (t : Bytes) :
    parse (registerFront "store" gap d sep (byte quote :: (w ++ byte quote :: t))) =
      .literal .store (Quantity.readCharacter d) (unescape w) := by
  have hfront := storeFront_apply gap hd hsep
    (stops_cons (by decide) : Stops isBlank (byte quote :: (w ++ byte quote :: t)))
  have hfits : storeText (registerFront "store" gap d sep (byte quote :: (w ++ byte quote :: t))) =
      some (.literal .store (Quantity.readCharacter d) (unescape w), t) := by
    simp only [storeText, bind_apply, hfront, Option.bind_some, quoted_append hw]
    rfl
  exact parse_of_first (by simp [registerFront, ascii])
    (first_of_get 2 rfl (first_before_store gap _) hfits)

include hd hsep in
/-- The line that copies a register. -/
theorem parse_storeRegister {b t : Bytes} (hb : IsDecimal b) (ht : Ends t) :
    parse (registerFront "store" gap d sep (ascii "#" ++ (b ++ t))) =
      .binary .copy (Quantity.readCharacter d) (Quantity.readCharacter b) := by
  have hfront := storeFront_apply gap hd hsep (stops_isBlank_register (b ++ t))
  have htext : storeText (registerFront "store" gap d sep (ascii "#" ++ (b ++ t))) = none := by
    have hq : quoted (ascii "#" ++ (b ++ t)) = none := quoted_of_ne (by decide)
    simp only [storeText, bind_apply, hfront, Option.bind_some, hq, Option.bind_none]
  have hbefore : first (forms.take 3) (registerFront "store" gap d sep (ascii "#" ++ (b ++ t))) =
      none := by
    change first ([comment, labelLine] ++ [storeText]) _ = none
    rw [first_append, first_before_store gap, Option.none_or, first_cons_of_none htext]
    rfl
  have hfits : storeRegister (registerFront "store" gap d sep (ascii "#" ++ (b ++ t))) =
      some (.binary .copy (Quantity.readCharacter d) (Quantity.readCharacter b), t) := by
    simp only [storeRegister, bind_apply, hfront, Option.bind_some,
      register_append hb ht.stops_isDigit]
    rfl
  exact parse_of_first (by simp [registerFront, ascii]) (first_of_get 3 rfl hbefore hfits)

include hd hsep in
/-- The line that stores a number or the address of a label: its last operand is neither a text
nor a register. -/
theorem parse_storeWord {b : UInt8} {w t : Bytes} (hw : ∀ c ∈ b :: w, isBlank c = false)
    (hq : b ≠ byte quote) (hr : b ≠ byte '#') (ht : Ends t) :
    parse (registerFront "store" gap d sep (b :: w ++ t)) =
      .immediate .store (Quantity.readCharacter d) (target (b :: w)) := by
  have hfront := storeFront_apply gap hd hsep (stops_isBlank_word (by simp) hw : Stops _ (_ ++ t))
  have htext : storeText (registerFront "store" gap d sep (b :: w ++ t)) = none := by
    have hn : quoted (b :: w ++ t) = none := quoted_of_ne hq
    simp only [storeText, bind_apply, hfront, Option.bind_some, hn, Option.bind_none]
  have hregister : storeRegister (registerFront "store" gap d sep (b :: w ++ t)) = none := by
    have hn : register (b :: w ++ t) = none := register_of_ne hr
    simp only [storeRegister, bind_apply, hfront, Option.bind_some, hn, Option.bind_none]
  have hbefore : first (forms.take 4) (registerFront "store" gap d sep (b :: w ++ t)) = none := by
    change first ([comment, labelLine] ++ [storeText, storeRegister]) _ = none
    rw [first_append, first_before_store gap, Option.none_or, first_cons_of_none htext,
      first_cons_of_none hregister]
    rfl
  have hfits : storeWord (registerFront "store" gap d sep (b :: w ++ t)) =
      some (.immediate .store (Quantity.readCharacter d) (target (b :: w)), t) := by
    simp only [storeWord, bind_apply, hfront, Option.bind_some, word_append (by simp) hw ht]
    rfl
  exact parse_of_first (by simp [registerFront, ascii]) (first_of_get 4 rfl hbefore hfits)

end Store

section Compare

variable {d sep : Bytes} (gap : Nat) (hd : IsDecimal d) (hsep : IsComma sep)

include hd hsep in
/-- The line that compares two registers. -/
theorem parse_compareRegisters {b t : Bytes} (hb : IsDecimal b) (ht : Ends t) :
    parse (registerFront "cmp" gap d sep (ascii "#" ++ (b ++ t))) =
      .binary .compare (Quantity.readCharacter d) (Quantity.readCharacter b) := by
  have hfront := compareFront_apply gap hd hsep (stops_isBlank_register (b ++ t))
  have hfits : compareRegisters (registerFront "cmp" gap d sep (ascii "#" ++ (b ++ t))) =
      some (.binary .compare (Quantity.readCharacter d) (Quantity.readCharacter b), t) := by
    simp only [compareRegisters, bind_apply, hfront, Option.bind_some,
      register_append hb ht.stops_isDigit]
    rfl
  exact parse_of_first (by simp [registerFront, ascii])
    (first_of_get 29 rfl (first_before_compare gap _) hfits)

include hd hsep in
/-- Registers are not compared where the last operand is no register. -/
lemma compareRegisters_of_ne {b : UInt8} {t : Bytes} (hblank : isBlank b = false)
    (hr : b ≠ byte '#') : compareRegisters (registerFront "cmp" gap d sep (b :: t)) = none := by
  have hfront := compareFront_apply gap hd hsep (stops_cons hblank : Stops isBlank (b :: t))
  simp only [compareRegisters, bind_apply, hfront, Option.bind_some, register_of_ne hr,
    Option.bind_none]

include hd hsep in
/-- The line that compares a register with a text constant. -/
theorem parse_compareText {w : Bytes} (hw : byte quote ∉ w) (t : Bytes) :
    parse (registerFront "cmp" gap d sep (byte quote :: (w ++ byte quote :: t))) =
      .literal .compare (Quantity.readCharacter d) w := by
  have hregisters := compareRegisters_of_ne gap hd hsep
    (by decide : isBlank (byte quote) = false) (by decide) (t := w ++ byte quote :: t)
  have hbefore : first (forms.take 30)
      (registerFront "cmp" gap d sep (byte quote :: (w ++ byte quote :: t))) = none := by
    change first (forms.take 29 ++ [compareRegisters]) _ = none
    rw [first_append, first_before_compare gap, Option.none_or, first_cons_of_none hregisters]
    rfl
  have hfits := compareText_apply gap hd hsep
    (stops_cons (by decide) : Stops isBlank (byte quote :: (w ++ byte quote :: t)))
  rw [quoted_append hw] at hfits
  exact parse_of_first (by simp [registerFront, ascii]) (first_of_get 30 rfl hbefore hfits)

include hd hsep in
/-- The line that compares a register with a number: its last operand is neither a text nor a
register. -/
theorem parse_compareWord {b : UInt8} {w t : Bytes} (hw : ∀ c ∈ b :: w, isBlank c = false)
    (hq : b ≠ byte quote) (hr : b ≠ byte '#') (ht : Ends t) :
    parse (registerFront "cmp" gap d sep (b :: w ++ t)) =
      .immediate .compare (Quantity.readCharacter d) (.number (number (b :: w))) := by
  have hblank := hw b (by simp)
  have hregisters := compareRegisters_of_ne gap hd hsep hblank hr (t := w ++ t)
  have htext : compareText (registerFront "cmp" gap d sep (b :: (w ++ t))) = none := by
    rw [compareText_apply gap hd hsep (stops_cons hblank), quoted_of_ne hq, Option.bind_none]
  have hbefore : first (forms.take 31) (registerFront "cmp" gap d sep (b :: (w ++ t))) = none := by
    change first (forms.take 29 ++ [compareRegisters, compareText]) _ = none
    rw [first_append, first_before_compare gap, Option.none_or, first_cons_of_none hregisters,
      first_cons_of_none htext]
    rfl
  have hfront := compareFront_apply gap hd hsep
    (stops_isBlank_word (by simp) hw : Stops isBlank (b :: w ++ t))
  have hfits : compareWord (registerFront "cmp" gap d sep (b :: w ++ t)) =
      some (.immediate .compare (Quantity.readCharacter d) (.number (number (b :: w))), t) := by
    simp only [compareWord, bind_apply, hfront, Option.bind_some, word_append (by simp) hw ht]
    rfl
  exact parse_of_first (by simp [registerFront, ascii]) (first_of_get 31 rfl hbefore hfits)

end Compare

/-! ## Data -/

/-- The names of a data line, each in small or in capital letters. -/
def IsDataName (s : String) : Prop := s = "db" ∨ s = "data" ∨ s = "DB" ∨ s = "DATA"

/-- The form of data lines under a name takes all that follows the blanks behind the name. -/
lemma dataLine_apply {s small : String} (hs : (ascii s).map lowerCase = ascii small)
    (hblank : ∀ t, Stops isBlank (ascii s ++ t)) (gap : Nat) {t : Bytes} (ht : Stops isBlank t) :
    dataLine small (ascii "\t" ++ (ascii s ++ (gapText gap ++ t))) = some (.data (items t), []) := by
  simp only [dataLine, bind_apply, blanks_tab (hblank _), Option.bind_some, nameAnyCase_append hs,
    someBlanks_gap gap ht]
  rfl

/-- The line of bytes as they stand. -/
theorem parse_data {s : String} (hs : IsDataName s) (gap : Nat) {t : Bytes}
    (ht : Stops isBlank t) :
    parse (ascii "\t" ++ (ascii s ++ (gapText gap ++ t))) = .data (items t) := by
  rcases hs with rfl | rfl | rfl | rfl
  · exact Leads.parse_gap ⟨40, rfl, fun _ => rfl⟩
      (dataLine_apply (by decide) (fun _ => stops_cons (by decide)) gap ht)
  · exact Leads.parse_gap ⟨41, rfl, fun _ => rfl⟩
      (dataLine_apply (by decide) (fun _ => stops_cons (by decide)) gap ht)
  · exact Leads.parse_gap ⟨40, rfl, fun _ => rfl⟩
      (dataLine_apply (by decide) (fun _ => stops_cons (by decide)) gap ht)
  · exact Leads.parse_gap ⟨41, rfl, fun _ => rfl⟩
      (dataLine_apply (by decide) (fun _ => stops_cons (by decide)) gap ht)

/-- The line of a label: all that follows the colon is its name. -/
theorem parse_label (t : Bytes) : parse (ascii ":" ++ t) = .label t :=
  parse_of_first (by simp [ascii]) (first_of_get 1 rfl rfl rfl)

end RegisterMachine.Statement
