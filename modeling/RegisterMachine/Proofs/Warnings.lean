import RegisterMachine.Assembly.Warning
import RegisterMachine.Proofs.TwoPass

/-!
# What is warned about

An instruction in the usual layout gives no occasion for a warning: its registers and words are
numerals and nothing else, and they are small enough to be written as bytes. This holds also if
something follows behind a blank, as long as the instruction ends before it. Three instructions do not
end there. They take all the rest of the line for the number of their register, so there is a warning
as soon as something other than blanks follows.

So a program whose labels are unique and defined is assembled without a warning.

## Main definitions

* `Source.Instr.shown?` — the register that all the rest of the line is taken for.

## Main results

* `Quantity.isNumeral_append` — digits with a blank behind them are a numeral if nothing else follows.
* `Warning.ofDecimal_digits`, `Warning.ofHex_digits`, `Warning.ofWritten_ofNat` — small numbers give no
  warning when they are read and when they are written.
* `Source.Instr.lineWarnings_laid` — the warnings about an instruction.
* `Source.Line.lineWarnings_text` — lines of a program are not warned about.
* `Draft.warnings_append`, `Draft.warnings_of_ok` — the warnings about lines, from those about the first
  of them, and those about a source that is worked on to its end.
* `Source.warnings_text` — closed programs are assembled without a warning.
-/

namespace RegisterMachine

namespace Quantity

open Numeral

section Behind

variable {d t : Bytes} (hd : IsDecimal d) (ht : ∀ b ∈ t.head?, isBlank b = true)

include hd ht

/-- Digits with a blank behind them are a numeral with blanks behind it if nothing else follows. -/
lemma isDecimal_append : isDecimal (d ++ t) = t.all isBlank := by
  have hstop : ∀ b ∈ t.head?, isDigit b = false := fun b hb => isDigit_of_isBlank b (ht b hb)
  have hne : d.isEmpty = false := by simpa using hd.1
  have hpoint : beginsWith "." t = false := beginsWith_append (d := []) ht (by simp) "." (by decide)
  have hexponent : afterExponent t = t := by
    have he : beginsWith "e" t = false := beginsWith_append (d := []) ht (by simp) "e" (by decide)
    simp [afterExponent, he]
  simp [isDecimal, splitPoint, takeWhile_append_of_stop hd.2 hstop,
    dropWhile_append_of_stop hd.2 hstop, hpoint, hne, hexponent]

/-- Digits with a blank behind them are no word for a special number. -/
lemma isSpecial_append : isSpecial (d ++ t) = false := by
  have hword (word : String) (h : ∃ c ∈ ((ascii word).dropWhile isDigit).head?, isBlank c = false) :
      beginsWith word (d ++ t) = false := beginsWith_append ht hd.2 word h
  have hmark : afterMark? (d ++ t) = none := by
    simp [afterMark?, hword "1#" (by decide), hword "1.#" (by decide)]
  have hletter : withoutLetter "s" "q" (d ++ t) = d ++ t := by
    simp [withoutLetter, hword "s" (by decide), hword "q" (by decide)]
  simp [isSpecial, hmark, hletter, hword "infinity" (by decide), hword "inf" (by decide),
    hword "nan" (by decide)]

/-- **Digits with a blank behind them are a numeral** if nothing but blanks follows, and in one phrase. -/
lemma isNumeral_append : isNumeral (d ++ t) = (t.all isBlank || d ++ t == ascii "0 but true") := by
  obtain ⟨hfront, hsign⟩ := splitSign_append hd t
  simp [isNumeral, hfront, hsign, isDecimal_append hd ht, isSpecial_append hd ht]

end Behind

/-- Nothing follows the digits of a hexadecimal numeral. -/
lemma afterHexDigits_hex {t : Bytes} (h : ∀ b ∈ t, (hexValue? b).isSome = true) :
    afterHexDigits t = [] := by
  induction t with
  | nil => rfl
  | cons b t ih =>
    rw [afterHexDigits, h b List.mem_cons_self, Bool.true_or, if_pos rfl]
    exact ih fun c hc => h c (List.mem_cons_of_mem _ hc)

end Quantity

/-! ## Numbers that give no warning -/

namespace Warning

open Quantity Numeral

/-- A decimal numeral gives no warning when it is read. -/
lemma ofDecimal_digits {d : Bytes} (hd : IsDecimal d) : ofDecimal d = [] := by
  have h := isNumeral_append hd (t := []) (by simp)
  rw [List.append_nil] at h
  simp [ofDecimal, h]

/-- A hexadecimal numeral of at most 32 bits gives no warning when it is read. -/
lemma ofHex_digits {t : Bytes} (h : IsHex t) (hv : Numeral.ofHex t ≤ 0xFFFFFFFF) :
    ofHex (ascii "0x" ++ t) = [] := by
  have hmark : withoutHexMark (ascii "0x" ++ t) = t := rfl
  have hlength : ¬16 < ((hexDigits t).dropWhile (· == 0)).length :=
    Nat.not_lt.2 (length_significant_le h (Nat.lt_of_le_of_lt hv (by decide)))
  have hvalue : ¬0xFFFFFFFF < ofHexDigits ((hexDigits t).dropWhile (· == 0)) := by
    rw [← significant, ofHexDigits_significant h]
    exact Nat.not_lt.2 hv
  simp only [ofHex, hmark, afterHexDigits_hex h.2, if_neg hlength, if_neg hvalue]
  rfl

/-- Numbers of one byte give no warning when they are written. -/
lemma ofWritten_ofNat (ns : List Nat) (h : ∀ n ∈ ns, n ≤ 255) : ofWritten (ns.map .ofNat) = [] := by
  induction ns with
  | nil => rfl
  | cons n ns ih =>
    have hn : n ≤ 255 := h n List.mem_cons_self
    have hpositive : (Quantity.ofNat n).isNegative = false := rfl
    rw [List.map_cons, ofWritten, Draft.character_ofNat (Nat.le_trans hn (by decide))]
    simp only [hpositive, if_neg (Nat.not_lt.2 hn), ih fun m hm => h m (List.mem_cons_of_mem _ hm)]
    rfl

/-- A number of two bytes gives no warning when its bytes are written behind others. -/
lemma ofWritten_word (ns : List Nat) (h : ∀ n ∈ ns, n ≤ 255) {v : Nat} (hv : v ≤ 65535) :
    ofWritten (ns.map .ofNat ++ [(Quantity.ofNat v).low, (Quantity.ofNat v).high]) = [] := by
  have hword : ns.map Quantity.ofNat ++ [(Quantity.ofNat v).low, (Quantity.ofNat v).high] =
      (ns ++ [v % 256, v / 256]).map .ofNat := by
    simp [Draft.low_high_ofNat]
  rw [hword]
  apply ofWritten_ofNat
  intro n hn
  rcases List.mem_append.1 hn with hn | hn
  · exact h n hn
  · simp only [List.mem_cons, List.not_mem_nil, or_false] at hn
    omega

end Warning

/-! ## The texts that numbers are read from -/

namespace Statement

open Scan

/-- What follows the first byte of a kind. -/
lemma behind_append {c : Char} {front : Bytes} (h : byte c ∉ front) (t : Bytes) :
    behind c (front ++ byte c :: t) = t := by
  have hall : ∀ b ∈ front, (b != byte c) = true := by
    intro b hb
    rw [bne_iff_ne]
    rintro rfl
    exact h hb
  have hstop : ∀ b ∈ (byte c :: t).head?, (b != byte c) = false := by simp
  rw [behind, dropWhile_append_of_stop hall hstop]
  rfl

/-- A word behind blanks is split off as a whole. -/
lemma splitWord_append {bs w t : Bytes} (hbs : ∀ b ∈ bs, isBlank b = true) (hne : w ≠ [])
    (hw : ∀ b ∈ w, isBlank b = false) (ht : Ends t) : splitWord (bs ++ (w ++ t)) = (w, t) := by
  have hword : ∀ b ∈ w, (!isBlank b) = true := fun b hb => by rw [hw b hb]; rfl
  simp only [splitWord, dropWhile_append_of_stop hbs (stops_isBlank_word hne hw),
    takeWhile_append_of_stop hword ht.stops_word, dropWhile_append_of_stop hword ht.stops_word]

end Statement

namespace Source

open Statement Scan

/-- The word behind the name of an operation. -/
lemma secondWord_named {s : String} (hs : ascii s ≠ []) (hblank : ∀ b ∈ ascii s, isBlank b = false)
    (gap : Nat) {w t : Bytes} (hw : IsWord w) (ht : Ends t) :
    secondWord (named s gap w ++ t) = w := by
  have hfirst : splitWord (ascii "\t" ++ (ascii s ++ (gapText gap ++ (w ++ t)))) =
      (ascii s, gapText gap ++ (w ++ t)) :=
    splitWord_append (List.forall_mem_singleton.2 rfl) hs hblank (ends_gapText gap _)
  simp only [secondWord, named, List.append_assoc, hfirst,
    splitWord_append (isBlank_gapText gap) hw.ne_nil hw.noBlank ht]

/-- The word behind the comma of an operation with a register and a word. -/
lemma wordBehindComma_named {s : String} (hs : byte ',' ∉ ascii s) (gap : Nat) (r : Register)
    {sep w t : Bytes} (hsep : IsComma sep) (hw : IsWord w) (ht : Ends t) :
    wordBehindComma (named s gap (registerText r ++ sep ++ w) ++ t) = w := by
  obtain ⟨bs, hbs, -, rfl⟩ := hsep.exists_blank
  have hfront : byte ',' ∉ named s gap (registerText r) := by
    have hdigits : byte ',' ∉ r.digits := comma_not_mem_number (.decimal r)
    simp only [named, registerText, gapText, List.mem_append]
    rintro (((h | h) | h) | h | h)
    · exact absurd h (by decide)
    · exact hs h
    · exact absurd (List.eq_of_mem_replicate h) (by decide)
    · exact absurd h (by decide)
    · exact hdigits h
  have hline : named s gap (registerText r ++ (ascii "," ++ bs) ++ w) ++ t =
      named s gap (registerText r) ++ byte ',' :: (bs ++ (w ++ t)) := by
    simp only [named, List.append_assoc]
    rfl
  rw [hline, wordBehindComma, behind_append hfront, splitWord_append hbs hw.ne_nil hw.noBlank ht]

/-- What follows the number sign of a register that all the rest of the line is taken for. -/
lemma behind_show {op : Unary} (hop : takesRest op = true) (r : Register) (t : Bytes) :
    behind '#' (named op.mnemonic 0 (registerText r) ++ t) = r.digits ++ t := by
  have hfront : byte '#' ∉ ascii "\t" ++ ascii op.mnemonic ++ gapText 0 := by
    cases op with
    | printInt | printText | shell => decide
    | _ => exact absurd hop (by decide)
  have hline : named op.mnemonic 0 (registerText r) ++ t =
      (ascii "\t" ++ ascii op.mnemonic ++ gapText 0) ++ byte '#' :: (r.digits ++ t) := by
    simp only [named, registerText, List.append_assoc]
    rfl
  rw [hline, behind_append hfront]

/-! ## Warnings about operands -/

variable {bound : Nat}

/-- A written number of at most 32 bits gives no warning, whichever way it is recognised. -/
lemma Number.ofNumber_text (n : Number bound) (hb : bound ≤ 0xFFFFFFFF) :
    Warning.ofNumber n.text = [] := by
  cases n with
  | decimal d =>
    rw [Warning.ofNumber, text, Quantity.beginsWith_decimal "0x" d.isDecimal.2 (by decide)]
    exact Warning.ofDecimal_digits d.isDecimal
  | hex h => exact Warning.ofHex_digits h.isHex (Nat.le_trans h.le_bound hb)

/-- The number of a service gives no warning when it is read. -/
lemma Number.service_text (n : Number 255) :
    (if mentionsHex n.text then Warning.ofHex n.text else Warning.ofDecimal n.text) = [] := by
  cases n with
  | decimal d =>
    rw [text, mentionsHex_decimal d.isDecimal.2]
    exact Warning.ofDecimal_digits d.isDecimal
  | hex h => exact Warning.ofHex_digits h.isHex (Nat.le_trans h.le_bound (by decide))

/-- A word operand gives no warning when it is read. -/
lemma Operand.targetWarnings_text (o : Operand) : targetWarnings o.text o.target = [] := by
  cases o with
  | label name => rfl
  | number n =>
    cases n with
    | decimal d =>
      have hmark := not_isPrefixOf_decimal d.isDecimal.2
      simp [text, Number.text, target, targetWarnings, hmark]
    | hex h =>
      have hread := Warning.ofHex_digits h.isHex (Nat.le_trans h.le_bound (by decide))
      simp only [text, Number.text, target, targetWarnings, isPrefixOf_hex, if_true, hread]

/-! ## Warnings about instructions -/

/-- The register that all the rest of the line is taken for. -/
def Instr.shown? : Instr → Option Register
  | unary op r => if takesRest op then some r else none
  | _ => none

/-- Names of branches are words. -/
lemma branch_mnemonic (op : Branch) :
    ascii op.mnemonic ≠ [] ∧ ∀ b ∈ ascii op.mnemonic, isBlank b = false := by
  cases op <;> decide +kernel

/-- A branch gives no warning. -/
lemma warningsOf_branch {line : Bytes} {o : Operand} (hline : secondWord line = o.text) (op : Branch) :
    warningsOf line (.branch op o.target) = [] := by
  have hread := o.targetWarnings_text
  rw [← hline] at hread
  cases o with
  | label name =>
    rw [Operand.target, warningsOf]
    exact List.append_eq_nil_iff.2 ⟨hread, rfl⟩
  | number n =>
    rw [Operand.target, warningsOf]
    exact List.append_eq_nil_iff.2
      ⟨hread, Warning.ofWritten_word [] (List.forall_mem_nil _) n.value_le⟩

/-- A register with nothing behind it gives no warning. -/
lemma ofDecimal_registers (rs : List Register) :
    (rs.flatMap fun r => Warning.ofDecimal (r.digits ++ [])) = [] := by
  rw [List.flatMap_eq_nil_iff]
  intro r _
  rw [List.append_nil]
  exact Warning.ofDecimal_digits r.isDecimal

/-- **The warnings about an instruction**, whichever way its commas are written and whatever stands
behind it and a blank: none, unless it is one that takes all the rest of the line for the number of its
register.

**Proof sketch.** The number that a warning could be about is read from the last operand alone, since
that ends at the blank. It is a numeral and nothing else, and its bytes are written as characters below
256. -/
theorem Instr.lineWarnings_laid (gap : Nat) {sep sep' t : Bytes} (hsep : IsComma sep)
    (hsep' : IsComma sep') (i : Instr) (hsize : (Code.instr i).size < 65536) (ht : Ends t) :
    lineWarnings (i.laid gap sep sep' ++ t) =
      i.shown?.toList.flatMap fun r => Warning.ofDecimal (r.digits ++ t) := by
  have hwritten (rs : List Register) : Warning.ofWritten (rs.map registerQuantity) = [] := by
    have hmap : rs.map registerQuantity = (rs.map Decimal.value).map .ofNat := by
      simp [registerQuantity]
    rw [hmap]
    apply Warning.ofWritten_ofNat
    intro n hn
    obtain ⟨r, -, rfl⟩ := List.mem_map.1 hn
    exact r.le_bound
  have hword (r : Register) {v : Nat} (hv : v ≤ 65535) :
      Warning.ofWritten [registerQuantity r, (Quantity.ofNat v).low, (Quantity.ofNat v).high] = [] :=
    Warning.ofWritten_word [r.value] (List.forall_mem_singleton.2 r.le_bound) hv
  rw [lineWarnings, i.parse_laid gap hsep hsep' ht]
  cases i with
  | plain op => rfl
  | unary op r =>
    rw [statement, warningsOf, show Warning.ofWritten [registerQuantity r] = [] from hwritten [r],
      List.append_nil, laid, shown?]
    cases hop : takesRest op with
    | true => simp [behind_show hop]
    | false => rfl
  | binary op a b => exact hwritten [a, b]
  | ternary op d a b => exact hwritten [d, a, b]
  | goto o =>
    exact warningsOf_branch (secondWord_named (by decide) (by decide +kernel) gap (isWord_operand o) ht) _
  | branch op o =>
    obtain ⟨hne, hblank⟩ := branch_mnemonic op
    exact warningsOf_branch (secondWord_named hne hblank gap (isWord_operand o) ht) op
  | store r v =>
    have hread := v.targetWarnings_text
    rw [statement, laid]
    rw [← wordBehindComma_named (s := "store") (by decide) gap r hsep (isWord_operand v) ht] at hread
    cases v with
    | label name =>
      rw [Operand.target, warningsOf]
      exact List.append_eq_nil_iff.2 ⟨hread, hwritten [r]⟩
    | number n =>
      rw [Operand.target, warningsOf, hword r n.value_le, ite_self]
      exact List.append_eq_nil_iff.2 ⟨hread, rfl⟩
  | compare r n =>
    rw [statement, warningsOf, laid, wordBehindComma_named (by decide) gap r hsep (isWord_number n) ht,
      n.ofNumber_text (by decide)]
    exact hword r n.value_le
  | literal op r s =>
    have hlength : (literalBytes op s).length ≤ 65535 := by
      simp only [Code.size, Code.encode, resolve, Instruction.encode, Instruction.operandBytes,
        List.length_cons, List.length_append] at hsize
      omega
    exact hword r hlength

/-- A call of a service gives no warning, whatever stands behind it and a blank. -/
lemma lineWarnings_service (n : Number 255) (gap : Nat) {t : Bytes} (ht : Ends t) :
    lineWarnings ((Code.service n).text gap ++ t) = [] := by
  have hw := isWord_number n
  have hword : secondWord ((Code.service n).text gap ++ t) = n.text :=
    secondWord_named (s := "syscall") (by decide) (by decide +kernel) gap hw ht
  have hwritten : Warning.ofWritten [.ofNat n.value] = [] :=
    Warning.ofWritten_ofNat [n.value] (List.forall_mem_singleton.2 n.value_le)
  rw [lineWarnings, parse_serviceText n gap ht, Code.statement, warningsOf, hword, n.service_text,
    hwritten]
  rfl

/-! ## Warnings about data -/

/-- The item that a number of a data line is, with blanks before it. -/
lemma items_number {bs : Bytes} (hbs : ∀ b ∈ bs, isBlank b = true) (n : Number 255) :
    items (bs ++ n.text) = [n.item] := by
  change ((fields (byte ',') _).map Bytes.trim).filterMap itemOf = _
  rw [fields_of_not_mem (comma_not_mem_blanks hbs n), List.map_singleton, trim_word hbs (isWord_number n)]
  simp [itemOf_text]

/-- Numbers of a data line give no warning, whatever blanks stand before them. -/
lemma ofItems_text {parts : List (Bytes × Number 255)} (h : ∀ q ∈ parts, ∀ b ∈ q.1, isBlank b = true) :
    Warning.ofItems (parts.map fun q => q.1 ++ q.2.text) = [] := by
  induction parts with
  | nil => rfl
  | cons q parts ih =>
    obtain ⟨bs, n⟩ := q
    have hbs : ∀ b ∈ bs, isBlank b = true := h _ List.mem_cons_self
    have hitem : n.item.value = .ofNat n.value ∧ n.item.byte = .ofNat n.value := by
      cases n <;> exact ⟨rfl, rfl⟩
    have hsmall : (Quantity.ofNat n.value).exceeds 255 = false := by
      rw [← Bool.not_eq_true, Quantity.exceeds_ofNat]
      exact Nat.not_lt.2 n.value_le
    have hwritten : Warning.ofWritten [.ofNat n.value] = [] :=
      Warning.ofWritten_ofNat [n.value] (List.forall_mem_singleton.2 n.value_le)
    rw [List.map_cons, Warning.ofItems, items_number hbs, trim_word hbs (isWord_number n),
      n.ofNumber_text (by decide)]
    simp only [hitem, hsmall, hwritten, ih fun q hq => h q (List.mem_cons_of_mem _ hq),
      Draft.character_ofNat (Nat.le_trans n.value_le (by decide))]
    rfl

/-- A data line gives no warning. -/
lemma lineWarnings_data (name : DataName) (first : Number 255) (rest : List (Number 255)) (gap : Nat) :
    lineWarnings ((Code.data name first rest).text gap) = [] := by
  let parts := (gapText gap, first) :: rest.map fun n => ([byte ' '], n)
  have hparse := (Line.code gap (.data name first rest)).parse_text
  rw [Line.text, Line.statement, Code.statement] at hparse
  have hname : ascii name.text ≠ [] ∧ ∀ b ∈ ascii name.text, isBlank b = false := by
    cases name <;> decide +kernel
  have hword : splitWord ((Code.data name first rest).text gap) =
      (ascii name.text, gapText gap ++ (first.text ++ rest.flatMap fun n => ascii ", " ++ n.text)) := by
    rw [Code.text, named, List.append_assoc, List.append_assoc]
    exact splitWord_append (List.forall_mem_singleton.2 rfl) hname.1 hname.2 (ends_gapText gap _)
  have hfields : fields (byte ',')
      (gapText gap ++ (first.text ++ rest.flatMap fun n => ascii ", " ++ n.text)) =
      parts.map fun q => q.1 ++ q.2.text := by
    have hfirst : byte ',' ∉ gapText gap ++ first.text :=
      comma_not_mem_blanks (isBlank_gapText gap) first
    have hrest : ∀ v ∈ rest.map fun n => byte ' ' :: n.text, byte ',' ∉ v := by
      intro v hv
      obtain ⟨n, -, rfl⟩ := List.mem_map.1 hv
      exact @comma_not_mem_blanks _ [byte ' '] (List.forall_mem_singleton.2 rfl) n
    have hjoin := fields_join hfirst hrest
    rw [List.flatMap_map, List.append_assoc] at hjoin
    rw [List.map_cons, List.map_map]
    exact hjoin
  rw [lineWarnings, hparse, List.map_cons, warningsOf, hword, hfields]
  refine ofItems_text fun q hq => ?_
  rcases List.mem_cons.1 hq with rfl | hq
  · exact isBlank_gapText gap
  · obtain ⟨n, -, rfl⟩ := List.mem_map.1 hq
    exact List.forall_mem_singleton.2 rfl

/-- **Lines of a program are not warned about.** -/
theorem Line.lineWarnings_text {l : Line} (hsize : l.size < 65536) : lineWarnings l.text = [] := by
  cases l with
  | label name => rw [lineWarnings, (label name).parse_text, statement, warningsOf]
  | code gap c =>
    cases c with
    | instr i =>
      have h := i.lineWarnings_laid gap isComma_space isComma_space hsize ends_nil
      rwa [i.laid_eq_text, List.append_nil, ofDecimal_registers] at h
    | service n =>
      have h := lineWarnings_service n gap ends_nil
      rwa [List.append_nil] at h
    | data name first rest => exact lineWarnings_data name first rest gap

end Source

/-! ## Warnings about sources -/

/-- The warnings about a source that is worked on to its end: those about its lines, and those about the
places that are filled in. -/
lemma Draft.warnings_of_ok {ls : List Bytes} {d d' : Draft}
    (h : statements (ls.map Statement.parse) d = .ok () d') :
    warnings ls d =
      ls.flatMap Statement.lineWarnings ++ Warning.ofFilled d'.labels d'.references.toList := by
  induction ls generalizing d with
  | nil =>
    cases h
    rfl
  | cons line ls ih =>
    obtain ⟨_, d₁, hline, hrest⟩ := Effect.of_bind_ok h
    rw [warnings, hline, List.flatMap_cons, List.append_assoc, ← ih hrest]

/-- Places give no warning when they are filled in with addresses of two bytes. -/
lemma Warning.ofFilled_eq_nil {labels : List (Bytes × Nat)} {references : List (Nat × Bytes)}
    (h : ∀ r ∈ references, ∃ a ≤ 0xFFFF, labels.lookup r.2 = some a) :
    ofFilled labels references = [] := by
  induction references with
  | nil => rfl
  | cons r references ih =>
    obtain ⟨a, ha, hlookup⟩ := h r List.mem_cons_self
    simp only [ofFilled, hlookup, if_neg (Nat.not_lt.2 ha),
      ih fun r' hr => h r' (List.mem_cons_of_mem _ hr)]
    rfl

/-- **Closed programs are assembled without a warning.**

**Proof sketch.** None of the lines is warned about, and the addresses that are filled in are not above
the size of the program. -/
theorem Source.warnings_text {p : List Line} (hp : Closed p) (hsize : size p ≤ 65535) :
    warnings (text p) = [] := by
  have hlines : (lines (text p)).flatMap Statement.lineWarnings = [] := by
    rw [lines_text, List.flatMap_map, List.flatMap_eq_nil_iff]
    intro l hl
    obtain ⟨before, behind, rfl⟩ := List.append_of_mem hl
    have hsum : size (l :: behind) = l.size + size behind := by simp [size]
    rw [size_append, hsum] at hsize
    exact Line.lineWarnings_text (by omega)
  rw [RegisterMachine.warnings, Draft.warnings_of_ok (passes hp hsize).1, hlines, List.nil_append,
    references_drafted]
  apply Warning.ofFilled_eq_nil
  intro r hr
  obtain ⟨q, hq, rfl⟩ := List.mem_map.1 hr
  exact ⟨_, Nat.le_trans (address_le p q.2) hsize, lookup_drafted hp (mem_references_of_mem_places hq)⟩

end RegisterMachine
