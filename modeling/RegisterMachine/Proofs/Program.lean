import RegisterMachine.Proofs.Forms
import RegisterMachine.Proofs.Rounding

/-!
# Source programs

The assembly language as a user writes it: labels, instructions and data, each on a line of its
own, with numbers in decimal or hexadecimal notation. The notation is part of a program, so a
program is what its author wrote and not only what it means; numerals, names and text constants
carry the proof that they are well formed.

A line of code begins with a tab. There is at least one blank behind the name of an operation, and
one behind each comma.

## Main definitions

* `Source.Decimal`, `Source.Hex`, `Source.Number` — written numbers up to a bound.
* `Source.Name`, `Source.Text` — names of labels, and text constants.
* `Source.Instr`, `Source.Code`, `Source.Line` — instructions, lines of code, and all lines.
* `Source.Line.text`, `Source.text` — what is written.
* `Source.Line.statement` — what is meant.

## Main results

* `Source.Line.parse_text` — a line states what is meant by it.
* `Source.lines_text` — a program consists of its lines.
-/

namespace RegisterMachine.Source

open Statement Scan

/-! ## Numbers, names and texts -/

/-- A decimal numeral of a number up to a bound. Zeros may stand in front. -/
structure Decimal (bound : Nat) where
  /-- The digits. -/
  digits : Bytes
  /-- There is at least one digit and nothing else. -/
  isDecimal : Numeral.IsDecimal digits
  /-- The number is not above the bound. -/
  le_bound : Numeral.ofDigits digits ≤ bound
  deriving DecidableEq

/-- The digits of a hexadecimal numeral of a number up to a bound, in letters of either case. -/
structure Hex (bound : Nat) where
  /-- The digits. -/
  digits : Bytes
  /-- There is at least one digit and nothing else. -/
  isHex : Numeral.IsHex digits
  /-- The number is not above the bound. -/
  le_bound : Numeral.ofHex digits ≤ bound
  deriving DecidableEq

/-- A written number up to a bound. -/
inductive Number (bound : Nat) where
  | decimal (d : Decimal bound)
  | hex (h : Hex bound)
  deriving DecidableEq

variable {bound : Nat}

/-- The number that a decimal numeral spells. -/
def Decimal.value (d : Decimal bound) : Nat := Numeral.ofDigits d.digits

/-- What is written for a number: `0x` marks a hexadecimal one. -/
def Number.text : Number bound → Bytes
  | decimal d => d.digits
  | hex h => ascii "0x" ++ h.digits

/-- The number that is written. -/
def Number.value : Number bound → Nat
  | decimal d => d.value
  | hex h => Numeral.ofHex h.digits

lemma Number.value_le (n : Number bound) : n.value ≤ bound := by
  cases n with
  | decimal d => exact d.le_bound
  | hex h => exact h.le_bound

/-- The bytes that a name may begin with: letters and the underscore. -/
def isNameStart (b : UInt8) : Bool :=
  (byte 'a' ≤ lowerCase b && lowerCase b ≤ byte 'z') || b == byte '_'

/-- The bytes of a name: letters, digits and the underscore. -/
def isNameByte (b : UInt8) : Bool := isNameStart b || isDigit b

/-- The name of a label. -/
structure Name where
  /-- The name as it is written. -/
  text : Bytes
  /-- It begins with a letter or an underscore. -/
  start : text.head?.any isNameStart = true
  /-- It has letters, digits and underscores only. -/
  all : text.all isNameByte = true
  deriving DecidableEq

/-- A text constant: there is no way to write a double quote or a newline in it. -/
structure Text where
  /-- What stands between the quotes. -/
  bytes : Bytes
  /-- There is no double quote. -/
  noQuote : byte quote ∉ bytes
  /-- There is no newline. -/
  noNewline : byte '\n' ∉ bytes
  deriving DecidableEq

/-- A register: a number sign and a decimal number of one byte. -/
abbrev Register := Decimal 255

/-- A word operand: a number of two bytes, or the address of a label. -/
inductive Operand where
  | number (n : Number 65535)
  | label (name : Name)
  deriving DecidableEq

/-! ## Lines -/

/-- An instruction as it is written. -/
inductive Instr where
  | plain (op : Plain)
  | unary (op : Unary) (reg : Register)
  | binary (op : Binary) (first second : Register)
  | ternary (op : Ternary) (dest left right : Register)
  /-- A jump under its other name. -/
  | goto (target : Operand)
  | branch (op : Branch) (target : Operand)
  | store (reg : Register) (value : Operand)
  | compare (reg : Register) (value : Number 65535)
  | literal (op : Literal) (reg : Register) (text : Text)
  deriving DecidableEq

/-- The names of a data line. -/
inductive DataName where
  | db
  | data
  | capitalDb
  | capitalData
  deriving DecidableEq

/-- A line of code. -/
inductive Code where
  | instr (i : Instr)
  /-- A call of a service of the host. -/
  | service (number : Number 255)
  /-- Bytes as they stand, at least one. -/
  | data (name : DataName) (first : Number 255) (rest : List (Number 255))
  deriving DecidableEq

/-- A line of a program: a label, or code with `gap` more blanks than one behind its name. -/
inductive Line where
  | label (name : Name)
  | code (gap : Nat) (c : Code)
  deriving DecidableEq

/-! ## What is written -/

/-- What is written for a register. -/
def registerText (r : Register) : Bytes := ascii "#" ++ r.digits

/-- What is written for a word operand. -/
def Operand.text : Operand → Bytes
  | number n => n.text
  | label name => name.text

/-- What is written for a text constant. -/
def Text.text (t : Text) : Bytes := ascii "\"" ++ t.bytes ++ ascii "\""

/-- What is written for a name of a data line. -/
def DataName.text : DataName → String
  | db => "db"
  | data => "data"
  | capitalDb => "DB"
  | capitalData => "DATA"

/-- A line with a name and operands, and `gap` more blanks than one between them. -/
def named (name : String) (gap : Nat) (operands : Bytes) : Bytes :=
  ascii "\t" ++ ascii name ++ gapText gap ++ operands

/-- What is written for an instruction. Those that show a register admit one blank only. -/
def Instr.text (gap : Nat) : Instr → Bytes
  | plain op => ascii "\t" ++ ascii op.mnemonic
  | unary op r => named op.mnemonic (if takesRest op then 0 else gap) (registerText r)
  | binary op a b => named op.mnemonic gap (registerText a ++ ascii ", " ++ registerText b)
  | ternary op d a b =>
    named op.mnemonic gap
      (registerText d ++ ascii ", " ++ registerText a ++ ascii ", " ++ registerText b)
  | goto t => named "goto" gap t.text
  | branch op t => named op.mnemonic gap t.text
  | store r v => named "store" gap (registerText r ++ ascii ", " ++ v.text)
  | compare r n => named "cmp" gap (registerText r ++ ascii ", " ++ n.text)
  | literal op r t => named op.mnemonic gap (registerText r ++ ascii ", " ++ t.text)

/-- What is written for an instruction with given commas between its operands. -/
def Instr.laid (gap : Nat) (sep sep' : Bytes) : Instr → Bytes
  | plain op => ascii "\t" ++ ascii op.mnemonic
  | unary op r => named op.mnemonic (if takesRest op then 0 else gap) (registerText r)
  | binary op a b => named op.mnemonic gap (registerText a ++ sep ++ registerText b)
  | ternary op d a b =>
    named op.mnemonic gap (registerText d ++ sep ++ registerText a ++ sep' ++ registerText b)
  | goto t => named "goto" gap t.text
  | branch op t => named op.mnemonic gap t.text
  | store r v => named "store" gap (registerText r ++ sep ++ v.text)
  | compare r n => named "cmp" gap (registerText r ++ sep ++ n.text)
  | literal op r t => named op.mnemonic gap (registerText r ++ sep ++ t.text)

/-- Usually there is a blank behind each comma. -/
lemma Instr.laid_eq_text (gap : Nat) (i : Instr) : i.laid gap (ascii ", ") (ascii ", ") = i.text gap := by
  cases i <;> rfl

/-- What is written for a line of code. -/
def Code.text (gap : Nat) : Code → Bytes
  | instr i => i.text gap
  | service n => named "syscall" gap n.text
  | data name first rest =>
    named name.text gap (first.text ++ rest.flatMap fun n => ascii ", " ++ n.text)

/-- What is written for a line. -/
def Line.text : Line → Bytes
  | label name => ascii ":" ++ name.text
  | code gap c => c.text gap

/-- What is written for a program: its lines, each with a newline behind it. -/
def text (p : List Line) : Bytes := p.flatMap fun l => l.text ++ ascii "\n"

/-! ## What is meant -/

/-- The register that is meant. -/
def registerQuantity (r : Register) : Quantity := .ofNat r.value

/-- The target that is meant. -/
def Operand.target : Operand → Target
  | number n => .number (.ofNat n.value)
  | label name => .label name.text

/-- The byte of a data line that is meant. -/
def Number.item : Number bound → Item
  | decimal d => { value := .ofNat d.value, byte := .ofNat d.value, text := d.digits }
  | hex h =>
    { value := .ofNat (Numeral.ofHex h.digits)
      byte := .ofNat (Numeral.ofHex h.digits)
      text := (Quantity.ofNat (Numeral.ofHex h.digits)).written }

/-- The bytes of a text constant in the code. Only a stored one has its newlines and tabs written
with a backslash. -/
def literalBytes : Literal → Text → Bytes
  | .store, t => unescape t.bytes
  | .compare, t => t.bytes

/-- What an instruction states. -/
def Instr.statement : Instr → Statement
  | plain op => .plain op
  | unary op r => .unary op (registerQuantity r)
  | binary op a b => .binary op (registerQuantity a) (registerQuantity b)
  | ternary op d a b =>
    .ternary op (registerQuantity d) (registerQuantity a) (registerQuantity b)
  | goto t => .branch .jump t.target
  | branch op t => .branch op t.target
  | store r v => .immediate .store (registerQuantity r) v.target
  | compare r n => .immediate .compare (registerQuantity r) (.number (.ofNat n.value))
  | literal op r t => .literal op (registerQuantity r) (literalBytes op t)

/-- What a line of code states. -/
def Code.statement : Code → Statement
  | instr i => i.statement
  | service n => .service (.ofNat n.value)
  | data _ first rest => .data ((first :: rest).map Number.item)

/-- What a line states. -/
def Line.statement : Line → Statement
  | label name => .label name.text
  | code _ c => c.statement

/-! ## Operands are words -/

/-- A text that can stand as a last operand by itself: it has no blanks, and does not begin like a
text constant or a register. -/
structure IsWord (w : Bytes) : Prop where
  /-- It is not empty. -/
  ne_nil : w ≠ []
  /-- It has no blanks. -/
  noBlank : ∀ b ∈ w, isBlank b = false
  /-- It does not begin with a double quote or a number sign. -/
  start : ∀ b ∈ w.head?, b ≠ byte quote ∧ b ≠ byte '#'

/-- A byte that is no blank is not a newline either. -/
lemma newline_not_mem {w : Bytes} (h : ∀ b ∈ w, isBlank b = false) : byte '\n' ∉ w := by
  intro hmem
  exact absurd (h _ hmem) (by decide)

lemma isWord_decimal (d : Decimal bound) : IsWord d.digits where
  ne_nil := d.isDecimal.1
  noBlank b hb := isBlank_of_isDigit b (d.isDecimal.2 b hb)
  start b hb := by
    have hs : ∀ b : UInt8, isDigit b = true → b ≠ byte quote ∧ b ≠ byte '#' :=
      forall_byte (by decide +kernel)
    exact hs b (d.isDecimal.2 b (List.mem_of_mem_head? hb))

lemma isWord_hex (h : Hex bound) : IsWord (ascii "0x" ++ h.digits) where
  ne_nil := by simp [ascii]
  noBlank b hb := by
    rcases List.mem_append.1 hb with hb | hb
    · have hs : ∀ c ∈ ascii "0x", isBlank c = false :=
        List.forall_mem_cons.2 ⟨rfl, List.forall_mem_singleton.2 rfl⟩
      exact hs b hb
    · exact isBlank_of_hexValue? b (h.isHex.2 b hb)
  start b hb := by
    obtain rfl : byte '0' = b := by simpa [ascii] using hb
    decide

lemma isWord_number (n : Number bound) : IsWord n.text := by
  cases n with
  | decimal d => exact isWord_decimal d
  | hex h => exact isWord_hex h

/-- The first byte of a name. -/
lemma Name.exists_cons (name : Name) : ∃ b u, name.text = b :: u ∧ isNameStart b = true := by
  have h := name.start
  cases ht : name.text with
  | nil => simp [ht] at h
  | cons b u => exact ⟨b, u, rfl, by simpa [ht] using h⟩

/-- The bytes of a name are neither blanks nor signs. -/
lemma isNameByte_spec : ∀ b : UInt8, isNameByte b = true →
    isBlank b = false ∧ b ≠ byte quote ∧ b ≠ byte '#' :=
  forall_byte (by decide +kernel)

lemma isWord_name (name : Name) : IsWord name.text where
  ne_nil := by
    obtain ⟨b, u, h, -⟩ := name.exists_cons
    simp [h]
  noBlank b hb := (isNameByte_spec b (List.all_eq_true.1 name.all b hb)).1
  start b hb :=
    (isNameByte_spec b (List.all_eq_true.1 name.all b (List.mem_of_mem_head? hb))).2

lemma isWord_operand (o : Operand) : IsWord o.text := by
  cases o with
  | number n => exact isWord_number n
  | label name => exact isWord_name name

/-! ## Operands are read as they are meant -/

lemma readCharacter_register (r : Register) :
    Quantity.readCharacter r.digits = registerQuantity r :=
  Quantity.readCharacter_decimal r.isDecimal (Nat.lt_of_le_of_lt r.le_bound (by decide))

/-- A register is read as it is meant, whatever stands behind it and a blank. -/
lemma readCharacter_register_append (r : Register) {t : Bytes} (ht : Ends t) :
    Quantity.readCharacter (r.digits ++ t) = registerQuantity r :=
  Quantity.readCharacter_append r.isDecimal ht (Nat.lt_of_le_of_lt r.le_bound (by decide))

/-- Nothing but digits does not begin with the mark of a hexadecimal number. -/
lemma not_isPrefixOf_decimal {t : Bytes} (h : ∀ b ∈ t, isDigit b = true) :
    (ascii "0x").isPrefixOf t = false := by
  rw [Bool.eq_false_iff]
  intro hp
  have hmem : byte 'x' ∈ t := (List.isPrefixOf_iff_prefix.1 hp).subset (by decide)
  exact absurd (h _ hmem) (by decide)

/-- A hexadecimal number begins with its mark. -/
lemma isPrefixOf_hex (t : Bytes) : (ascii "0x").isPrefixOf (ascii "0x" ++ t) = true := by
  rw [List.isPrefixOf_iff_prefix]
  exact List.prefix_append _ _

/-- A word operand names the target that is meant. -/
lemma target_text (o : Operand) : target o.text = o.target := by
  cases o with
  | number n =>
    cases n with
    | decimal d =>
      have hall : d.digits.all isDigit = true := List.all_eq_true.2 d.isDecimal.2
      have hlt : Numeral.ofDigits d.digits < 2 ^ 64 := Nat.lt_of_le_of_lt d.le_bound (by decide)
      simp only [Operand.text, Number.text, target, not_isPrefixOf_decimal d.isDecimal.2, hall,
        Quantity.read_decimal d.isDecimal hlt]
      rfl
    | hex h =>
      have hlt : Numeral.ofHex h.digits < 2 ^ 64 := Nat.lt_of_le_of_lt h.le_bound (by decide)
      simp only [Operand.text, Number.text, target, isPrefixOf_hex, if_true,
        Quantity.readHex_hex h.isHex hlt]
      rfl
  | label name =>
    obtain ⟨b, u, ht, hb⟩ := name.exists_cons
    -- the first byte of a name is no digit, so the name is no number of either kind
    have hs : ∀ b : UInt8, isNameStart b = true → isDigit b = false ∧ b ≠ byte '0' :=
      forall_byte (by decide +kernel)
    have hfront : (ascii "0x").isPrefixOf name.text = false := by
      rw [ht, Bool.eq_false_iff]
      intro hp
      obtain ⟨v, hv⟩ := List.isPrefixOf_iff_prefix.1 hp
      exact (hs b hb).2 (List.cons.inj hv).1.symm
    have hdigits : name.text.all isDigit = false := by simp [ht, (hs b hb).1]
    simp [Operand.text, Operand.target, target, hfront, hdigits]

/-- A number is read as it is meant where there is no label. -/
lemma number_text {n : Number bound} (hb : bound < 2 ^ 53) : number n.text = .ofNat n.value := by
  cases n with
  | decimal d =>
    have hlt : Numeral.ofDigits d.digits < 2 ^ 64 :=
      Nat.lt_of_le_of_lt d.le_bound (Nat.lt_trans hb (by decide))
    simp only [Number.text, number, Quantity.beginsWith_decimal "0x" d.isDecimal.2 (by decide),
      Quantity.read_decimal d.isDecimal hlt]
    rfl
  | hex h =>
    have hlt : Numeral.ofHex h.digits < 2 ^ 64 :=
      Nat.lt_of_le_of_lt h.le_bound (Nat.lt_trans hb (by decide))
    have hmark : Quantity.beginsWith "0x" (ascii "0x" ++ h.digits) = true := rfl
    simp only [Number.text, number, hmark, if_true, Quantity.readHex_hex h.isHex hlt]
    rfl

/-- Nothing but digits has no mark of a hexadecimal number in it. -/
lemma mentionsHex_decimal {t : Bytes} (h : ∀ b ∈ t, isDigit b = true) : mentionsHex t = false := by
  induction t with
  | nil => rfl
  | cons b t ih =>
    rw [mentionsHex, Quantity.beginsWith_decimal "0x" h (by decide),
      ih fun c hc => h c (by simp [hc]), Bool.or_false]

/-- The number of a service is read as it is meant. -/
lemma serviceNumber_text (n : Number 255) : serviceNumber n.text = .ofNat n.value := by
  cases n with
  | decimal d =>
    simp only [Number.text, serviceNumber, mentionsHex_decimal d.isDecimal.2]
    exact readCharacter_register d
  | hex h =>
    have hlt : Numeral.ofHex h.digits < 2 ^ 64 := Nat.lt_of_le_of_lt h.le_bound (by decide)
    have hmark : mentionsHex (ascii "0x" ++ h.digits) = true := rfl
    simp only [Number.text, serviceNumber, hmark, if_true, Quantity.readHex_hex h.isHex hlt]
    rfl

/-- A word is what is left when the blanks before it are taken away. -/
lemma trim_word {bs w : Bytes} (hbs : ∀ b ∈ bs, isBlank b = true) (h : IsWord w) :
    Bytes.trim (bs ++ w) = w := by
  have hfront : (bs ++ w).dropWhile isBlank = w := by
    have hs : Stops isBlank (w ++ []) := stops_isBlank_word h.ne_nil h.noBlank
    rw [List.append_nil] at hs
    exact dropWhile_append_of_stop hbs hs
  have hback : w.reverse.dropWhile isBlank = w.reverse := by
    have hne : w.reverse ≠ [] := by simpa using h.ne_nil
    have hall : ∀ b ∈ w.reverse, isBlank b = false := fun b hb => h.noBlank b (by simpa using hb)
    have hs : Stops isBlank (w.reverse ++ []) := stops_isBlank_word hne hall
    simpa using @dropWhile_append_of_stop isBlank [] _ (by simp) hs
  rw [Bytes.trim, hfront, hback, List.reverse_reverse]

/-- The item of a data line that a word names, if it is not empty. -/
def itemOf (w : Bytes) : Option Item :=
  if w.isEmpty then none
  else if Quantity.beginsWith "0x" w then
    let q := Quantity.readHex w
    some { value := q, byte := q, text := q.written }
  else some { value := Quantity.read w, byte := Quantity.readByte w, text := w }

/-- A number of a data line is read as it is meant. -/
lemma itemOf_text (n : Number 255) : itemOf n.text = some n.item := by
  have hne : n.text.isEmpty = false := by simpa using (isWord_number n).ne_nil
  rw [itemOf, hne, if_neg (by decide)]
  cases n with
  | decimal d =>
    have hlt : Numeral.ofDigits d.digits < 2 ^ 64 := Nat.lt_of_le_of_lt d.le_bound (by decide)
    simp only [Number.text, Quantity.beginsWith_decimal "0x" d.isDecimal.2 (by decide),
      Quantity.read_decimal d.isDecimal hlt, Quantity.readByte_decimal d.isDecimal hlt]
    rfl
  | hex h =>
    have hlt : Numeral.ofHex h.digits < 2 ^ 64 := Nat.lt_of_le_of_lt h.le_bound (by decide)
    have hmark : Quantity.beginsWith "0x" (ascii "0x" ++ h.digits) = true := rfl
    simp only [Number.text, hmark, if_true, Quantity.readHex_hex h.isHex hlt]
    rfl

/-- A number has no comma in it. -/
lemma comma_not_mem_number (n : Number bound) : byte ',' ∉ n.text := by
  intro hmem
  cases n with
  | decimal d => exact absurd (d.isDecimal.2 _ hmem) (by decide)
  | hex h =>
    rcases List.mem_append.1 hmem with hmem | hmem
    · exact absurd hmem (by decide)
    · exact absurd (h.isHex.2 _ hmem) (by decide)

lemma comma_not_mem_blanks {bs : Bytes} (hbs : ∀ b ∈ bs, isBlank b = true) (n : Number bound) :
    byte ',' ∉ bs ++ n.text := by
  rw [List.mem_append]
  rintro (h | h)
  · exact absurd (hbs _ h) (by decide)
  · exact comma_not_mem_number n h

/-- The numbers of a data line are read as they are meant. -/
lemma items_text (first : Number 255) (rest : List (Number 255)) :
    items (first.text ++ rest.flatMap fun n => ascii ", " ++ n.text) =
      (first :: rest).map Number.item := by
  have hjoin : (rest.flatMap fun n => ascii ", " ++ n.text) =
      (rest.map fun n => byte ' ' :: n.text).flatMap (byte ',' :: ·) := by
    rw [List.flatMap_map]
    rfl
  have hcomma : ∀ v ∈ rest.map fun n => byte ' ' :: n.text, byte ',' ∉ v := by
    intro v hv
    obtain ⟨n, -, rfl⟩ := List.mem_map.1 hv
    exact @comma_not_mem_blanks _ [byte ' '] (List.forall_mem_singleton.2 rfl) n
  have hitems : ∀ ns : List (Number 255), (ns.map Number.text).filterMap itemOf =
      ns.map Number.item := by
    intro ns
    induction ns with
    | nil => rfl
    | cons n ns ih => rw [List.map_cons, List.filterMap_cons, itemOf_text, ih, List.map_cons]
  have hfirst : Bytes.trim first.text = first.text :=
    trim_word (List.forall_mem_nil _) (isWord_number first)
  have hrest (n : Number 255) : Bytes.trim (byte ' ' :: n.text) = n.text :=
    @trim_word [byte ' '] _ (List.forall_mem_singleton.2 rfl) (isWord_number n)
  have htrim : (first.text :: rest.map fun n => byte ' ' :: n.text).map Bytes.trim =
      (first :: rest).map Number.text := by
    simp [hfirst, hrest]
  change ((fields (byte ',') _).map Bytes.trim).filterMap itemOf = _
  rw [hjoin, fields_join (comma_not_mem_number first) hcomma, htrim, hitems]

/-! ## Lines are read as they are meant -/

lemma isComma_space : IsComma (ascii ", ") := Or.inr rfl

/-- **An instruction states what is meant by it**, whichever way its commas are written and whatever
stands behind it and a blank.

**Proof sketch.** Where the last operand is a register, a word or a text, it ends at the blank or at
its quote. Where it is all the rest of the line, only the number at the front of that counts. -/
theorem Instr.parse_laid (gap : Nat) {sep sep' t : Bytes} (hsep : IsComma sep)
    (hsep' : IsComma sep') (i : Instr) (ht : Ends t) :
    parse (i.laid gap sep sep' ++ t) = i.statement := by
  cases i with
  | plain op => exact parse_plain op t
  | unary op r =>
    cases hop : takesRest op with
    | true =>
      have h := parse_show hop (r.digits ++ t)
      rw [readCharacter_register_append r ht] at h
      have hblank : gapText 0 ++ (ascii "#" ++ (r.digits ++ t)) = ascii " #" ++ (r.digits ++ t) := rfl
      simpa only [laid, statement, hop, if_true, named, registerText, List.append_assoc, hblank]
        using h
    | false =>
      have h := parse_unary hop gap r.isDecimal ht
      rw [readCharacter_register] at h
      simpa only [laid, statement, hop, Bool.false_eq_true, if_false, named, registerText,
        List.append_assoc] using h
  | binary op a b =>
    have hregisters (s : String) : named s gap (registerText a ++ sep ++ registerText b) ++ t =
        registerFront s gap a.digits sep (ascii "#" ++ (b.digits ++ t)) := by
      simp only [named, registerText, registerFront, List.append_assoc]
    simp only [laid, statement, ← readCharacter_register, hregisters]
    cases op with
    | compare => exact parse_compareRegisters gap a.isDecimal hsep b.isDecimal ht
    | copy => exact parse_storeRegister gap a.isDecimal hsep b.isDecimal ht
    | peek => exact parse_memory (Or.inl rfl) gap hsep a.isDecimal b.isDecimal ht
    | poke => exact parse_memory (Or.inr rfl) gap hsep a.isDecimal b.isDecimal ht
  | ternary op d a b =>
    have h := parse_ternary op gap hsep hsep' d.isDecimal a.isDecimal b.isDecimal ht
    simp only [readCharacter_register] at h
    simpa only [laid, statement, named, registerText, List.append_assoc] using h
  | goto o =>
    have hw := isWord_operand o
    have h := parse_goto gap hw.ne_nil hw.noBlank ht
    rw [target_text] at h
    simpa only [laid, statement, named, List.append_assoc] using h
  | branch op o =>
    have hw := isWord_operand o
    have h := parse_branch op gap hw.ne_nil hw.noBlank ht
    rw [target_text] at h
    simpa only [laid, statement, named, List.append_assoc] using h
  | store r v =>
    have hw := isWord_operand v
    obtain ⟨b, u, hv⟩ := List.exists_cons_of_ne_nil hw.ne_nil
    have hstart := hw.start b (by simp [hv])
    have h := parse_storeWord gap r.isDecimal hsep (hv ▸ hw.noBlank) hstart.1 hstart.2 ht
    rw [← hv, target_text, readCharacter_register] at h
    simpa only [laid, statement, named, registerText, registerFront, List.append_assoc] using h
  | compare r n =>
    have hw := isWord_number n
    obtain ⟨b, u, hv⟩ := List.exists_cons_of_ne_nil hw.ne_nil
    have hstart := hw.start b (by simp [hv])
    have h := parse_compareWord gap r.isDecimal hsep (hv ▸ hw.noBlank) hstart.1 hstart.2 ht
    rw [← hv, number_text (by decide), readCharacter_register] at h
    simpa only [laid, statement, named, registerText, registerFront, List.append_assoc] using h
  | literal op r s =>
    have htext (m : String) : named m gap (registerText r ++ sep ++ s.text) ++ t =
        registerFront m gap r.digits sep (byte quote :: (s.bytes ++ byte quote :: t)) := by
      simp only [named, registerText, registerFront, Text.text, List.append_assoc]
      rfl
    simp only [laid, statement, htext, ← readCharacter_register]
    cases op with
    | store => exact parse_storeText gap r.isDecimal hsep s.noQuote t
    | compare => exact parse_compareText gap r.isDecimal hsep s.noQuote t

/-- An instruction states what is meant by it. -/
lemma Instr.parse_text (gap : Nat) (i : Instr) : parse (i.text gap) = i.statement := by
  have h := i.parse_laid gap isComma_space isComma_space ends_nil
  rwa [laid_eq_text, List.append_nil] at h

/-- A call of a service states what is meant by it, whatever stands behind it and a blank. -/
lemma parse_serviceText (n : Number 255) (gap : Nat) {t : Bytes} (ht : Ends t) :
    parse ((Code.service n).text gap ++ t) = (Code.service n).statement := by
  have hw := isWord_number n
  have h := parse_service gap hw.ne_nil hw.noBlank ht
  rw [serviceNumber_text] at h
  simpa only [Code.text, Code.statement, named, List.append_assoc] using h

lemma DataName.isDataName (name : DataName) : IsDataName name.text := by
  cases name with
  | db => exact Or.inl rfl
  | data => exact Or.inr (Or.inl rfl)
  | capitalDb => exact Or.inr (Or.inr (Or.inl rfl))
  | capitalData => exact Or.inr (Or.inr (Or.inr rfl))

/-- **A line states what is meant by it.** -/
theorem Line.parse_text (l : Line) : parse l.text = l.statement := by
  cases l with
  | label name => exact parse_label name.text
  | code gap c =>
    cases c with
    | instr i => exact i.parse_text gap
    | service n =>
      have h := parse_serviceText n gap ends_nil
      rwa [List.append_nil] at h
    | data name first rest =>
      have hw := isWord_number first
      have hs : Stops isBlank (first.text ++ rest.flatMap fun n => ascii ", " ++ n.text) :=
        stops_isBlank_word hw.ne_nil hw.noBlank
      have h := parse_data name.isDataName gap hs
      rw [items_text] at h
      simpa only [text, statement, Code.text, Code.statement, named, List.append_assoc] using h

/-! ## Programs consist of their lines -/

lemma newline_not_mem_register (r : Register) : byte '\n' ∉ registerText r := by
  rw [registerText, List.mem_append]
  rintro (h | h)
  · exact absurd h (by decide)
  · exact newline_not_mem (isWord_decimal r).noBlank h

/-- A line with a name has no newline if its operands have none. -/
lemma newline_not_mem_named {name : String} (gap : Nat) {operands : Bytes}
    (hname : byte '\n' ∉ ascii name) (hoperands : byte '\n' ∉ operands) :
    byte '\n' ∉ named name gap operands := by
  simp only [named, List.mem_append, gapText]
  rintro (((h | h) | h) | h)
  · exact absurd h (by decide)
  · exact hname h
  · exact absurd (List.eq_of_mem_replicate h) (by decide)
  · exact hoperands h

/-- No name of an operation has a newline in it. -/
lemma newline_not_mem_mnemonic :
    (∀ op : Plain, byte '\n' ∉ ascii op.mnemonic) ∧ (∀ op : Unary, byte '\n' ∉ ascii op.mnemonic) ∧
      (∀ op : Binary, byte '\n' ∉ ascii op.mnemonic) ∧
      (∀ op : Ternary, byte '\n' ∉ ascii op.mnemonic) ∧
      (∀ op : Branch, byte '\n' ∉ ascii op.mnemonic) ∧
      (∀ op : Literal, byte '\n' ∉ ascii op.mnemonic) := by
  refine ⟨?_, ?_, ?_, ?_, ?_, ?_⟩
  · intro op; cases op <;> decide
  · intro op; cases op <;> decide
  · intro op; cases op <;> decide
  · intro op
    cases op with
    | arith op => cases op <;> decide
    | div | concat | copyBlock => decide
  · intro op; cases op <;> decide
  · intro op; cases op <;> decide

/-- There is no newline in what is written for an instruction, nor in its commas. -/
lemma Instr.newline_not_mem_laid (gap : Nat) {sep sep' : Bytes} (hsep : IsComma sep)
    (hsep' : IsComma sep') (i : Instr) : byte '\n' ∉ i.laid gap sep sep' := by
  obtain ⟨hplain, hunary, hbinary, hternary, hbranch, hliteral⟩ := newline_not_mem_mnemonic
  have hcomma : ∀ s, IsComma s → byte '\n' ∉ s := by
    rintro s (rfl | rfl)
    · decide
    · decide
  have hs := hcomma sep hsep
  have hs' := hcomma sep' hsep'
  have hr := newline_not_mem_register
  have ho (o : Operand) : byte '\n' ∉ o.text := Source.newline_not_mem (isWord_operand o).noBlank
  cases i with
  | plain op =>
    rw [laid, List.mem_append]
    rintro (h | h)
    · exact absurd h (by decide)
    · exact hplain op h
  | unary op r => exact newline_not_mem_named _ (hunary op) (hr r)
  | binary op a b => exact newline_not_mem_named gap (hbinary op) (by simp [hr, hs])
  | ternary op d a b => exact newline_not_mem_named gap (hternary op) (by simp [hr, hs, hs'])
  | goto t => exact newline_not_mem_named gap (by decide) (ho t)
  | branch op t => exact newline_not_mem_named gap (hbranch op) (ho t)
  | store r v => exact newline_not_mem_named gap (by decide) (by simp [hr, hs, ho])
  | compare r n =>
    have hn := Source.newline_not_mem (isWord_number n).noBlank
    exact newline_not_mem_named gap (by decide) (by simp [hr, hs, hn])
  | literal op r t =>
    have ht : byte '\n' ∉ t.text := by
      have hq : byte '\n' ∉ ascii "\"" := by decide
      simp [Text.text, hq, t.noNewline]
    exact newline_not_mem_named gap (hliteral op) (by simp [hr, hs, ht])

/-- There is no newline in what is written for an instruction. -/
lemma Instr.newline_not_mem (gap : Nat) (i : Instr) : byte '\n' ∉ i.text gap := by
  rw [← laid_eq_text]
  exact i.newline_not_mem_laid gap isComma_space isComma_space

/-- There is no newline in what is written for a line. -/
lemma Line.newline_not_mem (l : Line) : byte '\n' ∉ l.text := by
  have hn (n : Number 255) := Source.newline_not_mem (isWord_number n).noBlank
  cases l with
  | label name =>
    rw [text, List.mem_append]
    rintro (h | h)
    · exact absurd h (by decide)
    · exact Source.newline_not_mem (isWord_name name).noBlank h
  | code gap c =>
    cases c with
    | instr i => exact i.newline_not_mem gap
    | service n => exact newline_not_mem_named gap (by decide) (hn n)
    | data name first rest =>
      refine newline_not_mem_named gap (by cases name <;> decide) ?_
      rw [List.mem_append, List.mem_flatMap]
      rintro (h | ⟨n, -, h⟩)
      · exact hn first h
      · rcases List.mem_append.1 h with h | h
        · exact absurd h (by decide)
        · exact hn n h

/-- **A program consists of its lines.** -/
theorem lines_text (p : List Line) : lines (text p) = p.map Line.text := by
  have hjoin : text p = (p.map Line.text).flatMap (· ++ [byte '\n']) := by
    rw [text, List.flatMap_map]
    rfl
  rw [hjoin, lines_join]
  intro w hw
  obtain ⟨l, -, rfl⟩ := List.mem_map.1 hw
  exact l.newline_not_mem

/-- A program states what is meant by its lines. -/
theorem parse_lines_text (p : List Line) :
    (lines (text p)).map parse = p.map Line.statement := by
  rw [lines_text, List.map_map]
  exact List.map_congr_left fun l _ => l.parse_text

end RegisterMachine.Source
