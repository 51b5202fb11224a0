import RegisterMachine.Proofs.Drafting
import RegisterMachine.Proofs.Entries
import RegisterMachine.Proofs.Escapes
import RegisterMachine.Proofs.Program

/-!
# Listings assembled again

A listing is source, so it can be assembled. This never fails, whatever the code was, and mostly
gives the code back. It does not if the code ends within an instruction, since the missing bytes
are filled in, and if a text constant is not read again as it was.

## Main definitions

* `Instruction.reread`, `Listing.Line.restated` — what a line of a listing states.
* `Instruction.written`, `Listing.Line.recompiled` — the bytes that the assembler makes of it.
* `Listing.Line.Faithful` — a line whose text constant, if it has one, is read again.

## Main results

* `Listing.parse_source` — a line of a listing states what it shows, up to its text constant.
* `Listing.assemble_render_eq` — what becomes of a listing.
* `Listing.recompiled_append_iff` — when a line gives back the bytes that it covers.
* `Listing.assemble_render` — when a listing gives back the code.
-/

namespace RegisterMachine

open Statement Scan

/-! ## Operands in a listing -/

/-- The numeral of a register in a listing. -/
def registerNumeral (r : UInt8) : Source.Register where
  digits := Numeral.decimal r.toNat
  isDecimal := Numeral.isDecimal_decimal r.toNat
  le_bound := by
    rw [Numeral.ofDigits_decimal]
    exact Nat.le_of_lt_succ r.toNat_lt

/-- The numeral of a word in a listing. -/
def wordNumeral (w : UInt16) : Source.Number 65535 :=
  .hex {
    digits := Numeral.hex4 w.toNat
    isHex := Numeral.isHex_hex4 w.toNat
    le_bound := by
      rw [Numeral.ofHex_hex4]
      exact Nat.le_of_lt_succ w.toNat_lt }

lemma registerQuantity_numeral (r : UInt8) :
    Source.registerQuantity (registerNumeral r) = .ofNat r.toNat := by
  rw [Source.registerQuantity, Source.Decimal.value, registerNumeral, Numeral.ofDigits_decimal]

lemma readCharacter_numeral (r : UInt8) :
    Quantity.readCharacter (registerNumeral r).digits = .ofNat r.toNat := by
  rw [Source.readCharacter_register, registerQuantity_numeral]

lemma value_wordNumeral (w : UInt16) : (wordNumeral w).value = w.toNat :=
  Numeral.ofHex_hex4 w.toNat

/-! ## What a line states -/

/-- The instruction that is read again from its line. -/
def Instruction.reread : Instruction → Instruction
  | literal op r p => literal op r (Listing.recovered op p)
  | i => i

/-- The statement of a line of a listing. -/
def Listing.Line.restated : Listing.Line → Statement
  | instruction i => i.reread.statement
  | data b => .data [(Source.Number.decimal (registerNumeral b)).item]

lemma isComma_comma : IsComma (ascii ",") := Or.inl rfl

/-- The line of a text constant: what is read ends at the first double quote. -/
lemma parse_textSource (op : Literal) (r : UInt8) (p : Bytes) :
    parse (ascii "\t" ++ (Instruction.literal op r p).source) =
      .literal op (.ofNat r.toNat) (Listing.recovered op p) := by
  obtain ⟨t, ht⟩ := Listing.exists_textSource p
  have hquote := Listing.quote_not_mem_recovered .compare p
  have hline (s : String) : ascii "\t" ++ (ascii s ++ ascii " " ++ Instruction.registerSource r ++
      ascii ", " ++ Instruction.textSource p) =
      registerFront s 0 (registerNumeral r).digits (ascii ", ")
        (byte quote :: (Listing.recovered .compare p ++ byte quote :: t)) := by
    rw [ht, registerFront]
    simp only [Instruction.registerSource, List.append_assoc, registerNumeral]
    rfl
  have hd := (registerNumeral r).isDecimal
  cases op with
  | store =>
    have h := parse_storeText 0 hd Source.isComma_space hquote t
    rw [readCharacter_numeral, ← hline] at h
    exact h
  | compare =>
    have h := parse_compareText 0 hd Source.isComma_space hquote t
    rw [readCharacter_numeral, ← hline] at h
    exact h

/-- The line of an instruction that is listed as a user would write it. -/
lemma parse_asWritten (i : Instruction) (j : Source.Instr)
    (htext : ascii "\t" ++ i.source = j.text 0) (hstatement : j.statement = i.statement) :
    parse (ascii "\t" ++ i.source) = i.statement := by
  rw [htext, j.parse_text, hstatement]

/-- **A line of a listing states what it shows**, up to its text constant.

**Proof sketch.** Most instructions are listed as a user would write them. The comparisons and the
copy of a register have no blank behind their comma. -/
theorem Listing.parse_source (l : Listing.Line) : parse (ascii "\t" ++ l.source) = l.restated := by
  cases l with
  | data b =>
    have h := (Source.Line.code 0 (.data .capitalData (.decimal (registerNumeral b)) [])).parse_text
    have htext : (Source.Line.code 0
        (.data .capitalData (.decimal (registerNumeral b)) [])).text =
        ascii "\t" ++ (ascii "DATA " ++ Numeral.decimal b.toNat) :=
      congrArg (ascii "\tDATA " ++ ·) (List.append_nil _)
    rw [htext] at h
    exact h
  | instruction i =>
    cases i with
    | plain op =>
      have h := parse_plain op []
      rw [List.append_nil] at h
      exact h
    | unary op r =>
      refine parse_asWritten (.unary op r) (.unary op (registerNumeral r)) ?_ ?_
      · simp only [Instruction.source, Source.Instr.text, ite_self, Source.named, List.append_assoc]
        rfl
      · rw [Source.Instr.statement, registerQuantity_numeral, Instruction.statement]
    | binary op a b =>
      have ha := (registerNumeral a).isDecimal
      have hb := (registerNumeral b).isDecimal
      have hline (s : String) (sep : Bytes) : ascii "\t" ++ (ascii s ++ ascii " " ++
          Instruction.registerSource a ++ sep ++ Instruction.registerSource b) =
          registerFront s 0 (registerNumeral a).digits sep
            (ascii "#" ++ ((registerNumeral b).digits ++ [])) := by
        simp only [Instruction.registerSource, registerFront, registerNumeral, List.append_assoc,
          List.append_nil]
        rfl
      cases op with
      | compare =>
        have h := parse_compareRegisters 0 ha isComma_comma hb ends_nil
        rw [readCharacter_numeral, readCharacter_numeral, ← hline] at h
        exact h
      | copy =>
        have h := parse_storeRegister 0 ha isComma_comma hb ends_nil
        rw [readCharacter_numeral, readCharacter_numeral, ← hline] at h
        exact h
      | peek =>
        have h := parse_memory (Or.inl rfl) 0 Source.isComma_space ha hb ends_nil
        rw [readCharacter_numeral, readCharacter_numeral] at h
        exact (congrArg parse (hline "peek" (ascii ", "))).trans h
      | poke =>
        have h := parse_memory (Or.inr rfl) 0 Source.isComma_space ha hb ends_nil
        rw [readCharacter_numeral, readCharacter_numeral] at h
        exact (congrArg parse (hline "poke" (ascii ", "))).trans h
    | ternary op d a b =>
      refine parse_asWritten (.ternary op d a b)
        (.ternary op (registerNumeral d) (registerNumeral a) (registerNumeral b)) ?_ ?_
      · simp only [Instruction.source, Source.Instr.text, Source.named, List.append_assoc]
        rfl
      · simp only [Source.Instr.statement, registerQuantity_numeral, Instruction.statement]
    | branch op t =>
      refine parse_asWritten (.branch op t) (.branch op (.number (wordNumeral t))) ?_ ?_
      · simp only [Instruction.source, Source.Instr.text, Source.named, List.append_assoc]
        rfl
      · simp only [Source.Instr.statement, Source.Operand.target, value_wordNumeral,
          Instruction.statement]
    | immediate op r v =>
      cases op with
      | store =>
        refine parse_asWritten (.immediate .store r v)
          (.store (registerNumeral r) (.number (wordNumeral v))) ?_ ?_
        · simp only [Instruction.source, Source.Instr.text, Source.named, List.append_assoc]
          rfl
        · simp only [Source.Instr.statement, Source.Operand.target, value_wordNumeral,
            registerQuantity_numeral, Instruction.statement]
      | compare =>
        have hw := (Source.isWord_number (wordNumeral v)).noBlank
        have hd := (registerNumeral r).isDecimal
        have h := @parse_compareWord _ _ 0 hd isComma_comma (byte '0')
          (ascii "x" ++ Numeral.hex4 v.toNat) [] hw (by decide) (by decide) ends_nil
        have hnumber := Source.number_text (n := wordNumeral v) (by decide)
        rw [value_wordNumeral] at hnumber
        have htext : ascii "\t" ++ (Instruction.immediate .compare r v).source =
            registerFront "cmp" 0 (registerNumeral r).digits (ascii ",")
              (byte '0' :: (ascii "x" ++ Numeral.hex4 v.toNat) ++ []) := by
          simp only [Instruction.source, Instruction.registerSource, Instruction.wordSource,
            registerFront, registerNumeral, List.append_assoc, List.append_nil]
          rfl
        rw [readCharacter_numeral] at h
        exact (congrArg parse htext).trans (h.trans (congrArg _ (congrArg _ hnumber)))
    | literal op r p => exact parse_textSource op r p

/-! ## Listings consist of their lines -/

namespace Listing

/-- There is no newline within a line of a listing. -/
lemma newline_not_mem_source (l : Line) : byte '\n' ∉ ascii "\t" ++ l.source := by
  obtain ⟨hplain, hunary, hbinary, hternary, hbranch, hliteral⟩ := Source.newline_not_mem_mnemonic
  have hr (r : UInt8) : byte '\n' ∉ Instruction.registerSource r :=
    Source.newline_not_mem_register (registerNumeral r)
  have hw (w : UInt16) : byte '\n' ∉ Instruction.wordSource w :=
    Source.newline_not_mem (Source.isWord_number (wordNumeral w)).noBlank
  have hb (b : UInt8) : byte '\n' ∉ Numeral.decimal b.toNat :=
    Source.newline_not_mem (Source.isWord_decimal (registerNumeral b)).noBlank
  have ht (p : Bytes) : byte '\n' ∉ Instruction.textSource p := by
    have hquote : byte '\n' ∉ ascii "\"" := by decide
    have hwritten : byte '\n' ∉ p.flatMap Instruction.escape :=
      fun h => (mem_flatMap_escape h).1 rfl
    simp only [Instruction.textSource, List.mem_append, hquote, hwritten, or_self, not_false_eq_true]
  have hfixed : ∀ s ∈ ["\t", " ", ",", ", ", "DATA ", "store ", "cmp "], byte '\n' ∉ ascii s := by
    decide
  simp only [List.forall_mem_cons] at hfixed
  obtain ⟨htab, hblank, hcomma, hcommaBlank, hdata, hstore, hcompare, -⟩ := hfixed
  rw [List.mem_append, not_or]
  refine ⟨htab, ?_⟩
  cases l with
  | data b => simp [Line.source, hb, hdata]
  | instruction i =>
    cases i with
    | plain op => exact hplain op
    | unary op r => simp [Line.source, Instruction.source, hunary, hr, hblank]
    | binary op a b =>
      have hsep : byte '\n' ∉ ascii (Instruction.separator op) := by cases op <;> decide
      simp [Line.source, Instruction.source, hbinary, hr, hblank, hsep]
    | ternary op d a b => simp [Line.source, Instruction.source, hternary, hr, hblank, hcommaBlank]
    | branch op t => simp [Line.source, Instruction.source, hbranch, hw, hblank]
    | immediate op r v =>
      cases op with
      | store => simp [Line.source, Instruction.source, hr, hw, hstore, hcommaBlank]
      | compare => simp [Line.source, Instruction.source, hr, hw, hcompare, hcomma]
    | literal op r p =>
      simp [Line.source, Instruction.source, hliteral, hr, hblank, hcommaBlank, ht]

/-- A listing states what its lines show. -/
lemma parse_lines_render (code : Bytes) :
    (lines (render false code)).map parse = (entries code).map fun e => e.line.restated := by
  have hjoin : render false code =
      ((entries code).map fun e => ascii "\t" ++ e.line.source).flatMap (· ++ [byte '\n']) := by
    rw [render, List.flatMap_map]
    rfl
  rw [hjoin, lines_join, List.map_map]
  · exact List.map_congr_left fun e _ => parse_source e.line
  · intro w hw
    obtain ⟨e, -, rfl⟩ := List.mem_map.1 hw
    exact newline_not_mem_source e.line

end Listing

/-! ## The code of a listing -/

/-- The bytes that the assembler writes for an instruction. They are its code, except that the length
of a text may take more than two bytes. -/
def Instruction.written : Instruction → Bytes
  | literal op r t => (Opcode.literal op).toByte :: r :: lengthBytes t.length ++ t
  | i => i.encode

lemma Instruction.written_eq_encode {i : Instruction}
    (hi : ∀ op r t, i = .literal op r t → t.length < 65536) : i.written = i.encode := by
  cases i with
  | literal op r t =>
    rw [written, lengthBytes_of_lt (hi op r t rfl)]
    rfl
  | plain | unary | binary | ternary | branch | immediate => rfl

/-- The statement of an instruction adds the bytes that are written for it. -/
lemma Draft.statement_written {i : Instruction}
    (hi : ∀ op r t, i = .literal op r t → t.length < 2 ^ 63) (d : Draft) :
    ∃ n, Draft.statement i.statement d = .ok () (d.extend i.written n [] []) := by
  have hshort : ∀ j : Instruction, j.encode.length < 65536 → j.written = j.encode →
      ∃ n, Draft.statement j.statement d = .ok () (d.extend j.written n [] []) := by
    intro j hj hwritten
    rw [hwritten]
    exact ⟨_, statement_instruction hj d⟩
  cases i with
  | literal op r t => exact ⟨_, statement_literal op r (hi op r t rfl) d⟩
  | plain | unary | binary | ternary | branch | immediate =>
    refine hshort _ ?_ rfl
    simp [Instruction.encode, Instruction.operandBytes, Instruction.wordBytes]

namespace Listing

/-- The bytes that the assembler makes of a line of a listing. -/
def Line.recompiled : Line → Bytes
  | instruction i => i.reread.written
  | data b => [b]

/-- A text constant of a line of a listing is not longer than two bytes can tell. -/
lemma length_text_lt {code : Bytes} {e : Entry} (he : e ∈ entries code) {op : Literal} {r : UInt8}
    {p : Bytes} (hline : e.line = .instruction (.literal op r p)) : p.length < 65536 := by
  obtain ⟨b, t, -, hdecode, -⟩ := exists_of_mem_entries he
  rw [hdecode, decode] at hline
  cases hb : Opcode.ofByte? b with
  | none => simp [hb] at hline
  | some o =>
    simp only [hb, Line.instruction.injEq] at hline
    cases o with
    | literal o =>
      simp only [operands, Instruction.literal.injEq] at hline
      rw [← hline.2.2, List.length_take]
      have := (operandWord t 1).toNat_lt
      omega
    | plain | unary | binary | ternary | branch | immediate => simp [operands] at hline

/-- A line of a listing adds its bytes to a draft. -/
lemma statement_restated {l : Line}
    (hl : ∀ op r p, l = .instruction (.literal op r p) → p.length < 65536) (d : Draft) :
    ∃ n, Draft.statement l.restated d = .ok () (d.extend l.recompiled n [] []) := by
  cases l with
  | data b =>
    have hput := @Draft.putItems_ofNat [(Source.Number.decimal (registerNumeral b)).item] [b.toNat]
      (by simpa using b.toNat_lt) (congrArg (fun q => [q]) (registerQuantity_numeral b))
      (congrArg (fun q => [q]) (registerQuantity_numeral b)) d
    rw [List.map_cons, UInt8.ofNat_toNat] at hput
    exact ⟨1, hput⟩
  | instruction i =>
    apply Draft.statement_written
    intro op r t ht
    cases i with
    | literal op' r' p =>
      obtain ⟨rfl, rfl, rfl⟩ := Instruction.literal.inj ht
      have hp := hl _ _ p rfl
      cases op' with
      | store =>
        have := length_recovered_store_le p
        omega
      | compare =>
        have := length_recovered_compare_le p
        omega
    | plain | unary | binary | ternary | branch | immediate => simp [Instruction.reread] at ht

/-- A source whose statements add bytes and nothing else is assembled to these bytes without a fault,
and at most it is remarked that there is no code. -/
lemma assemble_of_statements {source bytes : Bytes} {n : Nat}
    (h : Draft.statements ((lines source).map parse) {} = .ok () (Draft.extend {} bytes n [] [])) :
    ∃ notices : List Notice, (∀ x ∈ notices, x = .noCode) ∧
      assemble source = { code := bytes, notices, fault := none } := by
  set d : Draft := Draft.extend {} bytes n [] [] with hd
  have hget : (get : Drafting Draft) d = .ok d d := rfl
  have hcode : d.code.toList = bytes := by
    simp [hd, Draft.extend]
  by_cases hn : n < 1
  · refine ⟨[.noCode], by simp, ?_⟩
    have hsource : Draft.source source {} = .ok () { d with notices := #[.noCode] } := by
      have hoffset : d.offset < 1 := by simpa [hd, Draft.extend] using hn
      rw [Draft.source, Effect.bind_ok h, Effect.bind_ok hget, if_pos hoffset]
      rfl
    rw [assemble, hsource, ← hcode]
  · refine ⟨[], by simp, ?_⟩
    have hsource : Draft.source source {} = .ok () d := by
      have hoffset : ¬d.offset < 1 := by simpa [hd, Draft.extend] using hn
      rw [Draft.source, Effect.bind_ok h, Effect.bind_ok hget, if_neg hoffset]
      rfl
    rw [assemble, hsource, ← hcode]
    rfl

/-- **What becomes of a listing**: it is assembled without a fault, and at most it is remarked that
there is no code. -/
lemma assemble_render_eq (code : Bytes) :
    ∃ notices : List Notice, (∀ n ∈ notices, n = .noCode) ∧ assemble (render false code) =
      { code := (entries code).flatMap fun e => e.line.recompiled
        notices
        fault := none } := by
  have hline : ∀ e ∈ entries code, ∀ d, ∃ n,
      Draft.statement e.line.restated d = .ok () (d.extend e.line.recompiled n [] []) :=
    fun e he => statement_restated fun op r p h => length_text_lt he h
  obtain ⟨n, hrun⟩ := Draft.statements_map_extend hline {}
  apply assemble_of_statements
  rw [parse_lines_render]
  exact hrun

/-! ## When a line gives back its bytes -/

/-- A line whose text constant, if it has one, is read again. -/
def Line.Faithful (l : Line) : Prop :=
  ∀ op r p, l = .instruction (.literal op r p) → recovered op p = p

/-- The operands of an instruction without a text constant, where a missing byte is zero. -/
lemma operandBytes_operands {op : Opcode} (hop : ∀ o, op ≠ .literal o) (t : Bytes) :
    (operands t op).1.operandBytes.length = (operands t op).2 ∧
      ((operands t op).2 ≤ t.length →
        (operands t op).1.operandBytes = t.take (operands t op).2) := by
  cases op with
  | literal o => exact absurd rfl (hop o)
  | plain op => exact ⟨rfl, fun _ => rfl⟩
  | unary op =>
    refine ⟨rfl, fun h => ?_⟩
    match t, h with
    | a :: u, _ => rfl
  | binary op =>
    refine ⟨rfl, fun h => ?_⟩
    match t, h with
    | a :: b :: u, _ => rfl
  | ternary op =>
    refine ⟨rfl, fun h => ?_⟩
    match t, h with
    | a :: b :: c :: u, _ => rfl
  | branch op =>
    refine ⟨rfl, fun h => ?_⟩
    match t, h with
    | a :: b :: u, _ => exact wordBytes_wordOf a b
  | immediate op =>
    refine ⟨rfl, fun h => ?_⟩
    match t, h with
    | a :: b :: c :: u, _ => exact congrArg (a :: ·) (wordBytes_wordOf b c)

/-- A text whose length fits into two bytes is found where it was written. -/
lemma literal_of_short {r : UInt8} {w rest t : Bytes} (hw : w.length < 65536)
    (h : r :: (lengthBytes w.length ++ (w ++ rest)) = t) :
    3 + (operandWord t 1).toNat ≤ t.length ∧ (t.drop 3).take (operandWord t 1).toNat = w ∧
      t.drop (3 + (operandWord t 1).toNat) = rest := by
  obtain ⟨low, high, hbytes, hword⟩ := wordOf_wordBytes (UInt16.ofNat w.length)
  rw [lengthBytes_of_lt hw, hbytes] at h
  subst h
  have hlength : (operandWord (r :: ([low, high] ++ (w ++ rest))) 1).toNat = w.length := by
    have hfit : (UInt16.ofNat w.length).toNat = w.length := by
      rw [UInt16.toNat_ofNat']
      omega
    rw [← hfit, ← hword]
    rfl
  have hdrop : (r :: ([low, high] ++ (w ++ rest))).drop 3 = w ++ rest := rfl
  rw [hlength, ← List.drop_drop, hdrop, List.take_left, List.drop_left]
  refine ⟨?_, rfl, rfl⟩
  simp only [List.length_cons, List.length_append, List.length_nil]
  omega

/-- The length of a longer text takes three bytes, and the last of them is where the text should
begin. -/
lemma drop_of_long {r : UInt8} {w rest t : Bytes} (hlow : 65536 ≤ w.length)
    (hhigh : w.length < 131072) (h : r :: (lengthBytes w.length ++ (w ++ rest)) = t) :
    ∃ c : UInt8, 128 ≤ c.toNat ∧ t.drop 3 = c :: (w ++ rest) := by
  have hlength : lengthBytes w.length =
      [UInt8.ofNat (w.length % 256), CodePoint.leading 0xC0 (w.length / 256) 1,
        UInt8.ofNat (0x80 + w.length / 256 % 64)] := by
    have hencode : CodePoint.encode (w.length / 256) =
        CodePoint.leading 0xC0 (w.length / 256) 1 :: CodePoint.continuation (w.length / 256) 1 := by
      rw [CodePoint.encode, if_neg (by omega), if_pos (by omega)]
    rw [lengthBytes, CodePoint.encode_of_lt (Nat.mod_lt _ (by decide)), hencode]
    rfl
  rw [hlength] at h
  subst h
  refine ⟨UInt8.ofNat (0x80 + w.length / 256 % 64), ?_, rfl⟩
  rw [toNat_ofNat_byte (by omega)]
  omega

/-- **A text constant that is read again as a text of 65536 bytes or more was not written that way.**
What should be the text then begins with the last byte of its length, and goes on with what was
read, in which there are no newlines and tabs. So nothing in the text was escaped, and what was read
is no longer than the text. -/
lemma not_long_recovered {op : Literal} {r : UInt8} {n : Nat} (hn : n < 65536) {rest t : Bytes}
    (h : r :: (lengthBytes (recovered op ((t.drop 3).take n)).length ++
      (recovered op ((t.drop 3).take n) ++ rest)) = t) :
    (recovered op ((t.drop 3).take n)).length < 65536 := by
  have hp : ((t.drop 3).take n).length ≤ n := List.length_take_le n _
  by_contra hlong
  cases op with
  | store =>
    have := length_recovered_store_le ((t.drop 3).take n)
    omega
  | compare =>
    have hle := length_recovered_compare_le ((t.drop 3).take n)
    obtain ⟨c, hc, hdrop⟩ := drop_of_long (by omega) (by omega) h
    have hwhole : (t.drop 3).take n = (c :: recovered .compare ((t.drop 3).take n)).take n := by
      conv_lhs => rw [hdrop]
      rw [← List.cons_append, List.take_append_of_le_length (by simp only [List.length_cons]; omega)]
    have hfree : ∀ b : UInt8, b.toNat < 128 →
        (b ∉ recovered .compare ((t.drop 3).take n)) → b ∉ (t.drop 3).take n := by
      intro b hb hmem hcon
      rw [hwhole] at hcon
      rcases List.mem_cons.1 (List.mem_of_mem_take hcon) with rfl | hcon
      · omega
      · exact hmem hcon
    have hnewline := hfree (byte '\n') (by decide) fun hmem => (mem_flatMap_escape hmem).1 rfl
    have htab := hfree (byte '\t') (by decide) fun hmem => (mem_flatMap_escape hmem).2.1 rfl
    have hsub := (List.takeWhile_sublist (l := (t.drop 3).take n) (· != byte quote))
    have hsame : recovered .compare ((t.drop 3).take n) =
        ((t.drop 3).take n).takeWhile (· != byte quote) :=
      flatMap_escape (fun hmem => hnewline (hsub.subset hmem)) (fun hmem => htab (hsub.subset hmem))
    have hlength := hsub.length_le
    rw [← hsame] at hlength
    omega

/-- When the line of a text constant gives back the bytes that it covers. -/
lemma literal_append_iff (op : Literal) (rest t : Bytes) :
    operand t 0 :: (lengthBytes (recovered op ((t.drop 3).take (operandWord t 1).toNat)).length ++
        (recovered op ((t.drop 3).take (operandWord t 1).toNat) ++ rest)) = t ↔
      3 + (operandWord t 1).toNat ≤ t.length ∧
        recovered op ((t.drop 3).take (operandWord t 1).toNat) =
          (t.drop 3).take (operandWord t 1).toNat ∧
        rest = t.drop (3 + (operandWord t 1).toNat) := by
  have hn := (operandWord t 1).toNat_lt
  constructor
  · intro h
    obtain ⟨hle, htake, hdrop⟩ := literal_of_short (not_long_recovered hn h) h
    exact ⟨hle, htake.symm, hdrop.symm⟩
  · rintro ⟨hle, hsame, hrest⟩
    rw [hsame, hrest, List.length_take, List.length_drop, Nat.min_eq_left (by omega),
      lengthBytes_of_lt hn, UInt16.ofNat_toNat, ← List.drop_drop, List.take_append_drop]
    have hthree : 3 ≤ t.length := by omega
    match t, hthree with
    | a :: low :: high :: u, _ => exact congrArg (a :: · ++ u) (wordBytes_wordOf low high)

/-- **When a line gives back the bytes that it covers**, with something behind it: its bytes are all
there, its text constant is read again, and the rest of the code is behind it.

**Proof sketch.** The bytes of an instruction without a text constant have the right length in any
case, so they are the bytes of the code if these are not too few. A text constant is found again by
its length. -/
lemma recompiled_append_iff (b : UInt8) (t rest : Bytes) :
    (decode b t).1.recompiled ++ rest = b :: t ↔
      (decode b t).2 ≤ t.length ∧ (decode b t).1.Faithful ∧ rest = t.drop (decode b t).2 := by
  cases hb : Opcode.ofByte? b with
  | none =>
    have hdecode : decode b t = (.data b, 0) := by simp [decode, hb]
    rw [hdecode]
    simp [Line.recompiled, Line.Faithful]
  | some op =>
    have hdecode : decode b t = (.instruction (operands t op).1, (operands t op).2) := by
      simp [decode, hb]
    obtain rfl := Opcode.ofByte?_eq_some_iff.1 hb
    rw [hdecode]
    by_cases hop : ∃ o, op = .literal o
    · obtain ⟨o, rfl⟩ := hop
      have hfaithful : (Line.instruction (operands t (.literal o)).1).Faithful ↔
          recovered o ((t.drop 3).take (operandWord t 1).toNat) =
            (t.drop 3).take (operandWord t 1).toNat := by
        constructor
        · intro h
          exact h _ _ _ rfl
        · intro h op r p heq
          obtain ⟨rfl, rfl, rfl⟩ := Instruction.literal.inj (Line.instruction.inj heq)
          exact h
      rw [hfaithful]
      simp only [operands, Line.recompiled, Instruction.reread, Instruction.written,
        List.cons_append, List.append_assoc, List.cons.injEq, true_and]
      exact literal_append_iff o rest t
    · obtain ⟨hlength, htake⟩ := operandBytes_operands (fun o ho => hop ⟨o, ho⟩) t
      have hfaithful : (Line.instruction (operands t op).1).Faithful := by
        intro o r p heq
        cases op with
        | literal o' => exact absurd ⟨o', rfl⟩ hop
        | plain | unary | binary | ternary | branch | immediate => simp [operands] at heq
      have hbytes : (Line.instruction (operands t op).1).recompiled =
          op.toByte :: (operands t op).1.operandBytes := by
        cases op with
        | literal o' => exact absurd ⟨o', rfl⟩ hop
        | plain | unary | binary | ternary | branch | immediate => rfl
      rw [hbytes, List.cons_append, List.cons.injEq]
      constructor
      · rintro ⟨-, heq⟩
        have hle := congrArg List.length heq
        rw [List.length_append, hlength] at hle
        refine ⟨by simp only; omega, hfaithful, ?_⟩
        have hdrop := congrArg (List.drop (operands t op).1.operandBytes.length) heq
        rw [List.drop_left, hlength] at hdrop
        exact hdrop
      · rintro ⟨hle, -, hrest⟩
        exact ⟨rfl, by rw [htake hle, hrest, List.take_append_drop]⟩

/-- When the lines of a code give it back: the code ends with a line, and each line is faithful. -/
lemma flatMap_recompiled_iff (address : Nat) (code : Bytes) :
    ((entriesAfter [] address code).flatMap fun e => e.line.recompiled) = code ↔
      Complete code ∧ ∀ e ∈ entriesAfter [] address code, e.line.Faithful := by
  induction code using induction_lines generalizing address with
  | nil =>
    rw [entriesAfter_nil]
    exact ⟨fun _ => ⟨.nil, by simp⟩, fun _ => rfl⟩
  | cons b t ih =>
    rw [entriesAfter_cons, List.flatMap_cons, List.forall_mem_cons, recompiled_append_iff, ih]
    constructor
    · rintro ⟨hline, hfaithful, hrest, hall⟩
      exact ⟨.cons hline hrest, hfaithful, hall⟩
    · rintro ⟨hcomplete, hfaithful, hall⟩
      cases hcomplete with
      | cons hline hrest => exact ⟨hline, hfaithful, hrest, hall⟩

/-- A line is faithful if its text constant meets the condition of its operation. -/
lemma Line.faithful_iff (l : Line) :
    l.Faithful ↔
      (∀ r p, l = .instruction (.literal .store r p) → byte quote ∉ p ∧ ¬LooksEscaped p) ∧
      ∀ r p, l = .instruction (.literal .compare r p) →
        byte quote ∉ p ∧ byte '\n' ∉ p ∧ byte '\t' ∉ p := by
  constructor
  · intro h
    exact ⟨fun r p hl => (recovered_store_eq_iff p).1 (h _ r p hl),
      fun r p hl => (recovered_compare_eq_iff p).1 (h _ r p hl)⟩
  · rintro ⟨hstore, hcompare⟩ op r p hl
    cases op with
    | store => exact (recovered_store_eq_iff p).2 (hstore r p hl)
    | compare => exact (recovered_compare_eq_iff p).2 (hcompare r p hl)

/-- **Assembling a listing.** This never fails and leaves no line unread, whatever the code is. It gives
the code back exactly if the code ends with the end of an instruction, no stored text has a double
quote or anything that looks like an escape in it, and no compared text has a double quote, a
newline or a tab in it.

**Proof sketch.** Every line of the listing states what it shows, up to its text constant, so the
assembler puts out the bytes of the lines. These are compared with the code line by line: up to the
first line that differs the two agree, so the line stands at the same place in both. -/
theorem assemble_render (code : Bytes) :
    (assemble (render false code)).fault = none ∧
      (∀ line, Notice.unknownLine line ∉ (assemble (render false code)).notices) ∧
      ((assemble (render false code)).code = code ↔
        Complete code ∧
        (∀ e ∈ entries code, ∀ r p, e.line = .instruction (.literal .store r p) →
          byte '"' ∉ p ∧ ¬[byte '\\', byte 'n'] <:+: p ∧ ¬[byte '\\', byte 't'] <:+: p) ∧
        ∀ e ∈ entries code, ∀ r p, e.line = .instruction (.literal .compare r p) →
          byte '"' ∉ p ∧ byte '\n' ∉ p ∧ byte '\t' ∉ p) := by
  obtain ⟨notices, hnotices, hassemble⟩ := assemble_render_eq code
  rw [hassemble]
  refine ⟨rfl, fun line hline => absurd (hnotices _ hline) (by simp), ?_⟩
  have hiff := flatMap_recompiled_iff 0 code
  constructor
  · intro h
    obtain ⟨hcomplete, hfaithful⟩ := hiff.1 h
    refine ⟨hcomplete, fun e he r p hl => ?_, fun e he r p hl => ?_⟩
    · obtain ⟨hquote, hescape⟩ := (e.line.faithful_iff.1 (hfaithful e he)).1 r p hl
      exact ⟨hquote, not_or.1 hescape⟩
    · exact (e.line.faithful_iff.1 (hfaithful e he)).2 r p hl
  · rintro ⟨hcomplete, hstore, hcompare⟩
    refine hiff.2 ⟨hcomplete, fun e he => e.line.faithful_iff.2 ⟨fun r p hl => ?_, hcompare e he⟩⟩
    obtain ⟨hquote, hescape⟩ := hstore e he r p hl
    exact ⟨hquote, not_or.2 hescape⟩

end Listing

end RegisterMachine
