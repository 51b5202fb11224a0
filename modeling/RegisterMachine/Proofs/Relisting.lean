import Mathlib.Data.List.Forall2
import RegisterMachine.Proofs.Layout
import RegisterMachine.Proofs.RoundTrip

/-!
# Programs listed again

A listing of assembled code should show the instructions that the author wrote, one line for each.
It does, whatever the instructions are, but for one operation: the assembler knows the calls of
services and the listing does not. Such a call is listed as data, and what follows is read from the
wrong byte on.

What a line of the listing shows is also what it states when it is read as source, but for one more
operation: the listing writes a tab in a text constant with a backslash, and where a text is
compared the assembler takes the backslash as it stands.

## Main definitions

* `Source.Line.IsOperation` — an instruction without a label, or a call of a service.
* `Source.Line.IsService`, `Source.Line.ComparesTab` — the two exceptions.
* `Source.Line.ShownBy` — a line of a listing that shows the instruction of a line of source.

## Main results

* `Source.statement_operation` — an operation adds its bytes to the code.
* `Source.shownBy_entries` — the lines of the listing are the instructions of the source.
* `Source.relisted_iff` — when a program is listed as it was written.
-/

namespace RegisterMachine.Source

open Listing Statement Scan

/-! ## Operations -/

/-- An instruction whose text constant, if it has one, is not longer than two bytes can tell. -/
def Instr.Fits : Instr → Prop
  | literal op _ t => (literalBytes op t).length < 65536
  | plain _ | unary .. | binary .. | ternary .. | goto _ | branch .. | store .. | compare .. => True

instance : DecidablePred Instr.Fits
  | .literal op _ t => inferInstanceAs (Decidable ((literalBytes op t).length < 65536))
  | .plain _ | .unary .. | .binary .. | .ternary .. | .goto _ | .branch .. | .store ..
  | .compare .. => .isTrue trivial

/-- A line that states one operation with all its operands: an instruction that refers to no label,
or a call of a service. -/
def Line.IsOperation : Line → Prop
  | code _ (.instr i) => i.reference? = none ∧ i.Fits
  | code _ (.service _) => True
  | code _ (.data ..) | label _ => False

instance : DecidablePred Line.IsOperation
  | .code _ (.instr i) => inferInstanceAs (Decidable (i.reference? = none ∧ i.Fits))
  | .code _ (.service _) => .isTrue trivial
  | .code _ (.data ..) | .label _ => .isFalse id

/-- A call of a service. -/
def Line.IsService : Line → Prop
  | code _ (.service _) => True
  | code _ (.instr _) | code _ (.data ..) | label _ => False

/-- A comparison with a text that has a tab in it. -/
def Line.ComparesTab : Line → Prop
  | code _ (.instr (.literal .compare _ t)) => byte '\t' ∈ t.bytes
  | _ => False

/-- A line of a listing shows the instruction of a line of source, with the same operands. -/
def Line.ShownBy (l : Line) (e : Listing.Line) : Prop :=
  ∃ gap i, l = code gap (.instr i) ∧ e = .instruction (i.resolve fun _ => 0)

lemma Line.IsOperation.reference?_eq_none {l : Line} (h : l.IsOperation) : l.reference? = none := by
  cases l with
  | label name => rfl
  | code gap c =>
    cases c with
    | instr i => exact h.1
    | service | data => rfl

/-- The operations of a program are instructions if none of them is a call of a service. -/
lemma Line.IsOperation.exists_instr {l : Line} (h : l.IsOperation) (hservice : ¬l.IsService) :
    ∃ gap i, l = code gap (.instr i) ∧ i.reference? = none ∧ i.Fits := by
  cases l with
  | label name => exact absurd h id
  | code gap c =>
    cases c with
    | instr i => exact ⟨gap, i, rfl, h⟩
    | service n => exact absurd trivial hservice
    | data name first rest => exact absurd h id

lemma Instr.Fits.length_text {i : Instr} (h : i.Fits) (f : Name → Nat) {op : Literal} {r : UInt8}
    {t : Bytes} (heq : i.resolve f = .literal op r t) : t.length < 65536 := by
  cases i with
  | literal op' r' t' =>
    obtain ⟨rfl, -, rfl⟩ := Instruction.literal.inj heq
    exact h
  | plain | unary | binary | ternary | goto | branch | store | compare =>
    exact absurd heq (by simp [resolve])

/-- The code of operations is the encodings of the lines: there are no addresses to fill in. -/
lemma image_operations {p : List Line} (hp : ∀ l ∈ p, l.IsOperation) :
    image p = p.flatMap (Line.encode fun _ => 0) := by
  have hline : ∀ l ∈ p, l.encode (address p) = l.encode fun _ => 0 := fun l hl =>
    l.encode_of_reference?_none (hp l hl).reference?_eq_none _ _
  rw [image, List.flatMap_def, List.flatMap_def, List.map_congr_left hline]

/-! ## Assembly -/

/-- An operation adds its bytes to a draft. -/
lemma statement_operation {l : Line} (h : l.IsOperation) (d : Draft) :
    ∃ n, Draft.statement l.statement d =
      .ok () (d.extend (l.encode fun _ => 0) n [] []) := by
  cases l with
  | label name => exact absurd h id
  | code gap c =>
    cases c with
    | data name first rest => exact absurd h id
    | service n =>
      have hline := (Line.code gap (.service n)).statement_of_reference?_none rfl
        (show 2 < 65536 by decide) (d := d) (by simp [Line.label?])
      exact ⟨_, hline⟩
    | instr i =>
      have htext (op : Literal) (r : UInt8) (t : Bytes)
          (heq : i.resolve (fun _ => 0) = .literal op r t) : t.length < 65536 :=
        h.2.length_text _ heq
      obtain ⟨n, hrun⟩ := @Draft.statement_written (i.resolve fun _ => 0)
        (fun op r t heq => Nat.lt_trans (htext op r t heq) (by decide)) d
      rw [i.statement_resolve h.1, Instruction.written_eq_encode htext] at hrun
      exact ⟨n, hrun⟩

/-! ## Listing -/

/-- **The lines of the listing are the instructions of the source**, if no service is called.

**Proof sketch.** By induction on the program. The encoding of an instruction is read as this
instruction, whatever comes behind it, and the next line begins where it ends. -/
lemma shownBy_entries {p : List Line} (hp : ∀ l ∈ p, l.IsOperation)
    (hservice : ∀ l ∈ p, ¬l.IsService) (start : Nat) :
    List.Forall₂ Line.ShownBy p
      ((entriesAfter [] start (p.flatMap (Line.encode fun _ => 0))).map Entry.line) := by
  induction p generalizing start with
  | nil =>
    rw [List.flatMap_nil, entriesAfter_nil]
    exact .nil
  | cons l p ih =>
    obtain ⟨gap, i, rfl, -, hfits⟩ :=
      (hp l (by simp)).exists_instr (hservice l (by simp))
    have hdecode := decode_encode_of_text (i := i.resolve fun _ => 0)
      (fun op r t heq => hfits.length_text _ heq) (p.flatMap (Line.encode fun _ => 0))
    have hcode : (Line.code gap (.instr i) :: p).flatMap (Line.encode fun _ => 0) =
        (i.resolve fun _ => 0).opcode.toByte :: ((i.resolve fun _ => 0).operandBytes ++
          p.flatMap (Line.encode fun _ => 0)) := rfl
    rw [hcode, entriesAfter_cons, hdecode, List.drop_left, List.map_cons]
    exact .cons ⟨gap, i, rfl, rfl⟩
      (ih (fun l' hl' => hp l' (by simp [hl'])) (fun l' hl' => hservice l' (by simp [hl'])) _)

lemma Line.ShownBy.not_isService {l : Line} {e : Listing.Line} (h : l.ShownBy e) :
    ¬l.IsService := by
  obtain ⟨gap, i, rfl, -⟩ := h
  exact id

/-- No line of a listing states a call of a service. -/
lemma restated_ne_service (e : Listing.Line) (q : Quantity) : e.restated ≠ .service q := by
  cases e with
  | data b => simp [Listing.Line.restated]
  | instruction i =>
    cases i with
    | plain | unary | binary | ternary | branch | immediate | literal =>
      simp [Listing.Line.restated, Instruction.reread, Instruction.statement]

/-- A text constant is read again as it was written, unless it is compared and has a tab in it. No
escape is left in a stored one, and a compared one has no newline. -/
lemma recovered_literalBytes (op : Literal) (t : Text) :
    recovered op (literalBytes op t) = literalBytes op t ↔
      ¬(op = .compare ∧ byte '\t' ∈ t.bytes) := by
  cases op with
  | store =>
    have hquote : byte quote ∉ unescape t.bytes := fun h => t.noQuote (mem_of_mem_unescape h)
    simpa [literalBytes] using
      (recovered_store_eq_iff _).2 ⟨hquote, not_looksEscaped_unescape t.bytes⟩
  | compare =>
    rw [literalBytes, recovered_compare_eq_iff]
    simp [t.noQuote, t.noNewline]

/-- A line that shows an instruction states what the instruction states, unless it compares a text
with a tab in it. -/
lemma restated_eq_iff {gap : Nat} {i : Instr} (hi : i.reference? = none) :
    (Listing.Line.instruction (i.resolve fun _ => 0)).restated =
        (Line.code gap (.instr i)).statement ↔
      ¬(Line.code gap (.instr i)).ComparesTab := by
  have hmeant : (i.resolve fun _ => 0).statement = (Line.code gap (.instr i)).statement :=
    i.statement_resolve hi _
  rw [← hmeant]
  cases i with
  | literal op r t =>
    have htext := recovered_literalBytes op t
    cases op with
    | store | compare =>
      simpa [Listing.Line.restated, Instr.resolve, Instruction.reread, Instruction.statement,
        Line.ComparesTab] using htext
  | plain | unary | binary | ternary | goto | branch | store | compare =>
    exact ⟨fun _ => id, fun _ => rfl⟩

/-- Lines that show the instructions of a program state the program, unless a text with a tab in it
is compared. -/
lemma restated_map_eq_iff {p : List Line} {es : List Listing.Line} (hp : ∀ l ∈ p, l.IsOperation)
    (h : List.Forall₂ Line.ShownBy p es) :
    es.map Listing.Line.restated = p.map Line.statement ↔ ∀ l ∈ p, ¬l.ComparesTab := by
  induction h with
  | nil => simp
  | cons hshown _ ih =>
    obtain ⟨gap, i, rfl, rfl⟩ := hshown
    have hi : i.reference? = none := (hp _ List.mem_cons_self).1
    rw [List.map_cons, List.map_cons, List.cons.injEq, restated_eq_iff hi,
      ih fun l hl => hp l (List.mem_cons_of_mem _ hl), List.forall_mem_cons]

/-- A listing that states the program has no call of a service in it. -/
lemma not_isService_of_restated {p : List Line} {es : List Listing.Line}
    (h : es.map Listing.Line.restated = p.map Line.statement) : ∀ l ∈ p, ¬l.IsService := by
  intro l hl hservice
  cases l with
  | label name => exact hservice
  | code gap c =>
    cases c with
    | instr | data => exact hservice
    | service n =>
      have hmem : (Line.code gap (.service n)).statement ∈ es.map Listing.Line.restated :=
        h ▸ List.mem_map_of_mem hl
      obtain ⟨e, -, he⟩ := List.mem_map.1 hmem
      exact restated_ne_service e _ he

/-- **When a program is listed as it was written.** Operations are assembled without a fault to
their code. The listing of this code has one line for each of them, in order, that shows the
operation and its operands, if and only if none of them is a call of a service. Read as source
it states the same program, if and only if moreover no text with a tab in it is compared.

**Proof sketch.** The code of the operations is their encodings, one behind the other, and reading
undoes the encoding of an instruction. No line of any listing shows a call of a service. -/
theorem relisted_iff {p : List Line} (hp : ∀ l ∈ p, l.IsOperation) :
    (assemble (text p)).fault = none ∧ (assemble (text p)).code = image p ∧
      ((lines (render false (image p))).length = p.length ∧
          List.Forall₂ Line.ShownBy p ((entries (image p)).map Entry.line) ↔
        ∀ l ∈ p, ¬l.IsService) ∧
      ((lines (render false (image p))).map parse = p.map Line.statement ↔
        ∀ l ∈ p, ¬l.IsService ∧ ¬l.ComparesTab) := by
  have hstated : (lines (render false (image p))).map parse =
      ((entries (image p)).map Entry.line).map Listing.Line.restated := by
    rw [parse_lines_render, List.map_map]
    rfl
  have hshown (h : ∀ l ∈ p, ¬l.IsService) :
      List.Forall₂ Line.ShownBy p ((entries (image p)).map Entry.line) := by
    rw [image_operations hp]
    exact shownBy_entries hp h 0
  obtain ⟨n, hrun⟩ := Draft.statements_map_extend (fun l hl => statement_operation (hp l hl)) {}
  rw [← parse_lines_text, ← image_operations hp] at hrun
  obtain ⟨notices, -, hassemble⟩ := assemble_of_statements hrun
  refine ⟨by rw [hassemble], by rw [hassemble], ⟨?_, fun h => ⟨?_, hshown h⟩⟩, ?_⟩
  · rintro ⟨-, hforall⟩
    have hboth := hforall.imp fun l e hshows => And.intro hshows.not_isService hshows
    exact (List.forall₂_and_left _ _).1 hboth |>.1
  · have hlength := congrArg List.length hstated
    rw [List.length_map, List.length_map] at hlength
    rw [hlength, (hshown h).length_eq]
  · rw [hstated]
    constructor
    · intro h l hl
      have hservice := not_isService_of_restated h
      exact ⟨hservice l hl, (restated_map_eq_iff hp (hshown hservice)).1 h l hl⟩
    · intro h
      exact (restated_map_eq_iff hp (hshown fun l hl => (h l hl).1)).2 fun l hl => (h l hl).2

/-- A text with an escape in it is stored and compared, and there is a jump to a fixed address. -/
def greeting : List Line :=
  let three : Register := ⟨ascii "03", by decide, by decide⟩
  [.code 0 (.instr (.literal .store three ⟨ascii "hi\\n\t", by decide, by decide⟩)),
    .code 2 (.instr (.literal .compare three ⟨ascii "hi\\n", by decide, by decide⟩)),
    .code 0 (.instr (.branch .jumpZero (.number (.hex ⟨ascii "fE", by decide, by decide⟩)))),
    .code 0 (.instr (.plain .nop))]

theorem relisted_iff_greeting :
    (∀ l ∈ greeting, l.IsOperation) ∧ (assemble (text greeting)).code =
        [0x30, 3, 4, 0, 0x68, 0x69, 0x0A, 0x09, 0x42, 3, 4, 0, 0x68, 0x69, 0x5C, 0x6E,
          0x11, 0xFE, 0, 0x50] ∧
      (lines (render false (image greeting))).length = 4 ∧
      (lines (render false (image greeting))).map parse = greeting.map Line.statement := by
  have hoperations : ∀ l ∈ greeting, l.IsOperation := by decide
  obtain ⟨-, hcode, hshown, hstated⟩ := relisted_iff hoperations
  have hplain : ∀ l ∈ greeting, ¬l.IsService ∧ ¬l.ComparesTab := by
    simp [greeting, Line.IsService, Line.ComparesTab, ascii, byte]
  exact ⟨hoperations, hcode.trans rfl, (hshown.2 fun l hl => (hplain l hl).1).1, hstated.2 hplain⟩

/-- A service is called, and then nothing is done. -/
def serviceCall : List Line :=
  [.code 0 (.service (.hex ⟨ascii "02", by decide, by decide⟩)), .code 0 (.instr (.plain .nop))]

/-- The call is listed as data, and its number as an instruction that takes the next one for its
operand. -/
theorem entries_serviceCall :
    (∀ l ∈ serviceCall, l.IsOperation) ∧ (assemble (text serviceCall)).code = [0x52, 2, 0x50] ∧
      (entries [0x52, 2, 0x50]).map Entry.line =
        [.data 0x52, .instruction (.unary .printInt 0x50)] := by
  have hclosed : Closed serviceCall := by decide
  refine ⟨by decide, ?_, ?_⟩
  · rw [assemble_closed hclosed (by decide)]
    rfl
  · rw [entries, entriesAfter_cons, List.map_cons]
    have hfirst : decode 0x52 [2, 0x50] = (.data 0x52, 0) := rfl
    have hsecond : decode 2 [0x50] = (.instruction (.unary .printInt 0x50), 1) := rfl
    rw [hfirst, List.drop_zero, entriesAfter_cons, hsecond, List.map_cons, List.drop_one,
      List.tail_cons, entriesAfter_nil]
    rfl

end RegisterMachine.Source
