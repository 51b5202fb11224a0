import RegisterMachine.Proofs.Layout
import RegisterMachine.Proofs.RoundTrip

/-!
# The normal form of code

Listing some code and assembling the listing gives code again: bytes that were missing at the end
are filled in, and text constants are what the assembler reads from the listing. Code that comes
about in this way is its own listing assembled again, so it is a normal form. This holds for every
code that is short enough that no text constant can outgrow its two bytes of length.

## Main definitions

* `Listing.normalise` — what becomes of code that is listed and assembled again.
* `Listing.Line.Stable` — a line whose bytes are read as a line with the same bytes.

## Main results

* `Listing.stable_of_mem_entries` — every line of a listing of short code is stable.
* `Listing.recompiled_of_stable` — bytes of stable lines are put out as they are.
* `Listing.normalise_normalise` — normal forms stay as they are.
-/

namespace RegisterMachine.Listing

open Instruction

/-- What becomes of code that is listed and assembled again. -/
def normalise (code : Bytes) : Bytes := (assemble (render false code)).code

/-- The code of a listing consists of the bytes of its lines. -/
lemma normalise_eq (code : Bytes) :
    normalise code = (entries code).flatMap fun e => e.line.recompiled := by
  obtain ⟨notices, -, hassemble⟩ := assemble_render_eq code
  rw [normalise, hassemble]

/-! ## Stable lines -/

/-- A line whose bytes are read as a line with the same bytes, whatever stands behind them. -/
def Line.Stable (l : Line) : Prop :=
  ∃ b u, l.recompiled = b :: u ∧
    ∀ rest, (decode b (u ++ rest)).1.recompiled = b :: u ∧ (decode b (u ++ rest)).2 = u.length

/-- What is read again from an instruction that was read again is the same. -/
lemma reread_reread (i : Instruction) : i.reread.reread = i.reread := by
  cases i with
  | literal op r p => rw [reread, reread, recovered_recovered]
  | plain | unary | binary | ternary | branch | immediate => rfl

/-- An instruction is stable if its bytes are the encoding of what is read again. -/
lemma stable_of_encode {i : Instruction} (hbytes : i.reread.written = i.reread.encode)
    (hshort : i.reread.encode.length < 65536) : (Line.instruction i).Stable := by
  refine ⟨i.reread.opcode.toByte, i.reread.operandBytes, hbytes, fun rest => ?_⟩
  rw [Source.decode_encode hshort rest]
  refine ⟨?_, rfl⟩
  rw [Line.recompiled, reread_reread]
  exact hbytes

/-- An instruction without a text constant is stable. -/
lemma stable_of_not_literal {i : Instruction} (hi : ∀ op r p, i ≠ .literal op r p) :
    (Line.instruction i).Stable := by
  cases i with
  | literal op r p => exact absurd rfl (hi op r p)
  | plain | unary | binary | ternary | branch | immediate =>
    refine stable_of_encode rfl ?_
    simp [reread, encode, operandBytes, wordBytes]

/-- A text constant is stable if what is read again fits into its two bytes of length. -/
lemma stable_literal {op : Literal} {r : UInt8} {p : Bytes}
    (h : 4 + (recovered op p).length < 65536) : (Line.instruction (.literal op r p)).Stable := by
  apply stable_of_encode
  · rw [reread, written, lengthBytes_of_lt (by omega)]
    rfl
  · simp only [reread, encode, operandBytes, wordBytes, List.length_cons, List.length_append,
      List.length_nil]
    omega

/-- What is read again from a text of the code is at most twice as long as what the code has. -/
lemma length_recovered_le (op : Literal) (p : Bytes) : (recovered op p).length ≤ 2 * p.length := by
  cases op with
  | store => exact Nat.le_trans (length_recovered_store_le p) (by omega)
  | compare => exact length_recovered_compare_le p

/-- The line at the front of some code is stable, if the code is short. -/
lemma stable_decode {b : UInt8} {t : Bytes} (h : t.length < 32768) : (decode b t).1.Stable := by
  cases hb : Opcode.ofByte? b with
  | none =>
    have hdecode (u : Bytes) : decode b u = (.data b, 0) := by rw [decode, hb]
    rw [hdecode]
    exact ⟨b, [], rfl, fun rest => by rw [hdecode]; exact ⟨rfl, rfl⟩⟩
  | some op =>
    have hdecode : (decode b t).1 = .instruction (operands t op).1 := by rw [decode, hb]
    rw [hdecode]
    cases op with
    | literal op =>
      apply stable_literal
      have hlength := length_recovered_le op ((t.drop 3).take (operandWord t 1).toNat)
      rw [List.length_take, List.length_drop] at hlength
      omega
    | plain | unary | binary | ternary | branch | immediate =>
      exact stable_of_not_literal fun _ _ _ heq => by simp [operands] at heq

/-- **Every line of the listing of short code is stable.** -/
theorem stable_of_mem_entries {code : Bytes} (hcode : code.length ≤ 32768) {e : Entry}
    (he : e ∈ entries code) : e.line.Stable := by
  obtain ⟨b, t, hdrop, hline, -⟩ := exists_of_mem_entries he
  have hlength := congrArg List.length hdrop
  rw [List.length_drop, List.length_cons] at hlength
  rw [hline]
  exact stable_decode (by omega)

/-! ## Normal forms -/

/-- **The bytes of stable lines are put out as they are.**

**Proof sketch.** By induction on the lines. The first line is read from its own bytes, which are
those that it covers, so the other lines are read from theirs. -/
theorem recompiled_of_stable {ls : List Line} (hls : ∀ l ∈ ls, l.Stable) (address : Nat) :
    ((entriesAfter [] address (ls.flatMap Line.recompiled)).flatMap fun e => e.line.recompiled) =
      ls.flatMap Line.recompiled := by
  induction ls generalizing address with
  | nil => rw [List.flatMap_nil, entriesAfter_nil]; rfl
  | cons l ls ih =>
    obtain ⟨b, u, hbytes, hread⟩ := hls l (by simp)
    obtain ⟨hsame, hlength⟩ := hread (ls.flatMap Line.recompiled)
    rw [List.flatMap_cons, hbytes, List.cons_append, entriesAfter_cons, List.flatMap_cons, hsame,
      hlength, List.drop_left, ih fun l' hl' => hls l' (by simp [hl'])]
    rfl

/-- **Normal forms stay as they are.** Code of at most 32768 bytes, whatever it is, can be listed
and assembled again without a fault; so can what comes of it, and this gives the same once more.

**Proof sketch.** What comes of the code consists of the bytes of the lines of its listing. These
are stable: an instruction is read from its encoding, undoing escapes makes no new ones, and a text
that was read up to a double quote has none. -/
theorem normalise_normalise {code : Bytes} (hcode : code.length ≤ 32768) :
    (assemble (render false code)).fault = none ∧
      (assemble (render false (normalise code))).fault = none ∧
      normalise (normalise code) = normalise code := by
  have hfault (code : Bytes) : (assemble (render false code)).fault = none := by
    obtain ⟨notices, -, hassemble⟩ := assemble_render_eq code
    rw [hassemble]
  refine ⟨hfault code, hfault (normalise code), ?_⟩
  have hstable : ∀ l ∈ (entries code).map Entry.line, l.Stable := by
    intro l hl
    obtain ⟨e, he, rfl⟩ := List.mem_map.1 hl
    exact stable_of_mem_entries hcode he
  have hlines : normalise code = ((entries code).map Entry.line).flatMap Line.recompiled := by
    rw [normalise_eq, List.flatMap_map]
  rw [normalise_eq (normalise code), hlines]
  exact recompiled_of_stable hstable 0

/-- Code with a text constant that is compared, has a newline, a double quote and a backslash in it
and breaks off: what is behind the double quote gets lost, and the newline becomes two bytes. -/
def brokenCompare : Bytes :=
  [(Opcode.literal .compare).toByte, 3, 9, 0, 0x0A, 0x5C, 0x6E, 0x22, 0x21]

theorem normalise_normalise_brokenCompare :
    brokenCompare.length ≤ 32768 ∧
      normalise brokenCompare =
        [(Opcode.literal .compare).toByte, 3, 4, 0, 0x5C, 0x6E, 0x5C, 0x6E] ∧
      normalise (normalise brokenCompare) = normalise brokenCompare := by
  have hlength : brokenCompare.length ≤ 32768 := by decide
  refine ⟨hlength, ?_, (normalise_normalise hlength).2.2⟩
  rw [normalise_eq, entries, brokenCompare, entriesAfter_cons]
  have hrest : (([3, 9, 0, 0x0A, 0x5C, 0x6E, 0x22, 0x21] : Bytes).drop
      (decode (Opcode.literal .compare).toByte [3, 9, 0, 0x0A, 0x5C, 0x6E, 0x22, 0x21]).2) = [] := rfl
  rw [hrest, entriesAfter_nil]
  decide

end RegisterMachine.Listing
