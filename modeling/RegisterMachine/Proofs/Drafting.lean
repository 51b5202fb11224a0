import RegisterMachine.Assembly.Draft
import RegisterMachine.Proofs.Effects
import RegisterMachine.Proofs.Numerals

/-!
# What a statement adds to a draft

The work on one statement ends without a fault whenever its numbers are in range, and then adds to
the draft: bytes, characters, at most one label and at most one place to fill in. So the effect of
a statement, and of any number of them, is described by what is added.

## Main definitions

* `Draft.extend` — a draft with something added.
* `Instruction.statement` — the statement whose code is a given instruction.

## Main results

* `Draft.putAll_ofNat`, `Draft.putItems_ofNat` — numbers below 256 are written as one byte each.
* `Draft.statement_instruction` — the statement of an instruction adds its bytes.
* `Draft.statement_literal` — a text constant of any length.
* `Draft.putWord_label` — a label adds zeros and a place to fill in.
* `Draft.statements_map_extend` — statements add their bytes one behind the other.
-/

namespace RegisterMachine

open Effect

/-! ## Words as bytes -/

/-- The two bytes of a number below 65536. -/
lemma wordBytes_ofNat {v : Nat} (h : v < 65536) :
    Instruction.wordBytes (UInt16.ofNat v) = [UInt8.ofNat (v % 256), UInt8.ofNat (v / 256)] := by
  have hv : (UInt16.ofNat v).toNat = v := by
    simp only [UInt16.toNat_ofNat']
    omega
  have hlow : (UInt16.ofNat v).toUInt8 = UInt8.ofNat (v % 256) := by
    apply UInt8.toNat_inj.1
    rw [toNat_ofNat_byte (Nat.mod_lt _ (by decide)), UInt16.toNat_toUInt8, hv]
  have hhigh : (UInt16.ofNat v >>> 8).toUInt8 = UInt8.ofNat (v / 256) := by
    apply UInt8.toNat_inj.1
    have hshift : (UInt16.ofNat v >>> 8).toNat = v / 256 := by
      rw [UInt16.toNat_shiftRight, hv, Nat.shiftRight_eq_div_pow]
      rfl
    rw [toNat_ofNat_byte (by omega), UInt16.toNat_toUInt8, hshift]
    omega
  rw [Instruction.wordBytes, hlow, hhigh]

/-- The two bytes of a word spell it. -/
lemma wordOf_wordBytes (w : UInt16) :
    ∃ low high, Instruction.wordBytes w = [low, high] ∧ wordOf low high = w := by
  have hw := w.toNat_lt
  have hbytes := wordBytes_ofNat (v := w.toNat) hw
  rw [UInt16.ofNat_toNat] at hbytes
  refine ⟨_, _, hbytes, UInt16.toNat_inj.1 ?_⟩
  rw [wordOf_toNat, toNat_ofNat_byte (Nat.mod_lt _ (by decide)), toNat_ofNat_byte (by omega)]
  omega

/-- The word of two bytes consists of them. -/
lemma wordBytes_wordOf (low high : UInt8) :
    Instruction.wordBytes (wordOf low high) = [low, high] := by
  have hl := low.toNat_lt
  have hh := high.toNat_lt
  have hsum : (wordOf low high).toNat = low.toNat + 256 * high.toNat := wordOf_toNat low high
  have hbytes := wordBytes_ofNat (v := (wordOf low high).toNat) (wordOf low high).toNat_lt
  rw [UInt16.ofNat_toNat] at hbytes
  have hmod : (wordOf low high).toNat % 256 = low.toNat := by omega
  have hdiv : (wordOf low high).toNat / 256 = high.toNat := by omega
  rw [hbytes, hmod, hdiv, UInt8.ofNat_toNat, UInt8.ofNat_toNat]

/-- The bytes of a number that is written as two characters, the low one first. They are two bytes
if the number is below 65536. -/
def lengthBytes (n : Nat) : Bytes := CodePoint.encode (n % 256) ++ CodePoint.encode (n / 256)

lemma lengthBytes_of_lt {n : Nat} (h : n < 65536) :
    lengthBytes n = Instruction.wordBytes (UInt16.ofNat n) := by
  rw [lengthBytes, CodePoint.encode_of_lt (Nat.mod_lt _ (by decide)),
    CodePoint.encode_of_lt (by omega), wordBytes_ofNat h]
  rfl

namespace Draft

/-! ## Additions -/

/-- A draft with bytes, characters, labels and places to fill in added. -/
def extend (d : Draft) (bytes : Bytes) (characters : Nat) (labels : List (Bytes × Nat))
    (references : List (Nat × Bytes)) : Draft :=
  { d with
    code := d.code ++ bytes
    offset := d.offset + characters
    labels := labels ++ d.labels
    references := d.references ++ references }

lemma extend_nil (d : Draft) : d.extend [] 0 [] [] = d := by
  simp [extend]

/-- Two additions are one. -/
lemma extend_extend (d : Draft) (b₁ b₂ : Bytes) (n₁ n₂ : Nat) (l₁ l₂ : List (Bytes × Nat))
    (r₁ r₂ : List (Nat × Bytes)) :
    (d.extend b₁ n₁ l₁ r₁).extend b₂ n₂ l₂ r₂ =
      d.extend (b₁ ++ b₂) (n₁ + n₂) (l₂ ++ l₁) (r₁ ++ r₂) := by
  simp [extend, Nat.add_assoc, ← Array.toList_inj]

lemma append_eq_extend (d : Draft) (bytes : Bytes) (characters : Nat) :
    append bytes characters d = d.extend bytes characters [] [] := by
  simp [append, extend]

/-! ## Single effects -/

/-- The character of a number that is one. -/
lemma character_ofNat {n : Nat} (h : n ≤ CodePoint.largest) :
    (Quantity.ofNat n).character = .ok n := by
  have hmin : min n (0xFFFFFFFFFFFFFFFF) = n := by
    have : CodePoint.largest < 2 ^ 64 := by decide
    omega
  simp only [Quantity.ofNat, Quantity.character, Quantity.isNegative, Bool.false_and,
    Bool.false_eq_true, if_false, hmin]
  rw [if_neg (by omega)]

/-- A number that is a character is written. -/
lemma put_ofNat {n : Nat} (h : n ≤ CodePoint.largest) (d : Draft) :
    put (.ofNat n) d = .ok () (d.extend (CodePoint.encode n) 1 [] []) := by
  rw [put, character_ofNat h, ← append_eq_extend]
  rfl

/-- Numbers that are characters are written one after the other. -/
lemma putAll_characters {ns : List Nat} (h : ∀ n ∈ ns, n ≤ CodePoint.largest) (d : Draft) :
    putAll (ns.map .ofNat) d =
      .ok () (d.extend (ns.flatMap CodePoint.encode) ns.length [] []) := by
  induction ns generalizing d with
  | nil => rw [List.flatMap_nil, List.length_nil, extend_nil]; rfl
  | cons n ns ih =>
    rw [List.map_cons, putAll, bind_ok (put_ofNat (h n (by simp)) d),
      ih fun m hm => h m (by simp [hm])]
    rw [extend_extend, List.flatMap_cons, List.length_cons, Nat.add_comm 1]
    rfl

/-- Numbers below 256 are single bytes. -/
lemma flatMap_encode {ns : List Nat} (h : ∀ n ∈ ns, n < 256) :
    ns.flatMap CodePoint.encode = ns.map UInt8.ofNat := by
  induction ns with
  | nil => rfl
  | cons n ns ih =>
    rw [List.flatMap_cons, CodePoint.encode_of_lt (h n (by simp)), ih fun m hm => h m (by simp [hm])]
    rfl

/-- Numbers below 256 are written as one byte each. -/
lemma putAll_ofNat {ns : List Nat} (h : ∀ n ∈ ns, n < 256) (d : Draft) :
    putAll (ns.map .ofNat) d = .ok () (d.extend (ns.map UInt8.ofNat) ns.length [] []) := by
  have hle : ∀ n ∈ ns, n ≤ CodePoint.largest := by
    intro n hn
    have : 256 ≤ CodePoint.largest := by decide
    have := h n hn
    omega
  rw [putAll_characters hle, flatMap_encode h]

/-- Bytes as numbers to write. -/
def quantities (bs : Bytes) : List Quantity := bs.map fun b => .ofNat b.toNat

/-- Bytes are written as they stand. -/
lemma putAll_bytes (bs : Bytes) (d : Draft) :
    putAll (quantities bs) d = .ok () (d.extend bs bs.length [] []) := by
  have hlt : ∀ n ∈ bs.map UInt8.toNat, n < 256 := by
    intro n hn
    obtain ⟨b, -, rfl⟩ := List.mem_map.1 hn
    exact b.toNat_lt
  have h := putAll_ofNat hlt d
  rw [List.map_map, List.map_map, List.length_map] at h
  have hid : bs.map (UInt8.ofNat ∘ UInt8.toNat) = bs := by
    simp [Function.comp_def]
  rw [hid] at h
  exact h

/-- The low and the high part of a whole number. -/
lemma low_high_ofNat (v : Nat) :
    (Quantity.ofNat v).low = .ofNat (v % 256) ∧ (Quantity.ofNat v).high = .ofNat (v / 256) := by
  constructor
  · simp [Quantity.low, Quantity.ofNat]
  · have hn : Quantity.nearest 0 256 = 0 := by decide
    simp only [Quantity.high, Quantity.ofNat, hn]

/-- Bytes and a word behind them are written, the low byte of the word first. -/
lemma putWord_number {v : Nat} (hv : v / 256 ≤ CodePoint.largest) (front : Bytes) (d : Draft) :
    putWord (quantities front) (.number (.ofNat v)) d =
      .ok () (d.extend (front ++ lengthBytes v) (front.length + 2) [] []) := by
  have hns : ∀ n ∈ front.map UInt8.toNat ++ [v % 256, v / 256], n ≤ CodePoint.largest := by
    intro n hn
    have hbig : 256 ≤ CodePoint.largest := by decide
    rcases List.mem_append.1 hn with hn | hn
    · obtain ⟨b, -, rfl⟩ := List.mem_map.1 hn
      have := b.toNat_lt
      omega
    · simp only [List.mem_cons, List.not_mem_nil, or_false] at hn
      rcases hn with rfl | rfl
      · have := Nat.mod_lt v (by decide : 256 > 0)
        omega
      · exact hv
  have hquantities : quantities front ++ [(Quantity.ofNat v).low, (Quantity.ofNat v).high] =
      (front.map UInt8.toNat ++ [v % 256, v / 256]).map .ofNat := by
    simp [quantities, low_high_ofNat]
  have hfront : (front.map UInt8.toNat).flatMap CodePoint.encode = front := by
    rw [flatMap_encode fun n hn => by
      obtain ⟨b, -, rfl⟩ := List.mem_map.1 hn
      exact b.toNat_lt]
    simp [Function.comp_def]
  rw [putWord, hquantities, putAll_characters hns, List.flatMap_append, hfront]
  simp [lengthBytes]

/-- A label adds zeros, and the place is kept in mind. -/
lemma putWord_label (front : Bytes) (name : Bytes) (d : Draft) :
    putWord (quantities front) (.label name) d =
      .ok () (d.extend (front ++ [0, 0]) (front.length + 2) []
        [(d.offset + front.length, name)]) := by
  have hquantities : quantities front ++ [.ofNat 0, .ofNat 0] = quantities (front ++ [0, 0]) := by
    simp [quantities]
  rw [putWord, hquantities, bind_ok (putAll_bytes (front ++ [0, 0]) d)]
  have hplace : (d.extend (front ++ [0, 0]) (front ++ [0, 0]).length [] []).offset - 2 =
      d.offset + front.length := by
    simp only [extend, List.length_append, List.length_cons, List.length_nil]
    omega
  change EStateM.Result.ok () { d.extend (front ++ [0, 0]) (front ++ [0, 0]).length [] [] with
    references := (d.extend (front ++ [0, 0]) (front ++ [0, 0]).length [] []).references.push
      ((d.extend (front ++ [0, 0]) (front ++ [0, 0]).length [] []).offset - 2, name) } = _
  rw [hplace]
  simp [extend]

/-- A text is written as it stands. -/
lemma putText_apply (t : Bytes) (d : Draft) : putText t d = .ok () (d.extend t t.length [] []) := by
  rw [← append_eq_extend]
  rfl

/-- Numbers of a data line that fit into a byte are written as one byte each. -/
lemma putItems_ofNat {items : List Item} {ns : List Nat} (hns : ∀ n ∈ ns, n < 256)
    (hvalue : items.map Item.value = ns.map .ofNat) (hbyte : items.map Item.byte = ns.map .ofNat)
    (d : Draft) : putItems items d = .ok () (d.extend (ns.map UInt8.ofNat) ns.length [] []) := by
  induction items generalizing ns d with
  | nil =>
    obtain rfl : ns = [] := by simpa using hvalue.symm
    rw [List.map_nil, List.length_nil, extend_nil]
    rfl
  | cons item items ih =>
    cases ns with
    | nil => exact absurd hvalue (by simp)
    | cons n ns =>
      rw [List.map_cons, List.map_cons, List.cons.injEq] at hvalue hbyte
      have hn : n < 256 := hns n (by simp)
      have hsmall : item.value.exceeds 255 = false := by
        rw [hvalue.1]
        simp [Quantity.exceeds, Quantity.ofNat]
        omega
      have hput := put_ofNat (Nat.le_of_lt (Nat.lt_trans hn (by decide))) d
      have hrest := ih (fun m hm => hns m (by simp [hm])) hvalue.2 hbyte.2
      rw [putItems, hsmall, hbyte.1]
      change (put (.ofNat n) >>= fun _ => putItems items) d = _
      rw [bind_ok hput, hrest, extend_extend, CodePoint.encode_of_lt hn, Nat.add_comm 1]
      rfl

end Draft

/-! ## The code of statements -/

/-- The statement whose code is an instruction. -/
def Instruction.statement : Instruction → Statement
  | plain op => .plain op
  | unary op r => .unary op (.ofNat r.toNat)
  | binary op a b => .binary op (.ofNat a.toNat) (.ofNat b.toNat)
  | ternary op d a b => .ternary op (.ofNat d.toNat) (.ofNat a.toNat) (.ofNat b.toNat)
  | branch op t => .branch op (.number (.ofNat t.toNat))
  | immediate op r v => .immediate op (.ofNat r.toNat) (.number (.ofNat v.toNat))
  | literal op r t => .literal op (.ofNat r.toNat) t

namespace Draft

/-- The statement of a text constant adds the opcode, the register, the length and the text. The
length takes more than two bytes if it is not below 65536. -/
theorem statement_literal (op : Literal) (r : UInt8) {t : Bytes} (ht : t.length < 2 ^ 63)
    (d : Draft) :
    statement (.literal op (.ofNat r.toNat) t) d =
      .ok () (d.extend ((Opcode.literal op).toByte :: r :: lengthBytes t.length ++ t)
        (4 + t.length) [] []) := by
  have hlength : t.length / 256 ≤ CodePoint.largest := by
    have : CodePoint.largest = 2 ^ 63 - 1 := rfl
    omega
  have hword := putWord_number hlength [(Opcode.literal op).toByte, r] d
  change (putWord (quantities [(Opcode.literal op).toByte, r]) (.number (.ofNat t.length)) >>=
    fun _ => putText t) d = _
  rw [bind_ok hword, putText_apply, extend_extend]
  rfl

/-- The statement of a word operand adds the opcode, the bytes before the word and the word. -/
lemma putWord_word (front : Bytes) (w : UInt16) (d : Draft) :
    putWord (quantities front) (.number (.ofNat w.toNat)) d =
      .ok () (d.extend (front ++ Instruction.wordBytes w) (front.length + 2) [] []) := by
  have hw := w.toNat_lt
  have hlarge : 65536 ≤ CodePoint.largest := by decide
  rw [putWord_number (by omega), lengthBytes_of_lt hw, UInt16.ofNat_toNat]

/-- **The statement of an instruction adds its bytes**, one character for each. A text constant
must not be longer than two bytes can tell.

**Proof sketch.** The opcode and the registers are bytes, and a word is two bytes, so each part of
the instruction is written as it stands in the code. -/
theorem statement_instruction {i : Instruction} (hi : i.encode.length < 65536) (d : Draft) :
    statement i.statement d = .ok () (d.extend i.encode i.encode.length [] []) := by
  cases i with
  | plain op => exact putAll_bytes [(Opcode.plain op).toByte] d
  | unary op r => exact putAll_bytes [(Opcode.unary op).toByte, r] d
  | binary op a b => exact putAll_bytes [(Opcode.binary op).toByte, a, b] d
  | ternary op e a b => exact putAll_bytes [(Opcode.ternary op).toByte, e, a, b] d
  | branch op t => exact putWord_word [(Opcode.branch op).toByte] t d
  | immediate op r v =>
    cases op with
    | store =>
      have hv := v.toNat_lt
      have hsmall : (Quantity.ofNat v.toNat).exceeds 65535 = false := by
        simp [Quantity.exceeds, Quantity.ofNat]
        omega
      simp only [Instruction.statement, statement, hsmall]
      exact putWord_word [(Opcode.immediate .store).toByte, r] v d
    | compare => exact putWord_word [(Opcode.immediate .compare).toByte, r] v d
  | literal op r t =>
    have hlen : (Instruction.literal op r t).encode.length = 4 + t.length := by
      simp [Instruction.encode, Instruction.operandBytes, Instruction.wordBytes]
      omega
    have ht : t.length < 65536 := by omega
    rw [hlen, Instruction.statement, statement_literal op r (by omega), lengthBytes_of_lt ht]
    rfl

/-- Statements one after the other. -/
lemma statements_cons_of_ok {s : Statement} {rest : List Statement} {d d' : Draft}
    (h : statement s d = .ok () d') : statements (s :: rest) d = statements rest d' :=
  bind_ok h

/-- Statements that each add bytes to any draft, and nothing else, add them one behind the other. -/
lemma statements_map_extend {α : Type} {stated : α → Statement} {bytes : α → Bytes} {ls : List α}
    (h : ∀ l ∈ ls, ∀ d, ∃ n, statement (stated l) d = .ok () (d.extend (bytes l) n [] []))
    (d : Draft) :
    ∃ n, statements (ls.map stated) d = .ok () (d.extend (ls.flatMap bytes) n [] []) := by
  induction ls generalizing d with
  | nil => exact ⟨0, by rw [List.flatMap_nil, extend_nil]; rfl⟩
  | cons l ls ih =>
    obtain ⟨n, hfirst⟩ := h l List.mem_cons_self d
    obtain ⟨m, hrest⟩ := ih (fun l' hl' => h l' (List.mem_cons_of_mem _ hl'))
      (d.extend (bytes l) n [] [])
    refine ⟨n + m, ?_⟩
    rw [List.map_cons, statements_cons_of_ok hfirst, hrest, extend_extend, List.flatMap_cons]
    rfl

end Draft

end RegisterMachine
