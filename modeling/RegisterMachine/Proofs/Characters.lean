import RegisterMachine.Proofs.Drafting

/-!
# Characters and bytes

The assembler counts characters, and a file consists of bytes. A statement writes numbers and at
most one text, and each number is one character, whatever its size. A number that is not negative
and whose whole part is below 256 is one byte in the file; every other number that can be written at
all is several bytes.

## Main definitions

* `Quantity.IsByte` — numbers that are written as one byte.
* `Statement.numbers`, `Statement.text` — what a statement writes.
* `Statement.Fits` — every number that a statement writes is one byte.
* `Draft.Adds` — what a draft has become by the work on a statement.

## Main results

* `Quantity.length_bytes` — the number of bytes of a number.
* `Draft.adds_statement` — the work on a statement that ends without a fault.
* `Draft.Adds.size_eq_iff` — a statement adds as many bytes as characters exactly if it fits.
-/

namespace RegisterMachine

open Effect

/-! ## The bytes of a number -/

namespace CodePoint

lemma length_encode_pos (n : Nat) : 0 < (encode n).length := by
  unfold encode
  repeat' split
  all_goals simp

/-- Characters from 256 on take several bytes. -/
lemma length_encode_eq_one_iff (n : Nat) : (encode n).length = 1 ↔ n < 256 := by
  constructor
  · intro h
    by_contra hn
    unfold encode at h
    rw [if_neg hn] at h
    repeat' split at h
    all_goals simp at h
  · intro h
    rw [encode_of_lt h]
    rfl

end CodePoint

namespace Quantity

/-- A number that is written as one byte: it is not negative, and its whole part is below 256. -/
def IsByte : Quantity → Prop
  | nan => False
  | infinite _ => False
  | finite negative whole fraction =>
    isNegative (finite negative whole fraction) = false ∧ whole < 256

instance : DecidablePred IsByte
  | nan => inferInstanceAs (Decidable False)
  | infinite _ => inferInstanceAs (Decidable False)
  | finite negative whole fraction =>
    inferInstanceAs (Decidable (isNegative (finite negative whole fraction) = false ∧ whole < 256))

/-- The bytes as which a number is written; none if it cannot be written. -/
def bytes (q : Quantity) : Bytes :=
  match q.character with
  | .ok n => CodePoint.encode n
  | .error _ => []

/-- The character of a number is below 256 exactly if the number is one byte. A negative number has
the replacement for its character. -/
lemma character_lt_iff {q : Quantity} {n : Nat} (h : q.character = .ok n) : n < 256 ↔ q.IsByte := by
  cases q with
  | nan => cases h
  | infinite negative => cases h
  | finite negative whole fraction =>
    rw [character] at h
    split at h
    case isTrue hneg =>
      cases h
      simp [IsByte, hneg, CodePoint.replacement]
    case isFalse hneg =>
      dsimp only at h
      split at h
      · cases h
      · cases h
        simp only [IsByte, Bool.not_eq_true _ ▸ hneg, true_and]
        omega

/-- **The number of bytes of a number**: at least one, and only one exactly if it is a byte. -/
lemma length_bytes {q : Quantity} {n : Nat} (h : q.character = .ok n) :
    1 ≤ q.bytes.length ∧ (q.bytes.length = 1 ↔ q.IsByte) := by
  rw [bytes, h, ← character_lt_iff h, ← CodePoint.length_encode_eq_one_iff]
  exact ⟨CodePoint.length_encode_pos n, Iff.rfl⟩

/-- The number of bytes of several numbers. -/
lemma length_flatMap_bytes {qs : List Quantity} (h : ∀ q ∈ qs, ∃ n, q.character = .ok n) :
    qs.length ≤ (qs.flatMap bytes).length ∧
      ((qs.flatMap bytes).length = qs.length ↔ ∀ q ∈ qs, q.IsByte) := by
  induction qs with
  | nil => simp
  | cons q qs ih =>
    obtain ⟨n, hn⟩ := h q (by simp)
    obtain ⟨hpos, hone⟩ := length_bytes hn
    obtain ⟨hle, hall⟩ := ih fun p hp => h p (by simp [hp])
    rw [List.flatMap_cons, List.length_append, List.length_cons, List.forall_mem_cons, ← hone,
      ← hall]
    omega

end Quantity

/-! ## What a statement writes -/

/-- The two numbers of a word; zeros stand for a label. -/
def Target.numbers : Target → List Quantity
  | number q => [q.low, q.high]
  | label _ => [.ofNat 0, .ofNat 0]

/-- The label of a word, if it is one. -/
def Target.label? : Target → Option Bytes
  | number _ => none
  | label name => some name

namespace Statement

/-- The numbers that a statement writes, in order. -/
def numbers : Statement → List Quantity
  | skip | label _ | unknown _ => []
  | plain op => [Draft.opcode (.plain op)]
  | unary op r => [Draft.opcode (.unary op), r]
  | binary op a b => [Draft.opcode (.binary op), a, b]
  | ternary op d a b => [Draft.opcode (.ternary op), d, a, b]
  | branch op t => Draft.opcode (.branch op) :: t.numbers
  | immediate op r t => Draft.opcode (.immediate op) :: r :: t.numbers
  | literal op r t =>
    Draft.opcode (.literal op) :: r :: (Target.number (.ofNat t.length)).numbers
  | service n => [Draft.serviceOpcode, n]
  | data items => items.map Item.byte

/-- The text that a statement writes behind its numbers. -/
def text : Statement → Bytes
  | literal _ _ t => t
  | _ => []

/-- The name that a statement gives to its place. -/
def label? : Statement → Option Bytes
  | label name => some name
  | _ => none

/-- The label to which a statement refers. -/
def reference? : Statement → Option Bytes
  | branch _ t => t.label?
  | immediate _ _ t => t.label?
  | _ => none

/-- Every number that a statement writes is one byte. -/
def Fits (s : Statement) : Prop := ∀ q ∈ s.numbers, q.IsByte

instance : DecidablePred Fits := fun s => inferInstanceAs (Decidable (∀ q ∈ s.numbers, q.IsByte))

/-- A statement that refers to a label writes at least the two bytes of the address. -/
lemma two_le_length_numbers {s : Statement} {name : Bytes} (h : s.reference? = some name) :
    2 ≤ s.numbers.length := by
  cases s with
  | branch op t => cases t <;> simp [numbers, Target.numbers]
  | immediate op r t => cases t <;> simp [numbers, Target.numbers]
  | _ => cases h

end Statement

namespace Draft

/-- What a draft has become by the work on a statement. -/
structure Adds (d : Draft) (s : Statement) (d' : Draft) : Prop where
  /-- Its numbers can be written. -/
  characters : ∀ q ∈ s.numbers, ∃ n, q.character = .ok n
  /-- Its numbers and its text are written. -/
  code : d'.code = d.code ++ (s.numbers.flatMap Quantity.bytes ++ s.text)
  /-- Each number counts as one. -/
  offset : d'.offset = d.offset + (s.numbers.length + s.text.length)
  /-- A label stands for the count before it. -/
  labels : d'.labels = (s.label?.map (·, d.offset)).toList ++ d.labels
  /-- The place of an address is the last two that were counted. -/
  references : d'.references = d.references ++ (s.reference?.map (d'.offset - 2, ·)).toList

lemma put_ok {q : Quantity} {d d' : Draft} (h : put q d = .ok () d') :
    (∃ n, q.character = .ok n) ∧ d' = d.extend q.bytes 1 [] [] := by
  rw [put] at h
  cases hq : q.character with
  | error f =>
    rw [hq] at h
    exact absurd h throw_ne_ok
  | ok n =>
    rw [hq] at h
    cases h
    rw [Quantity.bytes, hq]
    exact ⟨⟨n, rfl⟩, append_eq_extend d _ 1⟩

lemma putAll_ok {qs : List Quantity} {d d' : Draft} (h : putAll qs d = .ok () d') :
    (∀ q ∈ qs, ∃ n, q.character = .ok n) ∧
      d' = d.extend (qs.flatMap Quantity.bytes) qs.length [] [] := by
  induction qs generalizing d with
  | nil =>
    cases h
    exact ⟨by simp, (extend_nil _).symm⟩
  | cons q qs ih =>
    obtain ⟨_, d₁, hput, hrest⟩ := of_bind_ok h
    obtain ⟨hq, rfl⟩ := put_ok hput
    obtain ⟨hqs, rfl⟩ := ih hrest
    refine ⟨List.forall_mem_cons.2 ⟨hq, hqs⟩, ?_⟩
    rw [extend_extend, List.flatMap_cons, List.length_cons, Nat.add_comm 1]
    rfl

/-- The numbers of a data line that are written. -/
lemma putItems_ok {items : List Item} {d d' : Draft} (h : putItems items d = .ok () d') :
    putAll (items.map Item.byte) d = .ok () d' := by
  induction items generalizing d with
  | nil => exact h
  | cons item items ih =>
    rw [putItems] at h
    cases hlarge : item.value.exceeds 255 with
    | true =>
      rw [hlarge] at h
      exact absurd h throw_ne_ok
    | false =>
      rw [hlarge] at h
      obtain ⟨_, d₁, hput, hrest⟩ := of_bind_ok h
      rw [List.map_cons, putAll, bind_ok hput]
      exact ih hrest

lemma defineLabel_ok {name : Bytes} {d d' : Draft} (h : defineLabel name d = .ok () d') :
    ∃ notices, d' = { d with labels := (name, d.offset) :: d.labels, notices } := by
  have hget : (get : Drafting Draft) d = .ok d d := rfl
  unfold defineLabel at h
  rw [bind_ok hget] at h
  -- the two remarks may or may not be made
  cases hrepeated : (d.labels.lookup name).getD 0 != 0 <;> cases hnumeric : looksNumeric name
  all_goals
    rw [hrepeated, hnumeric] at h
    cases h
    exact ⟨_, rfl⟩

/-- A statement that writes nothing but numbers. -/
lemma adds_of_putAll {s : Statement} {d d' : Draft} (h : putAll s.numbers d = .ok () d')
    (htext : s.text = []) (hlabel : s.label? = none) (hreference : s.reference? = none) :
    Adds d s d' := by
  obtain ⟨hcharacters, rfl⟩ := putAll_ok h
  constructor
  · exact hcharacters
  · rw [htext, List.append_nil]
    rfl
  · rw [htext]
    rfl
  · rw [hlabel]
    rfl
  · rw [hreference]
    rfl

/-- A statement that writes numbers and a word behind them. -/
lemma adds_of_putWord {s : Statement} {front : List Quantity} {t : Target} {d d' : Draft}
    (h : putWord front t d = .ok () d') (hnumbers : s.numbers = front ++ t.numbers)
    (htext : s.text = []) (hlabel : s.label? = none) (hreference : s.reference? = t.label?) :
    Adds d s d' := by
  cases t with
  | number q => exact adds_of_putAll (hnumbers ▸ h) htext hlabel hreference
  | label name =>
    obtain ⟨_, d₁, hall, hplace⟩ := of_bind_ok h
    obtain ⟨hcharacters, rfl⟩ := putAll_ok hall
    cases hplace
    constructor
    · rw [hnumbers]
      exact hcharacters
    · rw [hnumbers, htext, List.append_nil]
      rfl
    · rw [hnumbers, htext]
      rfl
    · rw [hlabel]
      rfl
    · rw [hreference]
      simp [extend, Target.label?]

/-- **The work on a statement that ends without a fault.** -/
theorem adds_statement {s : Statement} {d d' : Draft} (h : statement s d = .ok () d') :
    Adds d s d' := by
  cases s with
  | skip =>
    cases h
    constructor <;> simp [Statement.numbers, Statement.text, Statement.label?, Statement.reference?]
  | label name =>
    obtain ⟨notices, rfl⟩ := defineLabel_ok h
    constructor <;> simp [Statement.numbers, Statement.text, Statement.label?, Statement.reference?]
  | unknown line =>
    cases h
    constructor <;> simp [Statement.numbers, Statement.text, Statement.label?, Statement.reference?]
  | plain | unary | binary | ternary | service => exact adds_of_putAll h rfl rfl rfl
  | data items => exact adds_of_putAll (putItems_ok h) rfl rfl rfl
  | branch op t => exact adds_of_putWord h rfl rfl rfl rfl
  | immediate op r t =>
    have hword : putWord [opcode (.immediate op), r] t d = .ok () d' := by
      cases op with
      | compare => exact h
      | store =>
        cases t with
        | label name => exact h
        | number q =>
          rw [statement] at h
          split at h
          · exact absurd h throw_ne_ok
          · exact h
    exact adds_of_putWord hword rfl rfl rfl rfl
  | literal op r t =>
    obtain ⟨_, d₁, hword, htext⟩ := of_bind_ok h
    obtain ⟨hcharacters, rfl⟩ := putAll_ok hword
    rw [putText_apply, extend_extend] at htext
    cases htext
    exact ⟨hcharacters, rfl, rfl, rfl, rfl⟩

/-- The bytes that a statement adds are no fewer than the characters that it adds, and as many
exactly if every number that it writes is one byte. -/
theorem Adds.size_eq_iff {s : Statement} {d d' : Draft} (h : Adds d s d') :
    d.code.size + (s.numbers.length + s.text.length) ≤ d'.code.size ∧
      (d'.code.size = d.code.size + (s.numbers.length + s.text.length) ↔ s.Fits) := by
  obtain ⟨hle, hfits⟩ := Quantity.length_flatMap_bytes h.characters
  have hsize : d'.code.size =
      d.code.size + ((s.numbers.flatMap Quantity.bytes).length + s.text.length) := by
    rw [h.code, ← Array.length_toList, Array.toList_appendList, List.length_append,
      List.length_append, Array.length_toList]
  rw [Statement.Fits, ← hfits]
  omega

end Draft

end RegisterMachine
