import RegisterMachine.Proofs.Fetching
import RegisterMachine.Proofs.SourceMachine

/-!
# Where the lines of a program lie

The code of a program holds the encodings of its lines of code one behind the other, so each begins
at its address, and labels stand for the addresses of the lines after them. What the machine reads
at the address of a line is the instruction of the line.

## Main results

* `Source.drop_image` — the code from the address of a line on.
* `Source.address_eq` — a label has the address of the line after it.
* `Source.decode_encode_of_text` — an encoding is read as the instruction it encodes.
* `Source.cycle_instr`, `Source.cycle_end` — what a cycle does at the address of an instruction, and at
  the end of the program.
-/

namespace RegisterMachine.Source

open Effect Listing

/-! ## Addresses of lines -/

/-- The length of an encoding is the size of the line, whatever the addresses. -/
lemma Code.length_encode (c : Code) (f : Name → Nat) : (c.encode f).length = c.size :=
  Line.length_encode (.code 0 c) f

lemma codes_append (p q : List Line) : codes (p ++ q) = codes p ++ codes q :=
  List.filterMap_append

/-- Labels have no size. -/
lemma size_eq_codes (p : List Line) : size p = ((codes p).map Code.size).sum := by
  induction p with
  | nil => rfl
  | cons l p ih =>
    cases l with
    | label name =>
      have hsize : (Line.label name).size = 0 := rfl
      rw [size, List.map_cons, List.sum_cons, hsize, Nat.zero_add]
      exact ih
    | code gap c =>
      rw [size, List.map_cons, List.sum_cons, codes, List.filterMap_cons]
      simp only [Line.code?, List.map_cons, List.sum_cons]
      exact congrArg (c.size + ·) ih

/-- The code of a program consists of the encodings of its lines of code. -/
lemma image_eq_codes (p : List Line) :
    image p = (codes p).flatMap (Code.encode (address p)) := by
  have hlines : ∀ (f : Name → Nat) (q : List Line),
      q.flatMap (Line.encode f) = (codes q).flatMap (Code.encode f) := by
    intro f q
    induction q with
    | nil => rfl
    | cons l q ih =>
      cases l with
      | label name => exact ih
      | code gap c => exact congrArg (c.encode f ++ ·) ih
  exact hlines (address p) p

/-- The bytes of the first lines of code are as many as the address of the next one. -/
lemma length_take_codes (p : List Line) (f : Name → Nat) (k : Nat) :
    (((codes p).take k).flatMap (Code.encode f)).length = byteAddress p k := by
  rw [List.length_flatMap, byteAddress]
  exact congrArg List.sum (List.map_congr_left fun c _ => c.length_encode f)

/-- **The code from the address of a line on** consists of the encodings of this and the later lines. -/
lemma drop_image (p : List Line) (k : Nat) :
    (image p).drop (byteAddress p k) = ((codes p).drop k).flatMap (Code.encode (address p)) := by
  have hsplit : image p = ((codes p).take k).flatMap (Code.encode (address p)) ++
      ((codes p).drop k).flatMap (Code.encode (address p)) := by
    rw [image_eq_codes, ← List.flatMap_append, List.take_append_drop]
  rw [hsplit, ← length_take_codes p (address p) k, List.drop_left]

/-- The next line begins where a line ends. -/
lemma byteAddress_succ {p : List Line} {k : Nat} {c : Code} (h : (codes p)[k]? = some c) :
    byteAddress p (k + 1) = byteAddress p k + c.size := by
  rw [byteAddress, byteAddress, List.take_add_one, h]
  simp

lemma byteAddress_length (p : List Line) : byteAddress p (codes p).length = size p := by
  rw [byteAddress, List.take_length, size_eq_codes]

/-- No line begins behind the end of the program. -/
lemma byteAddress_le (p : List Line) (k : Nat) : byteAddress p k ≤ size p := by
  have hsplit : (codes p).take k ++ (codes p).drop k = codes p := List.take_append_drop k _
  have hsum : byteAddress p k + (((codes p).drop k).map Code.size).sum = size p := by
    rw [size_eq_codes, byteAddress, ← List.sum_append, ← List.map_append, hsplit]
  omega

/-! ## Labels and targets -/

/-- **A label has the address of the line after it.** -/
lemma address_eq (p : List Line) (name : Name) :
    address p name = byteAddress p (labelIndex p name) ∧ labelIndex p name ≤ (codes p).length := by
  have hsplit : p.takeWhile (fun l => l.label? ≠ some name) ++
      p.dropWhile (fun l => l.label? ≠ some name) = p := List.takeWhile_append_dropWhile
  have hcodes := codes_append (p.takeWhile fun l => l.label? ≠ some name)
    (p.dropWhile fun l => l.label? ≠ some name)
  rw [hsplit] at hcodes
  constructor
  · rw [address, size_eq_codes, byteAddress, labelIndex, hcodes, List.take_left]
  · rw [labelIndex, hcodes, List.length_append]
    omega

/-- The line at an address begins there. -/
lemma of_indexAt? {p : List Line} {a k : Nat} (h : indexAt? p a = some k) :
    byteAddress p k = a ∧ k ≤ (codes p).length := by
  have hfound := List.find?_some h
  have hmem := List.mem_range.1 (List.mem_of_find?_eq_some h)
  exact ⟨by simpa using hfound, by omega⟩

section Words

variable {p : List Line} (hsize : size p ≤ 65534)

include hsize

/-- The word of an operand is the number that it names. -/
lemma toNat_word_operand (o : Operand) : (o.word (address p)).toNat = o.value p := by
  cases o with
  | number n => exact toNat_word n
  | label name =>
    have hle := byteAddress_le p (labelIndex p name)
    rw [Operand.word, (address_eq p name).1, Operand.value, UInt16.toNat_ofNat']
    omega

/-- The word of an operand is the address of the line that it names as a target. -/
lemma toNat_word_target {o : Operand} {k : Nat} (h : o.index? p = some k) :
    (o.word (address p)).toNat = byteAddress p k ∧ k ≤ (codes p).length := by
  rw [toNat_word_operand hsize]
  cases o with
  | number n =>
    obtain ⟨haddress, hle⟩ := of_indexAt? h
    exact ⟨haddress.symm, hle⟩
  | label name =>
    obtain rfl : labelIndex p name = k := Option.some.inj h
    exact ⟨rfl, (address_eq p name).2⟩

end Words

/-! ## Reading the lines -/

/-- **An encoding is read as the instruction it encodes**, if its text is not too long for its length. -/
lemma decode_encode_of_text {i : Instruction}
    (hi : ∀ op r t, i = .literal op r t → t.length < 65536) (rest : Bytes) :
    decode i.opcode.toByte (i.operandBytes ++ rest) = (.instruction i, i.operandBytes.length) := by
  have hdecode : decode i.opcode.toByte (i.operandBytes ++ rest) =
      (.instruction (operands (i.operandBytes ++ rest) i.opcode).1,
        (operands (i.operandBytes ++ rest) i.opcode).2) := by
    rw [decode, Opcode.ofByte?_toByte]
  rw [hdecode]
  cases i with
  | plain | unary | binary | ternary => rfl
  | branch op t =>
    obtain ⟨low, high, hbytes, hword⟩ := wordOf_wordBytes t
    simp only [Instruction.operandBytes, hbytes, Instruction.opcode]
    rw [← hword]
    rfl
  | immediate op r v =>
    obtain ⟨low, high, hbytes, hword⟩ := wordOf_wordBytes v
    simp only [Instruction.operandBytes, hbytes, Instruction.opcode]
    rw [← hword]
    rfl
  | literal op r t =>
    obtain ⟨low, high, hbytes, hword⟩ := wordOf_wordBytes (UInt16.ofNat t.length)
    have hlength : (wordOf low high).toNat = t.length := by
      have hle : t.length < 65536 := hi op r t rfl
      rw [hword, UInt16.toNat_ofNat']
      omega
    simp only [Instruction.operandBytes, hbytes, Instruction.opcode]
    have hoperands : operands (r :: [low, high] ++ t ++ rest) (.literal op) =
        (.literal op r ((t ++ rest).take (wordOf low high).toNat), 3 + (wordOf low high).toNat) := rfl
    rw [hoperands, hlength, List.take_left]
    simp only [List.cons_append, List.nil_append, List.length_cons, Prod.mk.injEq, true_and]
    omega

/-- The same for an encoding whose whole length is bounded. -/
lemma decode_encode {i : Instruction} (hi : i.encode.length < 65536) (rest : Bytes) :
    decode i.opcode.toByte (i.operandBytes ++ rest) = (.instruction i, i.operandBytes.length) := by
  refine decode_encode_of_text (fun op r t heq => ?_) rest
  subst heq
  simp only [Instruction.encode, Instruction.operandBytes, List.length_cons,
    List.length_append] at hi
  omega

/-- A zero behind the code is there already. -/
lemma ofBytes_append_zero (code : Bytes) : Ram.ofBytes (code ++ [0]) = Ram.ofBytes code := by
  apply Vector.ext
  intro i hi
  have h₁ := Ram.getElem_ofBytes (code ++ [0]) ⟨i, hi⟩
  have h₂ := Ram.getElem_ofBytes code ⟨i, hi⟩
  have hbyte : (code ++ [0])[i]?.getD 0 = code[i]?.getD 0 := by
    rcases Nat.lt_or_ge i code.length with h | h
    · rw [List.getElem?_append_left h]
    · rw [List.getElem?_append_right h, List.getElem?_eq_none h]
      cases i - code.length with
      | zero => rfl
      | succ j => rfl
  exact h₁.trans (hbyte.trans h₂.symm)

/-- The registers of an instruction become its register operands. -/
lemma Instr.registers_resolve (i : Instr) (f : Name → Nat) :
    (i.resolve f).registers = i.registers.map registerByte := by
  cases i <;> rfl

/-- **A cycle at the address of an instruction carries it out**, with the pointer on its last byte. -/
theorem cycle_instr {p : List Line} (hsize : size p ≤ 65535) {k : Nat} {i : Instr}
    (hcode : (codes p)[k]? = some (.instr i)) (hregs : ∀ r ∈ i.registers, r.value < registerCount)
    {s : State} (hram : s.machine.ram = Ram.ofBytes (image p))
    (hip : s.machine.ip = UInt32.ofNat (byteAddress p k)) (c : Config) :
    cycle Table.builtin c s =
      ((Line.instruction (i.resolve (address p))).perform c >>=
          fun _ => pure ((i.resolve (address p)).opcode.toByte, true))
        ((s.fetched c (byteAddress p k) (i.resolve (address p)).opcode.toByte).seek
          (byteAddress p (k + 1) - 1)) := by
  set j := i.resolve (address p) with hj
  have hnext := byteAddress_succ hcode
  have hle := byteAddress_le p (k + 1)
  have hlength : (Code.instr i).size = j.operandBytes.length + 1 := by
    rw [← Code.length_encode _ (address p)]
    rfl
  have hshort : j.encode.length < 65536 := by
    rw [Instruction.encode, List.length_cons]
    omega
  -- the code from this address on is the encoding of the instruction, and that of the later lines
  obtain ⟨rest, hrest⟩ : ∃ rest, (image p).drop (byteAddress p k) =
      j.opcode.toByte :: (j.operandBytes ++ rest) := by
    have hk : k < (codes p).length := (List.getElem?_eq_some_iff.1 hcode).1
    have hget : (codes p)[k] = .instr i := (List.getElem?_eq_some_iff.1 hcode).2
    refine ⟨((codes p).drop (k + 1)).flatMap (Code.encode (address p)), ?_⟩
    rw [drop_image, List.drop_eq_getElem_cons hk, hget, List.flatMap_cons]
    rfl
  have hdecode := decode_encode hshort rest
  have hlast : byteAddress p (k + 1) - 1 = byteAddress p k + j.operandBytes.length := by omega
  have hcycle := cycle_of_drop hram hip hrest c (by rw [hdecode]; simp only; omega) (by
    rw [hdecode]
    intro r hr
    rw [Listing.Line.registers, hj, Instr.registers_resolve] at hr
    obtain ⟨q, hq, rfl⟩ := List.mem_map.1 hr
    rw [toNat_registerByte]
    exact hregs q hq)
  rw [hdecode] at hcycle
  rw [hlast]
  exact hcycle

/-- A cycle at the end of the program finds the byte of an exit there. -/
theorem cycle_end {p : List Line} (hsize : size p ≤ 65534) {s : State}
    (hram : s.machine.ram = Ram.ofBytes (image p))
    (hip : s.machine.ip = UInt32.ofNat (size p)) (c : Config) :
    cycle Table.builtin c s =
      ((Line.instruction (.plain .exit)).perform c >>= fun _ => pure (0, true))
        ((s.fetched c (size p) 0).seek (size p)) := by
  have hlength : (image p).length = size p := length_flatMap_encode p (address p)
  have hrest : (image p ++ [0]).drop (size p) = [0] := by rw [← hlength, List.drop_left]
  rw [← ofBytes_append_zero] at hram
  have hdecode : decode 0 [] = (.instruction (.plain .exit), 0) := rfl
  have hcycle := cycle_of_drop hram hip hrest c (by rw [hdecode]; simp only; omega) (by
    rw [hdecode]
    intro r hr
    exact absurd hr (by simp [Listing.Line.registers, Instruction.registers]))
  rw [hdecode] at hcycle
  exact hcycle

end RegisterMachine.Source
