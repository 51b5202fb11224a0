import RegisterMachine.Proofs.Footprints

/-!
# The operands behind an opcode

The operands of an instruction are the bytes behind its opcode, on the ring of all addresses. A host
that stops at a report stops while the operands are read, if a register operand that is checked is
not that of a register. Otherwise the instruction is read that stands there, and nothing but the
pointer has changed.

## Main definitions

* `State.operand`, `State.operandWord`, `State.operandBytes` — a byte, a word and a text behind the
  opcode under the pointer.
* `State.reading` — the state in which so many bytes behind the opcode have been read.
* `Ram.textLength`, `Ram.textBytes` — the text that stands behind an address.
* `Opcode.arity`, `Opcode.checkedArity` — how many register operands an operation has, and how many
  of them are checked.
* `State.operands` — the instruction whose operands stand behind the opcode, and their length.
* `Ram.Holds`, `State.At` — some code stands from an address on, or from the instruction pointer on.
* `State.instruction?` — the instruction that the next cycle carries out.

## Main results

* `fetchWord_seek`, `fetchText_seek` — the word and the text behind an address are read.
* `fetchInstruction_of_outside` — a register operand that is checked and names no register is
  reported.
* `fetchInstruction_of_checked` — otherwise the instruction is read.
* `State.instruction?_eq_some_iff` — the instruction of a cycle is the one that is read.
-/

namespace RegisterMachine

open Effect Exec

/-! ## Bytes behind the opcode -/

/-- A byte behind the opcode under the pointer. -/
def State.operand (s : State) (k : Nat) : UInt8 :=
  s.machine.ram[Address.onRing ((Address.ofPointer s.machine.ip).val + k)]

/-- The state in which so many bytes behind the opcode under the pointer have been read. -/
def State.reading (s : State) (c : Config) (k : Nat) : State :=
  (s.begun c).seek (Address.onRing ((Address.ofPointer s.machine.ip).val + k)).val

lemma State.reading_zero (s : State) (c : Config) : s.reading c 0 = s.begun c := by
  have hlt : (Address.ofPointer s.machine.ip).val < ramSize := (Address.ofPointer s.machine.ip).isLt
  simp only [State.reading, Address.onRing, Nat.add_zero, Nat.mod_eq_of_lt hlt]
  exact seek_begun s c

@[simp]
lemma machine_reading (s : State) (c : Config) (k : Nat) :
    (s.reading c k).machine = { s.machine with
      ip := (Address.onRing ((Address.ofPointer s.machine.ip).val + k)).toPointer } := by
  rw [State.reading, State.seek, machine_begun]
  rfl

lemma fetchByte_reading (s : State) (c : Config) (k : Nat) :
    fetchByte (s.reading c k) = .ok (s.operand (k + 1)) (s.reading c (k + 1)) := by
  have hnext := fetchByte_seek (s.begun c)
    (Address.onRing ((Address.ofPointer s.machine.ip).val + k))
  simp only [onRing_add, Nat.add_assoc, machine_begun] at hnext
  exact hnext

lemma State.opcode_eq_operand (s : State) : s.opcode = s.operand 0 := by
  have hlt : (Address.ofPointer s.machine.ip).val < ramSize := (Address.ofPointer s.machine.ip).isLt
  simp only [State.opcode, State.operand, Address.onRing, Nat.add_zero, Nat.mod_eq_of_lt hlt]

/-- The operands of a program that is loaded are bytes of its image. -/
lemma operand_ofBytes {code : Bytes} {s : State} (hram : s.machine.ram = Ram.ofBytes code)
    (k : Nat) :
    s.operand k = code[((Address.ofPointer s.machine.ip).val + k) % ramSize]?.getD 0 := by
  rw [State.operand, hram, Ram.getElem_ofBytes]
  rfl

/-! ## Code under the pointer -/

/-- Some code stands in the memory from an address on, on the ring of all addresses. -/
def Ram.Holds (ram : Ram) (a : Nat) (code : Bytes) : Prop :=
  ∀ k < code.length, code[k]? = some (ram.get (Address.onRing (a + k)))

/-- Some code stands from the instruction pointer on. -/
def State.At (s : State) (code : Bytes) : Prop :=
  s.machine.ram.Holds (Address.ofPointer s.machine.ip).val code

section Code

variable {s s' : State} {code : Bytes}

/-- The bytes that are read are those of the code. -/
lemma State.At.operand_eq (h : s.At code) {k : Nat} {b : UInt8} (hb : code[k]? = some b) :
    s.operand k = b := by
  obtain ⟨hk, -⟩ := List.getElem?_eq_some_iff.1 hb
  exact (Option.some.inj (hb.symm.trans (h k hk))).symm

lemma State.At.opcode_eq {op : Opcode} {t : Bytes} (h : s.At (op.toByte :: t)) :
    s.opcode = op.toByte :=
  s.opcode_eq_operand.trans (h.operand_eq rfl)

/-- Where the pointer has moved on by some bytes, what is left of the code stands under it. -/
lemma State.At.drop (h : s.At code) (hram : s'.machine.ram = s.machine.ram) {n : Nat}
    (hip : Address.ofPointer s'.machine.ip =
      Address.onRing ((Address.ofPointer s.machine.ip).val + n)) : s'.At (code.drop n) := by
  intro k hk
  rw [List.length_drop] at hk
  rw [List.getElem?_drop, hram, hip, onRing_add, Nat.add_assoc]
  exact h (n + k) (by omega)

/-- A pointer that is set to where some code stands. -/
lemma at_seek {a : Address} (h : s.machine.ram.Holds a.val code) : (s.seek a.val).At code := by
  have haddress : Address.ofPointer (s.seek a.val).machine.ip = a := a.ofPointer_toPointer
  rw [State.At, haddress]
  exact h

/-- A program that is loaded stands from each of its addresses on. -/
lemma at_of_ofBytes (hram : s.machine.ram = Ram.ofBytes code) {n : Nat}
    (hip : s.machine.ip = UInt32.ofNat n) (hfit : code.length ≤ ramSize) : s.At (code.drop n) := by
  intro k hk
  rw [List.length_drop] at hk
  have hlt : n + k < ramSize := by omega
  have haddress : (Address.ofPointer s.machine.ip).val = n := by
    rw [hip, ofPointer_ofNat (Nat.lt_of_le_of_lt (Nat.le_add_right n k) hlt)]
  have hoperand := operand_ofBytes hram k
  rw [haddress, Nat.mod_eq_of_lt hlt, List.getElem?_eq_getElem (by omega), Option.getD_some]
    at hoperand
  rw [List.getElem?_drop, List.getElem?_eq_getElem (by omega)]
  exact congrArg some hoperand.symm

end Code

/-! ## Words and texts -/

/-- A word behind the opcode under the pointer. -/
def State.operandWord (s : State) (k : Nat) : UInt16 := wordOf (s.operand k) (s.operand (k + 1))

/-- The word behind an address. -/
lemma fetchWord_seek (s : State) (a : Address) :
    fetchWord (s.seek a.val) =
      .ok (wordOf (s.machine.ram.get (Address.onRing (a.val + 1)))
        (s.machine.ram.get (Address.onRing (a.val + 2))))
        (s.seek (Address.onRing (a.val + 2)).val) := by
  have hhigh := fetchByte_seek s (Address.onRing (a.val + 1))
  simp only [onRing_add, Nat.add_assoc] at hhigh
  rw [fetchWord, bind_ok (fetchByte_seek s a), bind_ok hhigh]
  rfl

lemma fetchWord_reading (s : State) (c : Config) (k : Nat) :
    fetchWord (s.reading c k) = .ok (s.operandWord (k + 1)) (s.reading c (k + 2)) := by
  have hword := fetchWord_seek (s.begun c)
    (Address.onRing ((Address.ofPointer s.machine.ip).val + k))
  simp only [onRing_add, Nat.add_assoc, machine_begun] at hword
  exact hword

/-- Bytes are read from the memory one after the other, on the ring of all addresses.

**Proof sketch.** By induction on the number of bytes; the pointer is always one behind the address
that was read last. -/
lemma readAfter_toPointer (ram : Ram) (done : Bytes) (n : Nat) (a : Address) :
    ram.readAfter done n (a.toPointer + 1) =
      (done.reverse ++ (List.range n).map fun j => ram[Address.onRing (a.val + (j + 1))],
        (Address.onRing (a.val + n)).toPointer + 1) := by
  induction n generalizing a done with
  | zero =>
    have ha : Address.onRing a.val = a := Fin.ext (Nat.mod_eq_of_lt a.isLt)
    simp [Ram.readAfter, ha]
  | succ n ih =>
    rw [Ram.readAfter]
    simp only [ofPointer_toPointer_succ, ih, onRing_add, Nat.add_assoc, List.range_succ_eq_map]
    simp [Function.comp_def, Nat.add_comm 1]

/-- The length of the text behind an address, which stands in front of it. -/
def Ram.textLength (ram : Ram) (a : Nat) : Nat :=
  (ram.get (Address.onRing (a + 1))).toNat + 256 * (ram.get (Address.onRing (a + 2))).toNat

/-- The bytes of the text behind an address. -/
def Ram.textBytes (ram : Ram) (a : Nat) : Bytes :=
  (List.range (ram.textLength a)).map fun i => ram.get (Address.onRing (a + 3 + i))

/-- The bytes of a text are read one after the other. -/
lemma read_textLength (ram : Ram) (a : Nat) :
    ram.read (ram.textLength a) ((Address.onRing (a + 2)).toPointer + 1) =
      (ram.textBytes a, (Address.onRing (a + 2 + ram.textLength a)).toPointer + 1) := by
  have hread := readAfter_toPointer ram [] (ram.textLength a) (Address.onRing (a + 2))
  have hindex (i : Nat) : a + 3 + i = a + 2 + (i + 1) := by omega
  simp only [onRing_add] at hread
  simp only [Ram.textBytes, hindex]
  exact hread

/-- The text behind an address. -/
lemma fetchText_seek (s : State) (a : Address) :
    fetchText (s.seek a.val) =
      .ok (Bytes.upToNul (s.machine.ram.textBytes a.val))
        (s.seek (Address.onRing (a.val + 2 + s.machine.ram.textLength a.val)).val) := by
  have hlength : (wordOf (s.machine.ram.get (Address.onRing (a.val + 1)))
      (s.machine.ram.get (Address.onRing (a.val + 2)))).toNat = s.machine.ram.textLength a.val :=
    wordOf_toNat _ _
  have hread : (s.seek (Address.onRing (a.val + 2)).val).machine.ram.read
      (s.machine.ram.textLength a.val)
      ((s.seek (Address.onRing (a.val + 2)).val).machine.ip + 1) = _ :=
    read_textLength s.machine.ram a.val
  rw [fetchText, bind_ok (fetchWord_seek s a), bind_ok (pointer_apply _), bind_ok (memory_apply _),
    hlength, hread]
  simp only [UInt32.add_sub_cancel]
  rfl

/-- So many bytes behind one that is behind the opcode under the pointer. -/
def State.operandBytes (s : State) (k n : Nat) : Bytes :=
  (List.range n).map fun j => s.operand (k + (j + 1))

lemma fetchText_reading (s : State) (c : Config) (k : Nat) :
    fetchText (s.reading c k) =
      .ok (Bytes.upToNul (s.operandBytes (k + 2) (s.operandWord (k + 1)).toNat))
        (s.reading c (k + 2 + (s.operandWord (k + 1)).toNat)) := by
  have hlength : s.machine.ram.textLength
      (Address.onRing ((Address.ofPointer s.machine.ip).val + k)).val =
        (s.operandWord (k + 1)).toNat := by
    rw [State.operandWord, wordOf_toNat, Ram.textLength, onRing_add, onRing_add]
    rfl
  have hbytes : s.machine.ram.textBytes
      (Address.onRing ((Address.ofPointer s.machine.ip).val + k)).val =
        s.operandBytes (k + 2) (s.operandWord (k + 1)).toNat := by
    rw [Ram.textBytes, hlength, State.operandBytes]
    refine List.map_congr_left fun i _ => ?_
    have hindex : (Address.ofPointer s.machine.ip).val + k + (3 + i) =
        (Address.ofPointer s.machine.ip).val + (k + 2 + (i + 1)) := by omega
    rw [Nat.add_assoc, onRing_add, hindex]
    rfl
  have htext := fetchText_seek (s.begun c)
    (Address.onRing ((Address.ofPointer s.machine.ip).val + k))
  have hram : (s.begun c).machine.ram = s.machine.ram := by rw [machine_begun]
  rw [hram, hlength, hbytes, Nat.add_assoc, onRing_add, Nat.add_assoc, ← Nat.add_assoc k] at htext
  exact htext

/-! ## Register operands -/

/-- The number of register operands of an operation. They stand directly behind the opcode. -/
def Opcode.arity : Opcode → Nat
  | .plain _ | .branch _ => 0
  | .unary _ | .immediate _ | .literal _ => 1
  | .binary _ => 2
  | .ternary _ => 3

/-- The number of register operands of an operation that are checked while they are read. -/
def Opcode.checkedArity : Opcode → Nat
  | .ternary op => if op.checksSources then 3 else 1
  | op => op.arity

/-- The bytes that stand where an operation has its register operands. -/
def State.registerOperands (s : State) (op : Opcode) : List UInt8 :=
  (List.range op.arity).map fun k => s.operand (k + 1)

/-- The bytes that stand where an operation has the register operands that it checks. -/
def State.checkedOperands (s : State) (op : Opcode) : List UInt8 :=
  (s.registerOperands op).take op.checkedArity

/-- A register operand that names a register is read, whatever the host does with reports. -/
lemma fetchRegister_of_lt (c : Config) {s : State} {k : Nat}
    (hr : (s.operand (k + 1)).toNat < registerCount) :
    fetchRegister c (s.reading c k) = .ok (s.operand (k + 1)) (s.reading c (k + 1)) := by
  rw [fetchRegister, bind_ok (fetchByte_reading s c k), checkRegister, if_pos hr]
  rfl

section Shapes

variable (c : Config) {s : State}

lemma fetchInstruction_unary (op : Unary) (hr : (s.operand 1).toNat < registerCount) :
    fetchInstruction c (.unary op) (s.begun c) = .ok (.unary op (s.operand 1)) (s.reading c 1) := by
  rw [← s.reading_zero c, fetchInstruction, bind_ok (fetchRegister_of_lt c hr)]
  rfl

lemma fetchInstruction_binary (op : Binary) (ha : (s.operand 1).toNat < registerCount)
    (hb : (s.operand 2).toNat < registerCount) :
    fetchInstruction c (.binary op) (s.begun c) =
      .ok (.binary op (s.operand 1) (s.operand 2)) (s.reading c 2) := by
  rw [← s.reading_zero c, fetchInstruction, bind_ok (fetchRegister_of_lt c ha),
    bind_ok (fetchRegister_of_lt c hb)]
  rfl

/-- The sources of an operation on three registers need not be registers, unless they are checked. -/
lemma fetchInstruction_ternary (op : Ternary) (hd : (s.operand 1).toNat < registerCount)
    (hsources : op.checksSources = true →
      (s.operand 2).toNat < registerCount ∧ (s.operand 3).toNat < registerCount) :
    fetchInstruction c (.ternary op) (s.begun c) =
      .ok (.ternary op (s.operand 1) (s.operand 2) (s.operand 3)) (s.reading c 3) := by
  rw [← s.reading_zero c, fetchInstruction, bind_ok (fetchRegister_of_lt c hd)]
  cases hchecks : op.checksSources with
  | true =>
    obtain ⟨ha, hb⟩ := hsources hchecks
    simp only [if_true]
    rw [bind_ok (fetchRegister_of_lt c ha), bind_ok (fetchRegister_of_lt c hb)]
    rfl
  | false =>
    simp only [Bool.false_eq_true, if_false]
    rw [bind_ok (fetchByte_reading s c 1), bind_ok (fetchByte_reading s c 2)]
    rfl

/-- The instruction of an operation whose operands stand behind the opcode under the pointer, and how
many bytes of operands it has. -/
def State.operands (s : State) : Opcode → Instruction × Nat
  | .plain op => (.plain op, 0)
  | .unary op => (.unary op (s.operand 1), 1)
  | .binary op => (.binary op (s.operand 1) (s.operand 2), 2)
  | .ternary op => (.ternary op (s.operand 1) (s.operand 2) (s.operand 3), 3)
  | .branch op => (.branch op (s.operandWord 1), 2)
  | .immediate op => (.immediate op (s.operand 1) (s.operandWord 2), 3)
  | .literal op =>
    let length := (s.operandWord 2).toNat
    (.literal op (s.operand 1) (Bytes.upToNul (s.operandBytes 3 length)), 3 + length)

lemma State.registers_operands (s : State) (op : Opcode) :
    (s.operands op).1.registers = s.registerOperands op := by
  cases op <;> rfl

lemma State.opcode_operands (s : State) (op : Opcode) : (s.operands op).1.opcode = op := by
  cases op <;> rfl

/-- **If every register operand that is checked names a register, the instruction is read** that stands
there. -/
theorem fetchInstruction_of_checked {op : Opcode}
    (h : ∀ r ∈ s.checkedOperands op, r.toNat < registerCount) :
    fetchInstruction c op (s.begun c) = .ok (s.operands op).1 (s.reading c (s.operands op).2) := by
  cases op with
  | plain op =>
    rw [← s.reading_zero c]
    rfl
  | branch op =>
    rw [← s.reading_zero c, fetchInstruction, bind_ok (fetchWord_reading s c 0)]
    rfl
  | unary op => exact fetchInstruction_unary c op (h _ List.mem_cons_self)
  | binary op =>
    exact fetchInstruction_binary c op (h _ List.mem_cons_self)
      (h _ (List.mem_cons_of_mem _ List.mem_cons_self))
  | ternary op =>
    refine fetchInstruction_ternary c op (h _ ?_) fun hchecks => ?_
    · cases hchecks : op.checksSources <;> simp [State.checkedOperands, State.registerOperands,
        Opcode.checkedArity, Opcode.arity, hchecks, List.range_succ]
    · constructor <;> apply h <;> simp [State.checkedOperands, State.registerOperands,
        Opcode.checkedArity, Opcode.arity, hchecks, List.range_succ]
  | immediate op =>
    have hr : (s.operand 1).toNat < registerCount := h _ List.mem_cons_self
    rw [← s.reading_zero c, fetchInstruction, bind_ok (fetchRegister_of_lt c hr),
      bind_ok (fetchWord_reading s c 1)]
    rfl
  | literal op =>
    have hr : (s.operand 1).toNat < registerCount := h _ List.mem_cons_self
    rw [← s.reading_zero c, fetchInstruction, bind_ok (fetchRegister_of_lt c hr),
      bind_ok (fetchText_reading s c 1)]
    rfl

end Shapes

section Stopping

variable {c : Config} (hc : c.policy ≠ .resume)

include hc

lemma fetchRegister_of_le {s : State} {k : Nat}
    (hr : registerCount ≤ (s.operand (k + 1)).toNat) :
    fetchRegister c (s.reading c k) = .error (.reported .registerOutOfBounds) (s.reading c (k + 1)) := by
  rw [fetchRegister, bind_ok (fetchByte_reading s c k), checkRegister, if_neg (Nat.not_lt.2 hr)]
  exact bind_error (report_stopping hc _ _)

/-- **A register operand that is checked and names no register is reported.**

**Proof sketch.** The operands are read one after the other, and the first that names no register
ends the reading. -/
theorem fetchInstruction_of_outside {s : State} {op : Opcode}
    (h : ∃ r ∈ s.checkedOperands op, registerCount ≤ r.toNat) :
    ∃ k, fetchInstruction c op (s.begun c) =
      .error (.reported .registerOutOfBounds) (s.reading c k) := by
  obtain ⟨r, hmem, hr⟩ := h
  rw [← s.reading_zero c]
  -- the first operand is checked by every operation that has one
  by_cases hfirst : (s.operand 1).toNat < registerCount
  case neg =>
    have hreport := fetchRegister_of_le hc (k := 0) (Nat.not_lt.1 hfirst)
    cases op with
    | plain | branch => simp [State.checkedOperands, State.registerOperands, Opcode.arity] at hmem
    | unary | binary | ternary | immediate | literal =>
      rw [fetchInstruction, bind_error hreport]
      exact ⟨_, rfl⟩
  case pos =>
    have hread := fetchRegister_of_lt c (k := 0) hfirst
    cases op with
    | plain | branch => simp [State.checkedOperands, State.registerOperands, Opcode.arity] at hmem
    | unary | immediate | literal =>
      obtain rfl : r = s.operand 1 := List.mem_singleton.1 hmem
      omega
    | binary op =>
      obtain rfl | rfl : r = s.operand 1 ∨ r = s.operand 2 := by
        simpa [State.checkedOperands, State.registerOperands, Opcode.arity, Opcode.checkedArity,
          List.range_succ] using hmem
      · omega
      · rw [fetchInstruction, bind_ok hread, bind_error (fetchRegister_of_le hc (k := 1) hr)]
        exact ⟨_, rfl⟩
    | ternary op =>
      cases hchecks : op.checksSources with
      | false =>
        obtain rfl : r = s.operand 1 := by
          simpa [State.checkedOperands, State.registerOperands, Opcode.arity, Opcode.checkedArity,
            hchecks, List.range_succ] using hmem
        omega
      | true =>
        rw [fetchInstruction, bind_ok hread]
        simp only [hchecks, if_true]
        by_cases hsecond : (s.operand 2).toNat < registerCount
        case neg =>
          rw [bind_error (fetchRegister_of_le hc (k := 1) (Nat.not_lt.1 hsecond))]
          exact ⟨_, rfl⟩
        case pos =>
          have hthird : r = s.operand 3 := by
            have hcases : r = s.operand 1 ∨ r = s.operand 2 ∨ r = s.operand 3 := by
              simpa [State.checkedOperands, State.registerOperands, Opcode.arity,
                Opcode.checkedArity, hchecks, List.range_succ] using hmem
            obtain rfl | rfl | rfl := hcases <;> first | omega | rfl
          rw [hthird] at hr
          rw [bind_ok (fetchRegister_of_lt c (k := 1) hsecond),
            bind_error (fetchRegister_of_le hc (k := 2) hr)]
          exact ⟨_, rfl⟩

end Stopping

/-! ## The instruction of a cycle -/

/-- The instruction that the next cycle carries out: there is none if the opcode has no meaning, or
if its operands do not pass their checks. -/
def State.instruction? (c : Config) (s : State) : Option Instruction :=
  match Opcode.ofByte? s.opcode with
  | none => none
  | some op =>
    match fetchInstruction c op (s.begun c) with
    | .ok i _ => some i
    | .error _ _ => none

lemma State.instruction?_eq_some_iff {c : Config} {s : State} {i : Instruction} :
    s.instruction? c = some i ↔
      s.opcode = i.opcode.toByte ∧ ∃ s', fetchInstruction c i.opcode (s.begun c) = .ok i s' := by
  rw [State.instruction?]
  constructor
  · intro h
    split at h
    case h_1 => exact absurd h (by simp)
    case h_2 op hop =>
      split at h
      case h_2 => exact absurd h (by simp)
      case h_1 i' s' hfetch =>
        cases h
        rw [opcode_of_fetchInstruction hfetch]
        exact ⟨Opcode.ofByte?_eq_some_iff.1 hop, s', hfetch⟩
  · rintro ⟨hop, s', hfetch⟩
    rw [hop, Opcode.ofByte?_toByte]
    simp only [hfetch]

end RegisterMachine
