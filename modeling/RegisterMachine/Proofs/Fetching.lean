import RegisterMachine.Listing
import RegisterMachine.Proofs.Actions
import Mathlib.Tactic.Set

/-!
# Reading the code from memory

The machine reads an instruction byte by byte, with its pointer on the byte that was read last. Where
the instruction lies within the memory, what is read is the line that a listing shows there: a byte
behind the end of the code is zero in both.

## Main definitions

* `State.seek` — a state with its pointer on a given byte.
* `State.opcode`, `State.begun` — the opcode under the pointer, and the state in which it was read.
* `Instruction.cut` — an instruction as the machine takes it: a text ends at its first zero byte.
* `Instruction.registers` — the register operands of an instruction.
* `Listing.Line.perform` — what the machine does for a line.

## Main results

* `fetchInstruction_operands` — the operands are read as a listing shows them.
* `cycle_apply` — a cycle begins with the opcode under the pointer.
* `cycle_of_drop` — a cycle carries out the line at the pointer.
-/

namespace RegisterMachine

open Effect Exec Listing

/-! ## Pointers -/

/-- A state with its pointer on a given byte. -/
def State.seek (s : State) (n : Nat) : State :=
  { s with machine := { s.machine with ip := UInt32.ofNat n } }

/-- A pointer into the memory stands for itself. -/
lemma ofPointer_ofNat {n : Nat} (h : n < 0xFFFF) :
    Address.ofPointer (UInt32.ofNat n) = ⟨n, h⟩ := by
  have hn : (UInt32.ofNat n).toNat = n := by
    rw [UInt32.toNat_ofNat']
    omega
  simp [Address.ofPointer, hn, h]

lemma ofNat_add_one (n : Nat) : UInt32.ofNat n + 1 = UInt32.ofNat (n + 1) :=
  (UInt32.ofNat_add n 1).symm

/-! ## Bytes, words and texts -/

section Operands

variable {code t : Bytes} {s : State} {n : Nat} (hram : s.machine.ram = Ram.ofBytes code)
  (hcode : code.drop (n + 1) = t)

include hram hcode

/-- The operand byte at a position is read. -/
lemma fetchByte_operand {k : Nat} (hk : n + k + 1 < 0xFFFF) :
    fetchByte (s.seek (n + k)) = .ok (operand t k) (s.seek (n + (k + 1))) := by
  have hpointer : Address.ofPointer (UInt32.ofNat (n + k) + 1) = ⟨n + k + 1, hk⟩ := by
    rw [ofNat_add_one, ofPointer_ofNat hk]
  have hbyte : s.machine.ram[(⟨n + k + 1, hk⟩ : Address)] = operand t k := by
    rw [hram, Ram.getElem_ofBytes, operand, ← hcode, List.getD_eq_getElem?_getD, List.getElem?_drop,
      Nat.add_right_comm n 1 k]
  have hrun : fetchByte (s.seek (n + k)) =
      .ok s.machine.ram[Address.ofPointer (UInt32.ofNat (n + k) + 1)]
        (s.seek (Address.ofPointer (UInt32.ofNat (n + k) + 1)).val) := rfl
  rw [hrun]
  simp only [hpointer, hbyte]
  rfl

/-- The operand word at a position is read. -/
lemma fetchWord_operand {k : Nat} (hk : n + k + 2 < 0xFFFF) :
    fetchWord (s.seek (n + k)) = .ok (operandWord t k) (s.seek (n + (k + 2))) := by
  have hlow := fetchByte_operand hram hcode (show n + k + 1 < 0xFFFF by omega)
  have hhigh := fetchByte_operand hram hcode (show n + (k + 1) + 1 < 0xFFFF by omega)
  rw [fetchWord, bind_ok hlow, bind_ok hhigh]
  rfl

/-- A register operand that the machine has passes its check. -/
lemma fetchRegister_operand (c : Config) {k : Nat} (hk : n + k + 1 < 0xFFFF)
    (hr : (operand t k).toNat < registerCount) :
    fetchRegister c (s.seek (n + k)) = .ok (operand t k) (s.seek (n + (k + 1))) := by
  rw [fetchRegister, bind_ok (fetchByte_operand hram hcode hk), checkRegister, if_pos hr]
  rfl

end Operands

/-- Zeros behind a text do not belong to it. -/
lemma upToNul_append_zeros (t : Bytes) (k : Nat) :
    (t ++ List.replicate k 0).upToNul = t.upToNul := by
  induction t with
  | nil =>
    cases k with
    | zero => rfl
    | succ k => rfl
  | cons b t ih =>
    by_cases hb : b = 0
    · simp [Bytes.upToNul, hb]
    · simpa [Bytes.upToNul, hb] using ih

/-- Bytes are read from the memory one after the other, and behind the end of the code zeros.

**Proof sketch.** By induction on the number of bytes; the pointer never leaves the memory, so each
step moves it on by one. -/
lemma readAfter_ofBytes (code done : Bytes) {m p : Nat} (h : p + m ≤ 0xFFFF) :
    (Ram.ofBytes code).readAfter done m (UInt32.ofNat p) =
      (done.reverse ++ ((code.drop p).take m ++ List.replicate (m - (code.drop p).length) 0),
        UInt32.ofNat (p + m)) := by
  induction m generalizing p done with
  | zero => simp [Ram.readAfter]
  | succ m ih =>
    have hp : p < 0xFFFF := by omega
    have hnext : Address.toPointer ⟨p, hp⟩ + 1 = UInt32.ofNat (p + 1) := ofNat_add_one p
    have hmove : p + 1 + m = p + (m + 1) := by omega
    rw [Ram.readAfter]
    simp only [Ram.getElem_ofBytes, ofPointer_ofNat hp, hnext]
    rw [ih _ (by omega), hmove]
    congr 1
    cases hcode : code.drop p with
    | nil =>
      have hend : code.length ≤ p := List.drop_eq_nil_iff.1 hcode
      have hbehind : code.drop (p + 1) = [] := List.drop_eq_nil_iff.2 (by omega)
      have hbyte : code[p]? = none := List.getElem?_eq_none hend
      simp [hbehind, hbyte, List.replicate_succ]
    | cons b t =>
      have hbehind : code.drop (p + 1) = t := by
        rw [← List.drop_drop, hcode]
        rfl
      have hbyte : code[p]? = some b := by
        rw [← Nat.add_zero p, ← List.getElem?_drop, hcode]
        rfl
      simp [hbehind, hbyte]

/-- A text operand is read, cut at its first zero byte. The pointer ends on its last byte. -/
lemma fetchText_operand {code t : Bytes} {s : State} {n k : Nat}
    (hram : s.machine.ram = Ram.ofBytes code) (hcode : code.drop (n + 1) = t)
    (hk : n + k + 2 + (operandWord t k).toNat < 0xFFFF) :
    fetchText (s.seek (n + k)) =
      .ok (Bytes.upToNul ((t.drop (k + 2)).take (operandWord t k).toNat))
        (s.seek (n + (k + 2 + (operandWord t k).toNat))) := by
  have hword := fetchWord_operand hram hcode (show n + k + 2 < 0xFFFF by omega)
  set m := (operandWord t k).toNat with hm
  have hbehind : code.drop (n + (k + 2) + 1) = t.drop (k + 2) := by
    rw [← hcode, List.drop_drop]
    congr 1
    omega
  have hread := readAfter_ofBytes code [] (show n + (k + 2) + 1 + m ≤ 0xFFFF by omega)
  rw [hbehind, List.reverse_nil, List.nil_append] at hread
  have hpointer : UInt32.ofNat (n + (k + 2) + 1 + m) - 1 = UInt32.ofNat (n + (k + 2 + m)) := by
    rw [show n + (k + 2) + 1 + m = n + (k + 2 + m) + 1 by omega, ← ofNat_add_one,
      UInt32.add_sub_cancel]
  have hbytes : (s.seek (n + (k + 2))).machine.ram.read m ((s.seek (n + (k + 2))).machine.ip + 1) =
      ((t.drop (k + 2)).take m ++ List.replicate (m - (t.drop (k + 2)).length) 0,
        UInt32.ofNat (n + (k + 2) + 1 + m)) := by
    rw [← hread, ← hram, ← ofNat_add_one]
    rfl
  rw [fetchText, bind_ok hword, bind_ok (pointer_apply _), bind_ok (memory_apply _), ← hm, hbytes]
  simp only [hpointer]
  rw [upToNul_append_zeros]
  rfl

/-! ## Instructions -/

/-- An instruction as the machine takes it: a text ends at its first zero byte. -/
def Instruction.cut : Instruction → Instruction
  | literal op r t => literal op r t.upToNul
  | i => i

/-- The register operands of an instruction. -/
def Instruction.registers : Instruction → List UInt8
  | plain _ => []
  | unary _ r => [r]
  | binary _ a b => [a, b]
  | ternary _ d a b => [d, a, b]
  | branch _ _ => []
  | immediate _ r _ => [r]
  | literal _ r _ => [r]

/-- **The operands of an instruction are read as a listing shows them**, if the machine has the
registers and the instruction lies within the memory.

**Proof sketch.** One operand after the other, in the order of the instruction's shape; the pointer
is always on the byte that was read last. -/
theorem fetchInstruction_operands {code t : Bytes} {s : State} {n : Nat}
    (hram : s.machine.ram = Ram.ofBytes code) (hcode : code.drop (n + 1) = t) (c : Config)
    {op : Opcode} (hfit : n + (operands t op).2 < 0xFFFF)
    (hregs : ∀ r ∈ (operands t op).1.registers, r.toNat < registerCount) :
    fetchInstruction c op (s.seek n) =
      .ok (operands t op).1.cut (s.seek (n + (operands t op).2)) := by
  have hreg (k : Nat) (hk : n + k + 1 < 0xFFFF) := fetchRegister_operand hram hcode c hk
  have hbyte (k : Nat) (hk : n + k + 1 < 0xFFFF) := fetchByte_operand hram hcode hk
  change fetchInstruction c op (s.seek (n + 0)) = _
  cases op with
  | plain op => rfl
  | unary op =>
    have hr := hreg 0 hfit (hregs _ (by simp [operands, Instruction.registers]))
    rw [fetchInstruction, bind_ok hr]
    rfl
  | binary op =>
    have ha := hreg 0 (Nat.lt_of_succ_lt hfit) (hregs _ (by simp [operands, Instruction.registers]))
    have hb := hreg 1 hfit (hregs _ (by simp [operands, Instruction.registers]))
    rw [fetchInstruction, bind_ok ha, bind_ok hb]
    rfl
  | ternary op =>
    have hd := hreg 0 (Nat.lt_of_succ_lt (Nat.lt_of_succ_lt hfit))
      (hregs _ (by simp [operands, Instruction.registers]))
    have ha := hreg 1 (Nat.lt_of_succ_lt hfit) (hregs _ (by simp [operands, Instruction.registers]))
    have hb := hreg 2 hfit (hregs _ (by simp [operands, Instruction.registers]))
    rw [fetchInstruction, bind_ok hd]
    cases op.checksSources with
    | true =>
      simp only [if_true]
      rw [bind_ok ha, bind_ok hb]
      rfl
    | false =>
      simp only [Bool.false_eq_true, if_false]
      rw [bind_ok (hbyte 1 (Nat.lt_of_succ_lt hfit)), bind_ok (hbyte 2 hfit)]
      rfl
  | branch op =>
    have ht := fetchWord_operand hram hcode (k := 0) hfit
    rw [fetchInstruction, bind_ok ht]
    rfl
  | immediate op =>
    have hr := hreg 0 (Nat.lt_of_succ_lt (Nat.lt_of_succ_lt hfit))
      (hregs _ (by simp [operands, Instruction.registers]))
    have hv := fetchWord_operand hram hcode (k := 1) hfit
    rw [fetchInstruction, bind_ok hr, bind_ok hv]
    rfl
  | literal op =>
    have hlength : n + (3 + (operandWord t 1).toNat) < 0xFFFF := hfit
    have hr := hreg 0 (by omega) (hregs _ (by simp [operands, Instruction.registers]))
    have ht := fetchText_operand hram hcode (k := 1) (by omega)
    rw [fetchInstruction, bind_ok hr, bind_ok ht]
    rfl

/-! ## Cycles -/

namespace Listing

/-- The register operands of a line. -/
def Line.registers : Line → List UInt8
  | instruction i => i.registers
  | data _ => []

/-- What the machine does for a line, when its pointer stands on the last byte of it. -/
def Line.perform (c : Config) : Line → Exec Unit
  | instruction i => do
    explain c (.decoded i.cut)
    execute c i.cut
  | data b => do
    emit (.unknown (← pointer) b)
    advance

end Listing

/-- The opcode under the pointer. -/
def State.opcode (s : State) : UInt8 := s.machine.ram[Address.ofPointer s.machine.ip]

/-- A state in which a cycle has begun. -/
def State.begun (s : State) (c : Config) : State :=
  (s.seek (Address.ofPointer s.machine.ip).val).told c
    (.fetched (Address.ofPointer s.machine.ip).toPointer s.opcode)

@[simp]
lemma machine_begun (s : State) (c : Config) :
    (s.begun c).machine =
      { s.machine with ip := (Address.ofPointer s.machine.ip).toPointer } :=
  machine_told _ c _

/-- What is told does not depend on where the pointer is. -/
lemma seek_told (s : State) (c : Config) (e : Event) (n : Nat) :
    (s.told c e).seek n = (s.seek n).told c e := by
  rw [State.told, State.told]
  split <;> rfl

lemma seek_begun (s : State) (c : Config) :
    (s.begun c).seek (Address.ofPointer s.machine.ip).val = s.begun c := by
  rw [State.begun, seek_told]
  rfl

/-- A cycle begins with the opcode under the pointer. -/
lemma cycle_apply (t : Table) (c : Config) (s : State) :
    cycle t c s =
      (match t s.opcode with
        | some handler => handler c >>= fun _ => pure (s.opcode, true)
        | none => pure (s.opcode, false)) (s.begun c) := by
  have hjump : jump (Address.ofPointer s.machine.ip).toPointer s =
      .ok () (s.seek (Address.ofPointer s.machine.ip).val) := rfl
  rw [cycle, bind_ok (pointer_apply s), bind_ok hjump, bind_ok (memory_apply _)]
  exact bind_ok (explain_apply _ c _)

/-- A cycle depends on the place that its pointer stands for, and not on the pointer. -/
lemma cycle_seek {s : State} {n : Nat}
    (h : Address.ofPointer s.machine.ip = Address.ofPointer (UInt32.ofNat n)) (t : Table)
    (c : Config) : cycle t c (s.seek n) = cycle t c s := by
  have hopcode : (s.seek n).opcode = s.opcode := by
    simp only [State.opcode, State.seek, h]
  have hbegun : (s.seek n).begun c = s.begun c := by
    rw [State.begun, State.begun, hopcode]
    simp only [State.seek, h]
  rw [cycle_apply, cycle_apply, hopcode, hbegun]

/-- A state in which it was explained that an opcode was read at an address. -/
def State.fetched (s : State) (c : Config) (n : Nat) (b : UInt8) : State :=
  s.told c (.fetched (UInt32.ofNat n) b)

@[simp]
lemma machine_fetched (s : State) (c : Config) (n : Nat) (b : UInt8) :
    (s.fetched c n b).machine = s.machine := machine_told s c _

lemma fetched_seek (s : State) (c : Config) (n m : Nat) (b : UInt8) :
    (s.seek m).fetched c n b = (s.fetched c n b).seek m := (seek_told s c _ m).symm

section Cycles

variable {code : Bytes} {b : UInt8} {s : State} {n : Nat}
  (hram : s.machine.ram = Ram.ofBytes code) (hbyte : code[n]? = some b) (hn : n < 0xFFFF)

include hram hbyte hn

/-- The byte at a pointer into the code. -/
lemma ram_seek : (s.seek n).machine.ram[Address.ofPointer (s.seek n).machine.ip] = b := by
  have hread : (s.seek n).machine.ram[Address.ofPointer (s.seek n).machine.ip] =
      code[(Address.ofPointer (UInt32.ofNat n)).val]?.getD 0 := by
    rw [← Ram.getElem_ofBytes, ← hram]
    rfl
  rw [hread, ofPointer_ofNat hn, hbyte]
  rfl

lemma currentByte_seek : currentByte (s.seek n) = .ok b (s.seek n) := by
  have hpointer : (s.seek n).machine.ip.toNat = n := by
    rw [State.seek, UInt32.toNat_ofNat']
    omega
  have hfound : (s.seek n).machine.ram[(s.seek n).machine.ip.toNat]? = some b := by
    rw [hpointer, Vector.getElem?_eq_getElem hn, ← ram_seek hram hbyte hn]
    simp only [State.seek, ofPointer_ofNat hn]
    rfl
  rw [currentByte, bind_ok (pointer_apply _), bind_ok (memory_apply _), hfound]
  rfl

/-- A cycle begins with the opcode at the pointer. The pointer is in the memory, so it stays where it
is. -/
lemma cycle_of_byte (hip : s.machine.ip = UInt32.ofNat n) (table : Table) (c : Config) :
    cycle table c s =
      (match table b with
        | some handler => handler c >>= fun _ => pure (b, true)
        | none => pure (b, false)) ((s.fetched c n b).seek n) := by
  have hseek : s.seek n = s := by rw [State.seek, ← hip]
  have hopcode : s.opcode = b := by
    rw [← hseek]
    exact ram_seek hram hbyte hn
  have hbegun : s.begun c = (s.fetched c n b).seek n := by
    rw [State.begun, hopcode, hip, ofPointer_ofNat hn]
    exact fetched_seek s c n n b
  rw [cycle_apply, hopcode, hbegun]

end Cycles

/-- **A cycle carries out the line at the pointer**, if the machine has the registers and the line lies
within the memory. -/
theorem cycle_of_drop {code t : Bytes} {b : UInt8} {s : State} {n : Nat}
    (hram : s.machine.ram = Ram.ofBytes code) (hip : s.machine.ip = UInt32.ofNat n)
    (hcode : code.drop n = b :: t) (c : Config) (hfit : n + 1 + (decode b t).2 ≤ 0xFFFF)
    (hregs : ∀ r ∈ (decode b t).1.registers, r.toNat < registerCount) :
    cycle Table.builtin c s =
      ((decode b t).1.perform c >>= fun _ => pure (b, true))
        ((s.fetched c n b).seek (n + (decode b t).2)) := by
  have hn : n < 0xFFFF := by omega
  have hnext : code.drop (n + 1) = t := by
    rw [← List.drop_drop, hcode]
    rfl
  have hbyte : code[n]? = some b := by
    rw [← Nat.add_zero n, ← List.getElem?_drop, hcode]
    rfl
  have hfetched : (s.fetched c n b).machine.ram = Ram.ofBytes code := by
    rw [machine_fetched, hram]
  rw [cycle_of_byte hram hbyte hn hip, Table.builtin]
  cases hb : Opcode.ofByte? b with
  | some op =>
    have hdecode : decode b t = (.instruction (operands t op).1, (operands t op).2) := by
      rw [decode, hb]
    rw [hdecode] at hfit hregs ⊢
    have hwithin : n + (operands t op).2 < 0xFFFF := by
      simp only at hfit
      omega
    have hfetch := fetchInstruction_operands hfetched hnext c hwithin hregs
    apply bind_eq_bind
    rw [Opcode.handler, bind_ok hfetch]
    rfl
  | none =>
    have hdecode : decode b t = (.data b, 0) := by rw [decode, hb]
    have hcurrent := currentByte_seek hfetched hbyte hn
    rw [hdecode]
    apply bind_eq_bind
    rw [unknownHandler, bind_ok hcurrent]
    rfl

/-! ## New machines -/

/-- A new machine with some code in its memory. -/
def loaded (code : Bytes) : State where
  machine :=
    { registers := Vector.replicate registerCount (.int 0)
      zero := false
      ip := 0
      ram := Ram.ofBytes code
      behind := 0
      stack := Vector.replicate stackSize 0
      sp := 0
      running := true
      size := code.length }
  log := #[]
  entropy := {}

/-- A program is loaded into a new machine. -/
lemma eq_loaded_of_load? {code : Bytes} {m : Machine} (h : Machine.load? code = some m) :
    0 < code.length ∧ m = (loaded code).machine := by
  unfold Machine.load? at h
  split at h
  case isTrue => exact absurd h (by simp)
  case isFalse hlength =>
    cases h
    exact ⟨by omega, rfl⟩

end RegisterMachine
