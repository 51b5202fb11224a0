import RegisterMachine.Proofs.Blindness

/-!
# Which accesses to the memory are safe

The machine reads its code on the ring of all addresses, and so it copies blocks. Only single reads
and writes take an address as it is. A cycle is safe for the memory if it reads and writes nothing
but bytes of the memory, if a single read or write anywhere else is reported, and if a block is
copied wherever it starts and however long it is.

There are two exceptions. The check of single reads and writes lets one address pass that the memory
does not have, the one directly behind it. And a block copy that counts its addresses up past the
largest signed word has no meaning.

## Main definitions

* `State.Touches` — the next cycle reads or writes the byte with a given number.
* `State.address?`, `State.block?` — the address of the single read or write of the next cycle, and
  the block that it copies.
* `State.RamSafe` — the next cycle is safe for the memory.
* `State.Overruns` — the next cycle copies a block whose addresses grow too large.

## Main results

* `cycle_peek`, `cycle_poke`, `cycle_copyBlock` — what single reads and writes and block copies do.
* `ramSafe_iff` — a cycle is safe for the memory unless it is one of the two exceptions.
-/

namespace RegisterMachine

open Effect Exec

/-! ## Reading and writing -/

/-- A state with a byte written. -/
def State.put (s : State) (p : Place) (b : UInt8) : State :=
  { s with machine := s.machine.setByteAt p b }

/-- **The next cycle reads or writes the byte with a given number**: it does not do the same, and
leave what it found, whatever stands there. A number that is no place is read or written by a cycle
that ends in the attempt. -/
def State.Touches (c : Config) (s : State) (i : Int) : Prop :=
  match Place.ofInt? i with
  | some p => ∃ b, cycle Table.builtin c (s.put p b) ≠
      onState (·.put p b) (cycle Table.builtin c s)
  | none => s.EndsIn c (.trapped (.ram i))

/-- The address of the single read or write of the next cycle. -/
def State.address? (c : Config) (s : State) : Option Int :=
  (s.instruction? c).bind (·.address? s.machine)

/-- The block that an instruction copies: where it goes to, where it comes from, and how long it
is. -/
def Instruction.block? (m : Machine) : Instruction → Option (Int32 × Int32 × Int32)
  | .ternary .copyBlock d a b =>
    (m.integer? a).bind fun source => (m.integer? d).bind fun dest =>
      (m.integer? b).map fun size => (dest, source, size)
  | _ => none

/-- The block that the next cycle copies. -/
def State.block? (c : Config) (s : State) : Option (Int32 × Int32 × Int32) :=
  (s.instruction? c).bind (·.block? s.machine)

/-- The next cycle copies a block between addresses that are not negative, and counts them up past
the largest signed word. -/
def State.Overruns (c : Config) (s : State) : Prop :=
  ∃ dest source size, s.block? c = some (dest, source, size) ∧ 0 ≤ dest ∧ 0 ≤ source ∧
    0x80000000 < max dest.toInt source.toInt + size.toInt.toNat

/-- The next cycle is safe for the memory. -/
structure State.RamSafe (c : Config) (s : State) : Prop where
  /-- Only bytes of the memory are read or written. -/
  inside : ∀ i, s.Touches c i → 0 ≤ i ∧ i < ramSize
  /-- A single read or write anywhere else is reported. -/
  reported : ∀ n, s.address? c = some n → n < 0 ∨ ramSize ≤ n →
    s.EndsIn c (.reported .readOutsideRam) ∨ s.EndsIn c (.reported .writeOutsideRam)
  /-- A block is copied on the ring of all addresses, unless it is said to start at a negative
  address, or to go to one. -/
  copied : ∀ dest source size, s.block? c = some (dest, source, size) → 0 ≤ dest → 0 ≤ source →
    ∃ a s', cycle Table.builtin c s = .ok a s' ∧
      s'.machine.ram = Ram.copy dest.toInt.toNat source.toInt.toNat size.toInt.toNat s.machine.ram

/-! ## Single reads and writes -/

lemma admitted_of_place {n : Int32} {p : Place} (h : Place.ofInt? n.toInt = some p) :
    admitted n = true := by
  rw [← Bool.not_eq_false, admitted_eq_false_iff, h]
  simp

section Single

variable {c : Config} (hc : c.policy ≠ .resume) {a b : UInt8} {s : State}

include hc

lemma executePeek_apply {n : Int32} (ha : a.toNat < registerCount)
    (hn : s.machine.integer? b = some n) :
    executeBinary c a b .peek s = match Place.ofInt? n.toInt with
      | none => .error (.reported .readOutsideRam) s
      | some p => .ok () { s with
          machine := {
            s.machine.setRegister ⟨a.toNat, ha⟩ (.int (Int32.ofNat (s.machine.byteAt p).toNat)) with
            ip := s.machine.ip + 1 } } := by
  have hint := intOf_of_integer? c hn
  rw [executeBinary, bind_ok hint]
  cases hplace : Place.ofInt? n.toInt with
  | none =>
    rw [admitted_eq_false_iff.2 hplace]
    exact bind_error (report_stopping hc _ s)
  | some p =>
    rw [admitted_of_place hplace]
    have hbyte : byteAt p s = .ok (s.machine.byteAt p) s := rfl
    have hset := setRegister_apply a (.int (Int32.ofNat (s.machine.byteAt p).toNat)) s
    rw [dif_pos ha] at hset
    exact (bind_ok hbyte).trans (bind_ok hset)

lemma executePoke_apply {v n : Int32} (hv : s.machine.integer? a = some v)
    (hn : s.machine.integer? b = some n) :
    executeBinary c a b .poke s = match Place.ofInt? n.toInt with
      | none => .error (.reported .writeOutsideRam) (s.told c (.poking n v))
      | some p => .ok () { s.told c (.poking n v) with
          machine := { s.machine.setByteAt p v.toUInt32.toUInt8 with
            ip := s.machine.ip + 1 } } := by
  have hvalue := intOf_of_integer? c hv
  have hint := intOf_of_integer? c hn
  rw [executeBinary, bind_ok hvalue, bind_ok hint, bind_ok (explain_apply s c _)]
  cases hplace : Place.ofInt? n.toInt with
  | none =>
    rw [admitted_eq_false_iff.2 hplace]
    exact bind_error (report_stopping hc _ _)
  | some p =>
    rw [admitted_of_place hplace]
    refine (bind_ok (update_apply _ _)).trans ((update_apply _ _).trans ?_)
    rw [machine_told]
    cases p <;> rfl

/-- The operands of an operation on two registers that is carried out. -/
lemma binary_of_instruction? {op : Binary} (h : s.instruction? c = some (.binary op a b)) :
    s.opcode = (Opcode.binary op).toByte ∧ a.toNat < registerCount ∧
      fetchInstruction c (.binary op) (s.begun c) = .ok (.binary op a b) (s.reading c 2) := by
  have hchecked := lt_of_instruction? hc h
  have ha : (s.operand 1).toNat < registerCount := hchecked _ List.mem_cons_self
  have hb : (s.operand 2).toNat < registerCount :=
    hchecked _ (List.mem_cons_of_mem _ List.mem_cons_self)
  have hread := fetchInstruction_binary c op ha hb
  obtain ⟨hop, s', hfetch⟩ := State.instruction?_eq_some_iff.1 h
  cases hfetch.symm.trans hread
  exact ⟨hop, ha, hread⟩

/-- **A single read puts the byte into its register**, or is reported. -/
lemma cycle_peek {n : Int32} (h : s.instruction? c = some (.binary .peek a b))
    (hn : s.machine.integer? b = some n) :
    match Place.ofInt? n.toInt with
    | none => s.EndsIn c (.reported .readOutsideRam)
    | some p => ∃ s', cycle Table.builtin c s = .ok (s.opcode, true) s' ∧
        s'.machine.register? a.toNat = some (.int (Int32.ofNat (s.machine.byteAt p).toNat)) := by
  obtain ⟨hop, ha, hfetch⟩ := binary_of_instruction? hc h
  have hn' : ((s.reading c 2).told c (.decoded (.binary .peek a b))).machine.integer? b = some n := by
    rw [machine_told, machine_reading]
    exact hn
  have happly := executePeek_apply hc ha hn'
  cases hplace : Place.ofInt? n.toInt with
  | none =>
    rw [hplace] at happly
    exact (endsIn_iff_execute hop hfetch).2 ⟨_, happly⟩
  | some p =>
    rw [hplace] at happly
    have hbyte : ((s.reading c 2).told c (.decoded (.binary .peek a b))).machine.byteAt p =
        s.machine.byteAt p := by
      rw [machine_told, machine_reading]
      cases p <;> rfl
    have hcycle := (cycle_of_fetch hop hfetch).trans (bind_ok happly)
    refine ⟨_, hcycle, ?_⟩
    rw [hbyte]
    exact Vector.getElem?_set_self ha

/-- **A single write puts the byte into its place**, or is reported. -/
lemma cycle_poke {v n : Int32} (h : s.instruction? c = some (.binary .poke a b))
    (hv : s.machine.integer? a = some v) (hn : s.machine.integer? b = some n) :
    match Place.ofInt? n.toInt with
    | none => s.EndsIn c (.reported .writeOutsideRam)
    | some p => ∃ s', cycle Table.builtin c s = .ok (s.opcode, true) s' ∧
        s'.machine.byteAt p = v.toUInt32.toUInt8 := by
  obtain ⟨hop, -, hfetch⟩ := binary_of_instruction? hc h
  have hread (r : UInt8) :
      ((s.reading c 2).told c (.decoded (.binary .poke a b))).machine.integer? r =
        s.machine.integer? r := by
    rw [machine_told, machine_reading]
    rfl
  have happly := executePoke_apply hc ((hread a).trans hv) ((hread b).trans hn)
  cases hplace : Place.ofInt? n.toInt with
  | none =>
    rw [hplace] at happly
    exact (endsIn_iff_execute hop hfetch).2 ⟨_, happly⟩
  | some p =>
    rw [hplace] at happly
    have hcycle := (cycle_of_fetch hop hfetch).trans (bind_ok happly)
    refine ⟨_, hcycle, ?_⟩
    cases p with
    | behind => rfl
    | inside address => exact Vector.getElem_set_self address.isLt

/-- A single read or write is carried out at every place, and reported everywhere else. -/
lemma cycle_of_address? {n : Int} (h : s.address? c = some n) :
    (Place.ofInt? n = none → s.EndsIn c (.reported .readOutsideRam) ∨
      s.EndsIn c (.reported .writeOutsideRam)) ∧
    ∀ p, Place.ofInt? n = some p → ∃ s', cycle Table.builtin c s = .ok (s.opcode, true) s' := by
  obtain ⟨i, hi, haddress⟩ := Option.bind_eq_some_iff.1 h
  unfold Instruction.address? at haddress
  split at haddress
  case h_1 a b =>
    obtain ⟨n, hn, rfl⟩ := Option.map_eq_some_iff.1 haddress
    have hcycle := cycle_peek hc hi hn
    refine ⟨fun hplace => ?_, fun p hplace => ?_⟩ <;> rw [hplace] at hcycle
    · exact .inl hcycle
    · exact ⟨_, hcycle.choose_spec.1⟩
  case h_2 a b =>
    obtain ⟨v, hv, haddress⟩ := Option.bind_eq_some_iff.1 haddress
    obtain ⟨n, hn, rfl⟩ := Option.map_eq_some_iff.1 haddress
    have hcycle := cycle_poke hc hi hv hn
    refine ⟨fun hplace => ?_, fun p hplace => ?_⟩ <;> rw [hplace] at hcycle
    · exact .inr hcycle
    · exact ⟨_, hcycle.choose_spec.1⟩
  case h_3 => exact absurd haddress (by simp)

end Single

/-! ## Block copies -/

section Blocks

variable {c : Config} (hc : c.policy ≠ .resume) {d a b : UInt8} {s : State}

include hc

lemma executeCopy_apply (hd : d.toNat < registerCount) (ha : a.toNat < registerCount)
    (hb : b.toNat < registerCount) :
    executeTernary c d a b .copyBlock s =
      match (Instruction.ternary .copyBlock d a b).block? s.machine with
      | none => .error (.reported .notInteger) s
      | some (dest, source, size) =>
        if source < 0 ∨ dest < 0 then .error (.reported .negativeAddress) s
        else if 0x80000000 < max dest.toInt source.toInt + size.toInt.toNat then
          .error (.trapped .copyRange) (s.told c (.copying dest source size))
        else .ok () { s.told c (.copying dest source size) with
          machine := { s.machine with
            ram := Ram.copy dest.toInt.toNat source.toInt.toNat size.toInt.toNat s.machine.ram
            ip := s.machine.ip + 1 } } := by
  have hsource := intOf_of_lt hc ha s
  have hdest := intOf_of_lt hc hd s
  have hsize := intOf_of_lt hc hb s
  rw [executeTernary, Instruction.block?]
  cases hsource' : s.machine.integer? a with
  | none =>
    rw [hsource'] at hsource
    exact bind_error hsource
  | some source =>
    rw [hsource'] at hsource
    rw [bind_ok hsource]
    cases hdest' : s.machine.integer? d with
    | none =>
      rw [hdest'] at hdest
      exact bind_error hdest
    | some dest =>
      rw [hdest'] at hdest
      rw [bind_ok hdest]
      cases hsize' : s.machine.integer? b with
      | none =>
        rw [hsize'] at hsize
        exact bind_error hsize
      | some size =>
        rw [hsize'] at hsize
        rw [bind_ok hsize]
        dsimp only [Option.bind_some, Option.map_some]
        split
        · exact report_stopping hc _ s
        · rw [bind_ok (explain_apply s c _)]
          split
          · rfl
          · refine (bind_ok (update_apply _ _)).trans ((update_apply _ _).trans ?_)
            rw [machine_told]

/-- The operands of a block copy that is carried out. -/
lemma copyBlock_of_instruction? (h : s.instruction? c = some (.ternary .copyBlock d a b)) :
    s.opcode = (Opcode.ternary .copyBlock).toByte ∧ d.toNat < registerCount ∧
      a.toNat < registerCount ∧ b.toNat < registerCount ∧
      fetchInstruction c (.ternary .copyBlock) (s.begun c) =
        .ok (.ternary .copyBlock d a b) (s.reading c 3) := by
  have hchecked := lt_of_instruction? hc h
  have hd : (s.operand 1).toNat < registerCount := hchecked _ (.head _)
  have ha : (s.operand 2).toNat < registerCount := hchecked _ (.tail _ (.head _))
  have hb : (s.operand 3).toNat < registerCount := hchecked _ (.tail _ (.tail _ (.head _)))
  have hread := fetchInstruction_ternary c .copyBlock hd fun _ => ⟨ha, hb⟩
  obtain ⟨hop, s', hfetch⟩ := State.instruction?_eq_some_iff.1 h
  cases hfetch.symm.trans hread
  exact ⟨hop, hd, ha, hb, hread⟩

/-- **A block is copied on the ring of all addresses**, unless it starts at a negative address or goes
to one, or its addresses grow too large. -/
lemma cycle_copyBlock {dest source size : Int32} (h : s.block? c = some (dest, source, size))
    (hdest : 0 ≤ dest) (hsource : 0 ≤ source) :
    if 0x80000000 < max dest.toInt source.toInt + size.toInt.toNat then
      s.EndsIn c (.trapped .copyRange)
    else ∃ s', cycle Table.builtin c s = .ok (s.opcode, true) s' ∧
      s'.machine.ram =
        Ram.copy dest.toInt.toNat source.toInt.toNat size.toInt.toNat s.machine.ram := by
  obtain ⟨i, hi, hblock⟩ := Option.bind_eq_some_iff.1 h
  unfold Instruction.block? at hblock
  split at hblock
  case h_2 => exact absurd hblock (by simp)
  case h_1 d a b =>
    obtain ⟨hop, hd, ha, hb, hfetch⟩ := copyBlock_of_instruction? hc hi
    have happly := @executeCopy_apply c hc d a b ((s.reading c 3).told c (.decoded (.ternary .copyBlock d a b)))
      hd ha hb
    have hblock' : (Instruction.ternary .copyBlock d a b).block?
        ((s.reading c 3).told c (.decoded (.ternary .copyBlock d a b))).machine =
          some (dest, source, size) := by
      rw [machine_told, machine_reading]
      exact hblock
    have hsigns : ¬(source < 0 ∨ dest < 0) := by
      simp only [not_or, Int32.not_lt]
      exact ⟨hsource, hdest⟩
    rw [hblock'] at happly
    dsimp only at happly
    rw [if_neg hsigns] at happly
    split at happly <;> rename_i hrange
    · rw [if_pos hrange]
      exact (endsIn_iff_execute hop hfetch).2 ⟨_, happly⟩
    · rw [if_neg hrange]
      refine ⟨_, (cycle_of_fetch hop hfetch).trans (bind_ok happly), ?_⟩
      rw [machine_told, machine_reading]

/-- A cycle ends in a block copy without a meaning if and only if its addresses grow too large. -/
lemma endsIn_copyRange_iff : s.EndsIn c (.trapped .copyRange) ↔ s.Overruns c := by
  constructor
  · intro hends
    obtain ⟨i, hi, hhalt⟩ := instruction?_of_trapped hc hends
    obtain ⟨d, a, b, rfl⟩ : ∃ d a b, i = .ternary .copyBlock d a b := by
      cases i with
      | ternary op d a b =>
        cases hhalt
        exact ⟨d, a, b, rfl⟩
      | plain | unary | binary | branch | immediate | literal => exact absurd hhalt (by simp [
          Instruction.MayHalt, Instruction.opcode])
    obtain ⟨hop, hd, ha, hb, hfetch⟩ := copyBlock_of_instruction? hc hi
    obtain ⟨s', hrun⟩ := (endsIn_iff_execute hop hfetch).1 hends
    have happly := @executeCopy_apply c hc d a b ((s.reading c 3).told c (.decoded (.ternary .copyBlock d a b)))
      hd ha hb
    replace happly := happly.symm.trans hrun
    split at happly
    case h_1 => exact absurd happly (by simp)
    case h_2 dest source size hblock =>
      split at happly
      case isTrue => exact absurd happly (by simp)
      case isFalse hsigns =>
        simp only [not_or, Int32.not_lt] at hsigns
        split at happly
        case isFalse => exact absurd happly (by simp)
        case isTrue hrange =>
          refine ⟨dest, source, size, ?_, hsigns.2, hsigns.1, hrange⟩
          rw [machine_told, machine_reading] at hblock
          rw [State.block?, hi]
          exact hblock
  · rintro ⟨dest, source, size, hblock, hdest, hsource, hrange⟩
    have hcycle := cycle_copyBlock hc hblock hdest hsource
    rwa [if_pos hrange] at hcycle

end Blocks

/-! ## The byte behind the memory -/

lemma ofInt?_ramSize : Place.ofInt? ramSize = some .behind := rfl

lemma lt_of_ofInt?_inside {n : Int} {a : Address} (h : Place.ofInt? n = some (.inside a)) :
    0 ≤ n ∧ n < ramSize := by
  unfold Place.ofInt? Address.ofInt? at h
  by_cases hin : 0 ≤ n ∧ n.toNat < ramSize
  · omega
  · rw [dif_neg hin] at h
    dsimp only at h
    split at h <;> exact absurd h (by simp)

lemma reaches_behind_iff {c : Config} {s : State} {b : UInt8} :
    s.Reaches c (.behind b) ↔ s.address? c = some (ramSize : Int) :=
  Option.bind_eq_some_iff.symm

/-- Different bytes are different integers. -/
lemma byte_inj {b b' : UInt8} (h : Int32.ofNat b.toNat = Int32.ofNat b'.toNat) : b = b' := by
  have hb := b.toNat_lt
  have hb' := b'.toNat_lt
  have hint := congrArg Int32.toInt h
  rw [Int32.toInt_ofNat_of_lt (by omega), Int32.toInt_ofNat_of_lt (by omega)] at hint
  exact UInt8.toNat_inj.1 (by omega)

section Behind

variable {c : Config} (hc : c.policy ≠ .resume) {s : State}

include hc

/-- A single read at the address behind the memory reads the byte there, and a single write at that
address writes it. -/
lemma touches_ramSize (h : s.address? c = some (ramSize : Int)) : s.Touches c ramSize := by
  obtain ⟨i, hi, haddress⟩ := Option.bind_eq_some_iff.1 h
  rw [State.Touches, ofInt?_ramSize]
  dsimp only
  unfold Instruction.address? at haddress
  split at haddress
  case h_1 r r' =>
    obtain ⟨n, hn, hsize⟩ := Option.map_eq_some_iff.1 haddress
    -- the register takes on whatever byte stands there
    let b := s.machine.behind + 1
    have hi' := (instruction?_alter c s (.behind b)).trans hi
    have hn' : (s.alter (.behind b)).machine.integer? r' = some n := hn
    have hread := cycle_peek hc hi hn
    have hread' := cycle_peek hc hi' hn'
    rw [hsize, ofInt?_ramSize] at hread hread'
    obtain ⟨s₁, hcycle, hvalue⟩ := hread
    obtain ⟨s₂, hcycle', hvalue'⟩ := hread'
    refine ⟨b, fun heq => ?_⟩
    replace hcycle' : cycle Table.builtin c (s.put .behind b) = .ok (s.opcode, true) s₂ := hcycle'
    rw [hcycle, hcycle'] at heq
    cases heq
    replace hvalue' : s₁.machine.register? r.toNat = some (.int (Int32.ofNat b.toNat)) := hvalue'
    rw [hvalue] at hvalue'
    simp only [Option.some.injEq, Value.int.injEq] at hvalue'
    have hsame : s.machine.behind = s.machine.behind + 1 := byte_inj hvalue'
    exact absurd hsame (by simp)
  case h_2 r r' =>
    obtain ⟨v, hv, haddress⟩ := Option.bind_eq_some_iff.1 haddress
    obtain ⟨n, hn, hsize⟩ := Option.map_eq_some_iff.1 haddress
    -- the byte there is overwritten, whatever it is
    let b := v.toUInt32.toUInt8 + 1
    have hi' := (instruction?_alter c s (.behind b)).trans hi
    have hv' : (s.alter (.behind b)).machine.integer? r = some v := hv
    have hn' : (s.alter (.behind b)).machine.integer? r' = some n := hn
    have hwrite := cycle_poke hc hi hv hn
    have hwrite' := cycle_poke hc hi' hv' hn'
    rw [hsize, ofInt?_ramSize] at hwrite hwrite'
    obtain ⟨s₁, hcycle, -⟩ := hwrite
    obtain ⟨s₂, hcycle', hbyte⟩ := hwrite'
    refine ⟨b, fun heq => ?_⟩
    replace hcycle' : cycle Table.builtin c (s.put .behind b) = .ok (s.opcode, true) s₂ := hcycle'
    rw [hcycle, hcycle'] at heq
    cases heq
    have hsame : v.toUInt32.toUInt8 + 1 = v.toUInt32.toUInt8 := hbyte
    exact absurd hsame (by simp)
  case h_3 => exact absurd haddress (by simp)

/-- Apart from that address nothing but the memory is read or written. -/
lemma lt_of_touches (h : s.address? c ≠ some (ramSize : Int)) {i : Int} (hi : s.Touches c i) :
    0 ≤ i ∧ i < ramSize := by
  rw [State.Touches] at hi
  cases hplace : Place.ofInt? i with
  | none =>
    rw [hplace] at hi
    obtain ⟨_, -, hhalt⟩ := instruction?_of_trapped hc hi
    exact absurd hhalt id
  | some p =>
    rw [hplace] at hi
    cases p with
    | inside a => exact lt_of_ofInt?_inside hplace
    | behind =>
      obtain ⟨b, hdiffers⟩ := hi
      exact absurd (blind_cycle hc fun hreaches => h (reaches_behind_iff.1 hreaches)) hdiffers

end Behind

/-! ## Safe and unsafe cycles -/

/-- **A cycle is safe for the memory unless it is a single read or write directly behind the memory, or
a block copy whose addresses grow too large.** Under a host that stops at reports, whatever the state:

* The two exceptions, and no other cycle, are unsafe.
* A single read or write is reported if and only if its address is not a 16 bit number; the address
  directly behind the memory is one.
* There the byte behind the memory is read or written, and nothing is reported.
* A block copy has no meaning if and only if its addresses grow too large.
* A run without a single read or write there does not depend on the byte behind the memory, and leaves
  it as it is.

**Proof sketch.** A cycle is blind to the byte behind the memory unless it reaches for it, and it makes
no access to a number that is no place. What single reads and writes and block copies do is computed
from their operands. -/
theorem ramSafe_iff {c : Config} (hc : c.policy ≠ .resume) (s : State) :
    (s.RamSafe c ↔ s.address? c ≠ some (ramSize : Int) ∧ ¬s.Overruns c) ∧
    (∀ n, s.address? c = some n →
      (s.EndsIn c (.reported .readOutsideRam) ∨ s.EndsIn c (.reported .writeOutsideRam) ↔
        n < 0 ∨ ramSize < n)) ∧
    (s.address? c = some (ramSize : Int) →
      s.Touches c ramSize ∧ ∃ a s', cycle Table.builtin c s = .ok a s') ∧
    (s.EndsIn c (.trapped .copyRange) ↔ s.Overruns c) ∧
    ∀ (depth : Nat) (limit : Int) (fuel : Nat) (b : UInt8),
      (∀ k < fuel, (run Table.builtin c depth limit k s).Going →
        (run Table.builtin c depth limit k s).state.address? c ≠ some (ramSize : Int)) →
      run Table.builtin c depth limit fuel (s.alter (.behind b)) =
        (run Table.builtin c depth limit fuel s).alter (.behind b) := by
  have hreported (n : Int) (h : s.address? c = some n) :
      s.EndsIn c (.reported .readOutsideRam) ∨ s.EndsIn c (.reported .writeOutsideRam) ↔
        n < 0 ∨ ramSize < n := by
    obtain ⟨hnone, hsome⟩ := cycle_of_address? hc h
    rw [← Place.ofInt?_eq_none_iff]
    refine ⟨fun hends => ?_, hnone⟩
    cases hplace : Place.ofInt? n with
    | none => rfl
    | some p =>
      obtain ⟨s', hgoes⟩ := hsome p hplace
      obtain ⟨s'', hends⟩ | ⟨s'', hends⟩ := hends <;>
        exact absurd (hgoes.symm.trans hends) (by simp)
  refine ⟨⟨fun hsafe => ⟨fun h => ?_, fun hover => ?_⟩, fun ⟨haddress, hover⟩ => ⟨?_, ?_, ?_⟩⟩,
    hreported, fun h => ⟨touches_ramSize hc h, ?_⟩, endsIn_copyRange_iff hc,
    fun depth limit fuel b h => ?_⟩
  · obtain ⟨-, hlt⟩ := hsafe.inside _ (touches_ramSize hc h)
    omega
  · obtain ⟨s', htrap⟩ := (endsIn_copyRange_iff hc).2 hover
    obtain ⟨dest, source, size, hblock, hdest, hsource, -⟩ := hover
    obtain ⟨a, s'', hgoes, -⟩ := hsafe.copied dest source size hblock hdest hsource
    exact absurd (hgoes.symm.trans htrap) (by simp)
  · exact fun i hi => lt_of_touches hc haddress hi
  · intro n hn hout
    have hne : n ≠ ramSize := fun heq => haddress (heq ▸ hn)
    exact (hreported n hn).2 (by omega)
  · intro dest source size hblock hdest hsource
    have hcycle := cycle_copyBlock hc hblock hdest hsource
    split at hcycle
    case isTrue hrange => exact absurd ⟨dest, source, size, hblock, hdest, hsource, hrange⟩ hover
    case isFalse =>
      obtain ⟨s', hgoes, hram⟩ := hcycle
      exact ⟨_, s', hgoes, hram⟩
  · obtain ⟨s', hgoes⟩ := (cycle_of_address? hc h).2 .behind ofInt?_ramSize
    exact ⟨_, s', hgoes⟩
  · exact blind_run hc fun k hk hgoing hreaches => h k hk hgoing (reaches_behind_iff.1 hreaches)

/-- A program that writes a byte directly behind the memory and exits. -/
def pokeBehind : Bytes :=
  [(Opcode.immediate .store).toByte, 1, 0xFF, 0xFF, (Opcode.binary .poke).toByte, 0, 1,
    (Opcode.plain .exit).toByte]

/-- The state after the first cycle: the address behind the memory is in a register. -/
def pokeBehindStored : State where
  machine := { (loaded pokeBehind).machine.setRegister 1 (.int 0xFFFF) with ip := 4 }
  log := #[]
  entropy := {}

/-- The state after the second cycle, in which the byte is written. -/
def pokeBehindWritten : State where
  machine := { pokeBehindStored.machine with ip := 7 }
  log := #[]
  entropy := {}

lemma address?_pokeBehind : pokeBehindStored.address? {} = some (ramSize : Int) := by
  have hoperand := @operand_ofBytes pokeBehind pokeBehindStored rfl
  have hfirst : pokeBehindStored.operand 1 = 0 := (hoperand 1).trans rfl
  have hsecond : pokeBehindStored.operand 2 = 1 := (hoperand 2).trans rfl
  have hread := @fetchInstruction_binary {} pokeBehindStored .poke
    (by rw [hfirst]; decide) (by rw [hsecond]; decide)
  have hinstruction : pokeBehindStored.instruction? {} = some (.binary .poke 0 1) := by
    rw [State.instruction?_eq_some_iff, State.opcode_eq_operand]
    rw [hfirst, hsecond] at hread
    exact ⟨(hoperand 0).trans rfl, _, hread⟩
  rw [State.address?, hinstruction]
  rfl

theorem ramSafe_iff_pokeBehind :
    ¬pokeBehindStored.RamSafe {} ∧ pokeBehindStored.Touches {} 0xFFFF ∧
      ¬pokeBehindStored.EndsIn {} (.reported .writeOutsideRam) := by
  obtain ⟨hsafe, hreported, htouches, -, -⟩ := ramSafe_iff (c := {}) (by decide) pokeBehindStored
  refine ⟨fun h => (hsafe.1 h).1 address?_pokeBehind, (htouches address?_pokeBehind).1, fun h => ?_⟩
  have hout := (hreported _ address?_pokeBehind).1 (.inr h)
  omega

/-- A write outside the memory need not be reported: the program is loaded into a new machine, its
second cycle writes directly behind the memory, and it runs to its end. -/
theorem ending_run_pokeBehind :
    Machine.load? pokeBehind = some (loaded pokeBehind).machine ∧
      (run Table.builtin {} 0 4 1 (loaded pokeBehind)).state = pokeBehindStored ∧
      pokeBehindStored.address? {} = some 0xFFFF ∧
      (run Table.builtin {} 0 4 4 (loaded pokeBehind)).ending = .stopped := by
  have hstore : cycle Table.builtin {} (loaded pokeBehind) = .ok (0x01, true) pokeBehindStored :=
    @cycle_of_drop pokeBehind _ _ (loaded pokeBehind) 0 rfl rfl rfl {} (by decide)
      (List.forall_mem_singleton.2 (by decide))
  have hpoke : cycle Table.builtin {} pokeBehindStored = .ok (0x61, true) pokeBehindWritten :=
    @cycle_of_drop pokeBehind _ _ pokeBehindStored 4 rfl rfl rfl {} (by decide)
      (List.forall_mem_cons.2 ⟨by decide, List.forall_mem_singleton.2 (by decide)⟩)
  have hexit : ∃ s', cycle Table.builtin {} pokeBehindWritten = .ok (0x00, true) s' ∧
      s'.machine.running = false :=
    ⟨_, @cycle_of_drop pokeBehind _ _ pokeBehindWritten 7 rfl rfl rfl {} (by decide)
      (List.forall_mem_nil _), rfl⟩
  obtain ⟨s', hexit, hstopped⟩ := hexit
  obtain ⟨q₁, hq₁, hfirst⟩ := proceed_of_ok 0 4 3 (Progress.start (loaded pokeBehind)) rfl hstore
  obtain ⟨q₂, hq₂, hsecond⟩ := proceed_of_ok 0 4 2 q₁ rfl hpoke
  obtain ⟨q₃, -, hthird⟩ := proceed_of_ok 0 4 1 q₂ rfl hexit
  have hstored : pokeBehindStored.limited 4 1 = pokeBehindStored := rfl
  have hwritten : pokeBehindWritten.limited 4 2 = pokeBehindWritten := rfl
  rw [hq₁] at hsecond
  refine ⟨rfl, ?_, address?_pokeBehind, ?_⟩
  · have hstart := proceed_of_cycle 0 4 0 (Progress.start (loaded pokeBehind)) rfl hstore
    exact congrArg Run.state hstart
  · calc (run Table.builtin {} 0 4 4 (loaded pokeBehind)).ending
        = (proceed Table.builtin {} 0 4 3 q₁ pokeBehindStored).ending :=
          congrArg Run.ending (hfirst.trans (congrArg _ hstored))
      _ = (proceed Table.builtin {} 0 4 2 q₂ pokeBehindWritten).ending :=
          congrArg Run.ending (hsecond.trans (congrArg _ hwritten))
      _ = .stopped := by
          rw [hthird, proceed_of_stopped _ _ _ _ (State.running_limited hstopped _ _)]

end RegisterMachine
