import RegisterMachine.Proofs.MemorySafety

/-!
# Block copies that overlap

A block is copied byte by byte and upwards, on the ring of all addresses, so a byte that was just
written may be read again. What comes of that depends on the distance from the source up to the
destination on the ring. A block that is not longer than the distance is copied as it was. Where a
block is longer, as many bytes as the distance are copied again and again. If the distance is zero,
nothing changes at all.

## Main definitions

* `Address.distance` — how far up the ring one number lies from another.
* `Ram.Repeats` — what a memory holds after so many bytes of a block were copied.
* `Ram.Overwrites` — a block of a memory is written, and all else is as before.

## Main results

* `Ram.repeats_copy` — a copy repeats the bytes from the source up to the destination.
* `copyBlock_overwrites` — what the instruction that copies a block does to the memory.
-/

namespace RegisterMachine

open Effect Exec

/-! ## The ring -/

namespace Address

/-- How far up the ring of all addresses a number lies from another. -/
def distance (source dest : Int) : Nat := ((dest - source) % ramSize).toNat

lemma distance_lt (source dest : Int) : distance source dest < ramSize := by
  have hlt := Int.emod_lt_of_pos (dest - source) (show (0 : Int) < ramSize by decide)
  have hpos := Int.emod_nonneg (dest - source) (show (ramSize : Int) ≠ 0 by decide)
  rw [distance]
  omega

/-- From the source the distance leads to the destination. -/
lemma onRing_add_distance (source dest : Nat) :
    onRing (source + distance source dest) = onRing dest := by
  apply Fin.ext
  change (source + ((dest - source : Int) % 0xFFFF).toNat) % 0xFFFF = dest % 0xFFFF
  omega

/-- Numbers that differ by less than the whole ring are different addresses. -/
lemma onRing_ne {m n : Nat} (hlt : m < n) (hnear : n < m + ramSize) : onRing m ≠ onRing n := by
  intro heq
  have hval : m % 0xFFFF = n % 0xFFFF := congrArg Fin.val heq
  change n < m + 0xFFFF at hnear
  omega

lemma onRing_add_congr {m n : Nat} (h : onRing m = onRing n) (k : Nat) :
    onRing (m + k) = onRing (n + k) := by
  apply Fin.ext
  have hval : m % 0xFFFF = n % 0xFFFF := congrArg Fin.val h
  change (m + k) % 0xFFFF = (n + k) % 0xFFFF
  omega

end Address

/-! ## Copies -/

namespace Ram

open Address

/-- The last byte that is copied is read from the memory in which all others are copied. -/
lemma copy_succ (dest source n : Nat) (ram : Ram) :
    copy dest source (n + 1) ram =
      (copy dest source n ram).set (onRing (dest + n)).val
        ((copy dest source n ram).get (onRing (source + n))) (onRing (dest + n)).isLt := by
  induction n generalizing dest source ram with
  | zero => rfl
  | succ n ih =>
    have hfirst (k : Nat) : copy dest source (k + 1) ram =
        copy (dest + 1) (source + 1) k
          (ram.set (onRing dest).val (ram.get (onRing source)) (onRing dest).isLt) := rfl
    rw [hfirst (n + 1), ih, hfirst n]
    simp only [Nat.add_right_comm _ 1 n, Nat.add_assoc]

/-- A block that is copied onto itself stays as it is. -/
lemma copy_of_onRing_eq {dest source : Nat} (h : onRing source = onRing dest) (n : Nat) (ram : Ram) :
    copy dest source n ram = ram := by
  induction n with
  | zero => rfl
  | succ n ih =>
    rw [copy_succ, ih]
    simp only [onRing_add_congr h n]
    exact Vector.set_getElem_self (onRing (dest + n)).isLt

/-- What a memory holds after `n` bytes of a block were copied up by a distance. -/
structure Repeats (old new : Ram) (dest source distance n : Nat) : Prop where
  /-- A byte of the block that was not copied over since is one of the first bytes of the source. -/
  block : ∀ i < n, n ≤ i + ramSize →
    new.get (onRing (dest + i)) = old.get (onRing (source + i % distance))
  /-- A byte outside the block is as before. -/
  rest : ∀ a, (∀ i < n, a ≠ onRing (dest + i)) → new.get a = old.get a

/-- **A copy repeats the bytes from the source up to the destination**, however long it is.

**Proof sketch.** By induction on the number of bytes. The next byte that is read lies either before
the destination, where nothing was written yet, or it is the byte that was written as many steps ago
as the distance says. -/
theorem repeats_copy {dest source distance : Nat} (hpos : 0 < distance) (hlt : distance < ramSize)
    (hdest : onRing (source + distance) = onRing dest) (n : Nat) (ram : Ram) :
    Repeats ram (copy dest source n ram) dest source distance n := by
  induction n with
  | zero => exact ⟨fun i hi => absurd hi (by omega), fun _ _ => rfl⟩
  | succ n ih =>
    have hread : (copy dest source n ram).get (onRing (source + n)) =
        ram.get (onRing (source + n % distance)) := by
      by_cases hn : n < distance
      case pos =>
        simp only [Nat.mod_eq_of_lt hn]
        refine ih.rest _ fun i hi => ?_
        rw [← onRing_add_congr hdest i]
        exact onRing_ne (by omega) (by omega)
      case neg =>
        obtain ⟨k, rfl⟩ : ∃ k, n = distance + k := ⟨n - distance, by omega⟩
        have hplace : onRing (source + (distance + k)) = onRing (dest + k) := by
          rw [← Nat.add_assoc, onRing_add_congr hdest k]
        simp only [hplace, Nat.add_mod_left]
        exact ih.block k (by omega) (by omega)
    rw [copy_succ, hread]
    constructor
    case block =>
      intro i hi hlast
      by_cases heq : i = n
      case pos =>
        subst heq
        exact Vector.getElem_set_self _
      case neg =>
        have hne : onRing (dest + i) ≠ onRing (dest + n) := onRing_ne (by omega) (by omega)
        rw [← ih.block i (by omega) (by omega)]
        exact Vector.getElem_set_ne _ _ fun hval => hne (Fin.ext hval.symm)
    case rest =>
      intro a ha
      rw [← ih.rest a fun i hi => ha i (by omega)]
      exact Vector.getElem_set_ne _ _ fun hval => ha n (by omega) (Fin.ext hval.symm)

/-- The block of `n` bytes from `dest` on holds given bytes, and all else is as before. -/
structure Overwrites (old new : Ram) (dest n : Nat) (bytes : Nat → UInt8) : Prop where
  block : ∀ i < n, new.get (onRing (dest + i)) = bytes i
  rest : ∀ a, (∀ i < n, a ≠ onRing (dest + i)) → new.get a = old.get a

end Ram

/-! ## The instruction -/

/-- A block whose addresses are neither negative nor grow too large is copied, whatever the host does
with reports. -/
lemma executeCopy_of_block (c : Config) {d a b : UInt8} {s : State} {dest source size : Int32}
    (h : (Instruction.ternary .copyBlock d a b).block? s.machine = some (dest, source, size))
    (hdest : 0 ≤ dest) (hsource : 0 ≤ source)
    (hrange : max dest.toInt source.toInt + size.toInt.toNat ≤ 0x80000000) :
    ∃ s', executeTernary c d a b .copyBlock s = .ok () s' ∧
      s'.machine.ram =
        Ram.copy dest.toInt.toNat source.toInt.toNat size.toInt.toNat s.machine.ram := by
  obtain ⟨_, hsource', h⟩ := Option.bind_eq_some_iff.1 h
  obtain ⟨_, hdest', h⟩ := Option.bind_eq_some_iff.1 h
  obtain ⟨_, hsize', h⟩ := Option.map_eq_some_iff.1 h
  cases h
  have hsigns : ¬(source < 0 ∨ dest < 0) := by
    simp only [not_or, Int32.not_lt]
    exact ⟨hsource, hdest⟩
  rw [executeTernary, bind_ok (intOf_of_integer? c hsource'), bind_ok (intOf_of_integer? c hdest'),
    bind_ok (intOf_of_integer? c hsize'), if_neg hsigns, bind_ok (explain_apply s c _),
    if_neg (Int.not_lt.2 hrange)]
  refine ⟨_, rfl, ?_⟩
  change Ram.copy _ _ _ (s.told c _).machine.ram = _
  rw [machine_told]

lemma cycle_of_block {c : Config} {s : State} {dest source size : Int32}
    (h : s.block? c = some (dest, source, size)) (hdest : 0 ≤ dest) (hsource : 0 ≤ source)
    (hrange : max dest.toInt source.toInt + size.toInt.toNat ≤ 0x80000000) :
    ∃ s', cycle Table.builtin c s = .ok (s.opcode, true) s' ∧
      s'.machine.ram =
        Ram.copy dest.toInt.toNat source.toInt.toNat size.toInt.toNat s.machine.ram := by
  obtain ⟨i, hi, hblock⟩ := Option.bind_eq_some_iff.1 h
  obtain ⟨d, a, b, rfl⟩ : ∃ d a b, i = .ternary .copyBlock d a b := by
    unfold Instruction.block? at hblock
    split at hblock
    case h_1 d a b => exact ⟨d, a, b, rfl⟩
    case h_2 => exact absurd hblock (by simp)
  obtain ⟨hop, s₁, hfetch⟩ := State.instruction?_eq_some_iff.1 hi
  -- reading the operands concerns neither the registers nor the memory
  have hmachine : (s₁.told c (.decoded (.ternary .copyBlock d a b))).machine =
      { s.machine with ip := s₁.machine.ip } := by
    rw [machine_told, machine_of_fetchInstruction hfetch, machine_begun]
  have hblock' : (Instruction.ternary .copyBlock d a b).block?
      (s₁.told c (.decoded (.ternary .copyBlock d a b))).machine = some (dest, source, size) := by
    rw [hmachine]
    exact hblock
  obtain ⟨s', hrun, hcopy⟩ := executeCopy_of_block c hblock' hdest hsource hrange
  rw [hmachine] at hcopy
  exact ⟨s', (cycle_of_fetch hop hfetch).trans (bind_ok hrun), hcopy⟩

/-- **A block copy onto bytes that it still has to read repeats what it copied.** Let the block go from
one address that is not negative to another, and let neither of them grow too large. With the distance
on the ring from the source up to the destination, and whatever the memory holds:

* If there is nothing to copy, or the distance is zero, the memory stays as it is.
* A block that is not longer than the distance is copied as it was.
* Where a longer block does not reach its source again from behind, the bytes from the source up to the
  destination are repeated.
* In both cases no other byte changes.

**Proof sketch.** By `Ram.repeats_copy` the bytes of the source repeat with the distance as period. The
block is shorter than the ring, so none of its bytes is copied over. -/
theorem copyBlock_overwrites {c : Config} {s : State} {dest source size : Int32}
    (h : s.block? c = some (dest, source, size)) (hdest : 0 ≤ dest) (hsource : 0 ≤ source)
    (hdestEnd : dest.toInt + size.toInt < 0x80000000)
    (hsourceEnd : source.toInt + size.toInt < 0x80000000) :
    ∃ s', cycle Table.builtin c s = .ok (s.opcode, true) s' ∧
      let d := Address.distance source.toInt dest.toInt
      let n := size.toInt.toNat
      (size ≤ 0 ∨ d = 0 → s'.machine.ram = s.machine.ram) ∧
      (0 < size → n ≤ d →
        Ram.Overwrites s.machine.ram s'.machine.ram dest.toInt.toNat n
          fun i => s.machine.ram.get (Address.onRing (source.toInt.toNat + i))) ∧
      (0 < d → d < n → n ≤ ramSize - d →
        Ram.Overwrites s.machine.ram s'.machine.ram dest.toInt.toNat n
          fun i => s.machine.ram.get (Address.onRing (source.toInt.toNat + i % d))) := by
  have hdest' : 0 ≤ dest.toInt := Int32.le_iff_toInt_le.1 hdest
  have hsource' : 0 ≤ source.toInt := Int32.le_iff_toInt_le.1 hsource
  have hdestLt := dest.toInt_lt
  have hsourceLt := source.toInt_lt
  obtain ⟨s', hcycle, hram⟩ := cycle_of_block h hdest hsource (by omega)
  refine ⟨s', hcycle, ?_⟩
  intro d n
  have hd : Address.onRing (source.toInt.toNat + d) = Address.onRing dest.toInt.toNat := by
    have hring := Address.onRing_add_distance source.toInt.toNat dest.toInt.toNat
    rwa [Int.toNat_of_nonneg hsource', Int.toNat_of_nonneg hdest'] at hring
  have hlt : d < ramSize := Address.distance_lt _ _
  have hrepeats (hpos : 0 < d) := Ram.repeats_copy hpos hlt hd n s.machine.ram
  rw [hram]
  refine ⟨?_, fun hsize hle => ?_, fun hpos hlong hle => ?_⟩
  · rintro (hsize | hzero)
    · have hsize' : size.toInt ≤ 0 := Int32.le_iff_toInt_le.1 hsize
      have hn : size.toInt.toNat = 0 := by omega
      rw [hn]
      rfl
    · rw [hzero, Nat.add_zero] at hd
      exact Ram.copy_of_onRing_eq hd _ _
  · have hsize' : 0 < size.toInt := Int32.lt_iff_toInt_lt.1 hsize
    obtain ⟨hblock, hrest⟩ := hrepeats (by omega)
    refine ⟨fun i hi => ?_, hrest⟩
    rw [hblock i hi (by omega)]
    simp only [Nat.mod_eq_of_lt (show i < d by omega)]
  · obtain ⟨hblock, hrest⟩ := hrepeats hpos
    exact ⟨fun i hi => hblock i hi (by omega), hrest⟩

/-- A block copy. -/
def copying : Bytes := [(Opcode.ternary .copyBlock).toByte, 0, 1, 2]

/-- A machine about to copy three bytes from the last address of its memory to the second one. -/
def copyingOverEnd : State :=
  { loaded copying with
    machine.registers := Vector.ofFn fun r => .int ([1, 0xFFFE, 3].getD r.val 0) }

lemma block?_copyingOverEnd : copyingOverEnd.block? {} = some (1, 0xFFFE, 3) := by
  have hoperand := @operand_ofBytes copying copyingOverEnd rfl
  have hdest : copyingOverEnd.operand 1 = 0 := (hoperand 1).trans rfl
  have hsource : copyingOverEnd.operand 2 = 1 := (hoperand 2).trans rfl
  have hsize : copyingOverEnd.operand 3 = 2 := (hoperand 3).trans rfl
  have hread := @fetchInstruction_ternary {} copyingOverEnd .copyBlock (by rw [hdest]; decide)
    fun _ => ⟨by rw [hsource]; decide, by rw [hsize]; decide⟩
  have hinstruction : copyingOverEnd.instruction? {} = some (.ternary .copyBlock 0 1 2) := by
    rw [State.instruction?_eq_some_iff, State.opcode_eq_operand]
    rw [hdest, hsource, hsize] at hread
    exact ⟨(hoperand 0).trans rfl, _, hread⟩
  rw [State.block?, hinstruction]
  rfl

/-- The last byte of the memory and the opcode at its start are repeated. -/
theorem copyBlock_overwrites_copyingOverEnd :
    copyingOverEnd.block? {} = some (1, 0xFFFE, 3) ∧ Address.distance 0xFFFE 1 = 2 ∧
      ∃ s', cycle Table.builtin {} copyingOverEnd = .ok (copyingOverEnd.opcode, true) s' ∧
        s'.machine.ram.get (Address.onRing 1) = 0 ∧ s'.machine.ram.get (Address.onRing 2) = 0x62 ∧
        s'.machine.ram.get (Address.onRing 3) = 0 ∧ s'.machine.ram.get (Address.onRing 4) = 0 := by
  obtain ⟨s', hcycle, -, -, hrepeats⟩ := copyBlock_overwrites block?_copyingOverEnd (by decide)
    (by decide) (by decide) (by decide)
  obtain ⟨hblock, hrest⟩ := hrepeats (by decide) (by decide) (by decide)
  have hloaded : copyingOverEnd.machine.ram = Ram.ofBytes copying := rfl
  have hram (n : Nat) : copyingOverEnd.machine.ram.get (Address.onRing n) =
      copying[n % ramSize]?.getD 0 := by
    rw [hloaded]
    exact Ram.getElem_ofBytes copying (Address.onRing n)
  refine ⟨block?_copyingOverEnd, by decide, s', hcycle, ?_, ?_, ?_, ?_⟩
  · exact (hblock 0 (by decide)).trans (hram _)
  · exact (hblock 1 (by decide)).trans (hram _)
  · exact (hblock 2 (by decide)).trans (hram _)
  · refine (hrest (Address.onRing 4) fun i hi => ?_).trans (hram _)
    change i < 3 at hi
    change Address.onRing 4 ≠ Address.onRing (1 + i)
    exact (Address.onRing_ne (by omega) (show 4 < 1 + i + 0xFFFF by omega)).symm

end RegisterMachine
