import RegisterMachine.Proofs.Decoding
import RegisterMachine.Proofs.Operands

/-!
# Texts in the code

A text in the code is a word that tells its length, and then its bytes. It is read on the ring of all
addresses: its length, its first and its last byte may be on either side of the end of the memory. It
is read to its end, also behind a zero byte, where the text that is taken from it ends. The pointer
is left on the last byte that was read, which is always an address.

## Main results

* `Ram.textBytes_congr` — a text is determined by its own bytes.
* `fetchText_onRing` — what is read as a text, and where the pointer is left.
-/

namespace RegisterMachine

open Exec

section Texts

variable {ram ram' : Ram} {a : Nat}

/-- A text is determined by its length and its bytes. -/
lemma Ram.textBytes_congr (h : ∀ k, 0 < k → k ≤ ram.textLength a + 2 →
      ram'.get (Address.onRing (a + k)) = ram.get (Address.onRing (a + k))) :
    ram'.textLength a = ram.textLength a ∧ ram'.textBytes a = ram.textBytes a := by
  have hlength : ram'.textLength a = ram.textLength a := by
    rw [Ram.textLength, h 1 (by omega) (by omega), h 2 (by omega) (by omega), Ram.textLength]
  refine ⟨hlength, ?_⟩
  rw [Ram.textBytes, hlength, Ram.textBytes]
  refine List.map_congr_left fun i hi => ?_
  have hlt : i < ram.textLength a := List.mem_range.1 hi
  rw [Nat.add_assoc]
  exact h (3 + i) (by omega) (by omega)

end Texts

/-- A text is read behind a pointer that is an address. -/
lemma fetchText_of_lt {s : State} (hp : s.machine.ip.toNat < ramSize) :
    fetchText s =
      .ok (Bytes.upToNul (s.machine.ram.textBytes s.machine.ip.toNat))
        { s with machine.ip := (Address.onRing (s.machine.ip.toNat + 2 +
          s.machine.ram.textLength s.machine.ip.toNat)).toPointer } := by
  have hseek : s.seek s.machine.ip.toNat = s := by rw [State.seek, UInt32.ofNat_toNat]
  have htext := fetchText_seek s ⟨s.machine.ip.toNat, hp⟩
  rw [hseek] at htext
  exact htext

/-- **A text is read on the ring of all addresses.** Let the pointer be an address.

* The bytes that are read are those that follow the two bytes of the length, in their order and as many
  as the length tells.
* The result is what stands in front of the first zero byte among them.
* The pointer is left on the last byte that was read, or on the length if the text is empty. That is an
  address again, and nothing else changes.
* A machine with the same pointer that holds the same length and the same bytes reads the same text.

**Proof sketch.** The pointer of the loop is always one behind the address that was read last
(`readAfter_toPointer`). So it stands for the next address on the ring before each byte, and one step
back from it is an address at the end, whether or not a byte was read. -/
theorem fetchText_onRing (s : State) (hp : s.machine.ip.toNat < ramSize) :
    let p := s.machine.ip.toNat
    let length := s.machine.ram.textLength p
    let bytes := s.machine.ram.textBytes p
    ∃ q : UInt32,
      s.machine.ram.read length ((Address.onRing (p + 2)).toPointer + 1) = (bytes, q + 1) ∧
      fetchText s = .ok (bytes.takeWhile (· != 0)) { s with machine.ip := q } ∧
      q.toNat = (p + 2 + length) % ramSize ∧ q.toNat < ramSize ∧
      ∀ s' : State, s'.machine.ip = s.machine.ip →
        (∀ k, 0 < k → k ≤ length + 2 → s'.machine.ram.get (Address.onRing (p + k)) =
          s.machine.ram.get (Address.onRing (p + k))) →
        fetchText s' = .ok (bytes.takeWhile (· != 0)) { s' with machine.ip := q } := by
  intro p length bytes
  have hq := Address.toNat_toPointer (Address.onRing (p + 2 + length))
  refine ⟨(Address.onRing (p + 2 + length)).toPointer, read_textLength _ _, fetchText_of_lt hp, hq, ?_,
    fun s' hip hram => ?_⟩
  · rw [hq]
    exact (Address.onRing (p + 2 + length)).isLt
  · obtain ⟨hlength, hbytes⟩ := Ram.textBytes_congr hram
    have htext := fetchText_of_lt (s := s') (by rwa [hip])
    rw [hip, hlength, hbytes] at htext
    exact htext

/-- A memory that holds a text of four bytes over its end, the third of them zero. -/
def textOverEnd : Ram :=
  Vector.ofFn fun a => [4, 0, 0x68, 0x69, 0, 0x21].getD ((a.val + 4) % ramSize) 0

/-- A machine that is about to read this text. -/
def atTextOverEnd : State := { loaded [] with machine.ram := textOverEnd, machine.ip := 0xFFFA }

theorem fetchText_onRing_textOverEnd :
    textOverEnd.textBytes 0xFFFA = [0x68, 0x69, 0, 0x21] ∧
      ∃ q : UInt32, fetchText atTextOverEnd = .ok (ascii "hi") { atTextOverEnd with machine.ip := q } ∧
        q.toNat = 1 := by
  have hbyte (a : Address) : textOverEnd.get a =
      [4, 0, 0x68, 0x69, 0, 0x21].getD ((a.val + 4) % ramSize) 0 := Vector.getElem_ofFn a.isLt
  have hlength : textOverEnd.textLength 0xFFFA = 4 := by
    rw [Ram.textLength, hbyte, hbyte]
    rfl
  have hbytes : textOverEnd.textBytes 0xFFFA = [0x68, 0x69, 0, 0x21] := by
    rw [Ram.textBytes, hlength]
    simp only [hbyte]
    rfl
  have hlength' : atTextOverEnd.machine.ram.textLength atTextOverEnd.machine.ip.toNat = 4 := hlength
  have hbytes' : atTextOverEnd.machine.ram.textBytes atTextOverEnd.machine.ip.toNat =
      [0x68, 0x69, 0, 0x21] := hbytes
  obtain ⟨q, -, htext, hq, -⟩ := fetchText_onRing atTextOverEnd (by decide)
  rw [hbytes'] at htext
  rw [hlength'] at hq
  exact ⟨hbytes, q, htext, hq⟩

end RegisterMachine
