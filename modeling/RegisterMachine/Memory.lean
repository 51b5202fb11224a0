import RegisterMachine.Bytes

/-!
# The memory of the machine

Code and data share one memory of `0xFFFF` bytes. The instruction pointer is a 32 bit word that
may run past the end of the memory; the machine reads at the address of the pointer, which is
the pointer itself inside the memory and the start of the memory beyond it. So code that runs
over the end goes on at the start.

A program can also read and write single bytes at addresses of its own. These reach one byte
further than the memory goes: the byte directly behind it is a place of its own.

## Main definitions

* `Ram`, `Address` — the memory, and the places in it.
* `Address.ofPointer`, `Address.ofInt?`, `Address.onRing` — where the machine reads for a pointer,
  for a number, and for a number taken on the ring of all addresses.
* `Place` — where single reads and writes go.
* `Ram.ofBytes` — a memory that holds an image at its start.
* `Ram.read` — a run of bytes, read one after the other.
* `Ram.copy` — the block copy, one byte after the other.
-/

namespace RegisterMachine

/-- The number of bytes of the memory. -/
abbrev ramSize : Nat := 0xFFFF

/-- The memory of the machine. -/
abbrev Ram := Vector UInt8 ramSize

/-- A place in the memory. -/
abbrev Address := Fin ramSize

namespace Address

/-- The start of the memory. -/
def start : Address := ⟨0, by decide⟩

/-- The address that a pointer stands for: a pointer beyond the memory stands for its start. -/
def ofPointer (p : UInt32) : Address :=
  if h : p.toNat < ramSize then ⟨p.toNat, h⟩ else start

/-- The address that a number is, if it is one. -/
def ofInt? (n : Int) : Option Address :=
  if h : 0 ≤ n ∧ n.toNat < ramSize then some ⟨n.toNat, h.2⟩ else none

/-- The pointer to an address. -/
def toPointer (a : Address) : UInt32 := UInt32.ofNat a.val

/-- The address of a number on the ring of all addresses. -/
def onRing (n : Nat) : Address := ⟨n % ramSize, Nat.mod_lt _ (by decide)⟩

theorem toNat_toPointer (a : Address) : a.toPointer.toNat = a.val := by
  have h : a.val < 0xFFFF := a.isLt
  simp only [toPointer, UInt32.toNat_ofNat']
  omega

/-- A pointer to an address stands for that address. -/
@[simp]
theorem ofPointer_toPointer (a : Address) : ofPointer a.toPointer = a := by
  apply Fin.ext
  have h := a.isLt
  simp [ofPointer, toNat_toPointer, h]

end Address

/-- Where single reads and writes go: to an address, or to the byte behind the memory. -/
inductive Place where
  | inside (a : Address)
  | behind
  deriving DecidableEq, Repr

/-- The place that a number is, if it is one. The number behind the last address is the place
behind the memory. -/
def Place.ofInt? (n : Int) : Option Place :=
  match Address.ofInt? n with
  | some a => some (.inside a)
  | none => if n = ramSize then some .behind else none

namespace Ram

/-- The memory that holds an image at its start and zeros after it. -/
def ofBytes (image : Bytes) : Ram :=
  let bytes := image.toArray
  Vector.ofFn fun a => bytes.getD a.val 0

/-- Reads `n` bytes from a pointer on, each at the address of the pointer at that moment, and
gives them after `done` (which is in reverse) with the pointer behind the last one. -/
def readAfter (ram : Ram) (done : Bytes) : Nat → UInt32 → Bytes × UInt32
  | 0, p => (done.reverse, p)
  | n + 1, p =>
    let a := Address.ofPointer p
    readAfter ram (ram[a] :: done) n (a.toPointer + 1)

/-- Reads `n` bytes from a pointer on: the bytes, and the pointer behind the last one. -/
def read (ram : Ram) (n : Nat) (p : UInt32) : Bytes × UInt32 := readAfter ram [] n p

/-- Copies `n` bytes, one after the other and upwards, on the ring of all addresses. A
destination that overlaps the bytes still to be read therefore repeats what was copied. -/
def copy (dest source : Nat) : Nat → Ram → Ram
  | 0, ram => ram
  | n + 1, ram =>
    let b := ram[Address.onRing source]
    let place := Address.onRing dest
    copy (dest + 1) (source + 1) n (ram.set place.val b place.isLt)

/-- Writes bytes from an address on, as far as the memory goes. -/
def write (address : Nat) : Bytes → Ram → Ram
  | [], ram => ram
  | b :: bytes, ram => write (address + 1) bytes (ram.setIfInBounds address b)

/-- A byte of a loaded memory is the byte of the image, or zero behind the image. -/
@[simp]
theorem getElem_ofBytes (image : Bytes) (a : Address) :
    (ofBytes image)[a] = image[a.val]?.getD 0 := by
  simp [ofBytes]

end Ram

end RegisterMachine
