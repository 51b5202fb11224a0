import RegisterMachine.Bytes

/-!
# Characters as bytes

The assembler writes characters, and a character is any number. One below 256 is written as one
byte. A larger one is written in the pattern of UTF-8, which is carried on beyond the range of
Unicode: a first byte that tells how many bytes follow, and then six bits in each of them.

## Main definitions

* `CodePoint.encode` — the bytes of a character.
* `CodePoint.largest` — the largest character.
* `CodePoint.replacement` — the character that stands for a negative number.
-/

namespace RegisterMachine.CodePoint

/-- The largest number that is a character. -/
def largest : Nat := 0x7FFFFFFFFFFFFFFF

/-- The character that stands for one that cannot be shown. -/
def replacement : Nat := 0xFFFD

/-- The last `count` groups of six bits of a number, each in a byte of its own. -/
def continuation (n : Nat) : Nat → Bytes
  | 0 => []
  | count + 1 => continuation (n / 64) count ++ [UInt8.ofNat (0x80 + n % 64)]

/-- A group of six bits takes one byte. -/
@[simp]
theorem length_continuation (n count : Nat) : (continuation n count).length = count := by
  induction count generalizing n with
  | zero => rfl
  | succ count ih => simp [continuation, ih]

/-- A first byte with its highest bits set, which also holds the bits of the number in front of
the last `count` groups of six. -/
def leading (mark n count : Nat) : UInt8 := UInt8.ofNat (mark + n / Nat.pow 64 count)

/-- The bytes of a character. -/
def encode (n : Nat) : Bytes :=
  if n < 0x100 then [UInt8.ofNat n]
  else if n < 0x800 then leading 0xC0 n 1 :: continuation n 1
  else if n < 0x10000 then leading 0xE0 n 2 :: continuation n 2
  else if n < 0x200000 then leading 0xF0 n 3 :: continuation n 3
  else if n < 0x4000000 then leading 0xF8 n 4 :: continuation n 4
  else if n < 0x80000000 then leading 0xFC n 5 :: continuation n 5
  else if n < 0x1000000000 then 0xFE :: continuation n 6
  else 0xFF :: continuation n 12

/-- A character below 256 is one byte. -/
@[simp]
theorem encode_of_lt {n : Nat} (h : n < 0x100) : encode n = [UInt8.ofNat n] := by
  simp [encode, h]

end RegisterMachine.CodePoint
