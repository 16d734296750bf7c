/-! # Bit sets in bytes

A list of bytes stands for a set of indices: bit `i` of the set is bit `i % 8`
of byte `i / 8`, and every index past the last byte is absent. Trailing zero
bytes therefore never change the set that a list stands for.
-/

namespace PackedTuple.BitSet

/-- Whole bytes needed to hold a number of bits. -/
def byteCount (bits : Nat) : Nat :=
  (bits + 7) / 8

/-- Whether the byte that holds bit `index` of a set has that bit set. -/
def testByte (byte : UInt8) (index : Nat) : Bool :=
  byte.toNat.testBit (index % 8)

/-- The byte that holds bit `index` of a set and no other bit. -/
def singleByte (index : Nat) : UInt8 :=
  UInt8.ofNat (1 <<< (index % 8))

/-- Membership of an index in the set that `bytes` stands for. -/
def contains (bytes : List UInt8) (index : Nat) : Bool :=
  bytes[index / 8]?.any (testByte · index)

/-- One more than the highest bit of a byte, zero for the zero byte. -/
def byteLength (byte : UInt8) : Nat :=
  if byte = 0 then 0 else byte.toNat.log2 + 1

/-- One more than the highest index in the set, zero for the empty set. -/
def bitLength (bytes : List UInt8) : Nat :=
  bytes.foldr (fun byte above => if above = 0 then byteLength byte else above + 8) 0

/-- The part of a set below `8 * size`, in exactly `size` bytes. -/
def resize (bytes : List UInt8) (size : Nat) : List UInt8 :=
  (List.range size).map fun index => bytes[index]?.getD 0

/-- The number whose lowest `count` bits are those of a predicate, and no others. -/
def packBits (bit : Nat → Bool) : (count : Nat) → Nat
  | 0 => 0
  | count + 1 => (bit 0).toNat + 2 * packBits (fun index => bit (index + 1)) count

/-- The byte whose bit `index` is `bit index`. -/
def packByte (bit : Nat → Bool) : UInt8 :=
  UInt8.ofNat (packBits bit 8)

/-- The set of the indices below `count` that satisfy `bit`, in the fewest whole bytes. -/
def pack (count : Nat) (bit : Nat → Bool) : List UInt8 :=
  (List.range (byteCount count)).map fun byte =>
    packByte fun index => decide (8 * byte + index < count) && bit (8 * byte + index)

/-- Rounding up to whole bytes leaves room for every bit. -/
theorem le_byteCount (bits : Nat) : bits ≤ 8 * byteCount bits := by
  unfold byteCount
  omega

@[simp] theorem length_resize (bytes : List UInt8) (size : Nat) :
    (resize bytes size).length = size := by
  simp [resize]

@[simp] theorem length_pack (count : Nat) (bit : Nat → Bool) :
    (pack count bit).length = byteCount count := by
  simp [pack]

/-- Resizing keeps the set below the new size. -/
theorem contains_resize (bytes : List UInt8) (size index : Nat) :
    contains (resize bytes size) index = (decide (index < 8 * size) && contains bytes index) := by
  have hbound : index / 8 < size ↔ index < 8 * size := by omega
  by_cases hin : index / 8 < size
  · have hdecide : decide (index < 8 * size) = true := decide_eq_true (hbound.mp hin)
    rw [hdecide, Bool.true_and, contains, contains, resize, List.getElem?_map,
      List.getElem?_range hin, Option.map_some, Option.any_some]
    cases bytes[index / 8]? with
    | none => simp [testByte]
    | some byte => rfl
  · have hdecide : decide (index < 8 * size) = false := decide_eq_false (by omega)
    rw [hdecide, Bool.false_and, contains, List.getElem?_eq_none (by simp; omega)]
    rfl

end PackedTuple.BitSet
