import PackedTuple.Bytes.LittleEndian

/-! # Growable byte buffers

A buffer takes writes at any offset, in any order. Bytes between and behind the
writes are zero. It keeps the bytes up to the end of the furthest write, and its
capacity as a number: what lies beyond the written bytes is zero by definition
and takes no room. A write past the capacity doubles it, or raises it to the end
of the write if that is more. An empty write changes nothing at all.
-/

namespace PackedTuple

/-- A number of fixed width, as it is written into a buffer. Floating-point
numbers are given by their bits, which are stored as they are. -/
inductive Scalar where
  | int8 (number : Int8)
  | uint8 (number : UInt8)
  | int16 (number : Int16)
  | uint16 (number : UInt16)
  | int32 (number : Int32)
  | uint32 (number : UInt32)
  | int64 (number : Int64)
  | uint64 (number : UInt64)
  | float32 (bits : UInt32)
  | float64 (bits : UInt64)
  deriving DecidableEq, Repr

/-- The little-endian bytes of a number, signed ones in two's complement. -/
def Scalar.toBytes : Scalar → List UInt8
  | int8 number => LittleEndian.encode 1 number.toUInt8.toNat
  | uint8 number => LittleEndian.encode 1 number.toNat
  | int16 number => LittleEndian.encode 2 number.toUInt16.toNat
  | uint16 number => LittleEndian.encode 2 number.toNat
  | int32 number => LittleEndian.encode 4 number.toUInt32.toNat
  | uint32 number => LittleEndian.encode 4 number.toNat
  | int64 number => LittleEndian.encode 8 number.toUInt64.toNat
  | uint64 number => LittleEndian.encode 8 number.toNat
  | float32 bits => LittleEndian.encode 4 bits.toNat
  | float64 bits => LittleEndian.encode 8 bits.toNat

/-- The bytes up to the end of the furthest write, and the room allocated. -/
structure Buffer where
  bytes : Array UInt8
  capacity : Nat
  size_le_capacity : bytes.size ≤ capacity
  deriving DecidableEq, Repr

namespace Buffer

/-- An empty buffer with room for `capacity` bytes. -/
def withCapacity (capacity : Nat) : Buffer where
  bytes := #[]
  capacity := capacity
  size_le_capacity := Nat.zero_le capacity

/-- End of the furthest write. -/
def written (buffer : Buffer) : Nat :=
  buffer.bytes.size

/-- The byte at an offset, zero where nothing was written. -/
def byteAt (buffer : Buffer) (offset : Nat) : UInt8 :=
  buffer.bytes[offset]?.getD 0

/-- Zero bytes at the end, up to a given size. -/
def padTo (size : Nat) (bytes : Array UInt8) : Array UInt8 :=
  bytes ++ Array.replicate (size - bytes.size) 0

/-- Replace the bytes from `offset` on; what would fall behind the end is dropped. -/
def overwrite (bytes : Array UInt8) (offset : Nat) : List UInt8 → Array UInt8
  | [] => bytes
  | byte :: rest => overwrite (bytes.setIfInBounds offset byte) (offset + 1) rest

/-- Capacity after a write that ends at `required`. -/
def grownCapacity (capacity required : Nat) : Nat :=
  if required ≤ capacity then capacity else max required (2 * capacity)

@[simp] theorem size_padTo (size : Nat) (bytes : Array UInt8) :
    (padTo size bytes).size = max size bytes.size := by
  simp only [padTo, Array.size_append, Array.size_replicate]
  omega

@[simp] theorem size_overwrite (bytes : Array UInt8) (offset : Nat) (data : List UInt8) :
    (overwrite bytes offset data).size = bytes.size := by
  induction data generalizing bytes offset with
  | nil => rfl
  | cons byte rest ih => rw [overwrite, ih, Array.size_setIfInBounds]

theorem required_le_grownCapacity (capacity required : Nat) :
    required ≤ grownCapacity capacity required := by
  unfold grownCapacity
  split <;> omega

theorem le_grownCapacity (capacity required : Nat) :
    capacity ≤ grownCapacity capacity required := by
  unfold grownCapacity
  split <;> omega

/-- Write bytes at an offset. -/
def put (buffer : Buffer) (offset : Nat) (data : List UInt8) : Buffer :=
  if data.isEmpty then buffer else
    { bytes := overwrite (padTo (offset + data.length) buffer.bytes) offset data
      capacity := grownCapacity buffer.capacity (offset + data.length)
      size_le_capacity := by
        have hrequired := required_le_grownCapacity buffer.capacity (offset + data.length)
        have hgrown := le_grownCapacity buffer.capacity (offset + data.length)
        have hsize := buffer.size_le_capacity
        simp only [size_overwrite, size_padTo]
        omega }

/-- Write the little-endian bytes of a number. -/
def putScalar (buffer : Buffer) (offset : Nat) (scalar : Scalar) : Buffer :=
  buffer.put offset scalar.toBytes

/-- Write several pieces one behind the other. The cut into pieces shows in the
growth of the capacity only. -/
def putPieces (buffer : Buffer) (offset : Nat) : List (List UInt8) → Buffer
  | [] => buffer
  | piece :: rest => (buffer.put offset piece).putPieces (offset + piece.length) rest

/-- Write a number of zero bytes one by one. -/
def putZeros (buffer : Buffer) (offset count : Nat) : Buffer :=
  buffer.putPieces offset (List.replicate count [0])

theorem overwrite_getElem? (bytes : Array UInt8) (offset : Nat) (data : List UInt8) (index : Nat) :
    (overwrite bytes offset data)[index]? =
      if offset ≤ index ∧ index < offset + data.length ∧ index < bytes.size then
        data[index - offset]?
      else
        bytes[index]? := by
  induction data generalizing bytes offset with
  | nil =>
      rw [overwrite, if_neg]
      simp only [List.length_nil]
      omega
  | cons byte rest ih =>
      rw [overwrite, ih, Array.size_setIfInBounds, Array.getElem?_setIfInBounds]
      simp only [List.length_cons]
      by_cases hsame : offset = index
      · subst hsame
        simp only [Nat.le_refl, Nat.sub_self, List.getElem?_cons_zero, true_and, if_true]
        rw [if_neg (by omega)]
        by_cases hin : offset < bytes.size
        · rw [if_pos hin, if_pos (by omega)]
        · rw [if_neg hin, if_neg (by omega), Array.getElem?_eq_none (by omega)]
      · simp only [hsame, if_false]
        by_cases hin : offset ≤ index ∧ index < offset + (rest.length + 1) ∧ index < bytes.size
        · rw [if_pos hin, if_pos (by omega),
            show index - offset = (index - (offset + 1)) + 1 by omega, List.getElem?_cons_succ]
        · rw [if_neg hin, if_neg (by omega)]

/-- A write shows the data it covers and keeps every other byte. -/
theorem byteAt_put (buffer : Buffer) (offset : Nat) (data : List UInt8) (index : Nat) :
    (buffer.put offset data).byteAt index =
      if offset ≤ index ∧ index < offset + data.length then
        data[index - offset]?.getD 0
      else
        buffer.byteAt index := by
  unfold put
  split
  next hempty =>
    rw [if_neg]
    simp only [List.isEmpty_iff.mp hempty, List.length_nil]
    omega
  next =>
    simp only [byteAt, overwrite_getElem?, size_padTo]
    by_cases hin : offset ≤ index ∧ index < offset + data.length
    · rw [if_pos (by omega), if_pos hin]
    · rw [if_neg (by omega), if_neg hin, padTo, Array.getElem?_append]
      split
      next => rfl
      next hbehind =>
        rw [Array.getElem?_replicate, Array.getElem?_eq_none (by omega)]
        split <;> rfl

/-- The end of the furthest write moves only in a write that is not empty. -/
theorem written_put (buffer : Buffer) (offset : Nat) (data : List UInt8) :
    (buffer.put offset data).written =
      if data = [] then buffer.written else max buffer.written (offset + data.length) := by
  unfold put
  simp only [List.isEmpty_iff]
  split
  next => rfl
  next =>
    simp only [written, size_overwrite, size_padTo]
    omega

/-- The capacity changes only in a write that is not empty. -/
theorem capacity_put (buffer : Buffer) (offset : Nat) (data : List UInt8) :
    (buffer.put offset data).capacity =
      if data = [] then buffer.capacity
      else grownCapacity buffer.capacity (offset + data.length) := by
  unfold put
  simp only [List.isEmpty_iff]
  split <;> rfl

end Buffer

end PackedTuple
