import PackedTuple.Buffer.Basic

/-! # Buffers in memory

In memory a buffer has cells behind its written part: it starts out as zeros, and
zeros are added when it grows. A buffer as modelled has no such cells. Nothing is
lost by this: no write leaves anything but zeros behind the written part, so the
cells are those of the buffer, padded to its capacity.
-/

namespace PackedTuple

/-- A buffer as it lies in memory: its cells, and the end of the furthest write. -/
structure Allocation where
  cells : Array UInt8
  written : Nat

namespace Allocation

/-- A number of zero cells, none of them written. -/
def new (size : Nat) : Allocation :=
  ⟨Array.replicate size 0, 0⟩

/-- Add zero cells if there are fewer than required: up to twice as many, or as many as required
if these are more. -/
def ensure (allocation : Allocation) (required : Nat) : Allocation :=
  if required ≤ allocation.cells.size then
    allocation
  else
    { allocation with
      cells := Buffer.padTo (max required (2 * allocation.cells.size)) allocation.cells }

/-- Write bytes at an offset. -/
def put (allocation : Allocation) (offset : Nat) (data : List UInt8) : Allocation :=
  if data.isEmpty then allocation else
    { cells := Buffer.overwrite (allocation.ensure (offset + data.length)).cells offset data
      written := max allocation.written (offset + data.length) }

/-- The written part. -/
def bytes (allocation : Allocation) : Array UInt8 :=
  allocation.cells.extract 0 allocation.written

/-- What is given away in place of the buffer: its cells, cut off behind the written part. -/
def intoBytes (allocation : Allocation) : Array UInt8 :=
  allocation.cells.shrink allocation.written

end Allocation

namespace Buffer

/-- A buffer as it lies in memory. -/
def allocation (buffer : Buffer) : Allocation :=
  ⟨padTo buffer.capacity buffer.bytes, buffer.written⟩

/-- In memory a buffer that nothing was written to is as good as new. -/
theorem allocation_of_written {buffer : Buffer} (hwritten : buffer.written = 0) :
    buffer.allocation = .new buffer.capacity := by
  rw [allocation, hwritten, padTo, Array.size_eq_zero_iff.mp hwritten]
  simp [Allocation.new]

theorem size_cells_allocation (buffer : Buffer) :
    buffer.allocation.cells.size = buffer.capacity := by
  rw [allocation, size_padTo]
  exact Nat.max_eq_left buffer.size_le_capacity

theorem bytes_allocation (buffer : Buffer) : buffer.allocation.bytes = buffer.bytes := by
  rw [Allocation.bytes, allocation, padTo, written]
  simp

theorem padTo_padTo {size larger : Nat} (hsize : size ≤ larger) (bytes : Array UInt8) :
    padTo larger (padTo size bytes) = padTo larger bytes := by
  rw [padTo, size_padTo, padTo, padTo, Array.append_assoc, Array.replicate_append_replicate]
  congr 2
  omega

/-- What is written inside the bytes is not touched by padding. -/
theorem padTo_overwrite {bytes : Array UInt8} {offset : Nat} {data : List UInt8}
    (hinside : offset + data.length ≤ bytes.size) (size : Nat) :
    padTo size (overwrite bytes offset data) = overwrite (padTo size bytes) offset data := by
  apply Array.ext_getElem?
  intro index
  rw [padTo, size_overwrite, Array.getElem?_append, size_overwrite, overwrite_getElem?,
    overwrite_getElem?, size_padTo, padTo, Array.getElem?_append]
  by_cases hindex : index < bytes.size
  · simp [hindex, Nat.lt_of_lt_of_le hindex (Nat.le_max_right size _)]
  · have hbehind :
        ¬(offset ≤ index ∧ index < offset + data.length ∧ index < max size bytes.size) := by
      omega
    rw [if_neg hindex, if_neg hbehind, if_neg hindex]

/-- Growing adds the zeros that the modelled buffer is padded with. -/
theorem ensure_allocation (buffer : Buffer) (required : Nat) :
    (buffer.allocation.ensure required).cells =
      padTo (grownCapacity buffer.capacity required) buffer.bytes := by
  rw [Allocation.ensure, size_cells_allocation, grownCapacity]
  split
  next => rfl
  next hgrows => exact padTo_padTo (by omega) buffer.bytes

/-- Writes in memory are those of the modelled buffer. -/
theorem allocation_put (buffer : Buffer) (offset : Nat) (data : List UInt8) :
    (buffer.put offset data).allocation = buffer.allocation.put offset data := by
  rw [put, Allocation.put]
  split
  next => rfl
  next =>
    have hrequired := required_le_grownCapacity buffer.capacity (offset + data.length)
    rw [ensure_allocation]
    simp only [allocation, written, size_overwrite, size_padTo]
    rw [padTo_overwrite (by rw [size_padTo]; exact Nat.le_max_left ..), padTo_padTo hrequired,
      Nat.max_comm]

end Buffer

end PackedTuple
