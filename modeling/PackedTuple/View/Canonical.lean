import PackedTuple.Encoding.Stored
import PackedTuple.View.Tuple

/-! # Canonical tuples

Framing leaves much of a chunk open: stray bits in the null map, table entries
out of order, bytes that belong to no column. A canonical tuple has nothing of
the kind and no key hash. `data?` reads the data of all columns back.
-/

namespace PackedTuple

/-- Every byte of the chunk is there for a column, and every column can be read. -/
structure Chunk.IsCanonical (chunk : Chunk) : Prop where
  padding_clear : ∀ index, chunk.columns.length ≤ index → index < 8 * chunk.columns.nullMapSize →
    chunk.nullBit index = false
  nulls_allowed : ∀ index column, chunk.columns.get? index = some column →
    chunk.isNull index = true → column.nullable = true
  count_exact : chunk.varlenCount = chunk.varlensBefore chunk.columns.length
  fixed_exact : chunk.dataOffset + chunk.widthBefore chunk.columns.length =
    chunk.base + (chunk.entryStart? 0).getD chunk.length
  starts_ordered : ∀ entry start next, chunk.entryStart? entry = some start →
    chunk.entryStart? (entry + 1) = some next → start ≤ next
  starts_inside : ∀ entry start, chunk.entryStart? entry = some start → start ≤ chunk.length
  bits_declared : ∀ index column bits bytes, chunk.columns.get? index = some column →
    column.type = .bitmask bits → chunk.columnBytes? index = some bytes →
    ∀ bit, BitSet.contains bytes.toList bit = true → bit < bits
  texts_valid : ∀ index column bytes, chunk.columns.get? index = some column →
    column.type = .string → chunk.columnBytes? index = some bytes →
    ∃ text, utf8Bytes text = bytes.toList

/-- The datum of a column, null included. -/
def Chunk.datum? (chunk : Chunk) (index : Nat) : Option Datum := do
  let column ← chunk.columns.get? index
  if chunk.isNull index then
    some .null
  else
    column.type.read? (← chunk.columnBytes? index).toList

/-- The data of all columns of a chunk. -/
def Chunk.data? (chunk : Chunk) : Option (List Datum) :=
  (List.range chunk.columns.length).mapM chunk.datum?

namespace Tuple

/-- No key hash, and both chunks canonical. -/
structure IsCanonical (tuple : Tuple) : Prop where
  hash_zero : tuple.keyHash = 0
  key : tuple.key.IsCanonical
  value : tuple.value.IsCanonical

/-- The data of all columns, key columns first. -/
def data? (tuple : Tuple) : Option (List Datum) := do
  return (← tuple.key.data?) ++ (← tuple.value.data?)

end Tuple

end PackedTuple
