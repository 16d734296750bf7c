import PackedTuple.Layout.Size

/-! # Write position

A cursor stands inside the chunk that is being filled. It knows where the chunk
starts, how much of it is filled, which column comes next and which table entry
the next variable-length value takes. Advancing a cursor touches no bytes. The
regions of a chunk follow from its base, the number of table entries reserved
and the size of its null map.
-/

namespace PackedTuple

/-- Write position inside one chunk. -/
structure Cursor where
  role : ChunkRole
  columnCount : Nat
  base : Nat
  slots : Nat
  length : Nat
  column : Nat
  entry : Nat
  deriving DecidableEq, Repr

namespace Cursor

/-- The cursor in front of the first column of a chunk at `base` with `slots`
table entries reserved. -/
def start (role : ChunkRole) (base columnCount nullMapSize slots : Nat) : Cursor where
  role := role
  columnCount := columnCount
  base := base
  slots := slots
  length := Layout.chunkHeaderSize + Layout.tableSize slots + nullMapSize
  column := 0
  entry := 0

/-- Bytes of the chunk in front of its null map. -/
def nullMapStart (cursor : Cursor) : Nat :=
  Layout.chunkHeaderSize + Layout.tableSize cursor.slots

/-- Position of the table. -/
def tableOffset (cursor : Cursor) : Nat :=
  cursor.base + Layout.chunkHeaderSize

/-- Position of the null map. -/
def nullMapOffset (cursor : Cursor) : Nat :=
  cursor.base + cursor.nullMapStart

/-- Position of the next column; of the byte after the chunk once it is full. -/
def offset (cursor : Cursor) : Nat :=
  cursor.base + cursor.length

/-- Position of a table entry. -/
def entryOffset (cursor : Cursor) (entry : Nat) : Nat :=
  cursor.tableOffset + Layout.tableSize entry

/-- Whether no column is left. -/
def isFull (cursor : Cursor) : Bool :=
  cursor.column == cursor.columnCount

/-- Whether no reserved table entry is left. -/
def isTableFull (cursor : Cursor) : Bool :=
  cursor.slots ≤ cursor.entry

/-- The cursor after a column that takes `size` bytes and, if `takesEntry`, a table entry. -/
def advance (cursor : Cursor) (size : Nat) (takesEntry : Bool) : Cursor :=
  { cursor with
    length := cursor.length + size
    column := cursor.column + 1
    entry := cursor.entry + takesEntry.toNat }

theorem entryOffset_eq (cursor : Cursor) (entry : Nat) :
    cursor.entryOffset entry = cursor.base + 4 + 2 * entry := by
  rw [Nat.mul_comm]
  rfl

theorem nullMapOffset_eq (cursor : Cursor) :
    cursor.nullMapOffset = cursor.base + 4 + 2 * cursor.slots := by
  rw [Nat.mul_comm, Nat.add_assoc]
  rfl

theorem offset_advance (cursor : Cursor) (size : Nat) (takesEntry : Bool) :
    (cursor.advance size takesEntry).offset = cursor.offset + size :=
  (Nat.add_assoc ..).symm

/-- The cursor for the value chunk, which follows the key chunk; nothing follows the value chunk. -/
def next? (cursor : Cursor) (columnCount nullMapSize slots : Nat) : Option Cursor :=
  match cursor.role with
  | .key => some (start .value cursor.offset columnCount nullMapSize slots)
  | .value => none

end Cursor

end PackedTuple
