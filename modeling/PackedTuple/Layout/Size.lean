import PackedTuple.Schema.Basic

/-! # Sizes of the parts of a tuple

A tuple is a header of schema version and key hash, the key chunk and the value
chunk. A chunk is its own length, the number of its variable-length values, a
table with the start of each of them, the null map, the fixed-length values and
the variable-length ones. This module computes sizes before anything is written,
from the columns and from totals over the variable-length values.
-/

namespace PackedTuple

namespace Layout

/-- Width of the schema version, which opens the tuple. -/
def versionWidth : Nat := 2

/-- Width of the key hash, which follows the version. -/
def keyHashWidth : Nat := 4

/-- Bytes in front of the key chunk. -/
def headerSize : Nat := versionWidth + keyHashWidth

/-- Width of every length, count and table entry inside a chunk. -/
def fieldWidth : Nat := 2

/-- The largest number that such a field holds. -/
def fieldMax : Nat := 65535

/-- Bytes of a chunk in front of its table: length and count. -/
def chunkHeaderSize : Nat := fieldWidth + fieldWidth

/-- Bytes of a table with a number of entries. -/
def tableSize (entries : Nat) : Nat :=
  entries * fieldWidth

end Layout

/-- Count and total bytes of the variable-length values of one chunk, nulls left out. -/
structure VarlenTotals where
  count : Nat
  size : Nat
  deriving DecidableEq, Repr

namespace VarlenTotals

def zero : VarlenTotals :=
  ⟨0, 0⟩

/-- Totals after one more value. -/
def add (totals : VarlenTotals) (length : Nat) : VarlenTotals :=
  ⟨totals.count + 1, totals.size + length⟩

end VarlenTotals

namespace Layout

/-- Size of a chunk whose fixed-length columns are all present. A null one makes
the chunk shorter by its width. -/
def chunkSize (columns : Columns) (totals : VarlenTotals) : Nat :=
  chunkHeaderSize + tableSize totals.count + columns.nullMapSize + columns.fixedWidth + totals.size

/-- Size of a tuple whose fixed-length columns are all present. -/
def tupleSize (key value : Columns) (keyTotals valueTotals : VarlenTotals) : Nat :=
  headerSize + chunkSize key keyTotals + chunkSize value valueTotals

end Layout

/-- What has to be known of the values of a tuple to size it beforehand. -/
structure Tally where
  key : VarlenTotals
  value : VarlenTotals
  deriving DecidableEq, Repr

namespace Tally

def zero : Tally :=
  ⟨.zero, .zero⟩

/-- The tally after one more variable-length value of a chunk. -/
def add (tally : Tally) (role : ChunkRole) (length : Nat) : Tally :=
  match role with
  | .key => { tally with key := tally.key.add length }
  | .value => { tally with value := tally.value.add length }

def tupleSize (tally : Tally) (key value : Columns) : Nat :=
  Layout.tupleSize key value tally.key tally.value

end Tally

end PackedTuple
