import PackedTuple.Bytes.LittleEndian
import PackedTuple.Layout.Size

/-! # Chunks of stored tuples

A chunk is located inside the bytes of its tuple. Only its framing is checked
when it is opened. Table entries, null bits and columns are looked up on demand,
and a look-up whose result would not lie inside the chunk has no answer.

All positions count from the start of the tuple unless they are said to count
from the start of the chunk.
-/

namespace PackedTuple

/-- Why bytes cannot be the tuple of a schema, in the order in which it is checked. -/
inductive Corruption where
  | truncatedHeader
  | versionMismatch
  | truncatedChunk
  | chunkTooShort
  | chunkPastEnd
  | trailingBytes
  deriving DecidableEq, Repr

namespace Corruption

/-- What is wrong. -/
def reason : Corruption → String
  | truncatedHeader => "truncated tuple header"
  | versionMismatch => "schema version mismatch"
  | truncatedChunk => "truncated chunk header"
  | chunkTooShort => "chunk shorter than its header"
  | chunkPastEnd => "chunk extends past end of tuple"
  | trailingBytes => "trailing bytes after value chunk"

def message (corruption : Corruption) : String :=
  "corrupt tuple: " ++ corruption.reason

end Corruption

/-- A half-open range of positions. -/
structure Span where
  start : Nat
  stop : Nat
  deriving DecidableEq, Repr

/-- One chunk of a stored tuple, located. -/
structure Chunk where
  bytes : Array UInt8
  columns : Columns
  role : ChunkRole
  base : Nat
  length : Nat
  varlenCount : Nat
  deriving DecidableEq, Repr

namespace Chunk

/-- Locate the chunk that starts at `base`. -/
def read (bytes : Array UInt8) (base : Nat) (role : ChunkRole) (columns : Columns) :
    Except Corruption Chunk :=
  match LittleEndian.read? Layout.fieldWidth bytes base,
    LittleEndian.read? Layout.fieldWidth bytes (base + Layout.fieldWidth) with
  | some length, some varlenCount =>
      if length < Layout.chunkHeaderSize + Layout.tableSize varlenCount + columns.nullMapSize then
        .error .chunkTooShort
      else if bytes.size < base + length then
        .error .chunkPastEnd
      else
        .ok { bytes, columns, role, base, length, varlenCount }
  | _, _ => .error .truncatedChunk

/-- Position behind the chunk. -/
def stop (chunk : Chunk) : Nat :=
  chunk.base + chunk.length

/-- The bytes of the chunk. -/
def content (chunk : Chunk) : Array UInt8 :=
  chunk.bytes.extract chunk.base chunk.stop

/-- Position of the table. -/
def tableOffset (chunk : Chunk) : Nat :=
  chunk.base + Layout.chunkHeaderSize

/-- Position of the null map. -/
def nullMapOffset (chunk : Chunk) : Nat :=
  chunk.tableOffset + Layout.tableSize chunk.varlenCount

/-- Position of the fixed-length values, behind the null map. -/
def dataOffset (chunk : Chunk) : Nat :=
  chunk.nullMapOffset + chunk.columns.nullMapSize

/-- Whether the null map has the bit of a column set. -/
def nullBit (chunk : Chunk) (column : Nat) : Bool :=
  chunk.bytes[chunk.nullMapOffset + column / 8]?.any (BitSet.testByte · column)

/-- Whether a column exists and is null. -/
def isNull (chunk : Chunk) (column : Nat) : Bool :=
  column < chunk.columns.length && chunk.nullBit column

/-- Start of a variable-length value, from the start of the chunk. -/
def entryStart? (chunk : Chunk) (entry : Nat) : Option Nat :=
  if entry < chunk.varlenCount then
    LittleEndian.read? Layout.fieldWidth chunk.bytes (chunk.tableOffset + Layout.tableSize entry)
  else
    none

/-- Where a variable-length value lies: up to the start of the next one, or to
the end of the chunk. -/
def entrySpan? (chunk : Chunk) (entry : Nat) : Option Span := do
  let start := chunk.base + (← chunk.entryStart? entry)
  let stop := match chunk.entryStart? (entry + 1) with
    | some next => chunk.base + next
    | none => chunk.stop
  if start ≤ stop ∧ stop ≤ chunk.stop then some ⟨start, stop⟩ else none

/-- Bytes of the fixed-length columns in front of a column, nulls left out. -/
def widthBefore (chunk : Chunk) (column : Nat) : Nat :=
  (chunk.columns.toList.take column).zipIdx.foldl (fun total (declared, index) =>
    total + if chunk.nullBit index then 0 else declared.type.width?.getD 0) 0

/-- How many variable-length columns there are in front of a column, nulls left out. -/
def varlensBefore (chunk : Chunk) (column : Nat) : Nat :=
  let first := chunk.columns.fixedCount
  (List.range' first (column - first)).countP fun index => !chunk.nullBit index

/-- Where a column that is not null lies. A fixed-length one starts behind the
widths of those in front of it, a variable-length one takes the table entry
behind those of the ones in front of it. -/
def columnSpan? (chunk : Chunk) (column : Nat) : Option Span := do
  let declared ← chunk.columns.get? column
  if chunk.nullBit column then
    none
  else
    match declared.type.width? with
    | some width =>
        let start := chunk.dataOffset + chunk.widthBefore column
        if start + width ≤ chunk.stop then some ⟨start, start + width⟩ else none
    | none => chunk.entrySpan? (chunk.varlensBefore column)

/-- Where a fixed-length column that is not null lies. -/
def fixedSpan? (chunk : Chunk) (column : Nat) : Option Span := do
  let declared ← chunk.columns.get? column
  if declared.isFixedLength then chunk.columnSpan? column else none

/-- The bytes of a column that is not null. -/
def columnBytes? (chunk : Chunk) (column : Nat) : Option (Array UInt8) :=
  (chunk.columnSpan? column).map fun span => chunk.bytes.extract span.start span.stop

end Chunk

end PackedTuple
