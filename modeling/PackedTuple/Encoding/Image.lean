import PackedTuple.Bytes.Checksum
import PackedTuple.Encoding.Stored
import PackedTuple.Layout.Size

/-! # Images

The bytes of a finished tuple, given directly by its columns and data. Nothing
here knows in which order they are written: a chunk is its regions one behind
the other, and each region is a function of the whole chunk.
-/

namespace PackedTuple.Image

/-- The columns of a chunk, each with its datum. -/
abbrev Cells := List (Column × Datum)

/-- The cells that are not null. -/
def present (cells : Cells) : Cells :=
  cells.filter fun cell => cell.2 != .null

/-- The stored bytes of the fixed-length cells that are not null, in column order. -/
def fixedValues (cells : Cells) : List (List UInt8) :=
  ((present cells).filter (·.1.isFixedLength)).map fun cell => cell.2.stored cell.1.type

/-- The stored bytes of the variable-length cells that are not null, in column order. -/
def payloads (cells : Cells) : List (List UInt8) :=
  ((present cells).filter (!·.1.isFixedLength)).map fun cell => cell.2.stored cell.1.type

/-- Bytes of a chunk in front of its fixed-length values. -/
def dataStart (cells : Cells) : Nat :=
  Layout.chunkHeaderSize + Layout.tableSize (payloads cells).length +
    BitSet.byteCount cells.length

/-- Where each variable-length value starts, from the start of the chunk. -/
def starts (first : Nat) : List (List UInt8) → List Nat
  | [] => []
  | payload :: rest => first :: starts (first + payload.length) rest

/-- Where the first variable-length value would start. -/
def payloadStart (cells : Cells) : Nat :=
  dataStart cells + (fixedValues cells).flatten.length

/-- Length of a chunk. -/
def chunkLength (cells : Cells) : Nat :=
  payloadStart cells + (payloads cells).flatten.length

/-- The set of the columns that are null. -/
def nullMap (cells : Cells) : List UInt8 :=
  BitSet.pack cells.length fun index => cells[index]?.any (·.2 == .null)

/-- The bytes of a chunk. -/
def chunk (cells : Cells) : List UInt8 :=
  LittleEndian.encode Layout.fieldWidth (chunkLength cells) ++
    LittleEndian.encode Layout.fieldWidth (payloads cells).length ++
    (starts (payloadStart cells) (payloads cells)).flatMap
      (LittleEndian.encode Layout.fieldWidth) ++
    nullMap cells ++ (fixedValues cells).flatten ++ (payloads cells).flatten

/-- The cells of one chunk, from the data of the whole tuple. -/
def cells (schema : Schema) (data : List Datum) : ChunkRole → Cells
  | .key => schema.key.toList.zip data
  | .value => schema.value.toList.zip (data.drop schema.key.length)

/-- The bytes of a tuple, with or without key hash. -/
def tuple (schema : Schema) (hashKey : Bool) (data : List Datum) : List UInt8 :=
  let key := chunk (cells schema data .key)
  let hash := if hashKey then (Checksum.crc32 key).toNat else 0
  LittleEndian.encode Layout.versionWidth schema.version.toNat ++
    LittleEndian.encode Layout.keyHashWidth hash ++ key ++ chunk (cells schema data .value)

end PackedTuple.Image
