import PackedTuple.Bytes.Checksum
import PackedTuple.View.Chunk

/-! # Stored tuples

Opening the bytes of a tuple locates its chunks. The header, the key chunk and
the value chunk have to follow one another without a gap and fill the bytes
exactly; nothing else is required of them.
-/

namespace PackedTuple

/-- The bytes of a tuple with both chunks located. -/
structure Tuple where
  bytes : Array UInt8
  key : Chunk
  value : Chunk
  deriving DecidableEq, Repr

namespace Tuple

/-- Locate the chunks of a tuple of a schema. -/
def read (schema : Schema) (bytes : Array UInt8) : Except Corruption Tuple :=
  if bytes.size < Layout.headerSize then
    .error .truncatedHeader
  else if LittleEndian.read? Layout.versionWidth bytes 0 ≠ some schema.version.toNat then
    .error .versionMismatch
  else do
    let key ← Chunk.read bytes Layout.headerSize .key schema.key
    let value ← Chunk.read bytes key.stop .value schema.value
    if value.stop ≠ bytes.size then
      .error .trailingBytes
    else
      .ok { bytes, key, value }

def chunk (tuple : Tuple) : ChunkRole → Chunk
  | .key => tuple.key
  | .value => tuple.value

/-- The schema version in the header. -/
def schemaVersion (tuple : Tuple) : Nat :=
  (LittleEndian.read? Layout.versionWidth tuple.bytes 0).getD 0

/-- The key hash in the header. -/
def keyHash (tuple : Tuple) : Nat :=
  (LittleEndian.read? Layout.keyHashWidth tuple.bytes Layout.versionWidth).getD 0

/-- Whether the header holds the checksum of the key chunk. -/
def hasKeyHash (tuple : Tuple) : Bool :=
  (Checksum.crc32 tuple.key.content.toList).toNat == tuple.keyHash

end Tuple

/-! ## Framing

How the bytes of a tuple divide into header and blocks, said of lists of bytes
and of two null-map sizes alone: neither positions nor columns occur.
-/

namespace Framing

/-- Bytes that state their own length, then a number of table entries, and are
long enough for those and a null map. -/
structure IsBlock (nullMapSize count : Nat) (block : List UInt8) : Prop where
  states_length : LittleEndian.decode (block.take Layout.fieldWidth) = block.length
  states_count :
    LittleEndian.decode ((block.drop Layout.fieldWidth).take Layout.fieldWidth) = count
  holds_header : Layout.chunkHeaderSize + Layout.tableSize count + nullMapSize ≤ block.length

/-- A header with a version and a hash of any value, then two blocks. -/
structure IsTuple (version keyMapSize valueMapSize : Nat) (bytes header key value : List UInt8)
    (keyCount valueCount : Nat) : Prop where
  split : bytes = header ++ key ++ value
  header_length : header.length = Layout.headerSize
  states_version : LittleEndian.decode (header.take Layout.versionWidth) = version
  key_block : IsBlock keyMapSize keyCount key
  value_block : IsBlock valueMapSize valueCount value

end Framing

end PackedTuple
