import PackedTuple.Build.Datum
import PackedTuple.Build.Error
import PackedTuple.Bytes.Checksum
import PackedTuple.Layout.Cursor
import PackedTuple.Text.Transcoder

/-! # Building a tuple

A plan fixes the schema of a tuple, how many variable-length values its chunks
will have, and the caller's options. A builder then takes one datum for each
column, key columns first. It writes values behind one another and patches what
it learns later into the bytes in front: table entries, null bits, the length of
a chunk when its last column is in, and the key hash when the key chunk closes.

Each append first accepts its datum, which checks everything that can be checked
without writing, and then places the resulting field. An error on acceptance
leaves the tuple as it was; an error on placement is fatal.
-/

namespace PackedTuple

/-- Choices that a caller makes once for a whole tuple. -/
structure Options where
  /-- Store the checksum of the key chunk in the header. -/
  hashKey : Bool
  /-- Refuse a finished tuple that is longer than its size hint. -/
  strictSize : Bool
  deriving DecidableEq, Repr

namespace Options

/-- No key hash, and the size hint is only a hint. -/
def default : Options :=
  ⟨false, false⟩

/-- Every choice made by either side. -/
def union (left right : Options) : Options :=
  ⟨left.hashKey || right.hashKey, left.strictSize || right.strictSize⟩

/-- The choices as bits: key hash in bit 0, strict size in bit 1. -/
def bits (options : Options) : Nat :=
  options.hashKey.toNat + 2 * options.strictSize.toNat

end Options

/-- What is settled before the first append. -/
structure Plan where
  schema : Schema
  /-- Expected size of the whole tuple. -/
  sizeHint : Nat
  /-- Variable-length values announced for the key chunk, nulls left out. -/
  keyVarlens : Nat
  /-- Variable-length values announced for the value chunk, nulls left out. -/
  valueVarlens : Nat
  options : Options
  deriving DecidableEq, Repr

/-- A tuple being built. -/
structure Builder where
  buffer : Buffer
  cursor : Cursor
  /-- Columns appended so far, in both chunks. -/
  appended : Nat
  /-- Whether both chunks are closed. -/
  complete : Bool
  transcoder : Transcoder
  deriving DecidableEq, Repr

/-- An operation on a tuple being built. -/
abbrev BuildM := EStateM BuildError Builder

namespace Builder

/-- Write bytes at a position of the tuple. -/
def write (offset : Nat) (data : List UInt8) : BuildM Unit :=
  modify fun builder => { builder with buffer := builder.buffer.put offset data }

/-- Write the count of the chunk that the cursor stands at the start of, and clear its null map. -/
def openChunk : BuildM Unit := do
  let cursor := (← get).cursor
  if Layout.fieldMax < cursor.slots then
    throw (.chunkTooLarge cursor.role cursor.nullMapStart)
  write cursor.base (LittleEndian.encode Layout.fieldWidth 0)
  write (cursor.base + Layout.fieldWidth) (LittleEndian.encode Layout.fieldWidth cursor.slots)
  modify fun builder =>
    { builder with
      buffer := builder.buffer.putZeros cursor.nullMapOffset (cursor.length - cursor.nullMapStart) }

/-- Check the count of the full chunk against its announcement and write its
length, and for a key chunk also the hash if there is to be one. -/
def closeChunk (plan : Plan) : BuildM Unit := do
  let cursor := (← get).cursor
  if cursor.entry ≠ cursor.slots then
    throw (.varlenCount cursor.role cursor.slots cursor.entry)
  if Layout.fieldMax < cursor.length then
    throw (.chunkTooLarge cursor.role cursor.length)
  write cursor.base (LittleEndian.encode Layout.fieldWidth cursor.length)
  if cursor.role = .key ∧ plan.options.hashKey = true then
    let chunk := (← get).buffer.bytes.extract cursor.base cursor.offset
    let hash := Checksum.crc32 chunk.toList
    write Layout.versionWidth (LittleEndian.encode Layout.keyHashWidth hash.toNat)

/-- If no column of the current chunk is left, close it and open the next one.
The first column behind the key chunk belongs to the value chunk; behind the
value chunk the tuple is complete. -/
def closeFullChunk (plan : Plan) : BuildM Unit := do
  let builder ← get
  if builder.complete = false ∧ builder.cursor.isFull = true then
    closeChunk plan
    let columns := plan.schema.columnsAt builder.appended
    match builder.cursor.next? columns.length columns.nullMapSize plan.valueVarlens with
    | some next =>
        modify fun builder => { builder with cursor := next }
        openChunk
    | none => modify fun builder => { builder with complete := true }

/-- Close all chunks without a column left: there are two, so at most two in a row. -/
def settle (plan : Plan) : BuildM Unit := do
  closeFullChunk plan
  closeFullChunk plan

/-- The column that the next datum is for. -/
def nextColumn (plan : Plan) : BuildM Column := do
  let builder ← get
  if builder.complete then
    throw .complete
  match (plan.schema.columns builder.cursor.role).get? builder.cursor.column with
  | some column => pure column
  | none => throw .complete

/-- Check that the next column is of a kind. -/
def checkKind (column : Column) (kind : ValueKind) : BuildM Unit :=
  if column.type.kind = kind then
    pure ()
  else
    throw (.typeMismatch column.name column.type.kind kind)

/-- Check that the table of the current chunk has an entry left. -/
def checkEntry : BuildM Unit := do
  let cursor := (← get).cursor
  if cursor.isTableFull then
    throw (.varlenCount cursor.role cursor.slots (cursor.entry + 1))

/-- The UTF-8 form of a text in UTF-16, through the transcoder of this tuple. -/
def transcode (column : Column) (units : List UInt16) : BuildM (List UInt8) := do
  let result ← modifyGet fun builder =>
    let (result, transcoder) := builder.transcoder.transcode units
    (result, { builder with transcoder })
  match result with
  | .ok payload => pure payload
  | .error failure => throw (.unpairedSurrogate column.name failure.position)

/-- The field of a bit set, if the column has a bit for every index in the set. -/
def bitmaskField (column : Column) (mask : List UInt8) : BuildM Field :=
  match column.type with
  | .bitmask bits =>
      let length := BitSet.bitLength mask
      if bits < length then
        throw (.bitmaskOverflow column.name length bits)
      else
        pure (Field.ofBitmask bits mask)
  | _ => throw (.typeMismatch column.name column.type.kind .bitmask)

/-- The field of a number, if the next column is of its kind. -/
def acceptScalar (plan : Plan) (kind : ValueKind) (scalar : Scalar) : BuildM Field := do
  checkKind (← nextColumn plan) kind
  pure (Field.ofScalar scalar)

/-- Check a datum against the next column and turn it into a field. Nothing is
written, though a text may pass through the transcoder. -/
def accept (plan : Plan) : Datum → BuildM Field
  | .null => do
      let column ← nextColumn plan
      if column.nullable then
        pure .null
      else
        throw (.nullNotAllowed column.name)
  | .byte number => acceptScalar plan .byte (.int8 number)
  | .short number => acceptScalar plan .short (.int16 number)
  | .integer number => acceptScalar plan .integer (.int32 number)
  | .long number => acceptScalar plan .long (.int64 number)
  | .float bits => acceptScalar plan .float (.float32 bits)
  | .double bits => acceptScalar plan .double (.float64 bits)
  | .uuid number => do
      checkKind (← nextColumn plan) .uuid
      pure (Field.ofUuid number)
  | .string text => do
      checkKind (← nextColumn plan) .string
      checkEntry
      pure (.varlen (utf8Bytes text))
  | .utf16 units => do
      let column ← nextColumn plan
      checkKind column .string
      checkEntry
      return .varlen (← transcode column units)
  | .bytes content => do
      checkKind (← nextColumn plan) .bytes
      checkEntry
      pure (.varlen content)
  | .bitmask mask => do
      let column ← nextColumn plan
      checkKind column .bitmask
      bitmaskField column mask

/-- Set the null bit of a column of the current chunk. -/
def setNull (builder : Builder) (column : Nat) : Builder :=
  let offset := builder.cursor.nullMapOffset + column / 8
  let byte := builder.buffer.byteAt offset ||| BitSet.singleByte column
  { builder with buffer := builder.buffer.put offset [byte] }

/-- Write the start of the next variable-length value, counted from the start of its chunk. -/
def writeEntry : BuildM Unit := do
  let cursor := (← get).cursor
  if Layout.fieldMax < cursor.length then
    throw (.chunkTooLarge cursor.role cursor.length)
  write (cursor.entryOffset cursor.entry) (LittleEndian.encode Layout.fieldWidth cursor.length)

/-- Write what a field stores. -/
def writeField : Field → BuildM Unit
  | .null => modify fun builder => builder.setNull builder.cursor.column
  | .fixed pieces =>
      modify fun builder =>
        { builder with buffer := builder.buffer.putPieces builder.cursor.offset pieces }
  | .varlen payload => do
      write (← get).cursor.offset payload
      writeEntry

/-- Write a field, move on to the next column, and close what is full. -/
def place (plan : Plan) (field : Field) : BuildM Unit := do
  writeField field
  modify fun builder =>
    { builder with
      cursor := builder.cursor.advance field.size field.isVarlen
      appended := builder.appended + 1 }
  settle plan

/-- Append the datum of the next column. -/
def append (plan : Plan) (datum : Datum) : BuildM Unit := do
  place plan (← accept plan datum)

/-- Write the header, with the key hash still zero, and open the key chunk. -/
def begin (plan : Plan) : BuildM Unit := do
  write 0 (LittleEndian.encode Layout.versionWidth plan.schema.version.toNat)
  write Layout.versionWidth (LittleEndian.encode Layout.keyHashWidth 0)
  openChunk
  settle plan

/-- A builder that has written nothing yet. -/
def fresh (plan : Plan) (buffer : Buffer) : Builder where
  buffer := buffer
  cursor :=
    .start .key Layout.headerSize plan.schema.key.length plan.schema.key.nullMapSize plan.keyVarlens
  appended := 0
  complete := false
  transcoder := .empty

/-- Start a tuple in a buffer that nothing was written to. -/
def startIn (plan : Plan) (buffer : Buffer) : Except BuildError Builder :=
  if buffer.written ≠ 0 then
    .error (.bufferNotEmpty buffer.written)
  else
    match (begin plan).run (fresh plan buffer) with
    | .ok _ builder => .ok builder
    | .error error _ => .error error

/-- Start a tuple in a buffer of the size hinted at. -/
def start (plan : Plan) : Except BuildError Builder :=
  startIn plan (.withCapacity plan.sizeHint)

/-- The bytes of the finished tuple. -/
def finish (plan : Plan) (builder : Builder) : Except BuildError (Array UInt8) :=
  if builder.complete = false then
    .error (.incomplete builder.appended plan.schema.columnCount)
  else if plan.sizeHint < builder.buffer.written ∧ plan.options.strictSize = true then
    .error (.sizeExceeded builder.buffer.written plan.sizeHint)
  else
    .ok builder.buffer.bytes

end Builder

end PackedTuple
