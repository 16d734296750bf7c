import PackedTuple.Buffer.Basic
import PackedTuple.Schema.ValueKind

/-! # Data and fields

A datum is what a caller appends for one column, a field what the tuple stores
for it. A fixed-length field is given in the pieces in which it is written.
-/

namespace PackedTuple

/-- What a caller appends for one column. Floating-point numbers are given by
their bits, text as a string or as UTF-16 code units, a bit set by its bytes. -/
inductive Datum where
  | null
  | byte (number : Int8)
  | short (number : Int16)
  | integer (number : Int32)
  | long (number : Int64)
  | float (bits : UInt32)
  | double (bits : UInt64)
  | uuid (number : BitVec 128)
  | string (text : String)
  | utf16 (units : List UInt16)
  | bytes (content : List UInt8)
  | bitmask (mask : List UInt8)
  deriving DecidableEq, Repr

/-- The kind of a datum, of which null has none. -/
def Datum.kind? : Datum → Option ValueKind
  | null => none
  | byte _ => some .byte
  | short _ => some .short
  | integer _ => some .integer
  | long _ => some .long
  | float _ => some .float
  | double _ => some .double
  | uuid _ => some .uuid
  | string _ => some .string
  | utf16 _ => some .string
  | bytes _ => some .bytes
  | bitmask _ => some .bitmask

/-- What a tuple stores for one column. -/
inductive Field where
  /-- A bit in the null map. -/
  | null
  /-- Bytes behind the null map, written piece by piece. -/
  | fixed (pieces : List (List UInt8))
  /-- Bytes behind the fixed-length fields, and an entry in the table. -/
  | varlen (payload : List UInt8)
  deriving DecidableEq, Repr

namespace Field

/-- The bytes stored, apart from a null bit or table entry. -/
def bytes : Field → List UInt8
  | null => []
  | fixed pieces => pieces.flatten
  | varlen payload => payload

/-- How many bytes are stored, apart from a null bit or table entry. -/
def size (field : Field) : Nat :=
  field.bytes.length

/-- Whether the field has an entry in the table. -/
def isVarlen : Field → Bool
  | varlen _ => true
  | _ => false

@[simp] theorem bytes_null : null.bytes = [] := rfl

@[simp] theorem bytes_fixed (pieces : List (List UInt8)) :
    (fixed pieces).bytes = pieces.flatten := rfl

@[simp] theorem bytes_varlen (payload : List UInt8) : (varlen payload).bytes = payload := rfl

@[simp] theorem size_null : null.size = 0 := rfl

/-- The field of a number. -/
def ofScalar (scalar : Scalar) : Field :=
  fixed [scalar.toBytes]

/-- The field of an identifier: its low half, then its high half. -/
def ofUuid (number : BitVec 128) : Field :=
  fixed [LittleEndian.encode 8 number.toNat, LittleEndian.encode 8 (number >>> 64).toNat]

/-- The field of a bit set in a column of `bits` bits: its bytes up to the last
one that is not zero, then zero bytes up to the width of the column. -/
def ofBitmask (bits : Nat) (mask : List UInt8) : Field :=
  let used := BitSet.byteCount (BitSet.bitLength mask)
  fixed (mask.take used :: List.replicate (BitSet.byteCount bits - used) [0])

end Field

end PackedTuple
