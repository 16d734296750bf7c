import PackedTuple.Build.Datum
import PackedTuple.Schema.Basic
import PackedTuple.Text.Utf16

/-! # Stored values

What one value looks like in a tuple, apart from where it lies: which data a
column takes, the bytes that stand for a datum, and the datum that bytes stand
for. Reading gives a normal form, in which text is a string and a bit set has
the width of its column.
-/

namespace PackedTuple

/-- A column takes null if it is declared to, and otherwise data of its own kind:
sets within its bits and text without unpaired surrogates. -/
def Column.Takes (column : Column) (datum : Datum) : Prop :=
  match datum with
  | .null => column.nullable = true
  | .bitmask mask =>
      ∃ bits, column.type = .bitmask bits ∧
        ∀ index, BitSet.contains mask index = true → index < bits
  | .utf16 units => column.type = .string ∧ ∀ index, ¬ Utf16.IsUnpaired units index
  | datum => datum.kind? = some column.type.kind

namespace Datum

/-- The bytes that stand for a datum in a column of a type that takes it. -/
def stored (type : ColumnType) : Datum → List UInt8
  | null => []
  | byte number => LittleEndian.encode 1 number.toUInt8.toNat
  | short number => LittleEndian.encode 2 number.toUInt16.toNat
  | integer number => LittleEndian.encode 4 number.toUInt32.toNat
  | long number => LittleEndian.encode 8 number.toUInt64.toNat
  | float bits => LittleEndian.encode 4 bits.toNat
  | double bits => LittleEndian.encode 8 bits.toNat
  | uuid number => LittleEndian.encode 16 number.toNat
  | string text => utf8Bytes text
  | utf16 units => ((Utf16.toString? units).map utf8Bytes).getD []
  | bytes content => content
  | bitmask mask => BitSet.resize mask (type.width?.getD 0)

/-- The datum in the form in which it is read back. -/
def normal (type : ColumnType) : Datum → Datum
  | utf16 units => ((Utf16.toString? units).map string).getD (utf16 units)
  | bitmask mask => bitmask (BitSet.resize mask (type.width?.getD 0))
  | datum => datum

end Datum

/-- The datum that bytes stand for in a column of a type. -/
def ColumnType.read? (type : ColumnType) (bytes : List UInt8) : Option Datum :=
  let number := LittleEndian.decode bytes
  let sized (datum : Datum) := if type.width? = some bytes.length then some datum else none
  match type with
  | .byte => sized (.byte (UInt8.ofNat number).toInt8)
  | .short => sized (.short (UInt16.ofNat number).toInt16)
  | .integer => sized (.integer (UInt32.ofNat number).toInt32)
  | .long => sized (.long (UInt64.ofNat number).toInt64)
  | .float => sized (.float (UInt32.ofNat number))
  | .double => sized (.double (UInt64.ofNat number))
  | .uuid => sized (.uuid (BitVec.ofNat 128 number))
  | .string => (String.fromUTF8? ⟨bytes.toArray⟩).map .string
  | .bytes => some (.bytes bytes)
  | .bitmask _ => sized (.bitmask bytes)

end PackedTuple
