import PackedTuple.Bytes.BitSet

/-! # Kinds of values and types of columns

A column type is a kind of value together with its parameters; only bit sets
have one, the number of bits declared. Strings and byte strings have variable
length, all other types a fixed width.
-/

namespace PackedTuple

/-- What a value is, without the parameters of its type. -/
inductive ValueKind where
  | byte
  | short
  | integer
  | long
  | float
  | double
  | uuid
  | string
  | bytes
  | bitmask
  deriving DecidableEq, Repr

namespace ValueKind

/-- The name that messages use. -/
def label : ValueKind → String
  | byte => "Byte"
  | short => "Short"
  | integer => "Integer"
  | long => "Long"
  | float => "Float"
  | double => "Double"
  | uuid => "Uuid"
  | string => "String"
  | bytes => "Bytes"
  | bitmask => "Bitmask"

/-- The number that stands for the kind in stored schemas. -/
def code : ValueKind → Nat
  | byte => 0
  | short => 1
  | integer => 2
  | long => 3
  | float => 4
  | double => 5
  | uuid => 6
  | string => 7
  | bytes => 8
  | bitmask => 9

/-- Whether all values of one column of this kind have the same width. -/
def isFixedLength : ValueKind → Bool
  | string | bytes => false
  | _ => true

end ValueKind

/-- The declared type of a column. -/
inductive ColumnType where
  | byte
  | short
  | integer
  | long
  | float
  | double
  | uuid
  | string
  | bytes
  | bitmask (bits : Nat)
  deriving DecidableEq, Repr

namespace ColumnType

/-- The type without its parameters. -/
def kind : ColumnType → ValueKind
  | byte => .byte
  | short => .short
  | integer => .integer
  | long => .long
  | float => .float
  | double => .double
  | uuid => .uuid
  | string => .string
  | bytes => .bytes
  | bitmask _ => .bitmask

/-- Width in bytes of a fixed-length type. -/
def width? : ColumnType → Option Nat
  | byte => some 1
  | short => some 2
  | integer => some 4
  | long => some 8
  | float => some 4
  | double => some 8
  | uuid => some 16
  | bitmask bits => some (BitSet.byteCount bits)
  | string | bytes => none

def isFixedLength (type : ColumnType) : Bool :=
  type.kind.isFixedLength

/-- The types with a width are the types of fixed length. -/
theorem isSome_width? (type : ColumnType) : type.width?.isSome = type.isFixedLength := by
  cases type <;> rfl

end ColumnType

end PackedTuple
