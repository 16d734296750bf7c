import PackedTuple.Schema.Columns

/-! # Schemas

A schema describes the tuples of a table at one version: key columns, then value
columns. The columns of each role make up one chunk of a tuple.
-/

namespace PackedTuple

/-- What a chunk holds of its tuple. -/
inductive ChunkRole where
  | key
  | value
  deriving DecidableEq, Repr

namespace ChunkRole

/-- The name that messages use. -/
def label : ChunkRole → String
  | key => "Key"
  | value => "Value"

/-- Position of the chunk within its tuple. -/
def code : ChunkRole → Nat
  | key => 0
  | value => 1

end ChunkRole

/-- The columns of a table at one version. -/
structure Schema where
  version : UInt16
  key : Columns
  value : Columns
  deriving DecidableEq, Repr

namespace Schema

/-- The columns of one chunk. -/
def columns (schema : Schema) : ChunkRole → Columns
  | .key => schema.key
  | .value => schema.value

/-- The chunk that owns a column, counted from the first key column on. -/
def roleAt (schema : Schema) (index : Nat) : ChunkRole :=
  if index < schema.key.length then .key else .value

/-- The columns of the chunk that owns a column. -/
def columnsAt (schema : Schema) (index : Nat) : Columns :=
  schema.columns (schema.roleAt index)

def columnCount (schema : Schema) : Nat :=
  schema.key.length + schema.value.length

end Schema

end PackedTuple
