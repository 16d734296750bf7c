import PackedTuple.Schema.ValueKind

/-! # Ordered columns

The columns of one chunk are stored with those of fixed length in front, each
group in the order of its declaration. The order is part of the type, so the
fixed-length columns are always the first `fixedCount` ones.
-/

namespace PackedTuple

/-- One declared column. -/
structure Column where
  name : String
  type : ColumnType
  nullable : Bool
  deriving DecidableEq, Repr

def Column.isFixedLength (column : Column) : Bool :=
  column.type.isFixedLength

/-- The columns of one chunk in stored order. -/
structure Columns where
  toList : List Column
  fixed_first : toList.Pairwise fun earlier later =>
    later.isFixedLength = true → earlier.isFixedLength = true
  deriving DecidableEq, Repr

namespace Columns

/-- Put declared columns into stored order. -/
def ofList (declared : List Column) : Columns where
  toList := declared.filter (·.isFixedLength) ++ declared.filter (!·.isFixedLength)
  fixed_first := by
    refine List.pairwise_append.mpr ⟨?_, ?_, ?_⟩
    · exact List.pairwise_filter.mpr
        (List.pairwise_of_forall fun _ _ hearlier _ _ => hearlier)
    · exact List.pairwise_filter.mpr
        (List.pairwise_of_forall fun _ _ _ hlater hfixed => by simp [hfixed] at hlater)
    · exact fun _ hearlier _ _ _ => (List.mem_filter.mp hearlier).2

def length (columns : Columns) : Nat :=
  columns.toList.length

def isEmpty (columns : Columns) : Bool :=
  columns.toList.isEmpty

def get? (columns : Columns) (index : Nat) : Option Column :=
  columns.toList[index]?

/-- How many columns have a fixed length. -/
def fixedCount (columns : Columns) : Nat :=
  (columns.toList.takeWhile (·.isFixedLength)).length

/-- Bytes of the null map, one bit for each column. -/
def nullMapSize (columns : Columns) : Nat :=
  BitSet.byteCount columns.length

/-- Bytes of all fixed-length columns, none of them null. -/
def fixedWidth (columns : Columns) : Nat :=
  columns.toList.foldl (fun total column => total + column.type.width?.getD 0) 0

end Columns

end PackedTuple
