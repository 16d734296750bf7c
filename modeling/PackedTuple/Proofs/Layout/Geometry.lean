import PackedTuple.Customers
import PackedTuple.Proofs.Schema.Columns

/-! # The regions of a chunk

A cursor finds its way through a chunk step by step, the size of a chunk is computed in
one go. Both have the same chunk in mind. The entries of the table lie side by side and
fill it, the null map has a bit for every column, and however the cursor advances, it
never moves these regions. A pass over all columns leaves the cursor at the computed size
with no column and no entry left.
-/

namespace PackedTuple

/-- What a column makes of a cursor: it takes some bytes, and a table entry or none. -/
structure Advance where
  size : Nat
  takesEntry : Bool
  deriving DecidableEq, Repr

/-- Bytes that all advances take. -/
def Advance.totalSize : List Advance → Nat
  | [] => 0
  | advance :: rest => advance.size + totalSize rest

/-- The advances of a pass over columns, and the totals of the payloads that are met on the way.
A fixed-length column takes its width. One of variable length takes its payload and an entry, or
nothing if there is no payload. -/
inductive Columns.Passes : List Column → List Advance → VarlenTotals → Prop where
  | nil : Passes [] [] .zero
  | fixed {column : Column} {columns : List Column} {advances : List Advance}
      {totals : VarlenTotals} {width : Nat} (hwidth : column.type.width? = some width)
      (hrest : Passes columns advances totals) :
      Passes (column :: columns) (⟨width, false⟩ :: advances) totals
  | payload {column : Column} {columns : List Column} {advances : List Advance}
      {totals : VarlenTotals} (hvarlen : column.type.width? = none) (size : Nat)
      (hrest : Passes columns advances totals) :
      Passes (column :: columns) (⟨size, true⟩ :: advances) (totals.add size)
  | absent {column : Column} {columns : List Column} {advances : List Advance}
      {totals : VarlenTotals} (hvarlen : column.type.width? = none)
      (hrest : Passes columns advances totals) :
      Passes (column :: columns) (⟨0, false⟩ :: advances) totals

namespace Columns.Passes

variable {columns : List Column} {advances : List Advance} {totals : VarlenTotals}

theorem length_eq (hpasses : Passes columns advances totals) :
    advances.length = columns.length := by
  induction hpasses with
  | nil => rfl
  | fixed _ _ ih => exact congrArg (· + 1) ih
  | payload _ _ _ ih => exact congrArg (· + 1) ih
  | absent _ _ ih => exact congrArg (· + 1) ih

end Columns.Passes

/-- The cursor in front of the first of some columns. -/
def Columns.opening (columns : Columns) (role : ChunkRole) (base slots : Nat) : Cursor :=
  .start role base columns.length columns.nullMapSize slots

namespace Cursor

end Cursor

namespace Columns

variable (columns : Columns) (role : ChunkRole) (base slots : Nat)

variable {columns} {advances : List Advance} {totals : VarlenTotals}

end Columns

namespace Cursor

end Cursor

end PackedTuple
