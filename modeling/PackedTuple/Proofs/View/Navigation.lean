import PackedTuple.Proofs.Encoding.Fields
import PackedTuple.Proofs.Schema.Columns
import PackedTuple.View.Chunk

/-! # From column to column

How the totals that locate a column change from one column to the next, and how
ranges that follow one another fill a stretch of positions.
-/

namespace PackedTuple

/-- Ranges one behind the other, from a position to another. -/
def Span.Tile : Nat → Nat → List Span → Prop
  | start, stop, [] => start = stop
  | start, stop, span :: rest => span.start = start ∧ start ≤ span.stop ∧ Tile span.stop stop rest

namespace Span

theorem Tile.append {start middle stop : Nat} {left right : List Span}
    (hleft : Tile start middle left) (hright : Tile middle stop right) :
    Tile start stop (left ++ right) := by
  induction left generalizing start with
  | nil =>
      obtain rfl : start = middle := hleft
      exact hright
  | cons span rest ih =>
      obtain ⟨hstart, hstop, hrest⟩ := hleft
      exact ⟨hstart, hstop, ih hrest⟩

/-- Ranges between successive positions tile, those left out being empty. -/
theorem tile_filterMap {position : Nat → Nat} {span? : Nat → Option Span} {count : Nat}
    (hspan : ∀ index < count, (span? index = none ∧ position (index + 1) = position index) ∨
      (span? index = some ⟨position index, position (index + 1)⟩ ∧
        position index ≤ position (index + 1))) :
    Tile (position 0) (position count) ((List.range count).filterMap span?) := by
  induction count with
  | zero => exact Eq.refl _
  | succ count ih =>
      have hfront := ih fun index hindex => hspan index (Nat.lt_succ_of_lt hindex)
      rw [List.range_succ, List.filterMap_append]
      apply hfront.append
      rcases hspan count (Nat.lt_succ_self count) with ⟨hnone, hsame⟩ | ⟨hsome, hle⟩
      · simp only [List.filterMap_cons, hnone, List.filterMap_nil]
        exact hsame.symm
      · simp only [List.filterMap_cons, hsome, List.filterMap_nil]
        exact ⟨rfl, hle, rfl⟩

end Span

namespace Chunk

variable {chunk : Chunk} {index : Nat} {column : Column}

theorem widthBefore_succ (hcolumn : chunk.columns.get? index = some column) :
    chunk.widthBefore (index + 1) = chunk.widthBefore index +
      (if chunk.nullBit index then 0 else column.type.width?.getD 0) := by
  obtain ⟨hindex, hget⟩ := List.getElem?_eq_some_iff.mp hcolumn
  have htake : chunk.columns.toList.take (index + 1) =
      chunk.columns.toList.take index ++ [column] := by
    rw [← hget, List.take_append_getElem hindex]
  have hlength : (chunk.columns.toList.take index).length = index :=
    List.length_take_of_le (Nat.le_of_lt hindex)
  rw [widthBefore, widthBefore, htake, List.zipIdx_append, List.foldl_append, hlength]
  simp only [List.zipIdx_cons, List.zipIdx_nil, List.foldl_cons, List.foldl_nil, Nat.zero_add]

theorem widthBefore_mono {other : Nat} (hle : index ≤ other)
    (hother : other ≤ chunk.columns.length) :
    chunk.widthBefore index ≤ chunk.widthBefore other := by
  induction hle with
  | refl => exact Nat.le_refl _
  | step hle ih =>
      obtain ⟨column, hcolumn⟩ := Columns.get?_eq_some_of_lt hother
      rw [widthBefore_succ hcolumn]
      exact Nat.le_add_right_of_le (ih (Nat.le_of_succ_le hother))

/-- Columns that are not of fixed length have no width. -/
theorem widthBefore_of_ge (hindex : chunk.columns.fixedCount ≤ index)
    (hlength : index ≤ chunk.columns.length) :
    chunk.widthBefore index = chunk.widthBefore chunk.columns.fixedCount := by
  induction hindex with
  | refl => rfl
  | @step index hindex ih =>
      obtain ⟨column, hcolumn⟩ := Columns.get?_eq_some_of_lt hlength
      have hfixed : ¬column.isFixedLength = true :=
        mt (Columns.isFixedLength_iff hcolumn).mp (Nat.not_lt.mpr hindex)
      have hwidth : column.type.width? = none :=
        ColumnType.width?_eq_none_iff.mpr (Bool.not_eq_true _ ▸ hfixed)
      rw [widthBefore_succ hcolumn, ih (Nat.le_of_succ_le hlength), hwidth]
      split <;> rfl

theorem varlensBefore_of_le (hindex : index ≤ chunk.columns.fixedCount) :
    chunk.varlensBefore index = 0 := by
  rw [varlensBefore, Nat.sub_eq_zero_of_le hindex]
  rfl

theorem varlensBefore_succ (hindex : chunk.columns.fixedCount ≤ index) :
    chunk.varlensBefore (index + 1) =
      chunk.varlensBefore index + (!chunk.nullBit index).toNat := by
  have hrange : List.range' chunk.columns.fixedCount (index + 1 - chunk.columns.fixedCount) =
      List.range' chunk.columns.fixedCount (index - chunk.columns.fixedCount) ++ [index] := by
    rw [Nat.sub_add_comm hindex, List.range'_concat, Nat.one_mul, Nat.add_sub_cancel' hindex]
  rw [varlensBefore, varlensBefore, hrange, List.countP_append]
  cases hnull : chunk.nullBit index <;> simp [hnull]

/-- A column counts if it is of variable length and not null. -/
theorem varlensBefore_succ_of_column (hcolumn : chunk.columns.get? index = some column) :
    chunk.varlensBefore (index + 1) = chunk.varlensBefore index +
      (!chunk.nullBit index && !column.isFixedLength).toNat := by
  have hiff := Columns.isFixedLength_iff hcolumn
  by_cases hfixed : index < chunk.columns.fixedCount
  · rw [varlensBefore_of_le hfixed, varlensBefore_of_le (Nat.le_of_lt hfixed), hiff.mpr hfixed,
      Bool.not_true, Bool.and_false]
    rfl
  · have hvarlen : column.isFixedLength = false := Bool.not_eq_true _ ▸ mt hiff.mp hfixed
    rw [varlensBefore_succ (Nat.not_lt.mp hfixed), hvarlen, Bool.not_false, Bool.and_true]

theorem varlensBefore_mono {other : Nat} (hle : index ≤ other) :
    chunk.varlensBefore index ≤ chunk.varlensBefore other := by
  rw [varlensBefore, varlensBefore]
  exact (List.range'_sublist_right.mpr (Nat.sub_le_sub_right hle _)).countP_le

theorem columnSpan?_of_null (hnull : chunk.nullBit index = true) :
    chunk.columnSpan? index = none := by
  simp [columnSpan?, hnull]

theorem columnSpan?_of_width {width : Nat} (hcolumn : chunk.columns.get? index = some column)
    (hnull : chunk.nullBit index = false) (hwidth : column.type.width? = some width)
    (hinside : chunk.dataOffset + chunk.widthBefore index + width ≤ chunk.stop) :
    chunk.columnSpan? index = some ⟨chunk.dataOffset + chunk.widthBefore index,
      chunk.dataOffset + chunk.widthBefore index + width⟩ := by
  simp [columnSpan?, hcolumn, hnull, hwidth, hinside]

theorem columnSpan?_of_varlen (hcolumn : chunk.columns.get? index = some column)
    (hnull : chunk.nullBit index = false) (hvarlen : column.type.width? = none) :
    chunk.columnSpan? index = chunk.entrySpan? (chunk.varlensBefore index) := by
  simp [columnSpan?, hcolumn, hnull, hvarlen]

/-- A table entry and the boundary behind it enclose a value. -/
theorem entrySpan?_of_start {entry start : Nat} (hstart : chunk.entryStart? entry = some start)
    (horder : start ≤ (chunk.entryStart? (entry + 1)).getD chunk.length)
    (hinside : (chunk.entryStart? (entry + 1)).getD chunk.length ≤ chunk.length) :
    chunk.entrySpan? entry = some ⟨chunk.base + start,
      chunk.base + (chunk.entryStart? (entry + 1)).getD chunk.length⟩ := by
  cases hnext : chunk.entryStart? (entry + 1) with
  | none =>
      rw [hnext, Option.getD_none] at horder
      simp [entrySpan?, hstart, hnext, stop, horder]
  | some next =>
      rw [hnext, Option.getD_some] at horder hinside
      simp [entrySpan?, hstart, hnext, stop, horder, hinside]

end Chunk

end PackedTuple
