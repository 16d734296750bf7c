import PackedTuple.Proofs.Encoding.Draft
import PackedTuple.Proofs.Encoding.Fields
import PackedTuple.Proofs.View.Navigation

/-! # Reading a draft

A chunk shows a draft if its null bits and table entries are those of the draft.
Columns are then found where the draft put them: sums of widths over the null
map, and table entries counted over it, give the position that the write cursor
had in front of the column.
-/

namespace PackedTuple.Chunk

/-- The null map and the table of a chunk are those of a closed draft. -/
structure Shows (chunk : Chunk) (draft : Draft) : Prop where
  columnCount : chunk.columns.length = draft.columnCount
  full : draft.fields.length = draft.columnCount
  fits : ∀ {index column field}, chunk.columns.get? index = some column →
    draft.fields[index]? = some field → field.Fits column.type
  varlenCount : chunk.varlenCount = draft.slots
  length : chunk.length = draft.length
  closed : draft.IsClosed
  nullBit : ∀ index < draft.columnCount, chunk.nullBit index = draft.isNull index
  entryStart? : ∀ entry, chunk.entryStart? entry = draft.starts[entry]?

section Shows

variable {chunk : Chunk} {draft : Draft} {index : Nat} {column : Column} {field : Field}

theorem Shows.dataOffset (hshows : chunk.Shows draft) :
    chunk.dataOffset = chunk.base + draft.dataStart := by
  rw [Chunk.dataOffset, nullMapOffset, tableOffset, hshows.varlenCount, Columns.nullMapSize,
    hshows.columnCount, Draft.dataStart]
  omega

theorem Shows.exists_field (hshows : chunk.Shows draft)
    (hcolumn : chunk.columns.get? index = some column) :
    ∃ field, draft.fields[index]? = some field ∧ field.Fits column.type := by
  have hindex := Columns.lt_length_of_get? hcolumn
  rw [hshows.columnCount, ← hshows.full] at hindex
  have hfield := List.getElem?_eq_getElem hindex
  exact ⟨_, hfield, hshows.fits hcolumn hfield⟩

theorem Shows.exists_column (hshows : chunk.Shows draft)
    (hfield : draft.fields[index]? = some field) :
    ∃ column, chunk.columns.get? index = some column ∧ field.Fits column.type := by
  have hindex := (List.getElem?_eq_some_iff.mp hfield).1
  rw [hshows.full, ← hshows.columnCount] at hindex
  obtain ⟨column, hcolumn⟩ := Columns.get?_eq_some_of_lt hindex
  exact ⟨column, hcolumn, hshows.fits hcolumn hfield⟩

theorem Shows.nullBit_of_field (hshows : chunk.Shows draft)
    (hfield : draft.fields[index]? = some field) :
    chunk.nullBit index = decide (field = .null) := by
  have hindex := (List.getElem?_eq_some_iff.mp hfield).1
  rw [hshows.nullBit index (hshows.full ▸ hindex), Draft.isNull, hfield]
  by_cases hnull : field = .null <;> simp [hnull]

/-- The fields with a table entry are those of the columns from `fixedCount` on. -/
theorem Shows.isVarlen_eq (hshows : chunk.Shows draft)
    (hfield : draft.fields[index]? = some field) (hnull : field ≠ .null) :
    field.isVarlen = decide (chunk.columns.fixedCount ≤ index) := by
  obtain ⟨column, hcolumn, hfits⟩ := hshows.exists_column hfield
  have hfixed := Columns.isFixedLength_iff hcolumn
  rw [hfits.isVarlen_eq hnull, Bool.eq_iff_iff, Bool.not_eq_true', decide_eq_true_iff,
    ← Nat.not_lt, ← hfixed, Bool.not_eq_true]
  rfl

theorem Shows.width_of_fixed (hshows : chunk.Shows draft)
    (hcolumn : chunk.columns.get? index = some column)
    (hfield : draft.fields[index]? = some field) (hnull : field ≠ .null)
    (hindex : index < chunk.columns.fixedCount) : column.type.width? = some field.size := by
  have hvarlen := hshows.isVarlen_eq hfield hnull
  rw [decide_eq_false (Nat.not_le.mpr hindex)] at hvarlen
  have hfits := hshows.fits hcolumn hfield
  cases field with
  | null => contradiction
  | fixed pieces => exact hfits
  | varlen payload => contradiction

/-- In front of the first variable-length column, widths add up to the position. -/
theorem Shows.widthBefore (hshows : chunk.Shows draft) (hindex : index ≤ chunk.columns.fixedCount) :
    chunk.dataOffset + chunk.widthBefore index = chunk.base + draft.position index := by
  induction index with
  | zero => exact hshows.dataOffset
  | succ index ih =>
      have hlt : index < chunk.columns.length :=
        Nat.lt_of_lt_of_le hindex chunk.columns.fixedCount_le_length
      obtain ⟨column, hcolumn⟩ := Columns.get?_eq_some_of_lt hlt
      obtain ⟨field, hfield, hfits⟩ := hshows.exists_field hcolumn
      rw [widthBefore_succ hcolumn, Draft.position_succ hfield, hshows.nullBit_of_field hfield,
        ← Nat.add_assoc, ih (Nat.le_of_succ_le hindex), Nat.add_assoc]
      by_cases hnull : field = .null
      · subst hnull
        rfl
      · rw [decide_eq_false hnull, hshows.width_of_fixed hcolumn hfield hnull hindex]
        rfl

/-- Counting null bits gives the number of table entries in use. -/
theorem Shows.varlensBefore (hshows : chunk.Shows draft) (hindex : index ≤ chunk.columns.length) :
    chunk.varlensBefore index = draft.entriesBefore index := by
  induction index with
  | zero => exact varlensBefore_of_le (Nat.zero_le _)
  | succ index ih =>
      obtain ⟨column, hcolumn⟩ := Columns.get?_eq_some_of_lt hindex
      obtain ⟨field, hfield, hfits⟩ := hshows.exists_field hcolumn
      rw [varlensBefore_succ_of_column hcolumn, Draft.entriesBefore_succ hfield,
        ih (Nat.le_of_succ_le hindex), hshows.nullBit_of_field hfield]
      by_cases hnull : field = .null
      · subst hnull
        rfl
      · rw [decide_eq_false hnull, hfits.isVarlen_eq hnull]
        rfl

/-- Behind the fixed-length columns the next entry, or the end of the chunk, is
where the columns go on. -/
theorem Shows.boundary (hshows : chunk.Shows draft) (hindex : chunk.columns.fixedCount ≤ index) :
    (chunk.entryStart? (draft.entriesBefore index)).getD chunk.length = draft.position index := by
  rw [hshows.entryStart?, hshows.length]
  apply Draft.boundary_of_varlens
  intro field hmem
  obtain ⟨place, hplace⟩ := List.mem_iff_getElem?.mp hmem
  rw [List.getElem?_drop] at hplace
  by_cases hnull : field = .null
  · exact .inr hnull
  · rw [hshows.isVarlen_eq hplace hnull]
    exact .inl (decide_eq_true (Nat.le_add_right_of_le hindex))

/-- A column is found where the draft put it. -/
theorem Shows.columnSpan? (hshows : chunk.Shows draft)
    (hfield : draft.fields[index]? = some field) (hnull : field ≠ .null) :
    chunk.columnSpan? index = some ⟨chunk.base + draft.position index,
      chunk.base + draft.position (index + 1)⟩ := by
  obtain ⟨column, hcolumn, hfits⟩ := hshows.exists_column hfield
  have hbit : chunk.nullBit index = false := by
    rw [hshows.nullBit_of_field hfield, decide_eq_false hnull]
  have hend := draft.position_le_length (index + 1)
  -- Widths lead to a fixed-length column, a table entry to any other.
  by_cases hfixed : index < chunk.columns.fixedCount
  · have hwidth := hshows.width_of_fixed hcolumn hfield hnull hfixed
    have hstart := hshows.widthBefore (Nat.le_of_lt hfixed)
    rw [Draft.position_succ hfield] at hend ⊢
    rw [← Nat.add_assoc, ← hstart]
    apply columnSpan?_of_width hcolumn hbit hwidth
    rw [hstart, stop, hshows.length]
    omega
  · have hbehind := Nat.not_lt.mp hfixed
    have hvarlen := hshows.isVarlen_eq hfield hnull
    rw [decide_eq_true hbehind] at hvarlen
    have hwidth : column.type.width? = none := by
      cases field with
      | null => contradiction
      | fixed pieces => contradiction
      | varlen payload => exact hfits
    have hstart : chunk.entryStart? (draft.entriesBefore index) = some (draft.position index) := by
      rw [hshows.entryStart?, Draft.start_of_varlen hfield hvarlen]
    have hsucc : chunk.columns.fixedCount ≤ index + 1 := Nat.le_add_right_of_le hbehind
    have hnext := hshows.boundary hsucc
    rw [Draft.entriesBefore_succ hfield, hvarlen] at hnext
    have horder := Draft.position_succ hfield
    rw [columnSpan?_of_varlen hcolumn hbit hwidth,
      hshows.varlensBefore (Nat.le_of_lt (Columns.lt_length_of_get? hcolumn)), ← hnext]
    apply entrySpan?_of_start hstart
    · exact hnext ▸ (by omega)
    · exact hnext ▸ hshows.length ▸ hend

/-- The columns that are not null fill the chunk from the end of its null map on. -/
theorem Shows.tile (hshows : chunk.Shows draft) :
    Span.Tile chunk.dataOffset chunk.stop
      ((List.range chunk.columns.length).filterMap chunk.columnSpan?) := by
  have hstart : chunk.dataOffset = chunk.base + draft.position 0 := hshows.dataOffset
  have hstop : chunk.stop = chunk.base + draft.position chunk.columns.length := by
    rw [stop, hshows.length, hshows.columnCount, ← hshows.full, Draft.position_length]
  rw [hstart, hstop]
  apply @Span.tile_filterMap fun index => chunk.base + draft.position index
  intro index hindex
  obtain ⟨column, hcolumn⟩ := Columns.get?_eq_some_of_lt hindex
  obtain ⟨field, hfield, _⟩ := hshows.exists_field hcolumn
  have hnext := Draft.position_succ hfield
  by_cases hnull : field = .null
  · left
    have hbit : chunk.nullBit index = true := by
      rw [hshows.nullBit_of_field hfield, decide_eq_true hnull]
    refine ⟨columnSpan?_of_null hbit, ?_⟩
    rw [hnext, hnull]
    rfl
  · right
    refine ⟨hshows.columnSpan? hfield hnull, ?_⟩
    omega

/-- Every table entry locates a value. -/
theorem Shows.isSome_entrySpan? (hshows : chunk.Shows draft) {entry : Nat}
    (hentry : entry < chunk.varlenCount) : (chunk.entrySpan? entry).isSome = true := by
  have hcount : entry < draft.starts.length := by
    rw [hshows.closed.entries_eq, ← hshows.varlenCount]
    exact hentry
  have hstart := List.getElem?_eq_getElem hcount
  obtain ⟨horder, hinside⟩ := Draft.le_next_start hstart
  rw [← hshows.entryStart?] at hstart
  rw [← hshows.entryStart?, ← hshows.length] at horder hinside
  rw [entrySpan?_of_start hstart horder hinside]
  rfl

end Shows

end PackedTuple.Chunk
