import PackedTuple.Proofs.Build.Outcome
import PackedTuple.Proofs.View.Layout

/-! # Building from what was read

The bytes of a canonical chunk are the image of the data read from it: the draft
of those data has the same positions, hence the same table and the same fields.
So building with the data of a canonical tuple gives its bytes back.
-/

namespace PackedTuple

namespace Chunk

/-- The draft that the data of all columns of a chunk give. -/
def draft (chunk : Chunk) (data : List Datum) : Draft where
  columnCount := chunk.columns.length
  slots := chunk.varlenCount
  fields := (chunk.columns.toList.zip data).map Image.field

/-- The columns of a chunk have these data. -/
structure HasData (chunk : Chunk) (data : List Datum) : Prop where
  length_eq : data.length = chunk.columns.length
  reads : ∀ {index column datum}, chunk.columns.get? index = some column →
    data[index]? = some datum → chunk.Reads index column datum

section HasData

variable {chunk : Chunk} {data : List Datum} {index : Nat}

theorem HasData.exists_field (hdata : chunk.HasData data) (hindex : index < chunk.columns.length) :
    ∃ column datum, chunk.columns.get? index = some column ∧ chunk.Reads index column datum ∧
      (chunk.draft data).fields[index]? = some (datum.field column.type) := by
  obtain ⟨column, hcolumn⟩ := Columns.get?_eq_some_of_lt hindex
  obtain ⟨datum, hdatum⟩ : ∃ datum, data[index]? = some datum :=
    ⟨_, List.getElem?_eq_getElem (hdata.length_eq.symm ▸ hindex)⟩
  have hcell : (chunk.columns.toList.zip data)[index]? = some (column, datum) :=
    List.getElem?_zip_eq_some.mpr ⟨hcolumn, hdatum⟩
  refine ⟨column, datum, hcolumn, hdata.reads hcolumn hdatum, ?_⟩
  exact List.getElem?_map.trans (congrArg _ hcell)

theorem dataStart_draft (chunk : Chunk) (data : List Datum) :
    chunk.base + (chunk.draft data).dataStart = chunk.dataOffset := by
  simp only [draft, Draft.dataStart, dataOffset, nullMapOffset, tableOffset, Columns.nullMapSize]
  omega

/-- The draft has its columns where the chunk has them. -/
theorem HasData.position_eq (hdata : chunk.HasData data) (hindex : index ≤ chunk.columns.length) :
    chunk.position index = chunk.base + (chunk.draft data).position index := by
  induction index with
  | zero => rw [position_zero, Draft.position_zero, dataStart_draft]
  | succ index ih =>
      obtain ⟨column, datum, hcolumn, hreads, hfield⟩ := hdata.exists_field hindex
      rw [hreads.size, ih (Nat.le_of_succ_le hindex), Draft.position_succ hfield,
        Datum.size_field hreads.takes, Nat.add_assoc]

theorem HasData.dataOffset_le (hdata : chunk.HasData data) (hindex : index ≤ chunk.columns.length) :
    chunk.dataOffset ≤ chunk.position index := by
  rw [hdata.position_eq hindex, ← dataStart_draft chunk data]
  exact Nat.add_le_add_left (Nat.le_add_right ..) _

theorem HasData.isNull_eq (hdata : chunk.HasData data) (hindex : index < chunk.columns.length) :
    (chunk.draft data).isNull index = chunk.nullBit index := by
  obtain ⟨column, datum, hcolumn, hreads, hfield⟩ := hdata.exists_field hindex
  rw [Draft.isNull, hfield, Bool.eq_iff_iff, beq_iff_eq, Option.some.injEq,
    Datum.field_eq_null_iff, hreads.null_iff]

/-- The bytes in front of a column are those of the fields in front of it. -/
theorem HasData.extract_fields (hdata : chunk.HasData data)
    (hindex : index ≤ chunk.columns.length) :
    (chunk.bytes.extract chunk.dataOffset (chunk.position index)).toList =
      ((chunk.draft data).fields.take index).flatMap Field.bytes := by
  induction index with
  | zero =>
      rw [position_zero, Array.toList_extract, List.extract_eq_take_drop, Nat.sub_self]
      rfl
  | succ index ih =>
      obtain ⟨column, datum, hcolumn, hreads, hfield⟩ := hdata.exists_field hindex
      have hle := Nat.le_of_succ_le hindex
      have hnext : chunk.position index ≤ chunk.position (index + 1) := by
        rw [hreads.size]
        exact Nat.le_add_right ..
      have hslot : (chunk.bytes.extract (chunk.position index)
          (chunk.position (index + 1))).toList = (datum.field column.type).bytes := by
        rw [Datum.bytes_field hreads.takes, hreads.stored]
        rfl
      rw [← toList_extract_append (hdata.dataOffset_le hle) hnext, ih hle, hslot,
        Draft.take_succ_fields hfield, List.flatMap_append, List.flatMap_singleton]

/-- The table of the draft is the table of the chunk. -/
theorem HasData.starts_take (hdata : chunk.HasData data) (hcanonical : chunk.IsCanonical)
    (hlocated : chunk.IsLocated) (hindex : index ≤ chunk.columns.length) :
    Field.starts (chunk.draft data).dataStart ((chunk.draft data).fields.take index) =
      (List.range (chunk.varlensBefore index)).filterMap chunk.entryStart? := by
  induction index with
  | zero =>
      rw [varlensBefore_of_le (Nat.zero_le _)]
      rfl
  | succ index ih =>
      obtain ⟨column, datum, hcolumn, hreads, hfield⟩ := hdata.exists_field hindex
      have hle := Nat.le_of_succ_le hindex
      -- Draft and chunk go on by an entry at the same columns.
      have hvarlen : (datum.field column.type).isVarlen =
          (!chunk.nullBit index && !column.isFixedLength) := by
        rw [Datum.isVarlen_field hreads.takes]
        congr 1
        rw [Bool.eq_iff_iff, bne_iff_ne, Bool.not_eq_true', ← Bool.not_eq_true, hreads.null_iff]
      rw [Draft.take_succ_fields hfield, Field.starts_append, ih hle,
        varlensBefore_succ_of_column hcolumn, ← hvarlen]
      cases hentry : (datum.field column.type).isVarlen with
      | false => simp [Field.starts, hentry]
      | true =>
          rw [hentry, eq_comm, Bool.and_eq_true, Bool.not_eq_true', Bool.not_eq_true'] at hvarlen
          obtain ⟨_, _, start, hstart, hposition⟩ := hcanonical.columnSpan?_varlen hlocated hcolumn
            hvarlen.1 (ColumnType.width?_eq_none_iff.mpr hvarlen.2)
          rw [hdata.position_eq hle] at hposition
          obtain rfl := Nat.add_left_cancel hposition
          rw [Bool.toNat_true, List.range_succ, List.filterMap_append]
          simp [Field.starts, hentry, hstart, Draft.position]

theorem HasData.length_fields (hdata : chunk.HasData data) :
    (chunk.draft data).fields.length = chunk.columns.length := by
  rw [draft, List.length_map, List.length_zip, hdata.length_eq]
  exact Nat.min_self _

theorem HasData.starts_eq (hdata : chunk.HasData data) (hcanonical : chunk.IsCanonical)
    (hlocated : chunk.IsLocated) :
    (chunk.draft data).starts = (List.range chunk.varlenCount).filterMap chunk.entryStart? := by
  have hstarts := hdata.starts_take hcanonical hlocated (Nat.le_refl _)
  rw [List.take_of_length_le (Nat.le_of_eq hdata.length_fields), ← hcanonical.count_exact]
    at hstarts
  exact hstarts

theorem HasData.length_draft (hdata : chunk.HasData data) (hcanonical : chunk.IsCanonical) :
    (chunk.draft data).length = chunk.length := by
  have hend := hdata.position_eq (Nat.le_refl _)
  rw [hcanonical.position_length, ← hdata.length_fields, Draft.position_length] at hend
  exact (Nat.add_left_cancel hend).symm

/-- The draft can be closed. -/
theorem HasData.isClosed (hdata : chunk.HasData data) (hcanonical : chunk.IsCanonical)
    (hlocated : chunk.IsLocated) : (chunk.draft data).IsClosed where
  entries_eq := by
    rw [hdata.starts_eq hcanonical hlocated]
    exact hlocated.length_entryStarts (Nat.le_refl _)
  length_le := by
    rw [hdata.length_draft hcanonical]
    exact Nat.le_of_lt_succ (LittleEndian.lt_of_read? hlocated.length_read)

theorem HasData.extract_nullMap (hdata : chunk.HasData data) (hcanonical : chunk.IsCanonical)
    (hlocated : chunk.IsLocated) :
    (chunk.bytes.extract chunk.nullMapOffset chunk.dataOffset).toList =
      (chunk.draft data).nullMap := by
  have hheader := hlocated.header_le
  have hstop := hlocated.stop_le
  have hmap : chunk.dataOffset = chunk.nullMapOffset + chunk.columns.nullMapSize := rfl
  have hlength : (chunk.bytes.extract chunk.nullMapOffset chunk.dataOffset).toList.length =
      chunk.columns.nullMapSize := by
    rw [Array.length_toList, Array.size_extract]
    omega
  apply BitSet.ext
  · rw [hlength, Draft.length_nullMap]
    rfl
  · intro index hindex
    rw [hlength] at hindex
    rw [hlocated.contains_nullMap hindex, Draft.nullMap, BitSet.contains_pack]
    change _ = (decide (index < chunk.columns.length) && _)
    -- Bits of columns were read, and those behind them are clear on both sides.
    by_cases hcolumn : index < chunk.columns.length
    · rw [decide_eq_true hcolumn, Bool.true_and, hdata.isNull_eq hcolumn]
    · rw [decide_eq_false hcolumn, Bool.false_and]
      exact hcanonical.padding_clear index (Nat.not_lt.mp hcolumn) hindex

/-- The bytes of a canonical chunk are the image of its data. -/
theorem HasData.image_eq (hdata : chunk.HasData data) (hcanonical : chunk.IsCanonical)
    (hlocated : chunk.IsLocated) : (chunk.draft data).image = chunk.content.toList := by
  have hclosed := hdata.isClosed hcanonical hlocated
  have htable := hlocated.extract_table (Nat.le_refl _)
  have hfields := hdata.extract_fields (Nat.le_refl _)
  rw [hcanonical.position_length, List.take_of_length_le (Nat.le_of_eq hdata.length_fields)]
    at hfields
  rw [← hdata.starts_eq hcanonical hlocated, ← Draft.table_of_full hclosed.entries_eq] at htable
  have hslots : (chunk.draft data).slots = chunk.varlenCount := rfl
  rw [Draft.image_eq_head_append, Draft.head, hdata.length_draft hcanonical, hslots, ← hfields,
    ← hdata.extract_nullMap hcanonical hlocated, ← htable, hlocated.content_eq]
  rfl

theorem HasData.takes (hdata : chunk.HasData data) :
    ∀ cell ∈ chunk.columns.toList.zip data, cell.1.Takes cell.2 := by
  rintro ⟨column, datum⟩ hcell
  obtain ⟨index, hindex⟩ := List.mem_iff_getElem?.mp hcell
  obtain ⟨hcolumn, hdatum⟩ := List.getElem?_zip_eq_some.mp hindex
  exact (hdata.reads hcolumn hdatum).takes

/-- If each index gives a value, so do all indices up to a number of them. -/
theorem exists_mapM_range {α : Type} {value? : Nat → Option α} {count : Nat}
    (hvalue : ∀ index < count, ∃ value, value? index = some value) :
    ∃ values, (List.range count).mapM value? = some values ∧ values.length = count ∧
      ∀ index < count, value? index = values[index]? := by
  induction count with
  | zero => exact ⟨[], rfl, rfl, nofun⟩
  | succ count ih =>
      obtain ⟨values, hvalues, hlength, hget⟩ :=
        ih fun index hindex => hvalue index (Nat.lt_succ_of_lt hindex)
      obtain ⟨last, hlast⟩ := hvalue count (Nat.lt_succ_self count)
      refine ⟨values ++ [last], ?_, by rw [List.length_append, hlength]; rfl, ?_⟩
      · simp [List.range_succ, hvalues, hlast]
      · intro index hindex
        rcases Nat.lt_succ_iff_lt_or_eq.mp hindex with hlt | rfl
        · rw [hget index hlt, List.getElem?_append_left (hlength ▸ hlt)]
        · rw [hlast, ← hlength, List.getElem?_concat_length]

/-- All columns of a canonical chunk can be read. -/
theorem IsCanonical.exists_data (hcanonical : chunk.IsCanonical) (hlocated : chunk.IsLocated) :
    ∃ data, chunk.data? = some data ∧ chunk.HasData data := by
  have hdatum : ∀ index < chunk.columns.length, ∃ datum, chunk.datum? index = some datum := by
    intro index hindex
    obtain ⟨column, hcolumn⟩ := Columns.get?_eq_some_of_lt hindex
    obtain ⟨datum, hdatum, _⟩ := hcanonical.exists_datum hlocated hcolumn
    exact ⟨datum, hdatum⟩
  obtain ⟨data, hdata, hlength, hget⟩ := exists_mapM_range hdatum
  refine ⟨data, hdata, hlength, ?_⟩
  intro index column datum hcolumn hsome
  obtain ⟨other, hother, hreads⟩ := hcanonical.exists_datum hlocated hcolumn
  rw [hget index (Columns.lt_length_of_get? hcolumn), hsome] at hother
  obtain rfl := Option.some.inj hother
  exact hreads

end HasData

end Chunk

/-! ## Building with the data of a canonical tuple -/

section Rebuild

variable {schema : Schema} {bytes : Array UInt8} {tuple : Tuple} {keyData valueData : List Datum}

/-- The plan of a tuple without options, with the counts that a tuple states. -/
def Tuple.plan (tuple : Tuple) (schema : Schema) (sizeHint : Nat) : Plan :=
  ⟨schema, sizeHint, tuple.key.varlenCount, tuple.value.varlenCount, .default⟩

theorem Tuple.IsLocated.cells_eq (hlocated : tuple.IsLocated schema bytes)
    (hkey : tuple.key.HasData keyData) (valueData : List Datum) :
    Image.cells schema (keyData ++ valueData) .key = tuple.key.columns.toList.zip keyData ∧
      Image.cells schema (keyData ++ valueData) .value =
        tuple.value.columns.toList.zip valueData := by
  have hkeyColumns : tuple.key.columns = schema.key := hlocated.columns .key
  have hvalueColumns : tuple.value.columns = schema.value := hlocated.columns .value
  have hlength : schema.key.length = keyData.length := by rw [hkey.length_eq, hkeyColumns]
  constructor
  · rw [hkeyColumns]
    exact zip_append_of_length_le (Nat.le_of_eq hlength) valueData
  · rw [hvalueColumns, Image.cells, hlength, List.drop_left]

theorem Tuple.IsLocated.draft_eq (hlocated : tuple.IsLocated schema bytes)
    (hkey : tuple.key.HasData keyData) (valueData : List Datum) (sizeHint : Nat) :
    (tuple.plan schema sizeHint).draft (keyData ++ valueData) .key = tuple.key.draft keyData ∧
      (tuple.plan schema sizeHint).draft (keyData ++ valueData) .value =
        tuple.value.draft valueData := by
  obtain ⟨hkeyCells, hvalueCells⟩ := hlocated.cells_eq hkey valueData
  have hkeyColumns : tuple.key.columns = schema.key := hlocated.columns .key
  have hvalueColumns : tuple.value.columns = schema.value := hlocated.columns .value
  constructor
  · rw [Chunk.draft, ← hkeyCells, hkeyColumns]
    rfl
  · rw [Chunk.draft, ← hvalueCells, hvalueColumns]
    rfl

/-- The header of a tuple without key hash. -/
theorem Tuple.IsLocated.extract_header (hlocated : tuple.IsLocated schema bytes)
    (hhash : tuple.keyHash = 0) (sizeHint : Nat) :
    (bytes.extract 0 Layout.headerSize).toList = (tuple.plan schema sizeHint).header 0 := by
  have hsize : Layout.versionWidth + Layout.keyHashWidth ≤ bytes.size := hlocated.size
  obtain ⟨hash, hread⟩ := Option.isSome_iff_exists.mp (LittleEndian.isSome_read?.mpr hsize)
  rw [Tuple.keyHash, hlocated.bytes_eq, hread, Option.getD_some] at hhash
  subst hhash
  have hversion := LittleEndian.encode_of_read? hlocated.version
  rw [Nat.zero_add] at hversion
  have hjoin := @toList_extract_append bytes 0 Layout.versionWidth Layout.headerSize
    (Nat.zero_le _) (Nat.le_add_right ..)
  rw [← hjoin, hversion]
  exact congrArg _ (LittleEndian.encode_of_read? hread)

/-- A tuple is its header and its two chunks. -/
theorem Tuple.IsLocated.toList_eq (hlocated : tuple.IsLocated schema bytes) :
    bytes.toList = (bytes.extract 0 Layout.headerSize).toList ++ tuple.key.content.toList ++
      tuple.value.content.toList := by
  have hkeyBytes : tuple.key.bytes = bytes := hlocated.chunk_bytes .key
  have hvalueBytes : tuple.value.bytes = bytes := hlocated.chunk_bytes .value
  have hkeyStop : Layout.headerSize ≤ tuple.key.stop := hlocated.key_base ▸ Nat.le_add_right ..
  have hvalueStop : tuple.key.stop ≤ bytes.size := hkeyBytes ▸ hlocated.key.stop_le
  rw [Chunk.content, Chunk.content, hkeyBytes, hvalueBytes, hlocated.key_base,
    hlocated.value_base, hlocated.value_stop, toList_extract_append (Nat.zero_le _) hkeyStop,
    toList_extract_append (Nat.zero_le _) hvalueStop, Array.extract_size]

/-- The data of a canonical tuple are admitted with the counts that it states. -/
theorem Tuple.IsCanonical.admits (hcanonical : tuple.IsCanonical)
    (hlocated : tuple.IsLocated schema bytes) (hkey : tuple.key.HasData keyData)
    (hvalue : tuple.value.HasData valueData) (sizeHint : Nat) :
    (keyData ++ valueData).length = schema.columnCount ∧
      (tuple.plan schema sizeHint).Admits (keyData ++ valueData) := by
  obtain ⟨hkeyCells, hvalueCells⟩ := hlocated.cells_eq hkey valueData
  obtain ⟨hkeyDraft, hvalueDraft⟩ := hlocated.draft_eq hkey valueData sizeHint
  have hlength : (keyData ++ valueData).length = schema.columnCount := by
    have hkeyColumns : tuple.key.columns = schema.key := hlocated.columns .key
    have hvalueColumns : tuple.value.columns = schema.value := hlocated.columns .value
    rw [List.length_append, hkey.length_eq, hvalue.length_eq, hkeyColumns, hvalueColumns]
    rfl
  refine ⟨hlength, (Plan.admits_iff hlength).mpr ⟨?_, ?_⟩⟩
  · intro role
    cases role with
    | key => exact hkeyCells ▸ hkey.takes
    | value => exact hvalueCells ▸ hvalue.takes
  · intro role
    cases role with
    | key =>
        rw [hkeyDraft]
        exact hkey.isClosed hcanonical.key hlocated.key
    | value =>
        rw [hvalueDraft]
        exact hvalue.isClosed hcanonical.value hlocated.value

/-- Building with the data of a canonical tuple gives its bytes. -/
theorem Tuple.IsCanonical.build_eq (hcanonical : tuple.IsCanonical)
    (hlocated : tuple.IsLocated schema bytes) (hkey : tuple.key.HasData keyData)
    (hvalue : tuple.value.HasData valueData) (sizeHint : Nat) :
    Builder.build (tuple.plan schema sizeHint) (keyData ++ valueData) = .ok bytes := by
  obtain ⟨hkeyDraft, hvalueDraft⟩ := hlocated.draft_eq hkey valueData sizeHint
  obtain ⟨hlength, hadmits⟩ := hcanonical.admits hlocated hkey hvalue sizeHint
  refine Builder.buildIn_eq_ok_iff.mpr ⟨rfl, hadmits, hlength, nofun, ?_⟩
  change bytes.toList = (tuple.plan schema sizeHint).header 0 ++
    ((tuple.plan schema sizeHint).draft (keyData ++ valueData) .key).image ++
    ((tuple.plan schema sizeHint).draft (keyData ++ valueData) .value).image
  rw [hkeyDraft, hvalueDraft, hkey.image_eq hcanonical.key hlocated.key,
    hvalue.image_eq hcanonical.value hlocated.value,
    ← hlocated.extract_header hcanonical.hash_zero sizeHint]
  exact hlocated.toList_eq

end Rebuild

end PackedTuple
