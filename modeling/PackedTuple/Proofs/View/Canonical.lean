import PackedTuple.Proofs.View.Rebuilding
import PackedTuple.Proofs.View.RoundTrip

/-! # What is built is canonical

A chunk that shows a closed draft has a table that is ordered, full and in its
place, and the fields of the draft are those of data that the columns take. So a
tuple finished without key hash is canonical, and building undoes reading exactly
on the canonical tuples.
-/

namespace PackedTuple

namespace Chunk

section Shows

variable {chunk : Chunk} {draft : Draft}

theorem Shows.varlenCount_eq (hshows : chunk.Shows draft) :
    chunk.varlenCount = chunk.varlensBefore chunk.columns.length := by
  have hfull : chunk.columns.length = draft.fields.length := by
    rw [hshows.columnCount, hshows.full]
  have hentries : draft.entriesBefore draft.fields.length = draft.starts.length := by
    rw [Draft.entriesBefore, List.take_length]
    exact (Field.length_starts ..).symm
  rw [hshows.varlensBefore (Nat.le_refl _), hfull, hentries, hshows.closed.entries_eq,
    hshows.varlenCount]

/-- The widths of the fixed-length columns end where the table begins to count. -/
theorem Shows.widthBefore_length (hshows : chunk.Shows draft) :
    chunk.dataOffset + chunk.widthBefore chunk.columns.length =
      chunk.base + (chunk.entryStart? 0).getD chunk.length := by
  have hfirst := chunk.columns.fixedCount_le_length
  have hentries : draft.entriesBefore chunk.columns.fixedCount = 0 := by
    rw [← hshows.varlensBefore hfirst, varlensBefore_of_le (Nat.le_refl _)]
  have hboundary := hshows.boundary (Nat.le_refl _)
  rw [hentries] at hboundary
  rw [widthBefore_of_ge hfirst (Nat.le_refl _), hshows.widthBefore (Nat.le_refl _), hboundary]

end Shows

/-- The bits of the null map behind the last column are clear. -/
theorem nullBit_ofDraft_padding {bytes : Array UInt8} {before after : List UInt8} {draft : Draft}
    {columns : Columns} {role : ChunkRole} {index : Nat}
    (hbytes : bytes.toList = before ++ draft.image ++ after) (hclosed : draft.IsClosed)
    (hindex : draft.columnCount ≤ index)
    (hinside : index < 8 * BitSet.byteCount draft.columnCount) :
    (ofDraft bytes columns role before.length draft).nullBit index = false := by
  rw [← Draft.length_nullMap] at hinside
  rw [nullBit_ofDraft hbytes hclosed hinside, Draft.nullMap, BitSet.contains_pack,
    decide_eq_false (Nat.not_lt.mpr hindex), Bool.false_and]

end Chunk

namespace Datum

variable {column : Column} {datum : Datum}

/-- What stands for a bit set has only declared bits. -/
theorem lt_of_contains_stored (htakes : column.Takes datum) (hnull : datum ≠ .null) {bits bit : Nat}
    (htype : column.type = .bitmask bits)
    (hmem : BitSet.contains (datum.stored column.type) bit = true) : bit < bits := by
  have hkind := htakes.kind_eq hnull
  rw [htype] at hkind
  cases datum with
  | bitmask mask =>
      rw [contains_stored htakes] at hmem
      exact (Column.takes_bitmask_iff htype).mp htakes bit hmem
  | null => contradiction
  | _ => simp [kind?, ColumnType.kind] at hkind

/-- What stands for a text is UTF-8. -/
theorem exists_utf8Bytes_stored (htakes : column.Takes datum) (hnull : datum ≠ .null)
    (htype : column.type = .string) : ∃ text, utf8Bytes text = datum.stored column.type := by
  have hkind := htakes.kind_eq hnull
  rw [htype] at hkind
  cases datum with
  | string text => exact ⟨text, rfl⟩
  | utf16 units =>
      obtain ⟨text, htext⟩ := htakes.exists_text
      exact ⟨text, by simp [stored, htext]⟩
  | null => contradiction
  | _ => simp [kind?, ColumnType.kind] at hkind

end Datum

/-- A column that has bytes is not null, and has the bytes that stand for its datum. -/
theorem Chunk.Returns.eq_stored {chunk : Chunk} {index offset : Nat} {column : Column}
    {datum : Datum} {content : Array UInt8} (hreturns : chunk.Returns index column datum offset)
    (hcontent : chunk.columnBytes? index = some content) :
    datum ≠ .null ∧ content.toList = datum.stored column.type := by
  have hnull : datum ≠ .null := by
    intro hnull
    rw [columnBytes?, hreturns.span_of_null hnull] at hcontent
    contradiction
  obtain ⟨other, hother, hstored⟩ := hreturns.content hnull
  obtain rfl := Option.some.inj (hcontent.symm.trans hother)
  exact ⟨hnull, hstored⟩

/-- The data of some cells in the form in which they are read back. -/
def Image.normals (cells : Cells) : List Datum :=
  cells.map fun cell => cell.2.normal cell.1.type

namespace Plan

variable {plan : Plan} {data : List Datum} {bytes : Array UInt8} {role : ChunkRole}

theorem exists_returns (hbytes : bytes.toList = plan.image data) (hadmits : plan.Admits data)
    (hlength : data.length = plan.schema.columnCount) {index : Nat} {column : Column}
    (hcolumn : (plan.schema.columns role).get? index = some column) :
    ∃ datum, (Image.cells plan.schema data role)[index]? = some (column, datum) ∧
      column.Takes datum ∧
        ∃ offset, (plan.opened data bytes role).Returns index column datum offset := by
  obtain ⟨datum, hdatum⟩ := exists_datum hlength (Columns.lt_length_of_get? hcolumn)
  have hcell := Image.getElem?_cells_eq_some.mpr ⟨hcolumn, hdatum⟩
  exact ⟨datum, hcell, hadmits.takes role _ (List.mem_of_getElem? hcell), _,
    returns_opened hbytes hadmits hlength hcolumn hdatum⟩

/-- The chunks of a finished tuple are canonical. -/
theorem isCanonical_opened (hbytes : bytes.toList = plan.image data) (hadmits : plan.Admits data)
    (hlength : data.length = plan.schema.columnCount) (role : ChunkRole) :
    (plan.opened data bytes role).IsCanonical := by
  have hshows := shows_opened hbytes hadmits hlength role
  refine ⟨?_, ?_, hshows.varlenCount_eq, hshows.widthBefore_length, ?_, ?_, ?_, ?_⟩
  · intro index hindex hinside
    obtain ⟨before, after, hsplit, hbase⟩ := plan.exists_split hbytes role
    rw [opened, ← hbase]
    exact Chunk.nullBit_ofDraft_padding hsplit hshows.closed hindex hinside
  · intro index column hcolumn hnull
    obtain ⟨datum, _, htakes, offset, hreturns⟩ :=
      exists_returns hbytes hadmits hlength hcolumn
    obtain rfl := hreturns.null_iff.mp hnull
    exact htakes
  · intro entry start next hstart hnext
    rw [hshows.entryStart?] at hstart hnext
    exact Draft.start_le_next hstart hnext
  · intro entry start hstart
    rw [hshows.entryStart?] at hstart
    rw [hshows.length]
    exact Draft.start_le_length (List.mem_of_getElem? hstart)
  · intro index column bits content hcolumn htype hcontent bit hbit
    obtain ⟨datum, _, htakes, offset, hreturns⟩ :=
      exists_returns hbytes hadmits hlength hcolumn
    obtain ⟨hnull, hstored⟩ := hreturns.eq_stored hcontent
    rw [hstored] at hbit
    exact Datum.lt_of_contains_stored htakes hnull htype hbit
  · intro index column content hcolumn htype hcontent
    obtain ⟨datum, _, htakes, offset, hreturns⟩ :=
      exists_returns hbytes hadmits hlength hcolumn
    obtain ⟨hnull, hstored⟩ := hreturns.eq_stored hcontent
    rw [hstored]
    exact Datum.exists_utf8Bytes_stored htakes hnull htype

/-- The data read from a chunk are those that it was built from. -/
theorem data?_opened (hbytes : bytes.toList = plan.image data) (hadmits : plan.Admits data)
    (hlength : data.length = plan.schema.columnCount) (role : ChunkRole) :
    (plan.opened data bytes role).data? =
      some (Image.normals (Image.cells plan.schema data role)) := by
  have hdatum : ∀ index < (plan.schema.columns role).length,
      (plan.opened data bytes role).datum? index =
        (Image.normals (Image.cells plan.schema data role))[index]? := by
    intro index hindex
    obtain ⟨column, hcolumn⟩ := Columns.get?_eq_some_of_lt hindex
    obtain ⟨datum, hcell, _, offset, hreturns⟩ := exists_returns hbytes hadmits hlength hcolumn
    rw [hreturns.reads, Image.normals, List.getElem?_map, hcell]
    rfl
  have hcount : (Image.normals (Image.cells plan.schema data role)).length =
      (plan.schema.columns role).length := by
    have hends := plan.schema.ends_le_columnCount role
    rw [Image.normals, List.length_map, Image.length_cells, Nat.min_eq_left]
    rw [Schema.ends, ← hlength] at hends
    omega
  obtain ⟨values, hvalues, hlengthValues, hget⟩ := Chunk.exists_mapM_range fun index hindex =>
    ⟨_, (hdatum index hindex).trans (List.getElem?_eq_getElem (hcount.symm ▸ hindex))⟩
  rw [Chunk.data?]
  refine hvalues.trans (congrArg some ?_)
  apply List.ext_getElem?
  intro index
  by_cases hindex : index < (plan.schema.columns role).length
  · rw [← hget index hindex, hdatum index hindex]
  · rw [List.getElem?_eq_none (by omega), List.getElem?_eq_none (by omega)]

/-- Without key hash the header holds zero in its place. -/
theorem keyHash_of_plain (hbytes : bytes.toList = plan.image data)
    (hplain : plan.options.hashKey = false) : (plan.tuple data bytes).keyHash = 0 := by
  rw [keyHash_tuple hbytes, hash, hplain]
  rfl

theorem isCanonical_tuple (hbytes : bytes.toList = plan.image data) (hadmits : plan.Admits data)
    (hlength : data.length = plan.schema.columnCount) (hplain : plan.options.hashKey = false) :
    (plan.tuple data bytes).IsCanonical :=
  ⟨keyHash_of_plain hbytes hplain, isCanonical_opened hbytes hadmits hlength .key,
    isCanonical_opened hbytes hadmits hlength .value⟩

theorem data?_tuple (hbytes : bytes.toList = plan.image data) (hadmits : plan.Admits data)
    (hlength : data.length = plan.schema.columnCount) :
    (plan.tuple data bytes).data? = some (Image.normals (Image.cells plan.schema data .key) ++
      Image.normals (Image.cells plan.schema data .value)) := by
  rw [Tuple.data?, tuple, data?_opened hbytes hadmits hlength,
    data?_opened hbytes hadmits hlength]
  rfl

end Plan

namespace Builder

/-- Building undoes reading exactly on the canonical tuples. -/
theorem built_exactly_canonical (schema : Schema) (bytes : Array UInt8) :
    (∀ tuple, Tuple.read schema bytes = .ok tuple → tuple.IsCanonical →
      ∃ data, tuple.data? = some data ∧
        ∀ sizeHint, build (tuple.plan schema sizeHint) data = .ok bytes) ∧
    (∀ plan data builder, plan.schema = schema → plan.options.hashKey = false →
      Reachable plan data builder → finish plan builder = .ok bytes →
        ∃ tuple, Tuple.read schema bytes = .ok tuple ∧ tuple.IsCanonical ∧
          tuple.data? = some (Image.normals (Image.cells schema data .key) ++
            Image.normals (Image.cells schema data .value))) := by
  constructor
  · intro tuple hread hcanonical
    have hlocated := Tuple.isLocated_of_read hread
    obtain ⟨keyData, hkeyRead, hkey⟩ := hcanonical.key.exists_data hlocated.key
    obtain ⟨valueData, hvalueRead, hvalue⟩ := hcanonical.value.exists_data hlocated.value
    refine ⟨keyData ++ valueData, ?_, hcanonical.build_eq hlocated hkey hvalue⟩
    rw [Tuple.data?, hkeyRead, hvalueRead]
    rfl
  · rintro plan data builder rfl hplain hreach hfinish
    obtain ⟨hadmits, hstands⟩ := hreach.stands
    obtain ⟨hlength, _, hbytes⟩ := (finish_eq_ok_iff hadmits hstands).mp hfinish
    have hclosed := ((Plan.admits_iff hlength).mp hadmits).2
    exact ⟨plan.tuple data bytes, Plan.read_tuple hbytes hclosed,
      Plan.isCanonical_tuple hbytes hadmits hlength hplain,
      Plan.data?_tuple hbytes hadmits hlength⟩

theorem customer_rebuilt :
    ∃ bytes tuple data,
      build { Customers.plan with options := .default } Customers.data = .ok bytes ∧
        Tuple.read Customers.schema bytes = .ok tuple ∧ tuple.IsCanonical ∧
          tuple.data? = some data ∧ build (tuple.plan Customers.schema 0) data = .ok bytes := by
  have hbuild := Customers.build_data .default
  obtain ⟨builder, hreach, hfinish⟩ := exists_reachable_of_buildIn hbuild
  obtain ⟨hrebuild, hbuilt⟩ := built_exactly_canonical Customers.schema _
  obtain ⟨tuple, hread, hcanonical, _⟩ := hbuilt _ _ builder rfl rfl hreach hfinish
  obtain ⟨data, hdata, hsame⟩ := hrebuild tuple hread hcanonical
  exact ⟨_, tuple, data, hbuild, hread, hcanonical, hdata, hsame 0⟩

end Builder

end PackedTuple
