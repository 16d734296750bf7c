import PackedTuple.Proofs.Build.Outcome
import PackedTuple.Proofs.View.Opening
import PackedTuple.View.Canonical

/-! # Reading back what was built

A finished tuple can be opened under its schema. Each column lies where the
cursor of the builder stood when its datum was appended, and reads as the datum.
-/

namespace PackedTuple

/-- What a chunk says of a column that lies at `offset` and holds a datum. -/
structure Chunk.Returns (chunk : Chunk) (index : Nat) (column : Column) (datum : Datum)
    (offset : Nat) : Prop where
  null_iff : chunk.isNull index = true ↔ datum = .null
  span_of_null : datum = .null → chunk.columnSpan? index = none
  span : datum ≠ .null →
    chunk.columnSpan? index = some ⟨offset, offset + (datum.stored column.type).length⟩
  content : datum ≠ .null → ∃ content, chunk.columnBytes? index = some content ∧
    content.toList = datum.stored column.type
  reads : chunk.datum? index = some (datum.normal column.type)
  keeps_bits : ∀ mask, datum = .bitmask mask →
    ∀ bit, BitSet.contains (datum.stored column.type) bit = BitSet.contains mask bit

namespace Plan

variable {plan : Plan} {data : List Datum} {bytes : Array UInt8} {role : ChunkRole}

/-- One chunk of the finished tuple, opened. -/
def opened (plan : Plan) (data : List Datum) (bytes : Array UInt8) (role : ChunkRole) : Chunk :=
  .ofDraft bytes (plan.schema.columns role) role (plan.front data role).length
    (plan.draft data role)

/-- The finished tuple, opened. -/
def tuple (plan : Plan) (data : List Datum) (bytes : Array UInt8) : Tuple :=
  ⟨bytes, plan.opened data bytes .key, plan.opened data bytes .value⟩

theorem chunk_tuple (plan : Plan) (data : List Datum) (bytes : Array UInt8) (role : ChunkRole) :
    (plan.tuple data bytes).chunk role = plan.opened data bytes role := by
  cases role <;> rfl

/-- Where the image of a chunk stands in the bytes of the tuple. -/
theorem exists_split (hbytes : bytes.toList = plan.image data) (role : ChunkRole) :
    ∃ before after, bytes.toList = before ++ (plan.draft data role).image ++ after ∧
      before.length = (plan.front data role).length := by
  cases role with
  | key =>
      refine ⟨plan.header (plan.hash (plan.draft data .key).image),
        (plan.draft data .value).image, hbytes, ?_⟩
      rw [front, length_header, length_header]
  | value =>
      refine ⟨plan.front data .value, [], ?_, rfl⟩
      rw [hbytes, List.append_nil]
      rfl

theorem read_opened (hbytes : bytes.toList = plan.image data)
    (hclosed : (plan.draft data role).IsClosed) :
    Chunk.read bytes (plan.front data role).length role (plan.schema.columns role) =
      .ok (plan.opened data bytes role) := by
  obtain ⟨before, after, hsplit, hlength⟩ := plan.exists_split hbytes role
  rw [opened, ← hlength]
  exact Chunk.read_eq_ofDraft hsplit hclosed rfl

theorem stop_opened_key (bytes : Array UInt8) (hclosed : (plan.draft data .key).IsClosed) :
    (plan.opened data bytes .key).stop = (plan.front data .value).length := by
  rw [length_front_value hclosed.isOpen.entries_le]
  exact congrArg (· + _) (plan.length_header 0)

/-- The key hash stands between the version and the key chunk. -/
theorem image_eq_header_append (plan : Plan) (data : List Datum) :
    plan.image data = LittleEndian.encode Layout.versionWidth plan.schema.version.toNat ++
      LittleEndian.encode Layout.keyHashWidth (plan.hash (plan.draft data .key).image) ++
      ((plan.draft data .key).image ++ (plan.draft data .value).image) := by
  rw [image, front, header]
  simp only [List.append_assoc]

theorem read_version (hbytes : bytes.toList = plan.image data) :
    LittleEndian.read? Layout.versionWidth bytes 0 = some plan.schema.version.toNat := by
  have hsplit := hbytes.trans (plan.image_eq_header_append data)
  rw [List.append_assoc, ← List.nil_append (LittleEndian.encode Layout.versionWidth _)] at hsplit
  exact LittleEndian.read?_of_toList_eq hsplit rfl plan.schema.version.toNat_lt

theorem hash_lt (plan : Plan) (chunk : List UInt8) :
    plan.hash chunk < LittleEndian.limit Layout.keyHashWidth := by
  unfold hash
  split
  · exact (Checksum.crc32 chunk).toNat_lt
  · exact Nat.zero_lt_succ _

theorem keyHash_tuple (hbytes : bytes.toList = plan.image data) :
    (plan.tuple data bytes).keyHash = plan.hash (plan.draft data .key).image := by
  have hread := LittleEndian.read?_of_toList_eq (hbytes.trans (plan.image_eq_header_append data))
    (LittleEndian.length_encode ..) (plan.hash_lt _)
  rw [Tuple.keyHash]
  exact congrArg (Option.getD · 0) hread

theorem size_eq_stop (hbytes : bytes.toList = plan.image data)
    (hclosed : (plan.draft data .value).IsClosed) :
    (plan.opened data bytes .value).stop = bytes.size := by
  rw [← Array.length_toList, hbytes, image, List.length_append, Draft.image,
    Draft.length_bytes hclosed.isOpen.entries_le]
  rfl

/-- The bytes of a finished tuple can be opened. -/
theorem read_tuple (hbytes : bytes.toList = plan.image data)
    (hclosed : ∀ role, (plan.draft data role).IsClosed) :
    Tuple.read plan.schema bytes = .ok (plan.tuple data bytes) := by
  have hkey := plan.read_opened hbytes (hclosed .key)
  have hvalue := plan.read_opened hbytes (hclosed .value)
  rw [← stop_opened_key bytes (hclosed .key)] at hvalue
  have hbase : (plan.front data .key).length = Layout.headerSize := plan.length_header 0
  rw [hbase] at hkey
  have hstop := size_eq_stop hbytes (hclosed .value)
  have hsize : ¬bytes.size < Layout.headerSize := by
    rw [← Array.length_toList, hbytes, image, front, List.length_append, List.length_append,
      length_header]
    omega
  have hversion : ¬LittleEndian.read? Layout.versionWidth bytes 0 ≠
      some plan.schema.version.toNat := not_not_intro (read_version hbytes)
  change Chunk.read bytes Layout.headerSize .key plan.schema.key = _ at hkey
  change Chunk.read bytes _ .value plan.schema.value = _ at hvalue
  rw [Tuple.read, if_neg hsize, if_neg hversion, hkey]
  simp only [bind, Except.bind, hvalue, hstop, ne_eq, not_true_eq_false, if_false]
  rfl

/-- The opened chunks show the drafts of their data. -/
theorem shows_opened (hbytes : bytes.toList = plan.image data) (hadmits : plan.Admits data)
    (hlength : data.length = plan.schema.columnCount) (role : ChunkRole) :
    (plan.opened data bytes role).Shows (plan.draft data role) := by
  obtain ⟨before, after, hsplit, hbase⟩ := plan.exists_split hbytes role
  obtain ⟨htakes, hclosed⟩ := (admits_iff hlength).mp hadmits
  rw [opened, ← hbase]
  apply Chunk.shows_ofDraft hsplit (hclosed role) rfl
  · rw [length_fields_draft, Nat.min_eq_left]
    · rfl
    · have hends := plan.schema.ends_le_columnCount role
      rw [Schema.ends, ← hlength] at hends
      omega
  · intro index column field hcolumn hfield
    obtain ⟨⟨other, datum⟩, hcell, rfl⟩ := getElem?_fields_eq_some.mp hfield
    obtain ⟨hother, _⟩ := Image.getElem?_cells_eq_some.mp hcell
    obtain rfl := Option.some.inj (hcolumn.symm.trans hother)
    exact Datum.fits_field (htakes role _ (List.mem_of_getElem? hcell))

theorem exists_datum (hlength : data.length = plan.schema.columnCount) {index : Nat}
    (hindex : index < (plan.schema.columns role).length) :
    ∃ datum, data[plan.schema.begins role + index]? = some datum := by
  have hends := plan.schema.ends_le_columnCount role
  have hplace : plan.schema.begins role + index < data.length := by
    rw [Schema.ends, ← hlength] at hends
    omega
  exact ⟨_, List.getElem?_eq_getElem hplace⟩

section Column

variable {column : Column} {datum : Datum} {index : Nat}

theorem nullBit_opened (hbytes : bytes.toList = plan.image data) (hadmits : plan.Admits data)
    (hlength : data.length = plan.schema.columnCount)
    (hcell : (Image.cells plan.schema data role)[index]? = some (column, datum)) :
    (plan.opened data bytes role).nullBit index = decide (datum = .null) := by
  have hfield : (plan.draft data role).fields[index]? = some (datum.field column.type) :=
    getElem?_fields_eq_some.mpr ⟨_, hcell, rfl⟩
  rw [(shows_opened hbytes hadmits hlength role).nullBit_of_field hfield]
  exact decide_eq_decide.mpr Datum.field_eq_null_iff

/-- A column lies where the draft put it. -/
theorem columnSpan?_opened (hbytes : bytes.toList = plan.image data) (hadmits : plan.Admits data)
    (hlength : data.length = plan.schema.columnCount)
    (hcell : (Image.cells plan.schema data role)[index]? = some (column, datum))
    (hpresent : datum ≠ .null) :
    (plan.opened data bytes role).columnSpan? index =
      some ⟨(plan.front data role).length + (plan.draft data role).position index,
        (plan.front data role).length + (plan.draft data role).position (index + 1)⟩ := by
  have hfield : (plan.draft data role).fields[index]? = some (datum.field column.type) :=
    getElem?_fields_eq_some.mpr ⟨_, hcell, rfl⟩
  exact (shows_opened hbytes hadmits hlength role).columnSpan? hfield
    (mt Datum.field_eq_null_iff.mp hpresent)

/-- A column has the bytes that stand for its datum. -/
theorem columnBytes?_opened (hbytes : bytes.toList = plan.image data) (hadmits : plan.Admits data)
    (hlength : data.length = plan.schema.columnCount)
    (hcell : (Image.cells plan.schema data role)[index]? = some (column, datum))
    (hpresent : datum ≠ .null) :
    ∃ content, (plan.opened data bytes role).columnBytes? index = some content ∧
      content.toList = datum.stored column.type := by
  have hfield : (plan.draft data role).fields[index]? = some (datum.field column.type) :=
    getElem?_fields_eq_some.mpr ⟨_, hcell, rfl⟩
  have hroom := (shows_opened hbytes hadmits hlength role).closed.isOpen.entries_le
  obtain ⟨before, after, hsplit, hbase⟩ := plan.exists_split hbytes role
  refine ⟨_, congrArg _ (columnSpan?_opened hbytes hadmits hlength hcell hpresent), ?_⟩
  rw [← hbase, ← Datum.bytes_field (hadmits.takes role _ (List.mem_of_getElem? hcell))]
  exact Chunk.extract_position hsplit hroom hfield

/-- A column of the finished tuple gives its datum back, from where the draft put it. -/
theorem returns_opened (hbytes : bytes.toList = plan.image data) (hadmits : plan.Admits data)
    (hlength : data.length = plan.schema.columnCount)
    (hcolumn : (plan.schema.columns role).get? index = some column)
    (hdatum : data[plan.schema.begins role + index]? = some datum) :
    (plan.opened data bytes role).Returns index column datum
      ((plan.front data role).length + (plan.draft data role).position index) := by
  have hcell := Image.getElem?_cells_eq_some.mpr ⟨hcolumn, hdatum⟩
  have htakes := hadmits.takes role _ (List.mem_of_getElem? hcell)
  have hbit := nullBit_opened hbytes hadmits hlength hcell
  have hspan := columnSpan?_opened hbytes hadmits hlength hcell
  have hcontent := columnBytes?_opened hbytes hadmits hlength hcell
  have hget : (plan.opened data bytes role).columns.get? index = some column := hcolumn
  have hnull : (plan.opened data bytes role).isNull index = decide (datum = .null) := by
    rw [Chunk.isNull, hbit, decide_eq_true (Columns.lt_length_of_get? hget), Bool.true_and]
  refine ⟨?_, ?_, ?_, hcontent, ?_, ?_⟩
  · rw [hnull, decide_eq_true_iff]
  · intro habsent
    apply Chunk.columnSpan?_of_null
    rw [hbit, decide_eq_true habsent]
  · intro hpresent
    have hfield : (plan.draft data role).fields[index]? = some (datum.field column.type) :=
      getElem?_fields_eq_some.mpr ⟨_, hcell, rfl⟩
    rw [hspan hpresent, Draft.position_succ hfield, Datum.size_field htakes, Nat.add_assoc]
  · by_cases habsent : datum = .null
    · rw [decide_eq_true habsent] at hnull
      simp [Chunk.datum?, hget, hnull, habsent, Datum.normal]
    · obtain ⟨content, hbytes, hstored⟩ := hcontent habsent
      rw [decide_eq_false habsent] at hnull
      simp [Chunk.datum?, hget, hnull, hbytes, hstored, Datum.read?_stored htakes habsent]
  · rintro mask rfl bit
    exact Datum.contains_stored htakes bit

end Column

/-- Where the cursor stands in front of a column. -/
theorem offset_of_reachable {builder : Builder} {index : Nat}
    (hreach : builder.Reachable plan (data.take (plan.schema.begins role + index)))
    (hindex : index < (plan.schema.columns role).length)
    (hlength : data.length = plan.schema.columnCount) :
    builder.cursor.offset =
      (plan.front data role).length + (plan.draft data role).position index := by
  have hstands := hreach.stands.2
  have hends := plan.schema.ends_le_columnCount role
  have hcount : (data.take (plan.schema.begins role + index)).length =
      plan.schema.begins role + index := by
    rw [Schema.ends] at hends
    rw [List.length_take, Nat.min_eq_left (by omega)]
  have hrole : plan.schema.roleAt (plan.schema.begins role + index) = role := by
    cases role with
    | key =>
        apply Schema.roleAt_key
        rw [Schema.begins, Nat.zero_add]
        exact hindex
    | value => exact Schema.roleAt_value (Nat.le_add_right ..)
  -- The column is still to come, so the builder is not finished.
  cases hstands with
  | filling hleft hfilling =>
      rw [hcount, hrole] at hfilling
      rw [hfilling.fills.cursor, front_take (Nat.le_add_right ..)]
      change _ + (plan.draft _ role).length = _
      rw [length_draft_take, Nat.add_sub_cancel_left]
      rfl
  | finished hfull hfinished =>
      rw [hcount] at hfull
      rw [Schema.ends] at hends
      omega

end Plan

/-- What an opened tuple says of the data that it was built from under a plan. -/
structure Tuple.Keeps (tuple : Tuple) (plan : Plan) (data : List Datum) : Prop where
  key_base : tuple.key.base = 6
  value_base : tuple.value.base = tuple.key.stop
  value_stop : tuple.value.stop = tuple.bytes.size
  version : tuple.schemaVersion = plan.schema.version.toNat
  /-- Every column has a datum, and returns it from where the cursor of a builder
  stood that the data in front of it had been appended to. -/
  returns : ∀ role, ∀ index < (plan.schema.columns role).length, ∃ column datum,
    (plan.schema.columns role).get? index = some column ∧
      data[plan.schema.begins role + index]? = some datum ∧
      (∃ before, Builder.Reachable plan (data.take (plan.schema.begins role + index)) before) ∧
      ∀ before, Builder.Reachable plan (data.take (plan.schema.begins role + index)) before →
        (tuple.chunk role).Returns index column datum before.cursor.offset
  /-- The columns that are not null lie one behind the other and fill the chunk. -/
  tiled : ∀ role, Span.Tile (tuple.chunk role).dataOffset (tuple.chunk role).stop
    ((List.range (plan.schema.columns role).length).filterMap (tuple.chunk role).columnSpan?)
  entries : ∀ role, ∀ entry < (tuple.chunk role).varlenCount,
    ((tuple.chunk role).entrySpan? entry).isSome = true

theorem Plan.keeps_tuple {plan : Plan} {data : List Datum} {bytes : Array UInt8}
    (hbytes : bytes.toList = plan.image data) (hadmits : plan.Admits data)
    (hlength : data.length = plan.schema.columnCount)
    (hearlier : ∀ count, ∃ before, Builder.Reachable plan (data.take count) before) :
    (plan.tuple data bytes).Keeps plan data := by
  have hclosed := ((admits_iff hlength).mp hadmits).2
  have hshows := shows_opened hbytes hadmits hlength
  refine ⟨plan.length_header 0, (stop_opened_key bytes (hclosed .key)).symm,
    size_eq_stop hbytes (hclosed .value), congrArg (Option.getD · 0) (read_version hbytes),
    ?_, ?_, ?_⟩
  · intro role index hindex
    obtain ⟨column, hcolumn⟩ := Columns.get?_eq_some_of_lt hindex
    obtain ⟨datum, hdatum⟩ := exists_datum hlength hindex
    refine ⟨column, datum, hcolumn, hdatum, hearlier _, ?_⟩
    intro before hbefore
    rw [offset_of_reachable hbefore hindex hlength, chunk_tuple]
    exact returns_opened hbytes hadmits hlength hcolumn hdatum
  · intro role
    rw [chunk_tuple]
    exact (hshows role).tile
  · intro role entry hentry
    rw [chunk_tuple] at hentry ⊢
    exact (hshows role).isSome_entrySpan? hentry

namespace Builder

/-- A finished tuple can be opened under its schema and keeps all its data. -/
theorem read_of_finish {plan : Plan} {data : List Datum} {builder : Builder}
    {bytes : Array UInt8} (hreach : Reachable plan data builder)
    (hfinish : finish plan builder = .ok bytes) :
    ∃ tuple, Tuple.read plan.schema bytes = .ok tuple ∧ tuple.bytes = bytes ∧
      tuple.Keeps plan data := by
  obtain ⟨hadmits, hstands⟩ := hreach.stands
  obtain ⟨hlength, _, hbytes⟩ := (finish_eq_ok_iff hadmits hstands).mp hfinish
  refine ⟨plan.tuple data bytes, ?_, rfl, ?_⟩
  · exact Plan.read_tuple hbytes ((Plan.admits_iff hlength).mp hadmits).2
  · apply Plan.keeps_tuple hbytes hadmits hlength
    intro count
    obtain ⟨before, hfill⟩ := @exists_fill plan _ (.withCapacity 0) rfl (hadmits.take count)
    exact ⟨before, reachable_of_fill hfill⟩

theorem read_customer :
    ∃ builder bytes tuple, Reachable Customers.plan Customers.data builder ∧
      finish Customers.plan builder = .ok bytes ∧
        Tuple.read Customers.schema bytes = .ok tuple ∧
          tuple.Keeps Customers.plan Customers.data := by
  obtain ⟨builder, hreach, hfinish⟩ :=
    exists_reachable_of_buildIn (Customers.build_data ⟨true, true⟩)
  obtain ⟨tuple, hread, _, hkeeps⟩ := read_of_finish hreach hfinish
  exact ⟨builder, _, tuple, hreach, hfinish, hread, hkeeps⟩

end Builder

end PackedTuple
