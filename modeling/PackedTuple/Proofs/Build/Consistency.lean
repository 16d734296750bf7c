import PackedTuple.Customers
import PackedTuple.Proofs.Build.Outcome

/-! # Builders between two appends

A builder keeps count in several places: in its cursor, in the number of data
appended, in the completion flag and in the bytes written. Between two appends
they agree with one another and with the data appended so far. The invariant
behind this is that the buffer ends with the draft of one chunk, and that the
cursor stands at the end of that draft.
-/

namespace PackedTuple

namespace Plan

variable {plan : Plan} {data : List Datum} {role : ChunkRole} {index : Nat}

theorem isNull_draft_iff :
    (plan.draft data role).isNull index = true ↔
      ∃ column, (Image.cells plan.schema data role)[index]? = some (column, .null) := by
  rw [Draft.isNull, beq_iff_eq, getElem?_fields_eq_some]
  constructor
  · rintro ⟨⟨column, datum⟩, hcell, hfield⟩
    obtain rfl := Datum.field_eq_null_iff.mp hfield
    exact ⟨column, hcell⟩
  · rintro ⟨column, hcell⟩
    exact ⟨(column, .null), hcell, rfl⟩

/-- The null map is the set of the columns that were given null, without the columns
that have no datum yet. -/
theorem contains_nullMap_draft :
    BitSet.contains (plan.draft data role).nullMap index = true ↔
      ∃ column, (Image.cells plan.schema data role)[index]? = some (column, .null) := by
  rw [Draft.nullMap, BitSet.contains_pack, Bool.and_eq_true, decide_eq_true_eq, isNull_draft_iff]
  refine and_iff_right_of_imp ?_
  rintro ⟨column, hcell⟩
  have hindex := (List.getElem?_eq_some_iff.mp hcell).1
  rw [Image.length_cells] at hindex
  exact Nat.lt_of_lt_of_le hindex (Nat.min_le_left ..)

end Plan

namespace Builder

/-! ## The chunk at the end of the buffer -/

/-- The builder stands in a chunk, behind the columns that have their datum. -/
structure Occupies (plan : Plan) (data : List Datum) (role : ChunkRole) (builder : Builder) :
    Prop where
  begins_le : plan.schema.begins role ≤ data.length
  length_le : data.length ≤ plan.schema.ends role
  cursor : builder.cursor = (plan.draft data role).cursor role (plan.front data role).length
  bytes : ∃ stamp, builder.buffer.bytes.toList =
    plan.front data role ++ (plan.draft data role).bytes stamp
  complete : builder.complete = true → role = .value ∧ data.length = plan.schema.ends role
  incomplete : builder.complete = false → data.length < plan.schema.ends role

section Occupies

variable {plan : Plan} {data : List Datum} {role : ChunkRole} {builder : Builder}

/-- A builder is filling the chunk of the next column, or has filled the value chunk. -/
theorem Stands.occupies (hstands : Stands plan data builder) (hadmits : plan.Admits data) :
    ∃ role, Occupies plan data role builder := by
  cases hstands with
  | filling hleft hfilling =>
      have hends := Schema.lt_ends_roleAt hleft
      refine ⟨_, Schema.begins_roleAt_le .., Nat.le_of_lt hends, hfilling.fills.cursor, ⟨0, ?_⟩, ?_,
        fun _ => hends⟩
      · -- A chunk with a column left has columns, so its table was laid down.
        apply hfilling.fills.bytes
        intro hnone
        have hbegins := plan.schema.begins_roleAt_le data.length
        have hcolumns : (plan.schema.columns (plan.schema.roleAt data.length)).length = 0 := hnone
        unfold Schema.ends at hends
        omega
      · intro hcomplete
        rw [hfilling.incomplete] at hcomplete
        contradiction
  | finished hfull hfinished =>
      have hlength : data.length = plan.schema.ends .value :=
        Nat.le_antisymm hadmits.length_le hfull
      have hkey : plan.schema.begins .value ≤ data.length :=
        Nat.le_trans (Nat.le_add_right ..) hfull
      refine ⟨.value, hkey, Nat.le_of_eq hlength, hfinished.cursor, ⟨_, hfinished.bytes⟩,
        fun _ => ⟨rfl, hlength⟩, ?_⟩
      intro hincomplete
      rw [hfinished.complete] at hincomplete
      contradiction

variable (hoccupies : Occupies plan data role builder)

include hoccupies

theorem Occupies.role_eq : builder.cursor.role = role := by
  rw [hoccupies.cursor]
  rfl

theorem Occupies.columnCount_eq :
    builder.cursor.columnCount = (plan.schema.columns role).length := by
  rw [hoccupies.cursor]
  rfl

/-- The column of the cursor counts on from the columns in front of its chunk. -/
theorem Occupies.length_eq :
    data.length = plan.schema.begins role + builder.cursor.column := by
  have hbegins := hoccupies.begins_le
  have hends := hoccupies.length_le
  have hcolumn : builder.cursor.column = (plan.draft data role).fields.length := by
    rw [hoccupies.cursor]
    rfl
  rw [hcolumn, Plan.length_fields_draft]
  unfold Schema.ends at hends
  omega

/-- Unless the tuple is complete, a column of the chunk is left. -/
theorem Occupies.column_lt (hincomplete : builder.complete = false) :
    builder.cursor.column < builder.cursor.columnCount := by
  have hleft := hoccupies.incomplete hincomplete
  rw [hoccupies.length_eq] at hleft
  rw [hoccupies.columnCount_eq]
  exact Nat.lt_of_add_lt_add_left hleft

/-- The tuple is complete once the value chunk has all its columns. -/
theorem Occupies.complete_iff :
    builder.complete = true ↔ builder.cursor.role = .value ∧
      builder.cursor.column = builder.cursor.columnCount := by
  constructor
  · intro hcomplete
    obtain ⟨hrole, hlength⟩ := hoccupies.complete hcomplete
    rw [hoccupies.length_eq] at hlength
    refine ⟨hoccupies.role_eq.trans hrole, ?_⟩
    rw [hoccupies.columnCount_eq]
    exact Nat.add_left_cancel hlength
  · rintro ⟨_, hfull⟩
    cases hcomplete : builder.complete with
    | true => rfl
    | false => exact absurd hfull (Nat.ne_of_lt (hoccupies.column_lt hcomplete))

theorem Occupies.written_eq (hopen : (plan.draft data role).IsOpen) :
    builder.buffer.written = builder.cursor.offset := by
  obtain ⟨stamp, hbytes⟩ := hoccupies.bytes
  exact written_eq_offset hoccupies.cursor hbytes hopen.entries_le

theorem Occupies.base_key (hrole : role = .key) : builder.cursor.base = Layout.headerSize := by
  subst hrole
  rw [hoccupies.cursor]
  exact plan.length_header 0

/-- The value chunk starts behind the key chunk, whose length is in front of it by then. -/
theorem Occupies.base_value (hrole : role = .value) (hclosed : (plan.draft data .key).IsClosed) :
    ∃ length, LittleEndian.read? Layout.fieldWidth builder.buffer.bytes Layout.headerSize =
      some length ∧ builder.cursor.base = Layout.headerSize + length := by
  subst hrole
  obtain ⟨stamp, hbytes⟩ := hoccupies.bytes
  rw [Plan.front, List.append_assoc, ← List.append_assoc] at hbytes
  have hread := Draft.read?_stamp hbytes hclosed.length_le
  rw [Plan.length_header] at hread
  refine ⟨_, hread, ?_⟩
  rw [← Plan.length_front_value hclosed.isOpen.entries_le, hoccupies.cursor]
  rfl

/-- The bits of the null map are set for the columns that were given null, and for no others. -/
theorem Occupies.testByte_nullMap (hopen : (plan.draft data role).IsOpen) {index : Nat}
    (hindex : index < 8 * BitSet.byteCount builder.cursor.columnCount) :
    BitSet.testByte (builder.buffer.byteAt (builder.cursor.nullMapOffset + index / 8)) index =
        true ↔
      ∃ column, (Image.cells plan.schema data role)[index]? = some (column, .null) := by
  obtain ⟨stamp, hbytes⟩ := hoccupies.bytes
  have hplace : index / 8 < (plan.draft data role).nullMap.length := by
    rw [hoccupies.columnCount_eq] at hindex
    rw [Draft.length_nullMap]
    exact Nat.div_lt_of_lt_mul hindex
  have hoffset : builder.cursor.nullMapOffset + index / 8 = (plan.front data role).length +
      Layout.chunkHeaderSize + Layout.tableSize (plan.draft data role).slots + index / 8 := by
    rw [hoccupies.cursor]
    simp only [Cursor.nullMapOffset, Cursor.nullMapStart, Draft.cursor, Nat.add_assoc]
  have hbyte := Draft.getElem?_nullMap (hbytes.trans (List.append_nil _).symm) hopen.entries_le
    hplace
  rw [← hoffset, List.getElem?_eq_getElem hplace, ← Array.getElem?_toList] at hbyte
  rw [byteAt_of_getElem? hbyte, ← Plan.contains_nullMap_draft,
    BitSet.contains_of_getElem? (List.getElem?_eq_getElem hplace)]

end Occupies

/-! ## Agreement of all counts -/

/-- How the parts of a builder agree between two appends, after data. -/
structure Consistent (plan : Plan) (data : List Datum) (builder : Builder) : Prop where
  /-- The cursor knows the columns of its own chunk. -/
  columnCount : builder.cursor.columnCount = (plan.schema.columns builder.cursor.role).length
  complete_iff : builder.complete = true ↔
    builder.cursor.role = .value ∧ builder.cursor.column = builder.cursor.columnCount
  column_lt : builder.complete = false → builder.cursor.column < builder.cursor.columnCount
  appended : builder.appended = data.length
  column : builder.appended = plan.schema.begins builder.cursor.role + builder.cursor.column
  slots : builder.cursor.slots = plan.slots builder.cursor.role
  /-- The table entries in use are those of the variable-length values of the chunk. -/
  entry : builder.cursor.entry =
    (Image.payloads (Image.cells plan.schema data builder.cursor.role)).length
  entry_le : builder.cursor.entry ≤ builder.cursor.slots
  /-- The chunk reaches as far as its header and what its data take. -/
  offset : builder.cursor.offset = builder.cursor.base +
    (4 + 2 * builder.cursor.slots + BitSet.byteCount builder.cursor.columnCount +
      Image.storedSize (Image.present (Image.cells plan.schema data builder.cursor.role)))
  base_key : builder.cursor.role = .key → builder.cursor.base = 6
  /-- The value chunk starts behind the key chunk, whose length is known by then. -/
  base_value : builder.cursor.role = .value →
    ∃ length, LittleEndian.read? 2 builder.buffer.bytes 6 = some length ∧
      builder.cursor.base = 6 + length
  written : builder.buffer.written = builder.cursor.offset
  /-- Of the bits of the null map those are set whose column was given null. -/
  nullMap : ∀ index < 8 * BitSet.byteCount builder.cursor.columnCount,
    BitSet.testByte (builder.buffer.byteAt (builder.cursor.nullMapOffset + index / 8)) index =
        true ↔
      ∃ column, (Image.cells plan.schema data builder.cursor.role)[index]? = some (column, .null)

theorem Occupies.consistent {plan : Plan} {data : List Datum} {role : ChunkRole}
    {builder : Builder} (hoccupies : Occupies plan data role builder) (hadmits : plan.Admits data)
    (happended : builder.appended = data.length) : Consistent plan data builder := by
  obtain rfl := hoccupies.role_eq
  have hopen := hadmits.isOpen _ hoccupies.begins_le
  have hslots : builder.cursor.slots = plan.slots builder.cursor.role :=
    congrArg Cursor.slots hoccupies.cursor
  have hentry : builder.cursor.entry = (plan.draft data builder.cursor.role).starts.length :=
    congrArg Cursor.entry hoccupies.cursor
  have hlength : builder.cursor.length = plan.chunkLength data builder.cursor.role :=
    (congrArg Cursor.length hoccupies.cursor).trans (Plan.length_draft_eq hadmits.takes _)
  exact {
    columnCount := hoccupies.columnCount_eq
    complete_iff := hoccupies.complete_iff
    column_lt := hoccupies.column_lt
    appended := happended
    column := happended.trans hoccupies.length_eq
    slots := hslots
    entry := hentry.trans (Plan.length_starts_draft hadmits.takes _)
    entry_le := by
      rw [hentry, hslots]
      exact hopen.entries_le
    offset := by
      rw [hslots, hoccupies.columnCount_eq, Cursor.offset, hlength]
      rfl
    base_key := hoccupies.base_key
    base_value := by
      intro hrole
      refine hoccupies.base_value hrole (hadmits.isClosed .key ?_)
      rw [Schema.ends_key]
      have hbegun := hoccupies.begins_le
      rwa [hrole] at hbegun
    written := hoccupies.written_eq hopen
    nullMap := fun index hindex => hoccupies.testByte_nullMap hopen hindex }

/-- All counts of a builder agree, whatever was appended, and whatever was refused in between. -/
theorem consistent_of_reachable {plan : Plan} {data : List Datum} {builder : Builder}
    (hreach : Reachable plan data builder) : Consistent plan data builder := by
  obtain ⟨hadmits, hstands⟩ := hreach.stands
  obtain ⟨role, hoccupies⟩ := hstands.occupies hadmits
  exact hoccupies.consistent hadmits hstands.appended

/-- A customer whose email is in, and whose names are not yet. -/
theorem consistent_customer :
    ∃ builder, Reachable Customers.plan (Customers.data.take 5) builder ∧
      Consistent Customers.plan (Customers.data.take 5) builder := by
  obtain ⟨hbuffer, hadmits, _⟩ := buildIn_eq_ok_iff.mp (Customers.build_data ⟨true, true⟩)
  obtain ⟨builder, hfill⟩ := exists_fill hbuffer (hadmits.take 5)
  have hreach := reachable_of_fill hfill
  exact ⟨builder, hreach, consistent_of_reachable hreach⟩

end Builder

end PackedTuple
