import PackedTuple.Customers
import PackedTuple.Proofs.View.Layout

/-! # Look-ups in untrusted bytes

Opening a tuple checks its framing and nothing else, so null bits and table
entries may say anything at all. Whatever they say, a look-up that has an answer
answers with a range inside its own chunk, and never looks behind the bytes.
Ranges that do not overlap by accident of the table are adjacent: fixed-length
columns follow one another, and a table entry ends where the next one starts.
-/

namespace PackedTuple

/-- The range lies inside a stretch of positions. -/
structure Span.Within (span : Span) (start stop : Nat) : Prop where
  start_le : start ≤ span.start
  ordered : span.start ≤ span.stop
  stop_le : span.stop ≤ stop

namespace Chunk

variable {chunk : Chunk} {index entry : Nat} {span : Span}

section Entry

theorem entrySpan?_eq {start : Nat} (hstart : chunk.entryStart? entry = some start) :
    chunk.entrySpan? entry =
      if start ≤ chunk.boundary (entry + 1) ∧ chunk.boundary (entry + 1) ≤ chunk.length then
        some ⟨chunk.base + start, chunk.base + chunk.boundary (entry + 1)⟩
      else none := by
  cases hnext : chunk.entryStart? (entry + 1) <;> simp [entrySpan?, boundary, hstart, hnext, stop]

/-- A table entry that locates a value leads from its start to the next boundary. -/
theorem entrySpan?_eq_some (hspan : chunk.entrySpan? entry = some span) :
    ∃ start, chunk.entryStart? entry = some start ∧ start ≤ chunk.boundary (entry + 1) ∧
      chunk.boundary (entry + 1) ≤ chunk.length ∧
        span = ⟨chunk.base + start, chunk.base + chunk.boundary (entry + 1)⟩ := by
  cases hstart : chunk.entryStart? entry with
  | none => simp [entrySpan?, hstart] at hspan
  | some start =>
      rw [entrySpan?_eq hstart] at hspan
      split at hspan
      next hordered => exact ⟨start, rfl, hordered.1, hordered.2, (Option.some.inj hspan).symm⟩
      next => contradiction

theorem within_of_entrySpan? (hspan : chunk.entrySpan? entry = some span) :
    span.Within chunk.base chunk.stop := by
  obtain ⟨start, _, hordered, hinside, rfl⟩ := entrySpan?_eq_some hspan
  exact ⟨Nat.le_add_right .., Nat.add_le_add_left hordered _, Nat.add_le_add_left hinside _⟩

/-- A value ends where the value of the next entry starts. -/
theorem entrySpan?_adjacent {first second : Span} (hfirst : chunk.entrySpan? entry = some first)
    (hsecond : chunk.entrySpan? (entry + 1) = some second) : first.stop = second.start := by
  obtain ⟨_, _, _, _, rfl⟩ := entrySpan?_eq_some hfirst
  obtain ⟨start, hstart, _, _, rfl⟩ := entrySpan?_eq_some hsecond
  rw [boundary, hstart]
  rfl

/-- The value of the last entry ends where the chunk does. -/
theorem entrySpan?_last (hlast : entry + 1 = chunk.varlenCount)
    (hspan : chunk.entrySpan? entry = some span) : span.stop = chunk.stop := by
  obtain ⟨_, _, _, _, rfl⟩ := entrySpan?_eq_some hspan
  rw [boundary, entryStart?_of_le (Nat.le_of_eq hlast.symm)]
  rfl

theorem IsLocated.isSome_entryStart? (hlocated : chunk.IsLocated) (entry : Nat) :
    (chunk.entryStart? entry).isSome = true ↔ entry < chunk.varlenCount := by
  constructor
  · intro hsome
    apply Nat.not_le.mp
    intro hle
    rw [entryStart?_of_le hle] at hsome
    contradiction
  · intro hentry
    obtain ⟨start, hstart⟩ := hlocated.exists_entryStart hentry
    rw [hstart]
    rfl

end Entry

section Column

/-- A fixed-length column that is not null is located if its width ends inside the chunk. -/
theorem fixedSpan?_eq_some_iff :
    chunk.fixedSpan? index = some span ↔
      index < chunk.columns.fixedCount ∧ chunk.nullBit index = false ∧
        chunk.dataOffset + chunk.widthBefore (index + 1) ≤ chunk.stop ∧
          span = ⟨chunk.dataOffset + chunk.widthBefore index,
            chunk.dataOffset + chunk.widthBefore (index + 1)⟩ := by
  cases hcolumn : chunk.columns.get? index with
  | none =>
      have hnone : chunk.fixedSpan? index = none := by simp [fixedSpan?, hcolumn]
      rw [hnone]
      refine iff_of_false nofun ?_
      rintro ⟨hindex, _⟩
      obtain ⟨column, hsome⟩ := Columns.get?_eq_some_of_lt
        (Nat.lt_of_lt_of_le hindex chunk.columns.fixedCount_le_length)
      rw [hcolumn] at hsome
      contradiction
  | some column =>
      have hfixed := Columns.isFixedLength_iff hcolumn
      rw [← hfixed]
      cases hlength : column.isFixedLength with
      | false => simp [fixedSpan?, hcolumn, hlength]
      | true =>
          cases hnull : chunk.nullBit index with
          | true => simp [fixedSpan?, hcolumn, columnSpan?_of_null hnull]
          | false =>
              obtain ⟨width, hwidth⟩ : ∃ width, column.type.width? = some width := by
                rw [← Option.isSome_iff_exists, ColumnType.isSome_width?]
                exact hlength
              have hnext : chunk.widthBefore (index + 1) = chunk.widthBefore index + width := by
                rw [widthBefore_succ hcolumn, hnull, hwidth]
                rfl
              simp only [fixedSpan?, columnSpan?, hcolumn, hlength, hnull, hwidth, hnext,
                ← Nat.add_assoc, Option.bind_eq_bind, Option.bind_some, if_true,
                Bool.false_eq_true, if_false, true_and]
              split
              next hinside => simp [hinside, eq_comm]
              next hbehind => simp [hbehind]

/-- A column is located by the widths in front of it or by its table entry. -/
theorem columnSpan?_eq_some (hspan : chunk.columnSpan? index = some span) :
    chunk.fixedSpan? index = some span ∨
      chunk.entrySpan? (chunk.varlensBefore index) = some span := by
  cases hcolumn : chunk.columns.get? index with
  | none => simp [columnSpan?, hcolumn] at hspan
  | some column =>
      have hnull : chunk.nullBit index = false := by
        cases hbit : chunk.nullBit index with
        | false => rfl
        | true =>
            rw [columnSpan?_of_null hbit] at hspan
            contradiction
      cases hlength : column.isFixedLength with
      | true =>
          left
          simpa [fixedSpan?, hcolumn, hlength] using hspan
      | false =>
          right
          have hwidth := ColumnType.width?_eq_none_iff.mpr hlength
          rwa [columnSpan?_of_varlen hcolumn hnull hwidth] at hspan

/-- Columns none of which is located take no room: had one of them a width to take,
it would end in front of a column that is located. -/
theorem widthBefore_of_unlocated {later : Nat} (hle : index ≤ later)
    (hlater : later < chunk.columns.fixedCount)
    (hinside : chunk.dataOffset + chunk.widthBefore later ≤ chunk.stop)
    (hnone : ∀ between, index ≤ between → between < later → chunk.fixedSpan? between = none) :
    chunk.widthBefore later = chunk.widthBefore index := by
  induction hle with
  | refl => rfl
  | @step later hle ih =>
      have hcolumns := Nat.lt_of_lt_of_le hlater chunk.columns.fixedCount_le_length
      have hbefore : later < chunk.columns.fixedCount := Nat.lt_of_succ_lt hlater
      obtain ⟨column, hcolumn⟩ := Columns.get?_eq_some_of_lt (Nat.lt_of_succ_lt hcolumns)
      have hnull : chunk.nullBit later = true := by
        cases hbit : chunk.nullBit later with
        | true => rfl
        | false =>
            have hspan := fixedSpan?_eq_some_iff.mpr ⟨hbefore, hbit, hinside, rfl⟩
            rw [hnone later hle (Nat.lt_succ_self later)] at hspan
            contradiction
      have hsame : chunk.widthBefore (later + 1) = chunk.widthBefore later := by
        rw [widthBefore_succ hcolumn, hnull]
        rfl
      rw [hsame] at hinside ⊢
      refine ih hbefore hinside ?_
      intro between hfrom hto
      exact hnone between hfrom (Nat.lt_succ_of_lt hto)

/-- A fixed-length column ends where the next one that is located starts. -/
theorem fixedSpan?_adjacent {later : Nat} {first second : Span} (hlt : index < later)
    (hfirst : chunk.fixedSpan? index = some first) (hsecond : chunk.fixedSpan? later = some second)
    (hnone : ∀ between, index < between → between < later → chunk.fixedSpan? between = none) :
    first.stop = second.start := by
  obtain ⟨_, _, _, rfl⟩ := fixedSpan?_eq_some_iff.mp hfirst
  obtain ⟨hlater, _, hinside, rfl⟩ := fixedSpan?_eq_some_iff.mp hsecond
  have hcolumns := Nat.lt_of_lt_of_le hlater chunk.columns.fixedCount_le_length
  have hmono := @widthBefore_mono chunk later (later + 1) (Nat.le_succ later) hcolumns
  have hsame := widthBefore_of_unlocated hlt hlater (by omega) hnone
  exact congrArg (chunk.dataOffset + ·) hsame.symm

theorem base_le_dataOffset (chunk : Chunk) : chunk.base ≤ chunk.dataOffset := by
  simp only [dataOffset, nullMapOffset, tableOffset]
  omega

theorem dataOffset_le_of_fixedSpan? (hspan : chunk.fixedSpan? index = some span) :
    chunk.dataOffset ≤ span.start := by
  obtain ⟨_, _, _, rfl⟩ := fixedSpan?_eq_some_iff.mp hspan
  exact Nat.le_add_right ..

theorem within_of_fixedSpan? (hspan : chunk.fixedSpan? index = some span) :
    span.Within chunk.base chunk.stop := by
  have hstart := Nat.le_trans chunk.base_le_dataOffset (dataOffset_le_of_fixedSpan? hspan)
  obtain ⟨hindex, _, hinside, rfl⟩ := fixedSpan?_eq_some_iff.mp hspan
  have hcolumns := Nat.lt_of_lt_of_le hindex chunk.columns.fixedCount_le_length
  have hmono := @widthBefore_mono chunk index (index + 1) (Nat.le_succ index) hcolumns
  exact ⟨hstart, Nat.add_le_add_left hmono _, hinside⟩

theorem within_of_columnSpan? (hspan : chunk.columnSpan? index = some span) :
    span.Within chunk.base chunk.stop := by
  rcases columnSpan?_eq_some hspan with hfixed | hentry
  · exact within_of_fixedSpan? hfixed
  · exact within_of_entrySpan? hentry

/-- The byte with the null bit of a column lies in front of the values. -/
theorem IsLocated.exists_nullByte (hlocated : chunk.IsLocated)
    (hindex : index < chunk.columns.length) :
    chunk.nullMapOffset + index / 8 < chunk.dataOffset ∧
      ∃ byte, chunk.bytes[chunk.nullMapOffset + index / 8]? = some byte := by
  have hcover := BitSet.le_byteCount chunk.columns.length
  have hplace : chunk.nullMapOffset + index / 8 < chunk.dataOffset := by
    simp only [dataOffset, Columns.nullMapSize]
    omega
  have hinside := Nat.lt_of_lt_of_le hplace (Nat.le_trans hlocated.header_le hlocated.stop_le)
  exact ⟨hplace, _, Array.getElem?_eq_getElem hinside⟩

end Column

/-- What the look-ups in a chunk answer, whether or not there is a column or a
table entry of the index that they are asked for. -/
structure Confines (chunk : Chunk) : Prop where
  null_byte : ∀ index < chunk.columns.length,
    chunk.nullMapOffset + index / 8 < chunk.dataOffset ∧
      ∃ byte, chunk.bytes[chunk.nullMapOffset + index / 8]? = some byte
  entry_iff : ∀ entry, (chunk.entryStart? entry).isSome = true ↔ entry < chunk.varlenCount
  column_within : ∀ index span, chunk.columnSpan? index = some span →
    span.Within chunk.base chunk.stop
  fixed_within : ∀ index span, chunk.fixedSpan? index = some span →
    span.Within chunk.base chunk.stop
  entry_within : ∀ entry span, chunk.entrySpan? entry = some span →
    span.Within chunk.base chunk.stop
  /-- Taking out the bytes of a column never reaches behind the bytes of the tuple. -/
  content_inside : ∀ index content, chunk.columnBytes? index = some content →
    ∃ span, chunk.columnSpan? index = some span ∧ span.stop ≤ chunk.bytes.size ∧
      content.size = span.stop - span.start
  fixed_start : ∀ index span, chunk.fixedSpan? index = some span → chunk.dataOffset ≤ span.start
  fixed_adjacent : ∀ index later first second, index < later →
    chunk.fixedSpan? index = some first → chunk.fixedSpan? later = some second →
      (∀ between, index < between → between < later → chunk.fixedSpan? between = none) →
        first.stop = second.start
  entry_adjacent : ∀ entry first second, chunk.entrySpan? entry = some first →
    chunk.entrySpan? (entry + 1) = some second → first.stop = second.start
  entry_last : ∀ entry span, entry + 1 = chunk.varlenCount →
    chunk.entrySpan? entry = some span → span.stop = chunk.stop

theorem IsLocated.content_inside (hlocated : chunk.IsLocated) {content : Array UInt8}
    (hcontent : chunk.columnBytes? index = some content) :
    ∃ span, chunk.columnSpan? index = some span ∧ span.stop ≤ chunk.bytes.size ∧
      content.size = span.stop - span.start := by
  obtain ⟨span, hspan, rfl⟩ := Option.map_eq_some_iff.mp hcontent
  have hinside := Nat.le_trans (within_of_columnSpan? hspan).stop_le hlocated.stop_le
  exact ⟨span, hspan, hinside, by rw [Array.size_extract, Nat.min_eq_left hinside]⟩

theorem IsLocated.confines (hlocated : chunk.IsLocated) : chunk.Confines where
  null_byte _ hindex := hlocated.exists_nullByte hindex
  entry_iff := hlocated.isSome_entryStart?
  column_within _ _ hspan := within_of_columnSpan? hspan
  fixed_within _ _ hspan := within_of_fixedSpan? hspan
  entry_within _ _ hspan := within_of_entrySpan? hspan
  content_inside _ _ hcontent := hlocated.content_inside hcontent
  fixed_start _ _ hspan := dataOffset_le_of_fixedSpan? hspan
  fixed_adjacent _ _ _ _ hlt hfirst hsecond hnone := fixedSpan?_adjacent hlt hfirst hsecond hnone
  entry_adjacent _ _ _ hfirst hsecond := entrySpan?_adjacent hfirst hsecond
  entry_last _ _ hlast hspan := entrySpan?_last hlast hspan

end Chunk

namespace Tuple

/-- What is certain of bytes that were opened as a tuple of a schema, canonical or not. -/
structure Confines (tuple : Tuple) (schema : Schema) (bytes : Array UInt8) : Prop where
  bytes_eq : tuple.bytes = bytes ∧ ∀ role, (tuple.chunk role).bytes = bytes
  columns : ∀ role, (tuple.chunk role).columns = schema.columns role
  /-- The key chunk fills the bytes between the header and the value chunk. -/
  key_extent : tuple.key.base = 6 ∧ tuple.key.stop = tuple.value.base
  /-- The value chunk fills the bytes from the end of the key chunk on. -/
  value_extent : tuple.value.base = tuple.key.stop ∧ tuple.value.stop = bytes.size
  /-- The fields of the header and of both chunk headers are there to be read. -/
  version_read : LittleEndian.read? Layout.versionWidth tuple.bytes 0 = some tuple.schemaVersion
  hash_read : LittleEndian.read? Layout.keyHashWidth tuple.bytes Layout.versionWidth =
    some tuple.keyHash
  length_read : ∀ role, LittleEndian.read? Layout.fieldWidth bytes (tuple.chunk role).base =
    some (tuple.chunk role).length
  count_read : ∀ role, LittleEndian.read? Layout.fieldWidth bytes
    ((tuple.chunk role).base + Layout.fieldWidth) = some (tuple.chunk role).varlenCount
  confines : ∀ role, (tuple.chunk role).Confines

variable {schema : Schema} {bytes : Array UInt8} {tuple : Tuple}

theorem IsLocated.chunk (hlocated : tuple.IsLocated schema bytes) (role : ChunkRole) :
    (tuple.chunk role).IsLocated := by
  cases role with
  | key => exact hlocated.key
  | value => exact hlocated.value

/-- Framed like a customer, but with null bits where nulls are not allowed, and
table entries out of order. -/
def scrambled : Array UInt8 :=
  #[1, 0, 9, 9, 9, 9] ++
  #[5, 0, 0, 0, 0xff] ++
  #[12, 0, 2, 0, 7, 0, 1, 0, 0x01, 0xaa, 0xbb, 0xcc]

end Tuple

end PackedTuple
