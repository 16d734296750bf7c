import PackedTuple.Proofs.Bytes.BitSet
import PackedTuple.Proofs.Bytes.Slices
import PackedTuple.Proofs.View.Navigation
import PackedTuple.View.Canonical

/-! # How a canonical chunk is laid out

A chunk that was opened has its header, table and null map inside the bytes. If
it is canonical besides, its columns lie one behind the other from the null map
to the end of the chunk: each has a position, and what lies between a position
and the next is the column, or nothing for a null.
-/

namespace PackedTuple

namespace Chunk

/-- The parts of a chunk that opening it has checked. -/
structure IsLocated (chunk : Chunk) : Prop where
  length_read : LittleEndian.read? Layout.fieldWidth chunk.bytes chunk.base = some chunk.length
  count_read : LittleEndian.read? Layout.fieldWidth chunk.bytes (chunk.base + Layout.fieldWidth) =
    some chunk.varlenCount
  header_le : chunk.dataOffset ≤ chunk.stop
  stop_le : chunk.stop ≤ chunk.bytes.size

section Located

variable {chunk : Chunk} {bytes : Array UInt8} {base : Nat} {role : ChunkRole}
  {columns : Columns}

theorem read_eq_ok (hread : read bytes base role columns = .ok chunk) :
    chunk.IsLocated ∧ chunk.bytes = bytes ∧ chunk.base = base ∧ chunk.columns = columns := by
  unfold read at hread
  split at hread
  next length count hlength hcount =>
    split at hread
    next => contradiction
    next hheader =>
      split at hread
      next => contradiction
      next hstop =>
        obtain rfl := Except.ok.inj hread
        refine ⟨⟨hlength, hcount, ?_, Nat.not_lt.mp hstop⟩, rfl, rfl, rfl⟩
        simp only [dataOffset, nullMapOffset, tableOffset, stop]
        omega
  next => contradiction

/-- Every announced table entry is there to be read. -/
theorem IsLocated.exists_entryStart (hlocated : chunk.IsLocated) {entry : Nat}
    (hentry : entry < chunk.varlenCount) : ∃ start, chunk.entryStart? entry = some start := by
  have hheader := hlocated.header_le
  have hstop := hlocated.stop_le
  have hinside : chunk.tableOffset + Layout.tableSize entry + Layout.fieldWidth ≤
      chunk.bytes.size := by
    simp only [dataOffset, nullMapOffset, Layout.tableSize, Layout.fieldWidth] at *
    omega
  rw [entryStart?, if_pos hentry]
  exact Option.isSome_iff_exists.mp (LittleEndian.isSome_read?.mpr hinside)

theorem entryStart?_of_le {entry : Nat} (hentry : chunk.varlenCount ≤ entry) :
    chunk.entryStart? entry = none :=
  if_neg (Nat.not_lt.mpr hentry)

theorem IsLocated.length_entryStarts (hlocated : chunk.IsLocated) {count : Nat}
    (hcount : count ≤ chunk.varlenCount) :
    ((List.range count).filterMap chunk.entryStart?).length = count := by
  induction count with
  | zero => rfl
  | succ count ih =>
      obtain ⟨start, hstart⟩ := hlocated.exists_entryStart hcount
      rw [List.range_succ, List.filterMap_append, List.length_append, ih (Nat.le_of_succ_le hcount)]
      simp [hstart]

/-- The bytes of the table are those of its entries. -/
theorem IsLocated.extract_table (hlocated : chunk.IsLocated) {count : Nat}
    (hcount : count ≤ chunk.varlenCount) :
    (chunk.bytes.extract chunk.tableOffset (chunk.tableOffset + Layout.tableSize count)).toList =
      ((List.range count).filterMap chunk.entryStart?).flatMap
        (LittleEndian.encode Layout.fieldWidth) := by
  induction count with
  | zero => simp [Layout.tableSize]
  | succ count ih =>
      obtain ⟨start, hstart⟩ := hlocated.exists_entryStart hcount
      have hread := hstart
      rw [entryStart?, if_pos (Nat.lt_of_succ_le hcount)] at hread
      have hnext : chunk.tableOffset + Layout.tableSize (count + 1) =
          chunk.tableOffset + Layout.tableSize count + Layout.fieldWidth := by
        rw [Layout.tableSize, Layout.tableSize, Nat.succ_mul, Nat.add_assoc]
      rw [hnext, ← toList_extract_append (Nat.le_add_right ..) (Nat.le_add_right ..),
        ih (Nat.le_of_succ_le hcount), LittleEndian.encode_of_read? hread, List.range_succ,
        List.filterMap_append, List.flatMap_append]
      simp [hstart]

/-- The parts of a chunk one behind the other. -/
theorem IsLocated.content_eq (hlocated : chunk.IsLocated) :
    chunk.content.toList = LittleEndian.encode Layout.fieldWidth chunk.length ++
      LittleEndian.encode Layout.fieldWidth chunk.varlenCount ++
      (chunk.bytes.extract chunk.tableOffset chunk.nullMapOffset).toList ++
      (chunk.bytes.extract chunk.nullMapOffset chunk.dataOffset).toList ++
      (chunk.bytes.extract chunk.dataOffset chunk.stop).toList := by
  have hcount : chunk.base + Layout.fieldWidth + Layout.fieldWidth = chunk.tableOffset := rfl
  rw [← LittleEndian.encode_of_read? hlocated.length_read,
    ← LittleEndian.encode_of_read? hlocated.count_read, hcount]
  have hfirst : chunk.base ≤ chunk.base + Layout.fieldWidth := Nat.le_add_right ..
  have hsecond : chunk.base + Layout.fieldWidth ≤ chunk.tableOffset := by
    rw [← hcount]
    exact Nat.le_add_right ..
  have htable : chunk.base ≤ chunk.tableOffset := Nat.le_trans hfirst hsecond
  have hmap : chunk.tableOffset ≤ chunk.nullMapOffset := Nat.le_add_right ..
  have hdata : chunk.nullMapOffset ≤ chunk.dataOffset := Nat.le_add_right ..
  rw [toList_extract_append hfirst hsecond, toList_extract_append htable hmap,
    toList_extract_append (Nat.le_trans htable hmap) hdata,
    toList_extract_append (Nat.le_trans (Nat.le_trans htable hmap) hdata) hlocated.header_le]
  rfl

/-- The bytes of the null map hold the null bits. -/
theorem IsLocated.contains_nullMap (hlocated : chunk.IsLocated) {index : Nat}
    (hindex : index < 8 * chunk.columns.nullMapSize) :
    BitSet.contains (chunk.bytes.extract chunk.nullMapOffset chunk.dataOffset).toList index =
      chunk.nullBit index := by
  have hheader := hlocated.header_le
  have hstop := hlocated.stop_le
  have hplace : index / 8 < min chunk.dataOffset chunk.bytes.size - chunk.nullMapOffset := by
    have hmap : chunk.dataOffset = chunk.nullMapOffset + chunk.columns.nullMapSize := rfl
    omega
  rw [BitSet.contains, Array.getElem?_toList, Array.getElem?_extract, if_pos hplace]
  rfl

end Located

/-- Where a variable-length value starts, or the end of the chunk behind the last. -/
def boundary (chunk : Chunk) (entry : Nat) : Nat :=
  (chunk.entryStart? entry).getD chunk.length

/-- Where a column lies, null or not. -/
def position (chunk : Chunk) (index : Nat) : Nat :=
  if index ≤ chunk.columns.fixedCount then chunk.dataOffset + chunk.widthBefore index
  else chunk.base + chunk.boundary (chunk.varlensBefore index)

section Canonical

variable {chunk : Chunk} {index : Nat} {column : Column}

theorem IsCanonical.boundary_le (hcanonical : chunk.IsCanonical) (entry : Nat) :
    chunk.boundary entry ≤ chunk.length := by
  unfold boundary
  cases hstart : chunk.entryStart? entry with
  | none => exact Nat.le_refl _
  | some start => exact hcanonical.starts_inside entry start hstart

theorem IsCanonical.le_boundary (hcanonical : chunk.IsCanonical) {entry start : Nat}
    (hstart : chunk.entryStart? entry = some start) : start ≤ chunk.boundary (entry + 1) := by
  unfold boundary
  cases hnext : chunk.entryStart? (entry + 1) with
  | none => exact hcanonical.starts_inside entry start hstart
  | some next => exact hcanonical.starts_ordered entry start next hstart hnext

/-- Behind the fixed-length columns, positions are boundaries of the table. -/
theorem IsCanonical.position_of_ge (hcanonical : chunk.IsCanonical)
    (hindex : chunk.columns.fixedCount ≤ index) :
    chunk.position index = chunk.base + chunk.boundary (chunk.varlensBefore index) := by
  unfold position
  split
  next hle =>
    -- Here both descriptions apply: the widths end where the first payload starts.
    obtain rfl : index = chunk.columns.fixedCount := Nat.le_antisymm hle hindex
    have hexact := hcanonical.fixed_exact
    rw [widthBefore_of_ge chunk.columns.fixedCount_le_length (Nat.le_refl _)] at hexact
    rw [hexact, varlensBefore_of_le (Nat.le_refl _)]
    rfl
  next => rfl

theorem position_zero (chunk : Chunk) : chunk.position 0 = chunk.dataOffset := by
  rw [position, if_pos (Nat.zero_le _)]
  rfl

/-- The columns end where the chunk does. -/
theorem IsCanonical.position_length (hcanonical : chunk.IsCanonical) :
    chunk.position chunk.columns.length = chunk.stop := by
  rw [hcanonical.position_of_ge chunk.columns.fixedCount_le_length, ← hcanonical.count_exact,
    boundary, entryStart?_of_le (Nat.le_refl _)]
  rfl

theorem IsCanonical.position_succ_of_null (hcanonical : chunk.IsCanonical)
    (hcolumn : chunk.columns.get? index = some column) (hnull : chunk.nullBit index = true) :
    chunk.position (index + 1) = chunk.position index := by
  by_cases hfixed : index < chunk.columns.fixedCount
  · have hsucc : index + 1 ≤ chunk.columns.fixedCount := hfixed
    rw [position, position, if_pos hsucc, if_pos (Nat.le_of_lt hfixed), widthBefore_succ hcolumn,
      hnull]
    rfl
  · have hbehind := Nat.not_lt.mp hfixed
    have hsucc : chunk.columns.fixedCount ≤ index + 1 := Nat.le_add_right_of_le hbehind
    rw [hcanonical.position_of_ge hbehind, hcanonical.position_of_ge hsucc,
      varlensBefore_succ hbehind, hnull]
    rfl

theorem IsCanonical.columnSpan?_fixed (hcanonical : chunk.IsCanonical)
    (hcolumn : chunk.columns.get? index = some column) (hnull : chunk.nullBit index = false)
    {width : Nat} (hwidth : column.type.width? = some width) :
    chunk.columnSpan? index = some ⟨chunk.position index, chunk.position (index + 1)⟩ ∧
      chunk.position (index + 1) = chunk.position index + width := by
  have hfixed : index < chunk.columns.fixedCount := by
    apply (Columns.isFixedLength_iff hcolumn).mp
    rw [Column.isFixedLength, ← ColumnType.isSome_width?, hwidth]
    rfl
  have hsucc : index + 1 ≤ chunk.columns.fixedCount := hfixed
  have hnext : chunk.widthBefore (index + 1) = chunk.widthBefore index + width := by
    rw [widthBefore_succ hcolumn, hnull, hwidth]
    rfl
  have hinside : chunk.dataOffset + chunk.widthBefore index + width ≤ chunk.stop := by
    have hmono := @widthBefore_mono chunk (index + 1) chunk.columns.length
      (Columns.lt_length_of_get? hcolumn) (Nat.le_refl _)
    have hexact := hcanonical.fixed_exact
    have hboundary : chunk.boundary 0 ≤ chunk.length := hcanonical.boundary_le 0
    unfold boundary at hboundary
    unfold stop
    omega
  rw [position, position, if_pos hsucc, if_pos (Nat.le_of_lt hfixed), hnext, ← Nat.add_assoc]
  exact ⟨columnSpan?_of_width hcolumn hnull hwidth hinside, rfl⟩

theorem IsCanonical.varlensBefore_lt (hcanonical : chunk.IsCanonical)
    (hbehind : chunk.columns.fixedCount ≤ index) (hindex : index < chunk.columns.length)
    (hnull : chunk.nullBit index = false) : chunk.varlensBefore index < chunk.varlenCount := by
  have hmono := @varlensBefore_mono chunk (index + 1) chunk.columns.length hindex
  rw [varlensBefore_succ hbehind, hnull, ← hcanonical.count_exact] at hmono
  exact hmono

theorem IsCanonical.columnSpan?_varlen (hcanonical : chunk.IsCanonical)
    (hlocated : chunk.IsLocated) (hcolumn : chunk.columns.get? index = some column)
    (hnull : chunk.nullBit index = false) (hwidth : column.type.width? = none) :
    chunk.columnSpan? index = some ⟨chunk.position index, chunk.position (index + 1)⟩ ∧
      chunk.position index ≤ chunk.position (index + 1) ∧
      ∃ start, chunk.entryStart? (chunk.varlensBefore index) = some start ∧
        chunk.base + start = chunk.position index := by
  have hbehind : chunk.columns.fixedCount ≤ index := by
    apply Nat.not_lt.mp
    intro hfixed
    have hlength := (Columns.isFixedLength_iff hcolumn).mpr hfixed
    rw [Column.isFixedLength, ColumnType.width?_eq_none_iff.mp hwidth] at hlength
    contradiction
  have hsucc : chunk.columns.fixedCount ≤ index + 1 := Nat.le_add_right_of_le hbehind
  -- The count of the table is exact, so the column has an entry of its own.
  obtain ⟨start, hstart⟩ := hlocated.exists_entryStart
    (hcanonical.varlensBefore_lt hbehind (Columns.lt_length_of_get? hcolumn) hnull)
  have hboundary : chunk.boundary (chunk.varlensBefore index) = start := by
    rw [boundary, hstart]
    rfl
  have hle := hcanonical.le_boundary hstart
  have hend := hcanonical.boundary_le (chunk.varlensBefore index + 1)
  rw [hcanonical.position_of_ge hbehind, hcanonical.position_of_ge hsucc,
    varlensBefore_succ hbehind, hnull, hboundary, columnSpan?_of_varlen hcolumn hnull hwidth]
  exact ⟨entrySpan?_of_start hstart hle hend, Nat.add_le_add_left hle _, start, hstart, rfl⟩

theorem IsCanonical.position_le_stop (hcanonical : chunk.IsCanonical)
    (hindex : index ≤ chunk.columns.length) : chunk.position index ≤ chunk.stop := by
  unfold position
  split
  next =>
    have hmono := widthBefore_mono hindex (Nat.le_refl chunk.columns.length)
    have hexact := hcanonical.fixed_exact
    have hboundary : chunk.boundary 0 ≤ chunk.length := hcanonical.boundary_le 0
    unfold boundary at hboundary
    unfold stop
    omega
  next => exact Nat.add_le_add_left (hcanonical.boundary_le _) _

/-- A column that is not null lies between its position and the next. -/
theorem IsCanonical.columnSpan?_eq (hcanonical : chunk.IsCanonical) (hlocated : chunk.IsLocated)
    (hcolumn : chunk.columns.get? index = some column) (hnull : chunk.nullBit index = false) :
    chunk.columnSpan? index = some ⟨chunk.position index, chunk.position (index + 1)⟩ ∧
      chunk.position index ≤ chunk.position (index + 1) ∧
      ∀ width, column.type.width? = some width →
        chunk.position (index + 1) = chunk.position index + width := by
  cases hwidth : column.type.width? with
  | some width =>
      obtain ⟨hspan, hnext⟩ := hcanonical.columnSpan?_fixed hcolumn hnull hwidth
      refine ⟨hspan, by omega, ?_⟩
      rintro _ ⟨⟩
      exact hnext
  | none =>
      obtain ⟨hspan, hle, _⟩ := hcanonical.columnSpan?_varlen hlocated hcolumn hnull hwidth
      exact ⟨hspan, hle, nofun⟩

/-- The bytes between the position of a column and the next. -/
def slot (chunk : Chunk) (index : Nat) : List UInt8 :=
  (chunk.bytes.extract (chunk.position index) (chunk.position (index + 1))).toList

/-- A column of a canonical chunk has a datum, for which its slot stands. -/
structure Reads (chunk : Chunk) (index : Nat) (column : Column) (datum : Datum) : Prop where
  takes : column.Takes datum
  null_iff : chunk.nullBit index = true ↔ datum = .null
  stored : datum.stored column.type = chunk.slot index
  size : chunk.position (index + 1) =
    chunk.position index + (datum.stored column.type).length

theorem IsCanonical.length_slot (hcanonical : chunk.IsCanonical) (hlocated : chunk.IsLocated)
    (hindex : index < chunk.columns.length) :
    (chunk.slot index).length = chunk.position (index + 1) - chunk.position index := by
  have hstop := hcanonical.position_le_stop hindex
  have hsize := hlocated.stop_le
  rw [slot, Array.length_toList, Array.size_extract, Nat.min_eq_left (Nat.le_trans hstop hsize)]

theorem IsCanonical.exists_datum (hcanonical : chunk.IsCanonical) (hlocated : chunk.IsLocated)
    (hcolumn : chunk.columns.get? index = some column) :
    ∃ datum, chunk.datum? index = some datum ∧ chunk.Reads index column datum := by
  have hindex := Columns.lt_length_of_get? hcolumn
  have hisNull : chunk.isNull index = chunk.nullBit index := by
    rw [isNull, decide_eq_true hindex, Bool.true_and]
  have hlength := hcanonical.length_slot hlocated hindex
  -- A null has an empty slot. Any other datum is read from its slot, and stored there.
  cases hnull : chunk.nullBit index with
  | true =>
      have hsame := hcanonical.position_succ_of_null hcolumn hnull
      rw [hnull] at hisNull
      refine ⟨.null, by simp [datum?, hcolumn, hisNull],
        hcanonical.nulls_allowed index column hcolumn hisNull, iff_of_true hnull rfl, ?_, hsame⟩
      rw [hsame, Nat.sub_self] at hlength
      exact (List.length_eq_zero_iff.mp hlength).symm
  | false =>
      obtain ⟨hspan, hle, hwidth⟩ := hcanonical.columnSpan?_eq hlocated hcolumn hnull
      have hbytes : chunk.columnBytes? index =
          some (chunk.bytes.extract (chunk.position index) (chunk.position (index + 1))) := by
        rw [columnBytes?, hspan]
        rfl
      have hspans : column.type.Spans (chunk.slot index) := by
        intro width hsome
        have hnext := hwidth width hsome
        omega
      obtain ⟨datum, hread⟩ := Option.isSome_iff_exists.mp (ColumnType.isSome_read? hspans
        fun htext => hcanonical.texts_valid index column _ hcolumn htext hbytes)
      obtain ⟨htakes, hpresent, hstored⟩ := ColumnType.takes_of_read? hread
        fun bits htype => hcanonical.bits_declared index column bits _ hcolumn htype hbytes
      rw [hnull] at hisNull
      have hdatum : chunk.datum? index = column.type.read? (chunk.slot index) := by
        simp [datum?, hcolumn, hisNull, hbytes, slot]
      refine ⟨datum, hdatum.trans hread, htakes, iff_of_false (by simp [hnull]) hpresent,
        hstored, ?_⟩
      rw [hstored]
      omega

end Canonical

end Chunk

namespace Tuple

section Located

variable {schema : Schema} {bytes : Array UInt8} {tuple : Tuple}

/-- What opening a tuple has checked. -/
structure IsLocated (tuple : Tuple) (schema : Schema) (bytes : Array UInt8) : Prop where
  key : tuple.key.IsLocated
  value : tuple.value.IsLocated
  bytes_eq : tuple.bytes = bytes
  chunk_bytes : ∀ role, (tuple.chunk role).bytes = bytes
  columns : ∀ role, (tuple.chunk role).columns = schema.columns role
  key_base : tuple.key.base = Layout.headerSize
  value_base : tuple.value.base = tuple.key.stop
  value_stop : tuple.value.stop = bytes.size
  version : LittleEndian.read? Layout.versionWidth bytes 0 = some schema.version.toNat
  size : Layout.headerSize ≤ bytes.size

theorem isLocated_of_read (hread : read schema bytes = .ok tuple) :
    tuple.IsLocated schema bytes := by
  unfold read at hread
  split at hread
  next => contradiction
  next hsize =>
    split at hread
    next => contradiction
    next hversion =>
      cases hkey : Chunk.read bytes Layout.headerSize .key schema.key with
      | error error =>
          rw [hkey] at hread
          contradiction
      | ok key =>
          cases hvalue : Chunk.read bytes key.stop .value schema.value with
          | error error =>
              simp [hkey, hvalue, bind, Except.bind] at hread
          | ok value =>
              simp only [hkey, hvalue, bind, Except.bind] at hread
              split at hread
              next => contradiction
              next hstop =>
                obtain rfl := Except.ok.inj hread
                obtain ⟨hkeyLocated, hkeyBytes, hkeyBase, hkeyColumns⟩ := Chunk.read_eq_ok hkey
                obtain ⟨hvalueLocated, hvalueBytes, hvalueBase, hvalueColumns⟩ :=
                  Chunk.read_eq_ok hvalue
                refine ⟨hkeyLocated, hvalueLocated, rfl, ?_, ?_, hkeyBase, hvalueBase,
                  Decidable.not_not.mp hstop, Decidable.not_not.mp hversion, Nat.not_lt.mp hsize⟩
                · intro role
                  cases role with
                  | key => exact hkeyBytes
                  | value => exact hvalueBytes
                · intro role
                  cases role with
                  | key => exact hkeyColumns
                  | value => exact hvalueColumns

end Located

end Tuple

end PackedTuple
