import PackedTuple.Proofs.View.Reading

/-! # Opening the image of a draft

Where the image of a closed draft stands in a list of bytes, a chunk can be
opened, and it shows the draft. The bytes of a column are those of its field.
-/

namespace PackedTuple

namespace Chunk

section Opening

variable {bytes : Array UInt8} {before after : List UInt8} {draft : Draft} {columns : Columns}
  {role : ChunkRole}

/-- The chunk where the image of a draft stands. -/
def ofDraft (bytes : Array UInt8) (columns : Columns) (role : ChunkRole) (base : Nat)
    (draft : Draft) : Chunk :=
  ⟨bytes, columns, role, base, draft.length, draft.slots⟩

theorem read_eq_ofDraft (hbytes : bytes.toList = before ++ draft.image ++ after)
    (hclosed : draft.IsClosed) (hcolumns : columns.length = draft.columnCount) :
    read bytes before.length role columns =
      .ok (ofDraft bytes columns role before.length draft) := by
  have hlength := Draft.read?_stamp hbytes hclosed.length_le
  have hslots := Draft.read?_slots hbytes hclosed
  have hsize : before.length + draft.length ≤ bytes.size := by
    rw [← Array.length_toList, hbytes, List.length_append, List.length_append, Draft.image,
      Draft.length_bytes hclosed.isOpen.entries_le]
    exact Nat.le_add_right ..
  have hmap : columns.nullMapSize = BitSet.byteCount draft.columnCount := by
    rw [Columns.nullMapSize, hcolumns]
  have hheader : draft.dataStart ≤ draft.length := Nat.le_add_right ..
  rw [read, hlength, hslots, hmap]
  change (if draft.length < draft.dataStart then _ else _) = _
  rw [if_neg (Nat.not_lt.mpr hheader), if_neg (Nat.not_lt.mpr hsize)]
  rfl

theorem entryStart?_ofDraft (hbytes : bytes.toList = before ++ draft.image ++ after)
    (hclosed : draft.IsClosed) (entry : Nat) :
    (ofDraft bytes columns role before.length draft).entryStart? entry = draft.starts[entry]? := by
  have hcount := hclosed.entries_eq
  change (if entry < draft.slots then LittleEndian.read? Layout.fieldWidth bytes
    (before.length + Layout.chunkHeaderSize + Layout.tableSize entry) else none) = _
  split
  next hentry =>
    have hstart := List.getElem?_eq_getElem (hcount ▸ hentry)
    rw [hstart]
    exact Draft.read?_start hbytes hclosed hstart
  next hentry => rw [List.getElem?_eq_none (by omega)]

theorem nullBit_ofDraft (hbytes : bytes.toList = before ++ draft.image ++ after)
    (hclosed : draft.IsClosed) {index : Nat} (hindex : index < 8 * draft.nullMap.length) :
    (ofDraft bytes columns role before.length draft).nullBit index =
      BitSet.contains draft.nullMap index := by
  have hplace : index / 8 < draft.nullMap.length := by omega
  change bytes[before.length + Layout.chunkHeaderSize + Layout.tableSize draft.slots +
    index / 8]?.any _ = _
  rw [Draft.getElem?_nullMap hbytes hclosed.isOpen.entries_le hplace]
  rfl

/-- An opened image shows its draft. -/
theorem shows_ofDraft (hbytes : bytes.toList = before ++ draft.image ++ after)
    (hclosed : draft.IsClosed) (hcolumns : columns.length = draft.columnCount)
    (hfull : draft.fields.length = draft.columnCount)
    (hfits : ∀ {index column field}, columns.get? index = some column →
      draft.fields[index]? = some field → field.Fits column.type) :
    (ofDraft bytes columns role before.length draft).Shows draft where
  columnCount := hcolumns
  full := hfull
  fits := hfits
  varlenCount := rfl
  length := rfl
  closed := hclosed
  nullBit := by
    intro index hindex
    have hcover := BitSet.le_byteCount draft.columnCount
    rw [nullBit_ofDraft hbytes hclosed (by rw [Draft.length_nullMap]; omega), Draft.nullMap,
      BitSet.contains_pack, decide_eq_true hindex, Bool.true_and]
  entryStart? := entryStart?_ofDraft hbytes hclosed

/-- Between the positions of a column lie the bytes of its field. -/
theorem extract_position (hbytes : bytes.toList = before ++ draft.image ++ after)
    (hroom : draft.starts.length ≤ draft.slots) {index : Nat} {field : Field}
    (hfield : draft.fields[index]? = some field) :
    (bytes.extract (before.length + draft.position index)
      (before.length + draft.position (index + 1))).toList = field.bytes := by
  obtain ⟨hindex, hget⟩ := List.getElem?_eq_some_iff.mp hfield
  have hfields : draft.fields.flatMap Field.bytes =
      (draft.fields.take index).flatMap Field.bytes ++ field.bytes ++
        (draft.fields.drop (index + 1)).flatMap Field.bytes := by
    calc draft.fields.flatMap Field.bytes
        = (draft.fields.take index ++ draft.fields.drop index).flatMap Field.bytes := by
          rw [List.take_append_drop]
      _ = _ := by
          rw [List.drop_eq_getElem_cons hindex, hget, List.flatMap_append, List.flatMap_cons,
            List.append_assoc]
  have hsplit : bytes.toList = (before ++ draft.head ++
      (draft.fields.take index).flatMap Field.bytes) ++ field.bytes ++
      ((draft.fields.drop (index + 1)).flatMap Field.bytes ++ after) := by
    rw [hbytes, Draft.image_eq_head_append, hfields]
    simp only [List.append_assoc]
  apply extract_of_toList_eq hsplit
  · rw [List.length_append, List.length_append, Draft.length_head hroom,
      Field.length_flatMap_bytes, Draft.position, Nat.add_assoc]
  · rw [Draft.position_succ hfield, Nat.add_assoc]
    rfl

end Opening

end Chunk

end PackedTuple
