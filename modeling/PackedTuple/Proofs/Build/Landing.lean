import PackedTuple.Proofs.Build.Patches
import PackedTuple.Proofs.Text.Spelling

/-! # Where a datum lands

An append lands its datum and then closes the chunks that are full. Landing accepts the
datum, writes its field at the cursor and moves the cursor on, by as many bytes as stand
for the datum. Closing leaves those bytes and the end of the chunk where they are, also
if the cursor goes on to the next chunk.
-/

namespace PackedTuple

/-- Where the chunk of a role ends so far: at the cursor as long as it stands in this chunk, and
at the start of the next chunk once the cursor has gone on. -/
def Cursor.reach (cursor : Cursor) (role : ChunkRole) : Nat :=
  if cursor.role = role then cursor.offset else cursor.base

@[simp] theorem Cursor.reach_role (cursor : Cursor) :
    cursor.reach cursor.role = cursor.offset :=
  if_pos rfl

theorem Cursor.reach_le_offset (cursor : Cursor) (role : ChunkRole) :
    cursor.reach role ≤ cursor.offset := by
  unfold reach
  split
  · exact Nat.le_refl _
  · exact Nat.le_add_right ..

namespace Builder

/-- An append without the closing of full chunks. -/
def land (plan : Plan) (datum : Datum) : BuildM Unit := do
  let field ← accept plan datum
  writeField field
  modify fun builder =>
    { builder with
      cursor := builder.cursor.advance field.size field.isVarlen
      appended := builder.appended + 1 }

theorem append_eq_land (plan : Plan) (datum : Datum) :
    append plan datum = (do land plan datum; settle plan) := by
  simp only [append, place, land, bind_assoc]

/-- The datum stands at the end of the tuple, for the column that was next, and the cursor
stands behind it in the same chunk. -/
structure Landed (plan : Plan) (datum : Datum) (column : Column) (builder landed : Builder) :
    Prop where
  next : (plan.schema.columns builder.cursor.role).get? builder.cursor.column = some column
  takes : column.Takes datum
  cursor : landed.cursor =
    builder.cursor.advance (datum.stored column.type).length datum.isVarlen
  written : landed.buffer.written = landed.cursor.offset
  byteAt : ∀ place (hplace : place < (datum.stored column.type).length),
    landed.buffer.byteAt (builder.cursor.offset + place) = (datum.stored column.type)[place]

section Land

variable {plan : Plan} {data : List Datum} {datum : Datum} {column : Column}
  {builder landed next : Builder}

theorem exists_landed_of_append (happend : (append plan datum).run builder = .ok () next) :
    ∃ landed, (land plan datum).run builder = .ok () landed ∧
      (settle plan).run landed = .ok () next := by
  rw [append_eq_land] at happend
  obtain ⟨_, landed, hland, hsettle⟩ := exists_of_run_bind happend
  exact ⟨landed, hland, hsettle⟩

theorem byteAt_of_toList_append {buffer : Buffer} {before bytes : List UInt8}
    (hbytes : buffer.bytes.toList = before ++ bytes) {place : Nat} (hplace : place < bytes.length) :
    buffer.byteAt (before.length + place) = bytes[place] := by
  apply byteAt_of_getElem?
  rw [hbytes, List.getElem?_append_right (Nat.le_add_right ..), Nat.add_sub_cancel_left,
    List.getElem?_eq_getElem hplace]

theorem buffer_of_writeEntry (hrun : writeEntry.run builder = .ok () next) :
    next.buffer = builder.buffer.put (builder.cursor.entryOffset builder.cursor.entry)
      (LittleEndian.encode Layout.fieldWidth builder.cursor.length) := by
  by_cases hfar : Layout.fieldMax < builder.cursor.length
  · simp [writeEntry, hfar] at hrun
  · simp only [writeEntry, write, hfar, EStateM.run_bind, EStateM.run_get, EStateM.run_modify,
      if_false, EStateM.Result.ok.injEq, true_and] at hrun
    rw [← hrun]

/-- Writing a field puts its bytes behind all that is written, and patches one place in front of
them at most: a null bit or a table entry. -/
theorem exists_filled_of_writeField {field : Field}
    (hwritten : builder.buffer.written = builder.cursor.offset)
    (hnull : field = .null →
      builder.cursor.nullMapOffset + builder.cursor.column / 8 < builder.cursor.offset)
    (hentry : field.isVarlen = true →
      builder.cursor.entryOffset builder.cursor.entry + 2 ≤ builder.cursor.offset)
    (hwrite : (writeField field).run builder = .ok () next) :
    ∃ (filled : Buffer) (place : Nat) (patch : List UInt8),
      filled.bytes.toList = builder.buffer.bytes.toList ++ field.bytes ∧
        next.buffer = filled.put place patch ∧
          place + patch.length ≤ builder.cursor.offset := by
  cases field with
  | null =>
      obtain ⟨⟩ := hwrite
      exact ⟨builder.buffer, _, [_], (List.append_nil _).symm, rfl, hnull rfl⟩
  | fixed pieces =>
      obtain ⟨⟩ := hwrite
      exact ⟨_, 0, [], Buffer.toList_putPieces_end hwritten pieces, rfl, Nat.zero_le _⟩
  | varlen payload =>
      have hrun : writeEntry.run { builder with
          buffer := builder.buffer.put builder.cursor.offset payload } = .ok () next := hwrite
      refine ⟨_, _, _, Buffer.toList_put_end hwritten payload, buffer_of_writeEntry hrun, ?_⟩
      rw [LittleEndian.length_encode]
      exact hentry rfl

theorem Consistent.nullBit_lt_offset (hconsistent : Consistent plan data builder)
    (hcomplete : builder.complete = false) :
    builder.cursor.nullMapOffset + builder.cursor.column / 8 < builder.cursor.offset := by
  have hindex := hconsistent.column_lt hcomplete
  have hmap := BitSet.le_byteCount builder.cursor.columnCount
  rw [hconsistent.offset, Cursor.nullMapOffset_eq]
  omega

theorem Consistent.entry_le_offset (hconsistent : Consistent plan data builder)
    (hroom : builder.cursor.entry < builder.cursor.slots) :
    builder.cursor.entryOffset builder.cursor.entry + 2 ≤ builder.cursor.offset := by
  rw [hconsistent.offset, Cursor.entryOffset_eq]
  omega

theorem Reachable.exists_landed (hreach : Reachable plan data builder)
    (hland : (land plan datum).run builder = .ok () landed) :
    ∃ column, Landed plan datum column builder landed := by
  obtain ⟨field, accepted, haccept, hland⟩ := exists_of_run_bind hland
  obtain ⟨hcomplete, column, hcolumn, htakes, hroom, rfl, hsame⟩ :=
    exists_column_of_accept hreach haccept
  obtain ⟨_, written, hwrite, ⟨⟩⟩ := exists_of_run_bind hland
  have hconsistent := hreach.consistent
  have hcursor := (writeField_changes _ _ _ hwrite).cursor
  have hentry : (datum.field column.type).isVarlen = true →
      builder.cursor.entryOffset builder.cursor.entry + 2 ≤ builder.cursor.offset := by
    rw [Datum.isVarlen_field_eq]
    exact fun hvarlen => hconsistent.entry_le_offset (hroom hvarlen)
  -- What is patched lies in front of the datum, so neither its bytes nor the end move with it.
  obtain ⟨filled, spot, patch, hfilled, hpatched, hspot⟩ := exists_filled_of_writeField
    (by rw [hsame.buffer, hsame.cursor, hconsistent.written])
    (fun _ => hsame.cursor ▸ hconsistent.nullBit_lt_offset hcomplete)
    (hsame.cursor ▸ hentry) hwrite
  rw [hsame.buffer, Datum.bytes_field htakes] at hfilled
  rw [hsame.cursor] at hcursor hspot
  have hlength := hconsistent.written
  rw [Buffer.written_eq_length] at hlength
  refine ⟨column, hcolumn, htakes, ?_, ?_, ?_⟩
  · dsimp only
    rw [hcursor, Datum.size_field htakes, Datum.isVarlen_field_eq]
  · have hend : filled.written = builder.cursor.offset + (datum.stored column.type).length := by
      rw [Buffer.written_eq_length, hfilled, List.length_append, hlength]
    dsimp only
    rw [hcursor, Cursor.offset_advance, Datum.size_field htakes, hpatched, Buffer.written_put, hend]
    split
    · rfl
    · omega
  · intro place hplace
    dsimp only
    rw [hpatched, Buffer.byteAt_put, if_neg (by omega), ← hlength]
    exact byteAt_of_toList_append hfilled hplace

theorem Reachable.landed_of_land (hreach : Reachable plan data builder)
    (hcolumn : (plan.schema.columns builder.cursor.role).get? builder.cursor.column = some column)
    (hland : (land plan datum).run builder = .ok () landed) :
    Landed plan datum column builder landed := by
  obtain ⟨other, hlanded⟩ := hreach.exists_landed hland
  obtain rfl := Option.some.inj (hlanded.next.symm.trans hcolumn)
  exact hlanded

/-! ## Closing behind the datum -/

/-- A round moves the end of no chunk but the one that it opens. -/
theorem reach_of_closeFullChunk {role : ChunkRole}
    (hrole : builder.cursor.role = .key → role = .key)
    (hrun : (closeFullChunk plan).run builder = .ok () next) :
    next.cursor.reach role = builder.cursor.reach role ∧
      (next.cursor.role = .key → role = .key) := by
  rcases sameBut_of_closeFullChunk hrun with
    rfl | ⟨-, -, ⟨-, hcursor⟩ | ⟨hkey, hvalue, hbase⟩⟩
  · exact ⟨rfl, hrole⟩
  · rw [hcursor]
    exact ⟨rfl, hrole⟩
  · obtain rfl := hrole hkey
    simp [Cursor.reach, hkey, hvalue, hbase]

theorem reach_of_settle (hrun : (settle plan).run builder = .ok () next) :
    next.cursor.reach builder.cursor.role = builder.cursor.offset := by
  obtain ⟨_, middle, hfirst, hsecond⟩ := exists_of_run_bind hrun
  obtain ⟨hmiddle, hrole⟩ := reach_of_closeFullChunk id hfirst
  rw [(reach_of_closeFullChunk hrole hsecond).1, hmiddle, Cursor.reach_role]

/-- An append makes its chunk longer by what stands for the datum, whether or not it fills it. -/
theorem Landed.reach_of_settle (hlanded : Landed plan datum column builder landed)
    (hsettle : (settle plan).run landed = .ok () next) :
    next.cursor.reach builder.cursor.role =
      builder.cursor.offset + (datum.stored column.type).length := by
  have hreach := Builder.reach_of_settle hsettle
  rw [hlanded.cursor, Cursor.offset_advance] at hreach
  exact hreach

/-- What is stamped on closing lies in front of the datum, so its bytes stay. -/
theorem Landed.byteAt_of_settle (hlanded : Landed plan datum column builder landed)
    (hconsistent : Consistent plan data builder)
    (hsettle : (settle plan).run landed = .ok () next) (place : Nat)
    (hplace : place < (datum.stored column.type).length) :
    next.buffer.byteAt (builder.cursor.offset + place) = (datum.stored column.type)[place] := by
  have hbase := hconsistent.headerSize_le_base
  have hoffset := hconsistent.offset
  have hkept := sameBut_of_settle hsettle (builder.cursor.offset + place)
  rw [hlanded.cursor, Cursor.offset_advance] at hkept
  rw [hkept, hlanded.byteAt place hplace]
  rintro (hbehind | ⟨-, ⟨-, hlength⟩ | ⟨-, -, -, hhash⟩⟩)
  · omega
  · change _ < builder.cursor.base + 2 at hlength
    omega
  · omega

end Land

/-! ## Text in UTF-16 -/

theorem predictedLength_of_transcode {transcoder : Transcoder} {units : List UInt16}
    {bytes : List UInt8} (hbytes : (transcoder.transcode units).1 = .ok bytes) :
    Utf16.predictedLength units = bytes.length := by
  obtain ⟨text, htext, rfl⟩ := Transcoder.transcode_eq_ok_iff.mp hbytes
  exact Utf16.predictedLength_of_toString? (Utf16.toString?_eq_some_iff.mpr htext)

/-- The length predicted for units is the number of bytes that they are transcoded to, whatever
the transcoder was used for before. So the cursor moves on by the predicted length when units
are appended, and their chunk ends there also if it is closed behind them. -/
theorem predictedLength_exact :
    (∀ (transcoder : Transcoder) (units : List UInt16) (bytes : List UInt8),
      (transcoder.transcode units).1 = .ok bytes → Utf16.predictedLength units = bytes.length) ∧
    ∀ (plan : Plan) (data : List Datum) (builder : Builder) (units : List UInt16),
      Reachable plan data builder →
        (∀ landed, (land plan (.utf16 units)).run builder = .ok () landed →
          landed.cursor.offset = builder.cursor.offset + Utf16.predictedLength units) ∧
        ∀ next, (append plan (.utf16 units)).run builder = .ok () next →
          (∃ landed, (land plan (.utf16 units)).run builder = .ok () landed ∧
            (settle plan).run landed = .ok () next) ∧
          next.cursor.reach builder.cursor.role =
            builder.cursor.offset + Utf16.predictedLength units := by
  refine ⟨fun _ _ _ hbytes => predictedLength_of_transcode hbytes, ?_⟩
  intro plan data builder units hreach
  refine ⟨?_, ?_⟩
  · intro landed hland
    obtain ⟨column, hlanded⟩ := hreach.exists_landed hland
    rw [hlanded.cursor, Cursor.offset_advance, Datum.length_stored_utf16 hlanded.takes]
  · intro next happend
    obtain ⟨landed, hland, hsettle⟩ := exists_landed_of_append happend
    obtain ⟨column, hlanded⟩ := hreach.exists_landed hland
    refine ⟨⟨landed, hland, hsettle⟩, ?_⟩
    rw [hlanded.reach_of_settle hsettle, Datum.length_stored_utf16 hlanded.takes]

end Builder

/-- A customer whose email is of a letter and a symbol, which take three units and six bytes. -/
def Customers.abroad : List Datum :=
  data.set 4 (.utf16 [0xE9, 0xD83D, 0xDE00])

namespace Builder

theorem predictedLength_abroad :
    ∃ builder next, Reachable Customers.plan (Customers.abroad.take 4) builder ∧
      (append Customers.plan (.utf16 [0xE9, 0xD83D, 0xDE00])).run builder = .ok () next ∧
      next.cursor.reach builder.cursor.role = builder.cursor.offset + 6 := by
  obtain ⟨bytes, hbytes⟩ := Option.isSome_iff_exists.mp
    (show (build Customers.plan Customers.abroad).toOption.isSome = true by decide +kernel)
  obtain ⟨hbuffer, hadmits, _⟩ := buildIn_eq_ok_iff.mp (buildIn_eq_ok_of_toOption hbytes)
  obtain ⟨builder, hfill⟩ := exists_fill hbuffer (hadmits.take 4)
  have hreach := reachable_of_fill hfill
  obtain ⟨next, happend⟩ := hreach.exists_append (hadmits.take 5)
  obtain ⟨-, hend⟩ := (predictedLength_exact.2 _ _ _ _ hreach).2 next happend
  rw [predictedLength_exact.1 .empty _ [0xC3, 0xA9, 0xF0, 0x9F, 0x98, 0x80] rfl] at hend
  exact ⟨builder, next, hreach, happend, hend⟩

end Builder

end PackedTuple
