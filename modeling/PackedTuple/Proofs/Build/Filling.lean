import PackedTuple.Proofs.Buffer.Placement
import PackedTuple.Proofs.Build.Acceptance
import PackedTuple.Proofs.Build.Faults
import PackedTuple.Proofs.Encoding.Draft

/-! # Filling one chunk

The bytes of a builder follow the draft of the chunk it is in. Opening lays down
the draft without fields, writing a field gives the draft with the field, and
closing puts the length in front. Each succeeds exactly if the numbers that it
stores fit, and otherwise leaves the tuple half written.
-/

namespace PackedTuple

/-- The header of a tuple with a given key hash. -/
def Plan.header (plan : Plan) (hash : Nat) : List UInt8 :=
  LittleEndian.encode Layout.versionWidth plan.schema.version.toNat ++
    LittleEndian.encode Layout.keyHashWidth hash

/-- The key hash of a tuple with a given key chunk. -/
def Plan.hash (plan : Plan) (chunk : List UInt8) : Nat :=
  if plan.options.hashKey then (Checksum.crc32 chunk).toNat else 0

@[simp] theorem Plan.length_header (plan : Plan) (hash : Nat) :
    (plan.header hash).length = Layout.headerSize := by
  simp [header, Layout.headerSize]

namespace Builder

section Write

variable {builder : Builder} {before : List UInt8} {role : ChunkRole} {draft : Draft}

theorem byteAt_of_getElem? {buffer : Buffer} {offset : Nat} {byte : UInt8}
    (hbyte : buffer.bytes.toList[offset]? = some byte) : buffer.byteAt offset = byte := by
  rw [Buffer.byteAt, ← Array.getElem?_toList, hbyte, Option.getD_some]

/-- Setting a null bit gives the draft with a null. -/
theorem toList_setNull (hcursor : builder.cursor = draft.cursor role before.length)
    (hbytes : builder.buffer.bytes.toList = before ++ draft.bytes 0)
    (hroom : draft.starts.length ≤ draft.slots)
    (hcolumn : draft.fields.length < draft.columnCount) :
    (builder.setNull draft.fields.length).buffer.bytes.toList =
      before ++ (draft.add .null).bytes 0 := by
  obtain ⟨byte, hbyte, hnull⟩ := Draft.bytes_add_null hroom hcolumn 0
  have hoffset : builder.cursor.nullMapOffset + draft.fields.length / 8 = before.length +
      (Layout.chunkHeaderSize + Layout.tableSize draft.slots + draft.fields.length / 8) := by
    rw [hcursor]
    simp only [Cursor.nullMapOffset, Cursor.nullMapStart, Draft.cursor]
    omega
  have hplace : builder.buffer.bytes.toList[builder.cursor.nullMapOffset +
      draft.fields.length / 8]? = some byte := by
    rw [hbytes, hoffset, List.getElem?_append_right (Nat.le_add_right ..),
      Nat.add_sub_cancel_left, hbyte]
  have hinside : builder.cursor.nullMapOffset + draft.fields.length / 8 <
      builder.buffer.written := by
    rw [Buffer.written_eq_length]
    exact (List.getElem?_eq_some_iff.mp hplace).1
  rw [setNull, Buffer.toList_put_byte hinside, byteAt_of_getElem? hplace, hbytes, hoffset,
    List.set_append_right _ _ (Nat.le_add_right ..), Nat.add_sub_cancel_left, hnull]

/-- The written part ends where the cursor stands. -/
theorem written_eq_offset (hcursor : builder.cursor = draft.cursor role before.length)
    {stamp : Nat} (hbytes : builder.buffer.bytes.toList = before ++ draft.bytes stamp)
    (hroom : draft.starts.length ≤ draft.slots) :
    builder.buffer.written = builder.cursor.offset := by
  rw [Buffer.written_eq_length, hbytes, List.length_append, Draft.length_bytes hroom, hcursor]
  rfl

/-- Writing a table entry replaces the zeros in its place. -/
theorem writeEntry_ends {left right : List UInt8}
    (hbytes : builder.buffer.bytes.toList = left ++ [0, 0] ++ right)
    (hleft : left.length = builder.cursor.entryOffset builder.cursor.entry) :
    Ends writeEntry builder (builder.cursor.length ≤ Layout.fieldMax)
      (fun _ next => next.SamePlace builder ∧ next.buffer.bytes.toList =
        left ++ LittleEndian.encode Layout.fieldWidth builder.cursor.length ++ right)
      (fun error next => error = .chunkTooLarge builder.cursor.role builder.cursor.length ∧
        next = builder) := by
  by_cases hfits : builder.cursor.length ≤ Layout.fieldMax
  · have hrun : writeEntry.run builder = .ok () { builder with
        buffer := builder.buffer.put (builder.cursor.entryOffset builder.cursor.entry)
          (LittleEndian.encode Layout.fieldWidth builder.cursor.length) } := by
      simp [writeEntry, write, Nat.not_lt.mpr hfits]
    refine .of_ok hrun hfits ⟨⟨rfl, rfl, rfl⟩, ?_⟩
    exact Buffer.toList_put_inside hbytes hleft _ (LittleEndian.length_encode ..).symm
  · have hrun : writeEntry.run builder =
        .error (.chunkTooLarge builder.cursor.role builder.cursor.length) builder := by
      simp [writeEntry, Nat.not_le.mp hfits]
    exact .of_error hrun hfits ⟨rfl, rfl⟩

theorem writePayload_ends (hcursor : builder.cursor = draft.cursor role before.length)
    (hbytes : builder.buffer.bytes.toList = before ++ draft.bytes 0)
    (hroom : draft.starts.length ≤ draft.slots) (hentry : draft.starts.length < draft.slots)
    (payload : List UInt8) :
    Ends (writeField (.varlen payload)) builder (builder.cursor.length ≤ Layout.fieldMax)
      (fun _ next => next.SamePlace builder ∧
        next.buffer.bytes.toList = before ++ (draft.add (.varlen payload)).bytes 0)
      (fun error next => error = .chunkTooLarge role draft.length ∧
        before <+: next.buffer.bytes.toList) := by
  obtain ⟨left, right, hleft, hsplit, hadd⟩ := Draft.bytes_add_varlen hentry payload 0
  let middle : Builder :=
    { builder with buffer := builder.buffer.put builder.cursor.offset payload }
  have hrun : (writeField (.varlen payload)).run builder = writeEntry.run middle := rfl
  have hend : middle.buffer.bytes.toList = before ++ (draft.bytes 0 ++ payload) := by
    rw [Buffer.toList_put_end (written_eq_offset hcursor hbytes hroom), hbytes, List.append_assoc]
  have hput : middle.buffer.bytes.toList = (before ++ left) ++ [0, 0] ++ right := by
    rw [hend, hsplit]
    simp only [List.append_assoc]
  have hplace : (before ++ left).length = builder.cursor.entryOffset builder.cursor.entry := by
    rw [List.length_append, hleft, hcursor, ← Nat.add_assoc]
    rfl
  have hlength : builder.cursor.length = draft.length := by rw [hcursor]; rfl
  refine ((writeEntry_ends hput hplace).of_run_eq hrun).mono Iff.rfl ?_ ?_
  · rintro _ next _ ⟨hsame, hnext⟩
    change next.buffer.bytes.toList = before ++ left ++
      LittleEndian.encode Layout.fieldWidth builder.cursor.length ++ right at hnext
    refine ⟨⟨hsame.cursor, hsame.appended, hsame.complete⟩, ?_⟩
    rw [hnext, hadd, ← hlength]
    simp only [List.append_assoc]
  · rintro _ _ _ ⟨rfl, rfl⟩
    have hcause : middle.cursor = draft.cursor role before.length := hcursor
    rw [hcause, hend]
    exact ⟨rfl, List.prefix_append ..⟩

/-- Writing a field succeeds exactly if its start fits a table entry. -/
theorem writeField_ends (hcursor : builder.cursor = draft.cursor role before.length)
    (hbytes : builder.buffer.bytes.toList = before ++ draft.bytes 0)
    (hroom : draft.starts.length ≤ draft.slots)
    (hcolumn : draft.fields.length < draft.columnCount) (field : Field)
    (hentry : field.isVarlen = true → draft.starts.length < draft.slots) :
    Ends (writeField field) builder (field.isVarlen = true → draft.length ≤ Layout.fieldMax)
      (fun _ next => next.SamePlace builder ∧
        next.buffer.bytes.toList = before ++ (draft.add field).bytes 0)
      (fun error next => error = .chunkTooLarge role draft.length ∧
        before <+: next.buffer.bytes.toList) := by
  have hwritten := written_eq_offset hcursor hbytes hroom
  cases field with
  | null =>
      refine .of_ok rfl nofun ⟨⟨rfl, rfl, rfl⟩, ?_⟩
      have hplace : builder.cursor.column = draft.fields.length := by rw [hcursor]; rfl
      change (builder.setNull builder.cursor.column).buffer.bytes.toList = _
      rw [hplace]
      exact toList_setNull hcursor hbytes hroom hcolumn
  | fixed pieces =>
      refine .of_ok rfl nofun ⟨⟨rfl, rfl, rfl⟩, ?_⟩
      rw [Draft.bytes_add_fixed, ← List.append_assoc, ← hbytes]
      exact Buffer.toList_putPieces_end hwritten pieces
  | varlen payload =>
      have hlength : builder.cursor.length = draft.length := by rw [hcursor]; rfl
      apply (writePayload_ends hcursor hbytes hroom (hentry rfl) payload).mono
      · rw [hlength]
        exact forall_prop_of_true rfl
      · intro _ _ _ hnext
        exact hnext
      · intro _ _ _ hleft
        exact hleft

end Write

/-! ## Opening and closing -/

/-- The builder is filling the chunk behind `before`. Of a chunk without columns
but with table entries the table was never written; it cannot be closed. -/
structure Fills (before : List UInt8) (role : ChunkRole) (draft : Draft) (builder : Builder) :
    Prop where
  cursor : builder.cursor = draft.cursor role before.length
  front : before <+: builder.buffer.bytes.toList
  bytes : (draft.columnCount = 0 → draft.slots = 0) →
    builder.buffer.bytes.toList = before ++ draft.bytes 0

section Chunk

variable {plan : Plan} {builder : Builder} {before : List UInt8} {role : ChunkRole} {draft : Draft}

/-- Length and count at the end of the written part, then zeros over the null map:
the table in between is left as a gap. -/
theorem exists_toList_opened {buffer : Buffer} {base : Nat} (columnCount slots : Nat)
    (hbase : buffer.written = base) :
    ∃ rest, (((buffer.put base (LittleEndian.encode 2 0)).put (base + 2)
      (LittleEndian.encode 2 slots)).putZeros (base + (4 + Layout.tableSize slots))
        (BitSet.byteCount columnCount)).bytes.toList = buffer.bytes.toList ++ rest ∧
      ((columnCount = 0 → slots = 0) → rest = (Draft.opened columnCount slots).bytes 0) := by
  have hfirst := Buffer.toList_put_end hbase (LittleEndian.encode 2 0)
  have hnext : (buffer.put base (LittleEndian.encode 2 0)).written = base + 2 := by
    rw [Buffer.written_eq_length, hfirst, List.length_append, ← Buffer.written_eq_length, hbase,
      LittleEndian.length_encode]
  have hsecond := Buffer.toList_put_end hnext (LittleEndian.encode 2 slots)
  have hlast : ((buffer.put base (LittleEndian.encode 2 0)).put (base + 2)
      (LittleEndian.encode 2 slots)).written = base + 4 := by
    rw [Buffer.written_eq_length, hsecond, List.length_append, ← Buffer.written_eq_length, hnext,
      LittleEndian.length_encode]
  rw [hfirst, List.append_assoc] at hsecond
  rw [Draft.bytes_opened]
  -- Only the null map is written, and what it skips is zero. Where there are no columns
  -- nothing is written behind the count, so the table has to be empty.
  rcases Nat.eq_zero_or_pos columnCount with hzero | hpos
  · subst hzero
    refine ⟨_, hsecond, fun hcolumns => ?_⟩
    rw [hcolumns rfl]
    exact (List.append_nil _).symm
  · have hcount : 0 < BitSet.byteCount columnCount := by
      unfold BitSet.byteCount
      omega
    have hgap : base + (4 + Layout.tableSize slots) + BitSet.byteCount columnCount - (base + 4) =
        Layout.tableSize slots + BitSet.byteCount columnCount := by omega
    refine ⟨_, ?_, fun _ => rfl⟩
    rw [Buffer.toList_putZeros_behind (by omega) hcount, hlast, hgap, hsecond, List.append_assoc]
    rfl

/-- Opening a chunk at the end of the written part lays down a draft without fields. -/
theorem openChunk_ends {columnCount slots : Nat}
    (hcursor : builder.cursor = (Draft.opened columnCount slots).cursor role before.length)
    (hbytes : builder.buffer.bytes.toList = before) :
    Ends openChunk builder (Draft.opened columnCount slots).IsOpen
      (fun _ next => next.SamePlace builder ∧ Fills before role (.opened columnCount slots) next)
      (fun error next => error = .chunkTooLarge role
        (Layout.chunkHeaderSize + Layout.tableSize slots) ∧ next = builder) := by
  have hslots : builder.cursor.slots = slots := by rw [hcursor]; rfl
  have hbase : builder.buffer.written = builder.cursor.base := by
    rw [Buffer.written_eq_length, hbytes, hcursor]
    rfl
  have hmap : builder.cursor.nullMapOffset =
      builder.cursor.base + (4 + Layout.tableSize slots) := by rw [hcursor]; rfl
  have hcount : builder.cursor.length - builder.cursor.nullMapStart =
      BitSet.byteCount columnCount := by
    rw [hcursor, Draft.cursor_opened]
    exact Nat.add_sub_cancel_left ..
  rw [Draft.isOpen_opened_iff]
  by_cases hfits : slots ≤ Layout.fieldMax
  · have hrun : openChunk.run builder = .ok () { builder with
        buffer := (((builder.buffer.put builder.cursor.base (LittleEndian.encode 2 0)).put
          (builder.cursor.base + 2) (LittleEndian.encode 2 slots)).putZeros
            (builder.cursor.base + (4 + Layout.tableSize slots))
              (BitSet.byteCount columnCount)) } := by
      simp [openChunk, write, hslots, hmap, hcount, Nat.not_lt.mpr hfits, Layout.fieldWidth]
    obtain ⟨rest, hopened, hrest⟩ := exists_toList_opened columnCount slots hbase
    rw [hbytes] at hopened
    refine .of_ok hrun hfits ⟨⟨rfl, rfl, rfl⟩, hcursor, ⟨rest, hopened.symm⟩, fun hcolumns => ?_⟩
    rw [← hrest hcolumns]
    exact hopened
  · have hrun : openChunk.run builder =
        .error (.chunkTooLarge builder.cursor.role builder.cursor.nullMapStart) builder := by
      simp [openChunk, hslots, Nat.not_le.mp hfits]
    rw [hcursor] at hrun
    exact .of_error hrun hfits ⟨rfl, rfl⟩

theorem Fills.toList_put_length (hfills : Fills before role draft builder)
    (hclosed : draft.IsClosed) (hcount : draft.fields.length ≤ draft.columnCount) :
    (builder.buffer.put builder.cursor.base
      (LittleEndian.encode Layout.fieldWidth builder.cursor.length)).bytes.toList =
        before ++ draft.image := by
  have hentries := draft.length_starts_le
  have hslots := hclosed.entries_eq
  have hbytes := hfills.bytes (by omega)
  rw [Draft.bytes, ← List.append_assoc] at hbytes
  have hput := Buffer.toList_put_inside hbytes rfl
    (LittleEndian.encode Layout.fieldWidth draft.length) (by simp)
  rw [hfills.cursor, Draft.image, Draft.bytes, ← List.append_assoc]
  exact hput

/-- The hash goes into the header and nowhere else. -/
theorem toList_put_hash {buffer : Buffer} {image : List UInt8}
    (hbytes : buffer.bytes.toList = plan.header 0 ++ image) (hash : Nat) :
    (buffer.put Layout.versionWidth (LittleEndian.encode Layout.keyHashWidth hash)).bytes.toList =
      plan.header hash ++ image :=
  Buffer.toList_put_inside hbytes (LittleEndian.length_encode ..) _ (by simp)

/-- Closing a closed draft puts the length in front of the chunk, and behind a key chunk
the hash into the header. -/
theorem Fills.run_closeChunk (hfills : Fills before role draft builder) (hclosed : draft.IsClosed)
    (hcount : draft.fields.length ≤ draft.columnCount)
    (hheader : role = .key → before = plan.header 0) :
    ∃ buffer, (closeChunk plan).run builder = .ok () { builder with buffer := buffer } ∧
      buffer.bytes.toList =
        (if role = .key then plan.header (plan.hash draft.image) else before) ++ draft.image := by
  have hentry : builder.cursor.entry = draft.starts.length := by rw [hfills.cursor]; rfl
  have hslots : builder.cursor.slots = draft.slots := by rw [hfills.cursor]; rfl
  have hlength : builder.cursor.length = draft.length := by rw [hfills.cursor]; rfl
  have hrole : builder.cursor.role = role := by rw [hfills.cursor]; rfl
  have hfull := hclosed.entries_eq
  have hfits := Nat.not_lt.mpr hclosed.length_le
  have hstamped := hfills.toList_put_length hclosed hcount
  rw [hlength] at hstamped
  by_cases hhash : role = .key ∧ plan.options.hashKey = true
  · -- The hash is taken of the buffer, after the length was put there.
    have hchunk : ((builder.buffer.put builder.cursor.base
        (LittleEndian.encode Layout.fieldWidth draft.length)).bytes.extract
          builder.cursor.base builder.cursor.offset).toList = draft.image := by
      refine extract_of_toList_eq (hstamped.trans (List.append_nil _).symm) ?_ ?_
      · rw [hfills.cursor]
        rfl
      · rw [Draft.image, Draft.length_bytes hclosed.isOpen.entries_le, hfills.cursor]
        rfl
    refine ⟨(builder.buffer.put builder.cursor.base
      (LittleEndian.encode Layout.fieldWidth draft.length)).put Layout.versionWidth
        (LittleEndian.encode Layout.keyHashWidth (plan.hash draft.image)), ?_, ?_⟩
    · simp [closeChunk, write, hentry, hslots, hlength, hfull, hrole, hhash, hchunk, Plan.hash,
        hfits, -Array.toList_extract]
    · rw [hheader hhash.1] at hstamped
      rw [if_pos hhash.1]
      exact toList_put_hash hstamped _
  · refine ⟨builder.buffer.put builder.cursor.base
      (LittleEndian.encode Layout.fieldWidth draft.length), ?_, ?_⟩
    · simp [closeChunk, write, hentry, hslots, hlength, hfull, hrole, hhash, hfits]
    · rw [hstamped]
      by_cases hkey : role = .key
      · have hplain : plan.hash draft.image = 0 := if_neg fun hoption => hhash ⟨hkey, hoption⟩
        rw [if_pos hkey, hplain, ← hheader hkey]
      · rw [if_neg hkey]

/-- Closing a chunk succeeds exactly if all announced entries are in use and the
length fits. -/
theorem closeChunk_ends (hfills : Fills before role draft builder)
    (hroom : draft.starts.length ≤ draft.slots)
    (hcount : draft.fields.length ≤ draft.columnCount)
    (hheader : role = .key → before = plan.header 0) :
    Ends (closeChunk plan) builder draft.IsClosed
      (fun _ next => next.SamePlace builder ∧ next.buffer.bytes.toList =
        (if role = .key then plan.header (plan.hash draft.image) else before) ++ draft.image)
      (fun error next => draft.Unclosable role error ∧ next = builder) := by
  have hentry : builder.cursor.entry = draft.starts.length := by rw [hfills.cursor]; rfl
  have hslots : builder.cursor.slots = draft.slots := by rw [hfills.cursor]; rfl
  have hlength : builder.cursor.length = draft.length := by rw [hfills.cursor]; rfl
  have hrole : builder.cursor.role = role := by rw [hfills.cursor]; rfl
  by_cases hfull : draft.starts.length = draft.slots
  · by_cases hfits : draft.length ≤ Layout.fieldMax
    · obtain ⟨buffer, hrun, hbytes⟩ := hfills.run_closeChunk ⟨hfull, hfits⟩ hcount hheader
      exact .of_ok hrun ⟨hfull, hfits⟩ ⟨⟨rfl, rfl, rfl⟩, hbytes⟩
    · have hrun : (closeChunk plan).run builder =
          .error (.chunkTooLarge role draft.length) builder := by
        simp [closeChunk, hentry, hslots, hlength, hrole, hfull, Nat.not_le.mp hfits]
      have hlong := Nat.not_le.mp hfits
      exact .of_error hrun (fun hclosed => hfits hclosed.length_le) ⟨.long hfull hlong, rfl⟩
  · have hrun : (closeChunk plan).run builder =
        .error (.varlenCount role draft.slots draft.starts.length) builder := by
      simp [closeChunk, hentry, hslots, hrole, hfull]
    have hmissing := Nat.lt_of_le_of_ne hroom hfull
    exact .of_error hrun (fun hclosed => hfull hclosed.entries_eq) ⟨.missing hmissing, rfl⟩

end Chunk

end Builder

end PackedTuple
