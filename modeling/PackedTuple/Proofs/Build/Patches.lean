import PackedTuple.Proofs.Build.Consistency

/-! # Which bytes an append changes

An append writes its value at the end of the tuple. In front of it, it patches what
it has learned: a table entry, a null bit, and when it fills a chunk the length of
that chunk and the key hash. Each operation is said to change some bytes at most;
what an append changes is put together from there. The places patched lie apart from
one another and from all data, so whatever was patched before stays.
-/

namespace PackedTuple

/-- The buffers hold the same bytes except where the predicate allows for a change. -/
def Buffer.SameBut (changed : Nat → Prop) (before after : Buffer) : Prop :=
  ∀ index, ¬changed index → after.byteAt index = before.byteAt index

namespace Buffer.SameBut

variable {changed allowed : Nat → Prop} {first second third : Buffer}

theorem rfl : SameBut changed first first :=
  fun _ _ => Eq.refl _

theorem trans (hfirst : SameBut changed first second) (hsecond : SameBut changed second third) :
    SameBut changed first third :=
  fun index hindex => (hsecond index hindex).trans (hfirst index hindex)

theorem mono (hsame : SameBut changed first second)
    (hallowed : ∀ index, changed index → allowed index) : SameBut allowed first second :=
  fun index hindex => hsame index (mt (hallowed index) hindex)

/-- A write changes what it covers. -/
theorem put (buffer : Buffer) (offset : Nat) (data : List UInt8) :
    SameBut (fun index => offset ≤ index ∧ index < offset + data.length) buffer
      (buffer.put offset data) := by
  intro index hindex
  rw [byteAt_put, if_neg hindex]

/-- Pieces written one behind the other change nothing in front of the first. -/
theorem putPieces (buffer : Buffer) (offset : Nat) (pieces : List (List UInt8)) :
    SameBut (offset ≤ ·) buffer (buffer.putPieces offset pieces) := by
  induction pieces generalizing buffer offset with
  | nil => exact rfl
  | cons piece rest ih =>
      have hfirst := (put buffer offset piece).mono fun _ hcovered => hcovered.1
      refine hfirst.trans ((ih (buffer.put offset piece) (offset + piece.length)).mono ?_)
      intro index hindex
      omega

end Buffer.SameBut

/-- Whether a datum takes an entry of the table: text and byte strings do. -/
def Datum.isVarlen (datum : Datum) : Bool :=
  datum.kind?.any (!·.isFixedLength)

theorem Datum.isVarlen_field_eq (type : ColumnType) (datum : Datum) :
    (datum.field type).isVarlen = datum.isVarlen := by
  cases datum <;> rfl

namespace Builder

/-- The builder is left at the same place of its tuple, and with the same bytes except where
the predicate allows for a change. -/
structure Rewrites (changed : Nat → Prop) (builder next : Builder) : Prop
    extends SamePlace next builder where
  bytes : builder.buffer.SameBut changed next.buffer

/-- Where the program succeeds, it rewrites the tuple in places that the predicate marks. -/
def Changes {α : Type} (changed : Nat → Prop) (program : BuildM α) (builder : Builder) : Prop :=
  ∀ value next, program.run builder = .ok value next → Rewrites changed builder next

section Changes

variable {α β : Type} {changed : Nat → Prop} {program : BuildM α} {builder : Builder}

theorem Changes.pure (value : α) : Changes changed (pure value : BuildM α) builder := by
  rintro _ _ ⟨⟩
  exact ⟨.rfl, .rfl⟩

theorem Changes.bind {rest : α → BuildM β} (hfirst : Changes changed program builder)
    (hrest : ∀ value middle, Rewrites changed builder middle →
      Changes changed (rest value) middle) :
    Changes changed (program >>= rest) builder := by
  intro result next hrun
  obtain ⟨value, middle, hmiddle, hnext⟩ := exists_of_run_bind hrun
  have hbefore := hfirst value middle hmiddle
  have hafter := hrest value middle hbefore result next hnext
  exact ⟨⟨hafter.cursor.trans hbefore.cursor, hafter.appended.trans hbefore.appended,
    hafter.complete.trans hbefore.complete⟩, hbefore.bytes.trans hafter.bytes⟩

theorem Changes.get {rest : Builder → BuildM α} (hrest : Changes changed (rest builder) builder) :
    Changes changed (get >>= rest) builder :=
  hrest

/-- An error raised early leaves nothing to be said. -/
theorem Changes.guard {condition : Prop} [Decidable condition] {error : BuildError}
    {rest : Unit → BuildM α} (hrest : Changes changed (rest ()) builder) :
    Changes changed (if condition then throw error >>= rest else rest ()) builder := by
  split
  · intro _ _ hrun
    contradiction
  · exact hrest

theorem Changes.modify (change : Buffer → Buffer)
    (hchange : builder.buffer.SameBut changed (change builder.buffer)) :
    Changes changed (modify fun current => { current with buffer := change current.buffer })
      builder := by
  rintro _ _ ⟨⟩
  exact ⟨⟨rfl, rfl, rfl⟩, hchange⟩

theorem Changes.write {offset : Nat} {data : List UInt8}
    (hcovered : ∀ index, offset ≤ index → index < offset + data.length → changed index) :
    Changes changed (write offset data) builder :=
  Changes.modify (·.put offset data) ((Buffer.SameBut.put _ _ _).mono fun index hindex =>
    hcovered index hindex.1 hindex.2)

end Changes

/-! ## What the operations change -/

/-- The places that closing a chunk writes to: its length, and behind the version the key hash. -/
def Stamps (plan : Plan) (cursor : Cursor) (index : Nat) : Prop :=
  (cursor.base ≤ index ∧ index < cursor.base + 2) ∨
    (cursor.role = .key ∧ plan.options.hashKey = true ∧ 2 ≤ index ∧ index < 6)

section Operations

variable {plan : Plan} {builder next : Builder}

/-- Opening a chunk writes into that chunk only. -/
theorem openChunk_changes : Changes (builder.cursor.base ≤ ·) openChunk builder := by
  have hmap : builder.cursor.base ≤ builder.cursor.nullMapOffset := Nat.le_add_right ..
  refine .get (.guard (.bind (.write ?_) fun _ _ _ => .bind (.write ?_) fun _ _ _ =>
    .modify (·.putZeros _ _) ?_))
  · exact fun _ hstart _ => hstart
  · exact fun _ hstart _ => Nat.le_of_add_right_le hstart
  · exact (Buffer.SameBut.putPieces _ _ _).mono fun _ hstart => Nat.le_trans hmap hstart

theorem closeChunk_changes : Changes (Stamps plan builder.cursor) (closeChunk plan) builder := by
  refine .get (.guard (.guard (.bind (.write ?_) fun _ middle _ => ?_)))
  · exact fun _ hstart hstop => .inl ⟨hstart, hstop⟩
  · split
    next hhash =>
      refine .get (.write ?_)
      exact fun _ hstart hstop => .inr ⟨hhash.1, hhash.2, hstart, hstop⟩
    next => exact .pure ()

/-- The places that writing a field writes to: for null the byte of its bit, for a value the end
of the tuple, and a table entry if it takes one. -/
def Marks (cursor : Cursor) (field : Field) (index : Nat) : Prop :=
  (field = .null ∧ index = cursor.nullMapOffset + cursor.column / 8) ∨ cursor.offset ≤ index ∨
    (field.isVarlen = true ∧ cursor.entryOffset cursor.entry ≤ index ∧
      index < cursor.entryOffset cursor.entry + 2)

theorem writeField_changes (field : Field) :
    Changes (Marks builder.cursor field) (writeField field) builder := by
  cases field with
  | null =>
      rintro _ _ ⟨⟩
      refine ⟨⟨rfl, rfl, rfl⟩, (Buffer.SameBut.put _ _ _).mono ?_⟩
      intro index hcovered
      exact .inl ⟨rfl, Nat.le_antisymm (Nat.le_of_lt_succ hcovered.2) hcovered.1⟩
  | fixed pieces =>
      refine .modify (·.putPieces builder.cursor.offset pieces) ?_
      exact (Buffer.SameBut.putPieces _ _ _).mono fun _ hstart => .inr (.inl hstart)
  | varlen payload =>
      refine .get (.bind (.write ?_) fun _ middle hmiddle => .get (.guard (.write ?_)))
      · exact fun _ hstart _ => .inr (.inl hstart)
      · rw [hmiddle.cursor]
        exact fun _ hstart hstop => .inr (.inr ⟨rfl, hstart, hstop⟩)

/-- A round that closes a chunk stamps it, and writes behind it only. What it leaves is a
complete tuple, or behind the key chunk the value chunk. -/
theorem sameBut_of_closeFullChunk (hrun : (closeFullChunk plan).run builder = .ok () next) :
    next = builder ∨ (builder.cursor.isFull = true ∧
      builder.buffer.SameBut (fun index => builder.cursor.offset ≤ index ∨
        Stamps plan builder.cursor index) next.buffer ∧
      ((next.complete = true ∧ next.cursor = builder.cursor) ∨
        (builder.cursor.role = .key ∧ next.cursor.role = .value ∧
          next.cursor.base = builder.cursor.offset))) := by
  obtain ⟨_, _, ⟨⟩, hrun⟩ := exists_of_run_bind hrun
  split at hrun
  next hfull =>
    obtain ⟨_, middle, hclose, hrun⟩ := exists_of_run_bind hrun
    have hstamped := closeChunk_changes _ _ hclose
    have hclosed : builder.buffer.SameBut (fun index => builder.cursor.offset ≤ index ∨
        Stamps plan builder.cursor index) middle.buffer :=
      hstamped.bytes.mono fun _ hstamp => .inr hstamp
    refine .inr ⟨hfull.2, ?_⟩
    dsimp only at hrun
    cases hrole : builder.cursor.role with
    | key =>
        simp only [Cursor.next?, hrole] at hrun
        obtain ⟨_, opened, ⟨⟩, hopen⟩ := exists_of_run_bind hrun
        have hopened := openChunk_changes _ _ hopen
        refine ⟨hclosed.trans (hopened.bytes.mono fun _ hstart => .inl hstart), .inr ?_⟩
        rw [hopened.cursor]
        exact ⟨rfl, rfl, rfl⟩
    | value =>
        simp only [Cursor.next?, hrole] at hrun
        obtain ⟨⟩ := hrun
        exact ⟨hclosed, .inl ⟨rfl, hstamped.cursor⟩⟩
  next =>
    obtain ⟨⟩ := hrun
    exact .inl rfl

/-- What closing all that is full changes of the tuple so far are the stamps of the chunk at its
end: the value chunk behind a key chunk lies behind all of it. -/
theorem sameBut_of_settle (hrun : (settle plan).run builder = .ok () next) :
    builder.buffer.SameBut (fun index => builder.cursor.offset ≤ index ∨
      (builder.cursor.isFull = true ∧ Stamps plan builder.cursor index)) next.buffer := by
  obtain ⟨_, middle, hfirst, hsecond⟩ := exists_of_run_bind hrun
  have hround : ∀ {last}, (closeFullChunk plan).run builder = .ok () last →
      builder.buffer.SameBut (fun index => builder.cursor.offset ≤ index ∨
        (builder.cursor.isFull = true ∧ Stamps plan builder.cursor index)) last.buffer := by
    intro last hlast
    rcases sameBut_of_closeFullChunk hlast with rfl | ⟨hfull, hsame, -⟩
    · exact .rfl
    · exact hsame.mono fun _ hchanged => hchanged.imp_right fun hstamp => ⟨hfull, hstamp⟩
  rcases sameBut_of_closeFullChunk hfirst with rfl | ⟨-, -, hleft⟩
  · exact hround hsecond
  refine (hround hfirst).trans ?_
  rcases hleft with ⟨hcomplete, -⟩ | ⟨-, hrole, hbase⟩
  · rw [closeFullChunk_of_complete hcomplete] at hsecond
    obtain ⟨⟩ := hsecond
    exact .rfl
  · rcases sameBut_of_closeFullChunk hsecond with rfl | ⟨-, hsame, -⟩
    · exact .rfl
    · refine hsame.mono fun index hchanged => .inl ?_
      rw [← hbase]
      rcases hchanged with hbehind | hlength | hhash
      · exact Nat.le_of_add_right_le hbehind
      · exact hlength.1
      · rw [hrole] at hhash
        exact absurd hhash.1 (by decide)

/-- Placing a field writes it, and then closes what is full. -/
theorem exists_written_of_place {field : Field}
    (hrun : (place plan field).run builder = .ok () next) :
    ∃ written, (writeField field).run builder = .ok () written ∧
      Rewrites (Marks builder.cursor field) builder written ∧
      written.buffer.SameBut (fun index => builder.cursor.offset ≤ index ∨
        (builder.cursor.column + 1 = builder.cursor.columnCount ∧
          Stamps plan builder.cursor index)) next.buffer := by
  obtain ⟨_, written, hwrite, hrun⟩ := exists_of_run_bind hrun
  obtain ⟨_, advanced, ⟨⟩, hsettle⟩ := exists_of_run_bind hrun
  have hwritten := writeField_changes field _ _ hwrite
  refine ⟨written, hwrite, hwritten, (sameBut_of_settle hsettle).mono ?_⟩
  dsimp only
  rw [hwritten.cursor]
  rintro index (hbehind | ⟨hfull, hstamp⟩)
  · have hgrown : builder.cursor.offset ≤
        (builder.cursor.advance field.size field.isVarlen).offset := by
      rw [Cursor.offset_advance]
      exact Nat.le_add_right ..
    exact .inl (Nat.le_trans hgrown hbehind)
  · exact .inr ⟨beq_iff_eq.mp hfull, hstamp⟩

end Operations

/-! ## What an append changes -/

/-- The places in front of the cursor that appending a datum may write to. -/
inductive Patches (plan : Plan) (cursor : Cursor) (datum : Datum) (index : Nat) : Prop where
  /-- The next table entry, for a value of variable length. -/
  | entry (hvarlen : datum.isVarlen = true) (hstart : cursor.entryOffset cursor.entry ≤ index)
      (hstop : index < cursor.entryOffset cursor.entry + 2)
  /-- The byte of the null bit, for null. -/
  | nullBit (hnull : datum = .null) (hplace : index = cursor.nullMapOffset + cursor.column / 8)
  /-- The length of the chunk, for its last column. -/
  | length (hlast : cursor.column + 1 = cursor.columnCount) (hstart : cursor.base ≤ index)
      (hstop : index < cursor.base + 2)
  /-- The key hash, for the last key column, if there is to be one. -/
  | hash (hlast : cursor.column + 1 = cursor.columnCount) (hrole : cursor.role = .key)
      (hoption : plan.options.hashKey = true) (hstart : 2 ≤ index) (hstop : index < 6)

/-- What is accepted is a datum for the next column, as the field that stands for it there. -/
theorem exists_column_of_accept {plan : Plan} {data : List Datum} {builder accepted : Builder}
    {datum : Datum} {field : Field} (hreach : Reachable plan data builder)
    (haccept : (accept plan datum).run builder = .ok field accepted) :
    builder.complete = false ∧ ∃ column : Column,
      (plan.schema.columns builder.cursor.role).get? builder.cursor.column = some column ∧
        column.Takes datum ∧
          (datum.isVarlen = true → builder.cursor.entry < builder.cursor.slots) ∧
            field = datum.field column.type ∧ accepted.SameTuple builder := by
  obtain ⟨hadmits, hstands⟩ := hreach.stands
  obtain ⟨role, hoccupies⟩ := hstands.occupies hadmits
  cases hcomplete : builder.complete with
  | true =>
      rw [accept_complete hcomplete] at haccept
      contradiction
  | false =>
      have hindex := hoccupies.column_lt hcomplete
      rw [hoccupies.columnCount_eq, ← hoccupies.role_eq] at hindex
      obtain ⟨column, hcolumn⟩ := Columns.get?_eq_some_of_lt hindex
      obtain ⟨⟨htakes, hroom⟩, rfl, hsame⟩ :=
        (accept_ends hcomplete hcolumn datum).of_run_ok haccept
      rw [Datum.isVarlen_field_eq] at hroom
      exact ⟨rfl, column, hcolumn, htakes, hroom, rfl, hsame⟩

/-- An append that succeeds has its datum accepted and the field placed. -/
theorem exists_accepted_of_append {plan : Plan} {data : List Datum} {builder next : Builder}
    {datum : Datum} (hreach : Reachable plan data builder)
    (happend : (append plan datum).run builder = .ok () next) :
    builder.complete = false ∧ ∃ (column : Column) (middle : Builder),
      middle.SameTuple builder ∧
        (datum.isVarlen = true → builder.cursor.entry < builder.cursor.slots) ∧
          (place plan (datum.field column.type)).run middle = .ok () next := by
  obtain ⟨field, middle, haccept, hplace⟩ := exists_of_run_bind happend
  obtain ⟨hcomplete, column, -, -, hroom, rfl, hsame⟩ := exists_column_of_accept hreach haccept
  exact ⟨hcomplete, column, middle, hsame, hroom, hplace⟩

section Append

variable {plan : Plan} {data : List Datum} {builder next : Builder} {datum : Datum}

/-- The bytes in front of the cursor stay as they are, but for those patched. -/
theorem sameBut_of_append (hreach : Reachable plan data builder)
    (happend : (append plan datum).run builder = .ok () next) :
    builder.buffer.SameBut (fun index => builder.cursor.offset ≤ index ∨
      Patches plan builder.cursor datum index) next.buffer := by
  obtain ⟨-, column, middle, hsame, -, hplace⟩ := exists_accepted_of_append hreach happend
  obtain ⟨written, -, hwritten, hsettled⟩ := exists_written_of_place hplace
  rw [← hsame.buffer, ← hsame.cursor]
  refine (hwritten.bytes.mono ?_).trans (hsettled.mono ?_)
  · rintro index (⟨hnull, hbyte⟩ | hbehind | ⟨hvarlen, hstart, hstop⟩)
    · exact .inr (.nullBit (Datum.field_eq_null_iff.mp hnull) hbyte)
    · exact .inl hbehind
    · rw [Datum.isVarlen_field_eq] at hvarlen
      exact .inr (.entry hvarlen hstart hstop)
  · rintro index (hbehind | ⟨hlast, ⟨hstart, hstop⟩ | ⟨hrole, hoption, hstart, hstop⟩⟩)
    · exact .inl hbehind
    · exact .inr (.length hlast hstart hstop)
    · exact .inr (.hash hlast hrole hoption hstart hstop)

end Append

/-! ## Where the patches lie -/

/-- Apart from hash and length, all patches lie between the table entries in use and the data. -/
theorem Patches.region {plan : Plan} {cursor : Cursor} {datum : Datum} {index : Nat}
    (hpatches : Patches plan cursor datum index)
    (hroom : datum.isVarlen = true → cursor.entry < cursor.slots)
    (hentries : cursor.entry ≤ cursor.slots) (hcolumn : cursor.column < cursor.columnCount) :
    (cursor.role = .key ∧ 2 ≤ index ∧ index < 6) ∨
      (cursor.base ≤ index ∧ index < cursor.base + 2) ∨
      (cursor.entryOffset cursor.entry ≤ index ∧
        index < cursor.nullMapOffset + BitSet.byteCount cursor.columnCount) := by
  have hmap := BitSet.le_byteCount cursor.columnCount
  rw [Cursor.entryOffset_eq, Cursor.nullMapOffset_eq]
  cases hpatches with
  | entry hvarlen hstart hstop =>
      have hslot := hroom hvarlen
      rw [Cursor.entryOffset_eq] at hstart hstop
      omega
  | nullBit hnull hplace =>
      rw [Cursor.nullMapOffset_eq] at hplace
      omega
  | length hlast hstart hstop => exact .inr (.inl ⟨hstart, hstop⟩)
  | hash hlast hrole hoption hstart hstop => exact .inl ⟨hrole, hstart, hstop⟩

section Append

variable {plan : Plan} {data : List Datum} {builder next : Builder} {datum : Datum}

/-- What is admitted can be appended. -/
theorem Reachable.exists_append (hreach : Reachable plan data builder)
    (hmore : plan.Admits (data ++ [datum])) :
    ∃ next, (Builder.append plan datum).run builder = .ok () next := by
  obtain ⟨hadmits, hstands⟩ := hreach.stands
  have hends := append_ends hadmits hstands datum
  cases hrun : (Builder.append plan datum).run builder with
  | ok result next => exact ⟨next, rfl⟩
  | error error next => exact absurd hmore (hends.of_run_error hrun).1

theorem Reachable.consistent (hreach : Reachable plan data builder) :
    Consistent plan data builder := by
  obtain ⟨hadmits, hstands⟩ := hreach.stands
  obtain ⟨role, hoccupies⟩ := hstands.occupies hadmits
  exact hoccupies.consistent hadmits hstands.appended

theorem Consistent.headerSize_le_base (hconsistent : Consistent plan data builder) :
    6 ≤ builder.cursor.base := by
  cases hrole : builder.cursor.role with
  | key => exact Nat.le_of_eq (hconsistent.base_key hrole).symm
  | value =>
      obtain ⟨length, -, hbase⟩ := hconsistent.base_value hrole
      rw [hbase]
      exact Nat.le_add_right ..

theorem byteAt_setNull (builder : Builder) (column : Nat) :
    (builder.setNull column).buffer.byteAt (builder.cursor.nullMapOffset + column / 8) =
      builder.buffer.byteAt (builder.cursor.nullMapOffset + column / 8) |||
        BitSet.singleByte column := by
  simp [setNull, Buffer.byteAt_put]

/-- A null that is appended sets its bit, and no other bit of the same byte. -/
theorem testByte_of_append_null (hreach : Reachable plan data builder)
    (happend : (append plan .null).run builder = .ok () next) (bit : Nat) :
    BitSet.testByte (next.buffer.byteAt
        (builder.cursor.nullMapOffset + builder.cursor.column / 8)) bit =
      (BitSet.testByte (builder.buffer.byteAt
          (builder.cursor.nullMapOffset + builder.cursor.column / 8)) bit ||
        decide (builder.cursor.column % 8 = bit % 8)) := by
  obtain ⟨hcomplete, column, middle, hsame, -, hplace⟩ := exists_accepted_of_append hreach happend
  obtain ⟨written, hwrite, -, hsettled⟩ := exists_written_of_place hplace
  have hconsistent := hreach.consistent
  have hcolumn := hconsistent.column_lt hcomplete
  have hbase := hconsistent.headerSize_le_base
  have hoffset := hconsistent.offset
  have hmap := BitSet.le_byteCount builder.cursor.columnCount
  -- What is closed afterwards is stamped in front of the null map.
  have hkept := hsettled (builder.cursor.nullMapOffset + builder.cursor.column / 8) (by
    rw [hsame.cursor, Cursor.nullMapOffset_eq]
    rintro (hbehind | ⟨-, hlength | hhash⟩) <;> omega)
  obtain ⟨⟩ := hwrite
  have hset := byteAt_setNull middle middle.cursor.column
  rw [hsame.cursor, hsame.buffer] at hset
  dsimp only at hkept
  rw [hkept, hsame.cursor, hset, BitSet.testByte_or, BitSet.testByte_singleByte]

/-- An append that succeeds changes nothing in front of the cursor but what it patches, and of
the byte with a null bit this bit only. So the data and the table entries of the columns in
front of it are as they were, and behind the key chunk all that lies in front of the value
chunk is. -/
theorem append_changes_patches (hreach : Reachable plan data builder)
    (happend : (append plan datum).run builder = .ok () next) :
    (∀ index < builder.cursor.offset, ¬Patches plan builder.cursor datum index →
      next.buffer.byteAt index = builder.buffer.byteAt index) ∧
    (datum = .null → ∀ bit,
      BitSet.testByte (next.buffer.byteAt
          (builder.cursor.nullMapOffset + builder.cursor.column / 8)) bit =
        (BitSet.testByte (builder.buffer.byteAt
            (builder.cursor.nullMapOffset + builder.cursor.column / 8)) bit ||
          decide (builder.cursor.column % 8 = bit % 8))) ∧
    (∀ index, builder.cursor.nullMapOffset + BitSet.byteCount builder.cursor.columnCount ≤ index →
      index < builder.cursor.offset →
        next.buffer.byteAt index = builder.buffer.byteAt index) ∧
    (∀ entry < builder.cursor.entry, ∀ index, builder.cursor.entryOffset entry ≤ index →
      index < builder.cursor.entryOffset entry + 2 →
        next.buffer.byteAt index = builder.buffer.byteAt index) ∧
    (builder.cursor.role = .value → ∀ index < builder.cursor.base,
      next.buffer.byteAt index = builder.buffer.byteAt index) := by
  obtain ⟨hcomplete, -, -, -, hroom, -⟩ := exists_accepted_of_append hreach happend
  have hsame := sameBut_of_append hreach happend
  have hconsistent := hreach.consistent
  have hbase := hconsistent.headerSize_le_base
  have hentries := hconsistent.entry_le
  have hoffset := hconsistent.offset
  have hregion : ∀ {index}, Patches plan builder.cursor datum index → _ := fun hpatches =>
    hpatches.region hroom hentries (hconsistent.column_lt hcomplete)
  rw [Cursor.entryOffset_eq, Cursor.nullMapOffset_eq] at hregion
  refine ⟨?_, ?_, ?_, ?_, ?_⟩
  · intro index hindex hunpatched
    exact hsame index fun hchanged => hchanged.elim (Nat.not_le.mpr hindex) hunpatched
  · rintro rfl
    exact testByte_of_append_null hreach happend
  · intro index hstart hstop
    rw [Cursor.nullMapOffset_eq] at hstart
    apply hsame
    rintro (hbehind | hpatches)
    · omega
    · have := hregion hpatches
      omega
  · intro entry hentry index hstart hstop
    rw [Cursor.entryOffset_eq] at hstart hstop
    apply hsame
    rintro (hbehind | hpatches)
    · omega
    · have := hregion hpatches
      omega
  · intro hrole index hindex
    apply hsame
    rintro (hbehind | hpatches)
    · omega
    · rcases hregion hpatches with hhash | hlength | hbetween
      · rw [hrole] at hhash
        exact absurd hhash.1 (by decide)
      · omega
      · omega

end Append

/-- The last name of a customer, which is not known and fills the value chunk. -/
theorem customer_last_name_patches :
    ∃ builder next, Reachable Customers.plan (Customers.data.take 6) builder ∧
      (append Customers.plan .null).run builder = .ok () next ∧
      (∀ index < builder.cursor.offset, ¬Patches Customers.plan builder.cursor .null index →
        next.buffer.byteAt index = builder.buffer.byteAt index) ∧
      ∀ bit, BitSet.testByte (next.buffer.byteAt
          (builder.cursor.nullMapOffset + builder.cursor.column / 8)) bit =
        (BitSet.testByte (builder.buffer.byteAt
            (builder.cursor.nullMapOffset + builder.cursor.column / 8)) bit ||
          decide (builder.cursor.column % 8 = bit % 8)) := by
  obtain ⟨hbuffer, hadmits, _⟩ := buildIn_eq_ok_iff.mp (Customers.build_data ⟨true, true⟩)
  obtain ⟨builder, hfill⟩ := exists_fill hbuffer (hadmits.take 6)
  have hreach := reachable_of_fill hfill
  obtain ⟨next, happend⟩ : ∃ next, (append Customers.plan .null).run builder = .ok () next :=
    hreach.exists_append hadmits
  obtain ⟨hsame, hbit, -⟩ := append_changes_patches hreach happend
  exact ⟨builder, next, hreach, happend, hsame, hbit rfl⟩

end Builder

end PackedTuple
