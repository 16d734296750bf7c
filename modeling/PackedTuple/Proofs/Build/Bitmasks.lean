import PackedTuple.Proofs.Build.Landing

/-! # Columns of bit sets

A column of bit sets stores the set that a mask stands for. How the mask spells it does not
matter: bytes are cut off behind the highest bit, and zero bytes are added up to the width
of the column. A mask is refused for its set alone, if that has an index too high.
-/

namespace PackedTuple

/-- From an offset on as many bytes are written as `bits` bits take, and they have the bits of
the mask. -/
structure Buffer.HoldsMask (buffer : Buffer) (offset bits : Nat) (mask : List UInt8) : Prop where
  written : offset + BitSet.byteCount bits ≤ buffer.written
  testByte : ∀ index < 8 * BitSet.byteCount bits,
    BitSet.testByte (buffer.byteAt (offset + index / 8)) index = BitSet.contains mask index

namespace Buffer.HoldsMask

variable {left right : Buffer} {offset bits : Nat} {mask other : List UInt8}

theorem of_byteAt (hwritten : offset + BitSet.byteCount bits ≤ left.written)
    (hbytes : ∀ place (hplace : place < (BitSet.resize mask (BitSet.byteCount bits)).length),
      left.byteAt (offset + place) = (BitSet.resize mask (BitSet.byteCount bits))[place]) :
    left.HoldsMask offset bits mask := by
  refine ⟨hwritten, ?_⟩
  intro index hindex
  have hplace : index / 8 < (BitSet.resize mask (BitSet.byteCount bits)).length := by
    rw [BitSet.length_resize]
    omega
  rw [hbytes _ hplace, ← BitSet.contains_of_getElem? (List.getElem?_eq_getElem hplace),
    BitSet.contains_resize, decide_eq_true hindex, Bool.true_and]

/-- Masks within the bits of the column that leave the same bytes there stand for the same set. -/
theorem contains_eq (hleft : left.HoldsMask offset bits mask)
    (hright : right.HoldsMask offset bits other)
    (hmask : ∀ index, BitSet.contains mask index = true → index < bits)
    (hother : ∀ index, BitSet.contains other index = true → index < bits)
    (hbytes : ∀ place < BitSet.byteCount bits,
      left.byteAt (offset + place) = right.byteAt (offset + place)) (index : Nat) :
    BitSet.contains mask index = BitSet.contains other index := by
  by_cases hindex : index < 8 * BitSet.byteCount bits
  · rw [← hleft.testByte index hindex, ← hright.testByte index hindex,
      hbytes (index / 8) (by omega)]
  · have hroom := BitSet.le_byteCount bits
    have habsent : ∀ {set : List UInt8},
        (∀ index, BitSet.contains set index = true → index < bits) →
          BitSet.contains set index = false := by
      intro set hset
      apply Bool.eq_false_iff.mpr
      intro hmem
      have := hset index hmem
      omega
    rw [habsent hmask, habsent hother]

end Buffer.HoldsMask

namespace Builder

/-! ## One append -/

/-- Masks that stand for the same set are accepted, or refused, in the same way. -/
theorem accept_bitmask_congr (plan : Plan) {mask other : List UInt8}
    (hsame : ∀ index, BitSet.contains mask index = BitSet.contains other index) :
    accept plan (.bitmask mask) = accept plan (.bitmask other) := by
  have hfield : ∀ bits, Field.ofBitmask bits mask = Field.ofBitmask bits other := by
    intro bits
    rw [Field.ofBitmask, Field.ofBitmask, BitSet.take_bitLength_congr hsame,
      BitSet.bitLength_congr hsame]
  simp only [accept, bitmaskField, hfield, BitSet.bitLength_congr hsame]

theorem append_bitmask_congr (plan : Plan) {mask other : List UInt8}
    (hsame : ∀ index, BitSet.contains mask index = BitSet.contains other index) :
    append plan (.bitmask mask) = append plan (.bitmask other) := by
  rw [append, append, accept_bitmask_congr plan hsame]

section Bitmask

variable {plan : Plan} {data : List Datum} {builder landed next : Builder} {column : Column}
  {bits : Nat} {mask : List UInt8}

/-- A complete tuple has no next column. -/
theorem Consistent.incomplete_of_column (hconsistent : Consistent plan data builder)
    (hcolumn : (plan.schema.columns builder.cursor.role).get? builder.cursor.column =
      some column) : builder.complete = false := by
  have hindex := Columns.lt_length_of_get? hcolumn
  rw [← hconsistent.columnCount] at hindex
  apply Bool.eq_false_iff.mpr
  intro hcomplete
  exact absurd (hconsistent.complete_iff.mp hcomplete).2 (Nat.ne_of_lt hindex)

theorem accept_bitmask (hcomplete : builder.complete = false)
    (hcolumn : (plan.schema.columns builder.cursor.role).get? builder.cursor.column = some column)
    (htype : column.type = .bitmask bits) :
    (accept plan (.bitmask mask)).run builder =
      if bits < BitSet.bitLength mask then
        .error (.bitmaskOverflow column.name (BitSet.bitLength mask) bits) builder
      else
        .ok (.ofBitmask bits mask) builder := by
  have hkind : column.type.kind = .bitmask := by rw [htype]; rfl
  have hcheck : (checkKind column .bitmask).run builder = .ok () builder := by
    rw [checkKind, if_pos hkind]
    rfl
  simp only [accept, EStateM.run_bind, run_nextColumn hcomplete hcolumn, hcheck, bitmaskField,
    htype]
  split <;> rfl

theorem append_bitmask_overflow (hcomplete : builder.complete = false)
    (hcolumn : (plan.schema.columns builder.cursor.role).get? builder.cursor.column = some column)
    (htype : column.type = .bitmask bits) (hfar : bits < BitSet.bitLength mask) :
    (append plan (.bitmask mask)).run builder =
      .error (.bitmaskOverflow column.name (BitSet.bitLength mask) bits) builder := by
  rw [append, EStateM.run_bind, accept_bitmask hcomplete hcolumn htype, if_pos hfar]

/-- Whatever is wrong with a chunk that a mask fills, it is not the mask. -/
theorem Reachable.append_bitmask_ne_overflow (hreach : Reachable plan data builder)
    (hcolumn : (plan.schema.columns builder.cursor.role).get? builder.cursor.column = some column)
    (htype : column.type = .bitmask bits) (hfits : BitSet.bitLength mask ≤ bits) (name : String)
    (length limit : Nat) :
    (Builder.append plan (.bitmask mask)).run builder ≠
      .error (.bitmaskOverflow name length limit) next := by
  intro hrun
  obtain ⟨hadmits, hstands⟩ := hreach.stands
  have haccept : (accept plan (.bitmask mask)).run builder = _ :=
    accept_bitmask (hreach.consistent.incomplete_of_column hcolumn) hcolumn htype
  rw [if_neg (Nat.not_lt.mpr hfits)] at haccept
  rcases refused_or_lost hadmits hstands hrun with ⟨hrefused, -⟩ | ⟨_, _, _, _, hfatal, -⟩
  · rw [haccept] at hrefused
    contradiction
  · contradiction

theorem Reachable.append_bitmask_overflow_iff (hreach : Reachable plan data builder)
    (hcolumn : (plan.schema.columns builder.cursor.role).get? builder.cursor.column = some column)
    (htype : column.type = .bitmask bits) (name : String) (length limit : Nat) :
    (∃ next, (Builder.append plan (.bitmask mask)).run builder =
        .error (.bitmaskOverflow name length limit) next) ↔
      (∃ index, bits ≤ index ∧ BitSet.contains mask index = true) ∧ name = column.name ∧
        limit = bits ∧ ∃ highest, BitSet.IsHighest mask highest ∧ length = highest + 1 := by
  have hcomplete := hreach.consistent.incomplete_of_column hcolumn
  constructor
  · rintro ⟨next, hrun⟩
    by_cases hfar : bits < BitSet.bitLength mask
    · rw [append_bitmask_overflow hcomplete hcolumn htype hfar] at hrun
      cases hrun
      have hlength : BitSet.bitLength mask = (BitSet.bitLength mask - 1) + 1 := by omega
      exact ⟨BitSet.lt_bitLength_iff.mp hfar, rfl, rfl, _,
        BitSet.bitLength_eq_succ_iff.mp hlength, hlength⟩
    · exact absurd hrun (hreach.append_bitmask_ne_overflow hcolumn htype (Nat.not_lt.mp hfar)
        name length limit)
  · rintro ⟨hfar, rfl, rfl, highest, hhighest, rfl⟩
    rw [← BitSet.bitLength_eq_succ_iff.mpr hhighest]
    exact ⟨builder, append_bitmask_overflow hcomplete hcolumn htype
      (BitSet.lt_bitLength_iff.mpr hfar)⟩

theorem exists_landed_of_bitLength_le (hcomplete : builder.complete = false)
    (hcolumn : (plan.schema.columns builder.cursor.role).get? builder.cursor.column = some column)
    (htype : column.type = .bitmask bits) (hfits : BitSet.bitLength mask ≤ bits) :
    ∃ landed, (land plan (.bitmask mask)).run builder = .ok () landed := by
  rw [land, EStateM.run_bind, accept_bitmask hcomplete hcolumn htype,
    if_neg (Nat.not_lt.mpr hfits)]
  exact ⟨_, rfl⟩

/-! ## What stands in the column -/

theorem length_stored_bitmask (htype : column.type = .bitmask bits) :
    ((Datum.bitmask mask).stored column.type).length = BitSet.byteCount bits := by
  rw [htype]
  exact BitSet.length_resize ..

theorem Landed.offset_bitmask (hlanded : Landed plan (.bitmask mask) column builder landed)
    (htype : column.type = .bitmask bits) :
    landed.cursor.offset = builder.cursor.offset + BitSet.byteCount bits := by
  rw [hlanded.cursor, Cursor.offset_advance, length_stored_bitmask htype]

theorem Landed.holdsMask (hlanded : Landed plan (.bitmask mask) column builder landed)
    (htype : column.type = .bitmask bits) :
    landed.buffer.HoldsMask builder.cursor.offset bits mask := by
  have hbytes := hlanded.byteAt
  rw [htype] at hbytes
  have hwritten := hlanded.written.trans (hlanded.offset_bitmask htype)
  exact .of_byteAt (Nat.le_of_eq hwritten.symm) hbytes

/-- Closing what is full leaves the mask where it is. -/
theorem Landed.holdsMask_of_settle
    (hlanded : Landed plan (.bitmask mask) column builder landed)
    (htype : column.type = .bitmask bits) (hconsistent : Consistent plan data builder)
    (hsettle : (settle plan).run landed = .ok () next)
    (hwritten : next.buffer.written = next.cursor.offset) :
    next.buffer.HoldsMask builder.cursor.offset bits mask := by
  have hbytes := hlanded.byteAt_of_settle hconsistent hsettle
  rw [htype] at hbytes
  refine .of_byteAt ?_ hbytes
  have hend := hlanded.reach_of_settle hsettle
  rw [length_stored_bitmask htype] at hend
  rw [hwritten, ← hend]
  exact Cursor.reach_le_offset ..

/-- How a builder takes a mask for its next column, a set of `bits` bits. -/
structure TakesMask (plan : Plan) (builder : Builder) (column : Column) (bits : Nat)
    (mask : List UInt8) : Prop where
  /-- The mask overflows the column exactly if its set has an index too high. The length that is
  reported then is one more than the highest of the set. -/
  overflows_iff (name : String) (length limit : Nat) :
    (∃ next, (append plan (.bitmask mask)).run builder =
        .error (.bitmaskOverflow name length limit) next) ↔
      (∃ index, bits ≤ index ∧ BitSet.contains mask index = true) ∧ name = column.name ∧
        limit = bits ∧ ∃ highest, BitSet.IsHighest mask highest ∧ length = highest + 1
  /-- The bytes that are copied are there. -/
  used_le : BitSet.byteCount (BitSet.bitLength mask) ≤ mask.length
  /-- Without an index too high the mask goes into the column, whatever comes of the chunk. -/
  lands : (∀ index, BitSet.contains mask index = true → index < bits) →
    ∃ landed, (land plan (.bitmask mask)).run builder = .ok () landed ∧
      landed.cursor.offset = builder.cursor.offset + BitSet.byteCount bits ∧
      landed.buffer.HoldsMask builder.cursor.offset bits mask
  /-- It stays there if the append succeeds. -/
  stays (next : Builder) : (append plan (.bitmask mask)).run builder = .ok () next →
    next.cursor.reach builder.cursor.role = builder.cursor.offset + BitSet.byteCount bits ∧
      next.buffer.HoldsMask builder.cursor.offset bits mask

theorem Reachable.takesMask (hreach : Reachable plan data builder)
    (hcolumn : (plan.schema.columns builder.cursor.role).get? builder.cursor.column = some column)
    (htype : column.type = .bitmask bits) (mask : List UInt8) :
    TakesMask plan builder column bits mask := by
  have hconsistent := hreach.consistent
  have hcomplete := hconsistent.incomplete_of_column hcolumn
  refine ⟨hreach.append_bitmask_overflow_iff hcolumn htype, BitSet.byteCount_bitLength_le mask,
    ?_, ?_⟩
  · intro hfits
    obtain ⟨landed, hland⟩ := exists_landed_of_bitLength_le hcomplete hcolumn htype
      (BitSet.bitLength_le_iff.mpr hfits)
    have hlanded := hreach.landed_of_land hcolumn hland
    exact ⟨landed, hland, hlanded.offset_bitmask htype, hlanded.holdsMask htype⟩
  · intro next happend
    obtain ⟨landed, hland, hsettle⟩ := exists_landed_of_append happend
    have hlanded := hreach.landed_of_land hcolumn hland
    have hend := hlanded.reach_of_settle hsettle
    rw [length_stored_bitmask htype] at hend
    exact ⟨hend, hlanded.holdsMask_of_settle htype hconsistent hsettle
      (hreach.append happend).consistent.written⟩

end Bitmask

/-- A column of bit sets takes exactly the masks without an index too high, reports the highest
index of the others, and stores the set that a mask stands for: two masks leave the same bytes,
in the column or in the whole tuple, exactly if they stand for the same set. -/
theorem bitmasks_keep_sets {plan : Plan} {data : List Datum} {builder : Builder} {column : Column}
    {bits : Nat} (hreach : Reachable plan data builder)
    (hcolumn : (plan.schema.columns builder.cursor.role).get? builder.cursor.column = some column)
    (htype : column.type = .bitmask bits) :
    (∀ mask, TakesMask plan builder column bits mask) ∧
    ∀ mask other next after, (append plan (.bitmask mask)).run builder = .ok () next →
      (append plan (.bitmask other)).run builder = .ok () after →
        (next.buffer.bytes = after.buffer.bytes ↔
          ∀ index, BitSet.contains mask index = BitSet.contains other index) ∧
        ((∀ place < BitSet.byteCount bits, next.buffer.byteAt (builder.cursor.offset + place) =
            after.buffer.byteAt (builder.cursor.offset + place)) ↔
          ∀ index, BitSet.contains mask index = BitSet.contains other index) := by
  have htakes := hreach.takesMask hcolumn htype
  refine ⟨htakes, ?_⟩
  intro mask other next after hnext hafter
  obtain ⟨landed, hland, -⟩ := exists_landed_of_append hnext
  obtain ⟨beside, hbeside, -⟩ := exists_landed_of_append hafter
  have hset := ((htakes mask).stays next hnext).2.contains_eq ((htakes other).stays after hafter).2
    ((Column.takes_bitmask_iff htype).mp (hreach.landed_of_land hcolumn hland).takes)
    ((Column.takes_bitmask_iff htype).mp (hreach.landed_of_land hcolumn hbeside).takes)
  have hsame (hmem : ∀ index, BitSet.contains mask index = BitSet.contains other index) :
      next = after := by
    rw [append_bitmask_congr plan hmem, hafter] at hnext
    cases hnext
    rfl
  refine ⟨⟨fun hbytes => hset fun place _ => ?_, fun hmem => by rw [hsame hmem]⟩,
    hset, fun hmem _ _ => by rw [hsame hmem]⟩
  rw [Buffer.byteAt, Buffer.byteAt, hbytes]

/-- The flags of a customer, of which there are twelve: a thirteenth is refused. -/
theorem customer_flags_keep_sets :
    ∃ builder next, Reachable Customers.plan (Customers.data.take 3) builder ∧
      (∃ refused, (append Customers.plan (.bitmask [0, 0x10])).run builder =
        .error (.bitmaskOverflow "flags" 13 12) refused) ∧
      (append Customers.plan (.bitmask [5])).run builder = .ok () next ∧
      next.buffer.HoldsMask builder.cursor.offset 12 [5] := by
  obtain ⟨hbuffer, hadmits, _⟩ := buildIn_eq_ok_iff.mp (Customers.build_data ⟨true, true⟩)
  obtain ⟨builder, hfill⟩ : ∃ builder, fill Customers.plan
      (.withCapacity Customers.plan.sizeHint) (Customers.data.take 3) = .ok builder :=
    exists_fill hbuffer (hadmits.take 3)
  have hreach := reachable_of_fill hfill
  obtain ⟨next, happend⟩ := hreach.exists_append (hadmits.take 4)
  have hplace : (fill Customers.plan (.withCapacity Customers.plan.sizeHint)
      (Customers.data.take 3)).toOption.map (fun builder =>
        (Customers.plan.schema.columns builder.cursor.role).get? builder.cursor.column) =
      some (some ⟨"flags", .bitmask 12, false⟩) := by decide +kernel
  rw [hfill] at hplace
  obtain ⟨htakes, -⟩ := bitmasks_keep_sets hreach (Option.some.inj hplace) rfl
  refine ⟨builder, next, hreach, ?_, happend, ((htakes [5]).stays next happend).2⟩
  apply ((htakes [0, 0x10]).overflows_iff "flags" 13 12).mpr
  exact ⟨⟨12, Nat.le_refl _, rfl⟩, rfl, rfl, 12, BitSet.bitLength_eq_succ_iff.mp rfl, rfl⟩

end Builder

end PackedTuple
