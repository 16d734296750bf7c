import PackedTuple.Build.Replay
import PackedTuple.Proofs.Encoding.Fields

/-! # Accepting a datum

How an operation on a builder ends is said by the condition under which it
succeeds, and by what it leaves behind in either case. Accepting a datum
succeeds exactly if the next column takes it and, for a value with a table
entry, the table has room. Nothing of the tuple changes, whatever the outcome.
-/

namespace PackedTuple

/-- The errors by which an append refuses its datum. -/
def BuildError.isRefusal : BuildError → Bool
  | complete => true
  | typeMismatch _ _ _ => true
  | nullNotAllowed _ => true
  | bitmaskOverflow _ _ _ => true
  | unpairedSurrogate _ _ => true
  | varlenCount _ declared appended => declared < appended
  | _ => false

theorem BuildError.isFatal_of_isRefusal {error : BuildError} (hrefusal : error.isRefusal = true) :
    error.isFatal = false := by
  cases error with
  | varlenCount role declared appended =>
      have hmore : declared < appended := of_decide_eq_true hrefusal
      exact decide_eq_false (Nat.not_lt.mpr (Nat.le_of_lt hmore))
  | chunkTooLarge role length => contradiction
  | _ => rfl

namespace Builder

section Bind

variable {α β : Type} {program : BuildM α} {rest : α → BuildM β} {builder next : Builder}

/-- A sequence that succeeds does so by way of what its first part leaves. -/
theorem exists_of_run_bind {result : β} (hrun : (program >>= rest).run builder = .ok result next) :
    ∃ value middle, program.run builder = .ok value middle ∧
      (rest value).run middle = .ok result next := by
  rw [EStateM.run_bind] at hrun
  split at hrun
  next value middle hfirst => exact ⟨value, middle, hfirst, hrun⟩
  next => contradiction

/-- A sequence that fails does so in its first part, or else on what that leaves. -/
theorem error_of_run_bind {error : BuildError}
    (hrun : (program >>= rest).run builder = .error error next) :
    program.run builder = .error error next ∨ ∃ value middle,
      program.run builder = .ok value middle ∧ (rest value).run middle = .error error next := by
  rw [EStateM.run_bind] at hrun
  split at hrun
  next value middle hfirst => exact .inr ⟨value, middle, hfirst, hrun⟩
  next cause middle hfirst =>
    obtain ⟨rfl, rfl⟩ := EStateM.Result.error.inj hrun
    exact .inl hfirst

end Bind

/-- The program succeeds on the builder exactly under the condition. -/
def Ends {α : Type} (program : BuildM α) (builder : Builder) (condition : Prop)
    (success : α → Builder → Prop) (failure : BuildError → Builder → Prop) : Prop :=
  match program.run builder with
  | .ok value next => condition ∧ success value next
  | .error error next => ¬condition ∧ failure error next

section Ends

variable {α β : Type} {program : BuildM α} {builder next : Builder} {condition : Prop}
  {success : α → Builder → Prop} {failure : BuildError → Builder → Prop}

theorem Ends.of_ok {value : α} (hrun : program.run builder = .ok value next)
    (hcondition : condition) (hsuccess : success value next) :
    Ends program builder condition success failure := by
  rw [Ends, hrun]
  exact ⟨hcondition, hsuccess⟩

theorem Ends.of_error {error : BuildError} (hrun : program.run builder = .error error next)
    (hcondition : ¬condition) (hfailure : failure error next) :
    Ends program builder condition success failure := by
  rw [Ends, hrun]
  exact ⟨hcondition, hfailure⟩

theorem Ends.mono {condition' : Prop} {success' : α → Builder → Prop}
    {failure' : BuildError → Builder → Prop}
    (hends : Ends program builder condition success failure) (hiff : condition' ↔ condition)
    (hsuccess : ∀ value next, condition → success value next → success' value next)
    (hfailure : ∀ error next, ¬condition → failure error next → failure' error next) :
    Ends program builder condition' success' failure' := by
  unfold Ends at hends ⊢
  split at hends
  next value next _ => exact ⟨hiff.mpr hends.1, hsuccess value next hends.1 hends.2⟩
  next error next _ => exact ⟨mt hiff.mp hends.1, hfailure error next hends.1 hends.2⟩

theorem Ends.mono_failure {failure' : BuildError → Builder → Prop}
    (hends : Ends program builder condition success failure)
    (hfailure : ∀ error next, ¬condition → failure error next → failure' error next) :
    Ends program builder condition success failure' :=
  hends.mono Iff.rfl (fun _ _ _ hsuccess => hsuccess) hfailure

/-- Programs that run alike end alike. -/
theorem Ends.of_run_eq {other : BuildM α} {start : Builder}
    (hends : Ends other start condition success failure)
    (hrun : program.run builder = other.run start) :
    Ends program builder condition success failure := by
  rw [Ends, hrun]
  exact hends

/-- A sequence succeeds if its first part does and the rest does on what that leaves. -/
theorem Ends.bind {needed : Prop} {middle : α → Builder → Prop} {rest : α → BuildM β}
    {success : β → Builder → Prop} (hfirst : Ends program builder needed middle failure)
    (hneeded : condition → needed)
    (hrest : ∀ value next, needed → middle value next →
      Ends (rest value) next condition success failure) :
    Ends (program >>= rest) builder condition success failure := by
  unfold Ends at hfirst
  rw [Ends, EStateM.run_bind]
  split at hfirst
  next value next hrun =>
    rw [hrun]
    exact hrest value next hfirst.1 hfirst.2
  next error next hrun =>
    rw [hrun]
    exact ⟨mt hneeded hfirst.1, hfirst.2⟩

/-- A sequence whose first part gives a known result. -/
theorem Ends.bind_ok {value : α} {rest : α → BuildM β} {success : β → Builder → Prop}
    (hrun : program.run builder = .ok value next)
    (hrest : Ends (rest value) next condition success failure) :
    Ends (program >>= rest) builder condition success failure :=
  hrest.of_run_eq (by rw [EStateM.run_bind, hrun])

theorem Ends.of_run_ok (hends : Ends program builder condition success failure) {value : α}
    (hrun : program.run builder = .ok value next) : condition ∧ success value next := by
  rw [Ends, hrun] at hends
  exact hends

theorem Ends.of_run_error (hends : Ends program builder condition success failure)
    {error : BuildError} (hrun : program.run builder = .error error next) :
    ¬condition ∧ failure error next := by
  rw [Ends, hrun] at hends
  exact hends

end Ends

/-- Builders that stand at the same place, whatever bytes they hold. -/
structure SamePlace (left right : Builder) : Prop where
  cursor : left.cursor = right.cursor
  appended : left.appended = right.appended
  complete : left.complete = right.complete

/-- Builders that differ in their transcoders at most. -/
structure SameTuple (left right : Builder) : Prop extends SamePlace left right where
  buffer : left.buffer = right.buffer

theorem SamePlace.rfl {builder : Builder} : builder.SamePlace builder :=
  ⟨Eq.refl _, Eq.refl _, Eq.refl _⟩

theorem SameTuple.rfl {builder : Builder} : builder.SameTuple builder :=
  ⟨.rfl, Eq.refl _⟩

theorem SameTuple.symm {left right : Builder} (hsame : left.SameTuple right) :
    right.SameTuple left :=
  ⟨⟨hsame.cursor.symm, hsame.appended.symm, hsame.complete.symm⟩, hsame.buffer.symm⟩

theorem SameTuple.trans {first second third : Builder} (hfirst : first.SameTuple second)
    (hsecond : second.SameTuple third) : first.SameTuple third :=
  ⟨⟨hfirst.cursor.trans hsecond.cursor, hfirst.appended.trans hsecond.appended,
    hfirst.complete.trans hsecond.complete⟩, hfirst.buffer.trans hsecond.buffer⟩

/-- How an append ends that is refused: the caller may go on with another datum. -/
def Refused (builder : Builder) (error : BuildError) (next : Builder) : Prop :=
  error.isRefusal = true ∧ next.SameTuple builder

section Accept

variable {plan : Plan} {builder : Builder} {column : Column}

theorem run_nextColumn (hcomplete : builder.complete = false)
    (hcolumn : (plan.schema.columns builder.cursor.role).get? builder.cursor.column = some column) :
    (nextColumn plan).run builder = .ok column builder := by
  simp [nextColumn, hcomplete, hcolumn]

theorem run_nextColumn_complete (hcomplete : builder.complete = true) :
    (nextColumn plan).run builder = .error .complete builder := by
  simp [nextColumn, hcomplete]

theorem checkKind_ends (kind : ValueKind) :
    Ends (checkKind column kind) builder (column.type.kind = kind) (fun _ next => next = builder)
      (Refused builder) := by
  by_cases hkind : column.type.kind = kind
  · exact .of_ok (by rw [checkKind, if_pos hkind]; rfl) hkind rfl
  · exact .of_error (by rw [checkKind, if_neg hkind]; rfl) hkind ⟨rfl, .rfl⟩

theorem checkEntry_ends :
    Ends checkEntry builder (builder.cursor.entry < builder.cursor.slots)
      (fun _ next => next = builder) (Refused builder) := by
  by_cases hroom : builder.cursor.entry < builder.cursor.slots
  · have hrun : checkEntry.run builder = .ok () builder := by
      simp [checkEntry, Cursor.isTableFull, Nat.not_le.mpr hroom]
    exact .of_ok hrun hroom rfl
  · have hfull := Nat.not_lt.mp hroom
    have hrun : checkEntry.run builder = .error (.varlenCount builder.cursor.role
        builder.cursor.slots (builder.cursor.entry + 1)) builder := by
      simp [checkEntry, Cursor.isTableFull, hfull]
    exact .of_error hrun hroom ⟨decide_eq_true (Nat.lt_succ_of_le hfull), .rfl⟩

/-- A transcoder gives the text that units spell, whatever it was used for before. -/
theorem transcode_ends (units : List UInt16) :
    Ends (transcode column units) builder (∀ index, ¬Utf16.IsUnpaired units index)
      (fun payload next => payload = ((Utf16.toString? units).map utf8Bytes).getD [] ∧
        next.SameTuple builder)
      (Refused builder) := by
  have hsame : SameTuple { builder with transcoder := (builder.transcoder.transcode units).2 }
      builder := ⟨⟨rfl, rfl, rfl⟩, rfl⟩
  -- The transcoder is left with its scratch space used, also where the units are refused.
  cases htext : Utf16.toString? units with
  | none =>
      obtain ⟨failure, hfailure⟩ := Transcoder.transcode_of_none htext builder.transcoder
      have hrun : (transcode column units).run builder =
          .error (.unpairedSurrogate column.name failure.position)
            { builder with transcoder := (builder.transcoder.transcode units).2 } := by
        simp only [transcode, EStateM.run_bind, EStateM.run_modifyGet, hfailure]
        rfl
      refine .of_error hrun ?_ ⟨rfl, hsame⟩
      rw [← Utf16.isSome_toString?, htext]
      exact Bool.false_ne_true
  | some text =>
      have hpayload := Transcoder.transcode_of_toString? htext builder.transcoder
      have hrun : (transcode column units).run builder = .ok (utf8Bytes text)
          { builder with transcoder := (builder.transcoder.transcode units).2 } := by
        simp [transcode, hpayload]
      refine .of_ok hrun ?_ ⟨rfl, hsame⟩
      rw [← Utf16.isSome_toString?, htext]
      rfl

theorem bitmaskField_ends {bits : Nat} (htype : column.type = .bitmask bits) (mask : List UInt8) :
    Ends (bitmaskField column mask) builder
      (∀ index, BitSet.contains mask index = true → index < bits)
      (fun field next => field = .ofBitmask bits mask ∧ next = builder) (Refused builder) := by
  by_cases hbits : BitSet.bitLength mask ≤ bits
  · have hrun : (bitmaskField column mask).run builder = .ok (.ofBitmask bits mask) builder := by
      simp [bitmaskField, htype, Nat.not_lt.mpr hbits]
    exact .of_ok hrun (BitSet.bitLength_le_iff.mp hbits) ⟨rfl, rfl⟩
  · have hrun : (bitmaskField column mask).run builder =
        .error (.bitmaskOverflow column.name (BitSet.bitLength mask) bits) builder := by
      rw [bitmaskField, htype]
      exact congrArg (EStateM.run · builder) (if_pos (Nat.not_le.mp hbits))
    exact .of_error hrun (mt BitSet.bitLength_le_iff.mpr hbits) ⟨rfl, .rfl⟩

/-- A datum that is accepted for its kind alone. -/
theorem Ends.of_kind {program : BuildM Field} {kind : ValueKind} {datum : Datum} {field : Field}
    (hends : Ends program builder (column.type.kind = kind)
      (fun result next => result = field ∧ next = builder) (Refused builder))
    (htakes : column.Takes datum ↔ some kind = some column.type.kind)
    (hfield : datum.field column.type = field) (hfixed : field.isVarlen = false) :
    Ends program builder
      (column.Takes datum ∧ ((datum.field column.type).isVarlen = true →
        builder.cursor.entry < builder.cursor.slots))
      (fun result next => result = datum.field column.type ∧ next.SameTuple builder)
      (Refused builder) := by
  apply hends.mono
  · rw [htakes, Option.some.injEq, hfield, hfixed, eq_comm]
    exact and_iff_left nofun
  · rintro result next _ ⟨rfl, rfl⟩
    exact ⟨hfield.symm, .rfl⟩
  · intro _ _ _ hrefused
    exact hrefused

theorem acceptScalar_ends (hcomplete : builder.complete = false)
    (hcolumn : (plan.schema.columns builder.cursor.role).get? builder.cursor.column = some column)
    (kind : ValueKind) (scalar : Scalar) :
    Ends (acceptScalar plan kind scalar) builder (column.type.kind = kind)
      (fun field next => field = .ofScalar scalar ∧ next = builder) (Refused builder) := by
  refine .bind_ok (run_nextColumn hcomplete hcolumn) ?_
  refine (checkKind_ends kind).bind id ?_
  rintro _ _ hkind rfl
  exact .of_ok rfl hkind ⟨rfl, rfl⟩

/-- A value with a table entry is accepted for its kind, while there is room. -/
theorem acceptVarlen_ends (hcomplete : builder.complete = false)
    (hcolumn : (plan.schema.columns builder.cursor.role).get? builder.cursor.column = some column)
    (kind : ValueKind) (payload : List UInt8) :
    Ends (do
        checkKind (← nextColumn plan) kind
        checkEntry
        pure (Field.varlen payload))
      builder
      (some kind = some column.type.kind ∧
        (true = true → builder.cursor.entry < builder.cursor.slots))
      (fun field next => field = Field.varlen payload ∧ next.SameTuple builder)
      (Refused builder) := by
  refine .bind_ok (run_nextColumn hcomplete hcolumn) ?_
  refine (checkKind_ends kind).bind (fun hends => (Option.some.inj hends.1).symm) ?_
  rintro _ _ hkind rfl
  refine checkEntry_ends.bind (fun hends => hends.2 rfl) ?_
  rintro _ _ hroom rfl
  exact .of_ok rfl ⟨congrArg some hkind.symm, fun _ => hroom⟩ ⟨rfl, .rfl⟩

/-- A datum is accepted exactly if the next column takes it and its field finds room
in the table. -/
def Accepts (plan : Plan) (builder : Builder) (column : Column) (datum : Datum) : Prop :=
  Ends (accept plan datum) builder
    (column.Takes datum ∧ ((datum.field column.type).isVarlen = true →
      builder.cursor.entry < builder.cursor.slots))
    (fun field next => field = datum.field column.type ∧ next.SameTuple builder)
    (Refused builder)

theorem accepts_null (hcomplete : builder.complete = false)
    (hcolumn : (plan.schema.columns builder.cursor.role).get? builder.cursor.column = some column) :
    Accepts plan builder column .null := by
  refine .bind_ok (run_nextColumn hcomplete hcolumn) ?_
  by_cases hnull : column.nullable = true
  · rw [if_pos hnull]
    exact .of_ok rfl ⟨hnull, nofun⟩ ⟨rfl, .rfl⟩
  · rw [if_neg hnull]
    exact .of_error rfl (fun htakes => hnull htakes.1) ⟨rfl, .rfl⟩

theorem accepts_uuid (hcomplete : builder.complete = false)
    (hcolumn : (plan.schema.columns builder.cursor.role).get? builder.cursor.column = some column)
    (number : BitVec 128) : Accepts plan builder column (.uuid number) := by
  have hends : Ends (accept plan (.uuid number)) builder (column.type.kind = .uuid)
      (fun field next => field = .ofUuid number ∧ next = builder) (Refused builder) := by
    refine .bind_ok (run_nextColumn hcomplete hcolumn) ((checkKind_ends .uuid).bind id ?_)
    rintro _ _ hkind rfl
    exact .of_ok rfl hkind ⟨rfl, rfl⟩
  exact hends.of_kind Iff.rfl rfl rfl

/-- Room in the table is asked for before the units are looked at. -/
theorem accepts_utf16 (hcomplete : builder.complete = false)
    (hcolumn : (plan.schema.columns builder.cursor.role).get? builder.cursor.column = some column)
    (units : List UInt16) : Accepts plan builder column (.utf16 units) := by
  refine .bind_ok (run_nextColumn hcomplete hcolumn) ?_
  refine (checkKind_ends .string).bind (fun hends => by rw [hends.1.1]; rfl) ?_
  rintro _ _ hkind rfl
  have htype : column.type = .string := ColumnType.eq_of_kind_eq hkind (by decide)
  refine checkEntry_ends.bind (fun hends => hends.2 rfl) ?_
  rintro _ _ hroom rfl
  refine (transcode_ends units).bind (fun hends => hends.1.2) ?_
  rintro payload next hpaired ⟨rfl, hsame⟩
  exact .of_ok rfl ⟨⟨htype, hpaired⟩, fun _ => hroom⟩ ⟨rfl, hsame⟩

theorem accepts_bitmask (hcomplete : builder.complete = false)
    (hcolumn : (plan.schema.columns builder.cursor.role).get? builder.cursor.column = some column)
    (mask : List UInt8) : Accepts plan builder column (.bitmask mask) := by
  refine .bind_ok (run_nextColumn hcomplete hcolumn) ?_
  refine (checkKind_ends .bitmask).bind ?_ ?_
  · rintro ⟨⟨bits, htype, _⟩, _⟩
    rw [htype]
    rfl
  · rintro _ _ hkind rfl
    obtain ⟨bits, htype⟩ := ColumnType.eq_bitmask_of_kind hkind
    apply (bitmaskField_ends htype mask).mono
    · rw [Column.takes_bitmask_iff htype]
      exact and_iff_left nofun
    · rintro field next _ ⟨rfl, rfl⟩
      rw [htype]
      exact ⟨rfl, .rfl⟩
    · intro _ _ _ hrefused
      exact hrefused

theorem accept_ends (hcomplete : builder.complete = false)
    (hcolumn : (plan.schema.columns builder.cursor.role).get? builder.cursor.column = some column)
    (datum : Datum) : Accepts plan builder column datum := by
  have hscalar := acceptScalar_ends hcomplete hcolumn
  cases datum with
  | null => exact accepts_null hcomplete hcolumn
  | byte number => exact (hscalar .byte (.int8 number)).of_kind Iff.rfl rfl rfl
  | short number => exact (hscalar .short (.int16 number)).of_kind Iff.rfl rfl rfl
  | integer number => exact (hscalar .integer (.int32 number)).of_kind Iff.rfl rfl rfl
  | long number => exact (hscalar .long (.int64 number)).of_kind Iff.rfl rfl rfl
  | float bits => exact (hscalar .float (.float32 bits)).of_kind Iff.rfl rfl rfl
  | double bits => exact (hscalar .double (.float64 bits)).of_kind Iff.rfl rfl rfl
  | uuid number => exact accepts_uuid hcomplete hcolumn number
  | string text => exact acceptVarlen_ends hcomplete hcolumn .string (utf8Bytes text)
  | bytes content => exact acceptVarlen_ends hcomplete hcolumn .bytes content
  | utf16 units => exact accepts_utf16 hcomplete hcolumn units
  | bitmask mask => exact accepts_bitmask hcomplete hcolumn mask

/-- A value with a table entry that the column takes is refused for want of an entry alone. -/
theorem accept_of_full {datum : Datum} (hcomplete : builder.complete = false)
    (hcolumn : (plan.schema.columns builder.cursor.role).get? builder.cursor.column = some column)
    (htakes : column.Takes datum) (hvarlen : (datum.field column.type).isVarlen = true)
    (hfull : builder.cursor.slots ≤ builder.cursor.entry) :
    (accept plan datum).run builder = .error (.varlenCount builder.cursor.role
      builder.cursor.slots (builder.cursor.entry + 1)) builder := by
  have hnext := run_nextColumn hcomplete hcolumn
  have hcheck : checkEntry.run builder = .error (.varlenCount builder.cursor.role
      builder.cursor.slots (builder.cursor.entry + 1)) builder := by
    simp [checkEntry, Cursor.isTableFull, hfull]
  cases datum with
  | string text =>
      have hkind : column.type.kind = .string := (Option.some.inj htakes).symm
      simp only [accept, checkKind, hkind, EStateM.run_bind, EStateM.run_pure, if_true, hnext,
        hcheck]
  | utf16 units =>
      have hkind : column.type.kind = .string := by rw [htakes.1]; rfl
      simp only [accept, checkKind, hkind, EStateM.run_bind, EStateM.run_pure, if_true, hnext,
        hcheck]
  | bytes content =>
      have hkind : column.type.kind = .bytes := (Option.some.inj htakes).symm
      simp only [accept, checkKind, hkind, EStateM.run_bind, EStateM.run_pure, if_true, hnext,
        hcheck]
  | _ => contradiction

/-- A complete tuple takes nothing more. -/
theorem accept_complete (hcomplete : builder.complete = true) (datum : Datum) :
    (accept plan datum).run builder = .error .complete builder := by
  have hnext := @run_nextColumn_complete plan _ hcomplete
  cases datum <;> simp [accept, acceptScalar, hnext]

end Accept

end Builder

end PackedTuple
