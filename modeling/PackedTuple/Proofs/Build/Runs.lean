import PackedTuple.Build.Replay
import PackedTuple.Proofs.Build.Admission

/-! # Whole builds

Where a builder stands after data. One append succeeds exactly if the data with
the new datum are still admitted; by induction a run succeeds exactly if all its
data are.
-/

namespace PackedTuple

namespace Builder

/-- The builder is filling a chunk with data. -/
structure Filling (plan : Plan) (data : List Datum) (role : ChunkRole) (builder : Builder) :
    Prop where
  fills : Fills (plan.front data role) role (plan.draft data role) builder
  appended : builder.appended = data.length
  incomplete : builder.complete = false

/-- The builder has closed both chunks. -/
structure Finished (plan : Plan) (data : List Datum) (builder : Builder) : Prop where
  cursor : builder.cursor =
    (plan.draft data .value).cursor .value (plan.front data .value).length
  bytes : builder.buffer.bytes.toList = plan.front data .value ++ (plan.draft data .value).image
  appended : builder.appended = data.length
  complete : builder.complete = true

/-- Where a builder stands after data. -/
inductive Stands (plan : Plan) (data : List Datum) (builder : Builder) : Prop where
  | filling (hleft : data.length < plan.schema.columnCount)
      (hfilling : Filling plan data (plan.schema.roleAt data.length) builder)
  | finished (hfull : plan.schema.columnCount ≤ data.length)
      (hfinished : Finished plan data builder)

theorem Stands.appended {plan : Plan} {data : List Datum} {builder : Builder}
    (hstands : Stands plan data builder) : builder.appended = data.length := by
  cases hstands with
  | filling hleft hfilling => exact hfilling.appended
  | finished hfull hfinished => exact hfinished.appended

/-- The last of the data breaks a chunk. The key chunk is closed if it is not the one
that breaks, and what lies in front of the chunk is in place. -/
structure Broken (plan : Plan) (data : List Datum) (role : ChunkRole) (error : BuildError)
    (builder : Builder) : Prop where
  key_closed : role = .value → (plan.draft data .key).IsClosed
  breaks : plan.Breaks data role error
  front : plan.front data role <+: builder.buffer.bytes.toList

/-- How an operation ends that fails behind the last of the data: fatally, for a chunk is broken. -/
def Lost (plan : Plan) (data : List Datum) (error : BuildError) (builder : Builder) : Prop :=
  error.isFatal = true ∧ ∃ role, Broken plan data role error builder

/-! ## Closing what is full -/

section Settle

variable {plan : Plan} {data : List Datum} {role : ChunkRole} {builder : Builder}

/-- Closing the chunk that the builder fills, all columns of which have their datum. -/
theorem Filling.closeChunk_ends (hfilling : Filling plan data role builder)
    (hin : plan.AdmitsIn data role) (hlength : data.length = plan.schema.ends role) :
    Ends (closeChunk plan) builder (plan.draft data role).IsClosed
      (fun _ next => next.SamePlace builder ∧ next.buffer.bytes.toList =
        (if role = .key then plan.header (plan.hash (plan.draft data role).image)
          else plan.front data role) ++ (plan.draft data role).image)
      (Lost plan data) := by
  have hcount := plan.length_fields_draft_le data role
  have hheader : role = .key → plan.front data role = plan.header 0 := by
    rintro rfl
    rfl
  apply (Builder.closeChunk_ends hfilling.fills hin.isOpen.entries_le hcount hheader).mono_failure
  rintro error _ _ ⟨hunclosable, rfl⟩
  exact ⟨hunclosable.isFatal, role, hin.key_closed, .closing hlength hin.isOpen hunclosable,
    hfilling.fills.front⟩

theorem Filling.isFull_iff (hfilling : Filling plan data role builder)
    (hbegins : plan.schema.begins role ≤ data.length)
    (hends : data.length ≤ plan.schema.ends role) :
    builder.cursor.isFull = true ↔ data.length = plan.schema.ends role := by
  have hfields := plan.length_fields_draft data role
  rw [hfilling.fills.cursor, Cursor.isFull, beq_iff_eq]
  change (plan.draft data role).fields.length = (plan.schema.columns role).length ↔ _
  rw [hfields]
  unfold Schema.ends at hends ⊢
  omega

theorem closeFullChunk_of_not_full (hfull : ¬builder.cursor.isFull = true) :
    (closeFullChunk plan).run builder = .ok () builder := by
  simp [closeFullChunk, hfull]

theorem closeFullChunk_of_complete (hcomplete : builder.complete = true) :
    (closeFullChunk plan).run builder = .ok () builder := by
  simp [closeFullChunk, hcomplete]

theorem Filling.stands (hfilling : Filling plan data role builder)
    (hin : plan.AdmitsIn data role) (hleft : data.length < plan.schema.ends role) :
    Stands plan data builder := by
  have hbegins := hin.begins_le
  have hrole : plan.schema.roleAt data.length = role := by
    cases role with
    | key =>
        rw [Schema.ends_key] at hleft
        exact Schema.roleAt_key hleft
    | value => exact Schema.roleAt_value hbegins
  refine .filling ?_ (hrole.symm ▸ hfilling)
  cases role with
  | key =>
      rw [Schema.ends_key] at hleft
      exact Nat.lt_of_lt_of_le hleft (Nat.le_add_right ..)
  | value => exact hleft

/-- The value chunk is closed if it is full, and the tuple is complete then. -/
theorem closeFullChunk_value_ends (hfilling : Filling plan data .value builder)
    (hin : plan.AdmitsIn data .value) :
    Ends (closeFullChunk plan) builder (plan.Admits data) (fun _ next => Stands plan data next)
      (Lost plan data) := by
  by_cases hfull : builder.cursor.isFull = true
  · have hlength := (hfilling.isFull_iff hin.begins_le hin.length_le).mp hfull
    rw [hin.admits_iff_isClosed hlength]
    have hrole : builder.cursor.role = .value := by rw [hfilling.fills.cursor]; rfl
    have hrun : (closeFullChunk plan).run builder =
        (closeChunk plan >>= fun _ => modify fun current =>
          { current with complete := true }).run builder := by
      simp [closeFullChunk, hfull, hfilling.incomplete, Cursor.next?, hrole]
    refine .of_run_eq ?_ hrun
    refine (hfilling.closeChunk_ends hin hlength).bind id ?_
    rintro _ next hclosed ⟨hsame, hbytes⟩
    refine .of_ok rfl hclosed (.finished (Nat.le_of_eq hlength.symm) ⟨?_, hbytes, ?_, rfl⟩)
    · exact hsame.cursor.trans hfilling.fills.cursor
    · exact hsame.appended.trans hfilling.appended
  · have hisFull := hfilling.isFull_iff hin.begins_le hin.length_le
    have hleft : data.length < plan.schema.ends .value :=
      Nat.lt_of_le_of_ne hin.length_le (mt hisFull.mpr hfull)
    exact .of_ok (closeFullChunk_of_not_full hfull) (hin.admits hleft) (hfilling.stands hin hleft)

/-- A full key chunk is closed, and the value chunk opened behind it. -/
theorem closeFullChunk_key_ends (hfilling : Filling plan data .key builder)
    (hin : plan.AdmitsIn data .key) (hfull : data.length = plan.schema.key.length) :
    Ends (closeFullChunk plan) builder
      ((plan.draft data .key).IsClosed ∧ (plan.draft data .value).IsOpen)
      (fun _ next => Filling plan data .value next) (Lost plan data) := by
  have hkey : plan.schema.columnsAt builder.appended = plan.schema.value := by
    rw [hfilling.appended, Schema.columnsAt, Schema.roleAt_value (Nat.le_of_eq hfull.symm)]
    rfl
  have hisFull : builder.cursor.isFull = true :=
    (hfilling.isFull_iff hin.begins_le hin.length_le).mpr (hfull.trans plan.schema.ends_key.symm)
  have hrole : builder.cursor.role = .key := by rw [hfilling.fills.cursor]; rfl
  have hrun : (closeFullChunk plan).run builder =
      (closeChunk plan >>= fun _ => modify (fun current => { current with
        cursor := .start .value builder.cursor.offset plan.schema.value.length
          plan.schema.value.nullMapSize plan.valueVarlens }) >>= fun _ =>
            openChunk).run builder := by
    simp [closeFullChunk, hisFull, hfilling.incomplete, Cursor.next?, hrole, hkey]
  have hdraft : plan.draft data .value = .opened plan.schema.value.length plan.valueVarlens :=
    Plan.draft_of_length_le (Nat.le_of_eq hfull)
  have hoffset : builder.cursor.offset = (plan.front data .value).length := by
    rw [Plan.length_front_value hin.isOpen.entries_le, hfilling.fills.cursor]
    exact congrArg (· + _) (plan.length_header 0)
  refine .of_run_eq ?_ hrun
  -- The value chunk starts where the closed key chunk ends, so the hash is in front of it by now.
  refine (hfilling.closeChunk_ends hin (hfull.trans plan.schema.ends_key.symm)).bind And.left ?_
  rintro _ middle hclosed ⟨hsame, hbytes⟩
  rw [if_pos rfl] at hbytes
  refine .bind_ok rfl ?_
  rw [hdraft, hoffset]
  refine Ends.mono (openChunk_ends rfl hbytes) (and_iff_right hclosed) ?_ ?_
  · rintro _ next _ ⟨hplace, hfills⟩
    refine ⟨?_, ?_, ?_⟩
    · rw [hdraft]
      exact hfills
    · exact hplace.appended.trans (hsame.appended.trans hfilling.appended)
    · exact hplace.complete.trans (hsame.complete.trans hfilling.incomplete)
  · rintro _ _ hmany ⟨rfl, rfl⟩
    rw [Draft.isOpen_opened_iff, Nat.not_le] at hmany
    exact ⟨rfl, .value, fun _ => hclosed, .opening hfull hmany, hbytes ▸ List.prefix_refl _⟩

theorem closeFullChunk_of_stands (hstands : Stands plan data builder) :
    (closeFullChunk plan).run builder = .ok () builder := by
  cases hstands with
  | filling hleft hfilling =>
      have hends := Schema.lt_ends_roleAt hleft
      have hfull := hfilling.isFull_iff (Schema.begins_roleAt_le ..) (Nat.le_of_lt hends)
      exact closeFullChunk_of_not_full (mt hfull.mp (Nat.ne_of_lt hends))
  | finished hfull hfinished => exact closeFullChunk_of_complete hfinished.complete

theorem settle_value_ends (hfilling : Filling plan data .value builder)
    (hin : plan.AdmitsIn data .value) :
    Ends (settle plan) builder (plan.Admits data) (fun _ next => Stands plan data next)
      (Lost plan data) := by
  refine (closeFullChunk_value_ends hfilling hin).bind id ?_
  rintro _ next hadmits hstands
  exact .of_ok (closeFullChunk_of_stands hstands) hadmits hstands

/-- Two rounds close all that is full: a key chunk, and a value chunk without columns behind it. -/
theorem settle_key_ends (hfilling : Filling plan data .key builder)
    (hin : plan.AdmitsIn data .key) :
    Ends (settle plan) builder (plan.Admits data) (fun _ next => Stands plan data next)
      (Lost plan data) := by
  have hkey := plan.schema.ends_key
  by_cases hfull : data.length = plan.schema.key.length
  · refine (closeFullChunk_key_ends hfilling hin hfull).bind ?_ ?_
    · intro hadmits
      exact ⟨hadmits.isClosed .key (by omega), hadmits.isOpen .value (Nat.le_of_eq hfull.symm)⟩
    · rintro _ next ⟨hclosed, hopen⟩ hnext
      -- The second round has the value chunk before it, which is full if it has no columns.
      apply closeFullChunk_value_ends hnext
      refine ⟨Nat.le_of_eq hfull.symm, ?_, hin.takes, hopen, fun _ => hclosed⟩
      rw [hfull]
      exact Nat.le_add_right ..
  · have hleft : data.length < plan.schema.ends .key :=
      Nat.lt_of_le_of_ne hin.length_le (by omega)
    have hstands := hfilling.stands hin hleft
    have hidle := closeFullChunk_of_stands hstands
    refine .bind_ok hidle (.of_ok hidle (hin.admits hleft) hstands)

theorem settle_ends (hfilling : Filling plan data role builder) (hin : plan.AdmitsIn data role) :
    Ends (settle plan) builder (plan.Admits data) (fun _ next => Stands plan data next)
      (Lost plan data) := by
  cases role with
  | key => exact settle_key_ends hfilling hin
  | value => exact settle_value_ends hfilling hin

end Settle

/-! ## Runs -/

section Run

variable {plan : Plan} {data : List Datum} {builder : Builder} {buffer : Buffer}

/-- Starting succeeds exactly if the plan admits having no data yet. -/
theorem begin_ends (hbuffer : buffer.written = 0) :
    Ends (begin plan) (fresh plan buffer) (plan.Admits []) (fun _ next => Stands plan [] next)
      (Lost plan []) := by
  have hversion := Buffer.toList_put_end hbuffer
    (LittleEndian.encode Layout.versionWidth plan.schema.version.toNat)
  have hempty : buffer.bytes.toList = [] := by
    rw [Buffer.written_eq_length] at hbuffer
    exact List.length_eq_zero_iff.mp hbuffer
  rw [hempty, List.nil_append] at hversion
  have hwritten : (buffer.put 0 (LittleEndian.encode Layout.versionWidth
      plan.schema.version.toNat)).written = Layout.versionWidth := by
    rw [Buffer.written_eq_length, hversion, LittleEndian.length_encode]
  have hheader := Buffer.toList_put_end hwritten (LittleEndian.encode Layout.keyHashWidth 0)
  rw [hversion] at hheader
  have hdraft : plan.draft [] .key = .opened plan.schema.key.length plan.keyVarlens :=
    Plan.draft_of_length_le (Nat.zero_le _)
  have hcursor : (fresh plan buffer).cursor =
      (plan.draft [] .key).cursor .key (plan.header 0).length := by
    rw [hdraft, Plan.length_header]
    rfl
  rw [hdraft] at hcursor
  let written : Builder := { fresh plan buffer with
    buffer := (buffer.put 0 (LittleEndian.encode Layout.versionWidth
      plan.schema.version.toNat)).put Layout.versionWidth
        (LittleEndian.encode Layout.keyHashWidth 0) }
  have hopened : Ends openChunk written _ _ _ := openChunk_ends hcursor hheader
  refine .bind_ok rfl (.bind_ok rfl ((hopened.mono_failure ?_).bind ?_ ?_))
  · rintro _ _ hmany ⟨rfl, rfl⟩
    rw [Draft.isOpen_opened_iff, Nat.not_le] at hmany
    exact ⟨rfl, .key, nofun, .opening rfl hmany, hheader ▸ List.prefix_refl _⟩
  · intro hadmits
    rw [← hdraft]
    exact hadmits.isOpen .key (Nat.le_refl _)
  · rintro _ next hopen ⟨hplace, hfills⟩
    rw [← hdraft] at hopen hfills
    have hfilling : Filling plan [] .key next := ⟨hfills, hplace.appended, hplace.complete⟩
    apply settle_ends hfilling
    refine ⟨Nat.zero_le _, Nat.zero_le _, ?_, hopen, nofun⟩
    intro role cell hcell
    rw [Image.cells_eq_zip, List.drop_nil, List.zip_nil_right] at hcell
    exact absurd hcell List.not_mem_nil

/-- How an append ends that fails: the tuple is as it was, or the error is fatal. -/
def Failed (builder : Builder) (error : BuildError) (next : Builder) : Prop :=
  error.isFatal = false → next.SameTuple builder

theorem Ends.of_refused {α : Type} {program : BuildM α} {condition : Prop}
    {success : α → Builder → Prop}
    (hends : Ends program builder condition success (Refused builder)) :
    Ends program builder condition success (Failed builder) :=
  hends.mono_failure fun _ _ _ hrefused _ => hrefused.2

theorem Ends.of_lost {α : Type} {program : BuildM α} {start : Builder} {condition : Prop}
    {success : α → Builder → Prop}
    (hends : Ends program start condition success (Lost plan data)) :
    Ends program start condition success (Failed builder) := by
  apply hends.mono_failure
  rintro error _ _ ⟨hfatal, -⟩ hplain
  rw [hfatal] at hplain
  contradiction

theorem Filling.of_sameTuple {role : ChunkRole} {next : Builder}
    (hfilling : Filling plan data role builder) (hsame : next.SameTuple builder) :
    Filling plan data role next where
  fills := by
    obtain ⟨hcursor, hfront, hbytes⟩ := hfilling.fills
    rw [← hsame.buffer] at hfront hbytes
    exact ⟨hsame.cursor.trans hcursor, hfront, hbytes⟩
  appended := hsame.appended.trans hfilling.appended
  incomplete := hsame.complete.trans hfilling.incomplete

theorem Stands.of_sameTuple {next : Builder} (hstands : Stands plan data builder)
    (hsame : next.SameTuple builder) : Stands plan data next := by
  cases hstands with
  | filling hleft hfilling => exact .filling hleft (hfilling.of_sameTuple hsame)
  | finished hfull hfinished =>
      refine .finished hfull ⟨hsame.cursor.trans hfinished.cursor, ?_,
        hsame.appended.trans hfinished.appended, hsame.complete.trans hfinished.complete⟩
      rw [hsame.buffer]
      exact hfinished.bytes

/-- Placing the field of a datum that was accepted. -/
theorem place_ends {role : ChunkRole} {column : Column} {datum : Datum}
    (hfilling : Filling plan data role builder) (hadmits : plan.Admits data)
    (hbegun : plan.schema.begins role ≤ data.length)
    (hcolumn : (plan.schema.columns role).get? (data.length - plan.schema.begins role) =
      some column)
    (htakes : column.Takes datum)
    (hentry : (datum.field column.type).isVarlen = true →
      (plan.draft data role).starts.length < (plan.draft data role).slots) :
    Ends (place plan (datum.field column.type)) builder (plan.Admits (data ++ [datum]))
      (fun _ next => Stands plan (data ++ [datum]) next) (Lost plan (data ++ [datum])) := by
  have hdraft := Plan.draft_append_inside hbegun hcolumn datum
  have hindex := Columns.lt_length_of_get? hcolumn
  have hopen := hadmits.isOpen role hbegun
  have hfields : (plan.draft data role).fields.length < (plan.draft data role).columnCount := by
    rw [Plan.length_fields_draft]
    exact Nat.lt_of_le_of_lt (Nat.min_le_right ..) hindex
  have hbytes := hfilling.fills.bytes (fun hzero => by omega)
  have hfront := plan.front_append hbegun datum
  have hwrite := writeField_ends hfilling.fills.cursor hbytes hopen.entries_le hfields _ hentry
  refine (hwrite.mono_failure ?_).bind ?_ ?_
  · rintro _ next hfar ⟨rfl, hkept⟩
    obtain ⟨hvarlen, hfar⟩ := Classical.not_imp.mp hfar
    exact ⟨rfl, role, hadmits.key_closed_append hbegun datum,
      .adding rfl hbegun hcolumn hvarlen hopen (.far (hentry hvarlen) (Nat.not_le.mp hfar)),
      hfront.symm ▸ hkept⟩
  · intro hmore hvarlen
    have hadded := hmore.isOpen role (by rw [List.length_append]; omega)
    rw [hdraft] at hadded
    exact ((Draft.isOpen_add_iff.mp hadded).2 hvarlen).2
  · rintro _ next hfits ⟨hplace, hnext⟩
    refine .bind_ok rfl ?_
    apply @settle_ends plan _ role
    · refine ⟨⟨?_, ?_, fun _ => ?_⟩, ?_, hplace.complete.trans hfilling.incomplete⟩
      · rw [hdraft, Draft.cursor_add, hfront, ← hfilling.fills.cursor, ← hplace.cursor]
      · rw [hfront]
        exact ⟨_, hnext.symm⟩
      · rw [hdraft, hfront]
        exact hnext
      · rw [List.length_append, ← hfilling.appended, ← hplace.appended]
        rfl
    · apply hadmits.append_in hbegun hcolumn htakes
      rw [hdraft]
      exact Draft.isOpen_add_iff.mpr ⟨hopen, fun hvarlen => ⟨hentry hvarlen, hfits hvarlen⟩⟩

/-- The cursor stands at the column that the next datum is for. -/
theorem Filling.exists_column
    (hfilling : Filling plan data (plan.schema.roleAt data.length) builder)
    (hleft : data.length < plan.schema.columnCount) :
    ∃ column, (plan.schema.columns (plan.schema.roleAt data.length)).get?
        (data.length - plan.schema.begins (plan.schema.roleAt data.length)) = some column ∧
      (plan.schema.columns builder.cursor.role).get? builder.cursor.column = some column := by
  have hbegins := plan.schema.begins_roleAt_le data.length
  have hends := Schema.lt_ends_roleAt hleft
  obtain ⟨column, hcolumn⟩ : ∃ column, (plan.schema.columns (plan.schema.roleAt
      data.length)).get? (data.length - plan.schema.begins (plan.schema.roleAt data.length)) =
        some column := by
    apply Columns.get?_eq_some_of_lt
    unfold Schema.ends at hends
    omega
  refine ⟨column, hcolumn, ?_⟩
  rw [← hcolumn, hfilling.fills.cursor]
  change (plan.schema.columns (plan.schema.roleAt data.length)).get?
    (plan.draft data (plan.schema.roleAt data.length)).fields.length = _
  rw [Plan.length_fields_draft, Nat.min_eq_right]
  exact Nat.le_of_lt (Columns.lt_length_of_get? hcolumn)

/-- One append succeeds exactly if the data with the new datum are admitted. If it
fails and is not fatal, the tuple is as it was. -/
theorem append_ends (hadmits : plan.Admits data) (hstands : Stands plan data builder)
    (datum : Datum) :
    Ends (append plan datum) builder (plan.Admits (data ++ [datum]))
      (fun _ next => Stands plan (data ++ [datum]) next)
      (Failed builder) := by
  cases hstands with
  | finished hfull hfinished =>
      have hrun : (append plan datum).run builder = .error .complete builder := by
        rw [append, EStateM.run_bind, accept_complete hfinished.complete]
      refine .of_error hrun ?_ (fun _ => .rfl)
      intro hmore
      have hlength := hmore.length_le
      rw [List.length_append] at hlength
      exact absurd hfull (Nat.not_le.mpr hlength)
  | filling hleft hfilling =>
      have hbegun := plan.schema.begins_roleAt_le data.length
      obtain ⟨column, hcolumn, hnext⟩ := hfilling.exists_column hleft
      -- Accepting asks for one part of what the longer data have to meet, placing for the rest.
      have haccept := (accept_ends hfilling.incomplete hnext datum).of_refused
      rw [hfilling.fills.cursor] at haccept
      refine haccept.bind ?_ ?_
      · intro hmore
        have hopen := hmore.isOpen (plan.schema.roleAt data.length)
          (by rw [List.length_append]; omega)
        rw [Plan.draft_append_inside hbegun hcolumn] at hopen
        refine ⟨?_, fun hvarlen => ((Draft.isOpen_add_iff.mp hopen).2 hvarlen).1⟩
        apply hmore.takes (plan.schema.roleAt data.length) (column, datum)
        rw [Image.cells_append_inside hbegun hcolumn]
        exact List.mem_append_right _ (List.mem_singleton_self _)
      · rintro _ next ⟨htakes, hentry⟩ ⟨rfl, hsame⟩
        apply Ends.of_lost
        exact place_ends (hfilling.of_sameTuple hsame) hadmits hbegun hcolumn htakes hentry

/-- An append that fails has its datum refused, or else the field placed that it was accepted as. -/
theorem refused_or_lost {datum : Datum} {error : BuildError} {next : Builder}
    (hadmits : plan.Admits data) (hstands : Stands plan data builder)
    (happend : (append plan datum).run builder = .error error next) :
    ((accept plan datum).run builder = .error error next ∧ Refused builder error next) ∨
      ∃ field accepted, (accept plan datum).run builder = .ok field accepted ∧
        (place plan field).run accepted = .error error next ∧
          Lost plan (data ++ [datum]) error next := by
  rw [append, EStateM.run_bind] at happend
  cases hstands with
  | finished _ hfinished =>
      have haccept := @accept_complete plan _ hfinished.complete datum
      rw [haccept] at happend
      obtain ⟨rfl, rfl⟩ := EStateM.Result.error.inj happend
      exact .inl ⟨haccept, rfl, .rfl⟩
  | filling hleft hfilling =>
      obtain ⟨column, hcolumn, hnext⟩ := hfilling.exists_column hleft
      have hends := accept_ends hfilling.incomplete hnext datum
      split at happend
      next field accepted haccept =>
        obtain ⟨⟨htakes, hentry⟩, rfl, hsame⟩ := hends.of_run_ok haccept
        rw [hfilling.fills.cursor] at hentry
        have hplace := place_ends (hfilling.of_sameTuple hsame) hadmits
          (plan.schema.begins_roleAt_le data.length) hcolumn htakes hentry
        exact .inr ⟨_, accepted, haccept, happend, (hplace.of_run_error happend).2⟩
      next haccept =>
        obtain ⟨rfl, rfl⟩ := EStateM.Result.error.inj happend
        exact .inl ⟨haccept, (hends.of_run_error haccept).2⟩

/-- An append that fails breaks a chunk, if the columns take the data and one of them
is left. An error that is not fatal leaves the builder as it was. -/
theorem broken_of_append {datum : Datum} {error : BuildError} {next : Builder}
    (hadmits : plan.Admits data) (hstands : Stands plan data builder)
    (hleft : data.length < plan.schema.columnCount)
    (htakes : ∀ role, ∀ cell ∈ Image.cells plan.schema (data ++ [datum]) role,
      cell.1.Takes cell.2)
    (happend : (append plan datum).run builder = .error error next) :
    (∃ role, Broken plan (data ++ [datum]) role error next) ∧
      (error.isFatal = false → next = builder) := by
  rcases refused_or_lost hadmits hstands happend with
    ⟨haccept, _⟩ | ⟨_, _, _, _, hfatal, hbroken⟩
  · cases hstands with
    | finished hfull hfinished => exact absurd hleft (Nat.not_lt.mpr hfull)
    | filling _ hfilling =>
        have hbegun := plan.schema.begins_roleAt_le data.length
        obtain ⟨column, hcolumn, hnext⟩ := hfilling.exists_column hleft
        have htake : column.Takes datum := by
          apply htakes (plan.schema.roleAt data.length) (column, datum)
          rw [Image.cells_append_inside hbegun hcolumn]
          exact List.mem_append_right _ (List.mem_singleton_self _)
        -- The column takes the datum, so what it was refused for is the table.
        have hrefused := ((accept_ends hfilling.incomplete hnext datum).of_run_error haccept).1
        obtain ⟨hvarlen, hroom⟩ := Classical.not_imp.mp fun hentry => hrefused ⟨htake, hentry⟩
        have hfull := Nat.not_lt.mp hroom
        rw [accept_of_full hfilling.incomplete hnext htake hvarlen hfull] at haccept
        obtain ⟨rfl, rfl⟩ := EStateM.Result.error.inj haccept
        refine ⟨⟨_, hadmits.key_closed_append hbegun datum, ?_, ?_⟩, fun _ => rfl⟩
        · rw [hfilling.fills.cursor] at hfull ⊢
          exact .adding rfl hbegun hcolumn hvarlen (hadmits.isOpen _ hbegun) (.surplus hfull)
        · rw [plan.front_append hbegun]
          exact hfilling.fills.front
  · refine ⟨hbroken, fun hplain => ?_⟩
    rw [hfatal] at hplain
    contradiction

/-- A run succeeds exactly if all its data are admitted. -/
theorem appendAll_ends (hadmits : plan.Admits data) (hstands : Stands plan data builder)
    (rest : List Datum) :
    Ends (appendAll plan rest) builder (plan.Admits (data ++ rest))
      (fun _ next => Stands plan (data ++ rest) next) (fun _ _ => True) := by
  -- On the data still to come: each step moves one datum to those appended.
  induction rest generalizing data builder with
  | nil =>
      rw [List.append_nil]
      exact .of_ok rfl hadmits hstands
  | cons datum rest ih =>
      rw [List.append_cons]
      have hstep := append_ends hadmits hstands datum
      refine (hstep.mono_failure fun _ _ _ _ => trivial).bind Plan.Admits.of_append ?_
      rintro _ next hmore hnext
      exact ih hmore hnext

/-- Starting succeeds exactly in a buffer not written to, under a plan that admits
having no data yet. -/
theorem startIn_ends (plan : Plan) (buffer : Buffer) :
    match startIn plan buffer with
    | .ok builder => (buffer.written = 0 ∧ plan.Admits []) ∧ Stands plan [] builder
    | .error _ => ¬(buffer.written = 0 ∧ plan.Admits []) := by
  by_cases hbuffer : buffer.written = 0
  · have hbegin := @begin_ends plan buffer hbuffer
    rw [startIn, if_neg (not_not_intro hbuffer)]
    unfold Ends at hbegin
    split at hbegin
    next hrun =>
      rw [hrun]
      exact ⟨⟨hbuffer, hbegin.1⟩, hbegin.2⟩
    next hrun =>
      rw [hrun]
      intro hstart
      exact hbegin.1 hstart.2
  · rw [startIn, if_pos hbuffer]
    intro hstart
    exact hbuffer hstart.1

theorem fill_of_run_ok {next : Builder} {result : Unit} (hstart : startIn plan buffer = .ok builder)
    (hrun : (appendAll plan data).run builder = .ok result next) :
    fill plan buffer data = .ok next := by
  simp [fill, hstart, hrun, bind, Except.bind]

theorem fill_of_run_error {next : Builder} {error : BuildError}
    (hstart : startIn plan buffer = .ok builder)
    (hrun : (appendAll plan data).run builder = .error error next) :
    fill plan buffer data = .error error := by
  simp [fill, hstart, hrun, bind, Except.bind]

/-- Filling succeeds exactly with admitted data. -/
theorem fill_ends (plan : Plan) (buffer : Buffer) (data : List Datum) :
    match fill plan buffer data with
    | .ok builder => (buffer.written = 0 ∧ plan.Admits data) ∧ Stands plan data builder
    | .error _ => ¬(buffer.written = 0 ∧ plan.Admits data) := by
  have hstart := startIn_ends plan buffer
  cases hbuilder : startIn plan buffer with
  | error error =>
      rw [hbuilder] at hstart
      have hfill : fill plan buffer data = .error error := by
        rw [fill, hbuilder]
        rfl
      rw [hfill]
      -- Data are admitted only if having none yet is.
      intro hall
      exact hstart ⟨hall.1, Plan.Admits.of_append hall.2⟩
  | ok builder =>
      rw [hbuilder] at hstart
      obtain ⟨⟨hbuffer, hadmits⟩, hstands⟩ := hstart
      have hrest := appendAll_ends hadmits hstands data
      unfold Ends at hrest
      split at hrest
      next hrun =>
        rw [fill_of_run_ok hbuilder hrun]
        exact ⟨⟨hbuffer, hrest.1⟩, hrest.2⟩
      next hrun =>
        rw [fill_of_run_error hbuilder hrun]
        intro hall
        exact hrest.1 hall.2

theorem exists_fill (hbuffer : buffer.written = 0) (hadmits : plan.Admits data) :
    ∃ builder, fill plan buffer data = .ok builder := by
  have hends := fill_ends plan buffer data
  cases hfill : fill plan buffer data with
  | ok builder => exact ⟨builder, rfl⟩
  | error error =>
      rw [hfill] at hends
      exact absurd ⟨hbuffer, hadmits⟩ hends

/-- Whatever was refused in between, a builder stands where its data put it. -/
theorem Reachable.stands (hreach : Reachable plan data builder) :
    plan.Admits data ∧ Stands plan data builder := by
  induction hreach with
  | @start buffer _ hstart =>
      have hends := startIn_ends plan buffer
      rw [hstart] at hends
      exact ⟨hends.1.2, hends.2⟩
  | append _ happend ih => exact (append_ends ih.1 ih.2 _).of_run_ok happend
  | refuse _ happend hfatal ih =>
      have hfailed := ((append_ends ih.1 ih.2 _).of_run_error happend).2
      exact ⟨ih.1, ih.2.of_sameTuple (hfailed hfatal)⟩

theorem Reachable.appendAll {rest : List Datum} {next : Builder}
    (hreach : Reachable plan data builder)
    (hrun : (Builder.appendAll plan rest).run builder = .ok () next) :
    Reachable plan (data ++ rest) next := by
  induction rest generalizing data builder with
  | nil =>
      obtain rfl : builder = next := by
        simpa [Builder.appendAll] using hrun
      rwa [List.append_nil]
  | cons datum rest ih =>
      rw [Builder.appendAll] at hrun
      obtain ⟨_, middle, hstep, hrest⟩ := exists_of_run_bind hrun
      rw [List.append_cons]
      exact ih (hreach.append hstep) hrest

/-- Filling is starting and then appending. -/
theorem run_of_fill (hfill : fill plan buffer data = .ok builder) :
    ∃ first, startIn plan buffer = .ok first ∧
      (appendAll plan data).run first = .ok () builder := by
  cases hstart : startIn plan buffer with
  | error error =>
      rw [fill, hstart] at hfill
      contradiction
  | ok first =>
      cases hrun : (appendAll plan data).run first with
      | ok result next =>
          rw [fill_of_run_ok hstart hrun] at hfill
          obtain rfl := Except.ok.inj hfill
          exact ⟨first, rfl, hrun⟩
      | error error next =>
          rw [fill_of_run_error hstart hrun] at hfill
          contradiction

theorem reachable_of_fill (hfill : fill plan buffer data = .ok builder) :
    Reachable plan data builder := by
  obtain ⟨first, hstart, hrun⟩ := run_of_fill hfill
  exact (Reachable.start hstart).appendAll hrun

/-- Finishing succeeds exactly if the tuple is complete and not longer than a strict size hint. -/
theorem finish_eq_ok_iff (hadmits : plan.Admits data) (hstands : Stands plan data builder)
    {bytes : Array UInt8} :
    finish plan builder = .ok bytes ↔ data.length = plan.schema.columnCount ∧
      (plan.options.strictSize = true → (plan.image data).length ≤ plan.sizeHint) ∧
        bytes.toList = plan.image data := by
  cases hstands with
  | filling hleft hfilling =>
      rw [finish, if_pos hfilling.incomplete]
      exact iff_of_false nofun fun hall => Nat.ne_of_lt hleft hall.1
  | finished hfull hfinished =>
      have hlength : data.length = plan.schema.columnCount :=
        Nat.le_antisymm hadmits.length_le hfull
      have hbytes : builder.buffer.bytes.toList = plan.image data := hfinished.bytes
      have hwritten : builder.buffer.written = (plan.image data).length := by
        rw [Buffer.written_eq_length, hbytes]
      rw [finish, if_neg (by simp [hfinished.complete]), hwritten]
      by_cases hstrict : plan.sizeHint < (plan.image data).length ∧ plan.options.strictSize = true
      · rw [if_pos hstrict]
        exact iff_of_false nofun fun hall => Nat.not_le.mpr hstrict.1 (hall.2.1 hstrict.2)
      · rw [if_neg hstrict, Except.ok.injEq, ← hbytes, Array.toList_inj, eq_comm]
        constructor
        · intro heq
          refine ⟨hlength, ?_, heq⟩
          intro hoption
          apply Nat.not_lt.mp
          intro hlonger
          exact hstrict ⟨hbytes ▸ hlonger, hoption⟩
        · intro hall
          exact hall.2.2

/-- What a build gives, and when. -/
theorem buildIn_eq_ok_iff {bytes : Array UInt8} :
    buildIn plan buffer data = .ok bytes ↔
      buffer.written = 0 ∧ plan.Admits data ∧ data.length = plan.schema.columnCount ∧
        (plan.options.strictSize = true → (plan.image data).length ≤ plan.sizeHint) ∧
          bytes.toList = plan.image data := by
  have hends := fill_ends plan buffer data
  cases hfill : fill plan buffer data with
  | error error =>
      rw [hfill] at hends
      have hbuild : buildIn plan buffer data = .error error := by
        rw [buildIn, hfill]
        rfl
      rw [hbuild]
      exact iff_of_false nofun fun hall => hends ⟨hall.1, hall.2.1⟩
  | ok builder =>
      rw [hfill] at hends
      have hbuild : buildIn plan buffer data = finish plan builder := by
        rw [buildIn, hfill]
        rfl
      obtain ⟨⟨hbuffer, hadmits⟩, hstands⟩ := hends
      rw [hbuild, finish_eq_ok_iff hadmits hstands]
      exact ⟨fun hrest => ⟨hbuffer, hadmits, hrest⟩, fun hall => hall.2.2⟩

/-- A build is a run that is finished at its end. -/
theorem exists_reachable_of_buildIn {bytes : Array UInt8}
    (hbuild : buildIn plan buffer data = .ok bytes) :
    ∃ builder, Reachable plan data builder ∧ finish plan builder = .ok bytes := by
  unfold buildIn at hbuild
  cases hfill : fill plan buffer data with
  | error error =>
      rw [hfill] at hbuild
      contradiction
  | ok builder =>
      rw [hfill] at hbuild
      exact ⟨builder, reachable_of_fill hfill, hbuild⟩

end Run

end Builder

end PackedTuple
