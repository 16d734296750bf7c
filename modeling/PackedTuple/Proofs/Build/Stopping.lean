import PackedTuple.Proofs.Build.Outcome

/-! # Where a run stops

A run that fails stops at one of its steps: the start, or the append of a datum. With
data that the columns take, the step and the error follow from the data alone, by the
first chunk in which a count, a start or a length goes wrong.
-/

namespace PackedTuple

/-- The datum at a place is a value of variable length of a chunk. -/
def Image.IsVarlenAt (schema : Schema) (data : List Datum) (role : ChunkRole) (place : Nat) :
    Prop :=
  schema.begins role ≤ place ∧ ∃ column datum,
    (cells schema data role)[place - schema.begins role]? = some (column, datum) ∧
      datum ≠ .null ∧ column.isFixedLength = false

namespace Plan

/-- How many variable-length values the data have for a chunk, nulls left out. -/
def supplied (plan : Plan) (data : List Datum) (role : ChunkRole) : Nat :=
  (Image.payloads (Image.cells plan.schema data role)).length

/-- The first variable-length value of a chunk that starts further behind than a table entry
can say. It starts where the chunk would end without it and all that follows. -/
structure IsFirstFar (plan : Plan) (data : List Datum) (role : ChunkRole) (place : Nat) : Prop where
  isVarlen : Image.IsVarlenAt plan.schema data role place
  far : Layout.fieldMax < plan.chunkLength (data.take place) role
  first : ∀ earlier < place, Image.IsVarlenAt plan.schema data role earlier →
    plan.chunkLength (data.take earlier) role ≤ Layout.fieldMax

/-- The numbers of a chunk that are stored in front of a place fit their two bytes: the count,
and where the values start. -/
structure FitsBefore (plan : Plan) (data : List Datum) (role : ChunkRole) (place : Nat) :
    Prop where
  slots_le : plan.slots role ≤ Layout.fieldMax
  starts_le : ∀ earlier < place, Image.IsVarlenAt plan.schema data role earlier →
    plan.chunkLength (data.take earlier) role ≤ Layout.fieldMax

/-- What goes wrong in a chunk first, by the data alone: the step at which it does, and
the error. Step zero is the start, step `place + 1` the append of the datum at `place`.
Values are counted before a start or a length is looked at. -/
inductive FailsAt (plan : Plan) (data : List Datum) (role : ChunkRole) : Nat → BuildError → Prop
    where
  /-- More values are announced than the count of a chunk can say. -/
  | uncountable (hslots : Layout.fieldMax < plan.slots role) :
      FailsAt plan data role (plan.schema.begins role)
        (.chunkTooLarge role (4 + 2 * plan.slots role))
  /-- One more value than announced, wherever it starts. -/
  | surplus {place : Nat} (hvarlen : Image.IsVarlenAt plan.schema data role place)
      (hfits : plan.FitsBefore data role place)
      (hfull : plan.supplied (data.take place) role = plan.slots role) :
      FailsAt plan data role (place + 1)
        (.varlenCount role (plan.slots role) (plan.slots role + 1))
  /-- A value of those announced that starts too far behind. -/
  | far {place : Nat} (hvarlen : Image.IsVarlenAt plan.schema data role place)
      (hfits : plan.FitsBefore data role place)
      (hroom : plan.supplied (data.take place) role < plan.slots role)
      (hfar : Layout.fieldMax < plan.chunkLength (data.take place) role) :
      FailsAt plan data role (place + 1)
        (.chunkTooLarge role (plan.chunkLength (data.take place) role))
  /-- Fewer values than announced, however long the chunk. -/
  | missing (hfits : plan.FitsBefore data role (plan.schema.ends role))
      (hfew : plan.supplied data role < plan.slots role) :
      FailsAt plan data role (plan.schema.ends role)
        (.varlenCount role (plan.slots role) (plan.supplied data role))
  /-- As many values as announced, none of which starts too far behind, but the chunk is
  longer than its length can say. -/
  | long (hfits : plan.FitsBefore data role (plan.schema.ends role))
      (hfull : plan.supplied data role = plan.slots role)
      (hlong : Layout.fieldMax < plan.chunkLength data role) :
      FailsAt plan data role (plan.schema.ends role)
        (.chunkTooLarge role (plan.chunkLength data role))

variable {plan : Plan} {data : List Datum} {role : ChunkRole} {place count : Nat}

theorem isVarlenAt_take (hplace : place < count)
    (hvarlen : Image.IsVarlenAt plan.schema data role place) :
    Image.IsVarlenAt plan.schema (data.take count) role place := by
  obtain ⟨hbegun, column, datum, hcell, hvalue⟩ := hvarlen
  refine ⟨hbegun, column, datum, ?_, hvalue⟩
  rw [Image.cells_take, List.getElem?_take_of_lt (by omega), hcell]

theorem lt_ends_of_isVarlenAt (hvarlen : Image.IsVarlenAt plan.schema data role place) :
    place < plan.schema.ends role := by
  obtain ⟨hbegun, _, _, hcell, _⟩ := hvarlen
  have hlength := (List.getElem?_eq_some_iff.mp hcell).1
  rw [Image.length_cells] at hlength
  unfold Schema.ends
  omega

/-- Once a chunk has all its columns, further data leave it alone. -/
theorem draft_take_of_ends_le (hends : plan.schema.ends role ≤ count) :
    plan.draft (data.take count) role = plan.draft data role := by
  rw [draft, draft, Image.cells_take, List.take_of_length_le]
  rw [Image.length_cells]
  unfold Schema.ends at hends
  omega

section Takes

variable
  (htakes : ∀ role, ∀ cell ∈ Image.cells plan.schema data role, cell.1.Takes cell.2)

include htakes

theorem takes_take (count : Nat) :
    ∀ role, ∀ cell ∈ Image.cells plan.schema (data.take count) role, cell.1.Takes cell.2 := by
  intro role cell hcell
  rw [Image.cells_take] at hcell
  exact htakes role cell (List.mem_of_mem_take hcell)

/-- The values in front of a value tell which entry it has, and where it starts. -/
theorem getElem?_starts_of_isVarlenAt (hvarlen : Image.IsVarlenAt plan.schema data role place) :
    (plan.draft data role).starts[plan.supplied (data.take place) role]? =
      some (plan.chunkLength (data.take place) role) := by
  obtain ⟨_, column, datum, hcell, hnull, hlength⟩ := hvarlen
  have hfront := takes_take htakes place
  have hfield : (plan.draft data role).fields[place - plan.schema.begins role]? =
      some (datum.field column.type) :=
    getElem?_fields_eq_some.mpr ⟨_, hcell, rfl⟩
  have hentry : (datum.field column.type).isVarlen = true := by
    rw [Datum.isVarlen_field (htakes role _ (List.mem_of_getElem? hcell)), hlength,
      bne_iff_ne.mpr hnull]
    rfl
  have hentries : (plan.draft data role).entriesBefore (place - plan.schema.begins role) =
      plan.supplied (data.take place) role := by
    rw [supplied, ← length_starts_draft hfront, draft_take]
    exact (Field.length_starts ..).symm
  rw [← hentries, ← length_draft_eq hfront, length_draft_take]
  exact Draft.start_of_varlen hfield hentry

theorem supplied_take_lt (hvarlen : Image.IsVarlenAt plan.schema data role place) :
    plan.supplied (data.take place) role < plan.supplied data role := by
  have hstart := getElem?_starts_of_isVarlenAt htakes hvarlen
  have hentry := (List.getElem?_eq_some_iff.mp hstart).1
  rwa [length_starts_draft htakes] at hentry

/-- The values of a chunk are counted one by one. -/
theorem le_of_supplied_take_le (hvarlen : Image.IsVarlenAt plan.schema data role place)
    (hle : plan.supplied (data.take count) role ≤ plan.supplied (data.take place) role) :
    count ≤ place := by
  apply Nat.not_lt.mp
  intro hlt
  have hmore := supplied_take_lt (takes_take htakes count) (isVarlenAt_take hlt hvarlen)
  rw [List.take_take, Nat.min_eq_left (Nat.le_of_lt hlt)] at hmore
  exact Nat.not_le.mpr hmore hle

theorem lt_of_supplied_take_lt (hvarlen : Image.IsVarlenAt plan.schema data role place)
    (hlt : plan.supplied (data.take count) role < plan.supplied (data.take place) role) :
    count < place := by
  have hne : count ≠ place := by
    intro heq
    rw [heq] at hlt
    exact Nat.lt_irrefl _ hlt
  exact Nat.lt_of_le_of_ne (le_of_supplied_take_le htakes hvarlen (Nat.le_of_lt hlt)) hne

/-- A chunk only grows. -/
theorem chunkLength_take_le_chunkLength (count : Nat) :
    plan.chunkLength (data.take count) role ≤ plan.chunkLength data role := by
  rw [← length_draft_eq (takes_take htakes count), ← length_draft_eq htakes, length_draft_take]
  exact Draft.position_le_length ..

/-- What is stored of a chunk that can go on fits. -/
theorem fitsBefore_of_isOpen (hopen : (plan.draft (data.take count) role).IsOpen) :
    plan.FitsBefore data role count := by
  refine ⟨hopen.slots_le, fun earlier hearlier hvarlen => ?_⟩
  have hstart := getElem?_starts_of_isVarlenAt (takes_take htakes count)
    (isVarlenAt_take hearlier hvarlen)
  rw [List.take_take, Nat.min_eq_left (Nat.le_of_lt hearlier)] at hstart
  exact hopen.starts_le _ (List.mem_of_getElem? hstart)

/-- What breaks a chunk at the end of some of the data is what goes wrong in it first. -/
theorem Breaks.failsAt {error : BuildError} (hcount : count ≤ data.length)
    (hbreaks : plan.Breaks (data.take count) role error) : plan.FailsAt data role count error := by
  have hlength : (data.take count).length = count := List.length_take_of_le hcount
  cases hbreaks with
  | opening hbegins hslots =>
      rw [hlength] at hbegins
      rw [hbegins, Layout.tableSize, Nat.mul_comm]
      exact .uncountable hslots
  | @adding before datum column _ hdata hbegun hcolumn hentry hopen hunfit =>
      rw [hdata, List.length_append, List.length_singleton] at hlength
      subst hlength
      have hbefore : data.take before.length = before := by
        calc data.take before.length = (data.take (before.length + 1)).take before.length := by
              rw [List.take_take, Nat.min_eq_left (Nat.le_succ _)]
          _ = before := by rw [hdata, List.take_left]
      have hdatum : data[before.length]? = some datum := by
        rw [← List.getElem?_take_of_lt (Nat.lt_succ_self _), hdata, List.getElem?_concat_length]
      have hcell : (Image.cells plan.schema data role)[before.length - plan.schema.begins role]? =
          some (column, datum) := by
        rw [Image.getElem?_cells_eq_some, Nat.add_sub_cancel' hbegun]
        exact ⟨hcolumn, hdatum⟩
      have hvarlen : Image.IsVarlenAt plan.schema data role before.length := by
        rw [Datum.isVarlen_field (htakes role _ (List.mem_of_getElem? hcell))] at hentry
        simp only [Bool.and_eq_true, bne_iff_ne, Bool.not_eq_true'] at hentry
        exact ⟨hbegun, column, datum, hcell, hentry⟩
      have hfront := takes_take htakes before.length
      rw [← hbefore] at hopen hunfit
      have hfits := fitsBefore_of_isOpen htakes hopen
      cases hunfit with
      | surplus hfull =>
          have hslots := Nat.le_antisymm hopen.entries_le hfull
          rw [hslots]
          rw [length_starts_draft hfront] at hslots
          exact .surplus hvarlen hfits hslots
      | far hroom hfar =>
          rw [length_starts_draft hfront] at hroom
          rw [length_draft_eq hfront] at hfar ⊢
          exact .far hvarlen hfits hroom hfar
  | closing hends hopen hunclosable =>
      rw [hlength] at hends
      subst hends
      have hfits := fitsBefore_of_isOpen htakes hopen
      rw [draft_take_of_ends_le (Nat.le_refl _)] at hunclosable
      cases hunclosable with
      | missing hfew =>
          rw [length_starts_draft htakes] at hfew ⊢
          exact .missing hfits hfew
      | long hfull hlong =>
          rw [length_starts_draft htakes] at hfull
          rw [length_draft_eq htakes] at hlong ⊢
          exact .long hfits hfull hlong

/-- A chunk whose numbers are too large is longer than such a number can say. -/
theorem FailsAt.long_of_large {step length : Nat} {other : ChunkRole}
    (hfails : plan.FailsAt data role step (.chunkTooLarge other length)) :
    role = other ∧ Layout.fieldMax < plan.chunkLength data role := by
  cases hfails with
  | uncountable hslots =>
      refine ⟨rfl, Nat.lt_of_lt_of_le hslots ?_⟩
      unfold chunkLength
      omega
  | @far place _ _ _ hfar =>
      exact ⟨rfl, Nat.lt_of_lt_of_le hfar (chunkLength_take_le_chunkLength htakes place)⟩
  | long _ _ hlong => exact ⟨rfl, hlong⟩

/-- A chunk that reports a count has not the one announced. -/
theorem FailsAt.supplied_ne {step declared appended : Nat} {other : ChunkRole}
    (hfails : plan.FailsAt data role step (.varlenCount other declared appended)) :
    role = other ∧ plan.supplied data role ≠ plan.slots role := by
  cases hfails with
  | surplus hvarlen _ hfull =>
      have hlt := supplied_take_lt htakes hvarlen
      exact ⟨rfl, by omega⟩
  | missing _ hfew => exact ⟨rfl, Nat.ne_of_lt hfew⟩

end Takes

/-- What goes wrong in a chunk does so once the chunk is begun. -/
theorem FailsAt.begins_le {step : Nat} {error : BuildError}
    (hfails : plan.FailsAt data role step error) : plan.schema.begins role ≤ step := by
  cases hfails with
  | uncountable => exact Nat.le_refl _
  | surplus hvarlen => exact Nat.le_succ_of_le hvarlen.1
  | far hvarlen => exact Nat.le_succ_of_le hvarlen.1
  | missing => exact Nat.le_add_right ..
  | long => exact Nat.le_add_right ..

end Plan

namespace Builder

/-- A run over data, from a buffer not written to, ends in an error at a step, and leaves a
builder behind. Step zero is the start, step `place + 1` the append of the datum at `place`. -/
inductive Stops (plan : Plan) (buffer : Buffer) (data : List Datum) :
    Nat → BuildError → Builder → Prop where
  | start {error : BuildError} {left : Builder} (hbuffer : buffer.written = 0)
      (hrun : (begin plan).run (fresh plan buffer) = .error error left) :
      Stops plan buffer data 0 error left
  | append {place : Nat} {datum : Datum} {builder left : Builder} {error : BuildError}
      (hfill : fill plan buffer (data.take place) = .ok builder)
      (hdatum : data[place]? = some datum)
      (hrun : (Builder.append plan datum).run builder = .error error left) :
      Stops plan buffer data (place + 1) error left

section Stops

variable {plan : Plan} {buffer : Buffer} {data rest : List Datum} {builder first left : Builder}
  {error : BuildError} {step place : Nat}

theorem appendAll_append (plan : Plan) (data rest : List Datum) :
    appendAll plan (data ++ rest) = (do appendAll plan data; appendAll plan rest) := by
  induction data with
  | nil => rfl
  | cons datum data ih => rw [List.cons_append, appendAll, ih, appendAll, bind_assoc]

/-- A run that fails has some of its data appended, and fails at the next. -/
theorem exists_append_of_run_error (hrun : (appendAll plan data).run first = .error error left) :
    ∃ place datum builder, (appendAll plan (data.take place)).run first = .ok () builder ∧
      data[place]? = some datum ∧ (append plan datum).run builder = .error error left := by
  induction data generalizing first with
  | nil => contradiction
  | cons datum rest ih =>
      rw [appendAll] at hrun
      rcases error_of_run_bind hrun with hstep | ⟨_, middle, hstep, hrest⟩
      · exact ⟨0, datum, first, rfl, rfl, hstep⟩
      · obtain ⟨place, other, builder, hfront, hother, hfail⟩ := ih hrest
        refine ⟨place + 1, other, builder, ?_, hother, hfail⟩
        rw [List.take_succ_cons, appendAll, EStateM.run_bind, hstep]
        exact hfront

theorem startIn_of_run_ok {result : Unit} (hbuffer : buffer.written = 0)
    (hrun : (begin plan).run (fresh plan buffer) = .ok result first) :
    startIn plan buffer = .ok first := by
  rw [startIn, if_neg (not_not_intro hbuffer), hrun]

theorem startIn_of_run_error (hbuffer : buffer.written = 0)
    (hrun : (begin plan).run (fresh plan buffer) = .error error left) :
    startIn plan buffer = .error error := by
  rw [startIn, if_neg (not_not_intro hbuffer), hrun]

theorem fill_of_startIn_error (hstart : startIn plan buffer = .error error) :
    fill plan buffer data = .error error := by
  rw [fill, hstart]
  rfl

/-- The step that a run stops at is where filling ends in an error. -/
theorem fill_eq_error_iff (hbuffer : buffer.written = 0) :
    fill plan buffer data = .error error ↔ ∃ step left, Stops plan buffer data step error left := by
  constructor
  · intro hfill
    cases hrun : (begin plan).run (fresh plan buffer) with
    | error cause left =>
        rw [fill_of_startIn_error (startIn_of_run_error hbuffer hrun)] at hfill
        obtain rfl := Except.error.inj hfill
        exact ⟨0, left, .start hbuffer hrun⟩
    | ok _ first =>
        have hbegin := startIn_of_run_ok hbuffer hrun
        cases hall : (appendAll plan data).run first with
        | ok _ builder =>
            rw [fill_of_run_ok hbegin hall] at hfill
            contradiction
        | error cause left =>
            rw [fill_of_run_error hbegin hall] at hfill
            obtain rfl := Except.error.inj hfill
            obtain ⟨place, datum, builder, hfront, hdatum, hfail⟩ := exists_append_of_run_error hall
            exact ⟨place + 1, left, .append (fill_of_run_ok hbegin hfront) hdatum hfail⟩
  · rintro ⟨_, left, hstops⟩
    cases hstops with
    | start _ hrun => exact fill_of_startIn_error (startIn_of_run_error hbuffer hrun)
    | @append place datum builder _ _ hfront hdatum hfail =>
        obtain ⟨first, hstart, hrun⟩ := run_of_fill hfront
        have hsplit : data = data.take place ++ datum :: data.drop (place + 1) := by
          obtain ⟨hplace, rfl⟩ := List.getElem?_eq_some_iff.mp hdatum
          rw [← List.drop_eq_getElem_cons hplace, List.take_append_drop]
        have hall : (appendAll plan data).run first = .error error left := by
          rw [hsplit, appendAll_append, EStateM.run_bind, hrun]
          change (appendAll plan (datum :: data.drop (place + 1))).run builder = _
          rw [appendAll, EStateM.run_bind, hfail]
        exact fill_of_run_error hstart hall

theorem take_succ_of_getElem? {datum : Datum} (hdatum : data[place]? = some datum) :
    data.take (place + 1) = data.take place ++ [datum] := by
  rw [List.take_add_one, hdatum]
  rfl

/-- A run stops at a chunk that the last of its data breaks, if the columns take the data.
An error that is not fatal leaves the builder as it was. -/
theorem Stops.broken (hstops : Stops plan buffer data step error left)
    (hcount : data.length ≤ plan.schema.columnCount)
    (htakes : ∀ role, ∀ cell ∈ Image.cells plan.schema data role, cell.1.Takes cell.2) :
    step ≤ data.length ∧ (∃ role, Broken plan (data.take step) role error left) ∧
      (error.isFatal = false → ∃ place, step = place + 1 ∧
        fill plan buffer (data.take place) = .ok left) := by
  cases hstops with
  | start hbuffer hrun =>
      obtain ⟨_, hfatal, hbroken⟩ := (begin_ends hbuffer).of_run_error hrun
      refine ⟨Nat.zero_le _, hbroken, fun hplain => ?_⟩
      rw [hfatal] at hplain
      contradiction
  | @append place datum builder _ _ hfill hdatum hrun =>
      have hplace := (List.getElem?_eq_some_iff.mp hdatum).1
      obtain ⟨hadmits, hstands⟩ := (reachable_of_fill hfill).stands
      have hleft : (data.take place).length < plan.schema.columnCount := by
        rw [List.length_take_of_le (Nat.le_of_lt hplace)]
        exact Nat.lt_of_lt_of_le hplace hcount
      have hfront := Plan.takes_take htakes (place + 1)
      rw [take_succ_of_getElem? hdatum] at hfront ⊢
      obtain ⟨hbroken, hkept⟩ := broken_of_append hadmits hstands hleft hfront hrun
      refine ⟨hplace, hbroken, fun hplain => ⟨place, rfl, ?_⟩⟩
      rw [hkept hplain, hfill]

/-- Where a run stops, and why, by the data alone. If it is the value chunk in which something
goes wrong, the key chunk is closed and stands in front of it. -/
theorem Stops.failsAt (hstops : Stops plan buffer data step error left)
    (hcount : data.length ≤ plan.schema.columnCount)
    (htakes : ∀ role, ∀ cell ∈ Image.cells plan.schema data role, cell.1.Takes cell.2) :
    ∃ role, plan.FailsAt data role step error ∧
      (role = .value → (plan.draft data .key).IsClosed ∧
        plan.front data .value <+: left.buffer.bytes.toList) := by
  obtain ⟨hstep, ⟨role, hclosed, hbreaks, hfront⟩, -⟩ := hstops.broken hcount htakes
  have hfails := hbreaks.failsAt htakes hstep
  refine ⟨role, hfails, ?_⟩
  rintro rfl
  have hbegun := hfails.begins_le
  have hkey : plan.draft (data.take step) .key = plan.draft data .key :=
    Plan.draft_take_of_ends_le (by rwa [Schema.ends_key])
  rw [← hkey, ← plan.front_take hbegun]
  exact ⟨hclosed rfl, hfront⟩

end Stops

end Builder

end PackedTuple
