import PackedTuple.Proofs.Build.Landing
import PackedTuple.Proofs.Build.Stopping

/-! # Chunks with another number of values than announced

A value beyond those announced for its chunk is refused before anything is written, and
a value short is noticed when the chunk is closed. The values are counted before the
length of the chunk is looked at, so only a count or a start that was too large before is
reported in their place. Nothing else reports a count, and the numbers reported tell
which of the two happened.
-/

namespace PackedTuple

namespace Builder

/-! ## Where errors come from -/

/-- The errors that a program ends in, whatever it is run on. -/
def Raises {α : Type} (raised : BuildError → Prop) (program : BuildM α) : Prop :=
  ∀ builder error left, program.run builder = .error error left → raised error

section Raises

variable {α β : Type} {raised : BuildError → Prop} {program : BuildM α}

theorem Raises.modify (change : Builder → Builder) :
    Raises raised (modify change : BuildM Unit) := by
  rintro _ _ _ ⟨⟩

theorem Raises.get {rest : Builder → BuildM α} (hrest : ∀ builder, Raises raised (rest builder)) :
    Raises raised (get >>= rest) :=
  fun builder => hrest builder builder

theorem Raises.bind {rest : α → BuildM β} (hfirst : Raises raised program)
    (hrest : ∀ value, Raises raised (rest value)) : Raises raised (program >>= rest) := by
  intro builder error left hrun
  rcases error_of_run_bind hrun with hcause | ⟨value, middle, _, hcause⟩
  · exact hfirst builder error left hcause
  · exact hrest value middle error left hcause

theorem Raises.guard {condition : Prop} [Decidable condition] {error : BuildError}
    {rest : Unit → BuildM α} (herror : raised error) (hrest : Raises raised (rest ())) :
    Raises raised (if condition then throw error >>= rest else rest ()) := by
  split
  · rintro _ _ _ ⟨⟩
    exact herror
  · exact hrest

end Raises

/-- The error of a number that does not fit. -/
def IsLarge (error : BuildError) : Prop :=
  ∃ role length, error = .chunkTooLarge role length

theorem openChunk_raises : Raises IsLarge openChunk :=
  .get fun _ => .guard ⟨_, _, rfl⟩ (.bind (.modify _) fun _ => .bind (.modify _) fun _ => .modify _)

theorem writeField_raises (field : Field) : Raises IsLarge (writeField field) := by
  cases field with
  | null => exact .modify _
  | fixed pieces => exact .modify _
  | varlen payload =>
      exact .get fun _ => .bind (.modify _) fun _ => .get fun _ => .guard ⟨_, _, rfl⟩ (.modify _)

/-! ## Closing what is full -/

/-- A start without the closing of full chunks. -/
def setUp (plan : Plan) : BuildM Unit := do
  write 0 (LittleEndian.encode Layout.versionWidth plan.schema.version.toNat)
  write Layout.versionWidth (LittleEndian.encode Layout.keyHashWidth 0)
  openChunk

theorem begin_eq_setUp (plan : Plan) : begin plan = (do setUp plan; settle plan) := by
  simp only [begin, setUp, bind_assoc]

theorem setUp_raises (plan : Plan) : Raises IsLarge (setUp plan) :=
  .bind (.modify _) fun _ => .bind (.modify _) fun _ => openChunk_raises

/-- The builders in which closing all that is full comes to close a chunk: the one that it is
run on, and the one that its first round leaves. -/
inductive ComesToClose (plan : Plan) (builder : Builder) : Builder → Prop where
  | first (hopen : builder.complete = false) (hfull : builder.cursor.isFull = true) :
      ComesToClose plan builder builder
  | second {next : Builder} (hround : (closeFullChunk plan).run builder = .ok () next)
      (hopen : next.complete = false) (hfull : next.cursor.isFull = true) :
      ComesToClose plan builder next

/-- Closing all that is full comes to close a chunk, which ends in the error. -/
def ClosingFails (plan : Plan) (builder : Builder) (error : BuildError) (left : Builder) : Prop :=
  ∃ full, ComesToClose plan builder full ∧ (closeChunk plan).run full = .error error left

/-- A start ends in the error on closing what has no columns. -/
def StartFailsOnClosing (plan : Plan) (buffer : Buffer) (error : BuildError) : Prop :=
  ∃ opened left, (setUp plan).run (fresh plan buffer) = .ok () opened ∧
    ClosingFails plan opened error left

/-- An append ends in the error on closing what the datum filled, once the datum has landed. -/
def FailsOnClosing (plan : Plan) (builder : Builder) (datum : Datum) (error : BuildError)
    (left : Builder) : Prop :=
  ∃ landed, (land plan datum).run builder = .ok () landed ∧ ClosingFails plan landed error left

section Reports

variable {plan : Plan} {data : List Datum} {builder left : Builder} {datum : Datum}
  {role : ChunkRole} {error : BuildError} {declared appended : Nat}

theorem not_isLarge_varlenCount : ¬IsLarge (.varlenCount role declared appended) := by
  rintro ⟨_, _, ⟨⟩⟩

/-- A round fails on closing the chunk, unless a number is too large for the next. -/
theorem closing_of_closeFullChunk (hrun : (closeFullChunk plan).run builder = .error error left) :
    IsLarge error ∨ (builder.complete = false ∧ builder.cursor.isFull = true ∧
      (closeChunk plan).run builder = .error error left) := by
  rcases error_of_run_bind hrun with ⟨⟨⟩⟩ | ⟨_, _, ⟨⟩, hrun⟩
  split at hrun
  next hfull =>
    rcases error_of_run_bind hrun with hclose | ⟨_, closed, _, hrun⟩
    · exact .inr ⟨hfull.1, hfull.2, hclose⟩
    · left
      dsimp only at hrun
      split at hrun
      next =>
        rcases error_of_run_bind hrun with ⟨⟨⟩⟩ | ⟨_, _, _, hopen⟩
        exact openChunk_raises _ _ _ hopen
      next => contradiction
  next => contradiction

theorem closing_of_settle (hrun : (settle plan).run builder = .error error left) :
    IsLarge error ∨ ClosingFails plan builder error left := by
  rcases error_of_run_bind hrun with hfirst | ⟨_, middle, hfirst, hsecond⟩
  · rcases closing_of_closeFullChunk hfirst with hlarge | ⟨hopen, hfull, hclose⟩
    · exact .inl hlarge
    · exact .inr ⟨builder, .first hopen hfull, hclose⟩
  · rcases closing_of_closeFullChunk hsecond with hlarge | ⟨hopen, hfull, hclose⟩
    · exact .inl hlarge
    · exact .inr ⟨middle, .second hfirst hopen hfull, hclose⟩

/-- A datum is refused for a count that would grow too large, and one that is accepted fails
for a count that is too small. -/
theorem appended_of_append (hreach : Reachable plan data builder)
    (happend : (append plan datum).run builder =
      .error (.varlenCount role declared appended) left) :
    appended ≠ declared ∧ (appended < declared ↔
      FailsOnClosing plan builder datum (.varlenCount role declared appended) left) := by
  obtain ⟨hadmits, hstands⟩ := hreach.stands
  rcases refused_or_lost hadmits hstands happend with
    ⟨haccept, hrefusal, _⟩ | ⟨field, accepted, haccept, _, hfatal, _⟩
  · have hmore : declared < appended := of_decide_eq_true hrefusal
    refine ⟨Nat.ne_of_gt hmore, iff_of_false (Nat.lt_asymm hmore) ?_⟩
    rintro ⟨landed, hland, _⟩
    obtain ⟨_, _, hok, _⟩ := exists_of_run_bind hland
    rw [haccept] at hok
    contradiction
  · have hless : appended < declared := of_decide_eq_true hfatal
    refine ⟨Nat.ne_of_lt hless, iff_of_true hless ?_⟩
    rw [append_eq_land] at happend
    rcases error_of_run_bind happend with hland | ⟨_, landed, hland, hsettle⟩
    · rw [land, EStateM.run_bind, haccept] at hland
      rcases error_of_run_bind hland with hwrite | ⟨_, _, _, ⟨⟩⟩
      exact absurd (writeField_raises field _ _ _ hwrite) not_isLarge_varlenCount
    · exact ⟨landed, hland, (closing_of_settle hsettle).resolve_left not_isLarge_varlenCount⟩

/-- Whatever count is reported at the start is too small, and found on closing a chunk. -/
theorem appended_of_startIn {buffer : Buffer}
    (hstart : startIn plan buffer = .error (.varlenCount role declared appended)) :
    appended < declared ∧
      StartFailsOnClosing plan buffer (.varlenCount role declared appended) := by
  unfold startIn at hstart
  split at hstart
  next => cases hstart
  next hbuffer =>
    split at hstart
    next => contradiction
    next error left hrun =>
      obtain rfl := Except.error.inj hstart
      have hfatal := ((begin_ends (Decidable.not_not.mp hbuffer)).of_run_error hrun).2.1
      refine ⟨of_decide_eq_true hfatal, ?_⟩
      rw [begin_eq_setUp] at hrun
      rcases error_of_run_bind hrun with hopen | ⟨_, opened, hopen, hsettle⟩
      · exact absurd (setUp_raises plan _ _ _ hopen) not_isLarge_varlenCount
      · exact ⟨opened, left, hopen,
          (closing_of_settle hsettle).resolve_left not_isLarge_varlenCount⟩

end Reports

end Builder

/-! ## Which chunk, and when -/

namespace Plan

/-- A run over data comes to a chunk if it closes the chunk in front of it. -/
def ComesTo (plan : Plan) (data : List Datum) (role : ChunkRole) : Prop :=
  role = .value → plan.supplied data .key = plan.slots .key ∧
    plan.chunkLength data .key ≤ Layout.fieldMax

section Takes

variable {plan : Plan} {data : List Datum} {role : ChunkRole} {count : Nat}

/-- A value with a given number of others of its chunk in front of it. -/
theorem exists_isVarlenAt (hlt : count < plan.supplied data role) :
    ∃ place, Image.IsVarlenAt plan.schema data role place ∧
      plan.supplied (data.take place) role = count := by
  obtain ⟨index, column, datum, hcell, hnull, hvarlen, hcount⟩ :=
    Image.exists_cell_of_lt_length_payloads hlt
  have hplace := Nat.add_sub_cancel_left (plan.schema.begins role) index
  refine ⟨plan.schema.begins role + index, ⟨Nat.le_add_right .., column, datum, ?_, hnull,
    hvarlen⟩, ?_⟩
  · rw [hplace, hcell]
  · rw [supplied, Image.cells_take, hplace, hcount]

variable
  (htakes : ∀ role, ∀ cell ∈ Image.cells plan.schema data role, cell.1.Takes cell.2)

include htakes

theorem supplied_le (hadmits : plan.Admits data) : plan.supplied data role ≤ plan.slots role := by
  rw [supplied, ← length_starts_draft htakes]
  by_cases hbegun : plan.schema.begins role ≤ data.length
  · exact (hadmits.isOpen role hbegun).entries_le
  · rw [draft_of_length_le (Nat.le_of_not_le hbegun)]
    exact Nat.zero_le _

/-- A chunk in which something goes wrong has another count than announced, or is too long. -/
theorem FailsAt.supplied_ne_or_long {step : Nat} {error : BuildError}
    (hfails : plan.FailsAt data role step error) :
    plan.supplied data role ≠ plan.slots role ∨
      Layout.fieldMax < plan.chunkLength data role := by
  have hcause := hfails
  cases hcause with
  | surplus => exact .inl (hfails.supplied_ne htakes).2
  | missing => exact .inl (hfails.supplied_ne htakes).2
  | _ => exact .inr (hfails.long_of_large htakes).2

/-- If there is a value more than announced, what goes wrong first is that value, unless a number
in front of it is too large. -/
theorem FailsAt.of_surplus {place step : Nat} {error : BuildError}
    (hvarlen : Image.IsVarlenAt plan.schema data role place)
    (hfull : plan.supplied (data.take place) role = plan.slots role)
    (hfails : plan.FailsAt data role step error) :
    (plan.FitsBefore data role place ∧ step = place + 1 ∧
      error = .varlenCount role (plan.slots role) (plan.slots role + 1)) ∨
    (¬plan.FitsBefore data role place ∧ step ≤ place ∧
      ∃ length, error = .chunkTooLarge role length) := by
  have hmore := supplied_take_lt htakes hvarlen
  cases hfails with
  | uncountable hslots =>
      exact .inr ⟨fun hfits => Nat.not_le.mpr hslots hfits.slots_le, hvarlen.1, _, rfl⟩
  | @surplus other hother hfits hcount =>
      have hequal := hcount.trans hfull.symm
      obtain rfl : other = place := Nat.le_antisymm
        (le_of_supplied_take_le htakes hvarlen (Nat.le_of_eq hequal))
        (le_of_supplied_take_le htakes hother (Nat.le_of_eq hequal.symm))
      exact .inl ⟨hfits, rfl, rfl⟩
  | @far other hother _ hroom hfar =>
      have hbefore : other < place :=
        lt_of_supplied_take_lt htakes hvarlen (Nat.lt_of_lt_of_eq hroom hfull.symm)
      refine .inr ⟨fun hfits => ?_, hbefore, _, rfl⟩
      exact Nat.not_le.mpr hfar (hfits.starts_le other hbefore hother)
  | missing _ hfew => omega
  | long _ hentries => omega

/-- If there are fewer values than announced, what goes wrong first is that the chunk ends, unless
a number in it is too large. -/
theorem FailsAt.of_missing {step : Nat} {error : BuildError}
    (hfew : plan.supplied data role < plan.slots role)
    (hfails : plan.FailsAt data role step error) :
    (plan.FitsBefore data role (plan.schema.ends role) ∧ step = plan.schema.ends role ∧
      error = .varlenCount role (plan.slots role) (plan.supplied data role)) ∨
    (¬plan.FitsBefore data role (plan.schema.ends role) ∧ step ≤ plan.schema.ends role ∧
      ∃ length, error = .chunkTooLarge role length) := by
  cases hfails with
  | uncountable hslots =>
      exact .inr ⟨fun hfits => Nat.not_le.mpr hslots hfits.slots_le, Nat.le_add_right .., _, rfl⟩
  | surplus hvarlen _ hfull =>
      have hmore := supplied_take_lt htakes hvarlen
      omega
  | @far place hvarlen _ _ hfar =>
      have hplace := lt_ends_of_isVarlenAt hvarlen
      refine .inr ⟨fun hfits => ?_, hplace, _, rfl⟩
      exact Nat.not_le.mpr hfar (hfits.starts_le place hplace hvarlen)
  | missing hfits => exact .inl ⟨hfits, rfl, rfl⟩
  | long _ hfull => exact absurd hfull (Nat.ne_of_lt hfew)

end Takes

end Plan

namespace Builder

/-- The run ends with a number of the chunk that is too large, and it does so at a step or
before. -/
def StopsLarge (plan : Plan) (buffer : Buffer) (data : List Datum) (role : ChunkRole)
    (limit : Nat) : Prop :=
  ∃ step ≤ limit, ∃ length left, Stops plan buffer data step (.chunkTooLarge role length) left

/-- A run stops where the count announced for a chunk is found not to be met. Only a number of
the chunk that is too large and was to be stored before is reported in its place. -/
structure EnforcesCount (plan : Plan) (buffer : Buffer) (data : List Datum) (role : ChunkRole) :
    Prop where
  /-- One value more than announced is refused, and the builder is the one of the data before. -/
  surplus : plan.slots role < plan.supplied data role → ∃ place,
    Image.IsVarlenAt plan.schema data role place ∧
      plan.supplied (data.take place) role = plan.slots role ∧
      (plan.FitsBefore data role place → ∃ builder,
        fill plan buffer (data.take place) = .ok builder ∧
        Stops plan buffer data (place + 1)
          (.varlenCount role (plan.slots role) (plan.slots role + 1)) builder) ∧
      (¬plan.FitsBefore data role place → StopsLarge plan buffer data role place)
  /-- Values fewer than announced are noticed when the chunk has all its columns, before its
  length is looked at. -/
  missing : plan.supplied data role < plan.slots role → plan.schema.ends role ≤ data.length →
    (plan.FitsBefore data role (plan.schema.ends role) →
      ∃ left, Stops plan buffer data (plan.schema.ends role)
        (.varlenCount role (plan.slots role) (plan.supplied data role)) left) ∧
    (¬plan.FitsBefore data role (plan.schema.ends role) →
      StopsLarge plan buffer data role (plan.schema.ends role))

section Runs

variable {plan : Plan} {buffer : Buffer} {data : List Datum} {role : ChunkRole}
  (hbuffer : buffer.written = 0) (hcount : data.length ≤ plan.schema.columnCount)
  (htakes : ∀ role, ∀ cell ∈ Image.cells plan.schema data role, cell.1.Takes cell.2)

include hbuffer hcount htakes

/-- A run over data that are not admitted stops in a chunk with another count than announced, if
it comes to this chunk. -/
theorem exists_stops_of_miscount (hcomes : plan.ComesTo data role)
    (hmiscount : plan.supplied data role ≠ plan.slots role) (hadmits : ¬plan.Admits data) :
    ∃ step error left, Stops plan buffer data step error left ∧
      plan.FailsAt data role step error := by
  cases hfill : fill plan buffer data with
  | ok builder => exact absurd (reachable_of_fill hfill).stands.1 hadmits
  | error error =>
      obtain ⟨step, left, hstops⟩ := (fill_eq_error_iff hbuffer).mp hfill
      obtain ⟨other, hfails, hkey⟩ := hstops.failsAt hcount htakes
      obtain rfl : other = role := by
        cases other with
        | key =>
            cases role with
            | key => rfl
            | value =>
                obtain ⟨hentries, hfits⟩ := hcomes rfl
                rcases hfails.supplied_ne_or_long htakes with hother | hlong
                · exact absurd hentries hother
                · exact absurd hfits (Nat.not_le.mpr hlong)
        | value =>
            cases role with
            | value => rfl
            | key =>
                -- The value chunk is behind a key chunk that was closed.
                have hfull := (hkey rfl).1.entries_eq
                rw [Plan.length_starts_draft htakes] at hfull
                exact absurd hfull hmiscount
      exact ⟨step, error, left, hstops, hfails⟩

/-- The count of each chunk that the run comes to is enforced. -/
theorem enforcesCount (hcomes : plan.ComesTo data role) :
    EnforcesCount plan buffer data role where
  surplus := by
    intro hmore
    have hadmits : ¬plan.Admits data := fun hadmits =>
      Nat.not_le.mpr hmore (Plan.supplied_le htakes hadmits)
    obtain ⟨place, hvarlen, hfull⟩ := Plan.exists_isVarlenAt hmore
    obtain ⟨step, error, left, hstops, hfails⟩ :=
      exists_stops_of_miscount hbuffer hcount htakes hcomes (Nat.ne_of_gt hmore) hadmits
    refine ⟨place, hvarlen, hfull, ?_⟩
    rcases hfails.of_surplus htakes hvarlen hfull with
      ⟨hfits, rfl, rfl⟩ | ⟨hlarge, hstep, length, rfl⟩
    · have hplain : (BuildError.varlenCount role (plan.slots role)
          (plan.slots role + 1)).isFatal = false :=
        decide_eq_false (Nat.lt_asymm (Nat.lt_succ_self _))
      obtain ⟨_, _, hkept⟩ := hstops.broken hcount htakes
      obtain ⟨_, hplace, hfill⟩ := hkept hplain
      obtain rfl := Nat.succ.inj hplace
      exact ⟨fun _ => ⟨left, hfill, hstops⟩, fun hlarge => absurd hfits hlarge⟩
    · exact ⟨fun hfits => absurd hfits hlarge, fun _ => ⟨step, hstep, length, left, hstops⟩⟩
  missing := by
    intro hless hended
    have hadmits : ¬plan.Admits data := by
      intro hadmits
      have hfull := (hadmits.isClosed role hended).entries_eq
      rw [Plan.length_starts_draft htakes] at hfull
      exact Nat.ne_of_lt hless hfull
    obtain ⟨step, error, left, hstops, hfails⟩ :=
      exists_stops_of_miscount hbuffer hcount htakes hcomes (Nat.ne_of_lt hless) hadmits
    rcases hfails.of_missing htakes hless with ⟨hfits, rfl, rfl⟩ | ⟨hlarge, hstep, length, rfl⟩
    · exact ⟨fun _ => ⟨left, hstops⟩, fun hlarge => absurd hfits hlarge⟩
    · exact ⟨fun hfits => absurd hfits hlarge, fun _ => ⟨step, hstep, length, left, hstops⟩⟩

/-- A count that is met is not reported. -/
theorem fill_ne_varlenCount (hentries : plan.supplied data role = plan.slots role)
    (declared appended : Nat) :
    fill plan buffer data ≠ .error (.varlenCount role declared appended) := by
  intro hfill
  obtain ⟨step, left, hstops⟩ := (fill_eq_error_iff hbuffer).mp hfill
  obtain ⟨other, hfails, _⟩ := hstops.failsAt hcount htakes
  obtain ⟨rfl, hmiscount⟩ := hfails.supplied_ne htakes
  exact hmiscount hentries

end Runs

/-- In every run whose data the columns take, the count of each chunk is enforced that the run
comes to, and a count that is met is never reported. And whatever run reports a count, it is
too large if a datum is refused for it and too small if it is found on closing a chunk. -/
theorem stops_at_first_miscount (plan : Plan) (buffer : Buffer) (data : List Datum)
    (hbuffer : buffer.written = 0) (hcount : data.length ≤ plan.schema.columnCount)
    (htakes : ∀ role, ∀ cell ∈ Image.cells plan.schema data role, cell.1.Takes cell.2) :
    (∀ role, plan.ComesTo data role → EnforcesCount plan buffer data role) ∧
    (∀ role, plan.supplied data role = plan.slots role → ∀ declared appended,
      fill plan buffer data ≠ .error (.varlenCount role declared appended)) ∧
    (∀ role declared appended, startIn plan buffer = .error (.varlenCount role declared appended) →
      appended < declared ∧
        StartFailsOnClosing plan buffer (.varlenCount role declared appended)) ∧
    ∀ earlier builder datum role declared appended left, Reachable plan earlier builder →
      (append plan datum).run builder = .error (.varlenCount role declared appended) left →
      appended ≠ declared ∧ (appended < declared ↔
        FailsOnClosing plan builder datum (.varlenCount role declared appended) left) := by
  refine ⟨?_, ?_, ?_, ?_⟩
  · exact fun _ hcomes => enforcesCount hbuffer hcount htakes hcomes
  · exact fun _ hentries => fill_ne_varlenCount hbuffer hcount htakes hentries
  · exact fun _ _ _ hstart => appended_of_startIn hstart
  · exact fun _ _ _ _ _ _ _ hreach happend => appended_of_append hreach happend

/-! ## One text announced -/

/-- The plan of the customers with one text announced instead of two. -/
def customersOfOneText : Plan :=
  { Customers.plan with valueVarlens := 1 }

/-- One column of sets behind an empty key, and one text announced where there is none. -/
def setsOfOneText (bits : Nat) : Plan where
  schema := ⟨1, .ofList [], .ofList [⟨"set", .bitmask bits, false⟩]⟩
  sizeHint := 0
  keyVarlens := 0
  valueVarlens := 1
  options := .default

section Sets

variable (bits : Nat)

theorem takes_emptySet :
    ∀ role, ∀ cell ∈ Image.cells (setsOfOneText bits).schema [.bitmask []] role,
      cell.1.Takes cell.2 := by
  intro role cell hcell
  cases role with
  | key => contradiction
  | value =>
      obtain rfl := List.mem_singleton.mp hcell
      exact ⟨bits, rfl, fun index hindex => by simp [BitSet.contains] at hindex⟩

theorem chunkLength_emptySet :
    (setsOfOneText bits).chunkLength [.bitmask []] .value = 7 + BitSet.byteCount bits := by
  have hcolumns : ((setsOfOneText bits).schema.columns .value).length = 1 := rfl
  have hslots : (setsOfOneText bits).slots .value = 1 := rfl
  have hstored : Image.storedSize (Image.present
      (Image.cells (setsOfOneText bits).schema [.bitmask []] .value)) =
        (BitSet.resize [] (BitSet.byteCount bits)).length := rfl
  rw [Plan.chunkLength, hcolumns, hslots, hstored, BitSet.length_resize]
  rfl

theorem fitsBefore_emptySet (place : Nat) :
    (setsOfOneText bits).FitsBefore [.bitmask []] .value place := by
  refine ⟨(by decide : 1 ≤ Layout.fieldMax), ?_⟩
  intro earlier _ hvarlen
  obtain ⟨_, column, datum, hcell, _, hlength⟩ := hvarlen
  -- The only column is of fixed length.
  obtain ⟨rfl, rfl⟩ := Prod.mk.inj (List.mem_singleton.mp (List.mem_of_getElem? hcell))
  contradiction

end Sets

/-- With one text announced two are too many, and none are too few, also in a chunk that is
longer than its length can say. -/
theorem one_text_announced :
    fill customersOfOneText (.withCapacity 0) Customers.data =
      .error (.varlenCount .value 1 2) ∧
    Layout.fieldMax < (setsOfOneText 560000).chunkLength [.bitmask []] .value ∧
    fill (setsOfOneText 560000) (.withCapacity 0) [.bitmask []] =
      .error (.varlenCount .value 1 0) := by
  refine ⟨?_, ?_, ?_⟩
  · have htakes : ∀ role, ∀ cell ∈ Image.cells customersOfOneText.schema Customers.data role,
        cell.1.Takes cell.2 :=
      (buildIn_eq_ok_iff.mp (Customers.build_data ⟨true, true⟩)).2.1.takes
    obtain ⟨hsurplus, _⟩ := (stops_at_first_miscount customersOfOneText (.withCapacity 0)
      Customers.data rfl (by decide) htakes).1 .value fun _ => by decide +kernel
    obtain ⟨place, _, _, hcounted, _⟩ := hsurplus (by decide +kernel)
    have hshort : customersOfOneText.chunkLength Customers.data .value ≤ Layout.fieldMax := by
      decide +kernel
    obtain ⟨_, _, hstops⟩ := hcounted ⟨by decide, fun earlier _ _ =>
      Nat.le_trans (Plan.chunkLength_take_le_chunkLength htakes earlier) hshort⟩
    exact (fill_eq_error_iff rfl).mpr ⟨_, _, hstops⟩
  · rw [chunkLength_emptySet]
    decide
  · obtain ⟨_, hmissing⟩ := (stops_at_first_miscount (setsOfOneText 560000) (.withCapacity 0)
      [.bitmask []] rfl (Nat.le_refl _) (takes_emptySet 560000)).1 .value fun _ => by decide
    obtain ⟨hcounted, _⟩ := hmissing (by decide) (Nat.le_refl _)
    obtain ⟨_, hstops⟩ := hcounted (fitsBefore_emptySet 560000 _)
    exact (fill_eq_error_iff rfl).mpr ⟨_, _, hstops⟩

end Builder

end PackedTuple
