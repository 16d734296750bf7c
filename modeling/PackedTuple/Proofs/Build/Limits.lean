import PackedTuple.Proofs.Build.Stopping

/-! # Chunks that are too long

The length, the count and the starts of a chunk are stored in two bytes each. A run
whose data conform to the plan in all else fails exactly if a chunk is longer than such
a number can say, and it is known where and with which number. In a chunk that closes,
no number is cut short.
-/

namespace PackedTuple

namespace Plan

/-- Where a chunk starts in the tuple. -/
def base (plan : Plan) (data : List Datum) : ChunkRole → Nat
  | .key => 6
  | .value => 6 + plan.chunkLength data .key

/-- The numbers stored in a chunk are its length, how many values of variable length it
has, and where each of them starts. -/
structure StoresNumbers (plan : Plan) (data : List Datum) (role : ChunkRole)
    (bytes : Array UInt8) : Prop where
  length : LittleEndian.read? 2 bytes (plan.base data role) = some (plan.chunkLength data role)
  count : LittleEndian.read? 2 bytes (plan.base data role + 2) = some (plan.supplied data role)
  start : ∀ entry start, (Image.starts
      (Image.payloadStart (Image.cells plan.schema data role))
      (Image.payloads (Image.cells plan.schema data role)))[entry]? = some start →
    LittleEndian.read? 2 bytes (plan.base data role + 4 + 2 * entry) = some start

/-- The first chunk that is longer than two bytes can say. -/
structure IsFirstLong (plan : Plan) (data : List Datum) (role : ChunkRole) : Prop where
  long : Layout.fieldMax < plan.chunkLength data role
  first : role = .value → plan.chunkLength data .key ≤ Layout.fieldMax

/-- The step at which a chunk that is too long is noticed, and the length that is
reported for it. -/
structure NoticesLength (plan : Plan) (data : List Datum) (role : ChunkRole)
    (step length : Nat) : Prop where
  /-- The count is looked at when the chunk is opened, which takes the length and the
  count of the chunk and the table for granted. -/
  opened : Layout.fieldMax < plan.slots role →
    step = plan.schema.begins role ∧ length = 4 + 2 * plan.slots role
  /-- Then each start, when its value is appended. -/
  far : plan.slots role ≤ Layout.fieldMax → ∀ place, plan.IsFirstFar data role place →
    step = place + 1 ∧ length = plan.chunkLength (data.take place) role
  /-- And then the length, when the chunk has all its columns. -/
  closed : plan.slots role ≤ Layout.fieldMax →
    (∀ place, Image.IsVarlenAt plan.schema data role place →
      plan.chunkLength (data.take place) role ≤ Layout.fieldMax) →
    step = plan.schema.ends role ∧ length = plan.chunkLength data role

variable {plan : Plan} {data : List Datum} {role : ChunkRole}

theorem IsFirstFar.unique {place other : Nat} (hplace : plan.IsFirstFar data role place)
    (hother : plan.IsFirstFar data role other) : place = other := by
  apply Nat.le_antisymm
  · apply Nat.not_lt.mp
    intro hlt
    exact Nat.not_lt.mpr (hplace.first other hlt hother.isVarlen) hother.far
  · apply Nat.not_lt.mp
    intro hlt
    exact Nat.not_lt.mpr (hother.first place hlt hplace.isVarlen) hplace.far

section Takes

variable
  (htakes : ∀ role, ∀ cell ∈ Image.cells plan.schema data role, cell.1.Takes cell.2)

include htakes

/-- With as many values as announced, what goes wrong in a chunk is its length. -/
theorem FailsAt.notices {step : Nat} {error : BuildError}
    (hentries : plan.supplied data role = plan.slots role)
    (hfails : plan.FailsAt data role step error) :
    ∃ length, error = .chunkTooLarge role length ∧ plan.NoticesLength data role step length := by
  cases hfails with
  | uncountable hslots =>
      refine ⟨_, rfl, fun _ => ⟨rfl, rfl⟩, ?_, ?_⟩
      · intro hfew
        exact absurd hfew (Nat.not_le.mpr hslots)
      · intro hfew
        exact absurd hfew (Nat.not_le.mpr hslots)
  | surplus hvarlen _ hfull =>
      have hlt := supplied_take_lt htakes hvarlen
      omega
  | @far place hvarlen hfits _ hfar =>
      refine ⟨_, rfl, ?_, ?_, ?_⟩
      · intro hmany
        exact absurd hfits.slots_le (Nat.not_le.mpr hmany)
      · intro _ other hother
        obtain rfl := hother.unique ⟨hvarlen, hfar, hfits.starts_le⟩
        exact ⟨rfl, rfl⟩
      · intro _ hnear
        exact absurd (hnear place hvarlen) (Nat.not_le.mpr hfar)
  | missing _ hfew => omega
  | long hfits _ hlong =>
      refine ⟨_, rfl, ?_, ?_, fun _ _ => ⟨rfl, rfl⟩⟩
      · intro hmany
        exact absurd hfits.slots_le (Nat.not_le.mpr hmany)
      · intro _ place hfirst
        have hstart := hfits.starts_le place (lt_ends_of_isVarlenAt hfirst.isVarlen) hfirst.isVarlen
        exact absurd hstart (Nat.not_le.mpr hfirst.far)

/-- Where the image of a closed chunk stands, its numbers are stored. -/
theorem storesNumbers_of_image {bytes : Array UInt8} {before after : List UInt8}
    (hcount : data.length = plan.schema.columnCount) (hclosed : (plan.draft data role).IsClosed)
    (hbytes : bytes.toList = before ++ (plan.draft data role).image ++ after)
    (hbefore : before.length = plan.base data role) : plan.StoresNumbers data role bytes := by
  have hentries := ((isClosed_iff hcount htakes role).mp hclosed).1
  have hlength := length_draft_eq htakes role
  refine ⟨?_, ?_, ?_⟩
  · rw [← hbefore, ← hlength]
    exact Draft.read?_stamp hbytes hclosed.length_le
  · rw [← hbefore, supplied, hentries]
    exact Draft.read?_slots hbytes hclosed
  · intro entry start hstart
    rw [← Image.starts_draft (Image.fixedFirst_cells ..) (htakes role) hentries,
      ← draft_of_full hcount] at hstart
    rw [← hbefore, Nat.mul_comm]
    exact Draft.read?_start hbytes hclosed hstart

/-- A closed key chunk has its numbers stored wherever the value chunk is set up behind it. -/
theorem storesNumbers_key {bytes : Array UInt8}
    (hcount : data.length = plan.schema.columnCount) (hclosed : (plan.draft data .key).IsClosed)
    (hfront : plan.front data .value <+: bytes.toList) : plan.StoresNumbers data .key bytes := by
  obtain ⟨rest, hbytes⟩ := hfront
  exact storesNumbers_of_image htakes hcount hclosed hbytes.symm (plan.length_header _)

end Takes

end Plan

namespace Builder

/-- A chunk that has all its columns has its numbers stored. -/
theorem Stands.storesNumbers {plan : Plan} {data : List Datum} {count : Nat} {builder : Builder}
    {role : ChunkRole} (hcount : data.length = plan.schema.columnCount)
    (htakes : ∀ role, ∀ cell ∈ Image.cells plan.schema data role, cell.1.Takes cell.2)
    (hadmits : plan.Admits (data.take count)) (hstands : Stands plan (data.take count) builder)
    (hended : plan.schema.ends role ≤ count) :
    plan.StoresNumbers data role builder.buffer.bytes := by
  have hends : ∀ other, plan.schema.ends other ≤ count →
      plan.schema.ends other ≤ (data.take count).length := by
    intro other hother
    rw [List.length_take, hcount]
    exact Nat.le_min.mpr ⟨hother, plan.schema.ends_le_columnCount other⟩
  have hclosed : ∀ other, plan.schema.ends other ≤ count → (plan.draft data other).IsClosed := by
    intro other hother
    rw [← Plan.draft_take_of_ends_le hother]
    exact hadmits.isClosed other (hends other hother)
  have hbegun : plan.schema.begins .value ≤ count := by
    cases role with
    | key => rwa [Schema.ends_key] at hended
    | value => exact Nat.le_of_add_right_le hended
  have hkey := hclosed .key (by rwa [Schema.ends_key])
  have hfront := Plan.front_take hbegun data
  cases hstands with
  | filling hleft hfilling =>
      cases role with
      | value => exact absurd hleft (Nat.not_lt.mpr (hends .value hended))
      | key =>
          have hlength := hends .key hended
          rw [Schema.ends_key] at hlength
          rw [Schema.roleAt_value hlength] at hfilling
          have hbehind := hfilling.fills.front
          rw [hfront] at hbehind
          exact Plan.storesNumbers_key htakes hcount hkey hbehind
  | finished hfull hfinished =>
      have hbytes := hfinished.bytes
      rw [hfront] at hbytes
      cases role with
      | key => exact Plan.storesNumbers_key htakes hcount hkey ⟨_, hbytes.symm⟩
      | value =>
          rw [Plan.draft_take_of_ends_le hended, ← List.append_nil (_ ++ _)] at hbytes
          refine Plan.storesNumbers_of_image htakes hcount (hclosed .value hended) hbytes ?_
          rw [Plan.length_front_value hkey.isOpen.entries_le, Plan.length_draft_eq htakes]
          rfl

/-- A run whose data conform to the plan but for the size of its chunks succeeds exactly if no
chunk is longer than two bytes can say. Otherwise the first that is too long is reported, with
the number that was noticed first. In the chunks that were closed, whether the run went on or
not, no number is cut short. -/
theorem stops_at_first_long_chunk (plan : Plan) (buffer : Buffer) (data : List Datum)
    (hbuffer : buffer.written = 0) (hcount : data.length = plan.schema.columnCount)
    (htakes : ∀ role, ∀ cell ∈ Image.cells plan.schema data role, cell.1.Takes cell.2)
    (hentries : ∀ role, plan.supplied data role = plan.slots role) :
    ((∃ builder, fill plan buffer data = .ok builder) ↔
      ∀ role, plan.chunkLength data role ≤ Layout.fieldMax) ∧
    ((∃ role length, fill plan buffer data = .error (.chunkTooLarge role length)) ↔
      ∃ role, Layout.fieldMax < plan.chunkLength data role) ∧
    (∀ step error left, Stops plan buffer data step error left →
      ∃ role length, error = .chunkTooLarge role length ∧ plan.IsFirstLong data role ∧
        plan.NoticesLength data role step length) ∧
    (∀ count builder role, fill plan buffer (data.take count) = .ok builder →
      plan.schema.ends role ≤ count → plan.StoresNumbers data role builder.buffer.bytes) ∧
    ∀ step length left, Stops plan buffer data step (.chunkTooLarge .value length) left →
      plan.StoresNumbers data .key left.buffer.bytes := by
  have hclosed := Plan.isClosed_iff hcount htakes
  have hfits : (∃ builder, fill plan buffer data = .ok builder) ↔
      ∀ role, plan.chunkLength data role ≤ Layout.fieldMax := by
    constructor
    · rintro ⟨builder, hfill⟩ role
      have hadmits := (reachable_of_fill hfill).stands.1
      exact ((hclosed role).mp (((Plan.admits_iff hcount).mp hadmits).2 role)).2
    · intro hfits
      refine exists_fill hbuffer ((Plan.admits_iff hcount).mpr ⟨htakes, fun role => ?_⟩)
      exact (hclosed role).mpr ⟨hentries role, hfits role⟩
  have hnotices : ∀ step error left, Stops plan buffer data step error left →
      ∃ role length, error = .chunkTooLarge role length ∧ plan.IsFirstLong data role ∧
        plan.NoticesLength data role step length := by
    intro step error left hstops
    obtain ⟨role, hfails, hkey⟩ := hstops.failsAt (Nat.le_of_eq hcount) htakes
    obtain ⟨length, rfl, hnotices⟩ := hfails.notices htakes (hentries role)
    refine ⟨role, length, rfl, ⟨(hfails.long_of_large htakes).2, fun hvalue => ?_⟩, hnotices⟩
    exact ((hclosed .key).mp (hkey hvalue).1).2
  refine ⟨hfits, ⟨?_, ?_⟩, hnotices, ?_, ?_⟩
  · rintro ⟨role, length, hfill⟩
    obtain ⟨step, left, hstops⟩ := (fill_eq_error_iff hbuffer).mp hfill
    obtain ⟨role, _, _, hfirst, _⟩ := hnotices step _ left hstops
    exact ⟨role, hfirst.long⟩
  · rintro ⟨role, hlong⟩
    cases hfill : fill plan buffer data with
    | ok builder => exact absurd (hfits.mp ⟨builder, hfill⟩ role) (Nat.not_le.mpr hlong)
    | error error =>
        obtain ⟨step, left, hstops⟩ := (fill_eq_error_iff hbuffer).mp hfill
        obtain ⟨role, length, rfl, _⟩ := hnotices step error left hstops
        exact ⟨role, length, rfl⟩
  · intro count builder role hfill hended
    obtain ⟨hadmits, hstands⟩ := (reachable_of_fill hfill).stands
    exact hstands.storesNumbers hcount htakes hadmits hended
  · intro step length left hstops
    obtain ⟨role, hfails, hkey⟩ := hstops.failsAt (Nat.le_of_eq hcount) htakes
    obtain ⟨rfl, _⟩ := hfails.long_of_large htakes
    obtain ⟨hkeyClosed, hfront⟩ := hkey rfl
    exact Plan.storesNumbers_key htakes hcount hkeyClosed hfront

/-! ## A text and its footer -/

namespace Notes

/-- Two byte strings behind an empty key. -/
def plan : Plan where
  schema := ⟨1, .ofList [], .ofList [⟨"text", .bytes, false⟩, ⟨"footer", .bytes, false⟩]⟩
  sizeHint := 0
  keyVarlens := 0
  valueVarlens := 2
  options := .default

/-- A text of some length with an empty footer. -/
def data (length : Nat) : List Datum :=
  [.bytes (List.replicate length 0), .bytes []]

theorem takes_data (length : Nat) :
    ∀ role, ∀ cell ∈ Image.cells plan.schema (data length) role, cell.1.Takes cell.2 := by
  intro role cell hcell
  cases role with
  | key => contradiction
  | value =>
      rcases List.mem_cons.mp hcell with rfl | hfooter
      · rfl
      · obtain rfl := List.mem_singleton.mp hfooter
        rfl

theorem chunkLength_text (length : Nat) :
    plan.chunkLength ((data length).take 1) .value = 9 + length := by
  change 9 + ((List.replicate length (0 : UInt8)).length + 0) = _
  rw [List.length_replicate, Nat.add_zero]

/-- A footer has no bytes, but a start that has to fit. -/
theorem isFirstFar_footer {length : Nat} (hlength : 65526 < length) :
    plan.IsFirstFar (data length) .value 1 where
  isVarlen := ⟨Nat.zero_le _, _, _, rfl, by simp, rfl⟩
  far := by
    rw [chunkLength_text]
    change 65535 < _
    omega
  first := by
    intro earlier hearlier _
    obtain rfl := Nat.lt_one_iff.mp hearlier
    change 9 ≤ 65535
    omega

end Notes

/-- One byte of text more, and the footer would start behind all that an entry can say. -/
theorem long_note_refused :
    fill Notes.plan (.withCapacity 0) (Notes.data 65527) =
      .error (.chunkTooLarge .value 65536) := by
  have htakes := Notes.takes_data 65527
  have hfooter : Notes.plan.IsFirstFar (Notes.data 65527) .value 1 :=
    Notes.isFirstFar_footer (by omega)
  obtain ⟨-, hfails, hnotices, -⟩ := stops_at_first_long_chunk Notes.plan (.withCapacity 0)
    (Notes.data 65527) rfl rfl htakes fun role => by cases role <;> rfl
  obtain ⟨_, _, hfill⟩ := hfails.mpr ⟨.value, Nat.lt_of_lt_of_le hfooter.far
    (Plan.chunkLength_take_le_chunkLength htakes 1)⟩
  obtain ⟨_, _, hstops⟩ := (fill_eq_error_iff rfl).mp hfill
  obtain ⟨role, length, herror, hfirst, hnotice⟩ := hnotices _ _ _ hstops
  rw [hfill, herror]
  cases role with
  | key =>
      have hshort : Notes.plan.chunkLength (Notes.data 65527) .key = 4 := rfl
      have hlong := hfirst.long
      rw [hshort] at hlong
      exact absurd hlong (by decide)
  | value =>
      obtain ⟨_, hlength⟩ := hnotice.far (by decide) 1 hfooter
      rw [hlength, Notes.chunkLength_text]

end Builder

end PackedTuple
