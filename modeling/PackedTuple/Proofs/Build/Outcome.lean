import PackedTuple.Customers
import PackedTuple.Proofs.Build.Runs
import PackedTuple.Proofs.Encoding.Images

/-! # What a build gives, and when

A finished tuple is the image of its data, in whatever order its bytes were
written. There is one exactly if the data conform to the plan, which is said
here of the data as a whole, without a builder.
-/

namespace PackedTuple

/-- Bytes that the data of some cells take together. -/
def Image.storedSize : Cells → Nat
  | [] => 0
  | cell :: rest => (cell.2.stored cell.1.type).length + storedSize rest

namespace Plan

/-- Bytes of a chunk: length and count, table, null map, and what the data that
are not null take. -/
def chunkLength (plan : Plan) (data : List Datum) (role : ChunkRole) : Nat :=
  4 + 2 * plan.slots role + BitSet.byteCount (plan.schema.columns role).length +
    Image.storedSize (Image.present (Image.cells plan.schema data role))

/-- Data of which a plan makes a tuple. -/
structure Conforms (plan : Plan) (data : List Datum) : Prop where
  /-- One datum for each column. -/
  count : data.length = plan.schema.columnCount
  /-- Each column takes its datum. -/
  takes : ∀ role, ∀ cell ∈ Image.cells plan.schema data role, cell.1.Takes cell.2
  /-- As many variable-length values as announced. -/
  entries : ∀ role, (Image.payloads (Image.cells plan.schema data role)).length = plan.slots role
  /-- Chunks whose length fits its field. -/
  fits : ∀ role, plan.chunkLength data role ≤ Layout.fieldMax
  /-- Within the size hint, if it is strict. -/
  within : plan.options.strictSize = true →
    6 + plan.chunkLength data .key + plan.chunkLength data .value ≤ plan.sizeHint

variable {plan : Plan} {data : List Datum}

theorem draft_of_full (hlength : data.length = plan.schema.columnCount) (role : ChunkRole) :
    plan.draft data role = Image.draft (Image.cells plan.schema data role) (plan.slots role) :=
  draft_eq (hlength ▸ plan.schema.ends_le_columnCount role)

theorem totalSize_eq_storedSize {cells : Image.Cells}
    (htakes : ∀ cell ∈ cells, cell.1.Takes cell.2) :
    Field.totalSize (cells.map Image.field) = Image.storedSize (Image.present cells) := by
  induction cells with
  | nil => rfl
  | cons cell rest ih =>
      obtain ⟨column, datum⟩ := cell
      obtain ⟨htake, hrest⟩ := List.forall_mem_cons.mp htakes
      have hsize : (Image.field (column, datum)).size = (datum.stored column.type).length :=
        Datum.size_field htake
      rw [List.map_cons, Field.totalSize_cons, ih hrest, hsize]
      by_cases hnull : datum = .null
      · subst hnull
        exact Nat.zero_add _
      · rw [Image.present_cons hnull, Image.storedSize]

theorem length_draft_eq
    (htakes : ∀ role, ∀ cell ∈ Image.cells plan.schema data role, cell.1.Takes cell.2)
    (role : ChunkRole) : (plan.draft data role).length = plan.chunkLength data role := by
  have hfields : (plan.draft data role).fields = (Image.cells plan.schema data role).map
      Image.field := rfl
  rw [Draft.length, hfields, totalSize_eq_storedSize (htakes role), chunkLength, Nat.mul_comm 2]
  rfl

/-- Whole data are admitted exactly if both chunks can be closed over them. -/
theorem admits_iff (hlength : data.length = plan.schema.columnCount) :
    plan.Admits data ↔
      (∀ role, ∀ cell ∈ Image.cells plan.schema data role, cell.1.Takes cell.2) ∧
        ∀ role, (plan.draft data role).IsClosed := by
  constructor
  · intro hadmits
    exact ⟨hadmits.takes, fun role =>
      hadmits.isClosed role (hlength ▸ plan.schema.ends_le_columnCount role)⟩
  · rintro ⟨htakes, hclosed⟩
    exact ⟨Nat.le_of_eq hlength, htakes, fun role _ => (hclosed role).isOpen,
      fun role _ => hclosed role⟩

theorem isClosed_iff (hlength : data.length = plan.schema.columnCount)
    (htakes : ∀ role, ∀ cell ∈ Image.cells plan.schema data role, cell.1.Takes cell.2)
    (role : ChunkRole) :
    (plan.draft data role).IsClosed ↔
      (Image.payloads (Image.cells plan.schema data role)).length = plan.slots role ∧
        plan.chunkLength data role ≤ Layout.fieldMax := by
  have hentries : (plan.draft data role).starts.length =
      (Image.payloads (Image.cells plan.schema data role)).length := by
    rw [draft_of_full hlength]
    exact Image.length_starts_draft (Image.fixedFirst_cells ..) (htakes role)
  have hslots : (plan.draft data role).slots = plan.slots role := rfl
  rw [← length_draft_eq htakes, ← hentries, ← hslots]
  exact ⟨fun hclosed => ⟨hclosed.entries_eq, hclosed.length_le⟩, fun hboth => ⟨hboth.1, hboth.2⟩⟩

theorem image_draft (hadmits : plan.Admits data) (hlength : data.length = plan.schema.columnCount)
    (role : ChunkRole) :
    (plan.draft data role).image = Image.chunk (Image.cells plan.schema data role) := by
  obtain ⟨htakes, hclosed⟩ := (admits_iff hlength).mp hadmits
  have hentries := ((isClosed_iff hlength htakes role).mp (hclosed role)).1
  rw [draft_of_full hlength]
  exact Image.image_draft (Image.fixedFirst_cells ..) (htakes role) hentries

/-- What is written is the image of the data. -/
theorem image_eq_tuple (hadmits : plan.Admits data)
    (hlength : data.length = plan.schema.columnCount) :
    plan.image data = Image.tuple plan.schema plan.options.hashKey data := by
  have hkey := image_draft hadmits hlength .key
  have hvalue := image_draft hadmits hlength .value
  rw [image, front, hkey, hvalue]
  rfl

theorem length_image (hadmits : plan.Admits data)
    (hlength : data.length = plan.schema.columnCount) :
    (plan.image data).length =
      6 + plan.chunkLength data .key + plan.chunkLength data .value := by
  obtain ⟨htakes, hclosed⟩ := (admits_iff hlength).mp hadmits
  have hchunk := length_draft_eq htakes
  rw [image, front, List.length_append, List.length_append, length_header, Draft.image,
    Draft.image, Draft.length_bytes (hclosed .key).isOpen.entries_le,
    Draft.length_bytes (hclosed .value).isOpen.entries_le, hchunk, hchunk]
  rfl

end Plan

namespace Builder

/-- The bytes of a finished tuple are those of its image: header, key chunk and
value chunk, each chunk a function of its own columns and data. -/
theorem toList_buildIn {plan : Plan} {buffer : Buffer} {data : List Datum} {bytes : Array UInt8}
    (hbuild : buildIn plan buffer data = .ok bytes) :
    bytes.toList = Image.tuple plan.schema plan.options.hashKey data := by
  obtain ⟨_, hadmits, hlength, _, hbytes⟩ := buildIn_eq_ok_iff.mp hbuild
  rw [hbytes, Plan.image_eq_tuple hadmits hlength]

theorem toList_build_customer :
    ∃ bytes, build Customers.plan Customers.data = .ok bytes ∧ bytes.toList =
      Image.tuple Customers.plan.schema Customers.plan.options.hashKey Customers.data := by
  have hbuild := Customers.build_data ⟨true, true⟩
  exact ⟨_, hbuild, toList_buildIn hbuild⟩

/-- There is a tuple exactly for the data that conform to the plan. -/
theorem build_isOk_iff (plan : Plan) (data : List Datum) :
    (∃ bytes, build plan data = .ok bytes) ↔ plan.Conforms data := by
  constructor
  · rintro ⟨bytes, hbuild⟩
    obtain ⟨_, hadmits, hlength, hstrict, _⟩ := buildIn_eq_ok_iff.mp hbuild
    obtain ⟨htakes, hclosed⟩ := (Plan.admits_iff hlength).mp hadmits
    have hsplit := Plan.isClosed_iff hlength htakes
    rw [Plan.length_image hadmits hlength] at hstrict
    exact ⟨hlength, htakes, fun role => ((hsplit role).mp (hclosed role)).1,
      fun role => ((hsplit role).mp (hclosed role)).2, hstrict⟩
  · rintro ⟨hlength, htakes, hentries, hfits, hwithin⟩
    have hclosed : ∀ role, (plan.draft data role).IsClosed := fun role =>
      (Plan.isClosed_iff hlength htakes role).mpr ⟨hentries role, hfits role⟩
    have hadmits := (Plan.admits_iff hlength).mpr ⟨htakes, hclosed⟩
    refine ⟨(plan.image data).toArray, buildIn_eq_ok_iff.mpr ⟨rfl, hadmits, hlength, ?_, ?_⟩⟩
    · rw [Plan.length_image hadmits hlength]
      exact hwithin
    · rw [List.toList_toArray]

end Builder

end PackedTuple
