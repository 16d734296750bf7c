import PackedTuple.Proofs.Build.Filling
import PackedTuple.Proofs.Encoding.Cells

/-! # What data a plan admits

Data are admitted if they can be appended one after the other. This is said of
the drafts that they give, without a builder: what one more datum adds to it,
and that data in front of admitted data are admitted.
-/

namespace PackedTuple

namespace Plan

/-- The bytes in front of a chunk while it is filled. The key hash is in the
header only once the key chunk is closed. -/
def front (plan : Plan) (data : List Datum) : ChunkRole → List UInt8
  | .key => plan.header 0
  | .value => plan.header (plan.hash (plan.draft data .key).image) ++ (plan.draft data .key).image

/-- The bytes of a tuple with both chunks closed. -/
def image (plan : Plan) (data : List Datum) : List UInt8 :=
  plan.front data .value ++ (plan.draft data .value).image

/-- What lies in front of a chunk is settled once the chunk is begun. -/
theorem front_append {plan : Plan} {data : List Datum} {role : ChunkRole}
    (hbegun : plan.schema.begins role ≤ data.length) (datum : Datum) :
    plan.front (data ++ [datum]) role = plan.front data role := by
  cases role with
  | key => rfl
  | value =>
      have hended : plan.schema.ends .key ≤ data.length := by rwa [Schema.ends_key]
      rw [front, front, draft_append_outside (.inr hended)]

theorem front_take {plan : Plan} {role : ChunkRole} {count : Nat}
    (hbegun : plan.schema.begins role ≤ count) (data : List Datum) :
    plan.front (data.take count) role = plan.front data role := by
  cases role with
  | key => rfl
  | value =>
      have hkey : plan.draft (data.take count) .key = plan.draft data .key := by
        rw [draft_take, List.take_of_length_le]
        · rfl
        · rw [length_fields_draft]
          exact Nat.le_trans (Nat.min_le_left ..) hbegun
      rw [front, front, hkey]

theorem length_front_value {plan : Plan} {data : List Datum}
    (hroom : (plan.draft data .key).starts.length ≤ (plan.draft data .key).slots) :
    (plan.front data .value).length = Layout.headerSize + (plan.draft data .key).length := by
  rw [front, List.length_append, length_header, Draft.image, Draft.length_bytes hroom]

/-- Data that can be appended one after the other: each is taken by its column,
the numbers stored in a chunk fit once it is begun, and a chunk that has all its
columns can be closed. -/
structure Admits (plan : Plan) (data : List Datum) : Prop where
  length_le : data.length ≤ plan.schema.columnCount
  takes : ∀ role, ∀ cell ∈ Image.cells plan.schema data role, cell.1.Takes cell.2
  isOpen : ∀ role, plan.schema.begins role ≤ data.length → (plan.draft data role).IsOpen
  isClosed : ∀ role, plan.schema.ends role ≤ data.length → (plan.draft data role).IsClosed

/-- What is known of data whose last one was placed in a chunk that was not
looked at since: it may be full. -/
structure AdmitsIn (plan : Plan) (data : List Datum) (role : ChunkRole) : Prop where
  begins_le : plan.schema.begins role ≤ data.length
  length_le : data.length ≤ plan.schema.ends role
  takes : ∀ role, ∀ cell ∈ Image.cells plan.schema data role, cell.1.Takes cell.2
  isOpen : (plan.draft data role).IsOpen
  key_closed : role = .value → (plan.draft data .key).IsClosed

variable {plan : Plan} {data : List Datum} {role : ChunkRole}

/-- While the chunk has columns left, nothing more is asked for. -/
theorem AdmitsIn.admits (hin : plan.AdmitsIn data role)
    (hleft : data.length < plan.schema.ends role) : plan.Admits data where
  length_le := Nat.le_trans (Nat.le_of_lt hleft) (plan.schema.ends_le_columnCount role)
  takes := hin.takes
  isOpen := by
    intro other hbegun
    cases role with
    | key =>
        cases other with
        | key => exact hin.isOpen
        | value =>
            rw [Schema.ends_key] at hleft
            exact absurd hleft (Nat.not_lt.mpr hbegun)
    | value =>
        cases other with
        | key => exact (hin.key_closed rfl).isOpen
        | value => exact hin.isOpen
  isClosed := by
    intro other hended
    -- The chunk being filled is not at its end, so only a key chunk in front of it can be.
    cases other with
    | key =>
        cases role with
        | key => exact absurd hleft (Nat.not_lt.mpr hended)
        | value => exact hin.key_closed rfl
    | value =>
        have hwhole : plan.schema.ends role ≤ plan.schema.ends .value :=
          plan.schema.ends_le_columnCount role
        exact absurd hleft (Nat.not_lt.mpr (Nat.le_trans hwhole hended))

/-- A full value chunk has to be closed. -/
theorem AdmitsIn.admits_iff_isClosed (hin : plan.AdmitsIn data .value)
    (hfull : data.length = plan.schema.columnCount) :
    plan.Admits data ↔ (plan.draft data .value).IsClosed := by
  constructor
  · intro hadmits
    exact hadmits.isClosed .value (Nat.le_of_eq hfull.symm)
  · intro hclosed
    refine ⟨Nat.le_of_eq hfull, hin.takes, ?_, ?_⟩
    · intro other _
      cases other with
      | key => exact (hin.key_closed rfl).isOpen
      | value => exact hin.isOpen
    · intro other _
      cases other with
      | key => exact hin.key_closed rfl
      | value => exact hclosed

theorem Admits.of_append_singleton {datum : Datum} (hadmits : plan.Admits (data ++ [datum])) :
    plan.Admits data where
  length_le := by
    have hlength := hadmits.length_le
    rw [List.length_append] at hlength
    exact Nat.le_of_succ_le hlength
  takes := by
    intro role cell hcell
    apply hadmits.takes role
    rcases plan.schema.inside_or_outside role data.length with ⟨hbegun, _, hcolumn⟩ | houtside
    · rw [Image.cells_append_inside hbegun hcolumn]
      exact List.mem_append_left _ hcell
    · rw [Image.cells_append_outside houtside]
      exact hcell
  isOpen := by
    intro role hbegun
    have hopen := hadmits.isOpen role (by rw [List.length_append]; omega)
    rcases plan.schema.inside_or_outside role data.length with ⟨_, _, hcolumn⟩ | houtside
    · rw [draft_append_inside hbegun hcolumn] at hopen
      exact (Draft.isOpen_add_iff.mp hopen).1
    · rwa [draft_append_outside houtside] at hopen
  isClosed := by
    intro role hended
    have hclosed := hadmits.isClosed role (by rw [List.length_append]; omega)
    rwa [draft_append_outside (.inr hended)] at hclosed

/-- What stands in the way of data stands in the way of all that goes on from them. -/
theorem Admits.of_append {rest : List Datum} (hadmits : plan.Admits (data ++ rest)) :
    plan.Admits data := by
  induction rest generalizing data with
  | nil => rwa [List.append_nil] at hadmits
  | cons datum rest ih =>
      rw [List.append_cons] at hadmits
      exact (ih hadmits).of_append_singleton

/-- The key chunk in front of a value chunk is closed, and stays so. -/
theorem Admits.key_closed_append (hadmits : plan.Admits data)
    (hbegun : plan.schema.begins role ≤ data.length) (datum : Datum) :
    role = .value → (plan.draft (data ++ [datum]) .key).IsClosed := by
  rintro rfl
  have hended : plan.schema.ends .key ≤ data.length := by rwa [Schema.ends_key]
  rw [draft_append_outside (.inr hended)]
  exact hadmits.isClosed .key hended

/-- A datum that its column takes, and for which the table has room, is admitted
in the chunk of the column. -/
theorem Admits.append_in {column : Column} {datum : Datum} (hadmits : plan.Admits data)
    (hbegun : plan.schema.begins role ≤ data.length)
    (hcolumn : (plan.schema.columns role).get? (data.length - plan.schema.begins role) =
      some column)
    (htakes : column.Takes datum) (hopen : (plan.draft (data ++ [datum]) role).IsOpen) :
    plan.AdmitsIn (data ++ [datum]) role := by
  have hindex := Columns.lt_length_of_get? hcolumn
  have hlength : (data ++ [datum]).length = data.length + 1 := List.length_append
  have hends : data.length < plan.schema.ends role := by
    unfold Schema.ends
    omega
  refine ⟨by omega, by omega, ?_, hopen, ?_⟩
  · intro other cell hcell
    by_cases hsame : other = role
    · subst hsame
      rw [Image.cells_append_inside hbegun hcolumn] at hcell
      rcases List.mem_append.mp hcell with hold | hnew
      · exact hadmits.takes _ cell hold
      · obtain rfl := List.mem_singleton.mp hnew
        exact htakes
    · rw [Image.cells_append_outside (Schema.outside_of_ne hsame hbegun hends)] at hcell
      exact hadmits.takes other cell hcell
  · exact hadmits.key_closed_append hbegun datum

theorem Admits.take (hadmits : plan.Admits data) (count : Nat) :
    plan.Admits (data.take count) := by
  rw [← List.take_append_drop count data] at hadmits
  exact hadmits.of_append

end Plan

end PackedTuple
