import PackedTuple.Proofs.Encoding.Cells

/-! # Drafts and images

The draft of a chunk that has all its columns gives the bytes that the image of
the chunk is composed of. The fixed-length columns come first, so the fields in
column order are the fixed-length values followed by the others.
-/

namespace PackedTuple

namespace Image

/-- No fixed-length column behind one that is not. -/
def FixedFirst (cells : Cells) : Prop :=
  cells.Pairwise fun earlier later =>
    later.1.isFixedLength = true → earlier.1.isFixedLength = true

theorem fixedFirst_zip {columns : List Column} (hfirst : columns.Pairwise fun earlier later =>
      later.isFixedLength = true → earlier.isFixedLength = true) (data : List Datum) :
    FixedFirst (columns.zip data) := by
  induction columns generalizing data with
  | nil => exact List.Pairwise.nil
  | cons column rest ih =>
      obtain ⟨hcolumn, hrest⟩ := List.pairwise_cons.mp hfirst
      cases data with
      | nil => exact List.Pairwise.nil
      | cons datum data =>
          refine List.pairwise_cons.mpr ⟨?_, ih hrest data⟩
          intro cell hcell hfixed
          exact hcolumn cell.1 (List.of_mem_zip hcell).1 hfixed

theorem fixedFirst_cells (schema : Schema) (data : List Datum) (role : ChunkRole) :
    FixedFirst (cells schema data role) := by
  rw [cells_eq_zip]
  exact fixedFirst_zip (schema.columns role).fixed_first _

section Cons

variable {column : Column} {datum : Datum} {rest : Cells}

theorem fixedValues_null :
    fixedValues ((column, .null) :: rest) = fixedValues rest := rfl

theorem payloads_null : payloads ((column, .null) :: rest) = payloads rest := rfl

theorem present_cons (hnull : datum ≠ .null) :
    present ((column, datum) :: rest) = (column, datum) :: present rest :=
  List.filter_cons_of_pos (bne_iff_ne.mpr hnull)

theorem fixedValues_fixed (hnull : datum ≠ .null) (hfixed : column.isFixedLength = true) :
    fixedValues ((column, datum) :: rest) = datum.stored column.type :: fixedValues rest := by
  simp [fixedValues, present_cons hnull, hfixed]

theorem payloads_fixed (hnull : datum ≠ .null) (hfixed : column.isFixedLength = true) :
    payloads ((column, datum) :: rest) = payloads rest := by
  simp [payloads, present_cons hnull, hfixed]

theorem payloads_varlen (hnull : datum ≠ .null) (hvarlen : column.isFixedLength = false) :
    payloads ((column, datum) :: rest) = datum.stored column.type :: payloads rest := by
  simp [payloads, present_cons hnull, hvarlen]

/-- Behind a variable-length column there are no fixed-length values. -/
theorem fixedValues_varlen (hfirst : FixedFirst ((column, datum) :: rest))
    (hvarlen : column.isFixedLength = false) :
    fixedValues ((column, datum) :: rest) = [] ∧ fixedValues rest = [] := by
  have hnone : ∀ cell ∈ (column, datum) :: rest, ¬cell.1.isFixedLength = true := by
    intro cell hcell hfixed
    rcases List.mem_cons.mp hcell with rfl | hrest
    · exact absurd hfixed (by simp [hvarlen])
    · have hcolumn := (List.pairwise_cons.mp hfirst).1 cell hrest hfixed
      exact absurd hcolumn (by simp [hvarlen])
  have hempty : ∀ cells : Cells, (∀ cell ∈ cells, ¬cell.1.isFixedLength = true) →
      fixedValues cells = [] := by
    intro cells hcells
    rw [fixedValues, List.map_eq_nil_iff, List.filter_eq_nil_iff]
    intro cell hcell
    exact hcells cell (List.mem_filter.mp hcell).1
  exact ⟨hempty _ hnone, hempty _ fun cell hcell => hnone cell (List.mem_cons_of_mem _ hcell)⟩

end Cons

/-- The payload with a given number of others in front of it is that of a cell. -/
theorem exists_cell_of_lt_length_payloads {cells : Cells} {count : Nat}
    (hlt : count < (payloads cells).length) :
    ∃ index column datum, cells[index]? = some (column, datum) ∧ datum ≠ .null ∧
      column.isFixedLength = false ∧ (payloads (cells.take index)).length = count := by
  induction cells generalizing count with
  | nil => contradiction
  | cons cell rest ih =>
      obtain ⟨column, datum⟩ := cell
      by_cases hnull : datum = .null
      · subst hnull
        obtain ⟨index, other, value, hcell, hvalue, hvarlen, hcount⟩ := ih hlt
        exact ⟨index + 1, other, value, hcell, hvalue, hvarlen, hcount⟩
      · cases hfixed : column.isFixedLength with
        | true =>
            rw [payloads_fixed hnull hfixed] at hlt
            obtain ⟨index, other, value, hcell, hvalue, hvarlen, hcount⟩ := ih hlt
            refine ⟨index + 1, other, value, hcell, hvalue, hvarlen, ?_⟩
            rw [List.take_succ_cons, payloads_fixed hnull hfixed, hcount]
        | false =>
            cases count with
            | zero => exact ⟨0, column, datum, rfl, hnull, hfixed, rfl⟩
            | succ count =>
                rw [payloads_varlen hnull hfixed] at hlt
                obtain ⟨index, other, value, hcell, hvalue, hvarlen, hcount⟩ :=
                  ih (Nat.lt_of_succ_lt_succ hlt)
                refine ⟨index + 1, other, value, hcell, hvalue, hvarlen, ?_⟩
                rw [List.take_succ_cons, payloads_varlen hnull hfixed, List.length_cons, hcount]

/-- The fields in column order hold the fixed-length values, then the others. -/
theorem flatMap_bytes_field {cells : Cells} (hfirst : FixedFirst cells)
    (htakes : ∀ cell ∈ cells, cell.1.Takes cell.2) :
    (cells.map field).flatMap Field.bytes =
      (fixedValues cells).flatten ++ (payloads cells).flatten := by
  induction cells with
  | nil => rfl
  | cons cell rest ih =>
      obtain ⟨column, datum⟩ := cell
      obtain ⟨htake, hrest⟩ := List.forall_mem_cons.mp htakes
      have ih := ih (List.pairwise_cons.mp hfirst).2 hrest
      rw [List.map_cons, List.flatMap_cons, ih, field, Datum.bytes_field htake]
      by_cases hnull : datum = .null
      · subst hnull
        rw [fixedValues_null, payloads_null]
        rfl
      · cases hfixed : column.isFixedLength with
        | true =>
            rw [fixedValues_fixed hnull hfixed, payloads_fixed hnull hfixed, List.flatten_cons,
              List.append_assoc]
        | false =>
            -- No fixed-length value follows, so the payload is next in both orders.
            obtain ⟨hcons, htail⟩ := fixedValues_varlen hfirst hfixed
            rw [hcons, htail, payloads_varlen hnull hfixed]
            rfl

/-- The table of a draft points to the payloads of its cells. -/
theorem starts_field {cells : Cells} (hfirst : FixedFirst cells)
    (htakes : ∀ cell ∈ cells, cell.1.Takes cell.2) (first : Nat) :
    Field.starts first (cells.map field) =
      starts (first + (fixedValues cells).flatten.length) (payloads cells) := by
  induction cells generalizing first with
  | nil => rfl
  | cons cell rest ih =>
      obtain ⟨column, datum⟩ := cell
      obtain ⟨htake, hrest⟩ := List.forall_mem_cons.mp htakes
      have ih := ih (List.pairwise_cons.mp hfirst).2 hrest
      have hsize : (field (column, datum)).size = (datum.stored column.type).length :=
        Datum.size_field htake
      have hvarlen := Datum.isVarlen_field htake
      rw [List.map_cons, Field.starts, hsize, ih]
      change (field (column, datum)).isVarlen = _ at hvarlen
      rw [hvarlen]
      by_cases hnull : datum = .null
      · subst hnull
        rfl
      · cases hfixed : column.isFixedLength with
        | true =>
            rw [fixedValues_fixed hnull hfixed, payloads_fixed hnull hfixed, List.flatten_cons,
              List.length_append, ← Nat.add_assoc]
            simp
        | false =>
            obtain ⟨hcons, htail⟩ := fixedValues_varlen hfirst hfixed
            rw [hcons, htail, payloads_varlen hnull hfixed]
            simp [hnull, starts]

theorem length_starts (first : Nat) (payloads : List (List UInt8)) :
    (starts first payloads).length = payloads.length := by
  induction payloads generalizing first with
  | nil => rfl
  | cons payload rest ih => rw [starts, List.length_cons, ih, List.length_cons]

theorem length_starts_field {cells : Cells} (hfirst : FixedFirst cells)
    (htakes : ∀ cell ∈ cells, cell.1.Takes cell.2) (first : Nat) :
    (Field.starts first (cells.map field)).length = (payloads cells).length := by
  rw [starts_field hfirst htakes, length_starts]

/-- A draft with the fields of all cells. -/
def draft (cells : Cells) (slots : Nat) : Draft :=
  ⟨cells.length, slots, cells.map field⟩

section Draft

variable {cells : Cells} {slots : Nat}

theorem totalSize_field (hfirst : FixedFirst cells)
    (htakes : ∀ cell ∈ cells, cell.1.Takes cell.2) :
    Field.totalSize (cells.map field) =
      (fixedValues cells).flatten.length + (payloads cells).flatten.length := by
  rw [← Field.length_flatMap_bytes, flatMap_bytes_field hfirst htakes, List.length_append]

theorem starts_draft (hfirst : FixedFirst cells) (htakes : ∀ cell ∈ cells, cell.1.Takes cell.2)
    (hslots : (payloads cells).length = slots) :
    (draft cells slots).starts = starts (payloadStart cells) (payloads cells) := by
  subst hslots
  exact starts_field hfirst htakes _

theorem length_starts_draft (hfirst : FixedFirst cells)
    (htakes : ∀ cell ∈ cells, cell.1.Takes cell.2) :
    (draft cells slots).starts.length = (payloads cells).length :=
  length_starts_field hfirst htakes _

theorem length_draft (hfirst : FixedFirst cells) (htakes : ∀ cell ∈ cells, cell.1.Takes cell.2)
    (hslots : (payloads cells).length = slots) :
    (draft cells slots).length = chunkLength cells := by
  subst hslots
  rw [Draft.length, draft, totalSize_field hfirst htakes, ← Nat.add_assoc]
  rfl

theorem nullMap_draft (cells : Cells) (slots : Nat) :
    (draft cells slots).nullMap = nullMap cells := by
  rw [Draft.nullMap, nullMap]
  congr 1
  funext index
  simp only [Draft.isNull, draft, List.getElem?_map]
  cases cells[index]? with
  | none => rfl
  | some cell =>
      simp only [Option.map_some, Option.any_some]
      rw [Bool.eq_iff_iff, beq_iff_eq, beq_iff_eq, Option.some.injEq]
      exact Datum.field_eq_null_iff

/-- Once its table is full, a draft with the fields of all cells is the image of the chunk. -/
theorem image_draft (hfirst : FixedFirst cells) (htakes : ∀ cell ∈ cells, cell.1.Takes cell.2)
    (hslots : (payloads cells).length = slots) : (draft cells slots).image = chunk cells := by
  have hfull : (draft cells slots).starts.length = (draft cells slots).slots :=
    (length_starts_draft hfirst htakes).trans hslots
  have hdata : (draft cells slots).fields.flatMap Field.bytes = _ :=
    flatMap_bytes_field hfirst htakes
  have hcount : (draft cells slots).slots = (payloads cells).length := hslots.symm
  rw [Draft.image_eq_head_append, Draft.head, Draft.table_of_full hfull, hdata, nullMap_draft,
    starts_draft hfirst htakes hslots, length_draft hfirst htakes hslots, hcount, chunk]
  simp only [List.append_assoc]

end Draft

end Image

namespace Plan

variable {plan : Plan} {data : List Datum} {role : ChunkRole}

/-- A draft uses a table entry for each variable-length value. -/
theorem length_starts_draft
    (htakes : ∀ role, ∀ cell ∈ Image.cells plan.schema data role, cell.1.Takes cell.2)
    (role : ChunkRole) : (plan.draft data role).starts.length =
      (Image.payloads (Image.cells plan.schema data role)).length :=
  Image.length_starts_field (Image.fixedFirst_cells ..) (htakes role) _

/-- The draft of a chunk that has all its columns. -/
theorem draft_eq (hended : plan.schema.ends role ≤ data.length) :
    plan.draft data role = Image.draft (Image.cells plan.schema data role) (plan.slots role) := by
  rw [draft, Image.draft, Image.length_cells, Nat.min_eq_left]
  unfold Schema.ends at hended
  omega

end Plan

end PackedTuple
