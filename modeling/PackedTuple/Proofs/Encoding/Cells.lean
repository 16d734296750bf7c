import PackedTuple.Build.Builder
import PackedTuple.Encoding.Image
import PackedTuple.Proofs.Encoding.Draft
import PackedTuple.Proofs.Encoding.Fields
import PackedTuple.Proofs.Schema.Columns

/-! # Data so far

Data appended so far settle, for each chunk, the columns that have their datum
and the draft that the chunk has come to. One more datum adds to the chunk that
owns the next column, and leaves the other chunk alone.
-/

namespace PackedTuple

section Zip

variable {α β : Type} {left : List α} {right : List β} {first : α}

theorem zip_append_singleton (hfirst : left[right.length]? = some first) (second : β) :
    left.zip (right ++ [second]) = left.zip right ++ [(first, second)] := by
  induction left generalizing right with
  | nil => contradiction
  | cons head rest ih =>
      cases right with
      | nil =>
          obtain rfl := Option.some.inj hfirst
          simp
      | cons other others =>
          rw [List.cons_append, List.zip_cons_cons, ih hfirst]
          rfl

theorem zip_append_of_length_le (hlength : left.length ≤ right.length) (others : List β) :
    left.zip (right ++ others) = left.zip right := by
  induction left generalizing right with
  | nil => rfl
  | cons head rest ih =>
      cases right with
      | nil => contradiction
      | cons other right =>
          rw [List.cons_append, List.zip_cons_cons, List.zip_cons_cons,
            ih (Nat.le_of_succ_le_succ hlength)]

theorem zip_take_right (left : List α) (right : List β) (count : Nat) :
    left.zip (right.take count) = (left.zip right).take count := by
  induction left generalizing right count with
  | nil => simp
  | cons head rest ih =>
      cases right with
      | nil => simp
      | cons other others =>
          cases count with
          | zero => simp
          | succ count =>
              rw [List.take_succ_cons, List.zip_cons_cons, List.zip_cons_cons,
                List.take_succ_cons, ih]

end Zip

namespace Image

variable {schema : Schema} {data : List Datum} {role : ChunkRole}

/-- The field of a cell. -/
def field (cell : Column × Datum) : Field :=
  cell.2.field cell.1.type

theorem cells_eq_zip (schema : Schema) (data : List Datum) (role : ChunkRole) :
    cells schema data role = (schema.columns role).toList.zip (data.drop (schema.begins role)) := by
  cases role <;> rfl

theorem length_cells (schema : Schema) (data : List Datum) (role : ChunkRole) :
    (cells schema data role).length =
      min (schema.columns role).length (data.length - schema.begins role) := by
  rw [cells_eq_zip, List.length_zip, List.length_drop]
  rfl

theorem getElem?_cells_eq_some {column : Column} {datum : Datum} {index : Nat} :
    (cells schema data role)[index]? = some (column, datum) ↔
      (schema.columns role).get? index = some column ∧
        data[schema.begins role + index]? = some datum := by
  rw [cells_eq_zip, List.getElem?_zip_eq_some, List.getElem?_drop]
  rfl

theorem cells_take (schema : Schema) (data : List Datum) (role : ChunkRole) (count : Nat) :
    cells schema (data.take count) role =
      (cells schema data role).take (count - schema.begins role) := by
  rw [cells_eq_zip, cells_eq_zip, List.drop_take, zip_take_right]

/-- A datum for a column of the chunk makes one more cell. -/
theorem cells_append_inside {column : Column} (hbegun : schema.begins role ≤ data.length)
    (hcolumn : (schema.columns role).get? (data.length - schema.begins role) = some column)
    (datum : Datum) :
    cells schema (data ++ [datum]) role = cells schema data role ++ [(column, datum)] := by
  rw [cells_eq_zip, cells_eq_zip, List.drop_append_of_le_length hbegun]
  apply zip_append_singleton
  rw [List.length_drop]
  exact hcolumn

/-- A datum for a column of the other chunk makes none. -/
theorem cells_append_outside
    (houtside : data.length < schema.begins role ∨ schema.ends role ≤ data.length)
    (datum : Datum) : cells schema (data ++ [datum]) role = cells schema data role := by
  rw [cells_eq_zip, cells_eq_zip]
  rcases houtside with hbefore | hbehind
  · have hnext : (data ++ [datum]).length ≤ schema.begins role := by
      rw [List.length_append]
      exact hbefore
    rw [List.drop_eq_nil_of_le hnext, List.drop_eq_nil_of_le (Nat.le_of_lt hbefore)]
  · have hle : schema.begins role + (schema.columns role).toList.length ≤ data.length := hbehind
    rw [List.drop_append_of_le_length (by omega)]
    apply zip_append_of_length_le
    rw [List.length_drop]
    omega

end Image

namespace Plan

/-- How many table entries are announced for a chunk. -/
def slots (plan : Plan) : ChunkRole → Nat
  | .key => plan.keyVarlens
  | .value => plan.valueVarlens

/-- The draft of a chunk after data. -/
def draft (plan : Plan) (data : List Datum) (role : ChunkRole) : Draft where
  columnCount := (plan.schema.columns role).length
  slots := plan.slots role
  fields := (Image.cells plan.schema data role).map Image.field

variable {plan : Plan} {data : List Datum} {role : ChunkRole}

theorem getElem?_fields_eq_some {field : Field} {index : Nat} :
    (plan.draft data role).fields[index]? = some field ↔
      ∃ cell, (Image.cells plan.schema data role)[index]? = some cell ∧
        Image.field cell = field := by
  rw [draft, List.getElem?_map, Option.map_eq_some_iff]

theorem length_fields_draft (plan : Plan) (data : List Datum) (role : ChunkRole) :
    (plan.draft data role).fields.length =
      min (plan.schema.columns role).length (data.length - plan.schema.begins role) := by
  rw [draft, List.length_map, Image.length_cells]

theorem length_fields_draft_le (plan : Plan) (data : List Datum) (role : ChunkRole) :
    (plan.draft data role).fields.length ≤ (plan.draft data role).columnCount := by
  rw [length_fields_draft]
  exact Nat.min_le_left ..

theorem draft_append_inside {column : Column} (hbegun : plan.schema.begins role ≤ data.length)
    (hcolumn : (plan.schema.columns role).get? (data.length - plan.schema.begins role) =
      some column) (datum : Datum) :
    plan.draft (data ++ [datum]) role = (plan.draft data role).add (datum.field column.type) := by
  rw [draft, Image.cells_append_inside hbegun hcolumn, List.map_append]
  rfl

theorem draft_append_outside
    (houtside : data.length < plan.schema.begins role ∨ plan.schema.ends role ≤ data.length)
    (datum : Datum) : plan.draft (data ++ [datum]) role = plan.draft data role := by
  rw [draft, draft, Image.cells_append_outside houtside]

/-- The draft of a chunk that no datum is for yet. -/
theorem draft_of_length_le (hlength : data.length ≤ plan.schema.begins role) :
    plan.draft data role = .opened (plan.schema.columns role).length (plan.slots role) := by
  rw [draft, Image.cells_eq_zip, List.drop_eq_nil_of_le hlength, List.zip_nil_right]
  rfl

/-- The draft after some of the data has the first fields of the draft after all of them. -/
theorem draft_take (plan : Plan) (data : List Datum) (role : ChunkRole) (count : Nat) :
    plan.draft (data.take count) role =
      ⟨(plan.schema.columns role).length, plan.slots role,
        (plan.draft data role).fields.take (count - plan.schema.begins role)⟩ := by
  rw [draft, draft, Image.cells_take, List.map_take]

theorem length_draft_take (plan : Plan) (data : List Datum) (role : ChunkRole) (count : Nat) :
    (plan.draft (data.take count) role).length =
      (plan.draft data role).position (count - plan.schema.begins role) := by
  rw [draft_take]
  rfl

end Plan

end PackedTuple
