import PackedTuple.Schema.Basic

/-! # Where the fixed-length columns are

The columns in front of `fixedCount` are those of fixed length, so a column that
is not of fixed length has only such columns behind it. Together they take their
`fixedWidth`.
-/

namespace PackedTuple

/-- In a list where nothing satisfies a predicate behind an element that does not,
the elements that satisfy it are those of the longest such prefix. -/
theorem satisfies_iff_lt_length_takeWhile {α : Type} {satisfies : α → Bool} {items : List α}
    (hfirst : items.Pairwise fun earlier later =>
      satisfies later = true → satisfies earlier = true)
    {index : Nat} {item : α} (hitem : items[index]? = some item) :
    satisfies item = true ↔ index < (items.takeWhile satisfies).length := by
  induction items generalizing index with
  | nil => simp at hitem
  | cons head rest ih =>
      obtain ⟨hhead, hrest⟩ := List.pairwise_cons.mp hfirst
      cases hsat : satisfies head with
      | true =>
          rw [List.takeWhile_cons_of_pos hsat, List.length_cons]
          cases index with
          | zero =>
              obtain rfl := Option.some.inj hitem
              simp [hsat]
          | succ index => rw [ih hrest hitem, Nat.add_lt_add_iff_right]
      | false =>
          rw [List.takeWhile_cons_of_neg (by simp [hsat])]
          -- The prefix is empty, and nothing behind the head satisfies the predicate either.
          refine iff_of_false ?_ (Nat.not_lt_zero _)
          intro htrue
          cases index with
          | zero =>
              obtain rfl := Option.some.inj hitem
              simp [hsat] at htrue
          | succ index =>
              have hmem : item ∈ rest := List.mem_of_getElem? hitem
              exact absurd (hhead item hmem htrue) (by simp [hsat])

namespace Columns

/-- The fixed-length columns are those in front of `fixedCount`. -/
theorem isFixedLength_iff {columns : Columns} {index : Nat} {column : Column}
    (hcolumn : columns.get? index = some column) :
    column.isFixedLength = true ↔ index < columns.fixedCount :=
  satisfies_iff_lt_length_takeWhile columns.fixed_first hcolumn

theorem fixedCount_le_length (columns : Columns) : columns.fixedCount ≤ columns.length :=
  (List.takeWhile_sublist _).length_le

theorem get?_eq_some_of_lt {columns : Columns} {index : Nat} (hindex : index < columns.length) :
    ∃ column, columns.get? index = some column :=
  ⟨columns.toList[index], List.getElem?_eq_getElem hindex⟩

theorem lt_length_of_get? {columns : Columns} {index : Nat} {column : Column}
    (hcolumn : columns.get? index = some column) : index < columns.length :=
  (List.getElem?_eq_some_iff.mp hcolumn).1

end Columns

namespace Schema

theorem roleAt_key {schema : Schema} {index : Nat} (hindex : index < schema.key.length) :
    schema.roleAt index = .key :=
  if_pos hindex

theorem roleAt_value {schema : Schema} {index : Nat} (hindex : schema.key.length ≤ index) :
    schema.roleAt index = .value :=
  if_neg (Nat.not_lt.mpr hindex)

/-- How many columns lie in front of a chunk. -/
def begins (schema : Schema) : ChunkRole → Nat
  | .key => 0
  | .value => schema.key.length

/-- How many columns lie in front of the end of a chunk. -/
def ends (schema : Schema) (role : ChunkRole) : Nat :=
  schema.begins role + (schema.columns role).length

theorem ends_key (schema : Schema) : schema.ends .key = schema.key.length :=
  Nat.zero_add _

theorem ends_le_columnCount (schema : Schema) (role : ChunkRole) :
    schema.ends role ≤ schema.columnCount := by
  cases role with
  | key =>
      rw [ends_key]
      exact Nat.le_add_right ..
  | value => exact Nat.le_refl _

theorem begins_roleAt_le (schema : Schema) (index : Nat) :
    schema.begins (schema.roleAt index) ≤ index := by
  unfold roleAt
  split
  next => exact Nat.zero_le _
  next hge => exact Nat.not_lt.mp hge

theorem lt_ends_roleAt {schema : Schema} {index : Nat} (hindex : index < schema.columnCount) :
    index < schema.ends (schema.roleAt index) := by
  unfold roleAt
  split
  next hlt => rwa [ends_key]
  next => exact hindex

/-- A column belongs to a chunk or lies outside of it. -/
theorem inside_or_outside (schema : Schema) (role : ChunkRole) (index : Nat) :
    (schema.begins role ≤ index ∧ ∃ column,
      (schema.columns role).get? (index - schema.begins role) = some column) ∨
        (index < schema.begins role ∨ schema.ends role ≤ index) := by
  by_cases hinside : schema.begins role ≤ index ∧ index < schema.ends role
  · refine .inl ⟨hinside.1, Columns.get?_eq_some_of_lt ?_⟩
    have hends : schema.ends role = schema.begins role + (schema.columns role).length := rfl
    omega
  · omega

/-- A column of one chunk lies outside of the other. -/
theorem outside_of_ne {schema : Schema} {role other : ChunkRole} {index : Nat}
    (hne : other ≠ role) (hbegins : schema.begins role ≤ index) (hends : index < schema.ends role) :
    index < schema.begins other ∨ schema.ends other ≤ index := by
  cases role with
  | key =>
      cases other with
      | key => contradiction
      | value =>
          rw [ends_key] at hends
          exact .inl hends
  | value =>
      cases other with
      | key =>
          rw [ends_key]
          exact .inr hbegins
      | value => contradiction

end Schema

end PackedTuple
