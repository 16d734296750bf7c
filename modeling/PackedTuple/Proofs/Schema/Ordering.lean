import PackedTuple.Proofs.Schema.Columns

/-! # The order of columns

Columns are stored as a stable sort leaves them that looks at nothing but whether a column
is of fixed length. So stored columns are the declared ones, each group in the order of its
declaration, and two declarations are stored alike exactly if their groups are the same.
Columns that are in order already stay as they are.
-/

namespace PackedTuple

/-- In a list where nothing satisfies a predicate behind an element that does not, the elements
that satisfy it come first. -/
theorem filter_append_filter_not {α : Type} {satisfies : α → Bool} {items : List α}
    (hfirst : items.Pairwise fun earlier later =>
      satisfies later = true → satisfies earlier = true) :
    items.filter satisfies ++ items.filter (!satisfies ·) = items := by
  induction items with
  | nil => rfl
  | cons head rest ih =>
      obtain ⟨hhead, hrest⟩ := List.pairwise_cons.mp hfirst
      cases hsat : satisfies head with
      | true =>
          rw [List.filter_cons_of_pos hsat, List.filter_cons_of_neg (by simp [hsat]),
            List.cons_append, ih hrest]
      | false =>
          -- Nothing behind the head satisfies the predicate either.
          have hnone : rest.filter satisfies = [] := by
            rw [List.filter_eq_nil_iff]
            intro item hitem htrue
            exact absurd (hhead item hitem htrue) (by simp [hsat])
          have hall := ih hrest
          rw [hnone, List.nil_append] at hall
          rw [List.filter_cons_of_neg (by simp [hsat]), List.filter_cons_of_pos (by simp [hsat]),
            hnone, hall, List.nil_append]

/-- What columns are sorted by: those of fixed length come first. -/
def Column.sortKey (column : Column) : Nat :=
  (!column.isFixedLength).toNat

/-- Whether a column may stand in front of another one in a sorted list. -/
def Column.precedes (earlier later : Column) : Bool :=
  decide (earlier.sortKey ≤ later.sortKey)

namespace Column

theorem precedes_iff {earlier later : Column} :
    earlier.precedes later = true ↔
      (later.isFixedLength = true → earlier.isFixedLength = true) := by
  rw [precedes, sortKey, sortKey]
  cases earlier.isFixedLength <;> cases later.isFixedLength <;> decide

theorem precedes_trans (first second third : Column) (hfirst : first.precedes second = true)
    (hsecond : second.precedes third = true) : first.precedes third = true := by
  rw [precedes_iff] at hfirst hsecond ⊢
  exact hfirst ∘ hsecond

theorem precedes_total (left right : Column) :
    (left.precedes right || right.precedes left) = true := by
  rw [precedes, precedes, Bool.or_eq_true, decide_eq_true_eq, decide_eq_true_eq]
  exact Nat.le_total ..

end Column

namespace Columns

/-- Sorting keeps the order among columns none of which has to stand behind another. -/
theorem filter_mergeSort (declared : List Column) (group : Column → Bool)
    (hgroup : ∀ left right, group left = true → group right = true →
      left.precedes right = true) :
    (declared.mergeSort Column.precedes).filter group = declared.filter group := by
  have hordered : (declared.filter group).Pairwise fun left right =>
      left.precedes right = true :=
    List.pairwise_filter.mpr (List.pairwise_of_forall fun _ _ => hgroup _ _)
  have hkept : (declared.filter group).Sublist (declared.mergeSort Column.precedes) :=
    List.sublist_mergeSort Column.precedes_trans Column.precedes_total hordered
      List.filter_sublist
  -- The group is still there in its order, and sorting brought no other members into it.
  have hinside := hkept.filter group
  rw [List.filter_filter] at hinside
  simp only [Bool.and_self] at hinside
  have hperm := (List.mergeSort_perm declared Column.precedes).filter group
  exact (hinside.eq_of_length hperm.length_eq.symm).symm

/-- Stored order is the order of a stable sort. -/
theorem toList_ofList_eq_mergeSort (declared : List Column) :
    (ofList declared).toList = declared.mergeSort Column.precedes := by
  have hsorted : (declared.mergeSort Column.precedes).Pairwise fun earlier later =>
      later.isFixedLength = true → earlier.isFixedLength = true :=
    (List.pairwise_mergeSort Column.precedes_trans Column.precedes_total declared).imp
      Column.precedes_iff.mp
  have hfixed := filter_mergeSort declared (·.isFixedLength)
    fun _ _ hleft _ => Column.precedes_iff.mpr fun _ => hleft
  have hvarlen := filter_mergeSort declared (!·.isFixedLength)
    fun _ _ _ hright => Column.precedes_iff.mpr fun hfixed => by simp [hfixed] at hright
  rw [← filter_append_filter_not hsorted, hfixed, hvarlen]
  rfl

/-- Columns in stored order are stored as they are. -/
theorem ofList_toList (columns : Columns) : ofList columns.toList = columns := by
  obtain ⟨toList, hfirst⟩ := columns
  rw [ofList]
  congr
  exact filter_append_filter_not hfirst

theorem filter_fixed_ofList (declared : List Column) :
    (ofList declared).toList.filter (·.isFixedLength) = declared.filter (·.isFixedLength) := by
  simp [ofList, List.filter_filter]

theorem filter_varlen_ofList (declared : List Column) :
    (ofList declared).toList.filter (!·.isFixedLength) = declared.filter (!·.isFixedLength) := by
  simp [ofList, List.filter_filter]

/-- The groups are all that is kept of a declaration. -/
theorem ofList_eq_iff {declared other : List Column} :
    ofList declared = ofList other ↔
      declared.filter (·.isFixedLength) = other.filter (·.isFixedLength) ∧
        declared.filter (!·.isFixedLength) = other.filter (!·.isFixedLength) := by
  constructor
  · intro heq
    rw [← filter_fixed_ofList declared, ← filter_varlen_ofList declared, heq,
      filter_fixed_ofList, filter_varlen_ofList]
    exact ⟨rfl, rfl⟩
  · rintro ⟨hfixed, hvarlen⟩
    simp only [ofList, hfixed, hvarlen]

/-- No column of fixed length is behind the first `fixedCount` ones. -/
theorem fixedCount_eq (columns : Columns) :
    columns.fixedCount = columns.toList.countP (·.isFixedLength) := by
  have hbehind : (columns.toList.filter (!·.isFixedLength)).takeWhile (·.isFixedLength) = [] := by
    rw [List.eq_nil_iff_forall_not_mem]
    intro column hcolumn
    have hfixed := List.all_eq_true.mp List.all_takeWhile column hcolumn
    have hvarlen := (List.mem_filter.mp ((List.takeWhile_sublist _).mem hcolumn)).2
    simp [hfixed] at hvarlen
  calc columns.fixedCount
      = ((columns.toList.filter (·.isFixedLength) ++
          columns.toList.filter (!·.isFixedLength)).takeWhile (·.isFixedLength)).length := by
        rw [filter_append_filter_not columns.fixed_first]
        rfl
    _ = (columns.toList.filter (·.isFixedLength)).length := by
        rw [List.takeWhile_append_of_pos fun _ hmem => (List.mem_filter.mp hmem).2, hbehind,
          List.append_nil]
    _ = columns.toList.countP (·.isFixedLength) := List.countP_eq_length_filter.symm

/-- The column at an index, if there is one, is of fixed length exactly in front of
`fixedCount`. -/
theorem any_isFixedLength_iff (columns : Columns) (index : Nat) :
    (columns.get? index).any (·.isFixedLength) = true ↔ index < columns.fixedCount := by
  rcases Nat.lt_or_ge index columns.length with hindex | hindex
  · obtain ⟨column, hcolumn⟩ := get?_eq_some_of_lt hindex
    rw [hcolumn]
    exact isFixedLength_iff hcolumn
  · have hnone : columns.get? index = none := List.getElem?_eq_none hindex
    have hcount := columns.fixedCount_le_length
    rw [hnone]
    exact iff_of_false Bool.false_ne_true (by omega)

/-- Declared columns are stored in the order of a stable sort, those of fixed length in front. How
many these are tells which columns they are, whether one asks for their kind or for a width. Storing
stored columns changes nothing, and only the two groups of a declaration matter. -/
theorem ofList_sorts_stably (declared : List Column) :
    (ofList declared).toList =
        declared.filter (·.isFixedLength) ++ declared.filter (!·.isFixedLength) ∧
    (ofList declared).toList = declared.mergeSort Column.precedes ∧
    (ofList declared).toList.Perm declared ∧
    (ofList declared).fixedCount = declared.countP (·.isFixedLength) ∧
    (∀ index, ((ofList declared).get? index).any (·.isFixedLength) = true ↔
      index < (ofList declared).fixedCount) ∧
    (∀ index, ((ofList declared).get? index).any (·.type.width?.isSome) = true ↔
      index < (ofList declared).fixedCount) ∧
    ofList (ofList declared).toList = ofList declared ∧
    ∀ other, ofList declared = ofList other ↔
      declared.filter (·.isFixedLength) = other.filter (·.isFixedLength) ∧
        declared.filter (!·.isFixedLength) = other.filter (!·.isFixedLength) := by
  have hperm : (ofList declared).toList.Perm declared :=
    List.filter_append_perm Column.isFixedLength declared
  have hwidth : (fun column : Column => column.type.width?.isSome) = Column.isFixedLength :=
    funext fun column => column.type.isSome_width?
  refine ⟨rfl, toList_ofList_eq_mergeSort declared, hperm, ?_, any_isFixedLength_iff _, ?_,
    ofList_toList _, fun _ => ofList_eq_iff⟩
  · rw [fixedCount_eq, hperm.countP_eq]
  · rw [hwidth]
    exact any_isFixedLength_iff _

end Columns

end PackedTuple
