import PackedTuple.Buffer.Text
import PackedTuple.Proofs.Buffer.Allocation
import PackedTuple.Proofs.Text.Transcoding

/-! # What a history of writes leaves

Writes of all kinds come down to putting bytes at an offset. So a history can be
carried out in memory as well, and the written part of a buffer ends where the
furthest of the writes that brought anything ends.
-/

namespace PackedTuple

namespace Buffer

variable {units : List UInt16} {text : String}

/-- A text is written as the bytes of the string that it spells. -/
theorem putUtf16_of_toString? (htext : Utf16.toString? units = some text) (buffer : Buffer)
    (offset : Nat) (transcoder : Transcoder) :
    ∃ filled, buffer.putUtf16 offset units transcoder =
      (.ok (utf8Bytes text).length, buffer.put offset (utf8Bytes text), filled) := by
  have hdata := Transcoder.transcode_of_toString? htext transcoder
  rw [putUtf16, ← Prod.eta (transcoder.transcode units), hdata]
  exact ⟨_, rfl⟩

/-- Nothing is written of what spells no string. -/
theorem putUtf16_of_none (htext : Utf16.toString? units = none) (buffer : Buffer) (offset : Nat)
    (transcoder : Transcoder) :
    ∃ failure filled, buffer.putUtf16 offset units transcoder =
      (.error failure, buffer, filled) := by
  obtain ⟨failure, hfailure⟩ := Transcoder.transcode_of_none htext transcoder
  rw [putUtf16, ← Prod.eta (transcoder.transcode units), hfailure]
  exact ⟨failure, _, rfl⟩

end Buffer

/-- Whatever its kind, a write puts the bytes that it brings at its offset. -/
theorem Write.fst_run (state : Buffer × Transcoder) (write : Write) :
    (write.run state).1 = state.1.put write.offset write.data := by
  cases write with
  | bytes offset data => rfl
  | scalar offset number => rfl
  | string offset text => rfl
  | utf16 offset units =>
      rw [run, Write.data, Write.offset]
      cases htext : Utf16.toString? units with
      | none =>
          obtain ⟨failure, filled, hput⟩ := Buffer.putUtf16_of_none htext state.1 offset state.2
          rw [hput]
          rfl
      | some text =>
          obtain ⟨filled, hput⟩ := Buffer.putUtf16_of_toString? htext state.1 offset state.2
          rw [hput]
          rfl

namespace Writes

/-- Writes carried out in memory, on cells that are all zero. -/
def inMemory (capacity : Nat) (writes : List Write) : Allocation :=
  writes.foldl (fun allocation write => allocation.put write.offset write.data) (.new capacity)

theorem allocation_foldl (writes : List Write) (state : Buffer × Transcoder) :
    (writes.foldl Write.run state).1.allocation =
      writes.foldl (fun allocation write => allocation.put write.offset write.data)
        state.1.allocation := by
  induction writes generalizing state with
  | nil => rfl
  | cons write rest ih =>
      rw [List.foldl_cons, ih, Write.fst_run, Buffer.allocation_put, List.foldl_cons]

/-- A history carried out in memory leaves the cells of the buffer that it leaves. -/
theorem inMemory_eq (capacity : Nat) (writes : List Write) :
    inMemory capacity writes = (run capacity writes).1.allocation := by
  rw [run, allocation_foldl, Buffer.allocation_of_written rfl]
  rfl

/-- The capacity counts the cells in memory. -/
theorem size_cells_inMemory (capacity : Nat) (writes : List Write) :
    (inMemory capacity writes).cells.size = (run capacity writes).1.capacity := by
  rw [inMemory_eq, Buffer.size_cells_allocation]

theorem written_foldl (writes : List Write) (state : Buffer × Transcoder) :
    (writes.foldl Write.run state).1.written =
      (writes.map Write.stop).foldl max state.1.written := by
  induction writes generalizing state with
  | nil => rfl
  | cons write rest ih =>
      rw [List.foldl_cons, ih, List.map_cons, List.foldl_cons, Write.fst_run, Buffer.written_put,
        Write.stop]
      split
      · rw [Nat.max_eq_left (Nat.zero_le _)]
      · rfl

/-- The written part ends where the furthest write ends. -/
theorem written_run (capacity : Nat) (writes : List Write) :
    (run capacity writes).1.written = stop writes :=
  written_foldl writes (.withCapacity capacity, .empty)

/-- No write ends behind the furthest one. -/
theorem stop_le {writes : List Write} {write : Write} (hwrite : write ∈ writes) :
    write.stop ≤ stop writes := by
  rw [stop, List.foldl_max]
  cases hmax : (writes.map Write.stop).max? with
  | none =>
      obtain rfl := List.map_eq_nil_iff.mp (List.max?_eq_none_iff.mp hmax)
      contradiction
  | some largest =>
      have hlargest := (List.max?_eq_some_iff.mp hmax).2 _ (List.mem_map_of_mem hwrite)
      exact Nat.le_trans hlargest (Nat.le_max_right ..)

/-- The furthest end is the end of a write, unless nothing is written. -/
theorem exists_stop_eq {writes : List Write} (hstop : stop writes ≠ 0) :
    ∃ write ∈ writes, write.stop = stop writes := by
  rw [stop, List.foldl_max] at hstop ⊢
  cases hmax : (writes.map Write.stop).max? with
  | none =>
      rw [hmax] at hstop
      contradiction
  | some largest =>
      rw [Option.getD_some, Nat.max_eq_right (Nat.zero_le _)]
      exact List.mem_map.mp (List.max?_mem hmax)

theorem stop_of_data {write : Write} (hdata : write.data ≠ []) :
    write.stop = write.offset + write.data.length := by
  rw [Write.stop, if_neg hdata]

theorem stop_eq_zero_iff {write : Write} : write.stop = 0 ↔ write.data = [] := by
  constructor
  · intro hstop
    apply Classical.byContradiction
    intro hdata
    have hlength := List.length_pos_iff.mpr hdata
    rw [stop_of_data hdata] at hstop
    omega
  · intro hdata
    exact if_pos hdata

/-- Something is written exactly if some write brings something. -/
theorem stop_ne_zero_iff {writes : List Write} :
    stop writes ≠ 0 ↔ ∃ write ∈ writes, write.data ≠ [] := by
  constructor
  · intro hstop
    obtain ⟨write, hwrite, hend⟩ := exists_stop_eq hstop
    exact ⟨write, hwrite, mt stop_eq_zero_iff.mpr (hend ▸ hstop)⟩
  · rintro ⟨write, hwrite, hdata⟩ hstop
    exact hdata (stop_eq_zero_iff.mp (Nat.le_zero.mp (hstop ▸ stop_le hwrite)))

/-- If anything is, the written part ends with the furthest of the writes that bring something. -/
theorem stop_eq_iff {writes : List Write} {last : Nat} :
    stop writes = last ∧ last ≠ 0 ↔
      (∃ write ∈ writes, write.data ≠ [] ∧ write.offset + write.data.length = last) ∧
        ∀ write ∈ writes, write.data ≠ [] → write.offset + write.data.length ≤ last := by
  constructor
  · rintro ⟨rfl, hstop⟩
    obtain ⟨write, hwrite, hend⟩ := exists_stop_eq hstop
    have hdata : write.data ≠ [] := mt stop_eq_zero_iff.mpr (hend ▸ hstop)
    refine ⟨⟨write, hwrite, hdata, (stop_of_data hdata).symm.trans hend⟩, ?_⟩
    intro other hother hbrings
    exact stop_of_data hbrings ▸ stop_le hother
  · rintro ⟨⟨write, hwrite, hdata, rfl⟩, hbound⟩
    have hstop := stop_ne_zero_iff.mpr ⟨write, hwrite, hdata⟩
    rw [← stop_of_data hdata] at hbound ⊢
    refine ⟨?_, mt stop_eq_zero_iff.mp hdata⟩
    obtain ⟨furthest, hfurthest, hend⟩ := exists_stop_eq hstop
    have hbrings : furthest.data ≠ [] := mt stop_eq_zero_iff.mpr (hend ▸ hstop)
    refine Nat.le_antisymm ?_ (stop_le hwrite)
    rw [← hend, stop_of_data hbrings]
    exact hbound furthest hfurthest hbrings

end Writes

end PackedTuple
