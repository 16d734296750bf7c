import PackedTuple.Proofs.Buffer.History

/-! # What a buffer holds after a history of writes

To whoever reads it, a buffer is a sparse map of bytes. Each byte comes from the last of
the writes that cover it and is zero if none does, however the writes overlap, whichever
gaps they leave and however often the buffer grows on the way. In memory this is so of all
cells, those behind the written part included: they are the zeros that later gaps consist
of.
-/

namespace PackedTuple

/-- What there is to see of a buffer after some writes. -/
structure Buffer.Reflects (buffer : Buffer) (writes : List Write) : Prop where
  written : buffer.written = Writes.stop writes
  size : buffer.bytes.size = Writes.stop writes
  getElem? : ∀ index, index < Writes.stop writes →
    buffer.bytes[index]? = some (Writes.byteAt writes index)
  byteAt : ∀ index, buffer.byteAt index = Writes.byteAt writes index
  byteAt_behind : ∀ index, Writes.stop writes ≤ index → buffer.byteAt index = 0

/-- What there is in memory after some writes, whether it is shown or not. -/
structure Allocation.Reflects (allocation : Allocation) (writes : List Write) : Prop where
  written : allocation.written = Writes.stop writes
  written_le : allocation.written ≤ allocation.cells.size
  cells : ∀ index, index < allocation.cells.size →
    allocation.cells[index]? = some (Writes.byteAt writes index)
  intoBytes : allocation.intoBytes = allocation.bytes

/-- What the writers of text answer: how many bytes they wrote. A text that cannot be encoded is
refused, and the buffer left as it is. -/
structure Buffer.CountsText (buffer : Buffer) (transcoder : Transcoder) : Prop where
  string : ∀ offset text,
    (buffer.putString offset text).1 = (Write.string offset text).data.length
  utf16 : ∀ offset units text, Utf16.toString? units = some text →
    (buffer.putUtf16 offset units transcoder).1 = .ok (utf8Bytes text).length
  refused : ∀ offset units, Utf16.toString? units = none →
    ∃ failure, (buffer.putUtf16 offset units transcoder).1 = .error failure ∧
      (buffer.putUtf16 offset units transcoder).2.1 = buffer

namespace Buffer

theorem getElem?_eq_byteAt {buffer : Buffer} {index : Nat} (hindex : index < buffer.written) :
    buffer.bytes[index]? = some (buffer.byteAt index) := by
  rw [byteAt, Array.getElem?_eq_getElem hindex, Option.getD_some]

theorem byteAt_of_written_le {buffer : Buffer} {index : Nat} (hindex : buffer.written ≤ index) :
    buffer.byteAt index = 0 := by
  rw [byteAt, Array.getElem?_eq_none hindex, Option.getD_none]

/-- Padding shows no other byte than the buffer does. -/
theorem getElem?_padTo {buffer : Buffer} {size index : Nat} (hindex : index < size) :
    (padTo size buffer.bytes)[index]? = some (buffer.byteAt index) := by
  rw [padTo, Array.getElem?_append]
  split
  next hinside => exact getElem?_eq_byteAt hinside
  next hbehind =>
    have hbehind := Nat.not_lt.mp hbehind
    rw [byteAt_of_written_le hbehind, Array.getElem?_replicate, if_pos (by omega)]

theorem countsText (buffer : Buffer) (transcoder : Transcoder) :
    buffer.CountsText transcoder := by
  constructor
  case string =>
    intro offset text
    rfl
  case utf16 =>
    intro offset units text htext
    obtain ⟨filled, hput⟩ := putUtf16_of_toString? htext buffer offset transcoder
    rw [hput]
  case refused =>
    intro offset units htext
    obtain ⟨failure, filled, hput⟩ := putUtf16_of_none htext buffer offset transcoder
    rw [hput]
    exact ⟨failure, rfl, rfl⟩

end Buffer

namespace Write

/-- A write brings the bytes that it covers and leaves all others. -/
theorem byteAt_run (state : Buffer × Transcoder) (write : Write) (index : Nat) :
    (write.run state).1.byteAt index = (write.byteAt? index).getD (state.1.byteAt index) := by
  rw [fst_run, Buffer.byteAt_put, byteAt?]
  by_cases hstart : write.offset ≤ index
  · by_cases hend : index < write.offset + write.data.length
    · have hplace : index - write.offset < write.data.length := by omega
      rw [if_pos ⟨hstart, hend⟩, if_pos hstart, List.getElem?_eq_getElem hplace]
      rfl
    · rw [if_neg fun hinside => hend hinside.2, if_pos hstart,
        List.getElem?_eq_none (by omega)]
      rfl
  · rw [if_neg fun hinside => hstart hinside.1, if_neg hstart]
    rfl

/-- A write that brings nothing leaves the buffer as it is, its capacity included. -/
theorem fst_run_of_data_eq_nil {write : Write} (hdata : write.data = [])
    (state : Buffer × Transcoder) : (write.run state).1 = state.1 := by
  rw [fst_run, hdata]
  rfl

end Write

namespace Writes

theorem run_append_singleton (capacity : Nat) (writes : List Write) (write : Write) :
    run capacity (writes ++ [write]) = write.run (run capacity writes) := by
  rw [run, List.foldl_append]
  rfl

theorem byteAt_foldl (writes : List Write) (state : Buffer × Transcoder) (index : Nat) :
    (writes.foldl Write.run state).1.byteAt index =
      (writes.reverse.findSome? (·.byteAt? index)).getD (state.1.byteAt index) := by
  induction writes generalizing state with
  | nil => rfl
  | cons write rest ih =>
      rw [List.foldl_cons, ih, Write.byteAt_run, List.reverse_cons, List.findSome?_append,
        List.findSome?_singleton]
      cases rest.reverse.findSome? (·.byteAt? index) <;> rfl

/-- Each byte comes from the last write that covers it. -/
theorem byteAt_run (capacity : Nat) (writes : List Write) (index : Nat) :
    (run capacity writes).1.byteAt index = byteAt writes index :=
  byteAt_foldl writes (.withCapacity capacity, .empty) index

theorem reflects_run (capacity : Nat) (writes : List Write) :
    (run capacity writes).1.Reflects writes := by
  have hwritten := written_run capacity writes
  constructor
  case written => exact hwritten
  case size => exact hwritten
  case getElem? =>
    intro index hindex
    rw [Buffer.getElem?_eq_byteAt (hwritten ▸ hindex), byteAt_run]
  case byteAt => exact byteAt_run capacity writes
  case byteAt_behind =>
    intro index hindex
    exact Buffer.byteAt_of_written_le (hwritten ▸ hindex)

theorem reflects_inMemory (capacity : Nat) (writes : List Write) :
    (inMemory capacity writes).Reflects writes := by
  have hbuffer := reflects_run capacity writes
  have hsize := size_cells_inMemory capacity writes
  rw [inMemory_eq] at hsize ⊢
  constructor
  case written => exact hbuffer.written
  case written_le => exact hsize ▸ (run capacity writes).1.size_le_capacity
  case cells =>
    intro index hindex
    rw [← byteAt_run capacity]
    exact Buffer.getElem?_padTo (hsize ▸ hindex)
  case intoBytes => exact Array.shrink_eq_take

/-- Whatever is written, wherever and in whichever order, the buffer is the sparse map of what the
last writes brought, as a value and in memory. Writes that bring nothing do not touch it, writers
of text tell how much they brought, and the transcoder that they use does not matter. -/
theorem buffer_reflects_writes (capacity : Nat) (writes : List Write) :
    (run capacity writes).1.Reflects writes ∧
    (inMemory capacity writes).Reflects writes ∧
    (inMemory capacity writes).bytes = (run capacity writes).1.bytes ∧
    (inMemory capacity writes).cells.size = (run capacity writes).1.capacity ∧
    (∀ write : Write, write.data = [] →
      (run capacity (writes ++ [write])).1 = (run capacity writes).1) ∧
    ∀ transcoder : Transcoder,
      (∀ write : Write, (write.run ((run capacity writes).1, transcoder)).1 =
        (run capacity (writes ++ [write])).1) ∧
      (run capacity writes).1.CountsText transcoder := by
  refine ⟨reflects_run capacity writes, reflects_inMemory capacity writes, ?_,
    size_cells_inMemory capacity writes, ?_, ?_⟩
  · rw [inMemory_eq, Buffer.bytes_allocation]
  · intro write hdata
    rw [run_append_singleton, Write.fst_run_of_data_eq_nil hdata]
  · intro transcoder
    refine ⟨?_, Buffer.countsText _ transcoder⟩
    intro write
    rw [run_append_singleton, Write.fst_run, Write.fst_run]

/-- Writes that leave a gap, refuse a text, overlap one another and make the buffer grow. -/
def scattered : List Write :=
  [.bytes 4 [1, 2, 3], .utf16 0 [0x61, 0xD800], .string 3 "hé", .scalar 0 (.int16 (-2))]

theorem bytes_scattered :
    (run 2 scattered).1.bytes = #[0xFE, 0xFF, 0, 0x68, 0xC3, 0xA9, 3] ∧
      (run 2 scattered).1.Reflects scattered ∧
      (run 2 (scattered ++ [.utf16 9 [0xDC00]])).1 = (run 2 scattered).1 := by
  have hscattered := buffer_reflects_writes 2 scattered
  exact ⟨by decide +kernel, hscattered.1, hscattered.2.2.2.2.1 (.utf16 9 [0xDC00]) rfl⟩

end Writes

end PackedTuple
