import PackedTuple.Buffer.Basic

/-! # Where writes land

A buffer is compared with the list of its bytes. A write behind the written
part extends the list, with zero bytes over a gap; a write inside it replaces a
piece by another one of the same length.
-/

namespace PackedTuple.Buffer

theorem written_eq_length (buffer : Buffer) : buffer.written = buffer.bytes.toList.length :=
  Array.length_toList.symm

/-- Overwriting replaces a piece by another one of the same length. -/
theorem toList_overwrite {bytes : Array UInt8} {left old right : List UInt8} {offset : Nat}
    (hbytes : bytes.toList = left ++ old ++ right) (hoffset : left.length = offset)
    (data : List UInt8) (hlength : old.length = data.length) :
    (overwrite bytes offset data).toList = left ++ data ++ right := by
  induction data generalizing bytes left old offset with
  | nil =>
      obtain rfl := List.length_eq_zero_iff.mp hlength
      simpa [overwrite] using hbytes
  | cons byte rest ih =>
      obtain ⟨first, others, rfl⟩ := List.exists_cons_of_length_eq_add_one hlength
      have hset : (bytes.setIfInBounds offset byte).toList =
          (left ++ [byte]) ++ others ++ right := by
        subst hoffset
        rw [Array.toList_setIfInBounds, hbytes, List.append_assoc, List.set_append_right _ _
          (Nat.le_refl _), Nat.sub_self, List.cons_append, List.set_cons_zero]
        simp
      rw [overwrite, ih hset (by simp [hoffset]) (by simpa using hlength)]
      simp

/-- A write inside the written part replaces what it covers. -/
theorem toList_put_inside {buffer : Buffer} {left old right : List UInt8} {offset : Nat}
    (hbytes : buffer.bytes.toList = left ++ old ++ right) (hoffset : left.length = offset)
    (data : List UInt8) (hlength : old.length = data.length) :
    (buffer.put offset data).bytes.toList = left ++ data ++ right := by
  have hsize : offset + data.length ≤ buffer.bytes.size := by
    rw [← Array.length_toList, hbytes, List.length_append, List.length_append]
    omega
  unfold put
  split
  next hempty =>
    rw [List.isEmpty_iff.mp hempty] at hlength ⊢
    rw [hbytes, List.length_eq_zero_iff.mp hlength]
  next =>
    apply toList_overwrite _ hoffset data hlength
    rw [padTo, Nat.sub_eq_zero_of_le hsize, Array.replicate_zero, Array.append_empty]
    exact hbytes

/-- A write behind the written part leaves zero bytes in the gap. -/
theorem toList_put_behind {buffer : Buffer} {offset : Nat} (hoffset : buffer.written ≤ offset)
    {data : List UInt8} (hdata : data ≠ []) :
    (buffer.put offset data).bytes.toList =
      buffer.bytes.toList ++ List.replicate (offset - buffer.written) 0 ++ data := by
  have hempty : ¬data.isEmpty = true := fun hempty => hdata (List.isEmpty_iff.mp hempty)
  rw [put, if_neg hempty]
  have hgap : offset + data.length - buffer.bytes.size =
      offset - buffer.bytes.size + data.length := by
    simp only [written] at hoffset
    omega
  have hpad : (padTo (offset + data.length) buffer.bytes).toList =
      (buffer.bytes.toList ++ List.replicate (offset - buffer.written) 0) ++
        List.replicate data.length 0 ++ [] := by
    rw [padTo, Array.toList_append, Array.toList_replicate, hgap, List.append_nil,
      List.append_assoc, List.replicate_append_replicate, written]
  refine (toList_overwrite hpad ?_ data (by simp)).trans (List.append_nil _)
  rw [List.length_append, ← written_eq_length, List.length_replicate]
  omega

/-- A write at the end of the written part extends it. -/
theorem toList_put_end {buffer : Buffer} {offset : Nat} (hoffset : buffer.written = offset)
    (data : List UInt8) :
    (buffer.put offset data).bytes.toList = buffer.bytes.toList ++ data := by
  by_cases hdata : data = []
  · subst hdata
    simp [put]
  · rw [toList_put_behind (Nat.le_of_eq hoffset) hdata, hoffset, Nat.sub_self,
      List.replicate_zero, List.append_nil]

/-- Pieces written from the end on extend the written part by all of them. -/
theorem toList_putPieces_end {buffer : Buffer} {offset : Nat} (hoffset : buffer.written = offset)
    (pieces : List (List UInt8)) :
    (buffer.putPieces offset pieces).bytes.toList = buffer.bytes.toList ++ pieces.flatten := by
  induction pieces generalizing buffer offset with
  | nil => simp [putPieces]
  | cons piece rest ih =>
      have hput := toList_put_end hoffset piece
      have hwritten : (buffer.put offset piece).written = offset + piece.length := by
        rw [written_eq_length, hput, List.length_append, ← written_eq_length, hoffset]
      rw [putPieces, ih hwritten, hput, List.flatten_cons, List.append_assoc]

/-- Zeros written behind the written part extend it up to their end. -/
theorem toList_putZeros_behind {buffer : Buffer} {offset count : Nat}
    (hoffset : buffer.written ≤ offset) (hcount : 0 < count) :
    (buffer.putZeros offset count).bytes.toList =
      buffer.bytes.toList ++ List.replicate (offset + count - buffer.written) 0 := by
  obtain ⟨rest, rfl⟩ : ∃ rest, count = rest + 1 := ⟨count - 1, by omega⟩
  have hput := toList_put_behind hoffset (List.cons_ne_nil (0 : UInt8) [])
  have hwritten : (buffer.put offset [0]).written = offset + 1 := by
    rw [written_eq_length, hput, List.length_append, List.length_append, ← written_eq_length,
      List.length_replicate, List.length_singleton]
    omega
  rw [putZeros, List.replicate_succ, putPieces, List.length_singleton,
    toList_putPieces_end hwritten, hput, List.flatten_replicate_singleton, List.append_assoc,
    List.append_assoc]
  congr 1
  rw [show offset + (rest + 1) - buffer.written = (offset - buffer.written) + (1 + rest) by omega,
    ← List.replicate_append_replicate, ← List.replicate_append_replicate]
  rfl

/-- Writing one byte inside the written part sets it. -/
theorem toList_put_byte {buffer : Buffer} {byte : UInt8} {offset : Nat}
    (hoffset : offset < buffer.written) :
    (buffer.put offset [byte]).bytes.toList = buffer.bytes.toList.set offset byte := by
  rw [written_eq_length] at hoffset
  have hsplit : buffer.bytes.toList = buffer.bytes.toList.take offset ++
      [buffer.bytes.toList[offset]] ++ buffer.bytes.toList.drop (offset + 1) := by
    rw [List.append_assoc, List.singleton_append, ← List.drop_eq_getElem_cons hoffset,
      List.take_append_drop]
  have hleft : (buffer.bytes.toList.take offset).length = offset :=
    List.length_take_of_le (Nat.le_of_lt hoffset)
  rw [toList_put_inside hsplit hleft [byte] rfl, List.set_eq_take_append_cons_drop,
    if_pos hoffset, List.append_assoc, List.singleton_append]

end PackedTuple.Buffer
