import PackedTuple.Bytes.LittleEndian

/-! # Slices and the fields in them

A piece of a list of bytes, given by what stands in front of it and behind it,
is found again by its position. The same holds of little-endian fields: a field
that was laid down is read back, and a field that can be read was laid down.
-/

namespace PackedTuple

/-- The piece between `left` and `right`. -/
theorem extract_of_toList_eq {bytes : Array UInt8} {left piece right : List UInt8}
    {start stop : Nat} (hbytes : bytes.toList = left ++ piece ++ right)
    (hstart : left.length = start) (hstop : start + piece.length = stop) :
    (bytes.extract start stop).toList = piece := by
  subst hstart hstop
  rw [Array.toList_extract, hbytes, List.extract_eq_take_drop, Nat.add_sub_cancel_left,
    List.append_assoc, List.drop_left, List.take_left]

/-- The byte at a place inside the piece between `left` and `right`. -/
theorem getElem?_of_toList_eq {bytes : Array UInt8} {left piece right : List UInt8}
    {start place : Nat} (hbytes : bytes.toList = left ++ piece ++ right)
    (hstart : left.length = start) (hplace : place < piece.length) :
    bytes[start + place]? = piece[place]? := by
  subst hstart
  rw [← Array.getElem?_toList, hbytes, List.append_assoc,
    List.getElem?_append_right (Nat.le_add_right _ _), Nat.add_sub_cancel_left,
    List.getElem?_append_left hplace]

/-- Neighbouring slices join. -/
theorem toList_extract_append {bytes : Array UInt8} {start middle stop : Nat}
    (hleft : start ≤ middle) (hright : middle ≤ stop) :
    (bytes.extract start middle).toList ++ (bytes.extract middle stop).toList =
      (bytes.extract start stop).toList := by
  rw [← Array.toList_append, Array.extract_append_extract, Nat.min_eq_left hleft,
    Nat.max_eq_right hright]

namespace LittleEndian

/-- A field in front of another one holds the low-order bytes. -/
theorem encode_add (low high number : Nat) :
    encode (low + high) number = encode low number ++ encode high (number / limit low) := by
  induction low generalizing number with
  | zero => simp [encode, limit]
  | succ low ih =>
      rw [Nat.succ_add, encode, encode, ih, List.cons_append, Nat.div_div_eq_div_mul, limit]

@[simp] theorem length_flatMap_encode (width : Nat) (numbers : List Nat) :
    (numbers.flatMap (encode width)).length = numbers.length * width := by
  induction numbers with
  | nil => simp
  | cons number rest ih =>
      rw [List.flatMap_cons, List.length_append, length_encode, ih, List.length_cons, Nat.succ_mul,
        Nat.add_comm]

/-- A field that was laid down is read back. -/
theorem read?_of_toList_eq {bytes : Array UInt8} {left right : List UInt8}
    {width number offset : Nat} (hbytes : bytes.toList = left ++ encode width number ++ right)
    (hoffset : left.length = offset) (hfits : number < limit width) :
    read? width bytes offset = some number := by
  have hsize : bytes.size = left.length + width + right.length := by
    rw [← Array.length_toList, hbytes, List.length_append, List.length_append, length_encode]
  have hpiece := extract_of_toList_eq hbytes hoffset (congrArg (offset + ·) (length_encode ..))
  rw [read?, if_pos (by omega), hpiece, decode_encode hfits]

/-- A field of a table that was laid down is read back. -/
theorem read?_of_table {bytes : Array UInt8} {left right : List UInt8} {numbers : List Nat}
    {width number offset index : Nat}
    (hbytes : bytes.toList = left ++ numbers.flatMap (encode width) ++ right)
    (hnumber : numbers[index]? = some number) (hoffset : left.length + index * width = offset)
    (hfits : number < limit width) : read? width bytes offset = some number := by
  obtain ⟨hindex, hget⟩ := List.getElem?_eq_some_iff.mp hnumber
  have htable : numbers.flatMap (encode width) =
      (numbers.take index).flatMap (encode width) ++ encode width number ++
        (numbers.drop (index + 1)).flatMap (encode width) := by
    calc numbers.flatMap (encode width)
        = (numbers.take index ++ numbers.drop index).flatMap (encode width) := by
          rw [List.take_append_drop]
      _ = _ := by
          rw [List.drop_eq_getElem_cons hindex, hget, List.flatMap_append, List.flatMap_cons,
            List.append_assoc]
  have hfield : bytes.toList = (left ++ (numbers.take index).flatMap (encode width)) ++
      encode width number ++ ((numbers.drop (index + 1)).flatMap (encode width) ++ right) := by
    rw [hbytes, htable]
    simp only [List.append_assoc]
  refine read?_of_toList_eq hfield ?_ hfits
  rw [List.length_append, length_flatMap_encode, List.length_take, Nat.min_eq_left (by omega)]
  exact hoffset

/-- Reading a field is decoding the bytes from its position on. -/
theorem read?_eq_decode {width offset : Nat} {bytes : Array UInt8}
    (hinside : offset + width ≤ bytes.size) :
    read? width bytes offset = some (decode ((bytes.toList.drop offset).take width)) := by
  rw [read?, if_pos hinside, Array.toList_extract, List.extract_eq_take_drop,
    Nat.add_sub_cancel_left]

/-- A field can be read exactly if it lies inside the bytes. -/
theorem isSome_read? {width offset : Nat} {bytes : Array UInt8} :
    (read? width bytes offset).isSome = true ↔ offset + width ≤ bytes.size := by
  unfold read?
  split
  next hin => simp [hin]
  next hout => simp [hout]

theorem length_extract {width offset : Nat} {bytes : Array UInt8}
    (hin : offset + width ≤ bytes.size) :
    (bytes.extract offset (offset + width)).toList.length = width := by
  rw [Array.length_toList, Array.size_extract]
  omega

/-- A field that can be read was laid down. -/
theorem encode_of_read? {width offset number : Nat} {bytes : Array UInt8}
    (hread : read? width bytes offset = some number) :
    (bytes.extract offset (offset + width)).toList = encode width number := by
  have hin := isSome_read?.mp (Option.isSome_of_eq_some hread)
  rw [read?, if_pos hin, Option.some.injEq] at hread
  have hcode := encode_decode (bytes.extract offset (offset + width)).toList
  rw [length_extract hin, hread] at hcode
  exact hcode.symm

theorem lt_of_read? {width offset number : Nat} {bytes : Array UInt8}
    (hread : read? width bytes offset = some number) : number < limit width := by
  have hin := isSome_read?.mp (Option.isSome_of_eq_some hread)
  rw [read?, if_pos hin, Option.some.injEq] at hread
  have hlt := decode_lt (bytes.extract offset (offset + width)).toList
  rw [length_extract hin, hread] at hlt
  exact hlt

end LittleEndian

end PackedTuple
