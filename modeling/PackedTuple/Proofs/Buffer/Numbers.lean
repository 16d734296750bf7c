import Mathlib.Data.Nat.Digits.Defs
import PackedTuple.Proofs.Buffer.Contents
import PackedTuple.Proofs.Bytes.Slices

/-! # Numbers in buffers

A buffer takes numbers of several widths, with a sign or without, and little-endian
fields of any width are read from its bytes. Both sides mean the same digits: what is
written is read back at once, and as long as no write comes upon its bytes, a field is
read as before. Nothing can be read that is not there as a whole.
-/

namespace PackedTuple

namespace LittleEndian

/-- The integer that bytes spell in base 256, the first digit the lowest. With a sign it
is by two's complement, in which the upper half of the range stands for the negative ones. -/
def integer (signed : Bool) (bytes : List UInt8) : Int :=
  let number : Nat := Nat.ofDigits 256 (bytes.map (·.toNat))
  if signed then Int.bmod number (256 ^ bytes.length) else number

theorem decode_eq_ofDigits (bytes : List UInt8) :
    decode bytes = Nat.ofDigits 256 (bytes.map (·.toNat)) := by
  induction bytes with
  | nil => rfl
  | cons byte rest ih => rw [decode, ih, List.map_cons, Nat.ofDigits_cons]

/-- What is read is spelled by the bytes from the offset on. -/
theorem eq_ofDigits_of_read? {width offset number : Nat} {bytes : Array UInt8}
    (hread : read? width bytes offset = some number) :
    number = Nat.ofDigits 256 (((bytes.toList.drop offset).take width).map (·.toNat)) := by
  have hinside := isSome_read?.mp (Option.isSome_of_eq_some hread)
  rw [read?_eq_decode hinside, Option.some.injEq] at hread
  rw [← hread, decode_eq_ofDigits]

end LittleEndian

namespace Scalar

/-- Bytes that a number takes. -/
def width : Scalar → Nat
  | int8 _ | uint8 _ => 1
  | int16 _ | uint16 _ => 2
  | int32 _ | uint32 _ | float32 _ => 4
  | int64 _ | uint64 _ | float64 _ => 8

/-- Whether a number can be negative. -/
def isSigned : Scalar → Bool
  | int8 _ | int16 _ | int32 _ | int64 _ => true
  | uint8 _ | uint16 _ | uint32 _ | uint64 _ | float32 _ | float64 _ => false

/-- The bits of a number, taken for a number without a sign. -/
def bits : Scalar → Nat
  | int8 number => number.toUInt8.toNat
  | uint8 number => number.toNat
  | int16 number => number.toUInt16.toNat
  | uint16 number => number.toNat
  | int32 number => number.toUInt32.toNat
  | uint32 number => number.toNat
  | int64 number => number.toUInt64.toNat
  | uint64 number => number.toNat
  | float32 bits => bits.toNat
  | float64 bits => bits.toNat

/-- The integer that a number is. A floating-point number counts as its bits, so that no two
of them are taken for the same, whether they are numbers or not. -/
def value : Scalar → Int
  | int8 number => number.toInt
  | uint8 number => number.toNat
  | int16 number => number.toInt
  | uint16 number => number.toNat
  | int32 number => number.toInt
  | uint32 number => number.toNat
  | int64 number => number.toInt
  | uint64 number => number.toNat
  | float32 bits => bits.toNat
  | float64 bits => bits.toNat

theorem toBytes_eq (scalar : Scalar) :
    scalar.toBytes = LittleEndian.encode scalar.width scalar.bits := by
  cases scalar <;> rfl

theorem length_toBytes (scalar : Scalar) : scalar.toBytes.length = scalar.width := by
  rw [toBytes_eq, LittleEndian.length_encode]

theorem width_pos (scalar : Scalar) : 0 < scalar.width := by
  cases scalar <;> exact Nat.zero_lt_succ _

theorem bits_lt (scalar : Scalar) : scalar.bits < LittleEndian.limit scalar.width := by
  cases scalar with
  | int8 number => exact number.toUInt8.toNat_lt
  | uint8 number => exact number.toNat_lt
  | int16 number => exact number.toUInt16.toNat_lt
  | uint16 number => exact number.toNat_lt
  | int32 number => exact number.toUInt32.toNat_lt
  | uint32 number => exact number.toNat_lt
  | int64 number => exact number.toUInt64.toNat_lt
  | uint64 number => exact number.toNat_lt
  | float32 bits => exact bits.toNat_lt
  | float64 bits => exact bits.toNat_lt

/-- Signed numbers are their bits by two's complement. -/
theorem value_eq (scalar : Scalar) :
    scalar.value =
      if scalar.isSigned then Int.bmod scalar.bits (256 ^ scalar.width) else scalar.bits := by
  cases scalar with
  | int8 number => exact number.toBitVec.toInt_eq_toNat_bmod.trans (if_pos rfl).symm
  | int16 number => exact number.toBitVec.toInt_eq_toNat_bmod.trans (if_pos rfl).symm
  | int32 number => exact number.toBitVec.toInt_eq_toNat_bmod.trans (if_pos rfl).symm
  | int64 number => exact number.toBitVec.toInt_eq_toNat_bmod.trans (if_pos rfl).symm
  | _ => rfl

theorem decode_toBytes (scalar : Scalar) : LittleEndian.decode scalar.toBytes = scalar.bits := by
  rw [toBytes_eq, LittleEndian.decode_encode scalar.bits_lt]

/-- The bytes of a number spell its value. -/
theorem integer_toBytes (scalar : Scalar) :
    LittleEndian.integer scalar.isSigned scalar.toBytes = scalar.value := by
  rw [LittleEndian.integer, ← LittleEndian.decode_eq_ofDigits, decode_toBytes, length_toBytes,
    value_eq]

end Scalar

namespace Buffer

/-- A number stands at an offset: it is written as a whole, a field of its width reads as its
bits, and the bytes spell its value. -/
structure Spells (buffer : Buffer) (offset : Nat) (scalar : Scalar) : Prop where
  written : offset + scalar.width ≤ buffer.written
  read? : LittleEndian.read? scalar.width buffer.bytes offset = some scalar.bits
  integer : LittleEndian.integer scalar.isSigned
    (buffer.bytes.extract offset (offset + scalar.width)).toList = scalar.value

variable {position width : Nat}

/-- A stretch of the written part, byte by byte. -/
theorem toList_extract {buffer : Buffer} (hinside : position + width ≤ buffer.written) :
    (buffer.bytes.extract position (position + width)).toList =
      (List.range' position width).map buffer.byteAt := by
  have hlength := LittleEndian.length_extract hinside
  apply List.ext_getElem
  · rw [hlength, List.length_map, List.length_range']
  · intro index hindex _
    rw [hlength] at hindex
    have hbyte := getElem?_eq_byteAt (Nat.lt_of_lt_of_le (Nat.add_lt_add_left hindex _) hinside)
    rw [Array.getElem_toList, Array.getElem_extract, List.getElem_map, List.getElem_range',
      Nat.one_mul]
    exact Option.some.inj ((Array.getElem?_eq_getElem _).symm.trans hbyte)

/-- Reading looks at the bytes of the field only. -/
theorem read?_congr {left right : Buffer} (hleft : position + width ≤ left.written)
    (hright : position + width ≤ right.written)
    (hbytes : ∀ index, position ≤ index → index < position + width →
      left.byteAt index = right.byteAt index) :
    LittleEndian.read? width left.bytes position =
      LittleEndian.read? width right.bytes position := by
  have hfield : (List.range' position width).map left.byteAt =
      (List.range' position width).map right.byteAt := by
    apply List.map_congr_left
    intro index hindex
    obtain ⟨hstart, hend⟩ := List.mem_range'_1.mp hindex
    exact hbytes index hstart hend
  rw [written] at hleft hright
  rw [LittleEndian.read?, if_pos hleft, toList_extract hleft, hfield, ← toList_extract hright,
    LittleEndian.read?, if_pos hright]

theorem le_written_put (buffer : Buffer) (offset : Nat) {data : List UInt8} (hdata : data ≠ []) :
    offset + data.length ≤ (buffer.put offset data).written := by
  rw [written_put, if_neg hdata]
  exact Nat.le_max_right ..

/-- What is written can be taken out again. -/
theorem toList_extract_put (buffer : Buffer) (offset : Nat) {data : List UInt8}
    (hdata : data ≠ []) :
    ((buffer.put offset data).bytes.extract offset (offset + data.length)).toList = data := by
  rw [toList_extract (buffer.le_written_put offset hdata)]
  apply List.ext_getElem
  · rw [List.length_map, List.length_range']
  · intro index _ hindex
    rw [List.getElem_map, List.getElem_range', Nat.one_mul, byteAt_put, if_pos (by omega),
      Nat.add_sub_cancel_left, List.getElem?_eq_getElem hindex, Option.getD_some]

theorem spells_putScalar (buffer : Buffer) (offset : Nat) (scalar : Scalar) :
    (buffer.putScalar offset scalar).Spells offset scalar := by
  have hdata : scalar.toBytes ≠ [] :=
    List.ne_nil_of_length_pos (scalar.length_toBytes ▸ scalar.width_pos)
  have hwritten := buffer.le_written_put offset hdata
  have hbytes := buffer.toList_extract_put offset hdata
  rw [scalar.length_toBytes] at hwritten hbytes
  constructor
  case written => exact hwritten
  case read? =>
    have hnumber := congrArg LittleEndian.decode hbytes
    rw [scalar.decode_toBytes] at hnumber
    exact (if_pos hwritten).trans (congrArg some hnumber)
  case integer => rw [putScalar, hbytes, scalar.integer_toBytes]

end Buffer

/-- A write brings none of the bytes of a stretch. -/
def Write.Avoids (write : Write) (position width : Nat) : Prop :=
  ∀ index, position ≤ index → index < position + width →
    index < write.offset ∨ write.offset + write.data.length ≤ index

namespace Writes

variable {position width : Nat}

theorem written_le_run (state : Buffer × Transcoder) (write : Write) :
    state.1.written ≤ (write.run state).1.written := by
  rw [Write.fst_run, Buffer.written_put]
  split
  · exact Nat.le_refl _
  · exact Nat.le_max_left ..

/-- A write elsewhere leaves a field as it is. -/
theorem read?_run {state : Buffer × Transcoder} {write : Write}
    (hinside : position + width ≤ state.1.written) (havoids : write.Avoids position width) :
    LittleEndian.read? width (write.run state).1.bytes position =
      LittleEndian.read? width state.1.bytes position := by
  apply Buffer.read?_congr (Nat.le_trans hinside (written_le_run state write)) hinside
  intro index hstart hend
  have helsewhere := havoids index hstart hend
  rw [Write.fst_run, Buffer.byteAt_put, if_neg (by omega)]

/-- A field stays as it is as long as all writes are elsewhere. -/
theorem read?_foldl {state : Buffer × Transcoder} {writes : List Write}
    (hinside : position + width ≤ state.1.written)
    (havoid : ∀ write ∈ writes, write.Avoids position width) :
    LittleEndian.read? width (writes.foldl Write.run state).1.bytes position =
      LittleEndian.read? width state.1.bytes position := by
  induction writes generalizing state with
  | nil => rfl
  | cons write rest ih =>
      obtain ⟨hfirst, hrest⟩ := List.forall_mem_cons.mp havoid
      rw [List.foldl_cons, ih (Nat.le_trans hinside (written_le_run state write)) hrest,
        read?_run hinside hfirst]

/-- Whatever was written before, a number is read back from where it is put, with its value and
its sign. A field that is written stays as it is, whichever writes follow, until one of them comes
upon its bytes. Reading succeeds exactly inside the bytes, and gives the number that they spell. -/
theorem reads_invert_writes (capacity : Nat) (writes : List Write) :
    (∀ (offset : Nat) (scalar : Scalar),
      (run capacity (writes ++ [.scalar offset scalar])).1.Spells offset scalar) ∧
    (∀ (more : List Write) (position width : Nat),
      position + width ≤ (run capacity writes).1.written →
      (∀ write ∈ more, write.Avoids position width) →
        LittleEndian.read? width (run capacity (writes ++ more)).1.bytes position =
          LittleEndian.read? width (run capacity writes).1.bytes position) ∧
    ∀ (bytes : Array UInt8) (offset width : Nat),
      ((LittleEndian.read? width bytes offset).isSome = true ↔ offset + width ≤ bytes.size) ∧
      ∀ number, LittleEndian.read? width bytes offset = some number →
        number = Nat.ofDigits 256 (((bytes.toList.drop offset).take width).map (·.toNat)) := by
  refine ⟨?_, ?_, ?_⟩
  · intro offset scalar
    rw [run_append_singleton]
    exact Buffer.spells_putScalar _ offset scalar
  · intro more position width hinside havoid
    rw [run, List.foldl_append]
    exact read?_foldl hinside havoid
  · intro bytes offset width
    exact ⟨LittleEndian.isSome_read?, fun _ => LittleEndian.eq_ofDigits_of_read?⟩

/-- A not-a-number with a payload, put across the end of what is written. It keeps its bits, and a
field in front of it is read as before. -/
theorem scattered_keeps_number :
    (run 2 (scattered ++ [.scalar 5 (.float32 0xFFC00001)])).1.Spells 5 (.float32 0xFFC00001) ∧
    LittleEndian.read? 4 (run 2 (scattered ++ [.scalar 5 (.float32 0xFFC00001)])).1.bytes 1 =
      LittleEndian.read? 4 (run 2 scattered).1.bytes 1 ∧
    LittleEndian.read? 4 (run 2 scattered).1.bytes 1 = some 0xC36800FF := by
  have hreads := reads_invert_writes 2 scattered
  refine ⟨hreads.1 5 (.float32 0xFFC00001), ?_, by decide +kernel⟩
  refine hreads.2.1 [.scalar 5 (.float32 0xFFC00001)] 1 4 (by decide +kernel) ?_
  intro write hwrite index _ hend
  obtain rfl := List.mem_singleton.mp hwrite
  exact .inl hend

end Writes

end PackedTuple
