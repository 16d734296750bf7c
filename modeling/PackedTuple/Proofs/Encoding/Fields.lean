import PackedTuple.Encoding.Stored
import PackedTuple.Proofs.Bytes.BitSet
import PackedTuple.Proofs.Bytes.Slices
import PackedTuple.Proofs.Text.Prediction

/-! # Data as fields

The field that a datum becomes in a column that takes it. Its bytes are those
that stand for the datum, its shape is settled by the type of the column, and
reading its bytes gives the datum back in normal form. Conversely, bytes that
can be read are the bytes of the datum read.
-/

namespace PackedTuple

/-- The bits that a type declares, zero if it is not the type of bit sets. -/
def ColumnType.bits : ColumnType → Nat
  | bitmask bits => bits
  | _ => 0

/-- The field that a datum becomes in a column of a type that takes it. -/
def Datum.field (type : ColumnType) : Datum → Field
  | null => .null
  | byte number => .ofScalar (.int8 number)
  | short number => .ofScalar (.int16 number)
  | integer number => .ofScalar (.int32 number)
  | long number => .ofScalar (.int64 number)
  | float bits => .ofScalar (.float32 bits)
  | double bits => .ofScalar (.float64 bits)
  | uuid number => .ofUuid number
  | string text => .varlen (utf8Bytes text)
  | utf16 units => .varlen (((Utf16.toString? units).map utf8Bytes).getD [])
  | bytes content => .varlen content
  | bitmask mask => .ofBitmask type.bits mask

/-- A field has the shape that a type asks for: the width of a fixed-length one,
a table entry of its own otherwise. -/
def Field.Fits (type : ColumnType) : Field → Prop
  | null => True
  | fixed pieces => type.width? = some pieces.flatten.length
  | varlen _ => type.width? = none

namespace Field

@[simp] theorem bytes_ofScalar (scalar : Scalar) : (ofScalar scalar).bytes = scalar.toBytes := by
  simp [ofScalar, bytes]

/-- Low half and high half together are the whole number. -/
@[simp] theorem bytes_ofUuid (number : BitVec 128) :
    (ofUuid number).bytes = LittleEndian.encode 16 number.toNat := by
  have hhigh : number.toNat / LittleEndian.limit 8 = number.toNat >>> 64 :=
    (Nat.shiftRight_eq_div_pow number.toNat 64).symm
  rw [LittleEndian.encode_add 8 8, hhigh]
  simp [ofUuid, bytes]

/-- A bit set that a column has room for takes the width of the column. -/
theorem bytes_ofBitmask {bits : Nat} {mask : List UInt8} (hle : BitSet.bitLength mask ≤ bits) :
    (ofBitmask bits mask).bytes = BitSet.resize mask (BitSet.byteCount bits) := by
  rw [← BitSet.take_append_zeros hle, ofBitmask, bytes, List.flatten_cons,
    List.flatten_replicate_singleton]

end Field

namespace ColumnType

theorem width?_eq_none_iff {type : ColumnType} :
    type.width? = none ↔ type.isFixedLength = false := by
  rw [← isSome_width?, Option.isSome_eq_false_iff, Option.isNone_iff_eq_none]

/-- A kind without parameters is a type. -/
theorem eq_of_kind_eq {type other : ColumnType} (hkind : type.kind = other.kind)
    (hother : other.kind ≠ .bitmask) : type = other := by
  cases type <;> cases other <;> first | rfl | simp_all [kind]

theorem eq_bitmask_of_kind {type : ColumnType} (hkind : type.kind = .bitmask) :
    ∃ bits, type = .bitmask bits := by
  cases type with
  | bitmask bits => exact ⟨bits, rfl⟩
  | _ => contradiction

end ColumnType

/-- A field that is not null has a table entry exactly if its type is not of fixed length. -/
theorem Field.Fits.isVarlen_eq {type : ColumnType} {field : Field} (hfits : field.Fits type)
    (hnull : field ≠ .null) : field.isVarlen = !type.isFixedLength := by
  rw [← ColumnType.isSome_width?]
  cases field with
  | null => contradiction
  | fixed pieces =>
      have hwidth : type.width? = some pieces.flatten.length := hfits
      rw [hwidth]
      rfl
  | varlen payload =>
      have hwidth : type.width? = none := hfits
      rw [hwidth]
      rfl

/-- A column takes data of its own kind, and null. -/
theorem Column.Takes.kind_eq {column : Column} {datum : Datum} (htakes : column.Takes datum)
    (hnull : datum ≠ .null) : datum.kind? = some column.type.kind := by
  cases datum with
  | null => contradiction
  | bitmask mask =>
      obtain ⟨bits, htype, _⟩ := htakes
      rw [htype]
      rfl
  | utf16 units =>
      rw [htakes.1]
      rfl
  | _ => exact htakes

/-- A column that takes a datum with a kind is of the type of that kind. -/
theorem Column.Takes.type_eq {column : Column} {datum : Datum} (htakes : column.Takes datum)
    (type : ColumnType) (hkind : datum.kind? = some type.kind) (hplain : type.kind ≠ .bitmask) :
    column.type = type := by
  have hnull : datum ≠ .null := by
    rintro rfl
    contradiction
  exact ColumnType.eq_of_kind_eq (Option.some.inj ((htakes.kind_eq hnull).symm.trans hkind)) hplain

theorem Column.takes_bitmask_iff {column : Column} {bits : Nat} {mask : List UInt8}
    (htype : column.type = .bitmask bits) :
    column.Takes (.bitmask mask) ↔
      ∀ index, BitSet.contains mask index = true → index < bits := by
  constructor
  · rintro ⟨declared, hdeclared, hbound⟩
    obtain rfl := ColumnType.bitmask.inj (hdeclared.symm.trans htype)
    exact hbound
  · intro hbound
    exact ⟨bits, htype, hbound⟩

theorem Column.Takes.exists_text {column : Column} {units : List UInt16}
    (htakes : column.Takes (.utf16 units)) : ∃ text, Utf16.toString? units = some text :=
  Option.isSome_iff_exists.mp ((Utf16.isSome_toString? units).mpr htakes.2)

namespace Datum

/-- Units that a column takes are stored in as many bytes as is predicted for them. -/
theorem length_stored_utf16 {column : Column} {units : List UInt16}
    (htakes : column.Takes (.utf16 units)) :
    ((utf16 units).stored column.type).length = Utf16.predictedLength units := by
  obtain ⟨text, htext⟩ := htakes.exists_text
  rw [Utf16.predictedLength_of_toString? htext, stored, htext]
  rfl

theorem field_eq_null_iff {type : ColumnType} {datum : Datum} :
    datum.field type = .null ↔ datum = .null := by
  cases datum <;> simp [field, Field.ofScalar, Field.ofUuid, Field.ofBitmask]

/-- A field stores the bytes that stand for its datum. -/
theorem bytes_field {column : Column} {datum : Datum} (htakes : column.Takes datum) :
    (datum.field column.type).bytes = datum.stored column.type := by
  cases datum with
  | bitmask mask =>
      obtain ⟨bits, htype, hbound⟩ := htakes
      rw [field, stored, htype]
      exact Field.bytes_ofBitmask (BitSet.bitLength_le_iff.mpr hbound)
  | _ => simp [field, stored, Scalar.toBytes]

theorem size_field {column : Column} {datum : Datum} (htakes : column.Takes datum) :
    (datum.field column.type).size = (datum.stored column.type).length :=
  congrArg List.length (bytes_field htakes)

/-- Storing a bit set keeps the set. -/
theorem contains_stored {column : Column} {mask : List UInt8}
    (htakes : column.Takes (.bitmask mask)) (bit : Nat) :
    BitSet.contains ((bitmask mask).stored column.type) bit = BitSet.contains mask bit := by
  obtain ⟨bits, htype, hbound⟩ := htakes
  have hroom := BitSet.le_byteCount bits
  rw [stored, htype, BitSet.contains_resize]
  change (decide (bit < 8 * BitSet.byteCount bits) && _) = _
  cases hmem : BitSet.contains mask bit with
  | false => exact Bool.and_false _
  | true =>
      have hbit := hbound bit hmem
      rw [decide_eq_true (by omega), Bool.true_and]

/-- A column gets a field of the shape of its type. -/
theorem fits_field {column : Column} {datum : Datum} (htakes : column.Takes datum) :
    (datum.field column.type).Fits column.type := by
  have hbytes := bytes_field htakes
  cases datum with
  | null => trivial
  | bitmask mask =>
      obtain ⟨bits, htype, hbound⟩ := htakes
      change (Field.ofBitmask _ _).bytes = _ at hbytes
      change column.type.width? = some (Field.ofBitmask _ _).bytes.length
      rw [hbytes, htype]
      simp [stored, ColumnType.width?]
  | string text | utf16 units =>
      rw [htakes.type_eq .string rfl (by decide)]
      rfl
  | bytes content =>
      rw [htakes.type_eq .bytes rfl (by decide)]
      rfl
  | uuid number =>
      change column.type.width? = some (Field.ofUuid number).bytes.length
      rw [htakes.type_eq .uuid rfl (by decide), Field.bytes_ofUuid, LittleEndian.length_encode]
      rfl
  | byte number => rw [htakes.type_eq .byte rfl (by decide)]; rfl
  | short number => rw [htakes.type_eq .short rfl (by decide)]; rfl
  | integer number => rw [htakes.type_eq .integer rfl (by decide)]; rfl
  | long number => rw [htakes.type_eq .long rfl (by decide)]; rfl
  | float bits => rw [htakes.type_eq .float rfl (by decide)]; rfl
  | double bits => rw [htakes.type_eq .double rfl (by decide)]; rfl

/-- A datum that is not null has a table entry exactly if its column is not of fixed length. -/
theorem isVarlen_field {column : Column} {datum : Datum} (htakes : column.Takes datum) :
    (datum.field column.type).isVarlen = (datum != .null && !column.isFixedLength) := by
  by_cases hnull : datum = .null
  · subst hnull
    rfl
  · have hfield : datum.field column.type ≠ .null := mt field_eq_null_iff.mp hnull
    rw [(fits_field htakes).isVarlen_eq hfield, bne_iff_ne.mpr hnull]
    rfl

end Datum

/-! ## Reading bytes back -/

section Reading

open LittleEndian

/-- Whether the bytes are as many as a fixed-length type takes; true of the other types. -/
def ColumnType.Spans (type : ColumnType) (bytes : List UInt8) : Prop :=
  ∀ width, type.width? = some width → bytes.length = width

namespace Datum

/-- The bytes that stand for a datum are read as the datum in normal form. -/
theorem read?_stored {column : Column} {datum : Datum} (htakes : column.Takes datum)
    (hnull : datum ≠ .null) :
    column.type.read? (datum.stored column.type) = some (datum.normal column.type) := by
  cases datum with
  | null => exact absurd rfl hnull
  | byte number =>
      have hnumber := @decode_encode 1 _ number.toUInt8.toNat_lt
      rw [htakes.type_eq .byte rfl (by decide)]
      simp only [ColumnType.read?, stored, normal, ColumnType.width?, length_encode, if_true,
        hnumber, UInt8.ofNat_toNat, Int8.toInt8_toUInt8]
  | short number =>
      have hnumber := @decode_encode 2 _ number.toUInt16.toNat_lt
      rw [htakes.type_eq .short rfl (by decide)]
      simp only [ColumnType.read?, stored, normal, ColumnType.width?, length_encode, if_true,
        hnumber, UInt16.ofNat_toNat, Int16.toInt16_toUInt16]
  | integer number =>
      have hnumber := @decode_encode 4 _ number.toUInt32.toNat_lt
      rw [htakes.type_eq .integer rfl (by decide)]
      simp only [ColumnType.read?, stored, normal, ColumnType.width?, length_encode, if_true,
        hnumber, UInt32.ofNat_toNat, Int32.toInt32_toUInt32]
  | long number =>
      have hnumber := @decode_encode 8 _ number.toUInt64.toNat_lt
      rw [htakes.type_eq .long rfl (by decide)]
      simp only [ColumnType.read?, stored, normal, ColumnType.width?, length_encode, if_true,
        hnumber, UInt64.ofNat_toNat, Int64.toInt64_toUInt64]
  | float bits =>
      have hnumber := @decode_encode 4 _ bits.toNat_lt
      rw [htakes.type_eq .float rfl (by decide)]
      simp only [ColumnType.read?, stored, normal, ColumnType.width?, length_encode, if_true,
        hnumber, UInt32.ofNat_toNat]
  | double bits =>
      have hnumber := @decode_encode 8 _ bits.toNat_lt
      rw [htakes.type_eq .double rfl (by decide)]
      simp only [ColumnType.read?, stored, normal, ColumnType.width?, length_encode, if_true,
        hnumber, UInt64.ofNat_toNat]
  | uuid number =>
      have hnumber := @decode_encode 16 _ number.isLt
      rw [htakes.type_eq .uuid rfl (by decide)]
      simp only [ColumnType.read?, stored, normal, ColumnType.width?, length_encode, if_true,
        hnumber, BitVec.ofNat_toNat, BitVec.setWidth_eq]
  | string text =>
      rw [htakes.type_eq .string rfl (by decide)]
      simp [ColumnType.read?, stored, normal, fromUTF8?_utf8Bytes]
  | utf16 units =>
      obtain ⟨text, htext⟩ := htakes.exists_text
      rw [htakes.1]
      simp [ColumnType.read?, stored, normal, htext, fromUTF8?_utf8Bytes]
  | bytes content =>
      rw [htakes.type_eq .bytes rfl (by decide)]
      rfl
  | bitmask mask =>
      obtain ⟨bits, htype, _⟩ := htakes
      rw [htype]
      simp [ColumnType.read?, stored, normal, ColumnType.width?]

end Datum

theorem LittleEndian.encode_decode_of_length {width : Nat} {bytes : List UInt8}
    (hlength : width = bytes.length) : encode width (decode bytes) = bytes := by
  rw [hlength, encode_decode]

theorem LittleEndian.decode_lt_of_length {width : Nat} {bytes : List UInt8}
    (hlength : width = bytes.length) : decode bytes < limit width := by
  rw [hlength]
  exact decode_lt bytes

namespace ColumnType

/-- Bytes that can be read are those that stand for the datum read, which a column
takes if it declares the bits set in them. -/
theorem takes_of_read? {column : Column} {bytes : List UInt8} {datum : Datum}
    (hread : column.type.read? bytes = some datum)
    (hbits : ∀ bits, column.type = .bitmask bits →
      ∀ index, BitSet.contains bytes index = true → index < bits) :
    column.Takes datum ∧ datum ≠ .null ∧ datum.stored column.type = bytes := by
  cases htype : column.type with
  | string =>
      rw [htype] at hread
      obtain ⟨text, htext, rfl⟩ := Option.map_eq_some_iff.mp hread
      exact ⟨by simp [Column.Takes, htype, Datum.kind?, kind], by simp,
        utf8Bytes_of_fromUTF8? htext⟩
  | bytes =>
      rw [htype] at hread
      obtain rfl := Option.some.inj hread
      exact ⟨by simp [Column.Takes, htype, Datum.kind?, kind], by simp, rfl⟩
  | bitmask bits =>
      rw [htype] at hread
      simp only [read?] at hread
      split at hread
      next hwidth =>
        obtain rfl := Option.some.inj hread
        refine ⟨⟨bits, htype, hbits bits htype⟩, by simp, ?_⟩
        rw [Datum.stored, hwidth, Option.getD_some, BitSet.resize_length]
      next => contradiction
  | byte | short | integer | long | float | double | uuid =>
      rw [htype] at hread
      simp only [read?] at hread
      split at hread
      next hwidth =>
        obtain rfl := Option.some.inj hread
        refine ⟨by simp [Column.Takes, htype, Datum.kind?, kind], by simp, ?_⟩
        have hlength := Option.some.inj hwidth
        have hlt := LittleEndian.decode_lt_of_length hlength
        have hcode := LittleEndian.encode_decode_of_length hlength
        simp only [Datum.stored, UInt8.toUInt8_toInt8, UInt16.toUInt16_toInt16,
          UInt32.toUInt32_toInt32, UInt64.toUInt64_toInt64, UInt8.toNat_ofNat', UInt16.toNat_ofNat',
          UInt32.toNat_ofNat', UInt64.toNat_ofNat', BitVec.toNat_ofNat]
        exact (congrArg _ (Nat.mod_eq_of_lt hlt)).trans hcode
      next => contradiction

/-- Bytes can be read if they are as many as the type takes, and are UTF-8 if it is text. -/
theorem isSome_read? {type : ColumnType} {bytes : List UInt8} (hspans : type.Spans bytes)
    (htext : type = .string → ∃ text, utf8Bytes text = bytes) :
    (type.read? bytes).isSome = true := by
  cases type with
  | string =>
      obtain ⟨text, rfl⟩ := htext rfl
      rw [read?, fromUTF8?_utf8Bytes]
      rfl
  | bytes => rfl
  | _ => simp [read?, hspans _ rfl, width?]

end ColumnType

end Reading

end PackedTuple
