/-! # Little-endian numbers

Numbers are stored in fields of a fixed width, least significant byte first.
`encode` writes such a field, `decode` gives the number that a list of bytes
spells, and `read?` looks a field up inside a larger array, refusing one that
does not lie wholly inside it. Encoding and decoding undo each other on every
number below the limit of the width, and on every list of bytes.
-/

namespace PackedTuple.LittleEndian

/-- The `width` low-order bytes of a number, least significant first. -/
def encode : (width number : Nat) → List UInt8
  | 0, _ => []
  | width + 1, number => UInt8.ofNat number :: encode width (number / 256)

/-- The number that a list of bytes spells, least significant byte first. -/
def decode : List UInt8 → Nat
  | [] => 0
  | byte :: rest => byte.toNat + 256 * decode rest

/-- The first number that is too large for a width. -/
def limit : (width : Nat) → Nat
  | 0 => 1
  | width + 1 => 256 * limit width

/-- The number stored in the `width` bytes from `offset`, if they all exist. -/
def read? (width : Nat) (bytes : Array UInt8) (offset : Nat) : Option Nat :=
  if offset + width ≤ bytes.size then
    some (decode (bytes.extract offset (offset + width)).toList)
  else
    none

@[simp] theorem length_encode (width number : Nat) : (encode width number).length = width := by
  induction width generalizing number with
  | zero => rfl
  | succ width ih => simp [encode, ih]

theorem decode_encode_mod (width number : Nat) :
    decode (encode width number) = number % limit width := by
  induction width generalizing number with
  | zero => simp [encode, decode, limit, Nat.mod_one]
  | succ width ih =>
      have hbyte : (UInt8.ofNat number).toNat = number % 256 := UInt8.toNat_ofNat'
      rw [encode, decode, ih, hbyte, limit, Nat.mod_mul]

theorem decode_encode {width number : Nat} (hfits : number < limit width) :
    decode (encode width number) = number := by
  rw [decode_encode_mod, Nat.mod_eq_of_lt hfits]

theorem decode_lt (bytes : List UInt8) : decode bytes < limit bytes.length := by
  induction bytes with
  | nil => simp [decode, limit]
  | cons byte rest ih =>
      have hbyte := byte.toNat_lt
      simp only [decode, List.length_cons, limit]
      omega

/-- Every list of bytes is the field of its own number. -/
theorem encode_decode (bytes : List UInt8) : encode bytes.length (decode bytes) = bytes := by
  induction bytes with
  | nil => rfl
  | cons byte rest ih =>
      have hbyte := byte.toNat_lt
      simp only [decode, List.length_cons, encode]
      congr 1
      · apply UInt8.toNat_inj.mp
        rw [UInt8.toNat_ofNat']
        omega
      · rw [show (byte.toNat + 256 * decode rest) / 256 = decode rest by omega, ih]

end PackedTuple.LittleEndian
