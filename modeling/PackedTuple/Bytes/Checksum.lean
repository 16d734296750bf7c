/-! # CRC-32

The cyclic redundancy check of Ethernet and of most archive formats: reflected
polynomial `0xEDB88320`, register initially all ones, result complemented.
-/

namespace PackedTuple.Checksum

/-- The generator polynomial, its coefficients from the lowest power in the top bit down. -/
def polynomial : UInt32 :=
  0xEDB88320

/-- Divide one more bit of the register by the polynomial. -/
def shiftBit (register : UInt32) : UInt32 :=
  if register &&& 1 = 1 then (register >>> 1) ^^^ polynomial else register >>> 1

/-- Feed one byte, lowest bit first. -/
def feed (register : UInt32) (byte : UInt8) : UInt32 :=
  Nat.repeat shiftBit 8 (register ^^^ byte.toUInt32)

/-- The checksum of a list of bytes. -/
def crc32 (bytes : List UInt8) : UInt32 :=
  ~~~ bytes.foldl feed 0xFFFFFFFF

/-- The check value that catalogues of such codes list, for the ASCII digits one to nine. -/
theorem crc32_digits : crc32 [49, 50, 51, 52, 53, 54, 55, 56, 57] = 0xCBF43926 := by
  decide +kernel

end PackedTuple.Checksum
