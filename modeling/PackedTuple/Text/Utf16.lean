/-! # Texts in UTF-16 and UTF-8

In UTF-16, code points up to U+FFFF are one unit; the others are a high surrogate
followed by a low one. A surrogate outside such a pair spells nothing. Besides the
units themselves this module says which texts they spell, and predicts how many bytes
a text takes in UTF-8, without checking that its surrogates are paired.
-/

namespace PackedTuple

/-- The UTF-8 form of a string. -/
def utf8Bytes (text : String) : List UInt8 :=
  text.toByteArray.data.toList

/-- A string is encoded code point by code point. -/
theorem utf8Bytes_eq_flatMap (text : String) :
    utf8Bytes text = text.toList.flatMap String.utf8EncodeChar := by
  rw [utf8Bytes, ← String.utf8Encode_toList, List.utf8Encode, List.toList_data_toByteArray]

namespace Utf16

/-- First half of a pair. -/
def isHighSurrogate (unit : UInt16) : Bool :=
  0xD800 ≤ unit && unit ≤ 0xDBFF

/-- Second half of a pair. -/
def isLowSurrogate (unit : UInt16) : Bool :=
  0xDC00 ≤ unit && unit ≤ 0xDFFF

/-- The code point that a unit outside the surrogate range spells. -/
def single (unit : UInt16) : Char :=
  Char.ofNat unit.toNat

/-- The code point that a surrogate pair spells: ten bits from each half. -/
def pair (high low : UInt16) : Char :=
  Char.ofNat (0x10000 + (high.toNat - 0xD800) * 0x400 + (low.toNat - 0xDC00))

/-- The units that spell a code point. -/
def ofChar (char : Char) : List UInt16 :=
  if char.toNat < 0x10000 then
    [UInt16.ofNat char.toNat]
  else
    [UInt16.ofNat (0xD800 + (char.toNat - 0x10000) / 0x400),
      UInt16.ofNat (0xDC00 + (char.toNat - 0x10000) % 0x400)]

/-- The units that spell a string. -/
def ofString (text : String) : List UInt16 :=
  text.toList.flatMap ofChar

/-- Bytes predicted so far plus those of the remaining units. A high surrogate
stands for a whole pair, so the unit after it is not counted again. -/
def predictedLengthFrom (count : Nat) : List UInt16 → Nat
  | [] => count
  | unit :: rest =>
      if unit ≤ 0x7F then predictedLengthFrom (count + 1) rest
      else if unit ≤ 0x7FF then predictedLengthFrom (count + 2) rest
      else if isHighSurrogate unit then
        match rest with
        | [] => count + 4
        | _ :: rest => predictedLengthFrom (count + 4) rest
      else predictedLengthFrom (count + 3) rest

/-- Bytes that a text takes in UTF-8, exact whenever its surrogates are paired. -/
def predictedLength (units : List UInt16) : Nat :=
  predictedLengthFrom 0 units

/-! ## Surrogate pairing

When units spell a text, and which surrogates keep them from doing so. `IsUnpaired`
looks at one unit and its neighbours only; `toString?` reads the units from the
front and gives the text that they spell, if there is one.
-/

/-- The unit at an index is a high surrogate without a low one behind it, or a
low one without a high one in front of it. -/
def IsUnpaired (units : List UInt16) (index : Nat) : Prop :=
  (units[index]?.any isHighSurrogate = true ∧ units[index + 1]?.any isLowSurrogate = false) ∨
    (units[index]?.any isLowSurrogate = true ∧
      (index = 0 ∨ units[index - 1]?.any isHighSurrogate = false))

instance (units : List UInt16) (index : Nat) : Decidable (IsUnpaired units index) :=
  inferInstanceAs (Decidable (_ ∨ _))

/-- The code points that units spell. -/
def toChars? : List UInt16 → Option (List Char)
  | [] => some []
  | [unit] => if isHighSurrogate unit || isLowSurrogate unit then none else some [single unit]
  | unit :: next :: rest =>
      if isHighSurrogate unit then
        if isLowSurrogate next then (toChars? rest).map (pair unit next :: ·) else none
      else if isLowSurrogate unit then none
      else (toChars? (next :: rest)).map (single unit :: ·)

/-- The text that units spell. -/
def toString? (units : List UInt16) : Option String :=
  (toChars? units).map String.ofList

end Utf16

end PackedTuple
