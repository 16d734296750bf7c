import PackedTuple.Proofs.Text.Transcoding

/-! # Predicted lengths

The length predicted for units is that of the text that they spell: code point by
code point, what is counted for its units is the number of its bytes.
-/

namespace PackedTuple

theorem utf8Size_eq (char : Char) :
    char.utf8Size = if char.toNat ≤ 0x7F then 1 else if char.toNat ≤ 0x7FF then 2
      else if char.toNat ≤ 0xFFFF then 3 else 4 := by
  simp only [Char.utf8Size, UInt32.le_iff_toNat_le]
  rfl

theorem toNat_ofNat {number : Nat} (hvalid : number.isValidChar) :
    (Char.ofNat number).toNat = number := by
  rw [Char.ofNat, dif_pos hvalid]
  rfl

namespace Utf16

variable {unit next : UInt16}

theorem isHighSurrogate_iff :
    isHighSurrogate unit = true ↔ 0xD800 ≤ unit.toNat ∧ unit.toNat ≤ 0xDBFF := by
  simp [isHighSurrogate, UInt16.le_iff_toNat_le]

theorem isLowSurrogate_iff :
    isLowSurrogate unit = true ↔ 0xDC00 ≤ unit.toNat ∧ unit.toNat ≤ 0xDFFF := by
  simp [isLowSurrogate, UInt16.le_iff_toNat_le]

theorem toNat_single (hhigh : isHighSurrogate unit = false) (hlow : isLowSurrogate unit = false) :
    (single unit).toNat = unit.toNat := by
  apply toNat_ofNat
  have hlt := unit.toNat_lt
  rw [← Bool.not_eq_true, isHighSurrogate_iff] at hhigh
  rw [← Bool.not_eq_true, isLowSurrogate_iff] at hlow
  unfold Nat.isValidChar
  omega

/-- A pair spells a code point beyond those of single units. -/
theorem le_toNat_pair (hhigh : isHighSurrogate unit = true) (hlow : isLowSurrogate next = true) :
    0x10000 ≤ (pair unit next).toNat := by
  rw [isHighSurrogate_iff] at hhigh
  rw [isLowSurrogate_iff] at hlow
  rw [pair, toNat_ofNat]
  · omega
  · unfold Nat.isValidChar
    omega

/-! ## One code point -/

section Step

variable {rest : List UInt16}

theorem predictedLengthFrom_single (hhigh : isHighSurrogate unit = false)
    (hlow : isLowSurrogate unit = false) (count : Nat) :
    predictedLengthFrom count (unit :: rest) =
      predictedLengthFrom (count + (single unit).utf8Size) rest := by
  have hmax : unit.toNat ≤ 0xFFFF := Nat.le_of_lt_succ unit.toNat_lt
  rw [utf8Size_eq, toNat_single hhigh hlow, if_pos hmax]
  rw [predictedLengthFrom.eq_def]
  simp only [UInt16.le_iff_toNat_le, UInt16.reduceToNat, hhigh, Bool.false_eq_true, if_false]
  split
  next => rfl
  next =>
    split
    next => rfl
    next => rfl

theorem predictedLengthFrom_pair (hhigh : isHighSurrogate unit = true)
    (hlow : isLowSurrogate next = true) (count : Nat) :
    predictedLengthFrom count (unit :: next :: rest) =
      predictedLengthFrom (count + (pair unit next).utf8Size) rest := by
  have hcode := le_toNat_pair hhigh hlow
  have hsize : (pair unit next).utf8Size = 4 := by
    rw [utf8Size_eq, if_neg (by omega), if_neg (by omega), if_neg (by omega)]
  have hunit := (isHighSurrogate_iff.mp hhigh).1
  rw [hsize, predictedLengthFrom.eq_def]
  simp only [UInt16.le_iff_toNat_le, UInt16.reduceToNat, hhigh, if_true]
  rw [if_neg (by omega), if_neg (by omega)]

end Step

/-! ## Whole texts -/

theorem predictedLengthFrom_of_toChars? {units : List UInt16} {chars : List Char}
    (hchars : toChars? units = some chars) (count : Nat) :
    predictedLengthFrom count units = count + (chars.flatMap String.utf8EncodeChar).length := by
  fun_induction toChars? units generalizing chars count with
  | case1 =>
      obtain rfl := Option.some.inj hchars
      rfl
  | case2 => contradiction
  | case3 unit hplain =>
      obtain rfl := Option.some.inj hchars
      simp only [Bool.or_eq_true, not_or, Bool.not_eq_true] at hplain
      rw [predictedLengthFrom_single hplain.1 hplain.2]
      simp [predictedLengthFrom, String.length_utf8EncodeChar]
  | case4 unit next rest hhigh hlow ih =>
      obtain ⟨others, hothers, rfl⟩ := Option.map_eq_some_iff.mp hchars
      rw [predictedLengthFrom_pair hhigh hlow, ih hothers, List.flatMap_cons, List.length_append,
        String.length_utf8EncodeChar, Nat.add_assoc]
  | case5 => contradiction
  | case6 => contradiction
  | case7 unit next rest hhigh hlow ih =>
      obtain ⟨others, hothers, rfl⟩ := Option.map_eq_some_iff.mp hchars
      simp only [Bool.not_eq_true] at hhigh hlow
      rw [predictedLengthFrom_single hhigh hlow, ih hothers, List.flatMap_cons,
        List.length_append, String.length_utf8EncodeChar, Nat.add_assoc]

/-- The length predicted for units is that of the text that they spell. -/
theorem predictedLength_of_toString? {units : List UInt16} {text : String}
    (htext : toString? units = some text) : predictedLength units = (utf8Bytes text).length := by
  obtain ⟨chars, hchars, rfl⟩ := Option.map_eq_some_iff.mp htext
  rw [predictedLength, predictedLengthFrom_of_toChars? hchars, utf8Bytes_ofList, Nat.zero_add]

end Utf16

end PackedTuple
