import PackedTuple.Proofs.Text.Prediction

/-! # Texts and their units

Every text is spelled by units, and no two texts by the same ones: reading units
undoes writing them, code point by code point, and writing undoes reading. So
transcoding succeeds exactly on the units of a text and gives the UTF-8 form of
that text; on all other units it stops at the first surrogate outside a pair.
-/

namespace PackedTuple

namespace Utf16

variable {unit next : UInt16} {rest units : List UInt16} {char : Char} {chars : List Char}

/-! ## One code point -/

/-- The scalar values leave the range of the surrogates out. -/
theorem toNat_valid (char : Char) : char.toNat < 0xD800 ∨ 0xDFFF < char.toNat ∧
    char.toNat < 0x110000 :=
  char.valid

theorem toNat_pair (hhigh : isHighSurrogate unit = true) (hlow : isLowSurrogate next = true) :
    (pair unit next).toNat =
      0x10000 + (unit.toNat - 0xD800) * 0x400 + (next.toNat - 0xDC00) := by
  rw [isHighSurrogate_iff] at hhigh
  rw [isLowSurrogate_iff] at hlow
  apply toNat_ofNat
  unfold Nat.isValidChar
  omega

/-- A unit outside of pairs is the spelling of its code point. -/
theorem ofChar_single (hhigh : isHighSurrogate unit = false) (hlow : isLowSurrogate unit = false) :
    ofChar (single unit) = [unit] := by
  have hnumber := toNat_single hhigh hlow
  rw [ofChar, hnumber, if_pos unit.toNat_lt, UInt16.ofNat_toNat]

/-- Both halves of a pair are found again in its code point. -/
theorem ofChar_pair (hhigh : isHighSurrogate unit = true) (hlow : isLowSurrogate next = true) :
    ofChar (pair unit next) = [unit, next] := by
  have hnumber := toNat_pair hhigh hlow
  rw [isHighSurrogate_iff] at hhigh
  rw [isLowSurrogate_iff] at hlow
  have hupper : 0xD800 + ((pair unit next).toNat - 0x10000) / 0x400 = unit.toNat := by omega
  have hlower : 0xDC00 + ((pair unit next).toNat - 0x10000) % 0x400 = next.toNat := by omega
  rw [ofChar, if_neg (by omega), hupper, hlower, UInt16.ofNat_toNat, UInt16.ofNat_toNat]

theorem toChars?_single (hhigh : isHighSurrogate unit = false)
    (hlow : isLowSurrogate unit = false) :
    toChars? (unit :: rest) = (toChars? rest).map (single unit :: ·) := by
  cases rest with
  | nil => simp [toChars?, hhigh, hlow]
  | cons next rest => simp [toChars?, hhigh, hlow]

theorem toChars?_pair (hhigh : isHighSurrogate unit = true) (hlow : isLowSurrogate next = true) :
    toChars? (unit :: next :: rest) = (toChars? rest).map (pair unit next :: ·) := by
  simp [toChars?, hhigh, hlow]

/-- Reading the units of a code point gives it back. -/
theorem toChars?_ofChar_append (char : Char) (rest : List UInt16) :
    toChars? (ofChar char ++ rest) = (toChars? rest).map (char :: ·) := by
  have hvalid := toNat_valid char
  by_cases hsmall : char.toNat < 0x10000
  · have hunit : (UInt16.ofNat char.toNat).toNat = char.toNat := UInt16.toNat_ofNat_of_lt hsmall
    have hhigh : isHighSurrogate (UInt16.ofNat char.toNat) = false := by
      rw [← Bool.not_eq_true, isHighSurrogate_iff, hunit]
      omega
    have hlow : isLowSurrogate (UInt16.ofNat char.toNat) = false := by
      rw [← Bool.not_eq_true, isLowSurrogate_iff, hunit]
      omega
    rw [ofChar, if_pos hsmall, List.singleton_append, toChars?_single hhigh hlow, single, hunit,
      Char.ofNat_toNat]
  · have hupper : (UInt16.ofNat (0xD800 + (char.toNat - 0x10000) / 0x400)).toNat =
        0xD800 + (char.toNat - 0x10000) / 0x400 :=
      UInt16.toNat_ofNat_of_lt' (show _ < 0x10000 by omega)
    have hlower : (UInt16.ofNat (0xDC00 + (char.toNat - 0x10000) % 0x400)).toNat =
        0xDC00 + (char.toNat - 0x10000) % 0x400 :=
      UInt16.toNat_ofNat_of_lt' (show _ < 0x10000 by omega)
    have hhigh := isHighSurrogate_iff.mpr (by rw [hupper]; omega)
    have hlow := isLowSurrogate_iff.mpr (by rw [hlower]; omega)
    have hpair : pair (UInt16.ofNat (0xD800 + (char.toNat - 0x10000) / 0x400))
        (UInt16.ofNat (0xDC00 + (char.toNat - 0x10000) % 0x400)) = char := by
      apply Char.toNat_inj.mp
      rw [toNat_pair hhigh hlow, hupper, hlower]
      omega
    rw [ofChar, if_neg hsmall, List.cons_append, List.cons_append, List.nil_append,
      toChars?_pair hhigh hlow, hpair]

/-! ## Whole texts -/

theorem toChars?_flatMap_ofChar (chars : List Char) :
    toChars? (chars.flatMap ofChar) = some chars := by
  induction chars with
  | nil => rfl
  | cons char rest ih => rw [List.flatMap_cons, toChars?_ofChar_append, ih, Option.map_some]

theorem flatMap_ofChar_of_toChars? (hchars : toChars? units = some chars) :
    chars.flatMap ofChar = units := by
  fun_induction toChars? units generalizing chars with
  | case1 =>
      obtain rfl := Option.some.inj hchars
      rfl
  | case2 => contradiction
  | case3 unit hplain =>
      obtain rfl := Option.some.inj hchars
      simp only [Bool.or_eq_true, not_or, Bool.not_eq_true] at hplain
      rw [List.flatMap_singleton, ofChar_single hplain.1 hplain.2]
  | case4 unit next rest hhigh hlow ih =>
      obtain ⟨others, hothers, rfl⟩ := Option.map_eq_some_iff.mp hchars
      rw [List.flatMap_cons, ofChar_pair hhigh hlow, ih hothers]
      rfl
  | case5 => contradiction
  | case6 => contradiction
  | case7 unit next rest hhigh hlow ih =>
      obtain ⟨others, hothers, rfl⟩ := Option.map_eq_some_iff.mp hchars
      simp only [Bool.not_eq_true] at hhigh hlow
      rw [List.flatMap_cons, ofChar_single hhigh hlow, ih hothers]
      rfl

/-- Units spell a text exactly if they are its units. -/
theorem toString?_eq_some_iff {text : String} :
    toString? units = some text ↔ ofString text = units := by
  rw [toString?, Option.map_eq_some_iff, ofString]
  constructor
  · rintro ⟨chars, hchars, rfl⟩
    rw [String.toList_ofList]
    exact flatMap_ofChar_of_toChars? hchars
  · rintro rfl
    exact ⟨text.toList, toChars?_flatMap_ofChar _, String.ofList_toList⟩

/-! ## The first surrogate outside a pair -/

/-- The surrogate at an index is unpaired, and those in front of it are not. -/
def IsFirstUnpaired (units : List UInt16) (index : Nat) : Prop :=
  IsUnpaired units index ∧ ∀ earlier < index, ¬IsUnpaired units earlier

theorem isFirstUnpaired_zero (hunit : IsUnpaired units 0) : IsFirstUnpaired units 0 :=
  ⟨hunit, fun _ hearlier => absurd hearlier (Nat.not_lt_zero _)⟩

theorem IsFirstUnpaired.unique {left right : Nat} (hleft : IsFirstUnpaired units left)
    (hright : IsFirstUnpaired units right) : left = right := by
  rcases Nat.lt_trichotomy left right with hlt | heq | hgt
  · exact absurd hleft.1 (hright.2 left hlt)
  · exact heq
  · exact absurd hright.1 (hleft.2 right hgt)

theorem IsFirstUnpaired.single {index : Nat} (hfirst : IsFirstUnpaired rest index)
    (hhigh : isHighSurrogate unit = false) (hlow : isLowSurrogate unit = false) :
    IsFirstUnpaired (unit :: rest) (index + 1) := by
  refine ⟨(isUnpaired_cons (Or.inr hhigh)).mpr hfirst.1, ?_⟩
  intro earlier hearlier
  cases earlier with
  | zero => simp [isUnpaired_zero, hhigh, hlow]
  | succ earlier =>
      rw [isUnpaired_cons (Or.inr hhigh)]
      exact hfirst.2 earlier (Nat.lt_of_succ_lt_succ hearlier)

theorem IsFirstUnpaired.pair {index : Nat} (hfirst : IsFirstUnpaired rest index)
    (hhigh : isHighSurrogate unit = true) (hlow : isLowSurrogate next = true) :
    IsFirstUnpaired (unit :: next :: rest) (index + 2) := by
  have hnext : isHighSurrogate next = false := by
    rw [← Bool.not_eq_true]
    intro hboth
    rw [isLowSurrogate_of_isHighSurrogate hboth] at hlow
    contradiction
  have hunit := isLowSurrogate_of_isHighSurrogate hhigh
  have hbehind : ∀ place, IsUnpaired (unit :: next :: rest) (place + 2) ↔ IsUnpaired rest place :=
    fun place => (isUnpaired_cons (Or.inl (Nat.succ_ne_zero place))).trans
      (isUnpaired_cons (Or.inr hnext))
  refine ⟨(hbehind index).mpr hfirst.1, ?_⟩
  intro earlier hearlier
  match earlier with
  | 0 => simp [isUnpaired_zero, hlow, hunit]
  | 1 => simp [IsUnpaired, hhigh, hnext]
  | earlier + 2 =>
      rw [hbehind]
      exact hfirst.2 earlier (by omega)

end Utf16

namespace Transcoder

/-- Where pushing units stops, the first surrogate outside a pair stands. -/
theorem isFirstUnpaired_of_pushUnits {transcoder : Transcoder} {position : Nat}
    {units : List UInt16} {failure : UnpairedSurrogate}
    (hfailure : (transcoder.pushUnits position units).1 = .error failure) :
    ∃ index, failure.position = position + index ∧ Utf16.IsFirstUnpaired units index := by
  fun_induction pushUnits transcoder position units with
  | case1 => contradiction
  | case2 transcoder position unit hsurrogate =>
      obtain rfl := Except.error.inj hfailure
      refine ⟨0, rfl, Utf16.isFirstUnpaired_zero (Utf16.isUnpaired_zero.mpr ?_)⟩
      simpa using hsurrogate
  | case3 => contradiction
  | case4 transcoder position unit next rest hhigh hlow ih =>
      obtain ⟨index, hposition, hfirst⟩ := ih hfailure
      exact ⟨index + 2, by omega, hfirst.pair hhigh hlow⟩
  | case5 transcoder position unit next rest hhigh hlow =>
      obtain rfl := Except.error.inj hfailure
      refine ⟨0, rfl, Utf16.isFirstUnpaired_zero (Utf16.isUnpaired_zero.mpr (Or.inl ?_))⟩
      simpa [hhigh] using hlow
  | case6 transcoder position unit next rest hhigh hlow =>
      obtain rfl := Except.error.inj hfailure
      exact ⟨0, rfl, Utf16.isFirstUnpaired_zero (Utf16.isUnpaired_zero.mpr (Or.inr hlow))⟩
  | case7 transcoder position unit next rest hhigh hlow ih =>
      obtain ⟨index, hposition, hfirst⟩ := ih hfailure
      simp only [Bool.not_eq_true] at hhigh hlow
      exact ⟨index + 1, by omega, hfirst.single hhigh hlow⟩

variable {transcoder : Transcoder} {units : List UInt16}

theorem isFirstUnpaired_of_transcode {failure : UnpairedSurrogate}
    (hfailure : (transcoder.transcode units).1 = .error failure) :
    Utf16.IsFirstUnpaired units failure.position := by
  have hpush : (transcoder.clear.pushUnits 0 units).1 = .error failure := by
    unfold transcode at hfailure
    split at hfailure
    next => contradiction
    next other filled hpushed =>
      obtain rfl := Except.error.inj hfailure
      rw [hpushed]
  obtain ⟨index, hposition, hfirst⟩ := isFirstUnpaired_of_pushUnits hpush
  rw [hposition, Nat.zero_add]
  exact hfirst

/-- Transcoding succeeds exactly on the units of a text. -/
theorem transcode_eq_ok_iff {bytes : List UInt8} :
    (transcoder.transcode units).1 = .ok bytes ↔
      ∃ text, Utf16.ofString text = units ∧ utf8Bytes text = bytes := by
  simp only [← Utf16.toString?_eq_some_iff]
  cases htext : Utf16.toString? units with
  | none =>
      obtain ⟨failure, hfailure⟩ := transcode_of_none htext transcoder
      rw [hfailure]
      simp
  | some text =>
      rw [transcode_of_toString? htext transcoder]
      simp

/-- A text given in UTF-16 comes out as its UTF-8 form, which is read as this text and no
other. Units that are not those of a text fail, at the first surrogate outside a pair. What the
scratch area was used for before makes no difference. -/
theorem transcode_exact (transcoder : Transcoder) (units : List UInt16) :
    ((∃ bytes, (transcoder.transcode units).1 = .ok bytes) ↔
      ∀ index, ¬Utf16.IsUnpaired units index) ∧
    (∀ bytes, (transcoder.transcode units).1 = .ok bytes →
      ∃ text, Utf16.toString? units = some text ∧ utf8Bytes text = bytes ∧
        String.fromUTF8? ⟨bytes.toArray⟩ = some text ∧ Utf16.ofString text = units) ∧
    (∀ text, Utf16.ofString text = units →
      (transcoder.transcode units).1 = .ok (utf8Bytes text)) ∧
    ∀ position, (transcoder.transcode units).1 = .error ⟨position⟩ ↔
      Utf16.IsUnpaired units position ∧
        ∀ earlier < position, ¬Utf16.IsUnpaired units earlier := by
  have hpaired : (∃ bytes, (transcoder.transcode units).1 = .ok bytes) ↔
      ∀ index, ¬Utf16.IsUnpaired units index := by
    rw [← Utf16.isSome_toString?, Option.isSome_iff_exists]
    simp only [transcode_eq_ok_iff, Utf16.toString?_eq_some_iff]
    constructor
    · rintro ⟨_, text, htext, _⟩
      exact ⟨text, htext⟩
    · rintro ⟨text, htext⟩
      exact ⟨_, text, htext, rfl⟩
  refine ⟨hpaired, ?_, ?_, ?_⟩
  · intro bytes hbytes
    obtain ⟨text, htext, rfl⟩ := transcode_eq_ok_iff.mp hbytes
    exact ⟨text, Utf16.toString?_eq_some_iff.mpr htext, rfl, fromUTF8?_utf8Bytes text, htext⟩
  · intro text htext
    exact transcode_eq_ok_iff.mpr ⟨text, htext, rfl⟩
  · intro position
    constructor
    · intro hfailure
      exact isFirstUnpaired_of_transcode hfailure
    · intro hfirst
      cases hresult : (transcoder.transcode units).1 with
      | ok bytes => exact absurd hfirst.1 (hpaired.mp ⟨bytes, hresult⟩ position)
      | error failure =>
          have hposition := (isFirstUnpaired_of_transcode hresult).unique hfirst
          rw [← hposition]

/-- One of each kind: a pair, then a high surrogate without a low one. -/
example : (empty.transcode [0x61, 0xD83D, 0xDE00, 0xD83D, 0x62]).1 = .error ⟨3⟩ := rfl

end Transcoder

end PackedTuple
