import PackedTuple.Text.Transcoder

/-! # What transcoding gives

Units without an unpaired surrogate spell a text, and transcoding gives its
UTF-8 form whatever the scratch area held before. All other units fail. UTF-8
bytes and strings determine each other.
-/

namespace PackedTuple

/-- The bytes of a string are read as that string. -/
theorem fromUTF8?_utf8Bytes (text : String) :
    String.fromUTF8? ⟨(utf8Bytes text).toArray⟩ = some text := by
  have hbytes : (⟨(utf8Bytes text).toArray⟩ : ByteArray) = text.toByteArray := by
    rw [utf8Bytes, Array.toArray_toList]
  rw [hbytes, String.fromUTF8?, dif_pos text.isValidUTF8]
  rfl

/-- Bytes read as a string are its bytes. -/
theorem utf8Bytes_of_fromUTF8? {bytes : List UInt8} {text : String}
    (hread : String.fromUTF8? ⟨bytes.toArray⟩ = some text) : utf8Bytes text = bytes := by
  unfold String.fromUTF8? at hread
  split at hread
  next =>
    rw [Option.some.injEq] at hread
    subst hread
    rfl
  next => contradiction

theorem utf8Bytes_ofList (chars : List Char) :
    utf8Bytes (String.ofList chars) = chars.flatMap String.utf8EncodeChar := by
  rw [utf8Bytes_eq_flatMap, String.toList_ofList]

namespace Utf16

theorem isLowSurrogate_of_isHighSurrogate {unit : UInt16} (hhigh : isHighSurrogate unit = true) :
    isLowSurrogate unit = false := by
  simp only [isHighSurrogate, isLowSurrogate, Bool.and_eq_true, decide_eq_true_eq,
    Bool.and_eq_false_iff, decide_eq_false_iff_not, UInt16.le_iff_toNat_le] at *
  have hmax : (0xDBFF : UInt16).toNat < (0xDC00 : UInt16).toNat := by decide
  omega

/-- Behind the first unit, pairing is pairing in the rest, unless the first unit
may pair with the second. -/
theorem isUnpaired_cons {unit : UInt16} {rest : List UInt16} {index : Nat}
    (hapart : index ≠ 0 ∨ isHighSurrogate unit = false) :
    IsUnpaired (unit :: rest) (index + 1) ↔ IsUnpaired rest index := by
  cases index with
  | zero =>
      have hunit := hapart.resolve_left (fun hne => hne rfl)
      simp [IsUnpaired, hunit]
  | succ index => simp [IsUnpaired]

theorem isUnpaired_zero {unit : UInt16} {rest : List UInt16} :
    IsUnpaired (unit :: rest) 0 ↔
      (isHighSurrogate unit = true ∧ rest.head?.any isLowSurrogate = false) ∨
        isLowSurrogate unit = true := by
  cases rest <;> simp [IsUnpaired]

/-- Units spell a text exactly if none of their surrogates is unpaired. -/
theorem isSome_toChars? (units : List UInt16) :
    (toChars? units).isSome = true ↔ ∀ index, ¬IsUnpaired units index := by
  fun_induction toChars? units with
  | case1 => simp [IsUnpaired]
  | case2 unit hsurrogate =>
      refine iff_of_false (by simp) fun hpaired => hpaired 0 (isUnpaired_zero.mpr ?_)
      simpa using hsurrogate
  | case3 unit hplain =>
      simp only [Bool.or_eq_true, not_or, Bool.not_eq_true] at hplain
      refine iff_of_true rfl fun index => ?_
      cases index with
      | zero => simp [isUnpaired_zero, hplain]
      | succ index => simp [IsUnpaired]
  | case4 unit next rest hhigh hlow ih =>
      rw [Option.isSome_map, ih]
      have hnext : isHighSurrogate next = false := by
        cases hnext : isHighSurrogate next with
        | false => rfl
        | true => exact absurd hlow (by simp [isLowSurrogate_of_isHighSurrogate hnext])
      constructor
      · intro hrest index
        match index with
        | 0 => simp [isUnpaired_zero, hlow, isLowSurrogate_of_isHighSurrogate hhigh]
        | 1 => simp [IsUnpaired, hhigh, hnext]
        | index + 2 =>
            rw [isUnpaired_cons (Or.inl (Nat.succ_ne_zero index)), isUnpaired_cons (Or.inr hnext)]
            exact hrest index
      · intro hall index hindex
        refine hall (index + 2) ?_
        rwa [isUnpaired_cons (Or.inl (Nat.succ_ne_zero index)), isUnpaired_cons (Or.inr hnext)]
  | case5 unit next rest hhigh hlow =>
      refine iff_of_false (by simp) fun hpaired => hpaired 0 (isUnpaired_zero.mpr (Or.inl ?_))
      simpa [hhigh] using hlow
  | case6 unit next rest hhigh hlow =>
      exact iff_of_false (by simp) fun hpaired => hpaired 0 (isUnpaired_zero.mpr (Or.inr hlow))
  | case7 unit next rest hhigh hlow ih =>
      rw [Option.isSome_map, ih]
      simp only [Bool.not_eq_true] at hhigh hlow
      constructor
      · intro hrest index
        cases index with
        | zero => simp [isUnpaired_zero, hhigh, hlow]
        | succ index => rw [isUnpaired_cons (Or.inr hhigh)]; exact hrest index
      · intro hall index hindex
        exact hall (index + 1) ((isUnpaired_cons (Or.inr hhigh)).mpr hindex)

/-- As `isSome_toChars?`, of the text itself. -/
theorem isSome_toString? (units : List UInt16) :
    (toString? units).isSome = true ↔ ∀ index, ¬IsUnpaired units index := by
  rw [toString?, Option.isSome_map, isSome_toChars?]

end Utf16

namespace Transcoder

theorem scratch_push_append (transcoder : Transcoder) (char : Char) (bytes : List UInt8) :
    (transcoder.push char).scratch ++ bytes =
      transcoder.scratch ++ (String.utf8EncodeChar char ++ bytes) := by
  apply Array.toList_inj.mp
  simp [push]

/-- What pushing units adds is the UTF-8 form of what they spell. -/
theorem pushUnits_of_toChars? {units : List UInt16} {chars : List Char}
    (hchars : Utf16.toChars? units = some chars) (transcoder : Transcoder) (position : Nat) :
    transcoder.pushUnits position units =
      (.ok (), ⟨transcoder.scratch ++ chars.flatMap String.utf8EncodeChar⟩) := by
  fun_induction pushUnits transcoder position units generalizing chars with
  | case1 =>
      simp only [Utf16.toChars?, Option.some.injEq] at hchars
      simp [← hchars]
  | case2 transcoder position unit hsurrogate =>
      rw [Utf16.toChars?, if_pos hsurrogate] at hchars
      contradiction
  | case3 transcoder position unit hplain =>
      rw [Utf16.toChars?, if_neg hplain, Option.some.injEq] at hchars
      simp [← hchars, push]
  | case4 transcoder position unit next rest hhigh hlow ih =>
      rw [Utf16.toChars?, if_pos hhigh, if_pos hlow, Option.map_eq_some_iff] at hchars
      obtain ⟨others, hothers, rfl⟩ := hchars
      rw [ih hothers, scratch_push_append, List.flatMap_cons]
  | case5 transcoder position unit next rest hhigh hlow =>
      rw [Utf16.toChars?, if_pos hhigh, if_neg hlow] at hchars
      contradiction
  | case6 transcoder position unit next rest hhigh hlow =>
      rw [Utf16.toChars?, if_neg hhigh, if_pos hlow] at hchars
      contradiction
  | case7 transcoder position unit next rest hhigh hlow ih =>
      rw [Utf16.toChars?, if_neg hhigh, if_neg hlow, Option.map_eq_some_iff] at hchars
      obtain ⟨others, hothers, rfl⟩ := hchars
      rw [ih hothers, scratch_push_append, List.flatMap_cons]

/-- Units that spell nothing are refused. -/
theorem pushUnits_of_none {units : List UInt16} (hchars : Utf16.toChars? units = none)
    (transcoder : Transcoder) (position : Nat) :
    ∃ failure, (transcoder.pushUnits position units).1 = .error failure := by
  fun_induction pushUnits transcoder position units with
  | case1 => contradiction
  | case2 transcoder position unit hsurrogate => exact ⟨_, rfl⟩
  | case3 transcoder position unit hplain =>
      rw [Utf16.toChars?, if_neg hplain] at hchars
      contradiction
  | case4 transcoder position unit next rest hhigh hlow ih =>
      rw [Utf16.toChars?, if_pos hhigh, if_pos hlow, Option.map_eq_none_iff] at hchars
      exact ih hchars
  | case5 transcoder position unit next rest hhigh hlow => exact ⟨_, rfl⟩
  | case6 transcoder position unit next rest hhigh hlow => exact ⟨_, rfl⟩
  | case7 transcoder position unit next rest hhigh hlow ih =>
      rw [Utf16.toChars?, if_neg hhigh, if_neg hlow, Option.map_eq_none_iff] at hchars
      exact ih hchars

/-- Transcoding gives the UTF-8 form of the text that the units spell. -/
theorem transcode_of_toString? {units : List UInt16} {text : String}
    (htext : Utf16.toString? units = some text) (transcoder : Transcoder) :
    (transcoder.transcode units).1 = .ok (utf8Bytes text) := by
  obtain ⟨chars, hchars, rfl⟩ := Option.map_eq_some_iff.mp htext
  rw [transcode, pushUnits_of_toChars? hchars, utf8Bytes_ofList]
  simp [clear]

/-- Units that spell no text are refused. -/
theorem transcode_of_none {units : List UInt16} (htext : Utf16.toString? units = none)
    (transcoder : Transcoder) : ∃ failure, (transcoder.transcode units).1 = .error failure := by
  obtain ⟨failure, hfailure⟩ :=
    pushUnits_of_none (Option.map_eq_none_iff.mp htext) transcoder.clear 0
  refine ⟨failure, ?_⟩
  unfold transcode
  cases hresult : transcoder.clear.pushUnits 0 units with
  | mk result filled =>
      rw [hresult] at hfailure
      subst hfailure
      rfl

end Transcoder

end PackedTuple
