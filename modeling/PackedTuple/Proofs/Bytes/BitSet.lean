import PackedTuple.Bytes.BitSet

/-! # Membership in bit sets

A list of bytes is determined by its length and the set it stands for, so two
lists are shown equal by comparing sets. The other lemmas say which set an
operation makes: packing a predicate, setting one bit, dropping leading bytes,
and cutting a list behind its highest bit.
-/

namespace PackedTuple.BitSet

theorem testBit_packBits (bit : Nat → Bool) (count index : Nat) :
    (packBits bit count).testBit index = (decide (index < count) && bit index) := by
  induction count generalizing bit index with
  | zero => simp [packBits]
  | succ count ih =>
      cases index with
      | zero =>
          rw [packBits, Nat.testBit_zero]
          cases bit 0 <;> simp
      | succ index =>
          have hbit : (bit 0).toNat ≤ 1 := Bool.toNat_le _
          have hhalf : ((bit 0).toNat + 2 * packBits (fun index => bit (index + 1)) count) / 2 =
              packBits (fun index => bit (index + 1)) count := by omega
          rw [packBits, Nat.testBit_succ, hhalf, ih]
          simp only [Nat.add_lt_add_iff_right]

@[simp] theorem testByte_packByte (bit : Nat → Bool) (index : Nat) :
    testByte (packByte bit) index = bit (index % 8) := by
  have hlt : index % 8 < 8 := Nat.mod_lt _ (by decide)
  rw [testByte, packByte, UInt8.toNat_ofNat', Nat.testBit_mod_two_pow, testBit_packBits,
    decide_eq_true hlt, Bool.true_and, Bool.true_and]

@[simp] theorem testByte_zero (index : Nat) : testByte 0 index = false := by
  simp [testByte]

@[simp] theorem testByte_or (left right : UInt8) (index : Nat) :
    testByte (left ||| right) index = (testByte left index || testByte right index) := by
  simp [testByte, Nat.testBit_or]

@[simp] theorem testByte_singleByte (member index : Nat) :
    testByte (singleByte member) index = decide (member % 8 = index % 8) := by
  have hlt : index % 8 < 8 := Nat.mod_lt _ (by decide)
  rw [testByte, singleByte, UInt8.toNat_ofNat', Nat.testBit_mod_two_pow, decide_eq_true hlt,
    Bool.true_and, Nat.one_shiftLeft, Nat.testBit_two_pow]

/-- A byte is determined by its bits. -/
theorem byte_ext {left right : UInt8}
    (hbits : ∀ index < 8, testByte left index = testByte right index) : left = right := by
  apply UInt8.toNat_inj.mp
  apply Nat.eq_of_testBit_eq
  intro index
  by_cases hlt : index < 8
  · simpa [testByte, Nat.mod_eq_of_lt hlt] using hbits index hlt
  · have hpow : 2 ^ 8 ≤ 2 ^ index := Nat.pow_le_pow_right (by decide) (by omega)
    rw [Nat.testBit_lt_two_pow (Nat.lt_of_lt_of_le left.toNat_lt hpow),
      Nat.testBit_lt_two_pow (Nat.lt_of_lt_of_le right.toNat_lt hpow)]

theorem contains_of_getElem? {bytes : List UInt8} {index : Nat} {byte : UInt8}
    (hbyte : bytes[index / 8]? = some byte) : contains bytes index = testByte byte index := by
  rw [contains, hbyte, Option.any_some]

theorem lt_of_contains {bytes : List UInt8} {index : Nat} (hmem : contains bytes index = true) :
    index < 8 * bytes.length := by
  cases hbyte : bytes[index / 8]? with
  | none => simp [contains, hbyte] at hmem
  | some byte =>
      have hplace := (List.getElem?_eq_some_iff.mp hbyte).1
      omega

/-- Lists of one length that stand for one set are equal. -/
theorem ext {left right : List UInt8} (hlength : left.length = right.length)
    (hmem : ∀ index < 8 * left.length, contains left index = contains right index) :
    left = right := by
  apply List.ext_getElem hlength
  intro place hleft hright
  apply byte_ext
  intro bit hbit
  have hdiv : (8 * place + bit) / 8 = place := by omega
  have hmod : (8 * place + bit) % 8 = bit := by omega
  have hsame := hmem (8 * place + bit) (by omega)
  rw [contains, contains, hdiv, List.getElem?_eq_getElem hleft, List.getElem?_eq_getElem hright,
    Option.any_some, Option.any_some] at hsame
  simpa [testByte, hmod, Nat.mod_eq_of_lt hbit] using hsame

/-- Packing keeps the indices below the count. -/
@[simp] theorem contains_pack (count : Nat) (bit : Nat → Bool) (index : Nat) :
    contains (pack count bit) index = (decide (index < count) && bit index) := by
  by_cases hin : index / 8 < byteCount count
  · have hindex : 8 * (index / 8) + index % 8 = index := by omega
    rw [contains, pack, List.getElem?_map, List.getElem?_range hin, Option.map_some,
      Option.any_some, testByte_packByte, hindex]
  · have hle := le_byteCount count
    have hfalse : decide (index < count) = false := decide_eq_false (by omega)
    rw [contains, List.getElem?_eq_none (by rw [length_pack]; omega), hfalse]
    rfl

/-- Setting a bit adds its index to the set. -/
theorem contains_set_or (bytes : List UInt8) (member index : Nat) (byte : UInt8)
    (hbyte : bytes[member / 8]? = some byte) :
    contains (bytes.set (member / 8) (byte ||| singleByte member)) index =
      (contains bytes index || decide (index = member)) := by
  have hlt := (List.getElem?_eq_some_iff.mp hbyte).1
  by_cases hplace : member / 8 = index / 8
  · rw [contains, contains, ← hplace, List.getElem?_set_self hlt, hbyte, Option.any_some,
      Option.any_some, testByte_or, testByte_singleByte]
    congr 1
    exact decide_eq_decide.mpr (by omega)
  · have hne : decide (index = member) = false := decide_eq_false (by omega)
    rw [contains, List.getElem?_set_ne hplace, hne, Bool.or_false, contains]

/-- Setting the bit of one more index is packing the larger set. -/
theorem set_pack {count member : Nat} {bit : Nat → Bool} (hmember : member < count)
    {byte : UInt8} (hbyte : (pack count bit)[member / 8]? = some byte) :
    (pack count bit).set (member / 8) (byte ||| singleByte member) =
      pack count fun index => bit index || decide (index = member) := by
  apply ext (by simp)
  intro index _
  rw [contains_set_or _ _ _ _ hbyte, contains_pack, contains_pack]
  by_cases heq : index = member
  · subst heq
    simp [hmember]
  · simp [heq]

/-! ## The highest bit -/

theorem lt_byteLength {byte : UInt8} {index : Nat} (hlt : index < 8)
    (hbit : testByte byte index = true) : index < byteLength byte := by
  have hne : byte ≠ 0 := by
    rintro rfl
    simp at hbit
  rw [byteLength, if_neg hne]
  rw [testByte, Nat.mod_eq_of_lt hlt] at hbit
  have hpow : 2 ^ index ≤ byte.toNat := Nat.ge_two_pow_of_testBit hbit
  have hlog := Nat.le_log2 (n := byte.toNat) (k := index) (by
    intro hzero
    exact hne (UInt8.toNat_inj.mp hzero)) |>.mpr hpow
  omega

theorem testByte_byteLength {byte : UInt8} (hne : byte ≠ 0) :
    byteLength byte ≤ 8 ∧ testByte byte (byteLength byte - 1) = true := by
  have hzero : byte.toNat ≠ 0 := fun hzero => hne (UInt8.toNat_inj.mp hzero)
  have hlog : byte.toNat.log2 < 8 := (Nat.log2_lt hzero).mpr byte.toNat_lt
  rw [byteLength, if_neg hne, Nat.add_sub_cancel, testByte, Nat.mod_eq_of_lt hlog]
  exact ⟨by omega, Nat.testBit_log2 hzero⟩

theorem contains_cons (byte : UInt8) (rest : List UInt8) (index : Nat) :
    contains (byte :: rest) index =
      if index < 8 then testByte byte index else contains rest (index - 8) := by
  by_cases hlt : index < 8
  · rw [if_pos hlt, contains_of_getElem?]
    rw [show index / 8 = 0 by omega]
    rfl
  · rw [if_neg hlt, contains, contains, show index / 8 = (index - 8) / 8 + 1 by omega,
      List.getElem?_cons_succ]
    congr 1
    funext other
    rw [testByte, testByte, show (index - 8) % 8 = index % 8 by omega]

theorem bitLength_cons (byte : UInt8) (rest : List UInt8) :
    bitLength (byte :: rest) =
      if bitLength rest = 0 then byteLength byte else bitLength rest + 8 := rfl

theorem lt_bitLength_of_contains {bytes : List UInt8} {index : Nat}
    (hmem : contains bytes index = true) : index < bitLength bytes := by
  induction bytes generalizing index with
  | nil => simp [contains] at hmem
  | cons byte rest ih =>
      rw [contains_cons] at hmem
      rw [bitLength_cons]
      split at hmem
      next hlt =>
        have hbyte := lt_byteLength hlt hmem
        split <;> omega
      next =>
        have hrest := ih hmem
        rw [if_neg (by omega)]
        omega

theorem contains_bitLength {bytes : List UInt8} (hne : bitLength bytes ≠ 0) :
    contains bytes (bitLength bytes - 1) = true := by
  induction bytes with
  | nil => exact absurd rfl hne
  | cons byte rest ih =>
      rw [bitLength_cons] at hne ⊢
      rw [contains_cons]
      split at hne
      next hrest =>
        have hbyte : byte ≠ 0 := by
          rintro rfl
          exact hne rfl
        obtain ⟨hle, htest⟩ := testByte_byteLength hbyte
        rw [if_pos hrest, if_pos (by omega)]
        exact htest
      next hrest =>
        rw [if_neg hrest, if_neg (by omega),
          show bitLength rest + 8 - 1 - 8 = bitLength rest - 1 by omega]
        exact ih hrest

/-- The bit length bounds the set, and is the least bound. -/
theorem bitLength_le_iff {bytes : List UInt8} {bits : Nat} :
    bitLength bytes ≤ bits ↔ ∀ index, contains bytes index = true → index < bits := by
  constructor
  · intro hle index hmem
    exact Nat.lt_of_lt_of_le (lt_bitLength_of_contains hmem) hle
  · intro hbound
    by_cases hzero : bitLength bytes = 0
    · omega
    · have := hbound _ (contains_bitLength hzero)
      omega

theorem lt_bitLength_iff {bytes : List UInt8} {bits : Nat} :
    bits < bitLength bytes ↔ ∃ index, bits ≤ index ∧ contains bytes index = true := by
  rw [← Nat.not_le, bitLength_le_iff]
  simp [and_comm]

/-- Nothing behind the highest bit is needed to hold a set, and all in front of it is there. -/
theorem byteCount_bitLength_le (bytes : List UInt8) :
    byteCount (bitLength bytes) ≤ bytes.length := by
  have hbytes : bitLength bytes ≤ 8 * bytes.length :=
    bitLength_le_iff.mpr fun _ hmem => lt_of_contains hmem
  unfold byteCount
  omega

/-- The index is in the set, and none above it is. -/
def IsHighest (bytes : List UInt8) (index : Nat) : Prop :=
  contains bytes index = true ∧ ∀ other, contains bytes other = true → other ≤ index

theorem bitLength_eq_succ_iff {bytes : List UInt8} {index : Nat} :
    bitLength bytes = index + 1 ↔ IsHighest bytes index := by
  constructor
  · intro hlength
    have hhighest : contains bytes (bitLength bytes - 1) = true :=
      contains_bitLength (by omega)
    rw [hlength, Nat.add_sub_cancel] at hhighest
    refine ⟨hhighest, ?_⟩
    intro other hother
    have := lt_bitLength_of_contains hother
    omega
  · rintro ⟨hmem, hbound⟩
    have hle : bitLength bytes ≤ index + 1 :=
      bitLength_le_iff.mpr fun other hother => Nat.lt_succ_of_le (hbound other hother)
    exact Nat.le_antisymm hle (lt_bitLength_of_contains hmem)

/-- The highest bit depends on the set alone. -/
theorem bitLength_congr {left right : List UInt8}
    (hsame : ∀ index, contains left index = contains right index) :
    bitLength left = bitLength right := by
  apply Nat.le_antisymm
  · exact bitLength_le_iff.mpr fun index hmem =>
      lt_bitLength_of_contains ((hsame index).symm.trans hmem)
  · exact bitLength_le_iff.mpr fun index hmem =>
      lt_bitLength_of_contains ((hsame index).trans hmem)

theorem contains_append (left right : List UInt8) (index : Nat) :
    contains (left ++ right) index =
      if index < 8 * left.length then contains left index
      else contains right (index - 8 * left.length) := by
  induction left generalizing index with
  | nil => simp
  | cons byte rest ih =>
      rw [List.cons_append, contains_cons, contains_cons, ih, List.length_cons]
      by_cases hlt : index < 8
      · rw [if_pos hlt, if_pos (by omega), if_pos hlt]
      · rw [if_neg hlt, if_neg hlt, show index - 8 - 8 * rest.length =
          index - 8 * (rest.length + 1) by omega]
        by_cases hleft : index - 8 < 8 * rest.length
        · rw [if_pos hleft, if_pos (by omega)]
        · rw [if_neg hleft, if_neg (by omega)]

theorem contains_take (bytes : List UInt8) (count index : Nat) :
    contains (bytes.take count) index = (decide (index < 8 * count) && contains bytes index) := by
  by_cases hlt : index / 8 < count
  · rw [contains, List.getElem?_take_of_lt hlt, decide_eq_true (by omega), Bool.true_and, contains]
  · rw [contains, List.getElem?_take_eq_none (by omega), decide_eq_false (by omega)]
    rfl

/-- So does what stands in front of it. -/
theorem take_bitLength_congr {left right : List UInt8}
    (hsame : ∀ index, contains left index = contains right index) :
    left.take (byteCount (bitLength left)) = right.take (byteCount (bitLength right)) := by
  have hleft := byteCount_bitLength_le left
  have hright := byteCount_bitLength_le right
  rw [bitLength_congr hsame] at hleft ⊢
  apply ext
  · rw [List.length_take_of_le hleft, List.length_take_of_le hright]
  · intro index _
    rw [contains_take, contains_take, hsame]

@[simp] theorem contains_replicate_zero (count index : Nat) :
    contains (List.replicate count 0) index = false := by
  rw [contains, List.getElem?_replicate]
  split <;> simp

theorem byteCount_mono {fewer more : Nat} (hle : fewer ≤ more) :
    byteCount fewer ≤ byteCount more := by
  unfold byteCount
  omega

/-- Cutting a set behind its highest bit and filling up with zero bytes resizes it. -/
theorem take_append_zeros {bytes : List UInt8} {bits : Nat} (hle : bitLength bytes ≤ bits) :
    bytes.take (byteCount (bitLength bytes)) ++
        List.replicate (byteCount bits - byteCount (bitLength bytes)) 0 =
      resize bytes (byteCount bits) := by
  have hused := byteCount_bitLength_le bytes
  have hmono := byteCount_mono hle
  apply ext
  · simp only [List.length_append, List.length_take, List.length_replicate, length_resize]
    omega
  · intro index hindex
    simp only [List.length_append, List.length_take, List.length_replicate] at hindex
    have hin : index < 8 * byteCount bits := by omega
    rw [contains_append, contains_take, contains_replicate_zero, contains_resize,
      List.length_take, Nat.min_eq_left hused, decide_eq_true hin, Bool.true_and]
    split
    next hlt => rw [decide_eq_true hlt, Bool.true_and]
    next hge =>
      have hcover := le_byteCount (bitLength bytes)
      cases hmem : contains bytes index with
      | false => rfl
      | true =>
          have := lt_bitLength_of_contains hmem
          omega

/-- A list resized to its own length is unchanged. -/
@[simp] theorem resize_length (bytes : List UInt8) : resize bytes bytes.length = bytes := by
  apply ext (by simp)
  intro index hindex
  rw [length_resize] at hindex
  rw [contains_resize, decide_eq_true hindex, Bool.true_and]

end PackedTuple.BitSet
