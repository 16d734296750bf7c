import PackedTuple.Proofs.View.Confinement
import PackedTuple.Proofs.View.Rebuilding

/-! # What opening a tuple accepts

Bytes can be opened exactly if they divide into a header and two blocks, and they
divide in one way only: a block states its own length, so what follows it cannot
move its end. What opening reports is this division. Bytes that do not divide
fail one of a fixed list of checks, and the first of these is the one reported.
-/

namespace PackedTuple

namespace Framing

/-! ## Blocks -/

/-- The length that a block at the front of some bytes states. -/
def statedLength (bytes : List UInt8) : Nat :=
  LittleEndian.decode (bytes.take Layout.fieldWidth)

/-- The number of table entries that a block at the front of some bytes states. -/
def statedCount (bytes : List UInt8) : Nat :=
  LittleEndian.decode ((bytes.drop Layout.fieldWidth).take Layout.fieldWidth)

section Block

variable {nullMapSize count : Nat} {block : List UInt8}

theorem IsBlock.header_le (hblock : IsBlock nullMapSize count block) :
    Layout.chunkHeaderSize ≤ block.length :=
  Nat.le_trans (Nat.le_trans (Nat.le_add_right ..) (Nat.le_add_right ..)) hblock.holds_header

/-- What a block states of itself can be seen with anything behind it. -/
theorem IsBlock.stated_append (hblock : IsBlock nullMapSize count block) (rest : List UInt8) :
    statedLength (block ++ rest) = block.length ∧ statedCount (block ++ rest) = count := by
  have hheader : Layout.fieldWidth + Layout.fieldWidth ≤ block.length := hblock.header_le
  have hfirst : Layout.fieldWidth ≤ block.length := Nat.le_trans (Nat.le_add_right ..) hheader
  have hsecond : Layout.fieldWidth ≤ (block.drop Layout.fieldWidth).length := by
    rw [List.length_drop]
    exact Nat.le_sub_of_add_le hheader
  constructor
  · rw [statedLength, List.take_append_of_le_length hfirst]
    exact hblock.states_length
  · rw [statedCount, List.drop_append_of_le_length hfirst, List.take_append_of_le_length hsecond]
    exact hblock.states_count

/-- Of two blocks at the front of the same bytes none is longer than the other. -/
theorem IsBlock.append_inj {otherSize otherCount : Nat} {other rest more : List UInt8}
    (hblock : IsBlock nullMapSize count block) (hother : IsBlock otherSize otherCount other)
    (hsame : block ++ rest = other ++ more) :
    block = other ∧ count = otherCount ∧ rest = more := by
  obtain ⟨hlength, hcount⟩ := hblock.stated_append rest
  obtain ⟨hotherLength, hotherCount⟩ := hother.stated_append more
  rw [hsame] at hlength hcount
  obtain ⟨hblocks, hrests⟩ := List.append_inj hsame (hlength.symm.trans hotherLength)
  exact ⟨hblocks, hcount.symm.trans hotherCount, hrests⟩

end Block

/-! ## Tuples -/

/-- A way to divide bytes into a header and two blocks. -/
@[ext] structure Parts where
  header : List UInt8
  key : List UInt8
  value : List UInt8
  keyCount : Nat
  valueCount : Nat

/-- Bytes of a tuple of the schema, divided. -/
def Divides (schema : Schema) (bytes : List UInt8) (parts : Parts) : Prop :=
  IsTuple schema.version.toNat schema.key.nullMapSize schema.value.nullMapSize bytes
    parts.header parts.key parts.value parts.keyCount parts.valueCount

/-- Bytes that start alike and divide, be it under different schemas, divide alike,
and nothing is left behind the one that is not left behind the other. -/
theorem Divides.append_inj {schema other : Schema} {bytes others rest more : List UInt8}
    {parts otherParts : Parts} (hdivides : Divides schema bytes parts)
    (hother : Divides other others otherParts) (hsame : bytes ++ rest = others ++ more) :
    parts = otherParts ∧ rest = more := by
  rw [hdivides.split, hother.split] at hsame
  simp only [List.append_assoc] at hsame
  obtain ⟨hheader, hblocks⟩ := List.append_inj hsame
    (hdivides.header_length.trans hother.header_length.symm)
  obtain ⟨hkey, hkeyCount, hvalues⟩ := hdivides.key_block.append_inj hother.key_block hblocks
  obtain ⟨hvalue, hvalueCount, hrest⟩ := hdivides.value_block.append_inj hother.value_block hvalues
  exact ⟨Parts.ext hheader hkey hvalue hkeyCount hvalueCount, hrest⟩

/-! ## Checks in order -/

/-- Whether a condition holds, and the text that reports that it does not. -/
abbrev Check := Bool × String

/-- The text of the first condition that does not hold. -/
def firstFault (checks : List Check) : Option String :=
  (checks.find? fun check => !check.1).map Prod.snd

/-- What is asked of the bytes from the start of a block on. -/
def blockChecks (nullMapSize : Nat) (bytes : List UInt8) : List Check :=
  [(decide (4 ≤ bytes.length), "truncated chunk header"),
    (decide (4 + 2 * statedCount bytes + nullMapSize ≤ statedLength bytes),
      "chunk shorter than its header"),
    (decide (statedLength bytes ≤ bytes.length), "chunk extends past end of tuple")]

/-- What is asked of the bytes behind the header: of the key block, and then of the value block,
which starts where the key block says that it ends. -/
def bodyChecks (schema : Schema) (key : List UInt8) : List Check :=
  let value := key.drop (statedLength key)
  blockChecks schema.key.nullMapSize key ++ (blockChecks schema.value.nullMapSize value ++
    [(decide (statedLength value = value.length), "trailing bytes after value chunk")])

/-- What is asked of the bytes of a tuple, in order. -/
def checks (schema : Schema) (bytes : List UInt8) : List Check :=
  (decide (6 ≤ bytes.length), "truncated tuple header") ::
    (decide (LittleEndian.decode (bytes.take 2) = schema.version.toNat),
      "schema version mismatch") ::
    bodyChecks schema (bytes.drop 6)

@[simp] theorem firstFault_nil : firstFault [] = none := rfl

@[simp] theorem firstFault_cons (condition : Prop) [Decidable condition] (text : String)
    (rest : List Check) :
    firstFault ((decide condition, text) :: rest) =
      if condition then firstFault rest else some text := by
  by_cases hholds : condition <;> simp [firstFault, hholds]

theorem firstFault_append (left right : List Check) :
    firstFault (left ++ right) = (firstFault left).or (firstFault right) := by
  rw [firstFault, firstFault, firstFault, List.find?_append]
  cases left.find? fun check => !check.1 <;> rfl

/-- A block passes all checks, whatever is behind it. -/
theorem IsBlock.firstFault_eq {nullMapSize count : Nat} {block : List UInt8}
    (hblock : IsBlock nullMapSize count block) (rest : List UInt8) :
    firstFault (blockChecks nullMapSize (block ++ rest)) = none := by
  obtain ⟨hlength, hcount⟩ := hblock.stated_append rest
  have hheader : 4 ≤ block.length := hblock.header_le
  have hholds : 4 + 2 * count + nullMapSize ≤ block.length := by
    rw [Nat.mul_comm]
    exact hblock.holds_header
  have hinside : block.length ≤ (block ++ rest).length := by
    rw [List.length_append]
    exact Nat.le_add_right ..
  simp only [blockChecks, hlength, hcount, firstFault_cons, firstFault_nil,
    Nat.le_trans hheader hinside, hholds, hinside, if_true]

/-- Bytes that divide pass all checks. -/
theorem Divides.firstFault_eq {schema : Schema} {bytes : List UInt8} {parts : Parts}
    (hdivides : Divides schema bytes parts) : firstFault (checks schema bytes) = none := by
  have hheader : parts.header.length = 6 := hdivides.header_length
  have hbytes : bytes = parts.header ++ (parts.key ++ parts.value) := by
    rw [hdivides.split, List.append_assoc]
  have hlength : 6 ≤ bytes.length := by
    rw [hbytes, List.length_append, hheader]
    exact Nat.le_add_right ..
  have hversion : LittleEndian.decode (bytes.take 2) = schema.version.toNat := by
    rw [hbytes, List.take_append_of_le_length (by omega)]
    exact hdivides.states_version
  have hkey : bytes.drop 6 = parts.key ++ parts.value := by
    rw [hbytes, ← hheader, List.drop_left]
  have hvalue : (parts.key ++ parts.value).drop (statedLength (parts.key ++ parts.value)) =
      parts.value := by
    rw [(hdivides.key_block.stated_append parts.value).1, List.drop_left]
  have hkeyFault := hdivides.key_block.firstFault_eq parts.value
  have hvalueFault := hdivides.value_block.firstFault_eq []
  have hstop := (hdivides.value_block.stated_append []).1
  rw [List.append_nil] at hvalueFault hstop
  simp only [checks, bodyChecks, firstFault_append, hkey, hvalue, hkeyFault, hvalueFault,
    firstFault_cons, firstFault_nil, hlength, hversion, hstop, if_true, Option.or_none]

end Framing

/-! ## Opened tuples divide -/

theorem Framing.statedLength_encode {number : Nat}
    (hfits : number < LittleEndian.limit Layout.fieldWidth) (rest : List UInt8) :
    statedLength (LittleEndian.encode Layout.fieldWidth number ++ rest) = number := by
  rw [statedLength, List.take_left' (LittleEndian.length_encode ..),
    LittleEndian.decode_encode hfits]

theorem Framing.statedCount_encode {number : Nat}
    (hfits : number < LittleEndian.limit Layout.fieldWidth) (length : Nat) (rest : List UInt8) :
    statedCount (LittleEndian.encode Layout.fieldWidth length ++
      (LittleEndian.encode Layout.fieldWidth number ++ rest)) = number := by
  rw [statedCount, List.drop_left' (LittleEndian.length_encode ..)]
  exact statedLength_encode hfits rest

namespace Chunk

variable {chunk : Chunk}

theorem IsLocated.length_content (hlocated : chunk.IsLocated) :
    chunk.content.toList.length = chunk.length := by
  rw [Array.length_toList, content, Array.size_extract, Nat.min_eq_left hlocated.stop_le]
  exact Nat.add_sub_cancel_left ..

/-- The bytes of an opened chunk are a block. -/
theorem IsLocated.isBlock (hlocated : chunk.IsLocated) :
    Framing.IsBlock chunk.columns.nullMapSize chunk.varlenCount chunk.content.toList where
  states_length := by
    have hcontent := hlocated.content_eq
    simp only [List.append_assoc] at hcontent
    change Framing.statedLength _ = _
    rw [hlocated.length_content, hcontent]
    exact Framing.statedLength_encode (LittleEndian.lt_of_read? hlocated.length_read) _
  states_count := by
    have hcontent := hlocated.content_eq
    simp only [List.append_assoc] at hcontent
    change Framing.statedCount _ = _
    rw [hcontent]
    exact Framing.statedCount_encode (LittleEndian.lt_of_read? hlocated.count_read) _ _
  holds_header := by
    have hheader := hlocated.header_le
    simp only [dataOffset, nullMapOffset, tableOffset, stop] at hheader
    rw [hlocated.length_content]
    omega

end Chunk

/-- The division that an opened tuple reports. -/
def Tuple.parts (tuple : Tuple) : Framing.Parts where
  header := (tuple.bytes.extract 0 Layout.headerSize).toList
  key := tuple.key.content.toList
  value := tuple.value.content.toList
  keyCount := tuple.key.varlenCount
  valueCount := tuple.value.varlenCount

/-- The opened chunks stand where a division has its blocks, and state what they state. -/
structure Framing.Parts.ReportedBy (parts : Framing.Parts) (tuple : Tuple) : Prop where
  key_base : tuple.key.base = 6
  key_length : tuple.key.length = parts.key.length
  key_count : tuple.key.varlenCount = parts.keyCount
  value_base : tuple.value.base = 6 + parts.key.length
  value_length : tuple.value.length = parts.value.length
  value_count : tuple.value.varlenCount = parts.valueCount

namespace Tuple

section Located

variable {schema : Schema} {bytes : Array UInt8} {tuple : Tuple}

theorem IsLocated.reports_parts (hlocated : tuple.IsLocated schema bytes) :
    tuple.parts.ReportedBy tuple where
  key_base := hlocated.key_base
  key_length := hlocated.key.length_content.symm
  key_count := rfl
  value_base := by
    rw [hlocated.value_base, Chunk.stop, hlocated.key_base]
    exact congrArg (6 + ·) hlocated.key.length_content.symm
  value_length := hlocated.value.length_content.symm
  value_count := rfl

theorem IsLocated.divides_parts (hlocated : tuple.IsLocated schema bytes) :
    Framing.Divides schema bytes.toList tuple.parts where
  split := by
    rw [parts, hlocated.bytes_eq]
    exact hlocated.toList_eq
  header_length := by
    rw [parts, hlocated.bytes_eq, Array.length_toList, Array.size_extract,
      Nat.min_eq_left hlocated.size]
    rfl
  states_version := by
    have hversion := hlocated.version
    have hsize : Layout.versionWidth ≤ bytes.size :=
      Nat.le_trans (Nat.le_add_right ..) hlocated.size
    rw [LittleEndian.read?_eq_decode (by rwa [Nat.zero_add]), List.drop_zero] at hversion
    have hheader : tuple.parts.header = bytes.toList.take Layout.headerSize := by
      rw [parts, hlocated.bytes_eq, Array.toList_extract, List.extract_eq_take_drop]
      rfl
    rw [hheader, List.take_take]
    exact Option.some.inj hversion
  key_block := by
    have hblock := hlocated.key.isBlock
    have hcolumns : tuple.key.columns = schema.key := hlocated.columns .key
    rwa [hcolumns] at hblock
  value_block := by
    have hblock := hlocated.value.isBlock
    have hcolumns : tuple.value.columns = schema.value := hlocated.columns .value
    rwa [hcolumns] at hblock

/-- There is one division of the bytes of a tuple, and opening reports it. -/
theorem reports_of_divides (hread : read schema bytes = .ok tuple) {parts : Framing.Parts}
    (hdivides : Framing.Divides schema bytes.toList parts) : parts.ReportedBy tuple := by
  have hlocated := isLocated_of_read hread
  obtain ⟨rfl, _⟩ := hdivides.append_inj hlocated.divides_parts (rfl : _ ++ [] = _ ++ [])
  exact hlocated.reports_parts

end Located

end Tuple

/-! ## The reported check -/

/-- The text that is reported, if anything is wrong. -/
def Corruption.fault? {α : Type} : Except Corruption α → Option String
  | .ok _ => none
  | .error corruption => some corruption.reason

theorem Corruption.reason_inj {left right : Corruption} :
    left.reason = right.reason ↔ left = right := by
  cases left <;> cases right <;> simp [reason]

theorem Corruption.fault?_eq_some_iff {α : Type} {result : Except Corruption α}
    {corruption : Corruption} :
    fault? result = some corruption.reason ↔ result = .error corruption := by
  cases result with
  | ok value => simp [fault?]
  | error other => simp [fault?, reason_inj]

theorem Corruption.exists_of_fault?_eq_none {α : Type} {result : Except Corruption α}
    (hnone : fault? result = none) : ∃ value, result = .ok value := by
  cases result with
  | ok value => exact ⟨value, rfl⟩
  | error corruption => contradiction

namespace Chunk

variable {bytes : Array UInt8} {base : Nat} {role : ChunkRole} {columns : Columns} {chunk : Chunk}

theorem read_of_truncated (hsize : bytes.size < base + 4) :
    read bytes base role columns = .error .truncatedChunk := by
  have hnone : LittleEndian.read? Layout.fieldWidth bytes (base + Layout.fieldWidth) = none :=
    if_neg (Nat.not_le.mpr hsize)
  rw [read, hnone]
  cases LittleEndian.read? Layout.fieldWidth bytes base <;> rfl

theorem read_of_header (hsize : base + 4 ≤ bytes.size) :
    read bytes base role columns =
      if Framing.statedLength (bytes.toList.drop base) <
          4 + Layout.tableSize (Framing.statedCount (bytes.toList.drop base)) +
            columns.nullMapSize then
        .error .chunkTooShort
      else if bytes.size < base + Framing.statedLength (bytes.toList.drop base) then
        .error .chunkPastEnd
      else
        .ok ⟨bytes, columns, role, base, Framing.statedLength (bytes.toList.drop base),
          Framing.statedCount (bytes.toList.drop base)⟩ := by
  have hcount : base + Layout.fieldWidth + Layout.fieldWidth ≤ bytes.size := hsize
  have hlength : base + Layout.fieldWidth ≤ bytes.size :=
    Nat.le_trans (Nat.le_add_right ..) hcount
  rw [read, LittleEndian.read?_eq_decode hlength, LittleEndian.read?_eq_decode hcount,
    ← List.drop_drop]
  rfl

/-- Locating a chunk reports the first check of its block that fails. -/
theorem fault?_read (hbase : base ≤ bytes.size) :
    Corruption.fault? (read bytes base role columns) =
      Framing.firstFault (Framing.blockChecks columns.nullMapSize (bytes.toList.drop base)) := by
  have hlength : (bytes.toList.drop base).length = bytes.size - base := by
    rw [List.length_drop, Array.length_toList]
  simp only [Framing.blockChecks, Framing.firstFault_cons, Framing.firstFault_nil, hlength]
  by_cases hheader : base + 4 ≤ bytes.size
  · rw [read_of_header hheader, if_pos (by omega : 4 ≤ bytes.size - base), Layout.tableSize,
      Layout.fieldWidth, Nat.mul_comm _ 2]
    split
    next hshort => rw [if_neg (Nat.not_le.mpr hshort)]; rfl
    next hholds =>
      rw [if_pos (Nat.not_lt.mp hholds)]
      split
      next hbeyond => rw [if_neg (by omega)]; rfl
      next hinside => rw [if_pos (by omega)]; rfl
  · rw [read_of_truncated (Nat.not_le.mp hheader),
      if_neg (by omega : ¬4 ≤ bytes.size - base)]
    rfl

theorem length_of_read (hread : read bytes base role columns = .ok chunk) :
    chunk.length = Framing.statedLength (bytes.toList.drop base) := by
  obtain ⟨hlocated, hbytes, hbase, _⟩ := read_eq_ok hread
  have hlength := hlocated.length_read
  rw [hbytes, hbase] at hlength
  have hinside := LittleEndian.isSome_read?.mp (Option.isSome_of_eq_some hlength)
  rw [LittleEndian.read?_eq_decode hinside] at hlength
  exact (Option.some.inj hlength).symm

end Chunk

namespace Tuple

variable {schema : Schema} {bytes : Array UInt8}

/-- What is reported of the blocks and of what is behind them. -/
theorem fault?_chunks (hsize : Layout.headerSize ≤ bytes.size) :
    Corruption.fault? (do
      let key ← Chunk.read bytes Layout.headerSize .key schema.key
      let value ← Chunk.read bytes key.stop .value schema.value
      if value.stop ≠ bytes.size then .error .trailingBytes
      else .ok (⟨bytes, key, value⟩ : Tuple)) =
    Framing.firstFault (Framing.bodyChecks schema (bytes.toList.drop Layout.headerSize)) := by
  have hkeyFault := @Chunk.fault?_read bytes _ .key schema.key hsize
  simp only [Framing.bodyChecks, Framing.firstFault_append, ← hkeyFault]
  cases hkey : Chunk.read bytes Layout.headerSize .key schema.key with
  | error corruption => rfl
  | ok key =>
      obtain ⟨hlocated, hbytes, hbase, _⟩ := Chunk.read_eq_ok hkey
      have hstop : key.stop ≤ bytes.size := hbytes ▸ hlocated.stop_le
      have hrest : (bytes.toList.drop Layout.headerSize).drop
          (Framing.statedLength (bytes.toList.drop Layout.headerSize)) =
          bytes.toList.drop key.stop := by
        rw [← Chunk.length_of_read hkey, List.drop_drop, Chunk.stop, hbase]
      have hvalueFault := @Chunk.fault?_read bytes _ .value schema.value hstop
      rw [hrest, ← hvalueFault]
      cases hvalue : Chunk.read bytes key.stop .value schema.value with
      | error corruption => simp [bind, Except.bind, hvalue, Corruption.fault?]
      | ok value =>
          obtain ⟨_, _, hvalueBase, _⟩ := Chunk.read_eq_ok hvalue
          have hends : value.stop = bytes.size ↔
              value.length = (bytes.toList.drop key.stop).length := by
            rw [List.length_drop, Array.length_toList, Chunk.stop, hvalueBase]
            omega
          rw [← Chunk.length_of_read hvalue, Framing.firstFault_cons]
          by_cases hstop : value.stop = bytes.size
          · rw [if_pos (hends.mp hstop)]
            simp [bind, Except.bind, hvalue, hstop, Corruption.fault?]
          · rw [if_neg (mt hends.mpr hstop)]
            simp [bind, Except.bind, hvalue, hstop, Corruption.fault?, Corruption.reason]

/-- Opening reports the first check that fails. -/
theorem fault?_read (schema : Schema) (bytes : Array UInt8) :
    Corruption.fault? (read schema bytes) =
      Framing.firstFault (Framing.checks schema bytes.toList) := by
  rw [read, Framing.checks, Framing.firstFault_cons, Framing.firstFault_cons]
  by_cases hsize : bytes.size < Layout.headerSize
  · have hshort : ¬6 ≤ bytes.toList.length := Nat.not_le.mpr hsize
    rw [if_pos hsize, if_neg hshort]
    rfl
  · have hheader : Layout.headerSize ≤ bytes.size := Nat.not_lt.mp hsize
    have hversion : LittleEndian.read? Layout.versionWidth bytes 0 =
        some (LittleEndian.decode (bytes.toList.take 2)) :=
      LittleEndian.read?_eq_decode (Nat.le_trans (by decide) hheader)
    have hlong : 6 ≤ bytes.toList.length := hheader
    rw [if_neg hsize, if_pos hlong]
    simp only [hversion, ne_eq, Option.some.injEq]
    by_cases hstated : LittleEndian.decode (bytes.toList.take 2) = schema.version.toNat
    · rw [if_neg (not_not_intro hstated), if_pos hstated]
      exact fault?_chunks hheader
    · rw [if_pos hstated, if_neg hstated]
      rfl

/-- Bytes can be opened under a schema exactly if they divide into a header with its version
and two blocks. There is only one such division, and opening reports it; where there is none,
it reports the first check that the bytes fail. -/
theorem opens_exactly_divided (schema : Schema) (bytes : Array UInt8) :
    ((∃ tuple, read schema bytes = .ok tuple) ↔
      ∃ parts, Framing.Divides schema bytes.toList parts) ∧
    (∀ parts, Framing.Divides schema bytes.toList parts →
      (∀ other, Framing.Divides schema bytes.toList other → other = parts) ∧
        ∀ tuple, read schema bytes = .ok tuple → parts.ReportedBy tuple) ∧
    ∀ corruption, read schema bytes = .error corruption ↔
      Framing.firstFault (Framing.checks schema bytes.toList) = some corruption.reason := by
  refine ⟨⟨?_, ?_⟩, ?_, ?_⟩
  · rintro ⟨tuple, hread⟩
    exact ⟨tuple.parts, (isLocated_of_read hread).divides_parts⟩
  · rintro ⟨parts, hdivides⟩
    apply Corruption.exists_of_fault?_eq_none
    rw [fault?_read, hdivides.firstFault_eq]
  · intro parts hdivides
    constructor
    · intro other hother
      exact (hother.append_inj hdivides (rfl : _ ++ [] = _ ++ [])).1
    · intro tuple hread
      exact reports_of_divides hread hdivides
  · intro corruption
    rw [← fault?_read, Corruption.fault?_eq_some_iff]

/-- Where nulls are not allowed and table entries are out of order, bytes divide all the same. -/
theorem scrambled_divided :
    ∃ tuple, read Customers.schema scrambled = .ok tuple ∧
      Framing.Parts.ReportedBy ⟨[1, 0, 9, 9, 9, 9], [5, 0, 0, 0, 0xff],
        [12, 0, 2, 0, 7, 0, 1, 0, 0x01, 0xaa, 0xbb, 0xcc], 0, 2⟩ tuple := by
  have hdivides : Framing.Divides Customers.schema scrambled.toList
      ⟨[1, 0, 9, 9, 9, 9], [5, 0, 0, 0, 0xff],
        [12, 0, 2, 0, 7, 0, 1, 0, 0x01, 0xaa, 0xbb, 0xcc], 0, 2⟩ :=
    ⟨rfl, rfl, rfl, ⟨rfl, rfl, by decide⟩, ⟨rfl, rfl, by decide⟩⟩
  obtain ⟨hopens, hparts, _⟩ := opens_exactly_divided Customers.schema scrambled
  obtain ⟨tuple, hread⟩ := hopens.mpr ⟨_, hdivides⟩
  exact ⟨tuple, hread, (hparts _ hdivides).2 tuple hread⟩

/-- A wrong version is reported before a key chunk that is cut off. -/
example : Framing.firstFault (Framing.checks Customers.schema [2, 0, 0, 0, 0, 0, 9]) =
    some "schema version mismatch" := by
  decide

end Tuple

end PackedTuple
