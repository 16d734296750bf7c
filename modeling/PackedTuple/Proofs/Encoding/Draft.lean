import PackedTuple.Build.Datum
import PackedTuple.Layout.Cursor
import PackedTuple.Proofs.Bytes.BitSet
import PackedTuple.Proofs.Bytes.Slices

/-! # Chunks being filled

A draft is what is known of a chunk while it is filled: how many columns it has,
how many table entries were reserved, and the fields placed so far. It settles
every byte of the half-written chunk, the part of the table not yet used being
zero, and the cursor that stands behind the last field. Adding a field changes
those bytes at its end and in one place further in front.
-/

namespace PackedTuple

theorem Layout.lt_limit_of_le_fieldMax {number : Nat} (hle : number ≤ fieldMax) :
    number < LittleEndian.limit fieldWidth :=
  Nat.lt_succ_of_le hle

namespace Field

/-- Bytes that fields take together. -/
def totalSize : List Field → Nat
  | [] => 0
  | field :: rest => field.size + totalSize rest

/-- Where the fields with a table entry start, the first field of all lying at `first`. -/
def starts (first : Nat) : List Field → List Nat
  | [] => []
  | field :: rest =>
      if field.isVarlen then first :: starts (first + field.size) rest
      else starts (first + field.size) rest

@[simp] theorem totalSize_nil : totalSize [] = 0 := rfl

@[simp] theorem totalSize_cons (field : Field) (rest : List Field) :
    totalSize (field :: rest) = field.size + totalSize rest := rfl

@[simp] theorem totalSize_append (left right : List Field) :
    totalSize (left ++ right) = totalSize left + totalSize right := by
  induction left with
  | nil => exact (Nat.zero_add _).symm
  | cons field rest ih => rw [List.cons_append, totalSize_cons, totalSize_cons, ih, Nat.add_assoc]

@[simp] theorem length_flatMap_bytes (fields : List Field) :
    (fields.flatMap bytes).length = totalSize fields := by
  induction fields with
  | nil => rfl
  | cons field rest ih => rw [List.flatMap_cons, List.length_append, ih, totalSize_cons, size]

theorem starts_append (first : Nat) (left right : List Field) :
    starts first (left ++ right) = starts first left ++ starts (first + totalSize left) right := by
  induction left generalizing first with
  | nil => rfl
  | cons field rest ih =>
      rw [List.cons_append, starts, starts, ih, totalSize_cons, Nat.add_assoc]
      split <;> rfl

@[simp] theorem length_starts (first : Nat) (fields : List Field) :
    (starts first fields).length = fields.countP isVarlen := by
  induction fields generalizing first with
  | nil => rfl
  | cons field rest ih =>
      rw [starts, List.countP_cons]
      split <;> simp [ih]

/-- Entries point between the first byte of the fields and the last. -/
theorem mem_starts {first start : Nat} {fields : List Field} (hmem : start ∈ starts first fields) :
    first ≤ start ∧ start ≤ first + totalSize fields := by
  induction fields generalizing first with
  | nil => simp [starts] at hmem
  | cons field rest ih =>
      rw [starts] at hmem
      rw [totalSize_cons]
      split at hmem
      next =>
        rcases List.mem_cons.mp hmem with rfl | hrest
        · omega
        · have := ih hrest
          omega
      next =>
        have := ih hmem
        omega

theorem starts_pairwise_le (first : Nat) (fields : List Field) :
    (starts first fields).Pairwise (· ≤ ·) := by
  induction fields generalizing first with
  | nil => exact List.Pairwise.nil
  | cons field rest ih =>
      rw [starts]
      split
      next =>
        refine List.pairwise_cons.mpr ⟨?_, ih _⟩
        intro start hmem
        have := mem_starts hmem
        omega
      next => exact ih _

/-- Fields none of which is of fixed length take no room in front of the first table entry. -/
theorem getD_starts_zero {first : Nat} {fields : List Field}
    (hfields : ∀ field ∈ fields, field.isVarlen = true ∨ field = .null) :
    (starts first fields)[0]?.getD (first + totalSize fields) = first := by
  induction fields generalizing first with
  | nil => rfl
  | cons field rest ih =>
      obtain ⟨hfield, hrest⟩ := List.forall_mem_cons.mp hfields
      rcases hfield with hvarlen | rfl
      · rw [starts, if_pos hvarlen]
        rfl
      · rw [starts, if_neg nofun, totalSize_cons, size_null, Nat.add_zero, Nat.zero_add]
        exact ih hrest

end Field

/-- What is known of a chunk while it is filled. -/
structure Draft where
  /-- How many columns the chunk has. -/
  columnCount : Nat
  /-- How many table entries are reserved. -/
  slots : Nat
  /-- The fields of the columns filled so far. -/
  fields : List Field

namespace Draft

/-- Where the first field lies, from the start of the chunk. -/
def dataStart (draft : Draft) : Nat :=
  Layout.chunkHeaderSize + Layout.tableSize draft.slots + BitSet.byteCount draft.columnCount

/-- Bytes of the chunk so far, all of its header counted. -/
def length (draft : Draft) : Nat :=
  draft.dataStart + Field.totalSize draft.fields

/-- The table entries in use. -/
def starts (draft : Draft) : List Nat :=
  Field.starts draft.dataStart draft.fields

/-- Whether a column was filled with null. -/
def isNull (draft : Draft) (index : Nat) : Bool :=
  draft.fields[index]? == some .null

def nullMap (draft : Draft) : List UInt8 :=
  BitSet.pack draft.columnCount draft.isNull

/-- The whole table, entries not yet in use being zero. -/
def table (draft : Draft) : List UInt8 :=
  draft.starts.flatMap (LittleEndian.encode Layout.fieldWidth) ++
    List.replicate (Layout.tableSize (draft.slots - draft.starts.length)) 0

/-- The bytes of the chunk behind its length. -/
def body (draft : Draft) : List UInt8 :=
  LittleEndian.encode Layout.fieldWidth draft.slots ++ draft.table ++ draft.nullMap ++
    draft.fields.flatMap Field.bytes

/-- The bytes of the chunk with a given number in place of its length. -/
def bytes (draft : Draft) (stamp : Nat) : List UInt8 :=
  LittleEndian.encode Layout.fieldWidth stamp ++ draft.body

/-- The bytes of the chunk as they are once it is closed. -/
def image (draft : Draft) : List UInt8 :=
  draft.bytes draft.length

/-- The cursor behind the last field, the chunk starting at `base`. -/
def cursor (draft : Draft) (role : ChunkRole) (base : Nat) : Cursor where
  role := role
  columnCount := draft.columnCount
  base := base
  slots := draft.slots
  length := draft.length
  column := draft.fields.length
  entry := draft.starts.length

/-- The draft with one more field. -/
def add (draft : Draft) (field : Field) : Draft :=
  { draft with fields := draft.fields ++ [field] }

@[simp] theorem length_nullMap (draft : Draft) :
    draft.nullMap.length = BitSet.byteCount draft.columnCount := by
  simp [nullMap]

theorem length_table {draft : Draft} (hroom : draft.starts.length ≤ draft.slots) :
    draft.table.length = Layout.tableSize draft.slots := by
  rw [table, List.length_append, LittleEndian.length_flatMap_encode, List.length_replicate,
    Layout.tableSize, Layout.tableSize, ← Nat.add_mul, Nat.add_sub_cancel' hroom]

theorem length_starts_le (draft : Draft) : draft.starts.length ≤ draft.fields.length := by
  rw [starts, Field.length_starts]
  exact List.countP_le_length

theorem length_bytes {draft : Draft} (hroom : draft.starts.length ≤ draft.slots) (stamp : Nat) :
    (draft.bytes stamp).length = draft.length := by
  simp only [bytes, body, List.length_append, LittleEndian.length_encode, length_table hroom,
    length_nullMap, Field.length_flatMap_bytes, length, dataStart, Layout.chunkHeaderSize]
  omega

/-- The null map lies behind the table. -/
theorem getElem?_nullMap {draft : Draft} {bytes : Array UInt8} {before after : List UInt8}
    {stamp place : Nat} (hbytes : bytes.toList = before ++ draft.bytes stamp ++ after)
    (hroom : draft.starts.length ≤ draft.slots) (hplace : place < draft.nullMap.length) :
    bytes[before.length + Layout.chunkHeaderSize + Layout.tableSize draft.slots + place]? =
      draft.nullMap[place]? := by
  have hsplit : bytes.toList = (before ++ LittleEndian.encode Layout.fieldWidth stamp ++
      LittleEndian.encode Layout.fieldWidth draft.slots ++ draft.table) ++ draft.nullMap ++
      (draft.fields.flatMap Field.bytes ++ after) := by
    rw [hbytes, Draft.bytes, body]
    simp only [List.append_assoc]
  apply getElem?_of_toList_eq hsplit _ hplace
  simp only [List.length_append, LittleEndian.length_encode, length_table hroom,
    Layout.chunkHeaderSize, Nat.add_assoc]

/-- The number in place of the length is read back. -/
theorem read?_stamp {draft : Draft} {bytes : Array UInt8} {before after : List UInt8}
    {stamp : Nat} (hbytes : bytes.toList = before ++ draft.bytes stamp ++ after)
    (hfits : stamp ≤ Layout.fieldMax) :
    LittleEndian.read? Layout.fieldWidth bytes before.length = some stamp := by
  have hsplit : bytes.toList = before ++ LittleEndian.encode Layout.fieldWidth stamp ++
      (draft.body ++ after) := by
    rw [hbytes, Draft.bytes]
    simp only [List.append_assoc]
  exact LittleEndian.read?_of_toList_eq hsplit rfl (Layout.lt_limit_of_le_fieldMax hfits)

/-! ## Adding a field -/

@[simp] theorem columnCount_add (draft : Draft) (field : Field) :
    (draft.add field).columnCount = draft.columnCount := rfl

@[simp] theorem slots_add (draft : Draft) (field : Field) :
    (draft.add field).slots = draft.slots := rfl

@[simp] theorem dataStart_add (draft : Draft) (field : Field) :
    (draft.add field).dataStart = draft.dataStart := rfl

theorem length_add (draft : Draft) (field : Field) :
    (draft.add field).length = draft.length + field.size := by
  rw [length, length, add, Field.totalSize_append, Field.totalSize_cons, Field.totalSize_nil,
    Nat.add_zero, ← Nat.add_assoc]
  rfl

theorem starts_add (draft : Draft) (field : Field) :
    (draft.add field).starts =
      draft.starts ++ if field.isVarlen then [draft.length] else [] := by
  rw [starts, dataStart_add, add, Field.starts_append]
  rfl

/-- Advancing the cursor is adding the field. -/
theorem cursor_add (draft : Draft) (field : Field) (role : ChunkRole) (base : Nat) :
    (draft.add field).cursor role base =
      (draft.cursor role base).advance field.size field.isVarlen := by
  simp only [cursor, Cursor.advance, length_add, starts_add, columnCount_add, slots_add,
    List.length_append]
  cases field.isVarlen <;> simp [add]

theorem isNull_add (draft : Draft) (field : Field) (index : Nat) :
    (draft.add field).isNull index =
      (draft.isNull index || (decide (index = draft.fields.length) && field == .null)) := by
  rw [isNull, isNull, add, List.getElem?_append]
  split
  next hlt =>
    have hne : decide (index = draft.fields.length) = false := decide_eq_false (by omega)
    rw [hne, Bool.false_and, Bool.or_false]
  next hge =>
    rw [List.getElem?_eq_none (by omega : draft.fields.length ≤ index)]
    by_cases heq : index = draft.fields.length
    · subst heq
      simp
    · have hbeyond : index - draft.fields.length ≥ 1 := by omega
      rw [List.getElem?_eq_none (by simpa using hbeyond)]
      simp [heq]

theorem nullMap_add (draft : Draft) (field : Field) (hfield : field ≠ .null) :
    (draft.add field).nullMap = draft.nullMap := by
  have hnull : (field == .null) = false := beq_eq_false_iff_ne.mpr hfield
  simp only [nullMap, columnCount_add, funext (isNull_add draft field), hnull, Bool.and_false,
    Bool.or_false]

theorem table_add {draft : Draft} {field : Field} (hfield : field.isVarlen = false) :
    (draft.add field).table = draft.table := by
  simp only [table, starts_add, hfield, slots_add, Bool.false_eq_true, if_false, List.append_nil]

theorem fields_add (draft : Draft) (field : Field) :
    (draft.add field).fields.flatMap Field.bytes =
      draft.fields.flatMap Field.bytes ++ field.bytes := by
  simp [add]

/-- A fixed-length field goes behind all that is there. -/
theorem bytes_add_fixed (draft : Draft) (pieces : List (List UInt8)) (stamp : Nat) :
    (draft.add (.fixed pieces)).bytes stamp = draft.bytes stamp ++ pieces.flatten := by
  rw [bytes, bytes, body, body, table_add rfl, nullMap_add draft (.fixed pieces) nofun,
    fields_add, Field.bytes_fixed]
  simp only [List.append_assoc, slots_add]

/-- A null sets its bit in the null map. -/
theorem bytes_add_null {draft : Draft} (hroom : draft.starts.length ≤ draft.slots)
    (hcolumn : draft.fields.length < draft.columnCount) (stamp : Nat) :
    ∃ byte, (draft.bytes stamp)[Layout.chunkHeaderSize + Layout.tableSize draft.slots +
        draft.fields.length / 8]? = some byte ∧
      (draft.add .null).bytes stamp = (draft.bytes stamp).set
        (Layout.chunkHeaderSize + Layout.tableSize draft.slots + draft.fields.length / 8)
        (byte ||| BitSet.singleByte draft.fields.length) := by
  have hcover := BitSet.le_byteCount draft.columnCount
  have hplace : draft.fields.length / 8 < draft.nullMap.length := by
    rw [length_nullMap]
    omega
  have hbyte := List.getElem?_eq_getElem hplace
  have hmap : (draft.add .null).nullMap = draft.nullMap.set (draft.fields.length / 8)
      (draft.nullMap[draft.fields.length / 8] ||| BitSet.singleByte draft.fields.length) := by
    rw [nullMap, funext (isNull_add draft .null)]
    simp only [beq_self_eq_true, Bool.and_true]
    exact (BitSet.set_pack hcolumn hbyte).symm
  -- Everything but the null map is the same before and after.
  have hsplit : ∀ map, LittleEndian.encode Layout.fieldWidth stamp ++
      (LittleEndian.encode Layout.fieldWidth draft.slots ++ draft.table ++ map ++
        draft.fields.flatMap Field.bytes) =
      (LittleEndian.encode Layout.fieldWidth stamp ++
        LittleEndian.encode Layout.fieldWidth draft.slots ++ draft.table) ++
        (map ++ draft.fields.flatMap Field.bytes) := fun map => by
    simp only [List.append_assoc]
  have hfront : (LittleEndian.encode Layout.fieldWidth stamp ++
      LittleEndian.encode Layout.fieldWidth draft.slots ++ draft.table).length =
      Layout.chunkHeaderSize + Layout.tableSize draft.slots := by
    simp only [List.length_append, LittleEndian.length_encode, length_table hroom,
      Layout.chunkHeaderSize]
  refine ⟨draft.nullMap[draft.fields.length / 8], ?_, ?_⟩
  · rw [bytes, body, hsplit, List.getElem?_append_right (by omega), hfront,
      Nat.add_sub_cancel_left, List.getElem?_append_left hplace, hbyte]
  · rw [bytes, bytes, body, body, table_add rfl, hmap, fields_add, Field.bytes_null,
      List.append_nil, slots_add, hsplit, hsplit, List.set_append_right _ _ (by omega), hfront,
      Nat.add_sub_cancel_left, List.set_append_left _ _ hplace]

/-- A variable-length field goes behind all that is there, and its start into the
first table entry that is still zero. -/
theorem bytes_add_varlen {draft : Draft} (hroom : draft.starts.length < draft.slots)
    (payload : List UInt8) (stamp : Nat) :
    ∃ left right, left.length = Layout.chunkHeaderSize + Layout.tableSize draft.starts.length ∧
      draft.bytes stamp ++ payload = left ++ [0, 0] ++ right ∧
      (draft.add (.varlen payload)).bytes stamp =
        left ++ LittleEndian.encode Layout.fieldWidth draft.length ++ right := by
  obtain ⟨unused, hunused⟩ : ∃ unused, draft.slots - draft.starts.length = unused + 1 :=
    ⟨draft.slots - draft.starts.length - 1, by omega⟩
  have hzeros : List.replicate (Layout.tableSize (unused + 1)) (0 : UInt8) =
      [0, 0] ++ List.replicate (Layout.tableSize unused) 0 := by
    rw [Layout.tableSize, Nat.succ_mul, Nat.add_comm, ← List.replicate_append_replicate]
    rfl
  have hrest : draft.slots - (draft.starts.length + 1) = unused := by omega
  -- The zeros that give way are the first two behind the entries in use.
  refine ⟨LittleEndian.encode Layout.fieldWidth stamp ++
      LittleEndian.encode Layout.fieldWidth draft.slots ++
      draft.starts.flatMap (LittleEndian.encode Layout.fieldWidth),
    List.replicate (Layout.tableSize unused) 0 ++ draft.nullMap ++
      draft.fields.flatMap Field.bytes ++ payload, ?_, ?_, ?_⟩
  · simp only [List.length_append, LittleEndian.length_encode, LittleEndian.length_flatMap_encode,
      Layout.chunkHeaderSize, Layout.tableSize]
  · rw [bytes, body, table, hunused, hzeros]
    simp only [List.append_assoc]
  · rw [bytes, body, table, starts_add, nullMap_add draft (.varlen payload) nofun,
      fields_add]
    simp only [Field.isVarlen, if_true, slots_add, List.length_append, List.length_singleton,
      hrest, List.flatMap_append, List.flatMap_singleton, Field.bytes_varlen, List.append_assoc]

/-! ## Positions of columns -/

/-- Where a column lies, from the start of the chunk. -/
def position (draft : Draft) (index : Nat) : Nat :=
  draft.dataStart + Field.totalSize (draft.fields.take index)

/-- How many table entries the columns in front of a column take. -/
def entriesBefore (draft : Draft) (index : Nat) : Nat :=
  (draft.fields.take index).countP Field.isVarlen

section Position

variable {draft : Draft} {index : Nat} {field : Field}

theorem take_succ_fields (hfield : draft.fields[index]? = some field) :
    draft.fields.take (index + 1) = draft.fields.take index ++ [field] := by
  rw [List.take_add_one, hfield]
  rfl

@[simp] theorem position_zero (draft : Draft) : draft.position 0 = draft.dataStart := rfl

theorem position_succ (hfield : draft.fields[index]? = some field) :
    draft.position (index + 1) = draft.position index + field.size := by
  rw [position, position, take_succ_fields hfield, Field.totalSize_append, Field.totalSize_cons,
    Field.totalSize_nil, Nat.add_zero, Nat.add_assoc]

theorem position_length (draft : Draft) : draft.position draft.fields.length = draft.length := by
  rw [position, List.take_length, length]

theorem position_le_length (draft : Draft) (index : Nat) :
    draft.position index ≤ draft.length := by
  have hsplit : Field.totalSize draft.fields = Field.totalSize (draft.fields.take index) +
      Field.totalSize (draft.fields.drop index) := by
    rw [← Field.totalSize_append, List.take_append_drop]
  rw [position, length, hsplit]
  omega

theorem entriesBefore_succ (hfield : draft.fields[index]? = some field) :
    draft.entriesBefore (index + 1) = draft.entriesBefore index + field.isVarlen.toNat := by
  rw [entriesBefore, entriesBefore, take_succ_fields hfield, List.countP_append]
  cases hvarlen : field.isVarlen <;> simp [hvarlen]

theorem starts_split (draft : Draft) (index : Nat) :
    draft.starts = Field.starts draft.dataStart (draft.fields.take index) ++
      Field.starts (draft.position index) (draft.fields.drop index) := by
  rw [position, ← Field.starts_append, List.take_append_drop, starts]

theorem getElem?_starts_entriesBefore (draft : Draft) (index : Nat) :
    draft.starts[draft.entriesBefore index]? =
      (Field.starts (draft.position index) (draft.fields.drop index))[0]? := by
  have hlength : (Field.starts draft.dataStart (draft.fields.take index)).length =
      draft.entriesBefore index := Field.length_starts ..
  rw [draft.starts_split index, List.getElem?_append_right (Nat.le_of_eq hlength), hlength,
    Nat.sub_self]

/-- The entry of a variable-length column is its position. -/
theorem start_of_varlen (hfield : draft.fields[index]? = some field)
    (hvarlen : field.isVarlen = true) :
    draft.starts[draft.entriesBefore index]? = some (draft.position index) := by
  obtain ⟨hindex, hget⟩ := List.getElem?_eq_some_iff.mp hfield
  rw [getElem?_starts_entriesBefore, List.drop_eq_getElem_cons hindex, hget, Field.starts,
    if_pos hvarlen]
  rfl

/-- Where no fixed-length column follows, the next entry, or else the end of the
chunk, is where the columns go on. -/
theorem boundary_of_varlens
    (hrest : ∀ field ∈ draft.fields.drop index, field.isVarlen = true ∨ field = .null) :
    draft.starts[draft.entriesBefore index]?.getD draft.length = draft.position index := by
  have hlength : draft.length = draft.position index +
      Field.totalSize (draft.fields.drop index) := by
    rw [length, position, Nat.add_assoc, ← Field.totalSize_append, List.take_append_drop]
  rw [getElem?_starts_entriesBefore, hlength, Field.getD_starts_zero hrest]

end Position

/-! ## Opening and closing -/

/-- The draft of a chunk that was just opened. -/
def opened (columnCount slots : Nat) : Draft :=
  ⟨columnCount, slots, []⟩

theorem cursor_opened (columnCount slots : Nat) (role : ChunkRole) (base : Nat) :
    (opened columnCount slots).cursor role base =
      .start role base columnCount (BitSet.byteCount columnCount) slots := rfl

/-- An open chunk without fields has a count and zeros behind it. -/
theorem bytes_opened (columnCount slots : Nat) :
    (opened columnCount slots).bytes 0 = LittleEndian.encode Layout.fieldWidth 0 ++
      LittleEndian.encode Layout.fieldWidth slots ++
      List.replicate (Layout.tableSize slots + BitSet.byteCount columnCount) 0 := by
  have hmap : (opened columnCount slots).nullMap =
      List.replicate (BitSet.byteCount columnCount) 0 := by
    apply BitSet.ext (by simp [opened])
    intro index _
    rw [nullMap, BitSet.contains_pack, BitSet.contains_replicate_zero]
    simp [isNull, opened]
  rw [bytes, body, hmap, ← List.replicate_append_replicate]
  simp [table, opened, starts, Field.starts]

/-- The numbers stored so far fit their fields. -/
structure IsOpen (draft : Draft) : Prop where
  slots_le : draft.slots ≤ Layout.fieldMax
  entries_le : draft.starts.length ≤ draft.slots
  starts_le : ∀ start ∈ draft.starts, start ≤ Layout.fieldMax

/-- The table is full and the length fits its field. -/
structure IsClosed (draft : Draft) : Prop where
  entries_eq : draft.starts.length = draft.slots
  length_le : draft.length ≤ Layout.fieldMax

theorem isOpen_opened_iff {columnCount slots : Nat} :
    (opened columnCount slots).IsOpen ↔ slots ≤ Layout.fieldMax :=
  ⟨fun hopen => hopen.slots_le, fun hslots => ⟨hslots, Nat.zero_le _, nofun⟩⟩

theorem start_le_length {draft : Draft} {start : Nat} (hmem : start ∈ draft.starts) :
    start ≤ draft.length :=
  (Field.mem_starts hmem).2

theorem start_le_next {draft : Draft} {entry start next : Nat}
    (hstart : draft.starts[entry]? = some start) (hnext : draft.starts[entry + 1]? = some next) :
    start ≤ next := by
  obtain ⟨hentry, rfl⟩ := List.getElem?_eq_some_iff.mp hstart
  obtain ⟨hsucc, rfl⟩ := List.getElem?_eq_some_iff.mp hnext
  have hpairwise := Field.starts_pairwise_le draft.dataStart draft.fields
  exact List.pairwise_iff_getElem.mp hpairwise entry (entry + 1) hentry hsucc (Nat.lt_succ_self _)

/-- The next entry, or else the end of the chunk, lies behind an entry. -/
theorem le_next_start {draft : Draft} {entry start : Nat}
    (hstart : draft.starts[entry]? = some start) :
    start ≤ draft.starts[entry + 1]?.getD draft.length ∧
      draft.starts[entry + 1]?.getD draft.length ≤ draft.length := by
  cases hnext : draft.starts[entry + 1]? with
  | none => exact ⟨start_le_length (List.mem_of_getElem? hstart), Nat.le_refl _⟩
  | some next =>
      exact ⟨start_le_next hstart hnext, start_le_length (List.mem_of_getElem? hnext)⟩

/-- The length bounds all other numbers in a chunk. -/
theorem IsClosed.isOpen {draft : Draft} (hclosed : draft.IsClosed) : draft.IsOpen where
  slots_le := by
    have hle := hclosed.length_le
    have hslots : draft.slots * 2 = Layout.tableSize draft.slots := rfl
    simp only [length, dataStart] at hle
    omega
  entries_le := Nat.le_of_eq hclosed.entries_eq
  starts_le := fun _ hmem => Nat.le_trans (start_le_length hmem) hclosed.length_le

/-- A field with a table entry needs an unused one that holds its start. -/
theorem isOpen_add_iff {draft : Draft} {field : Field} :
    (draft.add field).IsOpen ↔ draft.IsOpen ∧ (field.isVarlen = true →
      draft.starts.length < draft.slots ∧ draft.length ≤ Layout.fieldMax) := by
  have hstarts := draft.starts_add field
  constructor
  · rintro ⟨hslots, hentries, hle⟩
    rw [hstarts] at hentries hle
    rw [List.length_append] at hentries
    refine ⟨⟨hslots, Nat.le_trans (Nat.le_add_right ..) hentries, fun start hmem =>
      hle start (List.mem_append_left _ hmem)⟩, fun hvarlen => ?_⟩
    rw [if_pos hvarlen] at hentries hle
    exact ⟨hentries, hle _ (List.mem_append_right _ (List.mem_singleton_self _))⟩
  · rintro ⟨⟨hslots, hentries, hle⟩, hroom⟩
    refine ⟨hslots, ?_, ?_⟩
    · rw [hstarts, List.length_append]
      split
      next hvarlen => exact (hroom hvarlen).1
      next => exact hentries
    · intro start hmem
      rw [hstarts] at hmem
      rcases List.mem_append.mp hmem with hold | hnew
      · exact hle start hold
      · split at hnew
        next hvarlen =>
          obtain rfl := List.mem_singleton.mp hnew
          exact (hroom hvarlen).2
        next => contradiction

/-- The bytes of a closed chunk in front of its fields. -/
def head (draft : Draft) : List UInt8 :=
  LittleEndian.encode Layout.fieldWidth draft.length ++
    LittleEndian.encode Layout.fieldWidth draft.slots ++ draft.table ++ draft.nullMap

theorem image_eq_head_append (draft : Draft) :
    draft.image = draft.head ++ draft.fields.flatMap Field.bytes := by
  simp only [image, bytes, body, head, List.append_assoc]

theorem length_head {draft : Draft} (hroom : draft.starts.length ≤ draft.slots) :
    draft.head.length = draft.dataStart := by
  simp only [head, List.length_append, LittleEndian.length_encode, length_table hroom,
    length_nullMap, dataStart, Layout.chunkHeaderSize]

/-- A full table has no unused entries. -/
theorem table_of_full {draft : Draft} (hfull : draft.starts.length = draft.slots) :
    draft.table = draft.starts.flatMap (LittleEndian.encode Layout.fieldWidth) := by
  rw [table, hfull, Nat.sub_self, Layout.tableSize, Nat.zero_mul, List.replicate_zero,
    List.append_nil]

section Image

variable {draft : Draft} {bytes : Array UInt8} {before after : List UInt8}

/-- The count is read back behind the length. -/
theorem read?_slots (hbytes : bytes.toList = before ++ draft.image ++ after)
    (hclosed : draft.IsClosed) :
    LittleEndian.read? Layout.fieldWidth bytes (before.length + Layout.fieldWidth) =
      some draft.slots := by
  have hsplit : bytes.toList = (before ++ LittleEndian.encode Layout.fieldWidth draft.length) ++
      LittleEndian.encode Layout.fieldWidth draft.slots ++ (draft.table ++ draft.nullMap ++
        draft.fields.flatMap Field.bytes ++ after) := by
    rw [hbytes, image, Draft.bytes, body]
    simp only [List.append_assoc]
  apply LittleEndian.read?_of_toList_eq hsplit _
    (Layout.lt_limit_of_le_fieldMax hclosed.isOpen.slots_le)
  rw [List.length_append, LittleEndian.length_encode]

/-- The entries are read back behind the count. -/
theorem read?_start (hbytes : bytes.toList = before ++ draft.image ++ after)
    (hclosed : draft.IsClosed) {entry start : Nat} (hstart : draft.starts[entry]? = some start) :
    LittleEndian.read? Layout.fieldWidth bytes
      (before.length + Layout.chunkHeaderSize + Layout.tableSize entry) = some start := by
  have hsplit : bytes.toList = (before ++ LittleEndian.encode Layout.fieldWidth draft.length ++
      LittleEndian.encode Layout.fieldWidth draft.slots) ++
      draft.starts.flatMap (LittleEndian.encode Layout.fieldWidth) ++
      (draft.nullMap ++ draft.fields.flatMap Field.bytes ++ after) := by
    rw [hbytes, image_eq_head_append, head, table_of_full hclosed.entries_eq]
    simp only [List.append_assoc]
  have hfits := hclosed.isOpen.starts_le _ (List.mem_of_getElem? hstart)
  apply LittleEndian.read?_of_table hsplit hstart _ (Layout.lt_limit_of_le_fieldMax hfits)
  simp only [List.length_append, LittleEndian.length_encode, Layout.chunkHeaderSize,
    Layout.tableSize, Nat.add_assoc]

end Image

end Draft

end PackedTuple
