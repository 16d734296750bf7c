import Mathlib.Data.List.Forall2
import PackedTuple.Build.Replay
import PackedTuple.Proofs.Build.Acceptance

/-! # Builders that go on alike

Two builders that stand at the same place are treated alike by every operation,
whatever their transcoders were used for before, and also if their plans differ
in what no operation looks at. How their buffers are related is kept if writes
keep it, which makes one relational lemma for each operation serve several
purposes: buffers that are equal stay equal, buffers of the same bytes stay so
whatever their capacities, a property of one buffer that writes keep holds after
every operation, and with buffers that need not be related at all, what remains
is that bytes never decide where an operation goes.
-/

namespace PackedTuple

/-- A relation between buffers that is kept if the same write is made to both of
them. What is written may depend on what the buffer holds. -/
def Buffer.KeptByWrites (related : Buffer → Buffer → Prop) : Prop :=
  ∀ left right, related left right → ∀ offset (data : Array UInt8 → List UInt8),
    related (left.put offset (data left.bytes)) (right.put offset (data right.bytes))

/-- Buffers that differ in their capacities at most. -/
def Buffer.SameBytes (left right : Buffer) : Prop :=
  left.bytes = right.bytes

namespace Buffer.KeptByWrites

variable {related : Buffer → Buffer → Prop} {left right : Buffer}

theorem put (hkept : KeptByWrites related) (hrelated : related left right) (offset : Nat)
    (data : List UInt8) : related (left.put offset data) (right.put offset data) :=
  hkept left right hrelated offset fun _ => data

theorem putPieces (hkept : KeptByWrites related) (hrelated : related left right) (offset : Nat)
    (pieces : List (List UInt8)) :
    related (left.putPieces offset pieces) (right.putPieces offset pieces) := by
  induction pieces generalizing left right offset with
  | nil => exact hrelated
  | cons piece rest ih => exact ih (hkept.put hrelated offset piece) (offset + piece.length)

end Buffer.KeptByWrites

theorem Buffer.keptByWrites_eq : KeptByWrites (· = ·) := by
  rintro left _ rfl offset data
  rfl

theorem Buffer.keptByWrites_true : KeptByWrites fun _ _ => True :=
  fun _ _ _ _ _ => trivial

/-- The capacity decides nothing about the bytes that a write leaves. -/
theorem Buffer.bytes_put (buffer : Buffer) (offset : Nat) (data : List UInt8) :
    (buffer.put offset data).bytes =
      if data.isEmpty then buffer.bytes
      else overwrite (padTo (offset + data.length) buffer.bytes) offset data := by
  rw [Buffer.put]
  split <;> rfl

theorem Buffer.keptByWrites_sameBytes : KeptByWrites SameBytes := by
  intro left right hsame offset data
  rw [SameBytes] at hsame
  rw [SameBytes, bytes_put, bytes_put, hsame]

/-- Nothing remains of what a transcoder was used for before. -/
theorem Transcoder.transcode_eq (left right : Transcoder) (units : List UInt16) :
    left.transcode units = right.transcode units := by
  have hclear : left.clear = right.clear := by simp [clear]
  rw [transcode, transcode, hclear]

namespace Builder

/-- Builders at the same place with related buffers. -/
structure Alike (related : Buffer → Buffer → Prop) (left right : Builder) : Prop
    extends SamePlace left right where
  buffer : related left.buffer right.buffer

/-- Results that are equal, up to what may differ between the builders. -/
def AlikeResults {α : Type} (related : Buffer → Buffer → Prop) :
    EStateM.Result BuildError Builder α → EStateM.Result BuildError Builder α → Prop
  | .ok value next, .ok other after => value = other ∧ next.Alike related after
  | .error error next, .error other after => error = other ∧ next.Alike related after
  | _, _ => False

/-- Run on builders that are alike, the programs give results that are alike. -/
def Agree {α : Type} (related : Buffer → Buffer → Prop) (program other : BuildM α) : Prop :=
  ∀ left right : Builder, left.Alike related right →
    AlikeResults related (program.run left) (other.run right)

section Agree

variable {related : Buffer → Buffer → Prop} {α β : Type}

theorem Agree.pure (value : α) : Agree related (pure value : BuildM α) (pure value) :=
  fun _ _ halike => ⟨rfl, halike⟩

theorem Agree.raise (error : BuildError) :
    Agree related (throw error : BuildM α) (throw error) :=
  fun _ _ halike => ⟨rfl, halike⟩

theorem Agree.bind {program other : BuildM α} {rest others : α → BuildM β}
    (hfirst : Agree related program other)
    (hrest : ∀ value, Agree related (rest value) (others value)) :
    Agree related (program >>= rest) (other >>= others) := by
  intro left right halike
  have hresults := hfirst left right halike
  rw [EStateM.run_bind, EStateM.run_bind]
  cases hleft : program.run left <;> cases hright : other.run right <;>
    rw [hleft, hright] at hresults
  case ok.ok =>
    obtain ⟨rfl, hnext⟩ := hresults
    exact hrest _ _ _ hnext
  case error.error => exact hresults
  all_goals exact hresults.elim

/-- A change that depends on the builder is compared on builders that are alike only. -/
theorem Agree.get_modify {change other : Builder → Builder → Builder}
    (hchange : ∀ left right : Builder, left.Alike related right →
      (change left left).Alike related (other right right)) :
    Agree related (get >>= fun builder => modify (change builder))
      (get >>= fun builder => modify (other builder)) :=
  fun left right halike => ⟨rfl, hchange left right halike⟩

/-- What a program reads of its builder is the same on both sides. -/
theorem Agree.get {rest others : Builder → BuildM α}
    (hrest : ∀ left right : Builder, left.Alike related right →
      Agree related (rest left) (others right)) :
    Agree related (get >>= rest) (get >>= others) :=
  fun left right halike => hrest left right halike left right halike

theorem Agree.modify {change other : Builder → Builder}
    (hchange : ∀ left right : Builder, left.Alike related right →
      (change left).Alike related (other right)) :
    Agree related (modify change) (modify other) :=
  fun left right halike => ⟨rfl, hchange left right halike⟩

/-- Where buffers need not be related, programs agree that do nothing but write. -/
theorem Agree.of_writes (htotal : ∀ left right, related left right) {program other : BuildM Unit}
    (hprogram : ∀ builder, ∃ buffer, program.run builder =
      .ok () { builder with buffer := buffer })
    (hother : ∀ builder, ∃ buffer, other.run builder = .ok () { builder with buffer := buffer }) :
    Agree related program other := by
  intro left right halike
  obtain ⟨first, hleft⟩ := hprogram left
  obtain ⟨second, hright⟩ := hother right
  rw [hleft, hright]
  exact ⟨rfl, ⟨halike.cursor, halike.appended, halike.complete⟩, htotal first second⟩

theorem Agree.modifyGet {change other : Builder → α × Builder}
    (hchange : ∀ left right : Builder, left.Alike related right →
      (change left).1 = (other right).1 ∧ (change left).2.Alike related (other right).2) :
    Agree related (modifyGet change : BuildM α) (modifyGet other) :=
  hchange

theorem Agree.ite {condition : Prop} [Decidable condition] {first second third fourth : BuildM α}
    (hthen : Agree related first third) (helse : Agree related second fourth) :
    Agree related (if condition then first else second)
      (if condition then third else fourth) := by
  split
  · exact hthen
  · exact helse

/-- An error raised early, on both sides or on neither. -/
theorem Agree.guard {condition : Prop} [Decidable condition] {error : BuildError}
    {rest others : Unit → BuildM α} (hrest : Agree related (rest ()) (others ())) :
    Agree related (if condition then throw error >>= rest else rest ())
      (if condition then throw error >>= others else others ()) :=
  .ite (fun _ _ halike => ⟨rfl, halike⟩) hrest

end Agree

/-- The program does the same on builders that are alike. -/
abbrev Respects {α : Type} (related : Buffer → Buffer → Prop) (program : BuildM α) : Prop :=
  Agree related program program

/-! ## Writing -/

section Write

variable {related : Buffer → Buffer → Prop}

theorem write_respects (hkept : Buffer.KeptByWrites related) (offset : Nat) (data : List UInt8) :
    Respects related (write offset data) := by
  apply Agree.modify
  intro left right halike
  exact ⟨⟨halike.cursor, halike.appended, halike.complete⟩, hkept.put halike.buffer offset data⟩

theorem openChunk_respects (hkept : Buffer.KeptByWrites related) : Respects related openChunk := by
  apply Agree.get
  intro left right halike
  rw [halike.cursor]
  apply Agree.guard
  refine (write_respects hkept _ _).bind fun _ => (write_respects hkept _ _).bind fun _ => ?_
  apply Agree.modify
  intro first second hwritten
  exact ⟨⟨hwritten.cursor, hwritten.appended, hwritten.complete⟩,
    hkept.putPieces hwritten.buffer _ _⟩

/-- Closing a chunk does the same under plans that agree on the hash, which is
taken of what each buffer holds. -/
theorem closeChunk_agree {left right : Plan} (hkept : Buffer.KeptByWrites related)
    (hhash : left.options.hashKey = right.options.hashKey) :
    Agree related (closeChunk left) (closeChunk right) := by
  apply Agree.get
  intro first second halike
  rw [halike.cursor, hhash]
  apply Agree.guard
  apply Agree.guard
  refine (write_respects hkept _ _).bind fun _ => .ite (Agree.get_modify ?_) (.pure ())
  intro third fourth hwritten
  exact ⟨⟨hwritten.cursor, hwritten.appended, hwritten.complete⟩,
    hkept _ _ hwritten.buffer Layout.versionWidth fun bytes =>
      LittleEndian.encode Layout.keyHashWidth (Checksum.crc32 (bytes.extract
        second.cursor.base second.cursor.offset).toList).toNat⟩

/-- The hash of one side only shows in the buffer, if anything. -/
theorem closeChunk_agree_of_total (htotal : ∀ left right, related left right)
    (left right : Plan) : Agree related (closeChunk left) (closeChunk right) := by
  have hkept : Buffer.KeptByWrites related := fun _ _ _ _ _ => htotal _ _
  apply Agree.get
  intro first second halike
  rw [halike.cursor]
  apply Agree.guard
  apply Agree.guard
  refine (write_respects hkept _ _).bind fun _ => .of_writes htotal ?_ ?_
  all_goals
    intro builder
    split
    · exact ⟨_, rfl⟩
    · exact ⟨builder.buffer, rfl⟩

/-- Plans of the same schema and counts, under which closing a chunk comes to the same. What
size is expected of the tuple, and whether it is strict, makes no difference before the end. -/
structure AlikePlans (related : Buffer → Buffer → Prop) (left right : Plan) : Prop where
  schema : left.schema = right.schema
  keyVarlens : left.keyVarlens = right.keyVarlens
  valueVarlens : left.valueVarlens = right.valueVarlens
  closing : Agree related (closeChunk left) (closeChunk right)

theorem AlikePlans.rfl (hkept : Buffer.KeptByWrites related) (plan : Plan) :
    AlikePlans related plan plan :=
  ⟨.refl _, .refl _, .refl _, closeChunk_agree hkept (.refl _)⟩

theorem closeFullChunk_agree {left right : Plan} (hkept : Buffer.KeptByWrites related)
    (hplans : AlikePlans related left right) :
    Agree related (closeFullChunk left) (closeFullChunk right) := by
  apply Agree.get
  intro first second halike
  rw [halike.cursor, halike.complete, halike.appended, hplans.schema, hplans.valueVarlens]
  refine .ite (hplans.closing.bind fun _ => ?_) (.pure ())
  dsimp only
  split
  next next =>
    refine Agree.bind (Agree.modify ?_) fun _ => openChunk_respects hkept
    intro third fourth hclosed
    exact ⟨⟨rfl, hclosed.appended, hclosed.complete⟩, hclosed.buffer⟩
  next =>
    apply Agree.modify
    intro third fourth hclosed
    exact ⟨⟨hclosed.cursor, hclosed.appended, rfl⟩, hclosed.buffer⟩

theorem settle_agree {left right : Plan} (hkept : Buffer.KeptByWrites related)
    (hplans : AlikePlans related left right) : Agree related (settle left) (settle right) :=
  (closeFullChunk_agree hkept hplans).bind fun _ => closeFullChunk_agree hkept hplans

theorem writeEntry_respects (hkept : Buffer.KeptByWrites related) :
    Respects related writeEntry := by
  apply Agree.get
  intro left right halike
  rw [halike.cursor]
  apply Agree.guard
  exact write_respects hkept _ _

theorem writeField_respects (hkept : Buffer.KeptByWrites related) (field : Field) :
    Respects related (writeField field) := by
  cases field with
  | null =>
      apply Agree.modify
      intro left right halike
      refine ⟨⟨halike.cursor, halike.appended, halike.complete⟩, ?_⟩
      rw [setNull, setNull, halike.cursor]
      exact hkept _ _ halike.buffer (right.cursor.nullMapOffset + right.cursor.column / 8)
        fun bytes => [bytes[right.cursor.nullMapOffset + right.cursor.column / 8]?.getD 0 |||
          BitSet.singleByte right.cursor.column]
  | fixed pieces =>
      apply Agree.modify
      intro left right halike
      refine ⟨⟨halike.cursor, halike.appended, halike.complete⟩, ?_⟩
      simp only [halike.cursor]
      exact hkept.putPieces halike.buffer _ _
  | varlen payload =>
      apply Agree.get
      intro left right halike
      rw [halike.cursor]
      exact (write_respects hkept _ _).bind fun _ => writeEntry_respects hkept

theorem place_agree {left right : Plan} (hkept : Buffer.KeptByWrites related)
    (hplans : AlikePlans related left right) (field : Field) :
    Agree related (place left field) (place right field) := by
  refine (writeField_respects hkept field).bind fun _ => Agree.bind (Agree.modify ?_) fun _ =>
    settle_agree hkept hplans
  intro first second halike
  refine ⟨⟨?_, ?_, halike.complete⟩, halike.buffer⟩
  · simp only [halike.cursor]
  · simp only [halike.appended]

/-- Starting does the same in related buffers. -/
theorem begin_agree {left right : Plan} (hkept : Buffer.KeptByWrites related)
    (hplans : AlikePlans related left right) : Agree related (begin left) (begin right) := by
  rw [begin, begin, hplans.schema]
  exact (write_respects hkept _ _).bind fun _ => (write_respects hkept _ _).bind fun _ =>
    (openChunk_respects hkept).bind fun _ => settle_agree hkept hplans

theorem fresh_alike {left right : Plan} {buffer other : Buffer}
    (hplans : AlikePlans related left right) (hrelated : related buffer other) :
    (fresh left buffer).Alike related (fresh right other) := by
  refine ⟨⟨?_, .refl _, .refl _⟩, hrelated⟩
  rw [fresh, fresh, hplans.schema, hplans.keyVarlens]

end Write

/-! ## Accepting -/

section Accept

variable {related : Buffer → Buffer → Prop} {plan : Plan}

theorem nextColumn_respects (plan : Plan) : Respects related (nextColumn plan) := by
  apply Agree.get
  intro left right halike
  rw [halike.cursor, halike.complete]
  apply Agree.guard
  dsimp only
  split
  · exact .pure _
  · exact .raise .complete

theorem checkKind_respects (column : Column) (kind : ValueKind) :
    Respects related (checkKind column kind) :=
  .ite (.pure ()) (.raise _)

theorem checkEntry_respects : Respects related checkEntry := by
  apply Agree.get
  intro left right halike
  rw [halike.cursor]
  exact .ite (.raise _) (.pure ())

/-- Transcoding starts from an empty scratch space on both sides. -/
theorem transcode_respects (column : Column) (units : List UInt16) :
    Respects related (transcode column units) := by
  refine Agree.bind (Agree.modifyGet ?_) fun result => ?_
  · intro left right halike
    have hresult : (left.transcoder.transcode units).1 = (right.transcoder.transcode units).1 := by
      rw [Transcoder.transcode_eq left.transcoder right.transcoder]
    exact ⟨hresult, ⟨halike.cursor, halike.appended, halike.complete⟩, halike.buffer⟩
  · cases result with
    | ok payload => exact .pure payload
    | error failure => exact .raise _

theorem bitmaskField_respects (column : Column) (mask : List UInt8) :
    Respects related (bitmaskField column mask) := by
  unfold bitmaskField
  split
  · exact .ite (.raise _) (.pure _)
  · exact .raise _

theorem acceptScalar_respects (kind : ValueKind) (scalar : Scalar) :
    Respects related (acceptScalar plan kind scalar) :=
  (nextColumn_respects plan).bind fun column => (checkKind_respects column kind).bind fun _ =>
    .pure _

theorem acceptVarlen_respects (kind : ValueKind) {rest : Column → BuildM Field}
    (hrest : ∀ column, Respects related (rest column)) :
    Respects related (do
      let column ← nextColumn plan
      checkKind column kind
      checkEntry
      rest column) :=
  (nextColumn_respects plan).bind fun column => (checkKind_respects column kind).bind fun _ =>
    checkEntry_respects.bind fun _ => hrest column

theorem accept_respects (plan : Plan) (datum : Datum) : Respects related (accept plan datum) := by
  cases datum with
  | null =>
      refine (nextColumn_respects plan).bind fun column => ?_
      exact .ite (.pure _) (.raise _)
  | byte number => exact acceptScalar_respects _ _
  | short number => exact acceptScalar_respects _ _
  | integer number => exact acceptScalar_respects _ _
  | long number => exact acceptScalar_respects _ _
  | float bits => exact acceptScalar_respects _ _
  | double bits => exact acceptScalar_respects _ _
  | uuid number =>
      exact (nextColumn_respects plan).bind fun column =>
        (checkKind_respects column .uuid).bind fun _ => .pure _
  | string text => exact acceptVarlen_respects .string fun _ => .pure _
  | utf16 units =>
      exact acceptVarlen_respects .string fun column =>
        (transcode_respects column units).bind fun _ => .pure _
  | bytes content => exact acceptVarlen_respects .bytes fun _ => .pure _
  | bitmask mask =>
      exact (nextColumn_respects plan).bind fun column =>
        (checkKind_respects column .bitmask).bind fun _ => bitmaskField_respects column mask

/-- Of the plan, accepting looks at the schema only. -/
theorem accept_congr {left right : Plan} (hschema : left.schema = right.schema) (datum : Datum) :
    accept left datum = accept right datum := by
  have hcolumn : nextColumn left = nextColumn right := by
    rw [nextColumn, nextColumn, hschema]
  cases datum <;> simp only [accept, acceptScalar, hcolumn]

end Accept

section Append

variable {related : Buffer → Buffer → Prop} {left right : Plan}

/-- An append does the same on builders that are alike. -/
theorem append_agree (hkept : Buffer.KeptByWrites related) (hplans : AlikePlans related left right)
    (datum : Datum) : Agree related (append left datum) (append right datum) := by
  rw [append, append, accept_congr hplans.schema]
  exact (accept_respects right datum).bind fun field => place_agree hkept hplans field

/-- Data that go alike one by one: those in the same place come to the same on builders that
are alike. -/
abbrev AlikeSteps (related : Buffer → Buffer → Prop) (left right : Plan) :
    List Datum → List Datum → Prop :=
  List.Forall₂ fun datum other => Agree related (append left datum) (append right other)

theorem AlikeSteps.same (hkept : Buffer.KeptByWrites related)
    (hplans : AlikePlans related left right) (data : List Datum) :
    AlikeSteps related left right data data :=
  List.forall₂_same.mpr fun datum _ => append_agree hkept hplans datum

theorem appendAll_agree {data others : List Datum}
    (hsteps : AlikeSteps related left right data others) :
    Agree related (appendAll left data) (appendAll right others) := by
  induction hsteps with
  | nil => exact .pure ()
  | cons hstep _ ih => exact hstep.bind fun _ => ih

end Append

/-! ## Equal buffers -/

theorem SameTuple.alike {left right : Builder} (hsame : left.SameTuple right) :
    left.Alike (· = ·) right :=
  ⟨hsame.toSamePlace, hsame.buffer⟩

theorem Alike.sameTuple {left right : Builder} (halike : left.Alike (· = ·) right) :
    left.SameTuple right :=
  ⟨halike.toSamePlace, halike.buffer⟩

/-- An append that succeeds does so on any builder of the same tuple. -/
theorem append_of_sameTuple {plan : Plan} {datum : Datum} {builder next other : Builder}
    (hsame : other.SameTuple builder) (happend : (append plan datum).run builder = .ok () next) :
    ∃ after, (append plan datum).run other = .ok () after ∧ after.SameTuple next := by
  have hkept := Buffer.keptByWrites_eq
  have hresults := append_agree hkept (.rfl hkept plan) datum other builder hsame.alike
  rw [happend] at hresults
  cases hrun : (append plan datum).run other with
  | ok result after =>
      rw [hrun] at hresults
      exact ⟨after, rfl, hresults.2.sameTuple⟩
  | error error after =>
      rw [hrun] at hresults
      exact hresults.elim

/-! ## Properties of one buffer -/

end Builder

end PackedTuple
