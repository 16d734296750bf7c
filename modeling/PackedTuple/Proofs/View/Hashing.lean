import PackedTuple.Proofs.Build.Transcripts
import PackedTuple.Proofs.View.RoundTrip

/-! # The key hash

A tuple that is built with key hash is the tuple that its data make without, but
for the hash itself: no operation reads it, and nothing else depends on it. It is
the checksum of the key chunk as it stands in the finished tuple, so it says
nothing of the schema version or of the value chunk.
-/

namespace PackedTuple

/-- The plan with or without key hash, all else alike. -/
def Plan.hashing (plan : Plan) (hashKey : Bool) : Plan :=
  { plan with options := { plan.options with hashKey := hashKey } }

/-- The bytes of a tuple with zeros in place of the key hash. -/
def Tuple.clearHash (bytes : Array UInt8) : Array UInt8 :=
  bytes.mapIdx fun offset byte => if 2 ≤ offset ∧ offset < 6 then 0 else byte

namespace Plan

section Image

variable {plan : Plan} {data : List Datum} {bytes : Array UInt8}

/-- The opened key chunk has the bytes of its draft. -/
theorem content_key (hbytes : bytes.toList = plan.image data)
    (hclosed : (plan.draft data .key).IsClosed) :
    (plan.tuple data bytes).key.content.toList = (plan.draft data .key).image := by
  obtain ⟨before, after, hsplit, hlength⟩ := plan.exists_split hbytes .key
  refine extract_of_toList_eq hsplit hlength ?_
  rw [Draft.image, Draft.length_bytes hclosed.isOpen.entries_le]
  rfl

theorem extract_hash (hbytes : bytes.toList = plan.image data) :
    (bytes.extract 2 6).toList = LittleEndian.encode Layout.keyHashWidth
      (plan.hash (plan.draft data .key).image) :=
  extract_of_toList_eq (hbytes.trans (plan.image_eq_header_append data))
    (LittleEndian.length_encode ..) (by simp [Layout.keyHashWidth])

/-- Clearing the hash of bytes in which it stands behind the version. -/
theorem clearHash_toArray {version hash rest : List UInt8} (hversion : version.length = 2)
    (hhash : hash.length = 4) :
    Tuple.clearHash (version ++ hash ++ rest).toArray =
      (version ++ LittleEndian.encode Layout.keyHashWidth 0 ++ rest).toArray := by
  have hzeros : LittleEndian.encode Layout.keyHashWidth 0 = List.replicate 4 0 := rfl
  apply Array.ext_getElem?
  intro offset
  simp only [Tuple.clearHash, Array.getElem?_mapIdx, List.getElem?_toArray, List.append_assoc,
    List.getElem?_append, hversion, hhash, hzeros, List.length_replicate]
  by_cases hlow : offset < 2
  · -- In the version.
    simp [hlow, Nat.not_le.mpr hlow]
  · by_cases hhigh : offset < 6
    · -- In the hash, each byte of which becomes zero.
      have hinside : offset - 2 < 4 := by omega
      rw [if_neg hlow, if_pos hinside, if_neg hlow, if_pos hinside,
        List.getElem?_eq_getElem (by omega), List.getElem?_replicate_of_lt hinside]
      simp [Nat.not_lt.mp hlow, hhigh]
    · -- Behind it.
      have hbehind : ¬offset - 2 < 4 := by omega
      rw [if_neg hlow, if_neg hbehind, if_neg hlow, if_neg hbehind]
      simp [hhigh]

/-- Without hash the same data make the same bytes, but for the hash. -/
theorem image_hashing (plan : Plan) (data : List Datum) :
    ((plan.hashing false).image data).toArray =
      Tuple.clearHash ((plan.hashing true).image data).toArray := by
  rw [image_eq_header_append, image_eq_header_append]
  exact (clearHash_toArray (LittleEndian.length_encode ..) (LittleEndian.length_encode ..)).symm

theorem length_image_hashing (plan : Plan) (data : List Datum) :
    ((plan.hashing false).image data).length = ((plan.hashing true).image data).length := by
  have hsize := congrArg Array.size (plan.image_hashing data)
  rwa [Tuple.clearHash, Array.size_mapIdx] at hsize

end Image

end Plan

namespace Builder

section Hash

variable {plan : Plan} {data steps : List Datum} {buffer : Buffer} {bytes : Array UInt8}

/-- Finishing after the same data gives the same with the hash and without, but for the hash. -/
theorem finish_hashing {left right : Builder} (hleft : Reachable (plan.hashing false) data left)
    (hright : Reachable (plan.hashing true) data right) :
    finish (plan.hashing false) left =
      (finish (plan.hashing true) right).map Tuple.clearHash := by
  rw [finish_of_reachable hleft, finish_of_reachable hright, plan.length_image_hashing,
    plan.image_hashing, apply_ite (Except.map Tuple.clearHash), apply_ite (Except.map _)]
  rfl

/-- What a finished tuple says of its hash. -/
theorem hash_of_yields (hyields : Yields plan buffer steps bytes) :
    ∃ tuple, Tuple.read plan.schema bytes = .ok tuple ∧
      (bytes.extract 2 6).toList =
        LittleEndian.encode Layout.keyHashWidth (plan.hash tuple.key.content.toList) ∧
      tuple.keyHash = plan.hash tuple.key.content.toList := by
  obtain ⟨data, builder, hreach, hfinish⟩ := hyields.exists_reachable
  obtain ⟨hadmits, hstands⟩ := hreach.stands
  obtain ⟨hlength, -, hbytes⟩ := (finish_eq_ok_iff hadmits hstands).mp hfinish
  have hclosed := ((Plan.admits_iff hlength).mp hadmits).2
  have hcontent := Plan.content_key hbytes (hclosed .key)
  refine ⟨plan.tuple data bytes, Plan.read_tuple hbytes hclosed, ?_, ?_⟩
  · rw [hcontent]
    exact Plan.extract_hash hbytes
  · rw [hcontent]
    exact Plan.keyHash_tuple hbytes

/-- Two plans that differ in the key hash have the same transcript, but for the hash in
the finished bytes. -/
theorem transcript_hashing (plan : Plan) (buffer : Buffer) (steps : List Datum) :
    transcript (plan.hashing false) buffer steps =
      (transcript (plan.hashing true) buffer steps).map
        (Transcript.map (Except.map Tuple.clearHash)) := by
  -- Nothing needs to be known of the buffers until the end.
  have hkept := Buffer.keptByWrites_true
  have hplans : AlikePlans (fun _ _ => True) (plan.hashing false) (plan.hashing true) :=
    ⟨rfl, rfl, rfl, closeChunk_agree_of_total (fun _ _ => trivial) _ _⟩
  have hsessions := session_agree hkept hplans (.same hkept hplans steps) (trivial : True)
    (.refl buffer.written)
  apply transcript_eq_map hsessions
  intro data left right hleft hright _
  exact finish_hashing hleft hright

/-- The hash is the one thing that the choice of a key hash decides: it is zero
without the choice and the checksum of the finished key chunk with it, so key
chunks of the same bytes have the same hash, whatever is around them. -/
theorem hash_is_checksum_of_key (plan : Plan) (buffer : Buffer) (steps : List Datum) :
    transcript (plan.hashing false) buffer steps =
      (transcript (plan.hashing true) buffer steps).map
        (Transcript.map (Except.map Tuple.clearHash)) ∧
    (∀ bytes, Yields (plan.hashing false) buffer steps bytes →
      (bytes.extract 2 6).toList = [0, 0, 0, 0]) ∧
    (∀ bytes, Yields (plan.hashing true) buffer steps bytes →
      ∃ tuple, Tuple.read plan.schema bytes = .ok tuple ∧
        (bytes.extract 2 6).toList =
          LittleEndian.encode 4 (Checksum.crc32 tuple.key.content.toList).toNat ∧
        tuple.hasKeyHash = true) ∧
    ∀ bytes tuple (other : Plan) otherBuffer otherSteps otherBytes otherTuple,
      Yields (plan.hashing true) buffer steps bytes →
      Tuple.read plan.schema bytes = .ok tuple →
      Yields (other.hashing true) otherBuffer otherSteps otherBytes →
      Tuple.read other.schema otherBytes = .ok otherTuple →
      tuple.key.content = otherTuple.key.content → tuple.keyHash = otherTuple.keyHash := by
  refine ⟨transcript_hashing plan buffer steps, ?_, ?_, ?_⟩
  · intro bytes hyields
    obtain ⟨tuple, _, hfield, _⟩ := hash_of_yields hyields
    have hzero : (plan.hashing false).hash tuple.key.content.toList = 0 := rfl
    rw [hfield, hzero]
    rfl
  · intro bytes hyields
    obtain ⟨tuple, hread, hfield, hhash⟩ := hash_of_yields hyields
    exact ⟨tuple, hread, hfield, beq_iff_eq.mpr hhash.symm⟩
  · intro bytes tuple other _ _ otherBytes otherTuple hyields hread hother hotherRead hsame
    obtain ⟨_, hopened, _, hhash⟩ := hash_of_yields hyields
    obtain ⟨_, hotherOpened, _, hotherHash⟩ := hash_of_yields hother
    obtain rfl := Except.ok.inj (hopened.symm.trans hread)
    obtain rfl := Except.ok.inj (hotherOpened.symm.trans hotherRead)
    rw [hhash, hotherHash, hsame]
    rfl

end Hash

end Builder

/-- A later version of the schema of customers, in which nothing but the key is left. -/
def Customers.keyOnly : Plan where
  schema := { version := 2, key := schema.key, value := .ofList [] }
  sizeHint := 0
  keyVarlens := 0
  valueVarlens := 0
  options := .default

/-- The key of the customer, with the hash that it has in front of all their columns. -/
def Customers.storedKey : List UInt8 :=
  [2, 0] ++ ((stored true).drop 2).take 33 ++ [4, 0, 0, 0]

namespace Builder

theorem yields_customer (hashKey : Bool) :
    Yields (Customers.plan.hashing hashKey) (.withCapacity Customers.expectedSize) Customers.data
      (Customers.stored hashKey).toArray :=
  yields_of_buildIn (Customers.build_data ⟨hashKey, true⟩)

theorem yields_customer_key :
    Yields (Customers.keyOnly.hashing true) (.withCapacity 0) (Customers.data.take 2)
      Customers.storedKey.toArray := by
  apply yields_of_buildIn
  apply buildIn_eq_ok_of_toOption
  decide +kernel

theorem customer_keeps_key_hash :
    (((Customers.stored false).toArray.extract 2 6).toList = [0, 0, 0, 0]) ∧
    ∃ tuple keyTuple, Tuple.read Customers.schema (Customers.stored true).toArray = .ok tuple ∧
      tuple.hasKeyHash = true ∧
        Tuple.read Customers.keyOnly.schema Customers.storedKey.toArray = .ok keyTuple ∧
          tuple.keyHash = keyTuple.keyHash := by
  obtain ⟨-, hplain, hhashed, hshared⟩ := hash_is_checksum_of_key Customers.plan
    (.withCapacity Customers.expectedSize) Customers.data
  obtain ⟨-, -, hkeyHashed, -⟩ := hash_is_checksum_of_key Customers.keyOnly
    (.withCapacity 0) (Customers.data.take 2)
  obtain ⟨tuple, (hread : Tuple.read Customers.schema _ = _), -, hhash⟩ :=
    hhashed _ (yields_customer true)
  obtain ⟨keyTuple, hkeyRead, -, -⟩ := hkeyHashed _ yields_customer_key
  have hcontents : (Tuple.read Customers.schema (Customers.stored true).toArray).toOption.map
        (·.key.content) =
      (Tuple.read Customers.keyOnly.schema Customers.storedKey.toArray).toOption.map
        (·.key.content) := by decide +kernel
  rw [hread, hkeyRead] at hcontents
  exact ⟨hplain _ (yields_customer false), tuple, keyTuple, hread, hhash, hkeyRead,
    hshared _ _ _ _ _ _ _ (yields_customer true) hread yields_customer_key hkeyRead
      (Option.some.inj hcontents)⟩

end Builder

end PackedTuple
