import PackedTuple.Build.Replay
import PackedTuple.Listing

/-! # A worked example

One tuple of a table of customers: sized, built with key hash and strict size,
dumped, and opened again.
-/

namespace PackedTuple.Customers

/-- Customers by number and tenant. -/
def schema : Schema where
  version := 1
  key := .ofList [⟨"id", .long, false⟩, ⟨"tenant", .uuid, false⟩]
  value := .ofList
    [⟨"email", .string, false⟩, ⟨"first_name", .string, false⟩, ⟨"last_name", .string, true⟩,
      ⟨"created_at", .long, false⟩, ⟨"flags", .bitmask 12, false⟩]

/-- The texts of one customer, whose last name is unknown. -/
def email : String := "ada@example.com"

def firstName : String := "Ada"

/-- What is appended, in stored order. -/
def data : List Datum :=
  [.long 1, .uuid 0x0123456789abcdeffedcba9876543210,
    .long 1700000000, .bitmask [5], .string email, .string firstName, .null]

def tally : Tally :=
  (Tally.zero.add .value (utf8Bytes email).length).add .value (utf8Bytes firstName).length

/-- Size of the tuple, computed beforehand. -/
def expectedSize : Nat :=
  tally.tupleSize schema.key schema.value

def plan : Plan where
  schema := schema
  sizeHint := expectedSize
  keyVarlens := tally.key.count
  valueVarlens := tally.value.count
  options := ⟨true, true⟩

/-- The bytes of the finished tuple, with key hash or without. -/
def stored (hashKey : Bool) : List UInt8 :=
  [0x01, 0x00] ++ (if hashKey then [0x56, 0x02, 0x4b, 0xdd] else [0, 0, 0, 0]) ++
  -- key chunk: length, count, null map, number, tenant
  [0x1d, 0x00, 0x00, 0x00, 0x00, 0x01, 0x00, 0x00, 0x00, 0x00, 0x00, 0x00, 0x00,
    0x10, 0x32, 0x54, 0x76, 0x98, 0xba, 0xdc, 0xfe,
    0xef, 0xcd, 0xab, 0x89, 0x67, 0x45, 0x23, 0x01] ++
  -- value chunk: length, count, table, null map, time, flags, texts
  [0x25, 0x00, 0x02, 0x00, 0x13, 0x00, 0x22, 0x00, 0x10,
    0x00, 0xf1, 0x53, 0x65, 0x00, 0x00, 0x00, 0x00, 0x05, 0x00] ++
  utf8Bytes email ++ utf8Bytes firstName

theorem build_data (options : Options) :
    Builder.build { plan with options := options } data = .ok (stored options.hashKey).toArray := by
  apply Builder.buildIn_eq_ok_of_toOption
  rcases options with ⟨_ | _, _ | _⟩ <;> decide +kernel

/-- What there is to say of the finished tuple. -/
def describe (bytes : Array UInt8) (tuple : Tuple) : List String :=
  ("tuple size : " ++ toString bytes.size ++ " bytes (expected " ++ toString expectedSize ++ ")") ::
    Listing.hexLines bytes ++
    ["schema ver : " ++ toString tuple.schemaVersion,
      "key hash   : 0x" ++ Listing.hex 8 tuple.keyHash ++
        " (valid: " ++ toString tuple.hasKeyHash ++ ")"] ++
    Listing.chunkLines tuple.key ++ Listing.chunkLines tuple.value

/-- The lines of the example, or the message of what went wrong. -/
def lines : Except String (List String) := do
  let bytes ← (Builder.build plan data).mapError BuildError.message
  let tuple ← (Tuple.read schema bytes).mapError Corruption.message
  pure (describe bytes tuple)

end PackedTuple.Customers
