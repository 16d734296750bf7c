import PackedTuple.Proofs.View.Framing
import PackedTuple.Proofs.View.RoundTrip

/-! # Tuples end where they say

The bytes of a tuple cannot be cut off or gone on with and still be opened, under
whatever schema: where its blocks end follows from what is stored in them, and a
schema has no say in it. For the same reason two schemas that both open the same
bytes find the same chunks in them.
-/

namespace PackedTuple

/-- The chunks lie at the same place and state the same count, whatever their columns. -/
structure Chunk.SameExtent (left right : Chunk) : Prop where
  base : left.base = right.base
  length : left.length = right.length
  stop : left.stop = right.stop
  varlenCount : left.varlenCount = right.varlenCount

theorem Chunk.SameExtent.of_length {left right : Chunk} (hbase : left.base = right.base)
    (hlength : left.length = right.length) (hcount : left.varlenCount = right.varlenCount) :
    left.SameExtent right :=
  ⟨hbase, hlength, by rw [Chunk.stop, Chunk.stop, hbase, hlength], hcount⟩

namespace Tuple

/-- No schema opens a part of the bytes from the front, or the bytes with more behind them. -/
structure SelfDelimiting (bytes : Array UInt8) : Prop where
  truncated : ∀ (schema : Schema) (size : Nat), size < bytes.size →
    ∃ corruption, read schema (bytes.extract 0 size) = .error corruption
  extended : ∀ (schema : Schema) (more : Array UInt8), more ≠ #[] →
    ∃ corruption, read schema (bytes ++ more) = .error corruption

variable {schema other : Schema} {bytes others : Array UInt8} {tuple again : Tuple}

/-- Bytes that start alike and are opened end together. -/
theorem rest_eq_of_read (hread : read schema bytes = .ok tuple)
    (hagain : read other others = .ok again) {rest more : List UInt8}
    (hsame : bytes.toList ++ rest = others.toList ++ more) : rest = more :=
  ((isLocated_of_read hread).divides_parts.append_inj
    (isLocated_of_read hagain).divides_parts hsame).2

theorem selfDelimiting_of_read (hread : read schema bytes = .ok tuple) :
    SelfDelimiting bytes where
  truncated := by
    intro other size hsize
    cases hagain : read other (bytes.extract 0 size) with
    | error corruption => exact ⟨corruption, rfl⟩
    | ok again =>
        have hsplit : (bytes.extract 0 size).toList ++ bytes.toList.drop size =
            bytes.toList ++ [] := by
          rw [Array.toList_extract, List.extract_eq_take_drop, Nat.sub_zero, List.drop_zero,
            List.take_append_drop, List.append_nil]
        have hempty := rest_eq_of_read hagain hread hsplit
        rw [List.drop_eq_nil_iff, Array.length_toList] at hempty
        exact absurd hsize (Nat.not_lt.mpr hempty)
  extended := by
    intro other more hmore
    cases hagain : read other (bytes ++ more) with
    | error corruption => exact ⟨corruption, rfl⟩
    | ok again =>
        have hsplit : bytes.toList ++ more.toList = (bytes ++ more).toList ++ [] := by
          rw [Array.toList_append, List.append_nil]
        have hempty := rest_eq_of_read hread hagain hsplit
        exact absurd (Array.toList_eq_nil_iff.mp hempty) hmore

/-- Chunks are found where the one division of the bytes has its blocks. -/
theorem sameExtent_of_read (hread : read schema bytes = .ok tuple)
    (hagain : read other bytes = .ok again) (role : ChunkRole) :
    (again.chunk role).SameExtent (tuple.chunk role) := by
  obtain ⟨hparts, _⟩ := (isLocated_of_read hagain).divides_parts.append_inj
    (isLocated_of_read hread).divides_parts (rfl : _ ++ [] = _ ++ [])
  have hreports := (isLocated_of_read hread).reports_parts
  have hreportsAgain := (isLocated_of_read hagain).reports_parts
  rw [hparts] at hreportsAgain
  cases role with
  | key =>
      exact .of_length (hreportsAgain.key_base.trans hreports.key_base.symm)
        (hreportsAgain.key_length.trans hreports.key_length.symm)
        (hreportsAgain.key_count.trans hreports.key_count.symm)
  | value =>
      exact .of_length (hreportsAgain.value_base.trans hreports.value_base.symm)
        (hreportsAgain.value_length.trans hreports.value_length.symm)
        (hreportsAgain.value_count.trans hreports.value_count.symm)

/-- Framing depends on the stored bytes alone: bytes that one schema opens delimit themselves
for all schemas, and all that open them find the same chunks. So do the bytes of every tuple
that was finished. -/
theorem framing_schema_free :
    (∀ schema bytes tuple, read schema bytes = .ok tuple → SelfDelimiting bytes ∧
      ∀ other again, read other bytes = .ok again →
        ∀ role, (again.chunk role).SameExtent (tuple.chunk role)) ∧
    ∀ plan data builder bytes, Builder.Reachable plan data builder →
      Builder.finish plan builder = .ok bytes → SelfDelimiting bytes := by
  constructor
  · intro schema bytes tuple hread
    exact ⟨selfDelimiting_of_read hread, fun other again hagain => sameExtent_of_read hread hagain⟩
  · intro plan data builder bytes hreach hfinish
    obtain ⟨hadmits, hstands⟩ := hreach.stands
    obtain ⟨hlength, _, hbytes⟩ := (Builder.finish_eq_ok_iff hadmits hstands).mp hfinish
    exact selfDelimiting_of_read
      (Plan.read_tuple hbytes ((Plan.admits_iff hlength).mp hadmits).2)

/-- A schema of the version of the customers that has no columns at all. -/
def bare : Schema :=
  ⟨1, .ofList [], .ofList []⟩

/-- Both schemas open the same bytes; and a customer delimits itself. -/
theorem framing_bare :
    (∃ tuple again, read Customers.schema scrambled = .ok tuple ∧ read bare scrambled = .ok again ∧
      SelfDelimiting scrambled ∧ ∀ role, (again.chunk role).SameExtent (tuple.chunk role)) ∧
    SelfDelimiting (Customers.stored true).toArray := by
  constructor
  · obtain ⟨tuple, hread⟩ : ∃ tuple, read Customers.schema scrambled = .ok tuple := ⟨_, rfl⟩
    obtain ⟨again, hagain⟩ : ∃ again, read bare scrambled = .ok again := ⟨_, rfl⟩
    obtain ⟨hdelimiting, hsame⟩ := framing_schema_free.1 _ _ _ hread
    exact ⟨tuple, again, hread, hagain, hdelimiting, hsame bare again hagain⟩
  · obtain ⟨builder, hreach, hfinish⟩ :=
      Builder.exists_reachable_of_buildIn (Customers.build_data ⟨true, true⟩)
    exact framing_schema_free.2 _ _ _ _ hreach hfinish

end Tuple

end PackedTuple
