import PackedTuple.Proofs.Build.Outcome
import PackedTuple.Proofs.Text.Prediction

/-! # Sizes computed beforehand

A tally that was fed the lengths of all variable-length values, in any order,
gives the size of the tuple, but for the fixed-length columns that are null: what
is computed from the columns and the totals is the length of the image, and the
widths of the null columns.
-/

namespace PackedTuple

/-! ## What a tally is fed -/

/-- The length to be fed to a tally for a datum, if it is of variable length. -/
def Datum.announced? : Datum → Option Nat
  | string text => some (utf8Bytes text).length
  | utf16 units => some (Utf16.predictedLength units)
  | bytes content => some content.length
  | _ => none

namespace Image

/-- The lengths to be fed to a tally for some cells. -/
def announced (cells : Cells) : List Nat :=
  cells.filterMap (·.2.announced?)

/-- The lengths to be fed to a tally for the data of a tuple, each for its chunk. -/
def feeds (schema : Schema) (data : List Datum) : List (ChunkRole × Nat) :=
  (announced (cells schema data .key)).map (ChunkRole.key, ·) ++
    (announced (cells schema data .value)).map (ChunkRole.value, ·)

end Image

namespace Datum

section Takes

variable {column : Column} {datum : Datum} (htakes : column.Takes datum)

include htakes

end Takes

end Datum

namespace Image

end Image

namespace Tally

/-- The totals of one chunk. -/
def totals (tally : Tally) : ChunkRole → VarlenTotals
  | .key => tally.key
  | .value => tally.value

/-- The tally that was fed lengths one after the other, each for a chunk. -/
def ofList (feeds : List (ChunkRole × Nat)) : Tally :=
  feeds.foldl (fun tally feed => tally.add feed.1 feed.2) .zero

end Tally

/-! ## The size of a tuple -/

namespace Plan

section Size

variable {plan : Plan} {data : List Datum} {feeds : List (ChunkRole × Nat)}

end Size

end Plan

end PackedTuple
