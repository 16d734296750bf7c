import PackedTuple.Layout.Size

/-! # Build errors

Every reason for which a tuple cannot be built, with the text that reports it.
An error is fatal if it leaves a tuple half written: a chunk that turned out too
large, or one that closed with fewer variable-length values than announced. The
other errors of an append are found before anything is written.
-/

namespace PackedTuple

inductive BuildError where
  /-- The value is not of the type of the next column. -/
  | typeMismatch (column : String) (expected actual : ValueKind)
  /-- The next column takes no nulls. -/
  | nullNotAllowed (column : String)
  /-- The set has an index that the column has no bit for. -/
  | bitmaskOverflow (column : String) (length bits : Nat)
  /-- No column is left. -/
  | complete
  /-- Columns are left. -/
  | incomplete (appended expected : Nat)
  /-- The chunk has more or fewer variable-length values than announced. -/
  | varlenCount (role : ChunkRole) (declared appended : Nat)
  /-- The text has a surrogate outside a pair. -/
  | unpairedSurrogate (column : String) (position : Nat)
  /-- A length, count or offset of the chunk exceeds its field. -/
  | chunkTooLarge (role : ChunkRole) (length : Nat)
  /-- The buffer handed over has been written to. -/
  | bufferNotEmpty (written : Nat)
  /-- The tuple is longer than its size hint, which was to be strict. -/
  | sizeExceeded (written declared : Nat)
  deriving DecidableEq, Repr

namespace BuildError

def message : BuildError → String
  | typeMismatch column expected actual =>
      "failed to set column '" ++ column ++ "' (" ++ actual.label ++
        " was passed, but column is of type " ++ expected.label ++ ")"
  | nullNotAllowed column =>
      s!"failed to set column '{column}' (null was passed, but column is not nullable)"
  | bitmaskOverflow column length bits =>
      s!"failed to set bitmask for column '{column}' (mask size exceeds allocated size) " ++
        s!"[length={length}, maxSize={bits}]"
  | complete => "tuple is complete, no column left to append"
  | incomplete appended expected =>
      s!"tuple is incomplete: {appended} of {expected} columns appended"
  | varlenCount role declared appended =>
      role.label ++ s!" chunk declared {declared} non-null varlen columns, " ++
        s!"but {appended} were appended"
  | unpairedSurrogate column position =>
      s!"failed to encode string for column '{column}' " ++
        s!"(unpaired surrogate at code unit {position})"
  | chunkTooLarge role length => role.label ++ s!" chunk is too large: {length} bytes"
  | bufferNotEmpty written => s!"tuple buffer is not empty: {written} bytes already written"
  | sizeExceeded written declared =>
      s!"tuple size exceeded: {written} bytes written, {declared} declared"

/-- Whether an append that fails so leaves its tuple half written. -/
def isFatal : BuildError → Bool
  | chunkTooLarge _ _ => true
  | varlenCount _ declared appended => appended < declared
  | _ => false

end BuildError

end PackedTuple
