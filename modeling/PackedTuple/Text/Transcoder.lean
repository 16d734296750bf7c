import PackedTuple.Text.Utf16

/-! # Transcoding UTF-16 to UTF-8

A transcoder owns a scratch area that every call reuses. A call clears it,
appends the UTF-8 form of one code point after the other, and hands out its
contents, unless it meets a surrogate outside a pair: then the call fails and
the scratch area is left half filled.
-/

namespace PackedTuple

/-- A surrogate outside a pair, with the index of the unit. -/
structure UnpairedSurrogate where
  position : Nat
  deriving DecidableEq, Repr

/-- The scratch area that successive calls share. -/
structure Transcoder where
  scratch : Array UInt8
  deriving DecidableEq, Repr

namespace Transcoder

def empty : Transcoder :=
  ⟨#[]⟩

/-- Empty the scratch area. -/
def clear (transcoder : Transcoder) : Transcoder :=
  ⟨transcoder.scratch.shrink 0⟩

/-- Append the UTF-8 form of one code point. -/
def push (transcoder : Transcoder) (char : Char) : Transcoder :=
  ⟨transcoder.scratch ++ String.utf8EncodeChar char⟩

/-- Append the code points that the units from index `position` spell, up to the
first surrogate outside a pair. -/
def pushUnits (transcoder : Transcoder) (position : Nat) :
    List UInt16 → Except UnpairedSurrogate Unit × Transcoder
  | [] => (.ok (), transcoder)
  | [unit] =>
      if Utf16.isHighSurrogate unit || Utf16.isLowSurrogate unit then
        (.error ⟨position⟩, transcoder)
      else
        (.ok (), transcoder.push (Utf16.single unit))
  | unit :: next :: rest =>
      if Utf16.isHighSurrogate unit then
        if Utf16.isLowSurrogate next then
          (transcoder.push (Utf16.pair unit next)).pushUnits (position + 2) rest
        else
          (.error ⟨position⟩, transcoder)
      else if Utf16.isLowSurrogate unit then
        (.error ⟨position⟩, transcoder)
      else
        (transcoder.push (Utf16.single unit)).pushUnits (position + 1) (next :: rest)

/-- The UTF-8 form of a whole text, or the first surrogate outside a pair. -/
def transcode (transcoder : Transcoder) (units : List UInt16) :
    Except UnpairedSurrogate (List UInt8) × Transcoder :=
  match transcoder.clear.pushUnits 0 units with
  | (.ok (), filled) => (.ok filled.scratch.toList, filled)
  | (.error failure, filled) => (.error failure, filled)

end Transcoder

end PackedTuple
