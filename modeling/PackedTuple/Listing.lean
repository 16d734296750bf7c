import PackedTuple.View.Tuple

/-! # Listings for people

A hex dump has sixteen bytes on a line behind the offset of the first. A chunk
listing has a line for the chunk and one for each column, with the range of
positions where the column lies.
-/

namespace PackedTuple.Listing

/-- Lower-case hexadecimal digits, with zeros in front up to a given number of them. -/
def hex (digits number : Nat) : String :=
  let text := String.ofList (Nat.toDigits 16 number)
  "".pushn '0' (digits - text.length) ++ text

/-- Bytes on one line of a dump. -/
def bytesPerLine : Nat := 16

/-- One line of a dump: offset, then the bytes. -/
def hexLine (offset : Nat) (bytes : List UInt8) : String :=
  hex 4 offset ++ ": " ++ " ".intercalate (bytes.map fun byte => hex 2 byte.toNat)

/-- A dump of all bytes. -/
def hexLines (bytes : Array UInt8) : List String :=
  (List.range ((bytes.size + bytesPerLine - 1) / bytesPerLine)).map fun line =>
    let offset := line * bytesPerLine
    hexLine offset (bytes.extract offset (offset + bytesPerLine)).toList

/-- A text with blanks behind it, up to a given number of characters. -/
def padRight (width : Nat) (text : String) : String :=
  text.pushn ' ' (width - text.length)

/-- Characters reserved for the name of a column. -/
def nameWidth : Nat := 12

/-- One line for a column: its name and where it lies. -/
def columnLine (name : String) (span? : Option Span) : String :=
  let place := match span? with
    | some span => toString span.start ++ ".." ++ toString span.stop
    | none => "null"
  "  " ++ padRight nameWidth name ++ " " ++ place

/-- A chunk and its columns. -/
def chunkLines (chunk : Chunk) : List String :=
  (chunk.role.label ++ " chunk  : base " ++ toString chunk.base ++ " len " ++
    toString chunk.length ++ " varlen " ++ toString chunk.varlenCount) ::
  chunk.columns.toList.zipIdx.map fun (column, index) =>
    columnLine column.name (chunk.columnSpan? index)

end PackedTuple.Listing
