import PackedTuple.Buffer.Basic
import PackedTuple.Text.Transcoder

/-! # Texts and histories of writes

Text is written as UTF-8. Both writers return how many bytes they wrote. With them, a
buffer is what a sequence of writes of all kinds makes of it.
-/

namespace PackedTuple

namespace Buffer

/-- Write a string. -/
def putString (buffer : Buffer) (offset : Nat) (text : String) : Nat × Buffer :=
  let data := utf8Bytes text
  (data.length, buffer.put offset data)

/-- Write a text given in UTF-16, or nothing if it has a surrogate outside a pair. -/
def putUtf16 (buffer : Buffer) (offset : Nat) (units : List UInt16) (transcoder : Transcoder) :
    Except UnpairedSurrogate Nat × Buffer × Transcoder :=
  match transcoder.transcode units with
  | (.ok data, transcoder) => (.ok data.length, buffer.put offset data, transcoder)
  | (.error failure, transcoder) => (.error failure, buffer, transcoder)

end Buffer

/-! ## Histories

The sequence of writes itself says what to expect: each byte comes from the last write
that covers it, and the written part ends where the furthest write ends. Writes of no
bytes, and texts that cannot be encoded, count for nothing.
-/

/-- One write, of any of the kinds that a buffer offers. -/
inductive Write where
  | bytes (offset : Nat) (data : List UInt8)
  | scalar (offset : Nat) (number : Scalar)
  | string (offset : Nat) (text : String)
  | utf16 (offset : Nat) (units : List UInt16)
  deriving DecidableEq, Repr

namespace Write

/-- Where the write starts. -/
def offset : Write → Nat
  | bytes offset _ => offset
  | scalar offset _ => offset
  | string offset _ => offset
  | utf16 offset _ => offset

/-- The bytes that the write brings. -/
def data : Write → List UInt8
  | bytes _ data => data
  | scalar _ number => number.toBytes
  | string _ text => utf8Bytes text
  | utf16 _ units => ((Utf16.toString? units).map utf8Bytes).getD []

/-- The byte that the write brings for an index. -/
def byteAt? (write : Write) (index : Nat) : Option UInt8 :=
  if write.offset ≤ index then write.data[index - write.offset]? else none

/-- End of the write, zero if it brings nothing. -/
def stop (write : Write) : Nat :=
  if write.data = [] then 0 else write.offset + write.data.length

/-- Carry the write out. -/
def run (state : Buffer × Transcoder) : Write → Buffer × Transcoder
  | bytes offset data => (state.1.put offset data, state.2)
  | scalar offset number => (state.1.putScalar offset number, state.2)
  | string offset text => ((state.1.putString offset text).2, state.2)
  | utf16 offset units => (state.1.putUtf16 offset units state.2).2

end Write

namespace Writes

/-- Carry writes out on a new buffer. -/
def run (capacity : Nat) (writes : List Write) : Buffer × Transcoder :=
  writes.foldl Write.run (.withCapacity capacity, .empty)

/-- The byte that the last write covering an index brings, zero if none does. -/
def byteAt (writes : List Write) (index : Nat) : UInt8 :=
  (writes.reverse.findSome? (·.byteAt? index)).getD 0

/-- End of the furthest write. -/
def stop (writes : List Write) : Nat :=
  (writes.map Write.stop).foldl max 0

end Writes

end PackedTuple
