import PackedTuple.View.Chunk

/-! # Reading a chunk in one pass

The walk goes over the columns of a chunk from the first to the last. It carries
the position of the next fixed-length value and the index of the next table
entry, and reads the table as a whole beforehand.
-/

namespace PackedTuple.Chunk

end PackedTuple.Chunk
