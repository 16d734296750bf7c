import PackedTuple.Build.Error
import PackedTuple.Proofs.Encoding.Cells

/-! # What goes wrong with a chunk

The numbers of a chunk are checked at three points: its count when the chunk is
opened, the next entry of the table when a value of variable length is added, and
count and length when the chunk is closed. What each check finds is said here of
drafts alone, together with the error that reports it.
-/

namespace PackedTuple

namespace Draft

/-- Why a field with a table entry cannot be added: no entry is left, or none of its
width holds the start of the field. Room in the table is asked for first. -/
inductive Unfit (draft : Draft) (role : ChunkRole) : BuildError → Prop where
  | surplus (hfull : draft.slots ≤ draft.starts.length) :
      Unfit draft role (.varlenCount role draft.slots (draft.starts.length + 1))
  | far (hroom : draft.starts.length < draft.slots) (hfar : Layout.fieldMax < draft.length) :
      Unfit draft role (.chunkTooLarge role draft.length)

/-- Why a chunk that has all its columns cannot be closed: entries are left, or the
length does not fit its field. The entries are counted first. -/
inductive Unclosable (draft : Draft) (role : ChunkRole) : BuildError → Prop where
  | missing (hroom : draft.starts.length < draft.slots) :
      Unclosable draft role (.varlenCount role draft.slots draft.starts.length)
  | long (hfull : draft.starts.length = draft.slots) (hlong : Layout.fieldMax < draft.length) :
      Unclosable draft role (.chunkTooLarge role draft.length)

theorem Unclosable.isFatal {draft : Draft} {role : ChunkRole} {error : BuildError}
    (hunclosable : draft.Unclosable role error) : error.isFatal = true := by
  cases hunclosable with
  | missing hroom => exact decide_eq_true hroom
  | long hfull hlong => rfl

end Draft

/-- What the last of some data does to a chunk that cannot go on behind it, and the
error by which the chunk says so. -/
inductive Plan.Breaks (plan : Plan) (data : List Datum) (role : ChunkRole) : BuildError → Prop where
  /-- The chunk is opened, and its count does not fit. -/
  | opening (hbegins : data.length = plan.schema.begins role)
      (hslots : Layout.fieldMax < plan.slots role) :
      Breaks plan data role (.chunkTooLarge role
        (Layout.chunkHeaderSize + Layout.tableSize (plan.slots role)))
  /-- The datum is a value of variable length that cannot be added. -/
  | adding {before : List Datum} {datum : Datum} {column : Column} {error : BuildError}
      (hdata : data = before ++ [datum]) (hbegun : plan.schema.begins role ≤ before.length)
      (hcolumn : (plan.schema.columns role).get? (before.length - plan.schema.begins role) =
        some column)
      (hvarlen : (datum.field column.type).isVarlen = true)
      (hopen : (plan.draft before role).IsOpen)
      (hunfit : (plan.draft before role).Unfit role error) :
      Breaks plan data role error
  /-- The chunk has all its columns, and cannot be closed. -/
  | closing {error : BuildError} (hends : data.length = plan.schema.ends role)
      (hopen : (plan.draft data role).IsOpen)
      (hunclosable : (plan.draft data role).Unclosable role error) :
      Breaks plan data role error

end PackedTuple
