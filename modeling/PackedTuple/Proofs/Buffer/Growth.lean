import Mathlib.Algebra.Group.Nat.Defs
import PackedTuple.Proofs.Buffer.Contents

/-! # How buffers grow

A buffer grows in those writes only that end behind its capacity, and then to twice its
capacity at least. So it grows seldom. It grows to no more than the end of such a write
or twice what was too small for it, so less than half of a buffer that ever grew lies
behind its written part.
-/

namespace PackedTuple

/-- How a write changes the capacity of a buffer. -/
structure Write.Resizes (write : Write) (capacity grown : Nat) : Prop where
  le : capacity ≤ grown
  past : write.data ≠ [] → capacity < write.offset + write.data.length →
    grown = max (write.offset + write.data.length) (2 * capacity)
  inside : write.data = [] ∨ write.offset + write.data.length ≤ capacity → grown = capacity

/-- The capacity is as it was initially, or less than twice the written part. -/
def Buffer.IsTight (buffer : Buffer) (initial : Nat) : Prop :=
  buffer.capacity = initial ∨ buffer.capacity < 2 * buffer.written

namespace Buffer

/-- What a buffer grows to is twice the end of the write at most, and this much is then written. -/
theorem IsTight.put {buffer : Buffer} {initial : Nat} (htight : buffer.IsTight initial)
    (offset : Nat) (data : List UInt8) : (buffer.put offset data).IsTight initial := by
  rw [IsTight, capacity_put, written_put]
  split
  next => exact htight
  next hdata =>
    have hlength := List.length_pos_iff.mpr hdata
    rw [grownCapacity]
    split
    next =>
      -- Without a growth the written part can only have come nearer to the capacity.
      refine htight.imp_right ?_
      omega
    next => omega

end Buffer

namespace Write

theorem resizes_run (state : Buffer × Transcoder) (write : Write) :
    write.Resizes state.1.capacity (write.run state).1.capacity := by
  rw [fst_run, Buffer.capacity_put]
  constructor
  case le =>
    split
    · exact Nat.le_refl _
    · exact Buffer.le_grownCapacity ..
  case past =>
    intro hdata hpast
    rw [if_neg hdata, Buffer.grownCapacity, if_neg (Nat.not_le.mpr hpast)]
  case inside =>
    rintro (hdata | hinside)
    · exact if_pos hdata
    · rw [Buffer.grownCapacity, if_pos hinside, ite_self]

/-- A buffer that grows at all grows to twice its capacity at least. -/
theorem Resizes.double_le {write : Write} {capacity grown : Nat}
    (hresizes : write.Resizes capacity grown) (hgrown : grown ≠ capacity) :
    2 * capacity ≤ grown := by
  by_cases hdata : write.data = []
  · exact absurd (hresizes.inside (.inl hdata)) hgrown
  · rcases Nat.lt_or_ge capacity (write.offset + write.data.length) with hpast | hinside
    · rw [hresizes.past hdata hpast]
      exact Nat.le_max_right ..
    · exact absurd (hresizes.inside (.inr hinside)) hgrown

end Write

namespace Writes

/-- In how many of the writes the buffer grows. -/
def growths (state : Buffer × Transcoder) : List Write → Nat
  | [] => 0
  | write :: rest =>
      (if (write.run state).1.capacity = state.1.capacity then 0 else 1) +
        growths (write.run state) rest

theorem isTight_foldl {initial : Nat} (writes : List Write) {state : Buffer × Transcoder}
    (htight : state.1.IsTight initial) : (writes.foldl Write.run state).1.IsTight initial := by
  induction writes generalizing state with
  | nil => exact htight
  | cons write rest ih =>
      apply ih
      rw [Write.fst_run]
      exact htight.put ..

/-- Each growth at least doubles the capacity, and no write makes it smaller. -/
theorem capacity_foldl (writes : List Write) (state : Buffer × Transcoder) :
    2 ^ growths state writes * state.1.capacity ≤
      (writes.foldl Write.run state).1.capacity := by
  induction writes generalizing state with
  | nil => exact Nat.le_of_eq (Nat.one_mul _)
  | cons write rest ih =>
      have hresizes := write.resizes_run state
      refine Nat.le_trans ?_ (ih (write.run state))
      rw [growths]
      split
      next hsame => exact Nat.le_of_eq (by rw [Nat.zero_add, hsame])
      next hgrown =>
        rw [Nat.add_comm, pow_succ, Nat.mul_assoc]
        exact Nat.mul_le_mul_left _ (hresizes.double_le hgrown)

/-- After every write the capacity has room for what is written, and is the initial one or less
than twice as much. It changes only in a write that ends behind it, and never becomes smaller.
However the writing goes on, each further growth doubles it at least. -/
theorem capacity_follows_written (capacity : Nat) (writes : List Write) :
    (inMemory capacity writes).cells.size = (run capacity writes).1.capacity ∧
    (run capacity writes).1.written ≤ (run capacity writes).1.capacity ∧
    (run capacity writes).1.IsTight capacity ∧
    (∀ write : Write, write.Resizes (run capacity writes).1.capacity
      (run capacity (writes ++ [write])).1.capacity) ∧
    ∀ more : List Write,
      2 ^ growths (run capacity writes) more * (run capacity writes).1.capacity ≤
        (run capacity (writes ++ more)).1.capacity := by
  refine ⟨size_cells_inMemory capacity writes, (run capacity writes).1.size_le_capacity,
    isTight_foldl writes (.inl rfl), ?_, ?_⟩
  · intro write
    rw [run_append_singleton]
    exact write.resizes_run _
  · intro more
    rw [run, run, List.foldl_append]
    exact capacity_foldl more _

end Writes

end PackedTuple
