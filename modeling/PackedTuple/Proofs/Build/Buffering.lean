import PackedTuple.Proofs.Build.Transcripts
import PackedTuple.Proofs.Buffer.History

/-! # What the buffer decides

Neither the size that a tuple is expected to have nor the buffer that it is built
in shows in anything that a caller sees, as long as nothing was written to the
buffer. Two exceptions are made on purpose: a strict size bounds the finished
tuple, and a buffer that was written to is refused, with the end of what was
written.
-/

namespace PackedTuple

/-- The plan with another size to expect, strict or not. -/
def Plan.expecting (plan : Plan) (size : Nat) (strict : Bool) : Plan :=
  { plan with sizeHint := size, options := { plan.options with strictSize := strict } }

/-- What a caller sees before finishing. -/
def Transcript.course {α : Type} (transcript : Transcript α) : Cursor × Bool × List Outcome :=
  (transcript.cursor, transcript.complete, transcript.outcomes)

namespace Builder

/-- The finished bytes, if they are not more than declared. -/
def limitTo (declared : Nat) : Except BuildError (Array UInt8) → Except BuildError (Array UInt8)
  | .ok bytes =>
      if declared < bytes.size then .error (.sizeExceeded bytes.size declared) else .ok bytes
  | .error error => .error error

section Size

variable {plan : Plan} {left right : Buffer} {size other : Nat}

theorem sameBytes_of_written (hleft : left.written = 0) (hright : right.written = 0) :
    left.SameBytes right := by
  rw [Buffer.SameBytes, Array.size_eq_zero_iff.mp hleft, Array.size_eq_zero_iff.mp hright]

/-- Plans that expect different sizes go on alike in buffers that nothing was written to. -/
theorem session_expecting (hleft : left.written = 0) (hright : right.written = 0) (plan : Plan)
    (size other : Nat) (strict lax : Bool) (steps : List Datum) :
    AlikeSessions Buffer.SameBytes (session (plan.expecting size strict) left steps)
      (session (plan.expecting other lax) right steps) := by
  have hkept := Buffer.keptByWrites_sameBytes
  have hplans : AlikePlans Buffer.SameBytes (plan.expecting size strict)
      (plan.expecting other lax) := ⟨rfl, rfl, rfl, closeChunk_agree hkept rfl⟩
  exact session_agree hkept hplans (.same hkept hplans steps) (sameBytes_of_written hleft hright)
    (hleft.trans hright.symm)

theorem finish_expecting {first second : Builder} (halike : first.Alike Buffer.SameBytes second) :
    finish (plan.expecting size false) first = finish (plan.expecting other false) second := by
  have hbytes : first.buffer.bytes = second.buffer.bytes := halike.buffer
  simp [finish, Plan.expecting, halike.complete, halike.appended, hbytes]

/-- A strict size is looked at when all else is well. -/
theorem finish_expecting_strict {first second : Builder}
    (halike : first.Alike Buffer.SameBytes second) :
    finish (plan.expecting size true) first =
      limitTo size (finish (plan.expecting other false) second) := by
  have hbytes : first.buffer.bytes = second.buffer.bytes := halike.buffer
  unfold finish
  rw [halike.complete, halike.appended, Buffer.written, hbytes]
  split
  · rfl
  · simp [limitTo, Plan.expecting]

theorem course_of_transcript (plan : Plan) (buffer : Buffer) (steps : List Datum) :
    (transcript plan buffer steps).map Transcript.course =
      (session plan buffer steps).map Transcript.course := by
  rw [transcript]
  cases session plan buffer steps <;> rfl

theorem AlikeSessions.course_eq {related : Buffer → Buffer → Prop}
    {first second : Except BuildError (Transcript Builder)}
    (hsessions : AlikeSessions related first second) :
    first.map Transcript.course = second.map Transcript.course := by
  cases hsessions <;> rfl

end Size

/-- Starting blames the buffer exactly if something was written to it. -/
theorem startIn_eq_bufferNotEmpty_iff {plan : Plan} {buffer : Buffer} {last : Nat} :
    startIn plan buffer = .error (.bufferNotEmpty last) ↔ buffer.written = last ∧ last ≠ 0 := by
  by_cases hempty : buffer.written = 0
  · rw [startIn, if_neg (not_not_intro hempty)]
    refine iff_of_false ?_ fun hwritten => hwritten.2 (hwritten.1.symm.trans hempty)
    intro hstart
    split at hstart
    next => contradiction
    next error next hrun =>
      -- Whatever else goes wrong at the start is fatal.
      obtain rfl := Except.error.inj hstart
      have hfatal := ((begin_ends hempty).of_run_error hrun).2.1
      contradiction
  · rw [startIn, if_pos hempty, Except.error.injEq, BuildError.bufferNotEmpty.injEq]
    refine (and_iff_left_of_imp ?_).symm
    rintro rfl
    exact hempty

/-- Neither the expected size nor the buffer shows in what a caller sees, but for the bound
that a strict size is. A buffer that was written to is refused, with the end of the furthest
write. -/
theorem buffering_unobservable (plan : Plan) (steps : List Datum) :
    (∀ left right : Buffer, left.written = 0 → right.written = 0 → ∀ size other : Nat,
      (∀ strict otherStrict : Bool,
        (transcript (plan.expecting size strict) left steps).map Transcript.course =
          (transcript (plan.expecting other otherStrict) right steps).map Transcript.course) ∧
      transcript (plan.expecting size false) left steps =
        transcript (plan.expecting other false) right steps ∧
      transcript (plan.expecting size true) left steps =
        (transcript (plan.expecting other false) right steps).map
          (Transcript.map (limitTo size))) ∧
    ∀ (capacity : Nat) (writes : List Write),
      ((∃ last, startIn plan (Writes.run capacity writes).1 = .error (.bufferNotEmpty last)) ↔
        ∃ write ∈ writes, write.data ≠ []) ∧
      ∀ last, startIn plan (Writes.run capacity writes).1 = .error (.bufferNotEmpty last) ↔
        (∃ write ∈ writes, write.data ≠ [] ∧ write.offset + write.data.length = last) ∧
          ∀ write ∈ writes, write.data ≠ [] → write.offset + write.data.length ≤ last := by
  constructor
  · intro left right hleft hright size other
    have hsessions := session_expecting hleft hright plan size other
    refine ⟨?_, ?_, ?_⟩
    · intro strict otherStrict
      rw [course_of_transcript, course_of_transcript]
      exact (hsessions strict otherStrict steps).course_eq
    · exact transcript_eq (hsessions false false steps) fun _ _ halike => finish_expecting halike
    · exact transcript_eq_map (hsessions true false steps) fun _ _ _ _ _ halike =>
        finish_expecting_strict halike
  · intro capacity writes
    simp only [startIn_eq_bufferNotEmpty_iff, Writes.written_run]
    constructor
    · rw [← Writes.stop_ne_zero_iff]
      constructor
      · rintro ⟨last, rfl, hlast⟩
        exact hlast
      · intro hstop
        exact ⟨_, rfl, hstop⟩
    · intro last
      exact Writes.stop_eq_iff

/-- Writes that leave a buffer as it was, one of no bytes and one of a surrogate alone. -/
def idleWrites : List Write :=
  [.bytes 7 [], .utf16 0 [0xD800]]

theorem customer_in_other_buffer :
    transcript (Customers.plan.expecting 5 false) (.withCapacity 3) Customers.data =
        transcript (Customers.plan.expecting 500 false) (Writes.run 64 idleWrites).1
          Customers.data ∧
      transcript (Customers.plan.expecting 71 true) (.withCapacity 3) Customers.data =
        (transcript (Customers.plan.expecting 500 false) (Writes.run 64 idleWrites).1
          Customers.data).map (Transcript.map (limitTo 71)) := by
  have hidle : (Writes.run 64 idleWrites).1.written = 0 := by decide +kernel
  have hbuffers := (buffering_unobservable Customers.plan Customers.data).1
    (.withCapacity 3) (Writes.run 64 idleWrites).1 rfl hidle
  exact ⟨(hbuffers 5 500).2.1, (hbuffers 71 500).2.2⟩

end Builder

end PackedTuple
