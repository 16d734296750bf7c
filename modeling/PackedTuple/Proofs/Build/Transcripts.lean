import PackedTuple.Proofs.Build.Refusal

/-! # Transcripts

A transcript is what a caller sees of a tuple from its start to its end: where it
stands at the start, what each append comes to, and what finishing gives. Plans
and buffers that are alike have the same transcript, up to what finishing makes of
the buffers: an induction on the appends, each of which leaves builders alike.
-/

namespace PackedTuple

/-- What a caller sees of a tuple, with what is in hand at its end. There is nothing in hand
if an append failed half way. -/
structure Transcript (α : Type) where
  /-- The cursor of the tuple that was started. -/
  cursor : Cursor
  /-- Whether that tuple is complete without any data. -/
  complete : Bool
  outcomes : List Outcome
  final : Option α
  deriving DecidableEq, Repr

/-- The transcript with something else made of the end. -/
def Transcript.map {α β : Type} (change : α → β) (transcript : Transcript α) : Transcript β :=
  ⟨transcript.cursor, transcript.complete, transcript.outcomes, transcript.final.map change⟩

namespace Builder

/-- Start a tuple and append to it, going on after data that are refused. -/
def session (plan : Plan) (buffer : Buffer) (steps : List Datum) :
    Except BuildError (Transcript Builder) :=
  (startIn plan buffer).map fun builder =>
    let (outcomes, final) := replay plan builder steps
    ⟨builder.cursor, builder.complete, outcomes, final⟩

/-- Start a tuple, append to it and finish it. -/
def transcript (plan : Plan) (buffer : Buffer) (steps : List Datum) :
    Except BuildError (Transcript (Except BuildError (Array UInt8))) :=
  (session plan buffer steps).map (Transcript.map (finish plan))

/-- The steps end in a finished tuple of the bytes. -/
def Yields (plan : Plan) (buffer : Buffer) (steps : List Datum) (bytes : Array UInt8) : Prop :=
  ∃ record, transcript plan buffer steps = .ok record ∧ record.final = some (.ok bytes)

theorem exists_of_map_eq_ok {ε α β : Type} {result : Except ε α} {change : α → β} {value : β}
    (hmap : result.map change = .ok value) :
    ∃ before, result = .ok before ∧ change before = value := by
  cases result with
  | error error => contradiction
  | ok before => exact ⟨before, rfl, Except.ok.inj hmap⟩

section Finish

variable {plan : Plan} {data steps : List Datum} {builder final : Builder} {buffer : Buffer}
  {bytes : Array UInt8}

/-- What finishing gives is settled by the data that were appended. -/
theorem finish_of_reachable (hreach : Reachable plan data builder) :
    finish plan builder =
      if data.length < plan.schema.columnCount then
        .error (.incomplete data.length plan.schema.columnCount)
      else if plan.sizeHint < (plan.image data).length ∧ plan.options.strictSize = true then
        .error (.sizeExceeded (plan.image data).length plan.sizeHint)
      else
        .ok (plan.image data).toArray := by
  cases hreach.stands.2 with
  | filling hleft hfilling =>
      rw [if_pos hleft]
      exact finish_of_incomplete hreach hfilling.incomplete
  | finished hfull hfinished =>
      have hbytes : builder.buffer.bytes.toList = plan.image data := hfinished.bytes
      have hwritten : builder.buffer.written = (plan.image data).length := by
        rw [Buffer.written_eq_length, hbytes]
      rw [if_neg (Nat.not_lt.mpr hfull), finish, if_neg (by simp [hfinished.complete]), hwritten,
        ← hbytes]

/-- What is in hand at the end of a session holds the data that were appended. -/
theorem reachable_of_session {record : Transcript Builder}
    (hsession : session plan buffer steps = .ok record) (hfinal : record.final = some final) :
    Reachable plan (kept steps record.outcomes) final := by
  obtain ⟨builder, hstart, rfl⟩ := exists_of_map_eq_ok hsession
  obtain ⟨_, _, _, hreached⟩ := replay_kept (.start hstart) .rfl (Prod.ext rfl hfinal)
  rwa [List.nil_append] at hreached

/-- A finished tuple comes from a builder that was reached. -/
theorem Yields.exists_reachable (hyields : Yields plan buffer steps bytes) :
    ∃ data builder, Reachable plan data builder ∧ finish plan builder = .ok bytes := by
  obtain ⟨record, hrecord, hbytes⟩ := hyields
  obtain ⟨run, hsession, rfl⟩ := exists_of_map_eq_ok hrecord
  obtain ⟨final, hfinal, hfinish⟩ := Option.map_eq_some_iff.mp hbytes
  exact ⟨_, final, reachable_of_session hsession hfinal, hfinish⟩

/-- If all data are appended, none is refused. -/
theorem replay_of_appendAll (hrun : (appendAll plan data).run builder = .ok () final) :
    (replay plan builder data).2 = some final := by
  induction data generalizing builder with
  | nil =>
      obtain rfl : builder = final := by simpa [appendAll] using hrun
      rfl
  | cons datum rest ih =>
      rw [appendAll] at hrun
      obtain ⟨_, next, happend, hrest⟩ := exists_of_run_bind hrun
      rw [replay_of_appended happend]
      exact ih hrest

/-- A build is a transcript in which nothing is refused. -/
theorem yields_of_buildIn (hbuild : buildIn plan buffer data = .ok bytes) :
    Yields plan buffer data bytes := by
  unfold buildIn at hbuild
  cases hfill : fill plan buffer data with
  | error error =>
      rw [hfill] at hbuild
      contradiction
  | ok final =>
      rw [hfill] at hbuild
      obtain ⟨first, hstart, hrun⟩ := run_of_fill hfill
      have hfinish : finish plan final = .ok bytes := hbuild
      refine ⟨_, congrArg (Except.map _) (congrArg (Except.map _) hstart), ?_⟩
      change ((replay plan first data).2).map (finish plan) = _
      rw [replay_of_appendAll hrun, Option.map_some, hfinish]

end Finish

/-! ## Transcripts that are alike -/

section Agree

variable {related : Buffer → Buffer → Prop} {left right : Plan} {first second : Builder}
  {buffer other : Buffer}

/-- Replays of steps that go alike, from builders that are, have the same outcomes and end
alike. -/
theorem replay_agree {steps others : List Datum}
    (hsteps : AlikeSteps related left right steps others) (halike : first.Alike related second) :
    (replay left first steps).1 = (replay right second others).1 ∧
      Option.Rel (Alike related) (replay left first steps).2 (replay right second others).2 := by
  -- On the steps still to come: the next one leaves the builders alike, or ends both replays.
  induction hsteps generalizing first second with
  | nil => exact ⟨rfl, .some halike⟩
  | @cons datum other _ _ hstep _ ih =>
      have hresults := hstep first second halike
      cases hfirst : (append left datum).run first <;>
        cases hsecond : (append right other).run second <;>
        rw [hfirst, hsecond] at hresults
      case ok.ok =>
        obtain ⟨-, hnext⟩ := hresults
        obtain ⟨houtcomes, hfinal⟩ := ih hnext
        rw [replay_of_appended hfirst, replay_of_appended hsecond, hnext.cursor, hnext.complete,
          houtcomes]
        exact ⟨rfl, hfinal⟩
      case error.error =>
        obtain ⟨rfl, hnext⟩ := hresults
        obtain ⟨houtcomes, hfinal⟩ := ih hnext
        rename BuildError => error
        cases hfatal : error.isFatal with
        | true =>
            rw [replay_of_fatal hfirst hfatal, replay_of_fatal hsecond hfatal, hnext.cursor,
              hnext.complete]
            exact ⟨rfl, .none⟩
        | false =>
            rw [replay_of_refused hfirst hfatal, replay_of_refused hsecond hfatal, hnext.cursor,
              hnext.complete, houtcomes]
            exact ⟨rfl, hfinal⟩
      all_goals exact hresults.elim

/-- Two sessions of which a caller sees the same until the end, where builders are alike. -/
inductive AlikeSessions (related : Buffer → Buffer → Prop) :
    Except BuildError (Transcript Builder) → Except BuildError (Transcript Builder) → Prop where
  | error (error : BuildError) : AlikeSessions related (.error error) (.error error)
  | ok (cursor : Cursor) (complete : Bool) (outcomes : List Outcome) {first second : Option Builder}
      (hfinal : Option.Rel (Alike related) first second) :
      AlikeSessions related (.ok ⟨cursor, complete, outcomes, first⟩)
        (.ok ⟨cursor, complete, outcomes, second⟩)

theorem session_agree {steps others : List Datum} (hkept : Buffer.KeptByWrites related)
    (hplans : AlikePlans related left right)
    (hsteps : AlikeSteps related left right steps others) (hrelated : related buffer other)
    (hwritten : buffer.written = other.written) :
    AlikeSessions related (session left buffer steps) (session right other others) := by
  have hresults := begin_agree hkept hplans _ _ (fresh_alike hplans hrelated)
  unfold session startIn
  rw [hwritten]
  split
  · exact .error _
  · cases hfirst : (begin left).run (fresh left buffer) <;>
      cases hsecond : (begin right).run (fresh right other) <;>
      rw [hfirst, hsecond] at hresults
    case ok.ok =>
      obtain ⟨-, halike⟩ := hresults
      obtain ⟨houtcomes, hfinal⟩ := replay_agree hsteps halike
      simp only [Except.map, halike.cursor, halike.complete, houtcomes]
      exact .ok _ _ _ hfinal
    case error.error =>
      obtain ⟨rfl, -⟩ := hresults
      exact .error _
    all_goals exact hresults.elim

/-- Of transcripts of sessions that are alike, one can be had from the other if this is so of
what finishing gives, after the same data on both sides. -/
theorem transcript_eq_map {steps : List Datum}
    (hsessions : AlikeSessions related (session left buffer steps) (session right other steps))
    {change : Except BuildError (Array UInt8) → Except BuildError (Array UInt8)}
    (hfinish : ∀ data first second, Reachable left data first → Reachable right data second →
      first.Alike related second → finish left first = change (finish right second)) :
    transcript left buffer steps =
      (transcript right other steps).map (Transcript.map change) := by
  unfold transcript
  generalize hfirst : session left buffer steps = first at hsessions ⊢
  generalize hsecond : session right other steps = second at hsessions ⊢
  cases hsessions with
  | error error => rfl
  | ok cursor complete outcomes hfinal =>
      cases hfinal with
      | none => rfl
      | some halike =>
          have hleft := reachable_of_session hfirst rfl
          have hright := reachable_of_session hsecond rfl
          simp only [Except.map, Transcript.map, Option.map_some,
            hfinish _ _ _ hleft hright halike]

/-- Sessions that are alike are equal in all that is made alike of their ends. -/
theorem AlikeSessions.map_eq {α : Type} {change other : Builder → α}
    {first second : Except BuildError (Transcript Builder)}
    (hsessions : AlikeSessions related first second)
    (hchange : ∀ first second, first.Alike related second → change first = other second) :
    first.map (Transcript.map change) = second.map (Transcript.map other) := by
  cases hsessions with
  | error error => rfl
  | ok cursor complete outcomes hfinal =>
      cases hfinal with
      | none => rfl
      | some halike =>
          simp only [Except.map, Transcript.map, Option.map_some, hchange _ _ halike]

/-- Sessions that are alike have the same transcript if finishing gives the same. -/
theorem transcript_eq {steps others : List Datum}
    (hsessions : AlikeSessions related (session left buffer steps) (session right other others))
    (hfinish : ∀ first second, first.Alike related second →
      finish left first = finish right second) :
    transcript left buffer steps = transcript right other others :=
  hsessions.map_eq hfinish

end Agree

end Builder

end PackedTuple
