import PackedTuple.Customers
import PackedTuple.Proofs.Build.Agreement
import PackedTuple.Proofs.Build.Runs

/-! # Refused data leave no trace

Whatever an append checks of its datum, it checks before the first write. So a
datum that is refused leaves the tuple as it was, and a replay comes to the same
as a replay of the data alone that were appended: with the same outcomes, at the
same places, to the same end. Only the transcoder may differ in between, where a
refused text has half filled its scratch space.
-/

namespace PackedTuple

/-- Whether the datum of an outcome went into the tuple. -/
def Outcome.isAppended : Outcome → Bool
  | appended _ _ => true
  | _ => false

namespace Builder

/-- The data of a replay that were appended. -/
def kept (data : List Datum) (outcomes : List Outcome) : List Datum :=
  ((data.zip outcomes).filter (·.2.isAppended)).map Prod.fst

variable {plan : Plan} {data rest : List Datum} {datum : Datum} {builder next final : Builder}
  {outcomes : List Outcome} {error : BuildError}

theorem sameTuple_of_refused (hreach : Reachable plan data builder)
    (happend : (append plan datum).run builder = .error error next)
    (hplain : error.isFatal = false) : next.SameTuple builder := by
  obtain ⟨hadmits, hstands⟩ := hreach.stands
  exact ((append_ends hadmits hstands datum).of_run_error happend).2 hplain

/-! ## One step of a replay -/

theorem replay_of_appended (happend : (append plan datum).run builder = .ok () next) :
    replay plan builder (datum :: rest) =
      (.appended next.cursor next.complete :: (replay plan next rest).1,
        (replay plan next rest).2) := by
  rw [replay, happend]

theorem replay_of_refused (happend : (append plan datum).run builder = .error error next)
    (hplain : error.isFatal = false) :
    replay plan builder (datum :: rest) =
      (.refused error next.cursor next.complete :: (replay plan next rest).1,
        (replay plan next rest).2) := by
  rw [replay, happend]
  simp only [hplain, Bool.false_eq_true, if_false]

theorem replay_of_fatal (happend : (append plan datum).run builder = .error error next)
    (hfatal : error.isFatal = true) :
    replay plan builder (datum :: rest) =
      ([@Outcome.fatal error next.cursor next.complete], none) := by
  rw [replay, happend]
  simp only [hfatal, if_true]

theorem kept_cons_appended (cursor : Cursor) (complete : Bool) :
    kept (datum :: rest) (.appended cursor complete :: outcomes) =
      datum :: kept rest outcomes := rfl

theorem kept_cons_refused (cursor : Cursor) (complete : Bool) :
    kept (datum :: rest) (.refused error cursor complete :: outcomes) = kept rest outcomes := rfl

/-! ## Whole replays -/

/-- Leaving out what is refused changes nothing, from any builder of the same tuple. -/
theorem replay_kept {other : Builder} (hreach : Reachable plan data builder)
    (hsame : other.SameTuple builder)
    (hreplay : replay plan builder rest = (outcomes, some final)) :
    ∃ after, replay plan other (kept rest outcomes) =
        (outcomes.filter Outcome.isAppended, some after) ∧
      after.SameTuple final ∧ Reachable plan (data ++ kept rest outcomes) final := by
  -- On the data still to come: `other` makes the steps of `builder` that succeed.
  induction rest generalizing data builder other outcomes with
  | nil =>
      obtain ⟨rfl, rfl⟩ : [] = outcomes ∧ builder = final := by simpa [replay] using hreplay
      refine ⟨other, rfl, hsame, ?_⟩
      rwa [kept, List.zip_nil_left, List.filter_nil, List.map_nil, List.append_nil]
  | cons datum rest ih =>
      cases happend : (append plan datum).run builder with
      | ok result next =>
          obtain ⟨after, hafter, hnext⟩ := append_of_sameTuple hsame happend
          rw [replay_of_appended happend, Prod.mk.injEq] at hreplay
          obtain ⟨rfl, hfinal⟩ := hreplay
          obtain ⟨last, hrest, hlast, hreached⟩ :=
            ih (hreach.append happend) hnext (Prod.ext rfl hfinal)
          rw [List.append_assoc] at hreached
          refine ⟨last, ?_, hlast, hreached⟩
          rw [kept_cons_appended, replay_of_appended hafter, hrest, hnext.cursor, hnext.complete]
          rfl
      | error error next =>
          cases hfatal : error.isFatal with
          | true =>
              rw [replay_of_fatal happend hfatal] at hreplay
              simp at hreplay
          | false =>
              have hunchanged := sameTuple_of_refused hreach happend hfatal
              rw [replay_of_refused happend hfatal, Prod.mk.injEq] at hreplay
              obtain ⟨rfl, hfinal⟩ := hreplay
              rw [kept_cons_refused]
              exact ih (hreach.refuse happend hfatal) (hsame.trans hunchanged.symm)
                (Prod.ext rfl hfinal)

theorem finish_of_sameTuple {other : Builder} (hsame : other.SameTuple builder) :
    finish plan other = finish plan builder := by
  rw [finish, finish, hsame.complete, hsame.appended, hsame.buffer]

theorem finish_of_incomplete (hreach : Reachable plan data builder)
    (hcomplete : builder.complete = false) :
    finish plan builder = .error (.incomplete data.length plan.schema.columnCount) := by
  rw [finish, if_pos hcomplete, hreach.stands.2.appended]

/-- A datum that is refused leaves no trace in the tuple, and neither do all the
refused data of a replay: what remains of it has the same outcomes and the same end. -/
theorem refused_leave_no_trace (hreach : Reachable plan data builder) :
    (∀ datum error next, (append plan datum).run builder = .error error next →
      error.isRefusal = true →
        next.buffer = builder.buffer ∧ next.cursor = builder.cursor ∧
          next.appended = builder.appended ∧ next.complete = builder.complete) ∧
    ∀ steps outcomes final, replay plan builder steps = (outcomes, some final) →
      ∃ after, replay plan builder (kept steps outcomes) =
          (outcomes.filter Outcome.isAppended, some after) ∧
        finish plan after = finish plan final ∧
        (final.complete = false → finish plan final = .error
          (.incomplete (data.length + (kept steps outcomes).length) plan.schema.columnCount)) := by
  constructor
  · intro datum error next happend hrefusal
    have hsame := sameTuple_of_refused hreach happend (BuildError.isFatal_of_isRefusal hrefusal)
    exact ⟨hsame.buffer, hsame.cursor, hsame.appended, hsame.complete⟩
  · intro steps outcomes final hreplay
    obtain ⟨after, hkept, hsame, hreached⟩ := replay_kept hreach .rfl hreplay
    refine ⟨after, hkept, finish_of_sameTuple hsame, ?_⟩
    intro hcomplete
    rw [← List.length_append]
    exact finish_of_incomplete hreached hcomplete

end Builder

/-- The data of a customer, with a datum in front of most of them that is refused,
for each reason that there is. -/
def Customers.attempts : List Datum :=
  [.byte 1, .long 1, .null, .uuid 0x0123456789abcdeffedcba9876543210, .long 1700000000,
    .bitmask [0, 0x10], .bitmask [5], .utf16 [0x41, 0xD83D], .string email, .string firstName,
    .string email, .null, .null]

namespace Builder

/-- With the refused attempts left out, the data of a customer remain. -/
theorem customer_attempts_kept :
    ∃ builder outcomes final after, start Customers.plan = .ok builder ∧
      replay Customers.plan builder Customers.attempts = (outcomes, some final) ∧
        kept Customers.attempts outcomes = Customers.data ∧
          replay Customers.plan builder Customers.data =
            (outcomes.filter Outcome.isAppended, some after) ∧
            finish Customers.plan after = finish Customers.plan final := by
  have hrun : (start Customers.plan).toOption.map (fun builder =>
      ((replay Customers.plan builder Customers.attempts).2.isSome,
        kept Customers.attempts (replay Customers.plan builder Customers.attempts).1)) =
      some (true, Customers.data) := by decide +kernel
  cases hstart : start Customers.plan with
  | error error =>
      rw [hstart] at hrun
      contradiction
  | ok builder =>
      rw [hstart] at hrun
      obtain ⟨hsome, hkept⟩ := Prod.mk.inj (Option.some.inj hrun)
      obtain ⟨final, hfinal⟩ := Option.isSome_iff_exists.mp hsome
      have hreplay : replay Customers.plan builder Customers.attempts =
          ((replay Customers.plan builder Customers.attempts).1, some final) := Prod.ext rfl hfinal
      obtain ⟨after, hafter, hfinish, _⟩ :=
        (refused_leave_no_trace (.start hstart)).2 _ _ _ hreplay
      rw [hkept] at hafter
      exact ⟨builder, _, final, after, rfl, hreplay, hkept, hafter, hfinish⟩

end Builder

end PackedTuple
