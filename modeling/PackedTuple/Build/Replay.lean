import PackedTuple.Build.Builder

/-! # Whole builds

`fill` appends a list of data and stops at the first error, `build` also hands
out the finished bytes. `replay` goes on after an error that is not fatal, as a
caller may who repairs the datum, and records where the tuple stands after each
datum. `Reachable` are the builders that such a caller can come to hold.
-/

namespace PackedTuple

/-- What one append of a replay came to. -/
inductive Outcome where
  /-- The datum was appended. -/
  | appended (cursor : Cursor) (complete : Bool)
  /-- The datum was refused and the tuple left as it was. -/
  | refused (error : BuildError) (cursor : Cursor) (complete : Bool)
  /-- The append failed half way, and left the cursor there. -/
  | fatal (error : BuildError) {cursor : Cursor} {complete : Bool}
  deriving DecidableEq, Repr

namespace Builder

/-- Append data until one fails. -/
def appendAll (plan : Plan) : List Datum → BuildM Unit
  | [] => pure ()
  | datum :: rest => do
      append plan datum
      appendAll plan rest

/-- Append data, leaving out what is refused, until an append fails half way.
The builder is handed back if none did. -/
def replay (plan : Plan) (builder : Builder) : List Datum → List Outcome × Option Builder
  | [] => ([], some builder)
  | datum :: rest =>
      match (append plan datum).run builder with
      | .ok _ next =>
          let cursor := next.cursor
          let complete := next.complete
          let (outcomes, final) := replay plan next rest
          (.appended cursor complete :: outcomes, final)
      | .error error next =>
          if error.isFatal then
            ([@Outcome.fatal error next.cursor next.complete], none)
          else
            let cursor := next.cursor
            let complete := next.complete
            let (outcomes, final) := replay plan next rest
            (.refused error cursor complete :: outcomes, final)

/-- Start a tuple in a buffer and append data until one fails. -/
def fill (plan : Plan) (buffer : Buffer) (data : List Datum) : Except BuildError Builder := do
  let builder ← startIn plan buffer
  match (appendAll plan data).run builder with
  | .ok _ builder => .ok builder
  | .error error _ => .error error

/-- Build a tuple from the data of all its columns, in a buffer of the caller's. -/
def buildIn (plan : Plan) (buffer : Buffer) (data : List Datum) :
    Except BuildError (Array UInt8) := do
  finish plan (← fill plan buffer data)

/-- What a build gives is settled by computing it. -/
theorem buildIn_eq_ok_of_toOption {plan : Plan} {buffer : Buffer} {data : List Datum}
    {bytes : Array UInt8} (hsome : (buildIn plan buffer data).toOption = some bytes) :
    buildIn plan buffer data = .ok bytes := by
  cases hbuild : buildIn plan buffer data with
  | error error =>
      rw [hbuild] at hsome
      contradiction
  | ok built =>
      rw [hbuild] at hsome
      exact congrArg Except.ok (Option.some.inj hsome)

/-- Build a tuple in a buffer of the size hinted at. -/
def build (plan : Plan) (data : List Datum) : Except BuildError (Array UInt8) :=
  buildIn plan (.withCapacity plan.sizeHint) data

/-- The builders that a caller can come to hold under a plan, each with the data
appended to it. The caller may go on after an append that was refused, but not
after one that failed half way. -/
inductive Reachable (plan : Plan) : List Datum → Builder → Prop where
  | start {buffer : Buffer} {builder : Builder} (hstart : startIn plan buffer = .ok builder) :
      Reachable plan [] builder
  | append {data : List Datum} {builder next : Builder} {datum : Datum}
      (hreach : Reachable plan data builder)
      (happend : (Builder.append plan datum).run builder = .ok () next) :
      Reachable plan (data ++ [datum]) next
  | refuse {data : List Datum} {builder next : Builder} {datum : Datum} {error : BuildError}
      (hreach : Reachable plan data builder)
      (happend : (Builder.append plan datum).run builder = .error error next)
      (hfatal : error.isFatal = false) :
      Reachable plan data next

end Builder

end PackedTuple
