import PackedTuple.Proofs.Build.Transcripts
import PackedTuple.Proofs.Text.Spelling

/-! # Texts in either form

A text may be appended as a string or as its UTF-16 units. The two forms are accepted
as the same field, under the same conditions; units go through the transcoder besides,
and what is left in its scratch space decides nothing. So from an append on, all goes
alike, and a text may be given in the other form anywhere in a run.
-/

namespace PackedTuple

/-- The same datum, or the same text in its other form. -/
inductive Datum.Respells : Datum → Datum → Prop where
  | same (datum : Datum) : Respells datum datum
  | units (text : String) : Respells (.string text) (.utf16 (Utf16.ofString text))
  | string (text : String) : Respells (.utf16 (Utf16.ofString text)) (.string text)

namespace Builder

variable {related : Buffer → Buffer → Prop} {plan : Plan} {left right : Datum}

theorem AlikeResults.symm {α : Type} {first second : EStateM.Result BuildError Builder α}
    (hresults : AlikeResults (· = ·) first second) : AlikeResults (· = ·) second first := by
  cases first <;> cases second
  case ok.ok => exact ⟨hresults.1.symm, hresults.2.sameTuple.symm.alike⟩
  case error.error => exact ⟨hresults.1.symm, hresults.2.sameTuple.symm.alike⟩
  all_goals exact hresults.elim

theorem Agree.symm {α : Type} {program other : BuildM α}
    (hagree : Agree (· = ·) program other) : Agree (· = ·) other program :=
  fun left right halike => (hagree right left halike.sameTuple.symm.alike).symm

/-- The units of a text are always transcoded, to the bytes of the text. -/
theorem transcode_agree (column : Column) (text : String) :
    Agree related (pure (utf8Bytes text)) (transcode column (Utf16.ofString text)) := by
  intro first second halike
  have hpayload : (second.transcoder.transcode (Utf16.ofString text)).1 = .ok (utf8Bytes text) :=
    Transcoder.transcode_eq_ok_iff.mpr ⟨text, rfl, rfl⟩
  have hrun : (transcode column (Utf16.ofString text)).run second = .ok (utf8Bytes text)
      { second with transcoder := (second.transcoder.transcode (Utf16.ofString text)).2 } := by
    simp [transcode, hpayload]
  rw [hrun]
  exact ⟨rfl, ⟨halike.cursor, halike.appended, halike.complete⟩, halike.buffer⟩

theorem accept_text_agree (plan : Plan) (text : String) :
    Agree related (accept plan (.string text)) (accept plan (.utf16 (Utf16.ofString text))) :=
  (nextColumn_respects plan).bind fun column => (checkKind_respects column .string).bind fun _ =>
    checkEntry_respects.bind fun _ => (transcode_agree column text).bind fun _ => .pure _

theorem append_text_agree (plan : Plan) (text : String) :
    Agree (· = ·) (append plan (.string text)) (append plan (.utf16 (Utf16.ofString text))) :=
  (accept_text_agree plan text).bind fun field =>
    place_agree Buffer.keptByWrites_eq (.rfl Buffer.keptByWrites_eq plan) field

/-! ## Whole runs -/

section Run

variable {data steps others : List Datum}

theorem alikeSteps_of_respells (hsteps : List.Forall₂ Datum.Respells steps others) :
    AlikeSteps (· = ·) plan plan steps others := by
  refine hsteps.imp fun datum other hrespells => ?_
  have hkept := Buffer.keptByWrites_eq
  cases hrespells with
  | same => exact append_agree hkept (.rfl hkept plan) datum
  | units text => exact append_text_agree plan text
  | string text => exact (append_text_agree plan text).symm

theorem buildIn_of_alikeSteps (hsteps : AlikeSteps (· = ·) plan plan steps others)
    (buffer : Buffer) : buildIn plan buffer steps = buildIn plan buffer others := by
  cases hstart : startIn plan buffer with
  | error error =>
      rw [buildIn, buildIn, fill, fill, hstart]
      rfl
  | ok builder =>
      have hresults := appendAll_agree hsteps builder builder (SameTuple.rfl.alike)
      cases hfirst : (appendAll plan steps).run builder <;>
        cases hsecond : (appendAll plan others).run builder <;>
        rw [hfirst, hsecond] at hresults
      case ok.ok =>
        have hfinish := @finish_of_sameTuple plan _ _ hresults.2.sameTuple
        rw [buildIn, buildIn, fill_of_run_ok hstart hfirst, fill_of_run_ok hstart hsecond]
        exact hfinish
      case error.error =>
        obtain ⟨rfl, -⟩ := hresults
        rw [buildIn, buildIn, fill_of_run_error hstart hfirst, fill_of_run_error hstart hsecond]
      all_goals exact hresults.elim

end Run

/-- Appending a text as a string and as its units comes to the same, whatever the transcoder was
used for before: to the same error or to none, and to the same tuple. So a run with some of its
texts in the other form has the same outcomes all along and gives the same bytes. -/
theorem texts_interchangeable (plan : Plan) :
    (∀ (builder : Builder) (transcoder : Transcoder) (text : String),
      AlikeResults (· = ·) ((append plan (.string text)).run builder)
        ((append plan (.utf16 (Utf16.ofString text))).run
          { builder with transcoder := transcoder })) ∧
    ∀ steps others, List.Forall₂ Datum.Respells steps others →
      (∀ builder, (replay plan builder steps).1 = (replay plan builder others).1 ∧
        Option.Rel (Alike (· = ·)) (replay plan builder steps).2
          (replay plan builder others).2) ∧
      ∀ buffer, transcript plan buffer steps = transcript plan buffer others ∧
        buildIn plan buffer steps = buildIn plan buffer others := by
  refine ⟨?_, ?_⟩
  · intro builder transcoder text
    exact append_text_agree plan text _ _ ⟨⟨rfl, rfl, rfl⟩, rfl⟩
  · intro steps others hrespells
    have hkept := Buffer.keptByWrites_eq
    have hplans := AlikePlans.rfl hkept plan
    have hsteps : AlikeSteps (· = ·) plan plan steps others := alikeSteps_of_respells hrespells
    refine ⟨?_, ?_⟩
    · intro builder
      exact replay_agree hsteps SameTuple.rfl.alike
    · intro buffer
      refine ⟨?_, buildIn_of_alikeSteps hsteps buffer⟩
      have hsessions := session_agree hkept hplans hsteps (rfl : buffer = buffer) rfl
      exact transcript_eq hsessions fun _ _ halike => finish_of_sameTuple halike.sameTuple

end Builder

/-- The data of a customer with the email in UTF-16. -/
def Customers.respelled : List Datum :=
  [.long 1, .uuid 0x0123456789abcdeffedcba9876543210, .long 1700000000, .bitmask [5],
    .utf16 (Utf16.ofString email), .string firstName, .null]

namespace Builder

theorem build_respelled :
    List.Forall₂ Datum.Respells Customers.data Customers.respelled ∧
      build Customers.plan Customers.respelled = .ok (Customers.stored true).toArray := by
  have hrespells : List.Forall₂ Datum.Respells Customers.data Customers.respelled :=
    .cons (.same _) (.cons (.same _) (.cons (.same _) (.cons (.same _) (.cons (.units _)
      (.cons (.same _) (.cons (.same _) .nil))))))
  refine ⟨hrespells, ?_⟩
  have hsame := (texts_interchangeable Customers.plan).2 _ _ hrespells
  rw [build, ← (hsame.2 _).2]
  exact Customers.build_data ⟨true, true⟩

end Builder

end PackedTuple
