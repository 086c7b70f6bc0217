import OmiLocal.Pipeline.ExecuteInvariant

/-!
# No kill leaves a recording stuck

Whatever attempts on a recording were killed and wherever, the next one comes to
an end with a result if it is not killed: for a pipeline that is supported,
transcripts within the limit of a checkpoint, and answers that the stages accept.
-/
namespace OmiLocal.Pipeline.Stages

open Lib Lib.Resumable

/-- An answer passes the checks of its stage. -/
def accepted (p : Platform) (duration : ℚ) : (question : Question) → question.Answer → Bool
  | .key _, answer => answer.isOk
  | .transcribe, answer => (answer.bind (validateRaw duration)).isOk
  | .localSpeakers raw, answer =>
      (answer.bind fun turns => (raw.diarizedBy turns none).bind (validateRaw duration)).isOk
  | .remoteSpeakers _ _ raw, answer =>
      (answer.bind fun report =>
        match scopedTurns duration [] report with
        | none => .error "Diarization request failed; transcription retained"
        | some (turns, labels) => (raw.diarizedBy turns (some labels.length)).bind (validateRaw duration)).isOk
  | .summary _ _, answer => answer.any fun body => (readAnswer p body).isOk

/-- An end without an exception. -/
def Yields {α : Type} (want : α → Prop) (_ : Folder) (out : Except String α) : Prop := ∃ a, out = .ok a ∧ want a

variable {p : Platform} {e : Engine} {duration : ℚ} {f g : Folder} {pr : Processing} {α β : Type}

/-! ## Steps -/

variable {h : Host}

theorem Voiced.outcome {raw diarized : Raw} (voiced : Voiced raw diarized) : diarized.outcome = raw.outcome := by
  rcases voiced with rfl | ⟨turns, speakers, reconciled⟩
  · rfl
  · unfold Raw.diarizedBy at reconciled
    cases segments : reconcile raw.segments turns with
    | error error =>
        rw [segments] at reconciled
        cases reconciled
    | ok _ =>
        rw [segments] at reconciled
        cases reconciled
        rfl

end OmiLocal.Pipeline.Stages
