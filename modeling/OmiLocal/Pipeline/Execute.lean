import OmiLocal.Lib.Resumable
import OmiLocal.Pipeline.Summaries

/-!
# The stages of a finished recording

`execute` of the local pipeline and the part of `transcribe` around it that owns
the folder of a recording. A stage leaves a checkpoint that a later attempt reads
back. Every write replaces its file, and an attempt can be killed between any two
of its steps; the lock admits one attempt at a time. What contacts a provider is a
question whose answer the world decides. The manifest and the profile of the
engine are the same for every attempt on a folder.
-/
namespace OmiLocal.Pipeline.Stages

open Lib Lib.Resumable
open Lib.Json (Value field strField)

/-! ## The folder -/

inductive Stage where
  | stt
  | diarization
  | summary
deriving DecidableEq

inductive StageStatus where
  | pending
  | disabled
  | processing
  | failed
  | ready
  | noSpeech
deriving DecidableEq

/-- An entry of `processing`, with the name and the model of the stage's provider. -/
structure StageRecord where
  status : StageStatus
  provider : Option (String × String)

structure Processing where
  stt : StageRecord
  diarization : StageRecord
  summary : StageRecord

def Processing.record (pr : Processing) : Stage → StageRecord
  | .stt => pr.stt
  | .diarization => pr.diarization
  | .summary => pr.summary

/-- `processing[name]['status'] = status` -/
def Processing.mark (pr : Processing) (name : Stage) (status : StageStatus) : Processing :=
  match name with
  | .stt => { pr with stt := { pr.stt with status := status } }
  | .diarization => { pr with diarization := { pr.diarization with status := status } }
  | .summary => { pr with summary := { pr.summary with status := status } }

def StageRecord.silence (r : StageRecord) : StageRecord :=
  if r.status = .disabled then r else { r with status := .noSpeech }

/-- The loop after a recording without speech. -/
def Processing.silence (pr : Processing) : Processing := ⟨pr.stt.silence, pr.diarization.silence, pr.summary.silence⟩

/-- The report under `diarization`. -/
structure Voices where
  turns : List Turn
  speakers : Option Nat

/-- A transcript with what a diarization adds to it. -/
structure Raw extends Transcript where
  diarization : Option Voices

/-- What `execute` returns and `audio.json` holds. -/
structure Finished where
  raw : Raw
  structured : Option Summary
  processing : Processing

structure Folder where
  asr : Option Raw
  diarized : Option Raw
  summary : Option Value
  summaries : List (String × Value)
  processing : Option Processing
  audio : Option Finished

def Folder.empty : Folder := ⟨none, none, none, [], none, none⟩

/-! ## The engine -/

/-- A selected provider; its model is `settings.get('model', settings.get('speaker_model', ''))`. -/
structure Chosen where
  name : String
  model : String

structure Diarizer extends Chosen where
  embedded : Bool
  kind : String
  speakerModel : Option String
  minSpeakers : Option Int
  maxSpeakers : Option Int

structure Summarizer extends Chosen where
  kind : String
  settings : SummarySettings

structure Engine where
  engine : String
  diarizationModel : String
  speakerModel : String
  stt : Option Chosen
  diarization : Option Diarizer
  summary : Option Summarizer

def stageRecord (provider : Option Chosen) : StageRecord :=
  match provider with
  | some chosen => ⟨.pending, some (chosen.name, chosen.model)⟩
  | none => ⟨.disabled, none⟩

/-- The first loop of `execute`. -/
def Engine.processing (e : Engine) : Processing :=
  ⟨stageRecord e.stt, stageRecord (e.diarization.map Diarizer.toChosen), stageRecord (e.summary.map Summarizer.toChosen)⟩

/-! ## Questions to the world -/

inductive Question where
  /-- `engine.provider_key(stage)` -/
  | key (stage : Stage)
  /-- The adapter of the engine. -/
  | transcribe
  /-- The diarization process of `apply_diarization`. -/
  | localSpeakers (raw : Raw)
  /-- The request of `remote_diarization`. -/
  | remoteSpeakers (minSpeakers maxSpeakers : Option Int) (raw : Raw)
  /-- A request for a summary. -/
  | summary (reduction : Bool) (part : List Char)

/-- An error carries its text; a response of the summary provider is absent where the request fails. -/
def Question.Answer : Question → Type
  | .key _ => Except String Unit
  | .transcribe => Except String Raw
  | .localSpeakers _ => Except String (List Turn)
  | .remoteSpeakers _ _ _ => Except String (List Turn)
  | .summary _ _ => Option (List (String × Value))

abbrev Attempt := Prog Folder Question Question.Answer

/-- Goes on with a value and passes an exception on. -/
def Attempt.andThen {α β : Type} (m : Attempt (Except String α)) (f : α → Attempt (Except String β)) :
    Attempt (Except String β) :=
  m.bind fun
    | .error e => .done (.error e)
    | .ok a => f a

/-! ## Diarization -/

/-- The checks of `remote_diarization` on a segment of the report. -/
def reported (duration : ℚ) (t : Turn) : Bool :=
  decide (0 ≤ t.start ∧ t.start < t.stop ∧ t.stop ≤ duration + 1 / 10) && t.label ≠ "" && t.label.length ≤ 200

/-- `f'SPEAKER_{n:02d}'` -/
def speakerName (n : Nat) : String := "SPEAKER_" ++ (if n < 10 then "0" else "") ++ toString n

/-- The loop over the report, with the provider's labels so far. -/
def scopedTurns (duration : ℚ) : List String → List Turn → Option (List Turn × List String)
  | labels, [] => some ([], labels)
  | labels, t :: rest =>
      if reported duration t then
        let labels := if t.label ∈ labels then labels else labels ++ [t.label]
        (scopedTurns duration labels rest).map fun later =>
          (⟨t.start, min t.stop duration, speakerName (labels.idxOf t.label)⟩ :: later.1, later.2)
      else none

/-- `params` of `remote_diarization`: a count that is zero is left out. -/
def speakerCount (count : Option Int) : Option Int := count.filter (· ≠ 0)

def countsValid (minSpeakers maxSpeakers : Option Int) : Bool :=
  (minSpeakers.all fun n => 1 ≤ n && n ≤ 32) && (maxSpeakers.all fun n => 1 ≤ n && n ≤ 32) &&
    (minSpeakers.getD 1 ≤ maxSpeakers.getD 32)

/-- `{**raw, 'segments': reconcile(…), 'diarization': …}` -/
def Raw.diarizedBy (raw : Raw) (turns : List Turn) (speakers : Option Nat) : Except String Raw :=
  (reconcile raw.segments turns).map fun segments =>
    { raw with segments := segments, diarization := some ⟨turns, speakers⟩ }

def remoteDiarization (d : Diarizer) (duration : ℚ) (raw : Raw) : Attempt (Except String Raw) :=
  let failed : Except String Raw := .error "Diarization request failed; transcription retained"
  let least := speakerCount d.minSpeakers
  let most := speakerCount d.maxSpeakers
  if countsValid least most = false then .done (.error "Invalid speaker count")
  else
    (Prog.query (Question.remoteSpeakers least most raw)).bind fun
      | .error _ => .done failed
      | .ok report =>
          match scopedTurns duration [] report with
          | none => .done failed
          | some (turns, labels) =>
              match raw.diarizedBy turns (some labels.length) with
              | .error _ => .done failed
              | .ok diarized => .done (.ok diarized)

def applyDiarization (e : Engine) (raw : Raw) : Attempt (Except String Raw) :=
  if e.speakerModel = "" ∨ raw.segments = [] then .done (.ok raw)
  else
    (Prog.query (Question.localSpeakers raw)).bind fun
      | .error error => .done (.error error)
      | .ok turns => .done ((raw.diarizedBy turns none).mapError fun _ => "Invalid independent diarization result")

/-- The STT provider has produced the labels. -/
def Engine.suppliesSpeakers (e : Engine) (d : Diarizer) : Bool :=
  (e.engine = "whisperx" || e.engine = "parakeet-mlx") && e.diarizationModel ≠ "none" &&
    some e.diarizationModel = d.speakerModel

def diarize (e : Engine) (duration : ℚ) (d : Diarizer) (raw : Raw) : Attempt (Except String Raw) :=
  if d.embedded then
    .done (if e.suppliesSpeakers d then .ok raw
      else .error "The selected STT provider does not supply this embedded diarization")
  else if d.kind = "pyannote" then applyDiarization e raw
  else if d.kind = "mycelia" then
    Attempt.andThen (Prog.query (Question.key .diarization)) fun _ => remoteDiarization d duration raw
  else .done (.error "Unsupported diarization provider")

/-! ## Summaries -/

variable (p : Platform)

/-- `text_chunks(text)`; a text is cut fewer times than it is long. -/
def chunksOf (text : List Char) : List (List Char) := (textChunks (text.length + 1) text summaryChars).getD []

/-- `request` of `summarize`: an answer is kept before the next one is asked for. -/
def requestSummary (reduction : Bool) (part : List Char) : Attempt (Except String Summary) :=
  .read fun f =>
    match f.summaries.find? (fun e => e.1 == requestDigest p reduction part) with
    | some (_, .obj fields) => .done (validateSummary (.obj fields))
    | some _ => .done (.error "Invalid processing checkpoint")
    | none =>
        (Prog.query (Question.summary reduction part)).bind fun
          | none => .done (.error "Summary request failed; transcription retained")
          | some body =>
              match readAnswer p body with
              | .error e => .done (.error e)
              | .ok summary =>
                  .write (fun f => { f with summaries := (requestDigest p reduction part, summary.value) :: f.summaries })
                    (.done (.ok summary))

def requestSummaries (reduction : Bool) : List (List Char) → Attempt (Except String (List Summary))
  | [] => .done (.ok [])
  | part :: rest =>
      Attempt.andThen (requestSummary p reduction part) fun summary =>
        Attempt.andThen (requestSummaries reduction rest) fun others => .done (.ok (summary :: others))

/-- `while len(summaries) > 1`; each pass leaves fewer of them. -/
def reduceSummaries : Nat → List Summary → Attempt (Except String (List Summary))
  | 0, summaries => .done (.ok summaries)
  | passes + 1, summaries =>
      if 1 < summaries.length then
        Attempt.andThen (requestSummaries p true (chunksOf (notesOf summaries))) (reduceSummaries passes)
      else .done (.ok summaries)

def summarizeRaw (settings : SummarySettings) (raw : Raw) : Attempt (Except String Summary) :=
  if settings.valid = false then .done (.error "Invalid summary settings")
  else
    Attempt.andThen (requestSummaries p false (chunksOf (['\n'].intercalate (raw.segments.map summaryLine)))) fun first =>
      Attempt.andThen (reduceSummaries p first.length first) fun
        | [] => .done (.error "No speech to summarize")
        | summary :: _ => .done (.ok summary)

/-! ## Stages -/

/-- The file of a stage's checkpoint. -/
structure Slot (α : Type) where
  get : Folder → Option α
  put : α → Folder → Folder

def asrSlot : Slot Raw := ⟨Folder.asr, fun raw f => { f with asr := some raw }⟩
def diarizedSlot : Slot Raw := ⟨Folder.diarized, fun raw f => { f with diarized := some raw }⟩
def summarySlot : Slot Value := ⟨Folder.summary, fun value f => { f with summary := some value }⟩

/-- `write(status_path, processing)` -/
def writeStatus {α : Type} (pr : Processing) (next : Attempt α) : Attempt α :=
  .write (fun f => { f with processing := some pr }) next

/-- `_read(path) if path.exists() else run()`; `readable` is the limit on the size of a file. -/
def readOrRun {α : Type} (slot : Slot α) (readable : α → Bool) (run : Attempt (Except String α)) :
    Attempt (Except String α) :=
  .read fun f =>
    match slot.get f with
    | some value => .done (if readable value then .ok value else .error "Invalid processing checkpoint")
    | none => run

/-- `stage`, with the statuses before and after it. -/
def stage {α β : Type} (name : Stage) (slot : Slot α) (readable : α → Bool) (validate : α → Except String β)
    (store : β → α) (run : Attempt (Except String α)) (pr : Processing) : Attempt (Except String β × Processing) :=
  let processing := pr.mark name .processing
  writeStatus processing <| (readOrRun slot readable run).bind fun value =>
    match value.bind validate with
    | .error e =>
        let failed := processing.mark name .failed
        writeStatus failed (.done (.error e, failed))
    | .ok checked =>
        .read fun f =>
          let ready := processing.mark name .ready
          if (slot.get f).isSome then writeStatus ready (.done (.ok checked, ready))
          else .write (slot.put (store checked)) (writeStatus ready (.done (.ok checked, ready)))

def validateRaw (duration : ℚ) (raw : Raw) : Except String Raw :=
  (validateTranscript raw.toTranscript duration).map fun _ => raw

structure Host where
  platform : Platform
  /-- The written transcript is within the 32 MiB of `_read`. -/
  readable : Raw → Bool

variable (h : Host) (e : Engine) (duration : ℚ)

def sttStage : Processing → Attempt (Except String Raw × Processing) :=
  stage .stt asrSlot h.readable (validateRaw duration) id (Prog.query Question.transcribe)

def diarizationStage (d : Diarizer) (raw : Raw) : Processing → Attempt (Except String Raw × Processing) :=
  stage .diarization diarizedSlot h.readable (validateRaw duration) id (diarize e duration d raw)

def summaryStage (s : Summarizer) (raw : Raw) : Processing → Attempt (Except String Summary × Processing) :=
  stage .summary summarySlot (fun _ => true) validateSummary Summary.value
    (Attempt.andThen (Prog.query (Question.key .summary)) fun _ =>
      Attempt.andThen (summarizeRaw h.platform s.settings raw) fun summary => .done (.ok summary.value))

/-- The end of `execute`, once the transcript has its speakers. -/
def finishExecute (raw : Raw) (pr : Processing) : Attempt (Except String Finished) :=
  match e.summary with
  | none => .done (.ok ⟨raw, none, pr⟩)
  | some s =>
      if s.kind ≠ "openai-compatible" then .done (.error "Unsupported summary provider")
      else
        (summaryStage h s raw pr).bind fun
          | (.error error, _) => .done (.error error)
          | (.ok summary, pr) => .done (.ok ⟨raw, some summary, pr⟩)

def execute : Attempt (Except String Finished) :=
  (sttStage h duration e.processing).bind fun
    | (.error error, _) => .done (.error error)
    | (.ok raw, pr) =>
        if raw.outcome = some "no_speech" then writeStatus pr.silence (.done (.ok ⟨raw, none, pr.silence⟩))
        else
          match e.diarization with
          | none => finishExecute h e raw pr
          | some d =>
              (diarizationStage h e duration d raw pr).bind fun
                | (.error error, _) => .done (.error error)
                | (.ok raw, pr) => finishExecute h e raw pr

/-- The part of `transcribe` that holds the lock: a finished result is used again. -/
def transcribeFolder : Attempt (Except String Finished) :=
  .read fun f =>
    match f.audio with
    | some finished => .done (.ok finished)
    | none =>
        Attempt.andThen (execute h e duration) fun finished =>
          .write (fun f => { f with audio := some finished }) (.done (.ok finished))

def Reached : System Folder Question Question.Answer (Except String Finished) → Prop :=
  Resumable.Reached (transcribeFolder h e duration) Folder.empty

end OmiLocal.Pipeline.Stages
