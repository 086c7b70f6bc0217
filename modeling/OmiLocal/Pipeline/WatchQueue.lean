import Mathlib.Data.Rat.Defs
import Mathlib.Algebra.Order.Ring.Rat
import OmiLocal.Lib.Transition
import OmiLocal.Lib.Json
import OmiLocal.Lib.Dict

/-!
# The queue of the automatic transcription worker

`Worker` of the watch process. Its program points are explicit, so that the
process can stop and the captures can change between any two of its reads and
writes; the queue file is replaced atomically. An exception that leaves `tick`
ends the process, as in `main`. The commands that change the settings run one at
a time, and the held lock admits one worker at a time.
-/
namespace OmiLocal.Pipeline

open Lib.Transition Lib.Json Lib.Dict

def pollSeconds : ℚ := 2
def maxAttempts : Int := 3

inductive JobState where
  | pending
  | processing
  | completed
  | noSpeech
  | failed
deriving DecidableEq, Repr

structure Job where
  state : JobState
  attempts : Int
  retryAt : ℚ
  profile : List (String × Value)

abbrev Queue := List (String × Job)

/-! ## Captures and settings -/

inductive Entry where
  | missing
  | file
  | other
deriving DecidableEq

/-- A name under `listen-captures`. The metadata is absent when it cannot be read or parsed. -/
structure Folder where
  name : String
  directory : Bool
  wav : Entry
  part : Bool
  metadata : Option Value

/-- Some audio of a capture is there. -/
def Folder.hasAudio (f : Folder) : Bool := f.directory && (decide (f.wav ≠ .missing) || f.part)

structure Settings where
  enabled : Bool
  excluded : Option (List String)

/-- Keys of the captures with the names of their folders; the key is the hash of the name. -/
def captures (sha256 : String → String) (folders : List Folder) : List (String × String) :=
  folders.foldl (fun paths f => if f.directory then put paths (sha256 f.name) f.name else paths) []

def findFolder (folders : Option (List Folder)) (name : String) : Option Folder :=
  (folders.getD []).find? fun f => decide (f.name = name)

/-- `key in paths and (…)`: the test of the comprehension in `tick`. -/
def retains (folders : Option (List Folder)) (paths : List (String × String)) (key : String) : Bool :=
  (get paths key).any fun name => (findFolder folders name).any Folder.hasAudio

inductive Admission where
  | profile (p : List (String × Value))
  | disabled
  | raises

inductive Scanned where
  | skip
  | stop
  | raise
  | queue (profile : List (String × Value))

def metadataStatus : Value → Option (Option Value)
  | .obj fields => some (field "status" fields)
  | _ => none

/-- The body of the loop over the captures. -/
def scanCapture (folders : Option (List Folder)) (excluded : List String) (jobs : Queue) (key name : String)
    (admission : Admission) : Scanned :=
  if key ∈ excluded ∨ key ∈ keys jobs then .skip
  else
    match findFolder folders name with
    | none => .skip
    | some f =>
        if f.directory = false ∨ f.wav ≠ .file ∨ f.part = true then .skip
        else
          match f.metadata with
          | none => .skip
          | some metadata =>
              match metadataStatus metadata with
              | none => .raise
              | some (some (.str "completed")) =>
                  match admission with
                  | .profile p => .queue p
                  | .disabled => .stop
                  | .raises => .raise
              | some _ => .skip

/-! ## One attempt -/

/-- `EngineConfig().diarization_model`. -/
def defaultDiarizationModel : String := "pyannote/speaker-diarization-community-1"

/-- The profile that an attempt loads; `profile['engine']` raises when there is none. -/
def pinnedProfile (profile : List (String × Value)) : Option (List (String × Value)) :=
  let pinned := profile.filter fun f => decide (f.1 ≠ "runtime_revision")
  match field "engine" pinned with
  | none => none
  | some (.str "whisperx") =>
      some (if (field "diarization_model" pinned).isSome then pinned
        else setField "diarization_model" (.str defaultDiarizationModel) pinned)
  | some _ => some pinned

/-- How the body of the `try` ends; a non-zero result of `transcribe` raises. -/
inductive Ending where
  | completed
  | noSpeech
  | busy
  | interrupted
  | raised
deriving DecidableEq

/-- The body of the `try`: the job takes the loaded profile before it is transcribed. -/
def attempt (load : List (String × Value) → Option (List (String × Value))) (ending : Ending) (job : Job) :
    Job × Ending :=
  match (pinnedProfile job.profile).bind load with
  | none => (job, if ending = .interrupted then .interrupted else .raised)
  | some profile => ({ job with profile := profile }, ending)

/-- The handlers after the `try`. -/
def settle (now : ℚ) (ending : Ending) (job : Job) : Job :=
  match ending with
  | .noSpeech => { job with state := .noSpeech, retryAt := 0 }
  | .busy | .interrupted =>
      { job with state := .pending, attempts := job.attempts - 1, retryAt := now + pollSeconds }
  | .raised =>
      { job with state := if maxAttempts ≤ job.attempts then .failed else .pending,
                 retryAt := now + 60 * (job.attempts : ℚ) }
  | .completed => { job with state := .completed, retryAt := 0 }

/-- `Worker.__init__`: a job that was being processed waits again, and the attempt does not count. -/
def resetJob (job : Job) : Job :=
  if job.state = .processing then
    { job with state := .pending, retryAt := 0, attempts := max 0 (job.attempts - 1) }
  else job

def resetQueue (jobs : Queue) : Queue := jobs.map fun e => (e.1, resetJob e.2)

/-! ## The worker -/

/-- Program points of the worker. `save` stands before a write of the queue and `exit` before the end
of the process. -/
inductive Point where
  | idle
  | retain (paths : List (String × String)) (excluded : Option (List String)) (todo kept : Queue)
  | scan (excluded : List String) (todo : List (String × String))
  | choose (todo : Queue)
  | begin (key : String)
  | work (key : String)
  | exit
  | save (after : Point)

structure Worker where
  jobs : Queue
  point : Point

/-- What happened to the jobs, for the statements only. -/
inductive Event where
  | queued (key : String)
  | began (key : String)
  | raised (key : String)
deriving DecidableEq

/-- The file system, the settings, the queue file, the process and the history, the newest event first. -/
structure Watch where
  folders : Option (List Folder)
  settings : Settings
  saved : Option Queue
  worker : Option Worker
  log : List Event

inductive Action where
  | files (folders : Option (List Folder))
  | enable
  | disable
  | start
  | die
  | tick
  | retain
  | scan (admission : Admission)
  | choose (now : ℚ)
  | save
  | begin
  | finish (load : List (String × Value) → Option (List (String × Value))) (ending : Ending) (now : ℚ)

namespace Watch

def at_ (s : Watch) (jobs : Queue) (point : Point) : Watch := { s with worker := some ⟨jobs, point⟩ }

/-- `enable`: only the first one lists the captures to leave out. -/
def enable (sha256 : String → String) (s : Watch) : Watch :=
  { s with settings := ⟨true, some (s.settings.excluded.getD
      ((keys (captures sha256 (s.folders.getD []))).mergeSort fun a b => decide (a ≤ b)))⟩ }

def sameKeys (a b : Queue) : Bool := a.all (fun e => decide (e.1 ∈ keys b)) && b.all fun e => decide (e.1 ∈ keys a)

/-- After the comprehension: the queue is written if a key has gone, and the captures are visited by name. -/
def afterRetain (s : Watch) (jobs : Queue) (paths : List (String × String)) (excluded : Option (List String))
    (kept : Queue) : Watch :=
  match excluded with
  | none => { s with worker := none }
  | some excluded =>
      let scan := Point.scan excluded (paths.mergeSort fun a b => decide (a.2 ≤ b.2))
      if sameKeys kept jobs then s.at_ jobs scan else s.at_ kept (.save scan)

def tick (sha256 : String → String) (s : Watch) (jobs : Queue) : Watch :=
  if s.settings.enabled = false then s
  else
    match s.folders with
    | none => s
    | some folders => s.at_ jobs (.retain (captures sha256 folders) s.settings.excluded jobs [])

def scanNext (s : Watch) (jobs : Queue) (excluded : List String) (key name : String)
    (rest : List (String × String)) (admission : Admission) : Watch :=
  match scanCapture s.folders excluded jobs key name admission with
  | .skip => s.at_ jobs (.scan excluded rest)
  | .stop => s.at_ jobs (.choose jobs)
  | .raise => { s with worker := none }
  | .queue profile =>
      { s.at_ (put jobs key ⟨.pending, 0, 0, profile⟩) (.save (.scan excluded rest)) with
        log := .queued key :: s.log }

def chooseNext (s : Watch) (jobs : Queue) (key : String) (job : Job) (rest : Queue) (now : ℚ) : Watch :=
  if job.state ≠ .pending ∨ now < job.retryAt then s.at_ jobs (.choose rest)
  else s.at_ (change jobs key { job with state := .processing, attempts := job.attempts + 1 }) (.save (.begin key))

def finish (s : Watch) (jobs : Queue) (key : String) (job : Job)
    (load : List (String × Value) → Option (List (String × Value))) (ending : Ending) (now : ℚ) : Watch :=
  let tried := attempt load ending job
  { s.at_ (change jobs key (settle now tried.2 tried.1))
      (.save (if tried.2 = .interrupted then .exit else .idle)) with
    log := if tried.2 = .raised then .raised key :: s.log else s.log }

/-- One step of the worker at its program point. -/
def work (sha256 : String → String) (s : Watch) (w : Worker) : Action → Option Watch
  | .tick => match w.point with
      | .idle => some (s.tick sha256 w.jobs)
      | _ => none
  | .retain => match w.point with
      | .retain paths excluded (e :: todo) kept =>
          some (s.at_ w.jobs (.retain paths excluded todo (if retains s.folders paths e.1 then kept ++ [e] else kept)))
      | .retain paths excluded [] kept => some (s.afterRetain w.jobs paths excluded kept)
      | _ => none
  | .scan admission => match w.point with
      | .scan excluded (path :: rest) => some (s.scanNext w.jobs excluded path.1 path.2 rest admission)
      | .scan _ [] => some (s.at_ w.jobs (.choose w.jobs))
      | _ => none
  | .choose now => match w.point with
      | .choose ((key, job) :: rest) => some (s.chooseNext w.jobs key job rest now)
      | .choose [] => some (s.at_ w.jobs .idle)
      | _ => none
  | .save => match w.point with
      | .save after => some { s.at_ w.jobs after with saved := some w.jobs }
      | _ => none
  | .begin => match w.point with
      | .begin key => some { s.at_ w.jobs (.work key) with log := .began key :: s.log }
      | _ => none
  | .finish load ending now => match w.point with
      | .work key => (get w.jobs key).map fun job => s.finish w.jobs key job load ending now
      | _ => none
  | _ => none

def act (sha256 : String → String) (s : Watch) : Action → Option Watch
  | .files folders => some { s with folders := folders }
  | .enable => some (s.enable sha256)
  | .disable => some { s with settings := { s.settings with enabled := false } }
  | .start =>
      if s.worker.isNone ∧ s.settings.enabled then
        some (s.at_ (resetQueue (s.saved.getD [])) (.save .idle))
      else none
  | .die => some { s with worker := none }
  | action => s.worker.bind fun w => s.work sha256 w action

def init (s : Watch) : Prop := s.settings = ⟨false, none⟩ ∧ s.saved = none ∧ s.worker = none ∧ s.log = []

def step (sha256 : String → String) (s : Watch) (a : Action) (t : Watch) : Prop := s.act sha256 a = some t

end Watch

end OmiLocal.Pipeline
