import OmiLocal.Lib.Transition
import OmiLocal.Delivery.PhonePart

/-!
# The part store

`accept_part` with `_receipt` and `OfflineAudioCapture` as a process of file
system steps. Any number of calls run interleaved over the directory
`listen-captures`; each step may raise, and everything before the rename
happens in the call's own temporary directory. A file is written whole or its
step raises, `os.replace` and `os.rename` are atomic, and the time that
`finalize` reads is drawn when the staging begins.
-/
namespace OmiLocal.Delivery
open Lib.Framing Lib.Json Lib.Transition Capture

/-! ## Files -/

/-- `metadata['delivery']`. -/
structure DeliveryRecord where
  id : String
  recordingId : String
  index : Int
  sha256 : String
  prerollFrames : Nat
  deriving DecidableEq

/-- `_capture_metadata`, less the constants of the format. -/
structure Metadata where
  sessionId : String
  startedAt : String
  endedAt : Option String
  source : String
  inputCodec : String
  framesReceived : Nat
  encodedBytes : Nat
  decodedPcmBytes : Nat
  status : String
  delivery : Option DeliveryRecord
  deriving DecidableEq

/-- A capture directory: `audio.pcm.part`, `metadata.json.part`, `audio.wav` and `metadata.json`. -/
structure Directory where
  pcmPart : Option Bytes
  metadataPart : Option Metadata
  wav : Option Bytes
  metadata : Option Metadata
  deriving DecidableEq

def emptyDirectory : Directory := ⟨none, none, none, none⟩

abbrev Captures := String → Option Directory

def Captures.put (captures : Captures) (id : String) (d : Directory) : Captures :=
  fun other => if other = id then some d else captures other

/-! ## A call -/

/-- What a call takes from outside: Python's library, `hashlib.sha256(..).hexdigest()` and the Opus decoder. -/
structure Env where
  py : Python
  sha256 : Bytes → String
  opus : Decoder

/-- The outcome of one system call, and the clock. -/
structure Io where
  fails : Bool
  now : String

inductive Failure
  | value (message : String)
  | conflict
  | os
  deriving DecidableEq

/-- A body with what `parse_part` returned for it. -/
structure Plan (py : Python) where
  body : Bytes
  fields : Fields
  frames : List Packet
  parsed : parsePart py body = .ok (fields, frames)

inductive StageOp
  | stagingRoot | temporary | session | openPcm | openProgress | chmod | writePcm | progress
  | syncPcm | writeWav | writeMetadata | unlinkPcm | unlinkProgress | writeDelivery | syncSession
  deriving DecidableEq

def stagingOps : List StageOp :=
  [.stagingRoot, .temporary, .session, .openPcm, .openProgress, .chmod, .writePcm, .progress,
    .syncPcm, .writeWav, .writeMetadata, .unlinkPcm, .unlinkProgress, .writeDelivery, .syncSession]

namespace Plan

variable {py : Python} (plan : Plan py)

def id : String := (strField "id" plan.fields).getD ""

def text (name : String) : String := (strField name plan.fields).getD ""

def preroll : Nat := (validatePreroll plan.fields plan.frames).toOption.getD 0

def fresh : List Packet := plan.frames.drop plan.preroll

def decode (opus : Decoder) : Decoder :=
  if strField "codec" plan.fields = some "pcm16" then fun _ frame => some frame else opus

def delivery (sha256 : Bytes → String) : DeliveryRecord where
  id := plan.id
  recordingId := plan.text "recording_id"
  index := (intField "index" plan.fields).getD 0
  sha256 := sha256 plan.body
  prerollFrames := plan.preroll

def metadata (startedAt : String) (endedAt : Option String) (frames encoded decoded : Nat) (status : String) :
    Metadata where
  sessionId := plan.id
  startedAt := startedAt
  endedAt := endedAt
  source := plan.text "source"
  inputCodec := plan.text "codec"
  framesReceived := frames
  encodedBytes := encoded
  decodedPcmBytes := decoded
  status := status
  delivery := none

def encodedBytes : Nat := (plan.fresh.map List.length).sum

/-- The dictionary that `finalize` returns. -/
def finalized (pcm : Bytes) (now : String) : Metadata :=
  plan.metadata (plan.text "started_at") (some now) (plan.frames.length - plan.preroll) plan.encodedBytes
    pcm.length "completed"

def stage (sha256 : Bytes → String) (pcm : Bytes) (now : String) (d : Directory) : StageOp → Directory
  | .openPcm => { d with pcmPart := some [] }
  | .openProgress => { d with metadataPart := some (plan.metadata now none 0 0 0 "recording") }
  | .writePcm => { d with pcmPart := some pcm }
  | .progress =>
      let m := plan.metadata (plan.text "started_at") none 1 plan.encodedBytes pcm.length "recording"
      { d with metadataPart := some m }
  | .writeWav => { d with wav := d.pcmPart }
  | .writeMetadata => { d with metadata := some (plan.finalized pcm now) }
  | .unlinkPcm => { d with pcmPart := none }
  | .unlinkProgress => { d with metadataPart := none }
  | .writeDelivery =>
      let deliver (m : Metadata) : Metadata := { m with delivery := some (plan.delivery sha256) }
      { d with metadata := d.metadata.map deliver }
  | _ => d

/-- What is renamed into place: the finished audio and its metadata. -/
def publication (sha256 : Bytes → String) (pcm : Bytes) (now : String) : Directory where
  pcmPart := none
  metadataPart := none
  wav := some pcm
  metadata := some { plan.finalized pcm now with delivery := some (plan.delivery sha256) }

end Plan

inductive Position
  | syncRoot
  | lookup
  | read
  | syncTarget
  | syncKept
  | capacity
  | staging (pcm : Bytes) (now : String) (rest : List StageOp) (d : Directory)
  | rename (pcm : Bytes) (now : String) (d : Directory)
  | lookupAgain
  | readAgain
  | syncCaptures
  | cleanup

structure Receipt where
  id : String
  sha256 : String
  deriving DecidableEq

inductive Outcome
  | go (next : Position)
  | done
  | fail (e : Failure)

/-- The test of `_receipt` on a directory that exists. -/
def receiptMatches (d : Directory) (id digest : String) : Bool :=
  match d.metadata.bind Metadata.delivery with
  | some delivery => delivery.sha256 == digest && delivery.id == id && d.wav.isSome
  | none => false

/-- The second half of `_receipt`: an unreadable file counts as a conflict. -/
def readReceipt (io : Io) (captures : Captures) (id digest : String) (next : Position) : Outcome :=
  if io.fails then .fail .conflict
  else match captures id with
    | none => .fail .conflict
    | some d => if receiptMatches d id digest then .go next else .fail .conflict

def guardOs (io : Io) (outcome : Outcome) : Outcome := if io.fails then .fail .os else outcome

/-- Renaming onto a directory that is not empty fails. -/
def canReplace : Option Directory → Bool
  | none => true
  | some d => d == emptyDirectory

def work (env : Env) (io : Io) (captures : Captures) (plan : Plan env.py) : Position → Captures × Outcome
  | .syncRoot => (captures, guardOs io (.go .lookup))
  | .lookup => (captures, guardOs io (match captures plan.id with
      | none => .go .capacity
      | some _ => .go .read))
  | .read => (captures, readReceipt io captures plan.id (env.sha256 plan.body) .syncTarget)
  | .syncTarget => (captures, guardOs io (.go .syncKept))
  | .syncKept => (captures, guardOs io .done)
  | .capacity => (captures, guardOs io
      (match decodeFreshAudio plan.frames plan.preroll (plan.decode env.opus) maxPcmBytes with
      | .error message => .fail (.value message)
      | .ok pcm => .go (.staging pcm io.now stagingOps emptyDirectory)))
  | .staging pcm now [] d => (captures, .go (.rename pcm now d))
  | .staging pcm now (op :: rest) d => (captures, guardOs io
      (if op = .writePcm ∧ pcm.length % 2 = 1 then
        .fail (.value "decoded PCM byte count is not aligned to PCM16 samples")
      else .go (.staging pcm now rest (plan.stage env.sha256 pcm now d op))))
  | .rename _ _ d =>
      if io.fails ∨ canReplace (captures plan.id) = false then (captures, .go .lookupAgain)
      else (captures.put plan.id d, .go .syncCaptures)
  | .lookupAgain => (captures, guardOs io (match captures plan.id with
      | none => .fail .os
      | some _ => .go .readAgain))
  | .readAgain => (captures, readReceipt io captures plan.id (env.sha256 plan.body) .syncCaptures)
  | .syncCaptures => (captures, guardOs io (.go .cleanup))
  | .cleanup => (captures, guardOs io .done)

inductive Phase (py : Python)
  | start
  | working (plan : Plan py) (position : Position)
  | returned (plan : Plan py) (receipt : Receipt)
  | raised (e : Failure)

/-- `clean` and `published` are recorded for the statements: no system call has failed yet, and the call's own
rename has succeeded. -/
structure Call (py : Python) where
  body : Bytes
  phase : Phase py
  clean : Bool
  published : Bool

def beginCall (py : Python) (body : Bytes) : Call py := ⟨body, .start, true, false⟩

def Phase.after {env : Env} (plan : Plan env.py) : Outcome → Phase env.py
  | .go next => .working plan next
  | .done => .returned plan ⟨plan.id, env.sha256 plan.body⟩
  | .fail e => .raised e

/-- `parse_part` and the creation of `listen-captures`. -/
def parseCall (env : Env) (io : Io) (body : Bytes) : Phase env.py :=
  match h : parsePart env.py body with
  | .error message => .raised (.value message)
  | .ok (fields, frames) => if io.fails then .raised .os else .working ⟨body, fields, frames, h⟩ .syncRoot

def publishes {py : Python} (io : Io) (captures : Captures) (plan : Plan py) : Position → Bool
  | .rename _ _ _ => !io.fails && canReplace (captures plan.id)
  | _ => false

def advanceCall (env : Env) (io : Io) (captures : Captures) (call : Call env.py) : Captures × Call env.py :=
  match call.phase with
  | .start => (captures, { call with phase := parseCall env io call.body, clean := !io.fails })
  | .working plan position =>
      let (captures', outcome) := work env io captures plan position
      (captures', { call with
        phase := Phase.after plan outcome
        clean := call.clean && !io.fails
        published := call.published || publishes io captures plan position })
  | _ => (captures, call)

/-! ## The server -/

structure Server (py : Python) where
  captures : Captures
  calls : List (Call py)

inductive ServerAction
  | accept (body : Bytes)
  | advance (call : Nat) (io : Io)

/-- The store may hold anything before the first call. -/
def Server.init {py : Python} (s : Server py) : Prop := s.calls = []

inductive Server.step (env : Env) : Server env.py → ServerAction → Server env.py → Prop
  | accept (s : Server env.py) (body : Bytes) :
      Server.step env s (.accept body) ⟨s.captures, s.calls ++ [beginCall env.py body]⟩
  | advance (s : Server env.py) (k : Nat) (io : Io) {call : Call env.py} (found : s.calls[k]? = some call) :
      Server.step env s (.advance k io)
        ⟨(advanceCall env io s.captures call).1, s.calls.set k (advanceCall env io s.captures call).2⟩

/-! ## The invariant of a call -/

/-- `listen-captures` changes only by a new directory that is not empty. -/
def Grows (captures captures' : Captures) : Prop :=
  captures' = captures ∨ ∃ id d, captures id = none ∧ d ≠ emptyDirectory ∧ captures' = captures.put id d

theorem Captures.put_same (captures : Captures) (id : String) (d : Directory) : captures.put id d id = some d :=
  if_pos rfl

theorem Captures.put_other (captures : Captures) {id other : String} (d : Directory) (ne : other ≠ id) :
    captures.put id d other = captures other := if_neg ne

theorem Grows.keeps {captures captures' : Captures} (grows : Grows captures captures') {id : String} {d : Directory}
    (here : captures id = some d) : captures' id = some d := by
  rcases grows with rfl | ⟨new, d', absent, -, rfl⟩
  · exact here
  · have ne : id ≠ new := by
      rintro rfl
      rw [absent] at here
      cases here
    rw [Captures.put_other _ _ ne]
    exact here

section Calls

variable {env : Env}

/-- The call has seen no directory under its name, so any that is there now is complete. -/
def Free (captures : Captures) (id : String) : Prop := ∀ d, captures id = some d → d ≠ emptyDirectory

def Stored (env : Env) (captures : Captures) (plan : Plan env.py) : Prop :=
  ∃ d, captures plan.id = some d ∧ receiptMatches d plan.id (env.sha256 plan.body) = true

theorem Grows.free {captures captures' : Captures} (grows : Grows captures captures') {id : String}
    (free : Free captures id) : Free captures' id := by
  rcases grows with rfl | ⟨new, d, -, full, rfl⟩
  · exact free
  · intro other here
    by_cases same : id = new
    · rw [same, Captures.put_same] at here
      rw [← Option.some.inj here]
      exact full
    · rw [Captures.put_other _ _ same] at here
      exact free other here

theorem Grows.stored {captures captures' : Captures} (grows : Grows captures captures') {plan : Plan env.py}
    (stored : Stored env captures plan) : Stored env captures' plan := by
  obtain ⟨d, here, same⟩ := stored
  exact ⟨d, grows.keeps here, same⟩

def Decodes (env : Env) (plan : Plan env.py) (pcm : Bytes) : Prop :=
  decodeFreshAudio plan.frames plan.preroll (plan.decode env.opus) maxPcmBytes = .ok pcm

/-- What holds where a call stands; `clean` as in `Call`. -/
def Positioned (env : Env) (captures : Captures) (plan : Plan env.py) (clean : Bool) : Position → Prop
  | .syncRoot => True
  | .lookup => True
  | .read => True
  | .syncTarget => Stored env captures plan
  | .syncKept => Stored env captures plan
  | .capacity => Free captures plan.id
  | .staging pcm now rest d => Free captures plan.id ∧ Decodes env plan pcm ∧
      rest.foldl (plan.stage env.sha256 pcm now) d = plan.publication env.sha256 pcm now
  | .rename pcm now d => Free captures plan.id ∧ Decodes env plan pcm ∧ d = plan.publication env.sha256 pcm now
  | .lookupAgain => clean = true → captures plan.id ≠ none
  | .readAgain => True
  | .syncCaptures => Stored env captures plan
  | .cleanup => Stored env captures plan

theorem Positioned.grow {captures captures' : Captures} (grows : Grows captures captures') {plan : Plan env.py}
    {clean : Bool} {position : Position} (before : Positioned env captures plan clean position) :
    Positioned env captures' plan clean position := by
  cases position with
  | syncRoot => trivial
  | lookup => trivial
  | read => trivial
  | syncTarget => exact grows.stored before
  | syncKept => exact grows.stored before
  | capacity => exact grows.free before
  | staging pcm now rest d => exact ⟨grows.free before.1, before.2⟩
  | rename pcm now d => exact ⟨grows.free before.1, before.2⟩
  | lookupAgain =>
      intro clean absent
      cases h : captures plan.id with
      | none => exact before clean h
      | some d =>
          rw [grows.keeps h] at absent
          cases absent
  | readAgain => trivial
  | syncCaptures => exact grows.stored before
  | cleanup => exact grows.stored before

theorem staged (plan : Plan env.py) (pcm : Bytes) (now : String) :
    stagingOps.foldl (plan.stage env.sha256 pcm now) emptyDirectory = plan.publication env.sha256 pcm now := rfl

theorem publication_ne_empty (plan : Plan env.py) (pcm : Bytes) (now : String) :
    plan.publication env.sha256 pcm now ≠ emptyDirectory := by
  intro h
  cases congrArg Directory.wav h

theorem publication_matches (plan : Plan env.py) (pcm : Bytes) (now : String) :
    receiptMatches (plan.publication env.sha256 pcm now) plan.id (env.sha256 plan.body) = true := by
  simp [receiptMatches, Plan.publication, Plan.delivery]

/-- The body of a call with its own finished directory in place. -/
def Published (env : Env) (captures : Captures) (body : Bytes) : Prop :=
  ∃ (plan : Plan env.py) (pcm : Bytes) (now : String), plan.body = body ∧ Decodes env plan pcm ∧
    captures plan.id = some (plan.publication env.sha256 pcm now)

theorem Grows.published {captures captures' : Captures} (grows : Grows captures captures') {body : Bytes}
    (published : Published env captures body) : Published env captures' body := by
  obtain ⟨plan, pcm, now, same, decodes, here⟩ := published
  exact ⟨plan, pcm, now, same, decodes, grows.keeps here⟩

/-- Why a call whose system calls all succeeded can have raised. -/
def Refused (env : Env) (body : Bytes) (e : Failure) : Prop :=
  e = .conflict ∨ (∃ message, parsePart env.py body = .error message) ∨
    ∃ (plan : Plan env.py) (message : String), plan.body = body ∧
      decodeFreshAudio plan.frames plan.preroll (plan.decode env.opus) maxPcmBytes = .error message

def PhaseOk (env : Env) (captures : Captures) (body : Bytes) (clean published : Bool) : Phase env.py → Prop
  | .start => published = false
  | .working plan position => plan.body = body ∧ Positioned env captures plan clean position ∧
      (published = true → position = .syncCaptures ∨ position = .cleanup)
  | .returned plan receipt => plan.body = body ∧ receipt = ⟨plan.id, env.sha256 body⟩ ∧ Stored env captures plan
  | .raised e => (published = true → e = .os) ∧ (clean = true → Refused env body e)

structure CallOk (env : Env) (captures : Captures) (call : Call env.py) : Prop where
  phase : PhaseOk env captures call.body call.clean call.published call.phase
  published : call.published = true → Published env captures call.body

theorem CallOk.grow {captures captures' : Captures} (grows : Grows captures captures') {call : Call env.py}
    (ok : CallOk env captures call) : CallOk env captures' call := by
  obtain ⟨phase, published⟩ := ok
  refine ⟨?_, fun h => grows.published (published h)⟩
  cases h : call.phase with
  | start =>
      rw [h] at phase
      exact phase
  | working plan position =>
      rw [h] at phase
      exact ⟨phase.1, phase.2.1.grow grows, phase.2.2⟩
  | returned plan receipt =>
      rw [h] at phase
      exact ⟨phase.1, phase.2.1, grows.stored phase.2.2⟩
  | raised e =>
      rw [h] at phase
      exact phase

/-! ## One step -/

theorem decodeFrom_even {decode : Decoder} {preroll limit : Nat} {seen frames : List Packet} {pcm out : Bytes}
    (even : pcm.length % 2 = 0) (decoded : decodeFrom decode preroll limit seen pcm frames = .ok out) :
    out.length % 2 = 0 := by
  induction frames generalizing seen pcm with
  | nil =>
      cases decoded
      exact even
  | cons frame rest ih =>
      unfold decodeFrom at decoded
      split at decoded
      · cases decoded
      · rename_i chunk _
        split at decoded
        · cases decoded
        · rename_i whole
          split at decoded
          · exact ih even decoded
          · split at decoded
            · cases decoded
            · refine ih ?_ decoded
              rw [List.length_append]
              have : ¬ chunk.length % 2 = 1 := fun h => whole (.inr h)
              omega

theorem Decodes.even {plan : Plan env.py} {pcm : Bytes} (decodes : Decodes env plan pcm) : pcm.length % 2 = 0 :=
  decodeFrom_even rfl decodes

/-- A step leaves `listen-captures` as it is, or it is the rename of a complete directory to a free name. -/
theorem work_captures (io : Io) {captures : Captures} {plan : Plan env.py} {clean : Bool} {position : Position}
    (before : Positioned env captures plan clean position) :
    (work env io captures plan position).1 = captures ∧ publishes io captures plan position = false ∨
    publishes io captures plan position = true ∧ captures plan.id = none ∧ ∃ pcm now, Decodes env plan pcm ∧
      (work env io captures plan position).1 = captures.put plan.id (plan.publication env.sha256 pcm now) ∧
      (work env io captures plan position).2 = .go .syncCaptures := by
  cases position with
  | rename pcm now d =>
      obtain ⟨free, decodes, rfl⟩ := before
      by_cases stuck : io.fails = true ∨ canReplace (captures plan.id) = false
      · left
        refine ⟨by simp only [work, if_pos stuck], ?_⟩
        rcases stuck with h | h <;> simp [publishes, h]
      · right
        rw [not_or, Bool.not_eq_true, Bool.not_eq_false] at stuck
        refine ⟨by simp [publishes, stuck], ?_, pcm, now, decodes, by simp [work, stuck], by simp [work, stuck]⟩
        cases h : captures plan.id with
        | none => rfl
        | some d =>
            have := stuck.2
            rw [h] at this
            exact absurd (eq_of_beq this) (free d h)
  | staging pcm now rest d => cases rest <;> exact .inl ⟨rfl, rfl⟩
  | _ => exact .inl ⟨rfl, rfl⟩

theorem work_grows (io : Io) {captures : Captures} {plan : Plan env.py} {clean : Bool} {position : Position}
    (before : Positioned env captures plan clean position) :
    Grows captures (work env io captures plan position).1 := by
  rcases work_captures io before with ⟨same, -⟩ | ⟨-, absent, pcm, now, -, put, -⟩
  · exact .inl same
  · exact .inr ⟨_, _, absent, publication_ne_empty plan pcm now, put⟩

/-- Where the outcome of a step leaves the call. -/
def OutcomeOk (env : Env) (captures : Captures) (plan : Plan env.py) (clean : Bool) : Outcome → Prop
  | .go next => Positioned env captures plan clean next
  | .done => Stored env captures plan
  | .fail e => clean = true → Refused env plan.body e

theorem guardOs_ok {io : Io} {captures : Captures} {plan : Plan env.py} {clean : Bool} {outcome : Outcome}
    (ok : OutcomeOk env captures plan (clean && !io.fails) outcome) :
    OutcomeOk env captures plan (clean && !io.fails) (guardOs io outcome) := by
  unfold guardOs
  split
  · rename_i fails
    intro clean
    simp [fails] at clean
  · exact ok

theorem readReceipt_ok {io : Io} {captures : Captures} {plan : Plan env.py} {clean : Bool} {next : Position}
    (ok : Stored env captures plan → Positioned env captures plan clean next) :
    OutcomeOk env captures plan clean (readReceipt io captures plan.id (env.sha256 plan.body) next) := by
  unfold readReceipt
  split
  · exact fun _ => .inl rfl
  · split
    · exact fun _ => .inl rfl
    · rename_i d here
      split
      · rename_i same
        exact ok ⟨d, here, same⟩
      · exact fun _ => .inl rfl

theorem work_ok (io : Io) {captures : Captures} {plan : Plan env.py} {clean : Bool} {position : Position}
    (before : Positioned env captures plan clean position) :
    OutcomeOk env (work env io captures plan position).1 plan (clean && !io.fails)
      (work env io captures plan position).2 := by
  cases position with
  | syncRoot => exact guardOs_ok trivial
  | lookup =>
      refine guardOs_ok ?_
      split
      · rename_i absent
        intro d here
        exact absurd (absent.symm.trans here) (by simp)
      · trivial
  | read => exact readReceipt_ok id
  | syncTarget => exact guardOs_ok before
  | syncKept => exact guardOs_ok before
  | capacity =>
      refine guardOs_ok ?_
      split
      · rename_i message failed
        exact fun _ => .inr (.inr ⟨plan, message, rfl, failed⟩)
      · rename_i pcm decodes
        exact ⟨before, decodes, staged plan pcm io.now⟩
  | staging pcm now rest d =>
      obtain ⟨free, decodes, ends⟩ := before
      cases rest with
      | nil => exact ⟨free, decodes, ends⟩
      | cons op rest =>
          refine guardOs_ok ?_
          split
          · rename_i odd
            have := decodes.even
            omega
          · exact ⟨free, decodes, ends⟩
  | rename pcm now d =>
      obtain ⟨free, decodes, rfl⟩ := before
      by_cases stuck : io.fails = true ∨ canReplace (captures plan.id) = false
      · simp only [work, if_pos stuck]
        intro untroubled absent
        simp only [Bool.and_eq_true, Bool.not_eq_true'] at untroubled
        rw [untroubled.2, absent] at stuck
        rcases stuck with h | h <;> cases h
      · simp only [work, if_neg stuck]
        exact ⟨_, Captures.put_same _ _ _, publication_matches plan pcm now⟩
  | lookupAgain =>
      refine guardOs_ok ?_
      split
      · rename_i absent
        intro untroubled
        simp only [Bool.and_eq_true] at untroubled
        exact absurd absent (before untroubled.1)
      · trivial
  | readAgain => exact readReceipt_ok id
  | syncCaptures => exact guardOs_ok before
  | cleanup => exact guardOs_ok before

/-- After its own rename a call only synchronises and cleans up, and raises nothing but an `OSError`. -/
theorem work_published {io : Io} {captures : Captures} {plan : Plan env.py} {position : Position}
    (late : position = .syncCaptures ∨ position = .cleanup) :
    (work env io captures plan position).2 = .go .cleanup ∨ (work env io captures plan position).2 = .done ∨
      (work env io captures plan position).2 = .fail .os := by
  rcases late with rfl | rfl
  · dsimp only [work, guardOs]
    split
    · exact .inr (.inr rfl)
    · exact .inl rfl
  · dsimp only [work, guardOs]
    split
    · exact .inr (.inr rfl)
    · exact .inr (.inl rfl)

theorem parseCall_ok (io : Io) (captures : Captures) (body : Bytes) :
    PhaseOk env captures body (!io.fails) false (parseCall env io body) := by
  unfold parseCall
  split
  · rename_i message failed
    exact ⟨fun h => (by cases h), fun _ => .inr (.inl ⟨message, failed⟩)⟩
  · split
    · rename_i fails
      refine ⟨fun h => (by cases h), fun clean => ?_⟩
      rw [fails] at clean
      cases clean
    · exact ⟨rfl, trivial, fun h => (by cases h)⟩

theorem advanceCall_ok (io : Io) {captures : Captures} {call : Call env.py} (ok : CallOk env captures call) :
    Grows captures (advanceCall env io captures call).1 ∧
      CallOk env (advanceCall env io captures call).1 (advanceCall env io captures call).2 := by
  obtain ⟨phase, published⟩ := ok
  unfold advanceCall
  cases h : call.phase with
  | start =>
      rw [h] at phase
      have silent : call.published = false := phase
      refine ⟨.inl rfl, ?_, published⟩
      dsimp only
      rw [silent]
      exact parseCall_ok io captures call.body
  | returned plan receipt => exact ⟨.inl rfl, phase, published⟩
  | raised e => exact ⟨.inl rfl, phase, published⟩
  | working plan position =>
      rw [h] at phase
      obtain ⟨same, before, late⟩ := phase
      have grows := work_grows io before
      have outcome := work_ok io before
      refine ⟨grows, ?_, ?_⟩
      · dsimp only
        have onlyOs : (call.published || publishes io captures plan position) = true →
            (work env io captures plan position).2 = .go .syncCaptures ∨
            (work env io captures plan position).2 = .go .cleanup ∨
            (work env io captures plan position).2 = .done ∨ (work env io captures plan position).2 = .fail .os := by
          intro either
          rcases Bool.or_eq_true_iff.mp either with already | now
          · exact .inr (work_published (late already))
          · rcases work_captures io before with ⟨-, never⟩ | ⟨-, -, pcm, time, -, -, next⟩
            · rw [never] at now
              cases now
            · exact .inl next
        generalize (work env io captures plan position).2 = result at outcome onlyOs
        cases result with
        | go next =>
            refine ⟨same, outcome, fun either => ?_⟩
            rcases onlyOs either with e | e | e | e <;> cases e
            · exact .inl rfl
            · exact .inr rfl
        | done => exact ⟨same, by rw [same], outcome⟩
        | fail e =>
            refine ⟨fun either => ?_, fun clean => same ▸ outcome clean⟩
            rcases onlyOs either with e | e | e | e <;> cases e
            rfl
      · intro either
        rcases Bool.or_eq_true_iff.mp either with already | now
        · exact grows.published (published already)
        · rcases work_captures io before with ⟨-, never⟩ | ⟨-, -, pcm, time, decodes, put, -⟩
          · rw [never] at now
            cases now
          · refine ⟨plan, pcm, time, same, decodes, ?_⟩
            dsimp only
            rw [put, Captures.put_same]

/-! ## Runs of the server -/

theorem advanceCall_body (io : Io) (captures : Captures) (call : Call env.py) :
    (advanceCall env io captures call).2.body = call.body ∧
      (call.published = true → (advanceCall env io captures call).2.published = true) := by
  unfold advanceCall
  cases h : call.phase with
  | start => exact ⟨rfl, fun h => h⟩
  | working plan position => exact ⟨rfl, fun h => by simp [h]⟩
  | returned plan receipt => exact ⟨rfl, fun h => h⟩
  | raised e => exact ⟨rfl, fun h => h⟩

def ServerOk (env : Env) (s : Server env.py) : Prop := ∀ call ∈ s.calls, CallOk env s.captures call

theorem serverOk_step {s t : Server env.py} {a : ServerAction} (ok : ServerOk env s) (step : Server.step env s a t) :
    Grows s.captures t.captures ∧ ServerOk env t := by
  cases step with
  | accept body =>
      refine ⟨.inl rfl, fun call member => ?_⟩
      rcases List.mem_append.mp member with old | new
      · exact ok call old
      · rw [List.mem_singleton.mp new]
        exact ⟨rfl, fun h => (by cases h)⟩
  | advance k io found =>
      rename_i current
      obtain ⟨grows, next⟩ := advanceCall_ok io (ok current (List.mem_of_getElem? found))
      refine ⟨grows, fun call member => ?_⟩
      rcases List.mem_or_eq_of_mem_set member with old | rfl
      · exact (ok call old).grow grows
      · exact next

theorem serverOk_run {s : Server env.py} (run : Reachable Server.init (Server.step env) s) : ServerOk env s := by
  refine run.invariant (I := ServerOk env) ?_ fun s a t before step => (serverOk_step before step).2
  intro s start call member
  rw [show s.calls = [] from start] at member
  cases member

/-- Where a directory of a later state comes from. -/
def Origin (env : Env) (before : Captures) (t : Server env.py) : Prop :=
  ∀ id d, t.captures id = some d → before id = some d ∨ ∃ call ∈ t.calls, call.published = true ∧
    ∃ (plan : Plan env.py) (pcm : Bytes) (now : String), plan.body = call.body ∧ plan.id = id ∧
      Decodes env plan pcm ∧ d = plan.publication env.sha256 pcm now

theorem origin_step {before : Captures} {s t : Server env.py} {a : ServerAction} (ok : ServerOk env s)
    (origin : Origin env before s) (step : Server.step env s a t) : Origin env before t := by
  cases step with
  | accept body =>
      intro id d here
      refine (origin id d here).imp (fun h => h) ?_
      rintro ⟨call, member, rest⟩
      exact ⟨call, List.mem_append_left _ member, rest⟩
  | advance k io found =>
      rename_i current
      have inside : k < s.calls.length := (List.getElem?_eq_some_iff.mp found).1
      have isCurrent : s.calls[k] = current := (List.getElem?_eq_some_iff.mp found).2
      obtain ⟨sameBody, stays⟩ := advanceCall_body io s.captures current
      have kept : ∀ id d, s.captures id = some d → before id = some d ∨
          ∃ call ∈ s.calls.set k (advanceCall env io s.captures current).2, call.published = true ∧
          ∃ (plan : Plan env.py) (pcm : Bytes) (now : String), plan.body = call.body ∧ plan.id = id ∧
            Decodes env plan pcm ∧ d = plan.publication env.sha256 pcm now := by
        intro id d here
        refine (origin id d here).imp (fun h => h) ?_
        rintro ⟨call, member, published, rest⟩
        obtain ⟨j, bound, rfl⟩ := List.mem_iff_getElem.mp member
        by_cases same : k = j
        · subst same
          rw [isCurrent] at published rest
          exact ⟨_, List.mem_set inside _, stays published, by rw [sameBody]; exact rest⟩
        · refine ⟨_, List.mem_iff_getElem.mpr ⟨j, by rw [List.length_set]; exact bound, ?_⟩, published, rest⟩
          rw [List.getElem_set_ne same]
      intro id d here
      cases phase : current.phase with
      | working plan position =>
          have valid := (ok current (List.mem_of_getElem? found)).phase
          rw [phase] at valid
          obtain ⟨bodyIs, positioned, -⟩ := valid
          rcases work_captures io positioned with ⟨same, -⟩ | ⟨now, absent, pcm, time, decodes, put, -⟩
          · refine kept id d ?_
            simp only [advanceCall, phase, same] at here
            exact here
          · by_cases mine : id = plan.id
            · refine .inr ⟨_, List.mem_set inside _, ?_, plan, pcm, time, bodyIs.trans sameBody.symm, mine.symm,
                decodes, ?_⟩
              · simp only [advanceCall, phase, now, Bool.or_true]
              · simp only [advanceCall, phase, put, mine, Captures.put_same] at here
                exact (Option.some.inj here).symm
            · refine kept id d ?_
              simp only [advanceCall, phase, put, Captures.put_other _ _ mine] at here
              exact here
      | start => exact kept id d (by simpa only [advanceCall, phase] using here)
      | returned plan receipt => exact kept id d (by simpa only [advanceCall, phase] using here)
      | raised e => exact kept id d (by simpa only [advanceCall, phase] using here)

theorem later_run {s t : Server env.py} (run : Reachable Server.init (Server.step env) s)
    (later : Reaches (Server.step env) s t) :
    Origin env s.captures t ∧ ∀ id d, s.captures id = some d → t.captures id = some d := by
  induction later with
  | refl => exact ⟨fun _ _ h => .inl h, fun _ _ h => h⟩
  | tail front last ih =>
      obtain ⟨a, step⟩ := last
      have ok := serverOk_run (run.after front)
      refine ⟨origin_step ok ih.1 step, fun id d here => ?_⟩
      exact (serverOk_step ok step).1.keeps (ih.2 id d here)

theorem receiptMatches_record {d : Directory} {id digest : String} (same : receiptMatches d id digest = true) :
    ∃ record, d.metadata.bind Metadata.delivery = some record ∧ record.id = id ∧ record.sha256 = digest := by
  unfold receiptMatches at same
  split at same
  · rename_i record here
    simp only [Bool.and_eq_true, beq_iff_eq] at same
    exact ⟨record, here, same.1.2, same.1.1⟩
  · cases same

theorem Plan.eq_of_body {py : Python} {p q : Plan py} (same : p.body = q.body) : p = q := by
  obtain ⟨body, fields, frames, parsed⟩ := p
  obtain ⟨body', fields', frames', parsed'⟩ := q
  obtain rfl : body = body' := same
  rw [parsed] at parsed'
  obtain ⟨rfl, rfl⟩ := Prod.mk.inj (Except.ok.inj parsed')
  rfl

/-- For any calls, in any order of their steps: a directory that is visible never changes again; a receipt names the
call's own identity and digest, and the directory of that name records both; receipts for one identity are for one
digest, hence for one body; a call that decodes and whose system calls all succeed can only raise `DeliveryConflict`;
every new directory is the complete publication of a call that renamed it; and a call that raises has renamed nothing,
or it has published its whole part and then failed to synchronise or clean up. -/
theorem store_write_once (env : Env) {s t : Server env.py} (run : Reachable Server.init (Server.step env) s)
    (later : Reaches (Server.step env) s t) :
    (∀ id d, s.captures id = some d → t.captures id = some d) ∧
    (∀ call ∈ t.calls, ∀ plan receipt, call.phase = .returned plan receipt → plan.body = call.body ∧
      receipt = ⟨plan.id, env.sha256 call.body⟩ ∧ ∃ d record, t.captures receipt.id = some d ∧
        d.metadata.bind Metadata.delivery = some record ∧ record.id = receipt.id ∧
        record.sha256 = env.sha256 call.body) ∧
    (∀ a ∈ t.calls, ∀ b ∈ t.calls, ∀ p q r r', a.phase = .returned p r → b.phase = .returned q r' → p.id = q.id →
      (env.sha256 a.body = env.sha256 b.body → a.body = b.body) → a.body = b.body) ∧
    (∀ call ∈ t.calls, ∀ (plan : Plan env.py) pcm e, plan.body = call.body → Decodes env plan pcm →
      call.clean = true → call.phase = .raised e → e = .conflict) ∧
    Origin env s.captures t ∧
    (∀ call ∈ t.calls, ∀ e, call.phase = .raised e → call.published = false ∨
      e = .os ∧ Published env t.captures call.body) := by
  have ok := serverOk_run (run.after later)
  obtain ⟨origin, kept⟩ := later_run run later
  have stored : ∀ call ∈ t.calls, ∀ plan receipt, call.phase = .returned plan receipt → plan.body = call.body ∧
      receipt = ⟨plan.id, env.sha256 call.body⟩ ∧ ∃ d record, t.captures plan.id = some d ∧
        d.metadata.bind Metadata.delivery = some record ∧ record.id = plan.id ∧
        record.sha256 = env.sha256 call.body := by
    intro call member plan receipt ended
    have phase := (ok call member).phase
    rw [ended] at phase
    obtain ⟨same, receiptIs, d, here, matching⟩ := phase
    obtain ⟨record, recorded, id, digest⟩ := receiptMatches_record matching
    exact ⟨same, receiptIs, d, record, here, recorded, id, by rw [digest, same]⟩
  refine ⟨kept, ?_, ?_, ?_, origin, ?_⟩
  · intro call member plan receipt ended
    obtain ⟨same, receiptIs, rest⟩ := stored call member plan receipt ended
    refine ⟨same, receiptIs, ?_⟩
    rw [receiptIs]
    exact rest
  · intro a ha b hb p q r r' endedA endedB sameId unique
    obtain ⟨-, -, d, record, here, recorded, -, digest⟩ := stored a ha p r endedA
    obtain ⟨-, -, d', record', here', recorded', -, digest'⟩ := stored b hb q r' endedB
    rw [sameId, here'] at here
    cases here
    rw [recorded'] at recorded
    cases recorded
    exact unique (digest.symm.trans digest')
  · intro call member plan pcm e same decodes clean ended
    have phase := (ok call member).phase
    rw [ended] at phase
    rcases phase.2 clean with conflict | ⟨message, failed⟩ | ⟨other, message, otherSame, failed⟩
    · exact conflict
    · rw [← same, plan.parsed] at failed
      cases failed
    · rw [Plan.eq_of_body (otherSame.trans same.symm)] at failed
      rw [show decodeFreshAudio plan.frames plan.preroll _ _ = _ from decodes] at failed
      cases failed
  · intro call member e ended
    have phase := (ok call member).phase
    rw [ended] at phase
    cases published : call.published with
    | false => exact .inl rfl
    | true => exact .inr ⟨phase.1 published, (ok call member).published published⟩

/-! ## An undisturbed call -/

theorem reaches_advance (io : Io) (captures : Captures) (call : Call env.py) :
    Reaches (Server.step env) ⟨captures, [call]⟩
      ⟨(advanceCall env io captures call).1, [(advanceCall env io captures call).2]⟩ :=
  .single ⟨_, .advance ⟨captures, [call]⟩ 0 io rfl⟩

theorem reaches_staged (captures : Captures) (plan : Plan env.py) {pcm : Bytes} (even : pcm.length % 2 = 0)
    (now : String) (rest : List StageOp) (d : Directory) :
    Reaches (Server.step env) ⟨captures, [⟨plan.body, .working plan (.staging pcm now rest d), true, false⟩]⟩
      ⟨captures, [⟨plan.body, .working plan (.rename pcm now (rest.foldl (plan.stage env.sha256 pcm now) d)),
        true, false⟩]⟩ := by
  induction rest generalizing d with
  | nil => exact reaches_advance ⟨false, now⟩ captures _
  | cons op rest ih =>
      have first := reaches_advance ⟨false, now⟩ captures
        (⟨plan.body, .working plan (.staging pcm now (op :: rest) d), true, false⟩ : Call env.py)
      have aligned : ¬ (op = .writePcm ∧ pcm.length % 2 = 1) := by omega
      simp only [advanceCall, work, guardOs, if_neg aligned] at first
      exact first.trans (ih _)

/-- A call that meets no failure and a free name publishes its part. -/
theorem reaches_published (captures : Captures) {plan : Plan env.py} {pcm : Bytes}
    (absent : captures plan.id = none) (decodes : Decodes env plan pcm) (now : String) :
    Reaches (Server.step env) ⟨captures, [beginCall env.py plan.body]⟩
      ⟨captures.put plan.id (plan.publication env.sha256 pcm now),
        [⟨plan.body, .working plan .syncCaptures, true, true⟩]⟩ := by
  have io : Io := ⟨false, now⟩
  have parsed : parseCall env ⟨false, now⟩ plan.body = .working plan .syncRoot := by
    unfold parseCall
    split
    · rename_i message failed
      rw [plan.parsed] at failed
      cases failed
    · exact congrArg (Phase.working · .syncRoot) (Plan.eq_of_body rfl)
  have start := reaches_advance ⟨false, now⟩ captures (beginCall env.py plan.body)
  simp only [advanceCall, beginCall, parsed] at start
  have rooted := reaches_advance ⟨false, now⟩ captures
    (⟨plan.body, .working plan .syncRoot, true, false⟩ : Call env.py)
  have looked := reaches_advance ⟨false, now⟩ captures
    (⟨plan.body, .working plan .lookup, true, false⟩ : Call env.py)
  simp only [advanceCall, work, guardOs, absent] at looked
  have decoded := reaches_advance ⟨false, now⟩ captures
    (⟨plan.body, .working plan .capacity, true, false⟩ : Call env.py)
  simp only [advanceCall, work, guardOs,
    show decodeFreshAudio plan.frames plan.preroll (plan.decode env.opus) maxPcmBytes = .ok pcm from decodes] at decoded
  have staging := reaches_staged captures plan decodes.even now stagingOps emptyDirectory
  have renamed := reaches_advance ⟨false, now⟩ captures
    (⟨plan.body, .working plan (.rename pcm now (plan.publication env.sha256 pcm now)), true, false⟩ : Call env.py)
  simp only [advanceCall, work, canReplace, publishes, absent] at renamed
  rw [staged] at staging
  exact ((((start.trans rooted).trans looked).trans decoded).trans staging).trans renamed

end Calls

/-! ## The last clause of the contract -/

def sampleTime : DateTime := ⟨2026, 9, 1, 8, 0, 0, 0, 0, by decide, by decide, by decide⟩

def sampleHeader : Header where
  version := 2
  id := ⟨"6f1d2c3b-4a59-4e68-8f77-0123456789ab", by decide⟩
  recordingId := ⟨"0a1b2c3d-4e5f-4a6b-8c7d-9e8f7a6b5c4d", by decide⟩
  index := 0
  source := .phone
  codec := .pcm16
  startedAt := sampleTime
  serverId := ⟨"0123456789abcdef0123456789abcdef0123456789abcdef0123456789abcdef", by decide⟩
  prerollFrames := 0

theorem sample_deliverable : Deliverable sampleHeader [] [[1, 2]] where
  version := rfl
  index := by decide
  format := rfl
  years := by decide
  count := rfl
  some := by decide
  packets := by decide
  room := by decide
  size := by decide +kernel
  context := .inl rfl

def samplePlan : Plan python where
  body := opening sampleHeader [] ++ encodeAll be32 [[1, 2]]
  fields := sampleHeader.fields
  frames := [[1, 2]]
  parsed := parsePart_phone sample_deliverable

def sampleEnv : Env := ⟨python, fun body => String.ofList (body.map fun b => Char.ofNat b.toNat), fun _ _ => none⟩

theorem sample_decodes : Decodes sampleEnv samplePlan [1, 2] := by
  have preroll : samplePlan.preroll = 0 := by
    have := validatePreroll_phone sample_deliverable.version sample_deliverable.count
      sample_deliverable.some sample_deliverable.context
    exact congrArg (fun r : Except String Nat => r.toOption.getD 0) this
  have codec : samplePlan.decode sampleEnv.opus = fun _ frame => some frame := if_pos (by decide +kernel)
  have decoded : decodeFreshAudio samplePlan.frames samplePlan.preroll (samplePlan.decode sampleEnv.opus)
      maxPcmBytes = .ok [1, 2] := by
    rw [preroll, codec]
    rfl
  exact decoded

/-- The synchronisation after the rename fails: the call raises and its new directory stays. -/
theorem raised_after_publishing : ∃ t : Server python,
    Reaches (Server.step sampleEnv) ⟨fun _ => none, [beginCall python samplePlan.body]⟩ t ∧
      (∃ call ∈ t.calls, call.phase = .raised .os) ∧ (t.captures samplePlan.id).isSome = true := by
  have published := reaches_published (fun _ => none) rfl sample_decodes "now"
  have failed := reaches_advance ⟨true, "now"⟩
    (Captures.put (fun _ => none) samplePlan.id (samplePlan.publication sampleEnv.sha256 [1, 2] "now"))
    (⟨samplePlan.body, .working samplePlan .syncCaptures, true, true⟩ : Call sampleEnv.py)
  refine ⟨_, published.trans failed, ⟨_, List.mem_singleton_self _, rfl⟩, ?_⟩
  simp [advanceCall, work, Captures.put]

theorem store_write_once_raised : ∃ t : Server python,
    Reaches (Server.step sampleEnv) ⟨fun _ => none, [beginCall python samplePlan.body]⟩ t ∧
      ∃ call ∈ t.calls, call.phase = .raised .os ∧ Published sampleEnv t.captures call.body := by
  have begun : Reachable Server.init (Server.step sampleEnv) ⟨fun _ => none, [beginCall python samplePlan.body]⟩ :=
    .next (.start (show Server.init (⟨fun _ => none, []⟩ : Server sampleEnv.py) from rfl)) (.accept _ samplePlan.body)
  have published := reaches_published (fun _ => none) rfl sample_decodes "now"
  have failed := reaches_advance ⟨true, "now"⟩
    (Captures.put (fun _ => none) samplePlan.id (samplePlan.publication sampleEnv.sha256 [1, 2] "now"))
    (⟨samplePlan.body, .working samplePlan .syncCaptures, true, true⟩ : Call sampleEnv.py)
  have contract := store_write_once sampleEnv begun (published.trans failed)
  refine ⟨_, published.trans failed, _, List.mem_singleton_self _, rfl, ?_⟩
  exact ((contract.2.2.2.2.2 _ (List.mem_singleton_self _) .os rfl).resolve_left (by simp [advanceCall])).2

end OmiLocal.Delivery
