import Mathlib.Data.Rat.Defs
import OmiLocal.Lib.Transition
import OmiLocal.Capture.Journal

/-!
# Offline audio capture

`OfflineAudioCapture`, `rotate_offline_audio_capture` and
`recover_offline_audio_captures` as sequences of file system operations. The
process can end before each of them. A write of PCM is atomic, and so is
`os.replace`; what is written before a replacement goes to a temporary file that
nothing else reads. A JSON file is the value that its text holds, and `audio.wav`
is its sample data.
-/
namespace OmiLocal.Offline

open Lib.Framing Lib.Json Lib.Transition Capture

def schemaVersion : Int := 1
def outputSampleRate : Int := 16000
def outputChannels : Int := 1
def outputSampleWidthBytes : Nat := 2
def captureChunkSeconds : Nat := 5 * 60
def copyBytes : Nat := 1024 * 1024

/-- What the code takes from Python: number texts, `str` and `int` of the values for which they are not plain,
and the text of a duration. -/
structure Python where
  float : String → ℚ
  str : Value → String
  int : Value → Option Int
  duration : Nat → String

def inputCodecs : List (String × List String) := [("omi", ["opus", "opus_fs320"]), ("phone", ["pcm16"])]

def inputFormatSupported (source inputCodec : String) : Bool :=
  inputCodecs.any fun entry => entry.1 == source && entry.2.contains inputCodec

def lower (value : String) : String := String.ofList (value.toList.map Char.toLower)

/-- `uuid.UUID` takes more texts, but only a canonical form, up to the case of its letters, is its own `str`. -/
def validatedSessionId (value : String) : Except String String :=
  if canonicalUuid (lower value) then .ok (lower value)
  else .error "offline capture session ID must be a canonical UUID"

/-! ## Metadata -/

structure Counters where
  framesReceived : Int
  encodedBytes : Int
  decodeErrors : Int

def captureFields (py : Python) (sessionId startedAt : String) (endedAt : Option String) (inputCodec source : String)
    (counters : Counters) (decodedPcmBytes : Nat) (status : String) : List (String × Value) :=
  [("schema_version", .int schemaVersion), ("session_id", .str sessionId), ("started_at", .str startedAt),
    ("ended_at", (endedAt.map Value.str).getD .null), ("source", .str source),
    ("input", .obj [("codec", .str inputCodec), ("sample_rate", .int outputSampleRate),
      ("channels", .int outputChannels)]),
    ("output", .obj [("file", .str "audio.wav"), ("codec", .str "pcm_s16le"), ("sample_rate", .int outputSampleRate),
      ("channels", .int outputChannels)]),
    ("frames_received", .int counters.framesReceived), ("encoded_bytes", .int counters.encodedBytes),
    ("decoded_pcm_bytes", .int decodedPcmBytes), ("duration_seconds", .real (py.duration decodedPcmBytes)),
    ("decode_errors", .int counters.decodeErrors), ("status", .str status)]

def captureMetadata (py : Python) (sessionId startedAt : String) (endedAt : Option String) (inputCodec source : String)
    (counters : Counters) (decodedPcmBytes : Nat) (status : String) : Value :=
  .obj (captureFields py sessionId startedAt endedAt inputCodec source counters decodedPcmBytes status)

/-- `value == n` for a parsed JSON value. -/
def equalsInt (py : Python) (n : Int) : Option Value → Bool
  | some (.int m) => decide (m = n)
  | some (.bool b) => decide ((if b then 1 else 0) = n)
  | some (.real text) => decide (py.float text = (n : ℚ))
  | _ => false

def truthy (py : Python) : Option Value → Bool
  | none => false
  | some .null => false
  | some (.bool b) => b
  | some (.int n) => decide (n ≠ 0)
  | some (.real text) => decide (py.float text ≠ 0)
  | some (.str s) => decide (s ≠ "")
  | some (.arr items) => !items.isEmpty
  | some (.obj fields) => !fields.isEmpty

/-- `int(loaded.get(key) or 0)`. -/
def countField (py : Python) (key : String) (fields : List (String × Value)) : Except String Int :=
  if truthy py (field key fields) then
    match field key fields with
    | some (.int n) => .ok n
    | some value => (py.int value).elim (.error "int") .ok
    | none => .ok 0
  else .ok 0

/-- `str(loaded.get('started_at') or ended_at)`. -/
def startField (py : Python) (fields : List (String × Value)) (endedAt : String) : String :=
  if truthy py (field "started_at" fields) then
    match field "started_at" fields with
    | some (.str s) => s
    | some value => py.str value
    | none => endedAt
  else endedAt

/-! ## Directories -/

structure SessionDir where
  name : String
  pcmPart : Option Bytes
  metadataPart : Option Value
  wav : Option Bytes
  metadata : Option Value

def newDir (name : String) : SessionDir := ⟨name, none, none, none, none⟩

/-- The checks of `_recover_one` and the metadata that it writes. Nothing is changed before they all pass. -/
def recoverOne (py : Python) (d : SessionDir) (endedAt : String) : Except String Value := do
  let sessionId ← validatedSessionId d.name
  let loaded ← d.metadataPart.elim (.error "FileNotFoundError") .ok
  let pcm ← d.pcmPart.elim (.error "FileNotFoundError") .ok
  match loaded with
  | .obj fields =>
      if equalsInt py schemaVersion (field "schema_version" fields) = false then
        .error "unsupported offline capture recovery metadata"
      else
        match field "source" fields with
        | some (.str source) =>
            if strField "session_id" fields ≠ some sessionId ∨ (inputCodecs.any fun entry => entry.1 == source) = false then
              .error "offline capture recovery identity mismatch"
            else
              match field "input" fields with
              | some (.obj input) =>
                  match field "codec" input with
                  | some (.str codec) =>
                      if inputFormatSupported source codec = false then .error "offline capture recovery codec mismatch"
                      else if equalsInt py outputSampleRate (field "sample_rate" input) = false ∨
                          equalsInt py outputChannels (field "channels" input) = false then
                        .error "offline capture recovery input format mismatch"
                      else if pcm.length % outputSampleWidthBytes ≠ 0 then
                        .error "offline capture PCM part is not sample-aligned"
                      else do
                        let frames ← countField py "frames_received" fields
                        let encoded ← countField py "encoded_bytes" fields
                        let errors ← countField py "decode_errors" fields
                        .ok (captureMetadata py sessionId (startField py fields endedAt) (some endedAt) codec source
                          ⟨frames, encoded, errors⟩ pcm.length "recovered")
                  | _ => .error "offline capture recovery codec mismatch"
              | _ => .error "offline capture recovery codec mismatch"
        | _ => .error "offline capture recovery identity mismatch"
  | _ => .error "unsupported offline capture recovery metadata"

/-! ## File system operations -/

inductive FileOp where
  | createPcm
  | appendPcm (pcm : Bytes)
  | closePcm
  | temporary
  | replaceMetadataPart (payload : Value)
  | copyPcm
  | replaceWav
  | replaceMetadata (payload : Value)
  | unlinkPcm
  | unlinkMetadataPart

/-- `_write_wav_atomic`, the final metadata and the removal of the parts. -/
def publishOps (payload : Value) : List FileOp :=
  [.temporary, .copyPcm, .replaceWav, .temporary, .replaceMetadata payload, .unlinkPcm, .unlinkMetadataPart]

def progressOps (payload : Value) : List FileOp := [.temporary, .replaceMetadataPart payload]

/-- The operations that are left, and the sample data in the temporary WAV file. -/
structure Program where
  todo : List FileOp
  copied : Bytes

def run (todo : List FileOp) : Program := ⟨todo, []⟩

/-- One operation on a directory. The copy loop reads one chunk at a time until the part is at its end. -/
def perform (d : SessionDir) (p : Program) : SessionDir × Program :=
  match p.todo with
  | [] => (d, p)
  | .createPcm :: rest => ({ d with pcmPart := some [] }, ⟨rest, p.copied⟩)
  | .appendPcm pcm :: rest => ({ d with pcmPart := d.pcmPart.map (· ++ pcm) }, ⟨rest, p.copied⟩)
  | .closePcm :: rest => (d, ⟨rest, p.copied⟩)
  | .temporary :: rest => (d, ⟨rest, []⟩)
  | .replaceMetadataPart payload :: rest => ({ d with metadataPart := some payload }, ⟨rest, p.copied⟩)
  | .copyPcm :: rest =>
      let chunk := ((d.pcmPart.getD []).drop p.copied.length).take copyBytes
      if chunk = [] then (d, ⟨rest, p.copied⟩) else (d, ⟨.copyPcm :: rest, p.copied ++ chunk⟩)
  | .replaceWav :: rest => ({ d with wav := some p.copied }, ⟨rest, p.copied⟩)
  | .replaceMetadata payload :: rest => ({ d with metadata := some payload }, ⟨rest, p.copied⟩)
  | .unlinkPcm :: rest => ({ d with pcmPart := none }, ⟨rest, p.copied⟩)
  | .unlinkMetadataPart :: rest => ({ d with metadataPart := none }, ⟨rest, p.copied⟩)

/-! ## Captures -/

structure OfflineAudioCapture where
  dir : Nat
  sessionId : String
  source : String
  inputCodec : String
  startedAt : String
  counters : Counters
  decodedPcmBytes : Nat
  closed : Bool
  rotating : Bool
  program : Program

namespace OfflineAudioCapture

def metadata (py : Python) (c : OfflineAudioCapture) (endedAt : Option String) (status : String) : Value :=
  captureMetadata py c.sessionId c.startedAt endedAt c.inputCodec c.source c.counters c.decodedPcmBytes status

def progress (py : Python) (c : OfflineAudioCapture) : Value := c.metadata py none "recording"

/-- The object after `mkdir`; the part files are still to be made. -/
def make (py : Python) (dir : Nat) (sessionId source inputCodec startedAt : String) : OfflineAudioCapture :=
  let c : OfflineAudioCapture := ⟨dir, sessionId, source, inputCodec, startedAt, ⟨0, 0, 0⟩, 0, false, false, run []⟩
  { c with program := run (.createPcm :: progressOps (c.progress py)) }

def recordDecodedFrame (py : Python) (c : OfflineAudioCapture) (encodedBytes : Nat) (pcm : Bytes) :
    Except String OfflineAudioCapture :=
  if c.closed then .error "offline capture is already closed"
  else if pcm.length % outputSampleWidthBytes ≠ 0 then
    .error "decoded PCM byte count is not aligned to PCM16 samples"
  else
    let counters := { c.counters with
      framesReceived := c.counters.framesReceived + 1, encodedBytes := c.counters.encodedBytes + encodedBytes }
    let next := { c with counters := counters, decodedPcmBytes := c.decodedPcmBytes + pcm.length }
    .ok { next with program := run (.appendPcm pcm :: progressOps (next.progress py)) }

def recordDecodeError (py : Python) (c : OfflineAudioCapture) (encodedBytes : Nat) : Except String OfflineAudioCapture :=
  if c.closed then .error "offline capture is already closed"
  else
    let counters : Counters := ⟨c.counters.framesReceived + 1, c.counters.encodedBytes + encodedBytes,
      c.counters.decodeErrors + 1⟩
    let next := { c with counters := counters }
    .ok { next with program := run (progressOps (next.progress py)) }

def finalize (py : Python) (c : OfflineAudioCapture) (now : String) : Except String OfflineAudioCapture :=
  if c.closed then .error "offline capture is already closed"
  else .ok { c with closed := true, program := run (.closePcm :: publishOps (c.metadata py (some now) "completed")) }

/-- `rotate_offline_audio_capture` up to the end of `finalize`. -/
def rotate (py : Python) (c : OfflineAudioCapture) (now : String) : Except String OfflineAudioCapture :=
  if (c.decodedPcmBytes : Int) < captureChunkSeconds * outputSampleRate * outputSampleWidthBytes then .ok c
  else (c.finalize py now).map fun c => { c with rotating := true }

end OfflineAudioCapture

/-! ## The process -/

/-- A run of `recover_offline_audio_captures`: the directories that are left, and the one in work. -/
structure Recovery where
  rest : List Nat
  dir : Nat
  program : Program
  recovered : Nat
  failed : Nat

/-- The directories in the order of their creation, the live captures, a run of the recovery, and the frames whose
write completed with their session. -/
structure World where
  dirs : List SessionDir
  live : List OfflineAudioCapture
  recovery : Option Recovery
  written : List (Nat × Bytes)

inductive Action where
  | create (sessionId source inputCodec now : String)
  | frame (i encodedBytes : Nat) (pcm : Bytes)
  | decodeError (i encodedBytes : Nat)
  | finalize (i : Nat) (now : String)
  | rotate (i : Nat) (now : String)
  | rotated (i : Nat) (sessionId now : String)
  | perform (i : Nat)
  | die
  | recover
  | recoverNext (endedAt : String)
  | recoverPerform
  | recovered

namespace World

def addCapture (py : Python) (s : World) (sessionId source inputCodec now : String) : Option World :=
  match validatedSessionId sessionId with
  | .error _ => none
  | .ok id =>
      if inputFormatSupported source inputCodec = false ∨ (s.dirs.any fun d => d.name == id) = true then none
      else some { s with
        dirs := s.dirs ++ [newDir id]
        live := s.live ++ [.make py s.dirs.length id source inputCodec now] }

/-- A call on a capture that has finished its last call; a call that raises changes nothing. -/
def call (s : World) (i : Nat) (f : OfflineAudioCapture → Except String OfflineAudioCapture) : Option World :=
  s.live[i]?.bind fun c =>
    if c.program.todo ≠ [] ∨ c.rotating = true then none
    else (f c).toOption.map fun c => { s with live := s.live.set i c }

def writtenBy (c : OfflineAudioCapture) : List (Nat × Bytes) :=
  match c.program.todo with
  | .appendPcm pcm :: _ => [(c.dir, pcm)]
  | _ => []

def performAt (s : World) (dir : Nat) (p : Program) : List SessionDir × Program :=
  match s.dirs[dir]? with
  | none => (s.dirs, p)
  | some d => (s.dirs.set dir (Offline.perform d p).1, (Offline.perform d p).2)

/-- `sorted(capture_root.glob('*/audio.pcm.part'))`, as positions. -/
def partDirs (dirs : List SessionDir) : List Nat :=
  (((dirs.zipIdx.filter fun e => e.1.pcmPart.isSome).mergeSort fun a b => decide (a.1.name ≤ b.1.name)).map Prod.snd)

def act (py : Python) (s : World) : Action → Option World
  | .create sessionId source inputCodec now =>
      if s.recovery.isSome then none else s.addCapture py sessionId source inputCodec now
  | .frame i encodedBytes pcm => s.call i fun c => c.recordDecodedFrame py encodedBytes pcm
  | .decodeError i encodedBytes => s.call i fun c => c.recordDecodeError py encodedBytes
  | .finalize i now => s.call i fun c => c.finalize py now
  | .rotate i now => s.call i fun c => c.rotate py now
  | .rotated i sessionId now => s.live[i]?.bind fun c =>
      if c.program.todo ≠ [] ∨ c.rotating = false then none
      else ({ s with live := s.live.set i { c with rotating := false } } : World).addCapture py sessionId c.source
        c.inputCodec now
  | .perform i => s.live[i]?.bind fun c =>
      if c.program.todo = [] then none
      else some { s with
        dirs := (s.performAt c.dir c.program).1
        live := s.live.set i { c with program := (s.performAt c.dir c.program).2 }
        written := s.written ++ writtenBy c }
  | .die => some { s with live := [], recovery := none }
  | .recover =>
      if s.live ≠ [] ∨ s.recovery.isSome then none
      else some { s with recovery := some ⟨partDirs s.dirs, 0, run [], 0, 0⟩ }
  | .recoverNext endedAt => s.recovery.bind fun r =>
      if r.program.todo ≠ [] then none
      else
        match r.rest with
        | [] => none
        | dir :: rest => s.dirs[dir]?.map fun d =>
            match recoverOne py d endedAt with
            | .error _ => { s with recovery := some ⟨rest, dir, run [], r.recovered, r.failed + 1⟩ }
            | .ok payload => { s with recovery := some ⟨rest, dir, run (publishOps payload), r.recovered + 1, r.failed⟩ }
  | .recoverPerform => s.recovery.bind fun r =>
      if r.program.todo = [] then none
      else some { s with
        dirs := (s.performAt r.dir r.program).1
        recovery := some { r with program := (s.performAt r.dir r.program).2 } }
  | .recovered => s.recovery.bind fun r =>
      if r.program.todo ≠ [] ∨ r.rest ≠ [] then none else some { s with recovery := none }

def init (s : World) : Prop := s.dirs = [] ∧ s.live = [] ∧ s.recovery = none ∧ s.written = []

def step (py : Python) (s : World) (a : Action) (t : World) : Prop := s.act py a = some t

end World

end OmiLocal.Offline
