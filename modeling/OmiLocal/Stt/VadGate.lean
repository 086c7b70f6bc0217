import OmiLocal.Lib.Bisect
import OmiLocal.Lib.Transition
import Mathlib.Data.Rat.Floor

/-!
# The streaming voice gate

`VADStreamingGate` forwards audio to the transcription provider only around
speech, and `WallTimeMapper` turns the provider's time, which counts forwarded
audio only, back into session time. Times are exact rationals and the voice
detector's decision is an input of each chunk. The gate never reads the audio
itself, so the byte type is arbitrary.
-/
namespace OmiLocal.Stt

open Lib.Bisect

def vadGatePreRollMs : ℚ := 300
def vadGateHangoverMs : ℚ := 4000
def vadGateFinalizeSilenceMs : ℚ := 300
def maxCheckpoints : Nat := 500
def sampleWidth : Nat := 2

inductive GateMode where
  | shadow
  | active
deriving DecidableEq, Repr

inductive GateState where
  | silence
  | speech
  | hangover
deriving DecidableEq, Repr

structure Config where
  sampleRate : Nat
  channels : Nat
  sampleRate_pos : 0 < sampleRate
  channels_pos : 0 < channels

def Config.frameBytes (config : Config) : Nat := sampleWidth * config.channels

def Config.bytesPerSecond (config : Config) : Nat := sampleWidth * config.channels * config.sampleRate

def Config.seconds (config : Config) (bytes : Nat) : ℚ := bytes / config.bytesPerSecond

/-- A checkpoint holds provider time and session time at a silence-to-speech transition. -/
structure Checkpoint where
  dgSec : ℚ
  wallRelSec : ℚ
deriving DecidableEq, Repr

structure WallTimeMapper where
  checkpoints : List Checkpoint
  providerCursorSec : ℚ
  sending : Bool
deriving DecidableEq, Repr

namespace WallTimeMapper

def new : WallTimeMapper := ⟨[], 0, false⟩

def minWall (mapper : WallTimeMapper) (last : Checkpoint) : ℚ :=
  last.wallRelSec + (mapper.providerCursorSec - last.dgSec)

/-- Pre-roll may start before the end of the last audio sent. -/
def clampWall (mapper : WallTimeMapper) (wallRelSec : ℚ) : ℚ :=
  match mapper.checkpoints.getLast? with
  | none => wallRelSec
  | some last => max wallRelSec (mapper.minWall last)

def compact (checkpoints : List Checkpoint) : List Checkpoint :=
  if maxCheckpoints < checkpoints.length then
    checkpoints.take 1 ++ checkpoints.drop (checkpoints.length - (maxCheckpoints - 1))
  else checkpoints

def onAudioSent (mapper : WallTimeMapper) (chunkDurationSec chunkWallRelSec : ℚ) : WallTimeMapper :=
  let marked :=
    if mapper.sending then mapper.checkpoints
    else compact (mapper.checkpoints ++ [⟨mapper.providerCursorSec, mapper.clampWall chunkWallRelSec⟩])
  ⟨marked, mapper.providerCursorSec + chunkDurationSec, true⟩

def onSilenceSkipped (mapper : WallTimeMapper) : WallTimeMapper := { mapper with sending := false }

def dgToWallRel (mapper : WallTimeMapper) (dgSec : ℚ) : ℚ :=
  let index := bisectRight (mapper.checkpoints.map (·.dgSec)) dgSec - 1
  match mapper.checkpoints[index]? with
  | none => dgSec
  | some checkpoint => checkpoint.wallRelSec + (dgSec - checkpoint.dgSec)

end WallTimeMapper

structure Gate (α : Type) where
  mode : GateMode
  state : GateState
  audioCursorMs : ℚ
  lastSpeechMs : ℚ
  hangoverFinalized : Bool
  preRoll : List (List α)
  preRollTotalMs : ℚ
  mapper : WallTimeMapper
  firstAudioWallTime : Option ℚ

structure GateOutput (α : Type) where
  audioToSend : List α
  shouldFinalize : Bool
  state : GateState
  isSpeech : Bool

variable {α : Type} (config : Config)

namespace Gate

def new (mode : GateMode) : Gate α where
  mode := mode
  state := .silence
  audioCursorMs := 0
  lastSpeechMs := 0
  hangoverFinalized := false
  preRoll := []
  preRollTotalMs := 0
  mapper := .new
  firstAudioWallTime := none

/-- Switch from shadow to active mode: the provider has received all audio so far. -/
def activate (gate : Gate α) : Gate α :=
  match gate.mode with
  | .active => gate
  | .shadow =>
    { gate with
      mode := .active
      state := .silence
      preRoll := []
      preRollTotalMs := 0
      hangoverFinalized := false
      mapper := { gate.mapper with providerCursorSec := gate.audioCursorMs / 1000 } }

/-- Drop the oldest chunks while the pre-roll is too long and holds more than one. -/
def evict : List (List α) → ℚ → List (List α) × ℚ
  | oldest :: next :: rest, totalMs =>
    if vadGatePreRollMs < totalMs then
      evict (next :: rest) (totalMs - config.seconds oldest.length * 1000)
    else (oldest :: next :: rest, totalMs)
  | chunks, totalMs => (chunks, totalMs)

/-- The pre-roll after `pcm` is buffered in silence. -/
def bufferPreRoll (gate : Gate α) (pcm : List α) : List (List α) × ℚ :=
  evict config (gate.preRoll ++ [pcm]) (gate.preRollTotalMs + config.seconds pcm.length * 1000)

def wallRel (gate : Gate α) (wallTime : ℚ) : ℚ :=
  match gate.firstAudioWallTime with
  | none => 0
  | some first => if first ≠ 0 then wallTime - first else 0

def updateSilence (gate : Gate α) (pcm : List α) (isSpeech : Bool) (wallTime : ℚ) : Gate α × GateOutput α :=
  let buffered := bufferPreRoll config gate pcm
  if isSpeech then
    let preRollAudio := buffered.1.flatten
    let preRollDuration := config.seconds preRollAudio.length
    let preRollWallRel := max 0 (gate.wallRel wallTime - preRollDuration + config.seconds pcm.length)
    ({ gate with
        state := .speech
        preRoll := []
        preRollTotalMs := 0
        mapper := gate.mapper.onAudioSent preRollDuration preRollWallRel },
      ⟨preRollAudio, false, .speech, true⟩)
  else
    ({ gate with
        preRoll := buffered.1
        preRollTotalMs := buffered.2
        mapper := gate.mapper.onSilenceSkipped },
      ⟨[], false, .silence, false⟩)

def sendChunk (gate : Gate α) (pcm : List α) (wallTime : ℚ) : WallTimeMapper :=
  gate.mapper.onAudioSent (config.seconds pcm.length) (gate.wallRel wallTime)

def updateSpeech (gate : Gate α) (pcm : List α) (isSpeech : Bool) (wallTime : ℚ) : Gate α × GateOutput α :=
  let sent := { gate with mapper := sendChunk config gate pcm wallTime }
  if isSpeech then (sent, ⟨pcm, false, .speech, true⟩)
  else ({ sent with state := .hangover, hangoverFinalized := false }, ⟨pcm, false, .hangover, false⟩)

def updateHangover (gate : Gate α) (pcm : List α) (isSpeech : Bool) (wallTime : ℚ) : Gate α × GateOutput α :=
  let timeSinceSpeechMs := gate.audioCursorMs - gate.lastSpeechMs
  if isSpeech then
    ({ gate with state := .speech, hangoverFinalized := false, mapper := sendChunk config gate pcm wallTime },
      ⟨pcm, false, .speech, true⟩)
  else if vadGateHangoverMs < timeSinceSpeechMs then
    ({ gate with
        state := .silence
        hangoverFinalized := false
        preRoll := [pcm]
        preRollTotalMs := config.seconds pcm.length * 1000
        mapper := gate.mapper.onSilenceSkipped },
      ⟨[], !gate.hangoverFinalized, .silence, false⟩)
  else
    let shouldFinalizeNow := !gate.hangoverFinalized && decide (vadGateFinalizeSilenceMs ≤ timeSinceSpeechMs)
    ({ gate with
        hangoverFinalized := gate.hangoverFinalized || shouldFinalizeNow
        mapper := sendChunk config gate pcm wallTime },
      ⟨pcm, shouldFinalizeNow, .hangover, false⟩)

def updateState (gate : Gate α) (pcm : List α) (isSpeech : Bool) (wallTime : ℚ) : Gate α × GateOutput α :=
  match gate.state with
  | .silence => updateSilence config gate pcm isSpeech wallTime
  | .speech => updateSpeech config gate pcm isSpeech wallTime
  | .hangover => updateHangover config gate pcm isSpeech wallTime

/-- The bookkeeping that every chunk does before the mode is looked at. -/
def track (gate : Gate α) (pcm : List α) (isSpeech : Bool) (wallTime : ℚ) : Gate α :=
  let samples := pcm.length / config.frameBytes
  let cursorMs := gate.audioCursorMs + samples * 1000 / config.sampleRate
  { gate with
    firstAudioWallTime := some (gate.firstAudioWallTime.getD wallTime)
    audioCursorMs := cursorMs
    lastSpeechMs := if isSpeech then cursorMs else gate.lastSpeechMs }

def processAudio (gate : Gate α) (pcm : List α) (isSpeech : Bool) (wallTime : ℚ) : Gate α × GateOutput α :=
  let tracked := track config gate pcm isSpeech wallTime
  match gate.mode with
  | .shadow => (tracked, ⟨pcm, false, tracked.state, isSpeech⟩)
  | .active => updateState config tracked pcm isSpeech wallTime

end Gate

end OmiLocal.Stt
