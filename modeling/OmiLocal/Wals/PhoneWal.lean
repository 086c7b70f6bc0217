import OmiLocal.Wals.StorageSync
import OmiLocal.Lib.Framing
import Mathlib.Data.List.Sort

/-!
# Recordings on the phone

The `Wal` objects of `LocalWalSyncImpl`, with the fields that capture, flush and upload read
or set, and the names of their files. The flags and estimates that only the sync page shows
are left out.
-/
namespace OmiLocal.Wals.Phone
open Lib.Framing

inductive BleAudioCodec where
  | pcm16
  | pcm8
  | mulaw16
  | mulaw8
  | opus
  | opusFS320
  | aac
  | lc3FS1030
  | unknown
  deriving DecidableEq

def mapCodecToName : BleAudioCodec → String
  | .opusFS320 => "opus_fs320"
  | .opus => "opus"
  | .pcm16 => "pcm16"
  | .pcm8 => "pcm8"
  | .aac => "aac"
  | .lc3FS1030 => "lc3_fs1030"
  | _ => "pcm8"

def BleAudioCodec.getFramesPerSecond (codec : BleAudioCodec) : Nat := if codec = .opusFS320 then 50 else 100

def BleAudioCodec.getFrameSize (codec : BleAudioCodec) : Nat := if codec = .opusFS320 then 320 else 160

/-- Time and coordinates as the batch key prints them. -/
structure Geolocation where
  time : Option String
  latitude : String
  longitude : String
  deriving DecidableEq

structure Wal where
  timerStart : Int
  codec : BleAudioCodec
  channel : Nat := 1
  sampleRate : Nat := 16000
  seconds : Nat
  device : String
  status : WalStatus
  storage : WalStorage
  filePath : Option String := none
  data : List Bytes := []
  totalFrames : Nat := 0
  syncedFrameOffset : Nat := 0
  conversationId : Option String := none
  geolocation : Option Geolocation := none
  jobId : Option String := none
  uploadedAt : Int := 0
  deriving DecidableEq

namespace Wal

def id (w : Wal) : String := w.device ++ "_" ++ toString w.timerStart

def frameSize (w : Wal) : Nat := w.codec.getFrameSize

/-- `device.replaceAll(RegExp(r'[^a-zA-Z0-9]'), "").toLowerCase()`. -/
def deviceSlug (w : Wal) : String := .ofList ((w.device.toList.filter Char.isAlphanum).map Char.toLower)

def getFileName (w : Wal) : String :=
  "audio_" ++ w.deviceSlug ++ "_" ++ mapCodecToName w.codec ++ "_" ++ toString w.sampleRate ++ "_" ++
    toString w.channel ++ "_fs" ++ toString w.frameSize ++ "_" ++ toString w.timerStart ++ ".bin"

def markCorrupted (w : Wal) : Wal := { w with status := .corrupted }

def markOutsideRecoveryWindow (w : Wal) : Wal := { w with status := .outsideRecoveryWindow }

/-- What `_flush` leaves of a recording. -/
def flushed (w : Wal) : Wal :=
  if w.storage = .mem then { w with filePath := some w.getFileName, storage := .disk } else w

theorem flushed_status (w : Wal) : w.flushed.status = w.status := by
  unfold flushed
  split <;> rfl

theorem flushed_conversationId (w : Wal) : w.flushed.conversationId = w.conversationId := by
  unfold flushed
  split <;> rfl

end Wal

end OmiLocal.Wals.Phone
