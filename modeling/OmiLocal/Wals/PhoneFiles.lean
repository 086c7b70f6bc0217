import OmiLocal.Wals.PhoneWal
import OmiLocal.Wals.FrameFiles
import OmiLocal.Lib.Dict
import OmiLocal.Lib.Transition

/-!
# Writing captured frames to files

`_chunk`, `_flush` and `finalizeCurrentSession` between their awaits, for the session of one
device and codec. Any number of flushes may be running; each is suspended where it awaits the
path, the opening of the file (which empties it), the write, the close or the list of
recordings.
-/
namespace OmiLocal.Wals.Phone
open Lib Lib.Framing

def newFrameSyncDelaySeconds : Nat := 15

structure WalFrame where
  payload : Bytes
  syncKey : List Nat
  deriving DecidableEq

/-- What stays the same during a session: the codec, `_deviceId ?? "omi"`, the location and the setting. -/
structure Session where
  codec : BleAudioCodec
  device : String
  geolocation : Option Geolocation
  unlimitedLocalStorageEnabled : Bool
  deriving DecidableEq

/-- What a flush awaits for a recording, with the bytes it has made of its frames. -/
inductive Stage where
  | path
  | opening (data : Bytes)
  | writing (data : Bytes)
  | closing (data : Bytes)
  deriving DecidableEq

def Stage.bytes : Stage → Option Bytes
  | .path => none
  | .opening data | .writing data | .closing data => some data

inductive Flush where
  | wal (i : Nat) (name : String) (stage : Stage)
  | saving
  deriving DecidableEq

/-- `files` are the bytes of each file in the documents directory. The last three are recorded for the statements:
the frames that the file of a recording of an earlier session held when it was loaded, whose `data` is empty; the
frames that left the list; and for each recording the positions among these of its `data`. -/
structure PhoneStorage where
  frames : List WalFrame
  frameSynced : List Bool
  wals : List Wal
  files : List (String × Bytes)
  flushes : List Flush
  nowSeconds : Int
  restored : List (List Bytes)
  removed : List WalFrame
  held : List (List Nat)
  deriving DecidableEq

namespace Session
variable (x : Session)

def framesPerSecond : Nat := x.codec.getFramesPerSecond

/-- `_chunk` and `finalizeCurrentSession` store frames if the setting says so, or if the socket lost many of them. -/
def shouldStored (frameSynced : List Bool) : Bool :=
  x.unlimitedLocalStorageEnabled || decide (10 * x.framesPerSecond ≤ frameSynced.count false)

def syncedOffset (frameSynced : List Bool) : Nat := (frameSynced.takeWhile fun synced => synced).length

def chunkStatus (frameSynced : List Bool) (chunkFrameCount : Nat) : WalStatus :=
  if syncedOffset frameSynced = chunkFrameCount then .synced else .miss

def newWal (timerStart : Int) (chunk : List Bytes) (frameSynced : List Bool) : Wal :=
  { timerStart := timerStart
    codec := x.codec
    seconds := chunk.length / x.framesPerSecond
    device := x.device
    status := chunkStatus frameSynced chunk.length
    storage := .mem
    data := chunk
    totalFrames := chunk.length
    syncedFrameOffset := syncedOffset frameSynced
    geolocation := x.geolocation }

def extendWal (w : Wal) (chunk : List Bytes) (frameSynced : List Bool) : Wal :=
  { w with
    data := w.data ++ chunk
    storage := .mem
    totalFrames := chunk.length
    syncedFrameOffset := syncedOffset frameSynced
    status := chunkStatus frameSynced chunk.length }

end Session

namespace PhoneStorage

def chunk (s : PhoneStorage) (high : Nat) : List Bytes := (s.frames.take high).map WalFrame.payload

/-- The positions of the next frames to leave. -/
def positions (s : PhoneStorage) (high : Nat) : List Nat := List.range' s.removed.length high

def add (x : Session) (s : PhoneStorage) (timerStart : Int) (high : Nat) : PhoneStorage :=
  { s with
    wals := s.wals ++ [x.newWal timerStart (s.chunk high) (s.frameSynced.take high)]
    held := s.held ++ [s.positions high] }

def extend (s : PhoneStorage) (i high : Nat) : PhoneStorage :=
  { s with
    wals := s.wals.modify i fun w => Session.extendWal w (s.chunk high) (s.frameSynced.take high)
    held := s.held.modify i fun positions => positions ++ s.positions high }

/-- `_wals.indexWhere` of `_chunk`. -/
def walIdx (x : Session) (s : PhoneStorage) (timerStart : Int) : Option Nat :=
  s.wals.findIdx? fun w => decide (w.timerStart = timerStart) && decide (w.device = x.device) && decide (w.codec = x.codec)

def store (x : Session) (s : PhoneStorage) (timerStart : Int) (high : Nat) : PhoneStorage :=
  match s.walIdx x timerStart with
  | none => s.add x timerStart high
  | some i => s.extend i high

def remove (s : PhoneStorage) (high : Nat) : PhoneStorage :=
  { s with
    frames := s.frames.drop high
    frameSynced := s.frameSynced.drop high
    removed := s.removed ++ s.frames.take high }

/-- The frames that `_chunk` takes: all but the newest ones. -/
def pivot (x : Session) (s : PhoneStorage) : Nat := s.frames.length - newFrameSyncDelaySeconds * x.framesPerSecond

def chunkStart (x : Session) (s : PhoneStorage) : Int :=
  s.nowSeconds - newFrameSyncDelaySeconds - (s.pivot x / x.framesPerSecond : Nat)

/-- `_chunk`. -/
def chunkFrames (x : Session) (s : PhoneStorage) : PhoneStorage :=
  let high := s.pivot x
  if high = 0 then s
  else if x.shouldStored (s.frameSynced.take high) then (s.store x (s.chunkStart x) high).remove high
  else s.remove high

/-- The loop of `_flush` from the recording `i`, up to its next await. -/
def nextFlush (wals : List Wal) (i : Nat) : Flush :=
  match (wals.zipIdx.drop i).find? fun e => decide (e.1.storage = .mem) with
  | some (w, j) => .wal j w.getFileName .path
  | none => .saving

def startFlush (s : PhoneStorage) : PhoneStorage := { s with flushes := s.flushes ++ [nextFlush s.wals 0] }

def finalStart (x : Session) (s : PhoneStorage) : Int := s.nowSeconds - (s.frames.length / x.framesPerSecond : Nat)

def finalizeCurrentSession (x : Session) (s : PhoneStorage) : PhoneStorage :=
  let high := s.frames.length
  if high = 0 then s
  else if x.shouldStored s.frameSynced then ((s.add x (s.finalStart x) high).remove high).startFlush
  else (s.remove high).startFlush

/-- The bytes are written over what the file holds. -/
def overwrite (old data : Bytes) : Bytes := data ++ old.drop data.length

/-- The flush `k` goes on after its await. -/
def resume (s : PhoneStorage) (k : Nat) : Option PhoneStorage :=
  match s.flushes[k]? with
  | none => none
  | some .saving => some { s with flushes := s.flushes.eraseIdx k }
  | some (.wal i name stage) =>
      match s.wals[i]? with
      | none => none
      | some w =>
          match stage with
          | .path => some { s with flushes := s.flushes.set k (.wal i name (.opening (flushToDisk w.data))) }
          | .opening data =>
              some { s with
                files := Dict.put s.files name []
                flushes := s.flushes.set k (.wal i name (.writing data)) }
          | .writing data =>
              some { s with
                files := Dict.put s.files name (overwrite ((Dict.get s.files name).getD []) data)
                flushes := s.flushes.set k (.wal i name (.closing data)) }
          | .closing _ =>
              let wals := s.wals.set i { w with filePath := some w.getFileName, storage := .disk }
              some { s with
                wals := wals
                flushes := s.flushes.set k (nextFlush wals (i + 1)) }

/-- `markFrameSynced`: the last frame with the key. -/
def markFrameSynced (s : PhoneStorage) (syncKey : List Nat) : PhoneStorage :=
  match (s.frames.zipIdx.reverse.find? fun e => decide (e.1.syncKey = syncKey)) with
  | none => s
  | some (_, i) => { s with frameSynced := s.frameSynced.set i true }

end PhoneStorage

inductive Event where
  | onFrameCaptured (frame : WalFrame)
  | markFrameSynced (syncKey : List Nat)
  | chunk
  | flush
  | finalizeCurrentSession
  | resume (k : Nat)
  | wait (seconds : Nat)

def happen (x : Session) (s : PhoneStorage) : Event → Option PhoneStorage
  | .onFrameCaptured frame =>
      some { s with frames := s.frames ++ [frame], frameSynced := s.frameSynced ++ [false] }
  | .markFrameSynced syncKey => some (s.markFrameSynced syncKey)
  | .chunk => some (s.chunkFrames x)
  | .flush => some s.startFlush
  | .finalizeCurrentSession => some (s.finalizeCurrentSession x)
  | .resume k => s.resume k
  | .wait seconds => some { s with nowSeconds := s.nowSeconds + seconds }

/-! ## The condition -/

/-- `_chunk` extends no recording of an earlier session and none of which a flush has the bytes, and
`finalizeCurrentSession` does not compute the start of a recording that is there. -/
def Event.Steady (x : Session) (s : PhoneStorage) : Event → Prop
  | .chunk => s.pivot x ≠ 0 → ∀ i, s.walIdx x (s.chunkStart x) = some i → s.restored.getD i [] = [] ∧
      ∀ name stage, .wal i name stage ∈ s.flushes → stage.bytes = none
  | .finalizeCurrentSession => s.frames ≠ [] → ∀ w ∈ s.wals, w.timerStart ≠ s.finalStart x
  | _ => True

/-- A session starts with the recordings of the device that were loaded, without their frames. -/
structure Loaded (x : Session) (s : PhoneStorage) : Prop where
  frames : s.frames = [] ∧ s.frameSynced = [] ∧ s.removed = [] ∧ s.flushes = []
  device : ∀ w ∈ s.wals, w.device = x.device ∧ w.codec = x.codec ∧ w.data = []
  names : (s.wals.map Wal.getFileName).Nodup
  restored : s.restored.length = s.wals.length
  held : s.held = s.wals.map fun _ => []
  disk : ∀ (i : Nat) (w : Wal), s.wals[i]? = some w → w.storage = .disk → w.filePath = some w.getFileName ∧
    Dict.get s.files w.getFileName = some (flushToDisk (s.restored.getD i []))
  mem : ∀ (i : Nat) (w : Wal), s.wals[i]? = some w → w.storage = .mem → s.restored.getD i [] = []

abbrev Recorded (x : Session) : PhoneStorage → Prop :=
  Transition.Reachable (Loaded x) fun s e t => happen x s e = some t

abbrev RecordedSteady (x : Session) : PhoneStorage → Prop :=
  Transition.Reachable (Loaded x) fun s e t => e.Steady x s ∧ happen x s e = some t

/-- The frames of a recording. -/
def PhoneStorage.framesOf (s : PhoneStorage) (i : Nat) (w : Wal) : List Bytes := s.restored.getD i [] ++ w.data

/-- Each frame that left the list is held by one recording, once; a recording has the frames it holds, in order. -/
structure FramesHeldOnce (s : PhoneStorage) : Prop where
  once : s.held.flatten.Perm (List.range s.removed.length)
  wals : s.held.length = s.wals.length
  data : ∀ (i : Nat) (w : Wal) (positions : List Nat), s.wals[i]? = some w → s.held[i]? = some positions →
    positions.Pairwise (· < ·) ∧ positions.map (fun n => (s.removed[n]?).map WalFrame.payload) = w.data.map some

/-- The file is the records of these frames, and read as such if they are not empty or too long for the reader. -/
def Decodes (file : Option Bytes) (frames : List Bytes) : Prop :=
  file = some (flushToDisk frames) ∧ ((∀ f ∈ frames, 1 ≤ f.length ∧ f.length ≤ 65536) →
    scan le32 Sync.maxSyncFrameBytes frames.length (flushToDisk frames) = some (frames, []))

end OmiLocal.Wals.Phone
