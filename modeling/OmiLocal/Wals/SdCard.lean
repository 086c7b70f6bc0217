import OmiLocal.Wals.ExternalWals
import OmiLocal.Wals.RingProtocol
import OmiLocal.Lib.Dict
import OmiLocal.Lib.Transition

/-!
# Reading the SD card

`SDCardWalSyncImpl._syncWal` in both read modes. Without timestamp markers the
packet callback only collects frames, which are written when the transfer has
ended; with markers it writes chunks itself and other packets arrive while it
awaits the disk. The model runs each of these between its awaits. Offsets and
speeds, which only the progress display shows, are left out. A chunk records the
frames it was made of.
-/
namespace OmiLocal.Wals.SdCard
open Lib Lib.Framing Lib.Transition
open Phone (SessionLocation addExternalWal)

def sdcardChunkSizeSecs : Nat := 180

/-- `[?, ?, ?, length, frame]`; nothing when the length does not fit. -/
def parseLegacyPacketFrame (value : Bytes) : Option Bytes :=
  let amount := (value.getD 3 0).toNat
  if amount = 0 ∨ value.length < 4 + amount then none else some ((value.drop 4).take amount)

/-- What a packet adds to: the frames, and the timestamp markers, each with the number of frames before it. -/
structure Received where
  bytesData : List Bytes
  timestampMarkers : List (Nat × Int)
  deriving DecidableEq

def byteAt (value : Bytes) (i : Nat) : Nat := (value.getD i 0).toNat

def epochAt (value : Bytes) (i : Nat) : Nat :=
  byteAt value i + 256 * byteAt value (i + 1) + 65536 * byteAt value (i + 2) + 16777216 * byteAt value (i + 3)

/-- The loop over a packet with markers. Each pass moves on, so the fuel is the packet's length. -/
def unpackMarked (value : Bytes) : Nat → Nat → Received → Received
  | 0, _, r => r
  | fuel + 1, packageOffset, r =>
      if value.length ≤ packageOffset + 1 then r
      else
        let packageSize := byteAt value packageOffset
        if packageSize = 0 then unpackMarked value fuel (packageOffset + 1) r
        else if packageSize = 0xff ∧ packageOffset + 5 ≤ value.length then
          let epoch := epochAt value (packageOffset + 1)
          unpackMarked value fuel (packageOffset + 5)
            (if 0 < epoch then { r with timestampMarkers := r.timestampMarkers ++ [(r.bytesData.length, (epoch : Int))] } else r)
        else if value.length ≤ packageOffset + 1 + packageSize then r
        else
          let frame := (value.take (packageOffset + 1 + packageSize)).drop (packageOffset + 1)
          unpackMarked value fuel (packageOffset + (packageSize + 1)) { r with bytesData := r.bytesData ++ [frame] }

/-- The recording being read, and what does not change during the run. -/
structure Card where
  wal : Phone.Wal
  supportsTimestampMarkers : Bool
  sessionLocation : SessionLocation

namespace Card
variable (x : Card)

def framesPerSecond : Nat := x.wal.codec.getFramesPerSecond

/-- The read without markers counts 100 frames a second, whatever the codec. -/
def chunkSize : Nat := if x.supportsTimestampMarkers then sdcardChunkSizeSecs * x.framesPerSecond else sdcardChunkSizeSecs * 100

def getFileNameByTimeStarts (timerStart : Int) : String := ({ x.wal with timerStart := timerStart } : Phone.Wal).getFileName

def unpack (value : Bytes) (r : Received) : Received :=
  if value.length = 83 then { r with bytesData := r.bytesData ++ (parseLegacyPacketFrame value).toList }
  else if value.length = 440 then
    if x.supportsTimestampMarkers then unpackMarked value value.length 0 r
    else { r with bytesData := StorageSync.packageFrom value 0 r.bytesData }
  else r

end Card

/-- Frames `start` to `stop` as one chunk. `stored` is recorded: its file was written and its registration begun. -/
structure Chunk where
  start : Nat
  stop : Nat
  timerStart : Int
  stored : Bool
  deriving DecidableEq

/-- A chunk on its way, by its number: its file is being written, or the list of recordings behind its entry. -/
inductive Flush where
  | writing (chunk : Nat)
  | registering (chunk : Nat)
  deriving DecidableEq

/-- A packet callback that awaits the disk, in its loop or at a marker. -/
structure Callback where
  flush : Flush
  nextMarkerIdx : Nat
  atMarker : Bool
  deriving DecidableEq

/-- A chunk to be written at the end; `guarded` when its errors are swallowed. -/
structure Segment where
  start : Nat
  stop : Nat
  timerStart : Int
  guarded : Bool
  deriving DecidableEq

inductive Main where
  | listening
  | ended
  | flushing (flush : Flush) (guarded : Bool) (left : List Segment)
  | clearing
  | cleared
  | nothing
  | threw
  deriving DecidableEq

/-- `endedBy` is recorded: the status code that ended the transfer. So are `chunks`, all chunks in the order in which
their frames were taken. -/
structure SdSync where
  received : Received
  bytesLeft : Nat
  timerStart : Int
  hasError : Bool
  firstDataReceived : Bool
  callbacks : List Callback
  main : Main
  chunksDownloaded : Nat
  isCancelled : Bool
  files : List (String × List Bytes)
  wals : List Phone.Wal
  endedBy : Option Nat
  chunks : List Chunk
  deriving DecidableEq

/-- How a write ends: whole, or with an error that may leave some frames in the file. -/
inductive Written where
  | whole
  | failed (left : Option Nat)
  deriving DecidableEq

namespace SdSync
variable (x : Card) (s : SdSync)

def frames : Nat := s.received.bytesData.length

def content (c : Chunk) : List Bytes := (s.received.bytesData.drop c.start).take (c.stop - c.start)

/-- `sublist` of the collected frames, taken for a chunk. -/
def takeChunk (stop : Nat) : SdSync :=
  { s with bytesLeft := stop, chunks := s.chunks ++ [⟨s.bytesLeft, stop, s.timerStart, false⟩] }

/-! ## The packet callback -/

def nextMarkerIdx : Nat :=
  ((s.received.timestampMarkers.map Prod.fst).find? fun key => decide (s.bytesLeft < key)).getD s.frames

def suspend (nextMarkerIdx : Nat) (atMarker : Bool) : SdSync :=
  { s with callbacks := s.callbacks ++ [⟨.writing (s.chunks.length - 1), nextMarkerIdx, atMarker⟩] }

/-- The frames before a marker that has been reached. -/
def markerStep (nextMarkerIdx : Nat) : SdSync :=
  if (s.received.timestampMarkers.any fun m => m.1 == nextMarkerIdx) ∧ nextMarkerIdx ≤ s.frames ∧
      s.bytesLeft < nextMarkerIdx then (s.takeChunk nextMarkerIdx).suspend nextMarkerIdx true
  else s

/-- The callback's loop over whole chunks, up to its next await. -/
def chunkLoop (nextMarkerIdx : Nat) : SdSync :=
  if s.bytesLeft + x.chunkSize ≤ s.frames ∧ s.bytesLeft + x.chunkSize ≤ nextMarkerIdx then
    (s.takeChunk (s.bytesLeft + x.chunkSize)).suspend nextMarkerIdx false
  else s.markerStep nextMarkerIdx

def complete (code : Nat) : SdSync :=
  if s.main = .listening then { s with main := .ended, endedBy := some code } else s

/-- The future completes with an error, which `_syncWal` throws on. -/
def completeError : SdSync := { s with hasError := true, main := if s.main = .listening then .threw else s.main }

def onStorageBytesReceived (value : Bytes) : SdSync :=
  if value.isEmpty ∨ s.hasError then s
  else
    let s := { s with firstDataReceived := true }
    match value with
    | [code] => if code.toNat = 0 ∨ code.toNat = 3 then s else s.complete code.toNat
    | _ =>
        let s := { s with received := x.unpack value s.received }
        if x.supportsTimestampMarkers then s.chunkLoop x s.nextMarkerIdx else s

/-- Behind the flush of a callback: its chunk moves the start time on, a marker sets it. -/
def resumeCallback (callback : Callback) (chunk : Chunk) : SdSync :=
  let s := { s with timerStart := s.timerStart + (chunk.stop - chunk.start) / x.framesPerSecond }
  if callback.atMarker then
    match s.received.timestampMarkers.find? fun m => m.1 == callback.nextMarkerIdx with
    | some m => { s with timerStart := m.2 }
    | none => s
  else s.chunkLoop x callback.nextMarkerIdx

/-! ## Writing a chunk -/

def writeFile (chunk : Chunk) (kept : Nat) : SdSync :=
  { s with files := Dict.put s.files (x.getFileNameByTimeStarts chunk.timerStart) ((s.content chunk).take kept) }

def chunkWal (chunk : Chunk) : Phone.Wal :=
  { codec := x.wal.codec
    channel := x.wal.channel
    sampleRate := x.wal.sampleRate
    timerStart := chunk.timerStart
    filePath := some (x.getFileNameByTimeStarts chunk.timerStart)
    storage := .disk
    status := .miss
    device := x.wal.device
    seconds := (chunk.stop - chunk.start) / x.framesPerSecond
    totalFrames := chunk.stop - chunk.start }

def registerSingleChunk (chunk : Chunk) : SdSync :=
  { s with wals := addExternalWal x.sessionLocation s.wals (chunkWal x chunk) }

/-- `_flushToDisk` and the start of `_syncWal`'s callback; `false` when one of them throws. -/
def flushToDisk (n : Nat) (chunk : Chunk) (written : Written) : Bool × SdSync :=
  match written with
  | .failed none => (false, s)
  | .failed (some kept) => (false, s.writeFile x chunk kept)
  | .whole =>
      let s := s.writeFile x chunk (chunk.stop - chunk.start)
      if s.isCancelled then (false, s)
      else (true, { s.registerSingleChunk x chunk with chunks := s.chunks.set n { chunk with stored := true } })

/-! ## After the transfer -/

/-- Without markers: whole chunks, whose errors are swallowed, and a last one. -/
def wholeSegments (size framesPerSecond : Nat) : Nat → Nat → Int → List Segment
  | 0, _, _ => []
  | count + 1, left, timerStart =>
      ⟨left, left + size, timerStart, true⟩ ::
        wholeSegments size framesPerSecond count (left + size) (timerStart + size / framesPerSecond)

def legacySegments (size framesPerSecond frames : Nat) (timerStart : Int) : List Segment :=
  let count := frames / size
  wholeSegments size framesPerSecond count 0 timerStart ++
    if count * size < frames then [⟨count * size, frames, timerStart + count * (size / framesPerSecond), false⟩] else []

/-- With markers: the frames left, cut at each marker among them. -/
def markedSegments (bytesLeft frames : Nat) : List (Nat × Int) → Nat → Int → List Segment
  | [], start, epoch => if start < frames then [⟨start, frames, epoch, false⟩] else []
  | m :: markers, start, epoch =>
      if bytesLeft < m.1 ∧ m.1 < frames then
        (if start < m.1 then [⟨start, m.1, epoch, false⟩] else []) ++ markedSegments bytesLeft frames markers m.1 m.2
      else markedSegments bytesLeft frames markers start epoch

def segments (nowSeconds : Int) : List Segment :=
  if s.hasError then []
  else if x.supportsTimestampMarkers then
    if s.bytesLeft < s.frames then
      markedSegments s.bytesLeft s.frames s.received.timestampMarkers s.bytesLeft s.timerStart
    else []
  else legacySegments x.chunkSize x.framesPerSecond s.frames (nowSeconds - s.frames / x.framesPerSecond)

/-- The next chunk, or the end: the card is cleared if any chunk was downloaded. -/
def nextSegment (left : List Segment) : SdSync :=
  match left with
  | [] => { s with main := if s.chunksDownloaded = 0 then .nothing else .clearing }
  | segment :: left =>
      { s with
        chunks := s.chunks ++ [⟨segment.start, segment.stop, segment.timerStart, false⟩]
        main := .flushing (.writing s.chunks.length) segment.guarded left }

/-- A flush of `_readStorageBytesToFile` has failed. -/
def mainFailed (guarded : Bool) : SdSync :=
  if guarded then { s with hasError := true }.nextSegment [] else { s with main := .threw }

inductive Action where
  | packet (value : Bytes)
  | timeout
  | cancelSync
  | foreignWal (wal : Phone.Wal)
  | callbackWrite (i : Nat) (written : Written)
  | callbackRegister (i : Nat) (listSaved : Bool)
  | finish (nowSeconds : Int)
  | mainWrite (written : Written)
  | mainRegister (listSaved : Bool)
  | clear

/-- A packet comes as long as the stream is listened to; callbacks go on after it. -/
def act : Action → Option SdSync
  | .packet value => if s.main = .listening then some (s.onStorageBytesReceived x value) else none
  | .timeout => if s.main = .listening ∧ ¬s.firstDataReceived then some s.completeError else none
  | .cancelSync => some { s with isCancelled := true }
  | .foreignWal wal => some { s with wals := addExternalWal x.sessionLocation s.wals wal }
  | .callbackWrite i written => do
      let callback ← s.callbacks[i]?
      match callback.flush with
      | .registering _ => none
      | .writing n =>
          let chunk ← s.chunks[n]?
          let (stored, s) := s.flushToDisk x n chunk written
          if stored then some { s with callbacks := s.callbacks.set i { callback with flush := .registering n } }
          else some ({ s with callbacks := s.callbacks.eraseIdx i }.completeError.resumeCallback x callback chunk)
  | .callbackRegister i listSaved => do
      let callback ← s.callbacks[i]?
      match callback.flush with
      | .writing _ => none
      | .registering n =>
          let chunk ← s.chunks[n]?
          let s := { s with callbacks := s.callbacks.eraseIdx i }
          if listSaved then
            some ({ s with chunksDownloaded := s.chunksDownloaded + 1 }.resumeCallback x callback chunk)
          else some (s.completeError.resumeCallback x callback chunk)
  | .finish nowSeconds => if s.main = .ended then some (s.nextSegment (s.segments x nowSeconds)) else none
  | .mainWrite written =>
      match s.main with
      | .flushing (.writing n) guarded left => do
          let chunk ← s.chunks[n]?
          let (stored, s) := s.flushToDisk x n chunk written
          if stored then some { s with main := .flushing (.registering n) guarded left } else some (s.mainFailed guarded)
      | _ => none
  | .mainRegister listSaved =>
      match s.main with
      | .flushing (.registering _) guarded left =>
          if listSaved then some ({ s with chunksDownloaded := s.chunksDownloaded + 1 }.nextSegment left)
          else some (s.mainFailed guarded)
      | _ => none
  | .clear => if s.main = .clearing then some { s with main := .cleared } else none

/-- `_syncWal` has sent the read command; recordings and files of earlier runs are there. -/
structure Started : Prop where
  received : s.received = ⟨[], []⟩
  bytesLeft : s.bytesLeft = 0
  timerStart : s.timerStart = x.wal.timerStart
  hasError : s.hasError = false
  callbacks : s.callbacks = []
  main : s.main = .listening
  chunksDownloaded : s.chunksDownloaded = 0
  chunks : s.chunks = []
  endedBy : s.endedBy = none

end SdSync
end OmiLocal.Wals.SdCard
