import OmiLocal.Lib.Blocks
import OmiLocal.Wals.FrameFiles
import OmiLocal.Wals.SdCard

/-!
# Reading the ring

`RingStorageSyncImpl._syncRing` from the subscription to the decision about the
advance. Notifications arrive while a flush of earlier frames awaits the disk;
one flush runs at a time, and the last one begins when the stream is closed and
the flush before it has ended. The model runs each of these between its awaits.
Speeds and progress are left out.
-/
namespace OmiLocal.Wals.Ring
open Lib Lib.Framing Lib.Transition
open Phone (SessionLocation addExternalWal)
open SdCard (sdcardChunkSizeSecs)

/-! ## The wire -/

def notifyData : UInt8 := 0x03

def notifyDone : UInt8 := 0x04

def notifyReadBegin : UInt8 := 0x05

def cmdAdvance : UInt8 := 0x12

/-- `nextSeq` are the 64 bits of the number. -/
structure DoneNotification where
  status : Nat
  nextSeq : Nat
  deriving DecidableEq

def DoneNotification.isOk (done : DoneNotification) : Bool := done.status == 0

def parseDoneNotification (value : Bytes) : Option DoneNotification :=
  if value.head? = some notifyDone ∧ 10 ≤ value.length then
    some ⟨(value.getD 1 0).toNat, fromBigEndian ((value.drop 2).take 8)⟩
  else none

def bigEndian64 (n : Nat) : Bytes := bigEndian32 (n / 2 ^ 32) ++ bigEndian32 n

def encodeAdvanceCommand (newReadSeq : Nat) : Bytes := cmdAdvance :: bigEndian64 newReadSeq

def readRecordTimestamp (record : Bytes) : Nat := fromBigEndian (record.take 4)

/-- The frames of one record. -/
def recordFrames (record : Bytes) : List Bytes := RingProtocol.parseAudioPayload (record.drop RingProtocol.timestampBytes)

/-! ## The run -/

/-- The recording to be read, and what does not change during the run. -/
structure RingWal where
  wal : Phone.Wal
  rtcValid : Bool
  localSync : Bool
  sessionLocation : SessionLocation

namespace RingWal
variable (x : RingWal)

def fps : Nat := x.wal.codec.getFramesPerSecond

def chunkFrames : Nat := sdcardChunkSizeSecs * x.fps

def getFileNameByTimeStarts (timerStart : Int) : String := ({ x.wal with timerStart := timerStart } : Phone.Wal).getFileName

end RingWal

/-- Frames taken for a file. `stored` and `registered` are recorded: the file was written, and its entry was added. -/
structure Chunk where
  frames : List Bytes
  timerStart : Int
  stored : Bool
  registered : Bool
  deriving DecidableEq

/-- A chunk on its way: its file is being written, or the list of recordings behind its entry. -/
inductive Flush where
  | writing (chunk : Chunk)
  | registering (chunk : Chunk)
  deriving DecidableEq

def Flush.chunk : Flush → Chunk
  | .writing chunk => chunk
  | .registering chunk => chunk

inductive Main where
  | reading
  | waiting
  | stopping (reachedDone : Bool)
  | settling (reachedDone : Bool)
  | flushing (reachedDone : Bool)
  | advancing (nextSeq : Nat)
  | skipped
  | threw
  deriving DecidableEq

/-- `completer` is `false` for an error, too. `received`, `records`, `chunks` and `answer` are recorded: the bytes of all
data notifications and the records they gave, the chunks whose flush has ended, and the notification that ended the
transfer. -/
structure RingSync where
  buffer : Bytes
  bytesData : List Bytes
  firstRecordTs : Option Int
  chunkTimerStart : Int
  doneNextSeq : Option Nat
  doneOk : Bool
  flushError : Bool
  flush : Option Flush
  completer : Option Bool
  firstDataReceived : Bool
  subscribed : Bool
  main : Main
  isCancelled : Bool
  files : List (String × Bytes)
  wals : List Phone.Wal
  received : Bytes
  records : List Bytes
  chunks : List Chunk
  answer : Option Bytes
  deriving DecidableEq

/-- How a write ends: whole, or with an error that may leave some bytes in the file. -/
inductive Written where
  | whole
  | failed (left : Option Nat)
  deriving DecidableEq

namespace RingSync
variable (x : RingWal) (s : RingSync)

def complete (answer : Bool) : RingSync := { s with completer := s.completer.or (some answer) }

/-- The next chunk of `take` frames. -/
def takeChunk (take : Nat) : RingSync :=
  { s with
    bytesData := s.bytesData.drop take
    flush := some (.writing ⟨s.bytesData.take take, s.chunkTimerStart, false, false⟩) }

/-- The condition of the loop in `flushChunks`: the next chunk, or the end of this flush. -/
def flushChunks (finalFlush : Bool) : RingSync :=
  if x.chunkFrames ≤ s.bytesData.length then s.takeChunk x.chunkFrames
  else if finalFlush ∧ s.bytesData ≠ [] then s.takeChunk s.bytesData.length
  else { s with flush := none }

/-! ## Notifications -/

/-- The time of the first record starts the first chunk. -/
def anchor (nowSeconds : Int) (record : Bytes) : RingSync :=
  match s.firstRecordTs with
  | some _ => s
  | none =>
      let ts := readRecordTimestamp record
      let start : Int := if x.rtcValid ∧ 0 < ts then ts else nowSeconds - (x.wal.totalFrames / x.fps : Nat)
      { s with firstRecordTs := some start, chunkTimerStart := start }

def takeRecord (nowSeconds : Int) (record : Bytes) : RingSync :=
  let s := s.anchor x nowSeconds record
  { s with bytesData := s.bytesData ++ recordFrames record, records := s.records ++ [record] }

/-- The drained records one after the other; a flush begins when none is under way. -/
def receiveData (nowSeconds : Int) (payload : Bytes) : RingSync :=
  let drained := Blocks.drain RingProtocol.recordSize (s.buffer ++ payload)
  let s := { s with buffer := drained.2, received := s.received ++ payload }
  let s := drained.1.foldl (fun (s : RingSync) record => s.takeRecord x nowSeconds record) s
  if s.flush.isNone ∧ x.chunkFrames ≤ s.bytesData.length then s.flushChunks x false else s

def onStorageBytesReceived (nowSeconds : Int) (value : Bytes) : RingSync :=
  if s.completer.isSome then s
  else if s.isCancelled then s.complete false
  else
    match value with
    | [] => s
    | opcode :: payload =>
        if opcode = notifyDone then
          match parseDoneNotification value with
          | none => s.complete false
          | some done =>
              { s with doneNextSeq := some done.nextSeq, doneOk := done.isOk, answer := some value }.complete true
        else if opcode = notifyData then { s with firstDataReceived := true }.receiveData x nowSeconds payload
        else if opcode = notifyReadBegin ∧ 13 ≤ value.length then { s with firstDataReceived := true }
        else s

/-! ## Writing a chunk -/

def writeFile (chunk : Chunk) (kept : Nat) : RingSync :=
  { s with files := Dict.put s.files (x.getFileNameByTimeStarts chunk.timerStart) ((flushToDisk chunk.frames).take kept) }

def chunkWal (timerStart : Int) (chunk : Chunk) : Phone.Wal :=
  { codec := x.wal.codec
    channel := x.wal.channel
    sampleRate := x.wal.sampleRate
    timerStart := timerStart
    filePath := some (x.getFileNameByTimeStarts chunk.timerStart)
    storage := .disk
    status := .miss
    device := x.wal.device
    seconds := chunk.frames.length / x.fps
    totalFrames := chunk.frames.length }

/-- Without a list of recordings the chunk is not registered, and one whose id is taken is skipped. -/
def isNew (chunk : Chunk) : Bool :=
  x.localSync && !s.wals.any fun w => w.id == (chunkWal x s.chunkTimerStart chunk).id

def registerWithLocalSync (chunk : Chunk) : RingSync :=
  { s with
    wals := if x.localSync then addExternalWal x.sessionLocation s.wals (chunkWal x s.chunkTimerStart chunk) else s.wals
    flush := some (.registering { chunk with stored := true, registered := s.isNew x chunk }) }

/-- A flush is the last one when the main task awaits it. -/
def isFinal : Bool := s.main matches .flushing _

/-- Nothing but a whole transfer without an error advances the ring. -/
def decideAdvance (reachedDone : Bool) : RingSync :=
  match s.doneNextSeq with
  | some nextSeq =>
      if reachedDone ∧ s.doneOk ∧ ¬s.flushError ∧ ¬s.isCancelled then { s with main := .advancing nextSeq }
      else { s with main := .skipped }
  | none => { s with main := .skipped }

/-- Behind the last flush the main task decides. -/
def afterFlush : RingSync :=
  match s.main, s.flush with
  | .flushing reachedDone, none => s.decideAdvance reachedDone
  | _, _ => s

def flushFailed (chunk : Chunk) : RingSync :=
  let s := { s with flushError := true, flush := none, chunks := s.chunks ++ [chunk] }
  (if s.isFinal then s else s.complete false).afterFlush

/-- The file of a chunk, and the start of its registration. -/
def chunkWritten (chunk : Chunk) : Written → RingSync
  | .failed none => s.flushFailed chunk
  | .failed (some kept) => (s.writeFile x chunk kept).flushFailed chunk
  | .whole => (s.writeFile x chunk (flushToDisk chunk.frames).length).registerWithLocalSync x chunk

/-- Behind the registration the time moves on, and the loop goes on. -/
def chunkRegistered (chunk : Chunk) : RingSync :=
  let s := { s with
    chunks := s.chunks ++ [chunk]
    chunkTimerStart := s.chunkTimerStart + (chunk.frames.length / x.fps : Nat) }
  (s.flushChunks x s.isFinal).afterFlush

/-! ## Steps -/

inductive Action where
  | notification (nowSeconds : Int) (value : Bytes)
  | streamClosed
  | firstDataTimeout
  | cancelSync
  | foreignWal (wal : Phone.Wal)
  | written (written : Written)
  | registered (listSaved : Bool)
  | readSent (ok : Bool)
  | completed
  | overallTimeout
  | unsubscribed
  | settled

/-- The subscription is there from the start; the last flush begins when the stream is closed. -/
def act : Action → Option RingSync
  | .notification nowSeconds value => if s.subscribed then some (s.onStorageBytesReceived x nowSeconds value) else none
  | .streamClosed => if s.subscribed then some ({ s with subscribed := false }.complete false) else none
  | .firstDataTimeout =>
      if (s.main = .reading ∨ s.main = .waiting) ∧ ¬s.firstDataReceived then some (s.complete false) else none
  | .cancelSync => some { s with isCancelled := true, subscribed := false }
  | .foreignWal wal => some { s with wals := addExternalWal x.sessionLocation s.wals wal }
  | .written written =>
      match s.flush with
      | some (.writing chunk) => some (s.chunkWritten x chunk written)
      | _ => none
  | .registered listSaved =>
      match s.flush with
      | some (.registering chunk) =>
          some (if listSaved ∨ ¬chunk.registered then s.chunkRegistered x chunk else s.flushFailed chunk)
      | _ => none
  | .readSent ok =>
      if s.main = .reading then
        some (if ok then { s with main := .waiting } else { s with main := .threw, subscribed := false })
      else none
  | .completed =>
      match s.main, s.completer with
      | .waiting, some answer => some { s with main := .stopping answer }
      | _, _ => none
  | .overallTimeout => if s.main = .waiting then some { s with main := .stopping false } else none
  | .unsubscribed =>
      match s.main with
      | .stopping reachedDone => some { s with main := .settling reachedDone, subscribed := false }
      | _ => none
  | .settled =>
      match s.main, s.flush with
      | .settling reachedDone, none => some ({ s with main := .flushing reachedDone }.flushChunks x true).afterFlush
      | _, _ => none

/-- `_syncRing` has subscribed; recordings and files of earlier runs are there. -/
structure Started : Prop where
  buffer : s.buffer = []
  bytesData : s.bytesData = []
  firstRecordTs : s.firstRecordTs = none
  chunkTimerStart : s.chunkTimerStart = 0
  doneNextSeq : s.doneNextSeq = none
  doneOk : s.doneOk = false
  flushError : s.flushError = false
  flush : s.flush = none
  completer : s.completer = none
  firstDataReceived : s.firstDataReceived = false
  subscribed : s.subscribed = true
  main : s.main = .reading
  received : s.received = []
  records : s.records = []
  chunks : s.chunks = []
  answer : s.answer = none

/-- The states of all runs: notifications, disk and main task take turns in any order, and anything may fail. -/
abbrev Reached : RingSync → Prop := Reachable Started fun s a t => s.act x a = some t

end RingSync
end OmiLocal.Wals.Ring
