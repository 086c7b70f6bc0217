import OmiLocal.Wals.ExternalWals
import OmiLocal.Lib.Dict
import OmiLocal.Lib.Transition

/-!
# Draining flash pages in the app

`FlashPageWalSyncImpl._syncWal` between its awaits, beside the connection that
collects pages and the list of recordings that files are registered with. An
action carries the clock readings and the outcomes of what it awaits. Each frame
that an extraction returns is tagged with its number and the page it came from.
-/
namespace OmiLocal.Wals.Flash
open Lib Lib.Framing Lib.Transition
open Phone (SessionLocation addExternalWal)

/-! ## Extraction -/

structure CompletedPage where
  opusFrames : List Bytes
  timestampMs : Int
  index : Option Int
  deriving DecidableEq

structure Extracted where
  number : Nat
  page : Option Int
  bytes : Bytes
  deriving DecidableEq

structure PageData where
  opusFrames : List (Option Int × Bytes)
  timestampMs : Int
  maxIndex : Option Int

def minValidTsMs : Int := 1577836800000

def maxIndexOf (pages : List CompletedPage) : Option Int :=
  pages.foldl (fun best page =>
    match page.index, best with
    | some index, some best => some (max best index)
    | some index, none => some index
    | none, best => best) none

/-- `raw` is what the stream outside batch mode has: frames and a time, no page. -/
def extractFramesWithSessionInfo (isBatchMode : Bool) (pages : List CompletedPage) (first : Option Int)
    (raw : List Bytes × Int) (now : Int) : Option PageData :=
  if isBatchMode then
    if pages.isEmpty then none
    else
      some
        { opusFrames := pages.flatMap fun page => page.opusFrames.map fun frame => (page.index, frame)
          timestampMs := ((pages.map CompletedPage.timestampMs).find? fun ts => decide (minValidTsMs < ts)).getD
            (first.getD now)
          maxIndex := maxIndexOf pages }
  else if raw.1.isEmpty then none
  else some ⟨raw.1.map fun frame => (none, frame), raw.2, none⟩

/-- The tags of frames that are extracted when `start` frames have been. -/
def numbered (start : Nat) (frames : List (Option Int × Bytes)) : List Extracted :=
  frames.zipIdx.map fun (frame, i) => ⟨start + i, frame.1, frame.2⟩

/-! ## The drain -/

def persistBatchMs : Int := 90000

def sessionGapThresholdMs : Int := 120000

def maxEmptyExtractions : Nat := 60

/-- A file in the documents directory. `held` is recorded: the extracted frames in it, none in an older file. -/
structure StoredFile where
  frames : List Bytes
  held : List Extracted
  closed : Bool
  deriving DecidableEq

inductive Purpose where
  | incremental
  | cancel
  | final
  deriving DecidableEq

inductive Stage where
  | extract
  | diagnosticAck
  | save (purpose : Purpose)
  | register (purpose : Purpose) (fileName : String) (timestampMs : Int)
  | savedAck (purpose : Purpose)
  | check
  | cancelAck
  | cleanupAck
  | returned (completed : Bool)
  deriving DecidableEq

/-- An acknowledgement as it is sent, with what had been extracted and stored by then. -/
structure Ack where
  upToIndex : Int
  extracted : List Extracted
  files : List (String × StoredFile)
  wals : Option (List Phone.Wal)
  deriving DecidableEq

structure FlashPageSync where
  completedFlashPages : List CompletedPage
  firstFlashPageTimestampMs : Option Int
  isBatchMode : Bool
  device : String
  startPage : Int
  endPage : Int
  storageOffset : Int
  localSync : Option (List Phone.Wal)
  sessionLocation : SessionLocation
  files : List (String × StoredFile)
  cancelRequested : Bool
  emptyExtractions : Nat
  lastProcessedIndex : Option Int
  accumulatedFrames : List Extracted
  batchMinTimestamp : Option Int
  lastSaveTime : Int
  pendingFrames : List Extracted
  pendingTimestamp : Option Int
  syncComplete : Bool
  stage : Stage
  extracted : List Extracted
  acks : List Ack
  deriving DecidableEq

/-- What becomes of a file: it is not opened, its sink fails after some frames, or it is closed. -/
inductive Written where
  | unopened
  | torn (frames : Nat)
  | closed
  deriving DecidableEq

def fileName (microseconds : Nat) (timestampMs : Int) : String :=
  "audio_limitless_opus_16000_1_fs320_r" ++ toString (microseconds % 10000) ++ "_" ++ toString timestampMs ++ ".bin"

namespace FlashPageSync
variable (s : FlashPageSync)

/-- `_handleStorageBuffer`'s part: a page that was put together and parsed. -/
def completePage (page : CompletedPage) : FlashPageSync :=
  { s with
    completedFlashPages := s.completedFlashPages ++ [page]
    firstFlashPageTimestampMs :=
      if s.firstFlashPageTimestampMs = none ∧ page.opusFrames ≠ [] ∧ minValidTsMs < page.timestampMs then
        some page.timestampMs
      else s.firstFlashPageTimestampMs }

def processIndex (maxIndex : Option Int) : Option Int :=
  match maxIndex, s.lastProcessedIndex with
  | some index, some last => some (max last index)
  | some index, none => some index
  | none, last => last

/-- The batch is older or newer than these frames by more than the gap. -/
def sessionGap (timestampMs : Int) : Bool :=
  match s.batchMinTimestamp with
  | some start => !s.accumulatedFrames.isEmpty && decide (sessionGapThresholdMs < |timestampMs - start|)
  | none => false

/-- What an extraction does to the batch; `true` when the batch is to be saved first. -/
def takeFrames (data : PageData) (frames : List Extracted) : Bool × FlashPageSync :=
  if frames.isEmpty then (false, s)
  else if s.sessionGap data.timestampMs then
    (true, { s with pendingFrames := frames, pendingTimestamp := some data.timestampMs })
  else
    (false, { s with
      accumulatedFrames := s.accumulatedFrames ++ frames
      batchMinTimestamp := some (s.batchMinTimestamp.elim data.timestampMs fun start => min start data.timestampMs) })

/-- Where the pass goes on. `received`: the extraction returned something. -/
def branch (received gap : Bool) (persistNow diagnosticNow : Int) : FlashPageSync :=
  let shouldSave := gap || (!s.accumulatedFrames.isEmpty && decide (persistBatchMs ≤ persistNow - s.lastSaveTime))
  if received ∧ ¬shouldSave ∧ s.accumulatedFrames.isEmpty ∧ s.lastProcessedIndex.isSome ∧
      persistBatchMs ≤ diagnosticNow - s.lastSaveTime then { s with stage := .diagnosticAck }
  else if shouldSave ∧ ¬s.accumulatedFrames.isEmpty then { s with stage := .save .incremental }
  else { s with stage := .check }

/-- An extraction returned something. -/
def received (data : PageData) (frames : List Extracted) : FlashPageSync :=
  { s with
    completedFlashPages := if s.isBatchMode then [] else s.completedFlashPages
    emptyExtractions := 0
    lastProcessedIndex := s.processIndex data.maxIndex
    extracted := s.extracted ++ frames }

/-- One pass up to its first await. -/
def extract (raw : List Bytes × Int) (now persistNow diagnosticNow : Int) : FlashPageSync :=
  match extractFramesWithSessionInfo s.isBatchMode s.completedFlashPages s.firstFlashPageTimestampMs raw now with
  | none => { s with emptyExtractions := s.emptyExtractions + 1 }.branch false false persistNow diagnosticNow
  | some data =>
      let frames := numbered s.extracted.length data.opusFrames
      let (gap, s) := (s.received data frames).takeFrames data frames
      s.branch true gap persistNow diagnosticNow

/-- Behind an incremental save the frames set aside start the next batch. -/
def nextBatch (now : Int) : FlashPageSync :=
  { s with
    accumulatedFrames := s.pendingFrames
    batchMinTimestamp := if s.pendingFrames.isEmpty then none else s.pendingTimestamp
    pendingFrames := []
    pendingTimestamp := none
    lastSaveTime := now
    stage := .check }

/-- The acknowledgement before real-time mode, if an index is known. -/
def cleanup : FlashPageSync :=
  { s with stage := if s.lastProcessedIndex.isSome then .cleanupAck else .returned false }

/-- What a cancellation leaves to do once the batch is saved. -/
def cancelled : FlashPageSync :=
  { s with accumulatedFrames := [], stage := if s.lastProcessedIndex.isSome then .cancelAck else .returned false }

/-- `_saveBatchToFile` has returned: a path or, when it failed, nothing. -/
def afterSave (purpose : Purpose) (saved : Bool) (now : Int) : FlashPageSync :=
  match purpose with
  | .incremental =>
      if saved ∧ s.lastProcessedIndex.isSome then { s with stage := .savedAck .incremental } else s.nextBatch now
  | .cancel => s.cancelled
  | .final => if saved ∧ s.lastProcessedIndex.isSome then { s with stage := .savedAck .final } else s.cleanup

def writeBatch (purpose : Purpose) (microseconds : Nat) (now : Int) (written : Written) : FlashPageSync :=
  let timestampMs := s.batchMinTimestamp.getD now
  let name := fileName microseconds timestampMs
  match written with
  | .unopened => s.afterSave purpose false now
  | .torn kept =>
      let held := s.accumulatedFrames.take kept
      { s with files := Dict.put s.files name ⟨held.map Extracted.bytes, held, false⟩ }.afterSave purpose false now
  | .closed =>
      { s with
        files := Dict.put s.files name ⟨s.accumulatedFrames.map Extracted.bytes, s.accumulatedFrames, true⟩
        stage := .register purpose name timestampMs }

def chunkWal (name : String) (timestampMs : Int) (frameCount : Nat) : Phone.Wal :=
  { codec := .opus
    timerStart := timestampMs.tdiv 1000
    filePath := some name
    storage := .disk
    status := .miss
    device := s.device
    seconds := max 1 ((frameCount + 49) / 50)
    totalFrames := frameCount }

/-- `listSaved`: the list of recordings could be written; otherwise the registration throws behind it. -/
def registerChunk (purpose : Purpose) (name : String) (timestampMs : Int) (listSaved : Bool) (now : Int) : FlashPageSync :=
  match s.localSync with
  | none => s.afterSave purpose true now
  | some wals =>
      let wal := s.chunkWal name timestampMs s.accumulatedFrames.length
      let skipped := wals.any fun w => w.id == wal.id
      { s with localSync := some (addExternalWal s.sessionLocation wals wal) }.afterSave purpose (skipped || listSaved) now

def logAck (upToIndex : Int) : FlashPageSync :=
  { s with acks := s.acks ++ [⟨upToIndex, s.extracted, s.files, s.localSync⟩] }

/-- `sent`: the acknowledgement did not throw. -/
def acknowledge (upToIndex : Int) (sent : Bool) (now : Int) : Option FlashPageSync :=
  let s := s.logAck upToIndex
  match s.stage with
  | .diagnosticAck => some { s with lastSaveTime := if sent then now else s.lastSaveTime, stage := .check }
  | .savedAck .incremental => some (s.nextBatch now)
  | .savedAck .final => some s.cleanup
  | .cancelAck =>
      some { s with storageOffset := if sent then upToIndex + 1 else s.storageOffset, stage := .returned false }
  | .cleanupAck =>
      if s.endPage ≤ upToIndex then some { s with stage := .returned true }
      else some { s with storageOffset := upToIndex + 1, stage := .returned false }
  | _ => none

/-- The end of a pass: completion, cancellation, or the next pass. -/
def check : FlashPageSync :=
  let s :=
    { s with
      syncComplete := s.lastProcessedIndex.any (fun last => decide (s.endPage ≤ last)) ||
        decide (maxEmptyExtractions ≤ s.emptyExtractions) }
  if s.cancelRequested then
    if s.accumulatedFrames.isEmpty then s.cancelled else { s with stage := .save .cancel }
  else if s.syncComplete then
    if s.accumulatedFrames.isEmpty then s.cleanup else { s with stage := .save .final }
  else { s with stage := .extract }

inductive Action where
  | completePage (page : CompletedPage)
  | changeMode (isBatchMode : Bool)
  | cancelSync
  | foreignWal (wal : Phone.Wal)
  | extract (raw : List Bytes × Int) (now persistNow diagnosticNow : Int)
  | write (microseconds : Nat) (now : Int) (written : Written)
  | register (listSaved : Bool) (now : Int)
  | acknowledge (sent : Bool) (now : Int)
  | check
  | throw

/-- The first four are other tasks; `throw` is an exception that leaves `_syncWal`'s `try` block. -/
def act : Action → Option FlashPageSync
  | .completePage page => some (s.completePage page)
  | .changeMode isBatchMode => some { s with isBatchMode := isBatchMode }
  | .cancelSync => some { s with cancelRequested := true }
  | .foreignWal wal => some { s with localSync := s.localSync.map fun wals => addExternalWal s.sessionLocation wals wal }
  | .extract raw now persistNow diagnosticNow =>
      if s.stage = .extract then some (s.extract raw now persistNow diagnosticNow) else none
  | .write microseconds now written =>
      match s.stage with
      | .save purpose => some (s.writeBatch purpose microseconds now written)
      | _ => none
  | .register listSaved now =>
      match s.stage with
      | .register purpose name timestampMs => some (s.registerChunk purpose name timestampMs listSaved now)
      | _ => none
  | .acknowledge sent now => s.lastProcessedIndex.bind fun last => s.acknowledge last sent now
  | .check => if s.stage = .check then some s.check else none
  | .throw => some { s with stage := .returned false }

/-- `_syncWal` enters its loop: the buffers are empty, and no file holds a frame yet. -/
structure Started : Prop where
  stage : s.stage = .extract
  accumulated : s.accumulatedFrames = []
  pending : s.pendingFrames = []
  extracted : s.extracted = []
  older : ∀ name file, Dict.get s.files name = some file → file.held = []
  acks : s.acks = []

end FlashPageSync
end OmiLocal.Wals.Flash
