import OmiLocal.Lib.Dict
import OmiLocal.Lib.Transition
import OmiLocal.Limitless.Kotlin

/-!
# The flash drain

`LimitlessFlashDrainEngine.kt` and the writer it appends to. The engine's tasks
run one after the other on a single thread; a page of a message is one task
here, in two steps: the append, and the barrier behind it, between which another
thread may close the writer's file. The outcomes of the file system are inputs.
The recorded fields say what has reached the disk and what was acknowledged.
-/
namespace OmiLocal.Limitless
open Lib.Framing (Bytes)

/-! ## The writer -/

def sessionGapMs : Int := 120000

def maxAudioSeconds : Nat := 900

def framesPerSecond : Nat := 50

def minValidTsMs : Int := 1577836800000

def fsyncIntervalMs : Int := 2000

/-- The frames of a page, under the page's index. -/
abbrev AudioPage := Int × List Bytes

/-- `unsynced` is recorded: the pages written to this file since its last successful fsync. -/
structure PartFile where
  currentBytes : Nat
  currentFrames : Nat
  lastFsyncMs : Int
  unsynced : List AudioPage
  deriving DecidableEq

/-- `safe` is recorded: the pages that a successful fsync has covered. -/
structure BatchAudioWriter where
  raf : Option PartFile
  lastPageTimestampMs : Int
  closeSyncFailed : Bool
  safe : List AudioPage
  deriving DecidableEq

namespace BatchAudioWriter
variable (w : BatchAudioWriter)

/-- `synced`: the fsync before the close succeeded. -/
def closeCurrentLocked (synced : Bool) : BatchAudioWriter :=
  match w.raf with
  | none => { w with lastPageTimestampMs := 0 }
  | some file =>
      if 0 < file.currentBytes ∧ synced then
        { w with raf := none, lastPageTimestampMs := 0, safe := w.safe ++ file.unsynced }
      else if 0 < file.currentBytes then { w with raf := none, lastPageTimestampMs := 0, closeSyncFailed := true }
      else { w with raf := none, lastPageTimestampMs := 0 }

def fsyncLocked (synced : Bool) : Bool × BatchAudioWriter :=
  match w.raf with
  | none => (true, w)
  | some file =>
      if synced then (true, { w with raf := some { file with unsynced := [] }, safe := w.safe ++ file.unsynced })
      else (false, w)

/-- What the file system answers to an append: the fsyncs of a file closed first, of a periodic barrier and of a file
closed after a failed write; the length of the file opened, if one could be; the bytes of whole frames before a failed
write. -/
structure Disk where
  rotated : Bool
  opened : Option Nat
  torn : Option Nat
  closed : Bool
  fsynced : Bool

def sizeOf (frames : List Bytes) : Nat := (frames.map fun frame => 4 + frame.length).sum

/-- The time a page counts as captured at. -/
def pageTime (pageTimestampMs now : Int) : Int :=
  if minValidTsMs < pageTimestampMs then pageTimestampMs
  else if 0 < w.lastPageTimestampMs then w.lastPageTimestampMs
  else now

/-- The open file is closed at a session gap and when it is full. -/
def rotate (ts : Int) (synced : Bool) : BatchAudioWriter :=
  let w := if w.raf.isSome ∧ 0 < w.lastPageTimestampMs ∧ sessionGapMs < |ts - w.lastPageTimestampMs| then
    w.closeCurrentLocked synced else w
  if w.raf.any fun file => maxAudioSeconds * framesPerSecond ≤ file.currentFrames then w.closeCurrentLocked synced
  else w

def openFile (opened : Option Nat) (now : Int) : Option PartFile :=
  match w.raf with
  | some file => some file
  | none => opened.map fun length => ⟨length, 0, now, []⟩

/-- After a failed write the file is closed, less the torn frame. -/
def writeFramesLocked (file : PartFile) (index : Int) (frames : List Bytes) (disk : Disk) : Bool × BatchAudioWriter :=
  match disk.torn with
  | some bytes =>
      (false, { w with raf := some { file with currentBytes := file.currentBytes + bytes } }.closeCurrentLocked disk.closed)
  | none =>
      let written : PartFile :=
        { file with
          currentBytes := file.currentBytes + sizeOf frames
          currentFrames := file.currentFrames + frames.length
          unsynced := file.unsynced ++ [(index, frames)] }
      (true, { w with raf := some written })

def maybeFsyncLocked (now : Int) (synced : Bool) : BatchAudioWriter :=
  if w.raf.any fun file => fsyncIntervalMs ≤ now - file.lastFsyncMs then
    let w := (w.fsyncLocked synced).2
    { w with raf := w.raf.map fun file => { file with lastFsyncMs := now } }
  else w

def append (index : Int) (frames : List Bytes) (pageTimestampMs now : Int) (disk : Disk) : Bool × BatchAudioWriter :=
  if frames.isEmpty then (true, w)
  else
    let ts := w.pageTime pageTimestampMs now
    let w := w.rotate ts disk.rotated
    match w.openFile disk.opened now with
    | none => (false, w)
    | some file =>
        let (written, w) := w.writeFramesLocked file index frames disk
        if written then (true, { w with lastPageTimestampMs := ts }.maybeFsyncLocked now disk.fsynced) else (false, w)

/-- The barrier before an acknowledgement. It consumes the mark that a close left unsynced data. -/
def sync (synced : Bool) : Bool × BatchAudioWriter :=
  if w.closeSyncFailed then (false, { w with closeSyncFailed := false }) else w.fsyncLocked synced

end BatchAudioWriter

/-! ## The engine -/

def stallMs : Int := 30000

def ackEveryPages : Nat := 25

inductive Phase where
  | idle
  | awaitingStatus
  | draining
  deriving DecidableEq

structure Config where
  deviceId : String
  serviceUuid : String
  characteristicUuid : String

inductive Command where
  | setCurrentTime (timestampMs : Int)
  | getDeviceStatus
  | downloadFlashPages (batchMode realTime : Bool)
  | acknowledgeProcessedData (upToIndex : Int)
  deriving DecidableEq

/-- Where the thread stands: in the loop over the pages of a message, or behind the append of one of them. -/
inductive Work where
  | pages (left : List FlashPage)
  | appended (written : Bool) (left : List FlashPage)
  deriving DecidableEq

/-- An acknowledgement as it was sent: the drained range and the pages that a successful fsync had covered. -/
structure Ack where
  oldest : Int
  upToIndex : Int
  safe : List AudioPage
  deriving DecidableEq

/-- The last three fields are recorded: the oldest page of the drain; the pages it has appended, from the last failed
barrier on; and the acknowledgements sent. -/
structure FlashDrain where
  phase : Phase
  deviceAddress : Option String
  fragmentBuffer : List (Int × List (Int × Bytes))
  endPage : Int
  maxSeenPageIndex : Int
  lastAppendedPageIndex : Int
  lastAckedPageIndex : Int
  pagesSinceAck : Nat
  lastPageAtMs : Int
  cycleTask : Bool
  statusTimeoutTask : Bool
  stallCheckTask : Bool
  writer : BatchAudioWriter
  work : Work
  writes : List Command
  oldest : Int
  arrived : List AudioPage
  acks : List Ack

namespace FlashDrain
variable (s : FlashDrain)

def start : FlashDrain :=
  { phase := .idle, deviceAddress := none, fragmentBuffer := [], endPage := 0, maxSeenPageIndex := -1
    lastAppendedPageIndex := -1, lastAckedPageIndex := -1, pagesSinceAck := 0, lastPageAtMs := 0, cycleTask := false
    statusTimeoutTask := false, stallCheckTask := false, writer := ⟨none, 0, false, []⟩, work := .pages [], writes := []
    oldest := 0, arrived := [], acks := [] }

def resetDrainState : FlashDrain :=
  { s with statusTimeoutTask := false, stallCheckTask := false, fragmentBuffer := [], phase := .idle }

def ackWritten (synced : Bool) : Bool × FlashDrain :=
  match s.deviceAddress with
  | none => (true, s)
  | some _ =>
      if s.lastAppendedPageIndex ≤ s.lastAckedPageIndex then (true, s)
      else if (s.writer.sync synced).1 then
        (true, { s with
          writer := (s.writer.sync synced).2
          writes := s.writes ++ [.acknowledgeProcessedData s.lastAppendedPageIndex]
          lastAckedPageIndex := s.lastAppendedPageIndex
          pagesSinceAck := 0
          acks := s.acks ++ [⟨s.oldest, s.lastAppendedPageIndex, (s.writer.sync synced).2.safe⟩] })
      else
        (false, { s with
          writer := (s.writer.sync synced).2
          lastAppendedPageIndex := s.lastAckedPageIndex
          arrived := [] })

/-- `config` is what the preferences hold when the pendant would be told to record again. -/
def finishDrain (config : Option Config) (synced : Bool) : FlashDrain :=
  if s.phase ≠ .draining then s
  else
    let s := ({ s with stallCheckTask := false }.ackWritten synced).2
    { s with
      writes := if s.deviceAddress.isSome ∧ config.isSome then s.writes ++ [.downloadFlashPages false false] else s.writes
      phase := .idle }

def onStorageState (state : StorageState) (now : Int) : FlashDrain :=
  if s.phase ≠ .awaitingStatus then s
  else
    let s := { s with statusTimeoutTask := false }
    if state.newestFlashPage < state.oldestFlashPage ∨
        Kotlin.toInt (state.newestFlashPage - state.oldestFlashPage + 1) ≤ 0 then { s with phase := .idle }
    else
      match s.deviceAddress with
      | none => { s with phase := .idle }
      | some _ =>
          { s with
            fragmentBuffer := []
            endPage := state.newestFlashPage
            maxSeenPageIndex := -1
            lastAppendedPageIndex := -1
            lastAckedPageIndex := -1
            pagesSinceAck := 0
            lastPageAtMs := now
            phase := .draining
            writes := s.writes ++ [.downloadFlashPages true false]
            stallCheckTask := true
            oldest := state.oldestFlashPage
            arrived := [] }

/-- The fragments put together, in the order of their numbers. -/
def assemble (fragments : List (Int × Bytes)) (numFrags : Int) : Bytes :=
  (List.range numFrags.toNat).flatMap fun i : Nat => (Lib.Dict.get fragments (i : Int)).getD []

def onPacket (packet : BlePacket) (fuel : Nat) : Option FlashDrain :=
  let fragments := Lib.Dict.put ((Lib.Dict.get s.fragmentBuffer packet.index).getD []) packet.seq packet.payload
  if (fragments.length : Int) ≠ packet.numFrags then
    some { s with fragmentBuffer := Lib.Dict.put s.fragmentBuffer packet.index fragments }
  else
    let s := { s with fragmentBuffer := Lib.Dict.erase s.fragmentBuffer packet.index }
    if s.phase = .draining then do
      let pages ← Kotlin.parsePendantMessage fuel (assemble fragments packet.numFrags)
      some { s with work := .pages pages }
    else some s

def readStatus (data : Bytes) (fuel : Nat) : Option (Option StorageState) :=
  if s.phase = .awaitingStatus then Kotlin.parseDeviceStatus fuel data else some none

/-- `none`: the parser does not come back within the fuel. -/
def processPacket (data : Bytes) (now : Int) (fuel : Nat) : Option FlashDrain := do
  let status ← s.readStatus data fuel
  let s := status.elim s fun state => s.onStorageState state now
  match ← Kotlin.parseBlePacket fuel data with
  | none => some s
  | some packet => s.onPacket packet fuel

/-- The part of `processFlashPage` up to the watermarks. -/
def appendPage (page : FlashPage) (left : List FlashPage) (now appendNow : Int) (disk : BatchAudioWriter.Disk) :
    FlashDrain :=
  let s := { s with lastPageAtMs := now }
  match page.index with
  | none => { s with work := .pages left }
  | some index =>
      let (written, writer) := s.writer.append index page.opusFrames page.timestampMs appendNow disk
      let s := { s with writer := writer }
      if ¬written then { s with work := .appended false left }
      else
        { s with
          lastAppendedPageIndex := max s.lastAppendedPageIndex index
          maxSeenPageIndex := max s.maxSeenPageIndex index
          pagesSinceAck := s.pagesSinceAck + 1
          work := .appended true left
          arrived := s.arrived ++ [(index, page.opusFrames)] }

/-- The rest of `processFlashPage`. -/
def settlePage (written : Bool) (config : Option Config) (synced : Bool) : FlashDrain :=
  if ¬written then s.finishDrain config synced
  else if ackEveryPages ≤ s.pagesSinceAck then
    let (acknowledged, s) := s.ackWritten synced
    if ¬acknowledged then s.finishDrain config synced
    else if s.endPage ≤ s.maxSeenPageIndex then s.finishDrain config synced
    else s
  else if s.endPage ≤ s.maxSeenPageIndex then s.finishDrain config synced
  else s

inductive Action where
  | deviceReady (address : String) (config : Option Config)
  | deviceDisconnected (address : String) (closed : Bool)
  | stop
  | closeWriter (closed : Bool)
  | cycle (config : Option Config) (now : Int) (closed : Bool)
  | statusTimeout
  | packet (config : Config) (address serviceUuid characteristicUuid : String) (data : Bytes) (now : Int) (fuel : Nat)
  | page (now appendNow : Int) (disk : BatchAudioWriter.Disk)
  | settle (config : Option Config) (synced : Bool)
  | stallCheck (now : Int) (config : Option Config) (synced : Bool)

/-- `equalsIgnoreCase` is the platform's comparison of strings. The service's `stop` is `stop` on the engine's thread
and `closeWriter` on its own, which also stands for another `stop` of the writer. -/
def act (equalsIgnoreCase : String → String → Bool) : Action → Option FlashDrain
  | .closeWriter closed => some { s with writer := s.writer.closeCurrentLocked closed }
  | .page now appendNow disk =>
      match s.work with
      | .pages (page :: left) => some (s.appendPage page left now appendNow disk)
      | _ => none
  | .settle config synced =>
      match s.work with
      | .appended written left => some { s.settlePage written config synced with work := .pages left }
      | _ => none
  | .deviceReady address config =>
      if s.work ≠ .pages [] then none
      else if config.any fun config => !equalsIgnoreCase config.deviceId address then some s
      else some { s with deviceAddress := some address, cycleTask := true }
  | .deviceDisconnected address closed =>
      if s.work ≠ .pages [] then none
      else if !s.deviceAddress.any (equalsIgnoreCase address) then some s
      else
        some { s.resetDrainState with
          cycleTask := false, deviceAddress := none, writer := s.writer.closeCurrentLocked closed }
  | .stop => if s.work ≠ .pages [] then none else some { s.resetDrainState with cycleTask := false }
  | .cycle config now closed =>
      if s.work ≠ .pages [] ∨ ¬s.cycleTask then none
      else
        match s.deviceAddress with
        | none => some s
        | some address =>
            if s.phase ≠ .idle then some s
            else
              match config with
              | none => some { s with writer := s.writer.closeCurrentLocked closed }
              | some config =>
                  if !equalsIgnoreCase config.deviceId address then some s
                  else
                    some { s with
                      phase := .awaitingStatus
                      writes := s.writes ++ [.setCurrentTime now, .getDeviceStatus]
                      statusTimeoutTask := true }
  | .statusTimeout =>
      if s.work ≠ .pages [] ∨ ¬s.statusTimeoutTask then none
      else some { s with statusTimeoutTask := false, phase := if s.phase = .awaitingStatus then .idle else s.phase }
  | .packet config address serviceUuid characteristicUuid data now fuel =>
      if s.work ≠ .pages [] then none
      else if equalsIgnoreCase config.deviceId address ∧ equalsIgnoreCase config.serviceUuid serviceUuid ∧
          equalsIgnoreCase config.characteristicUuid characteristicUuid then s.processPacket data now fuel
      else some s
  | .stallCheck now config synced =>
      if s.work ≠ .pages [] ∨ ¬s.stallCheckTask then none
      else if s.phase = .draining ∧ stallMs < now - s.lastPageAtMs then some (s.finishDrain config synced)
      else some s

end FlashDrain
end OmiLocal.Limitless
