import OmiLocal.Lib.Transition
import OmiLocal.Capture.Journal

/-!
# The phone's outbox

`LocalAudioOutbox` and `LocalAudioRecording` as a state machine over the outbox
directory. The closures that `_serial` chains are a queue of jobs; the first one
advances by one system call or one written byte at a time, so that the app can
terminate between any two. `initialize`, the jobs and a `_drain` pass interleave
with the calls from outside. Fields that only feed the user interface are left
out. `issued`, `persisted` and `begun` record the drawn identifiers, the packets
whose callback ran and the packets whose writing began.
-/
namespace OmiLocal.Capture
open Lib.Framing Lib.Json

/-- The constructor's parameters. -/
structure Limits where
  partMicroseconds : Nat
  maxStorageBytes : Nat
  maxQueuedBytes : Nat
  storage : maxStorageBytes < 2 ^ 32

def defaultLimits : Limits := ⟨300000000, 512 * 1024 * 1024, 4 * 1024 * 1024, by decide⟩

/-- `<id>.ready` or `<id>.part`. -/
structure PartFile where
  id : Uuid
  ready : Bool
  content : Bytes
  deriving DecidableEq

structure Recording where
  recordingId : Uuid
  source : Source
  codec : Codec
  serverId : Digest
  index : Nat
  file : Option Uuid
  handle : Option Uuid
  bytes : Nat
  audioMicroseconds : Nat
  totalAudioMicroseconds : Nat
  packetCount : Nat
  preroll : LocalOpusPreroll
  closed : Bool
  writeFailed : Bool
  stopping : Bool

inductive Job where
  | add (recording : Nat) (payload : Packet) (duration : Nat) (acceptedAt : DateTime)
  | checkpoint (recording : Nat)
  | stop (recording : Nat)
  | count

/-- How far the first job has come. -/
inductive Stage where
  | start
  | flush
  | close
  | rename
  | fresh
  | create (header : Header) (preroll : List Packet)
  | handle (header : Header) (preroll : List Packet)
  | opening (header : Header) (preroll : List Packet) (rest : Bytes)
  | quota
  | writing (rest : Bytes)

/-- The files that `initialize` still has to look at, and the one that is cut but not renamed. -/
structure Recovery where
  rest : List Uuid
  cut : Option Uuid

/-- The files of a `_drain` pass, the body that is being uploaded, and whether the pass waits for its count. -/
structure Drain where
  rest : List Uuid
  current : Option (Uuid × Bytes)
  counting : Bool

structure Phone where
  files : List PartFile
  recordings : List Recording
  jobs : List Job
  stage : Stage
  recovery : Option Recovery
  drain : Option Drain
  pendingBytes : Nat
  pendingParts : Nat
  queuedBytes : Nat
  issued : List Uuid
  persisted : List (Uuid × Packet)
  begun : List (Uuid × Packet)

/-- A new installation, before its first `initialize`. -/
def newPhone : Phone where
  files := []
  recordings := []
  jobs := []
  stage := .start
  recovery := some ⟨[], none⟩
  drain := none
  pendingBytes := 0
  pendingParts := 0
  queuedBytes := 0
  issued := []
  persisted := []
  begun := []

/-! ## The directory -/

def findFile (files : List PartFile) (id : Uuid) : Option PartFile := files.find? fun f => f.id = id

def changeFile (files : List PartFile) (id : Uuid) (change : PartFile → PartFile) : List PartFile :=
  files.map fun f => if f.id = id then change f else f

def appendFile (files : List PartFile) (id : Uuid) (bytes : Bytes) : List PartFile :=
  changeFile files id fun f => { f with content := f.content ++ bytes }

def truncateFile (files : List PartFile) (id : Uuid) (length : Nat) : List PartFile :=
  changeFile files id fun f => { f with content := f.content.take length }

def sealFile (files : List PartFile) (id : Uuid) : List PartFile :=
  changeFile files id fun f => { f with ready := true }

def deleteFile (files : List PartFile) (id : Uuid) : List PartFile := files.filter fun f => f.id ≠ id

/-! ## Calls from outside -/

/-- `begin` with the identifier that `Uuid().v4()` draws. -/
def begin (p : Phone) (recordingId : Uuid) (source : Source) (codec : Codec) (serverId : Digest) : Option Phone :=
  if p.recovery.isNone ∧ supportedFormat source codec ∧ recordingId ∉ p.issued then
    let recording : Recording := ⟨recordingId, source, codec, serverId, 0, none, none, 0, 0, 0, 0, .empty, false,
      false, false⟩
    some { p with recordings := p.recordings ++ [recording], issued := p.issued ++ [recordingId] }
  else none

/-- The part of `add` before its job runs; `none` is a rejected packet. -/
def add (limits : Limits) (p : Phone) (k : Nat) (payload : Packet) (now : DateTime) : Option Phone :=
  match p.recordings[k]? with
  | none => none
  | some r =>
      if r.closed ∨ payload = [] ∨ payload.length > maxFrameBytes ∨
          p.queuedBytes + payload.length > limits.maxQueuedBytes then none
      else
        match packetMicroseconds r.codec payload with
        | .error _ => none
        | .ok duration => some { p with
            queuedBytes := p.queuedBytes + payload.length
            jobs := p.jobs ++ [.add k payload duration now] }

def checkpoint (p : Phone) (k : Nat) : Option Phone :=
  match p.recordings[k]? with
  | none => none
  | some _ => some { p with jobs := p.jobs ++ [.checkpoint k] }

def setRecording (p : Phone) (k : Nat) (r : Recording) : Phone := { p with recordings := p.recordings.set k r }

def stop (p : Phone) (k : Nat) : Option Phone :=
  match p.recordings[k]? with
  | none => none
  | some r =>
      if r.stopping then some p
      else some { setRecording p k { r with closed := true, stopping := true } with jobs := p.jobs ++ [.stop k] }

/-! ## Jobs -/

/-- The outcome of the next system call, with the identifier a new part would get. -/
structure WorkIo where
  fails : Bool
  throws : Bool
  id : Uuid

def finishJob (p : Phone) : Phone := { p with jobs := p.jobs.tail, stage := .start }

/-- `catch` and `finally` of `add`. -/
def failAdd (p : Phone) (k : Nat) (r : Recording) (payload : Packet) : Phone :=
  finishJob { setRecording p k { r with writeFailed := true } with queuedBytes := p.queuedBytes - payload.length }

def needsRotation (limits : Limits) (r : Recording) (payload : Packet) (duration : Nat) : Bool :=
  decide (r.audioMicroseconds + duration > limits.partMicroseconds) || decide (r.packetCount ≥ maxPartPackets) ||
    decide (r.bytes + payload.length + 4 > maxPartBytes)

/-- The header that `_open` writes. -/
def openHeader (r : Recording) (id : Uuid) (acceptedAt : DateTime) : Header where
  version := 2
  id := id
  recordingId := r.recordingId
  index := r.index
  source := r.source
  codec := r.codec
  startedAt := acceptedAt
  serverId := r.serverId
  prerollFrames := r.preroll.packets.length

def openingBytes (header : Header) (preroll : List Packet) : Nat :=
  12 + header.encode.length + (preroll.map fun packet => 4 + packet.length).sum

/-- The counters after a packet is flushed. -/
def countPacket (r : Recording) (payload : Packet) (duration : Nat) : Recording :=
  { r with
    bytes := r.bytes + payload.length + 4
    audioMicroseconds := r.audioMicroseconds + duration
    totalAudioMicroseconds := r.totalAudioMicroseconds + duration
    packetCount := r.packetCount + 1 }

/-- One step of `add`'s job, from the state after the recording is looked up. -/
def workAdd (limits : Limits) (io : WorkIo) (p : Phone) (k : Nat) (r : Recording) (payload : Packet) (duration : Nat)
    (acceptedAt : DateTime) : Option Phone :=
  let fail := failAdd p k r payload
  match p.stage with
  | .start =>
      if r.writeFailed then some fail
      else if r.handle.isNone then some { p with stage := .fresh }
      else if needsRotation limits r payload duration then some { p with stage := .flush }
      else some { p with stage := .quota }
  | .flush => if io.fails then some fail else some { p with stage := .close }
  | .close =>
      if io.fails then some fail else some { setRecording p k { r with handle := none } with stage := .rename }
  | .rename =>
      match r.file with
      | none => some fail
      | some id =>
          if io.fails then some fail
          else some { setRecording p k { r with file := none } with files := sealFile p.files id, stage := .fresh }
  | .fresh =>
      if io.id ∈ p.issued then none
      else
        let header := openHeader r io.id acceptedAt
        let preroll := r.preroll.packets
        let p' := { p with issued := p.issued ++ [io.id] }
        let r' := { r with index := r.index + 1, audioMicroseconds := 0 }
        if p.pendingBytes + openingBytes header preroll + (payload.length + 4) > limits.maxStorageBytes then
          some (failAdd p' k r' payload)
        else some { setRecording p' k { r' with file := some io.id } with stage := .create header preroll }
  | .create header preroll =>
      if io.fails ∨ (p.files.any fun f => decide (f.id = header.id) && !f.ready) then some fail
      else some { p with files := p.files ++ [⟨header.id, false, []⟩], stage := .handle header preroll }
  | .handle header preroll =>
      if io.fails then some fail
      else some { setRecording p k { r with handle := some header.id } with
        stage := .opening header preroll (opening header preroll) }
  | .opening header preroll (b :: rest) =>
      if io.fails then some fail
      else some { p with files := appendFile p.files header.id [b], stage := .opening header preroll rest }
  | .opening header preroll [] =>
      if io.fails then some fail
      else some { setRecording p k { r with bytes := openingBytes header preroll, packetCount := preroll.length } with
        pendingBytes := p.pendingBytes + openingBytes header preroll
        pendingParts := p.pendingParts + 1
        stage := .quota }
  | .quota =>
      if p.pendingBytes + payload.length + 4 > limits.maxStorageBytes then some fail
      else some { p with begun := p.begun ++ [(r.recordingId, payload)], stage := .writing (record be32 payload) }
  | .writing (b :: rest) =>
      match r.handle with
      | none => some fail
      | some id =>
          if io.fails then some fail
          else some { p with files := appendFile p.files id [b], stage := .writing rest }
  | .writing [] =>
      if io.fails then some fail
      else
        let r' := countPacket r payload duration
        let p' := { p with pendingBytes := p.pendingBytes + payload.length + 4 }
        match if r.codec = .pcm16 then .ok r.preroll else r.preroll.remember payload duration with
        | .error _ => some (failAdd p' k r' payload)
        | .ok preroll =>
            let p'' := { p' with persisted := p.persisted ++ [(r.recordingId, payload)] }
            let r'' := { r' with preroll := preroll }
            if io.throws then some (failAdd p'' k r'' payload)
            else some (finishJob { setRecording p'' k r'' with queuedBytes := p.queuedBytes - payload.length })

/-- `_seal` for `checkpoint` and `stop`; `failed` is what an exception leaves behind. -/
def workSeal (io : WorkIo) (p : Phone) (k : Nat) (r : Recording) (failed : Phone) : Option Phone :=
  match p.stage with
  | .flush => if io.fails then some failed else some { p with stage := .close }
  | .close =>
      if io.fails then some failed else some { setRecording p k { r with handle := none } with stage := .rename }
  | .rename =>
      match r.file with
      | none => some failed
      | some id =>
          if io.fails then some failed
          else some (finishJob { setRecording p k { r with file := none } with files := sealFile p.files id })
  | _ => none

def workCheckpoint (io : WorkIo) (p : Phone) (k : Nat) (r : Recording) : Option Phone :=
  match p.stage with
  | .start =>
      if r.closed ∨ r.writeFailed ∨ r.handle.isNone then some (finishJob p) else some { p with stage := .flush }
  | _ => workSeal io p k r (finishJob (setRecording p k { r with writeFailed := true }))

def workStop (io : WorkIo) (p : Phone) (k : Nat) (r : Recording) : Option Phone :=
  match p.stage with
  | .start =>
      if r.handle.isNone then some (finishJob p)
      else if r.writeFailed then
        some (finishJob (if io.fails then p else setRecording p k { r with handle := none }))
      else some { p with stage := .flush }
  | _ => workSeal io p k r (finishJob p)

/-- `_countPending`. -/
def countPending (p : Phone) : Phone :=
  { p with pendingParts := p.files.length, pendingBytes := (p.files.map fun f => f.content.length).sum }

def work (limits : Limits) (io : WorkIo) (p : Phone) : Option Phone :=
  match p.jobs with
  | [] => none
  | .count :: _ => some (finishJob (countPending { p with drain := none }))
  | .add k payload duration acceptedAt :: _ =>
      match p.recordings[k]? with
      | none => none
      | some r => workAdd limits io p k r payload duration acceptedAt
  | .checkpoint k :: _ =>
      match p.recordings[k]? with
      | none => none
      | some r => workCheckpoint io p k r
  | .stop k :: _ =>
      match p.recordings[k]? with
      | none => none
      | some r => workStop io p k r

/-! ## Termination and recovery -/

/-- The process is gone; the directory stays. -/
def terminate (p : Phone) : Phone :=
  { p with
    recordings := []
    jobs := []
    stage := .start
    recovery := some ⟨(p.files.filter fun f => !f.ready).map PartFile.id, none⟩
    drain := none
    pendingBytes := 0
    pendingParts := 0
    queuedBytes := 0 }

/-- One step of `initialize`: read and cut a file, rename it, or finish. -/
def recover (fails : Bool) (p : Phone) : Option Phone :=
  match p.recovery with
  | none => none
  | some ⟨rest, some id⟩ =>
      some { p with files := if fails then p.files else sealFile p.files id, recovery := some ⟨rest, none⟩ }
  | some ⟨[], none⟩ => some (countPending { p with recovery := none })
  | some ⟨id :: rest, none⟩ =>
      let skipped := { p with recovery := some ⟨rest, none⟩ }
      match findFile p.files id with
      | none => some skipped
      | some f =>
          match recoverPosition f.content with
          | .error _ => some skipped
          | .ok none => some skipped
          | .ok (some position) =>
              if fails then some skipped
              else some { p with files := truncateFile p.files id position, recovery := some ⟨rest, some id⟩ }

/-! ## Delivery -/

def startDrain (p : Phone) : Option Phone :=
  match p.drain with
  | some _ => none
  | none =>
      if p.recovery.isSome then none
      else some { p with drain := some ⟨(p.files.filter PartFile.ready).map PartFile.id, none, false⟩ }

/-- Read the next file of the pass; the body goes to `upload`. -/
def readPart (fails : Bool) (p : Phone) : Option Phone :=
  match p.drain with
  | some ⟨id :: rest, none, false⟩ =>
      let skipped := { p with drain := some ⟨rest, none, false⟩ }
      match findFile p.files id with
      | none => some skipped
      | some f =>
          if fails ∨ f.content.length > maxPartBytes then some skipped
          else match header f.content with
            | .error _ => some skipped
            | .ok _ => some { p with drain := some ⟨rest, some (id, f.content), false⟩ }
  | _ => none

/-- The upload ends without a receipt that the phone takes, or the deletion fails. -/
def abandon (p : Phone) : Option Phone :=
  match p.drain with
  | some ⟨rest, some _, false⟩ => some { p with drain := some ⟨rest, none, false⟩ }
  | _ => none

/-- A receipt arrives: delete exactly the acknowledged file. -/
def acknowledge (sha256 : Bytes → String) (p : Phone) (id digest : String) : Option Phone :=
  match p.drain with
  | some ⟨rest, some (file, body), false⟩ =>
      let skipped := { p with drain := some ⟨rest, none, false⟩ }
      match header body with
      | .error _ => some skipped
      | .ok (fields, _, _) =>
          if strField "id" fields = some id ∧ digest = sha256 body then
            some { p with files := deleteFile p.files file, drain := some ⟨rest, none, false⟩ }
          else some skipped
  | _ => none

def endDrain (p : Phone) : Option Phone :=
  match p.drain with
  | some ⟨[], none, false⟩ => some { p with drain := some ⟨[], none, true⟩, jobs := p.jobs ++ [.count] }
  | _ => none

/-! ## Actions -/

inductive PhoneAction where
  | begin (recordingId : Uuid) (source : Source) (codec : Codec) (serverId : Digest)
  | add (recording : Nat) (payload : Packet) (now : DateTime)
  | checkpoint (recording : Nat)
  | stop (recording : Nat)
  | work (io : WorkIo)
  | terminate
  | recover (fails : Bool)
  | startDrain
  | readPart (fails : Bool)
  | abandon
  | acknowledge (id digest : String)
  | endDrain

def perform (limits : Limits) (sha256 : Bytes → String) (p : Phone) : PhoneAction → Option Phone
  | .begin recordingId source codec serverId => begin p recordingId source codec serverId
  | .add k payload now => add limits p k payload now
  | .checkpoint k => checkpoint p k
  | .stop k => stop p k
  | .work io => work limits io p
  | .terminate => some (terminate p)
  | .recover fails => recover fails p
  | .startDrain => startDrain p
  | .readPart fails => readPart fails p
  | .abandon => abandon p
  | .acknowledge id digest => acknowledge sha256 p id digest
  | .endDrain => endDrain p

end OmiLocal.Capture
