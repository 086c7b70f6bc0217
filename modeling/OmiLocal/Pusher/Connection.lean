import OmiLocal.Pusher.Protocol
import Mathlib.Data.Rat.Defs
import Mathlib.Algebra.Order.Ring.Rat

/-!
# One pusher connection

`receive_tasks`, `process_private_cloud_queue` and `process_audio_bytes_queue` over the state
they share, one step from one await to the next. What the frames of other types feed (transcripts,
speaker samples, finalization) is left out, save that a bad payload ends the receive loop.
-/
namespace OmiLocal.Pusher
open Lib Lib.Framing

/-- A sample rate out of bounds closes the connection before any frame is read. -/
structure Config where
  sampleRate : Nat
  sampleRateValid : minSampleRate ≤ sampleRate ∧ sampleRate ≤ maxSampleRate
  hasAudioAppsEnabled : Bool
  audioBytesWebhookDelaySeconds : Option Int
  privateCloudSyncEnabled : Bool
  /-- The payload checks of the JSON frames. -/
  payloadAccepted : Frame → Bool

def audioBytesTriggerDelaySeconds : Nat := 4

def privateCloudChunkDuration : Nat := 60

def privateCloudBatchMaxAge : ℚ := 60

def privateCloudSyncMaxRetries : Nat := 3

def audioBytesQueueWarnSize : Nat := 20

structure PrivateCloudChunk where
  data : Buffer
  conversationId : String
  timestamp : UInt64

def PrivateCloudChunk.size (chunk : PrivateCloudChunk) : Nat := chunk.data.size

inductive Sink where
  | app
  | webhook
  deriving DecidableEq

structure AudioBytesQueueItem where
  type : Sink
  data : Buffer

def AudioBytesQueueItem.size (item : AudioBytesQueueItem) : Nat := item.data.size

structure Batch where
  data : Buffer
  timestamp : UInt64
  queuedAt : ℚ
  retries : Nat

def Batch.size (batch : Batch) : Nat := batch.data.size

structure Upload where
  conversationId : String
  data : Buffer
  timestamp : UInt64

/-- Where `process_private_cloud_queue` waits: for the next round, for an upload, or for the audio files
of an uploaded batch to be recorded. -/
inductive Uploader where
  | waiting
  | uploading (conversationId : String) (batch : Batch) (rest : List String)
  | recording (conversationId : String) (batch : Batch) (rest : List String)
  | ended

/-- `delivering` is what the audio bytes consumer took off its queue. `received` and `uploads` are history:
every audio frame that came, and every upload that succeeded. -/
structure Connection where
  websocketActive : Bool
  receiving : Bool
  audioBudget : ByteBudget
  currentConversationId : Option String
  audiobuffer : Buffer
  triggerAudiobuffer : Buffer
  privateCloudSyncBuffer : Buffer
  privateCloudChunkStartTime : Option UInt64
  privateCloudQueue : List PrivateCloudChunk
  audioBytesQueue : List AudioBytesQueueItem
  pending : List (String × Batch)
  deletedConversations : List String
  uploader : Uploader
  delivering : List AudioBytesQueueItem
  received : List Piece
  uploads : List Upload

def Connection.start : Connection where
  websocketActive := true
  receiving := true
  audioBudget := ⟨bufferedAudioMaxBytes, 0, Nat.zero_le _⟩
  currentConversationId := none
  audiobuffer := []
  triggerAudiobuffer := []
  privateCloudSyncBuffer := []
  privateCloudChunkStartTime := none
  privateCloudQueue := []
  audioBytesQueue := []
  pending := []
  deletedConversations := []
  uploader := .waiting
  delivering := []
  received := []
  uploads := []

/-! ## Receiving -/

/-- `0.0` and `-0.0`. -/
def isZero (timestamp : UInt64) : Bool := timestamp = 0 ∨ timestamp = 0x8000000000000000

namespace Connection
variable (cfg : Config)

/-- The current conversation where it is truthy. -/
def conversation (c : Connection) : Option String := c.currentConversationId.filter (· ≠ "")

def queuePrivate (c : Connection) (conversationId : String) (timestamp : UInt64) : Connection :=
  let (queue, budget) := appendBounded PrivateCloudChunk.size privateCloudQueueMaxSize
    c.privateCloudQueue ⟨c.privateCloudSyncBuffer, conversationId, timestamp⟩ c.audioBudget
  { c with
    privateCloudQueue := queue
    audioBudget := budget
    privateCloudSyncBuffer := []
    privateCloudChunkStartTime := none }

/-- `private_cloud_chunk_start_time or time.time()`. -/
def startTimeOr (c : Connection) (clock : UInt64) : UInt64 :=
  match c.privateCloudChunkStartTime with
  | some timestamp => if isZero timestamp then clock else timestamp
  | none => clock

def receiveConversation (clock : UInt64) (c : Connection) (newConversationId : String) : Connection :=
  let flushed :=
    match c.conversation with
    | some conversationId =>
        if cfg.privateCloudSyncEnabled ∧ conversationId ≠ newConversationId ∧ 0 < c.privateCloudSyncBuffer.size then
          c.queuePrivate conversationId (c.startTimeOr clock)
        else c
    | none => c
  { flushed with currentConversationId := some newConversationId }

def extendTrigger (c : Connection) (piece : Piece) : Connection :=
  if cfg.hasAudioAppsEnabled then
    let (buffer, budget) := extendBounded c.triggerAudiobuffer piece c.audioBudget
    { c with triggerAudiobuffer := buffer, audioBudget := budget }
  else c

def extendAudio (c : Connection) (piece : Piece) : Connection :=
  if cfg.audioBytesWebhookDelaySeconds.isSome then
    let (buffer, budget) := extendBounded c.audiobuffer piece c.audioBudget
    { c with audiobuffer := buffer, audioBudget := budget }
  else c

/-- The start time is set before the budget is asked. -/
def extendPrivate (c : Connection) (piece : Piece) : Connection :=
  let (buffer, budget) := extendBounded c.privateCloudSyncBuffer piece c.audioBudget
  { c with
    privateCloudChunkStartTime := some (c.privateCloudChunkStartTime.getD piece.timestamp)
    privateCloudSyncBuffer := buffer
    audioBudget := budget }

def receivePrivate (c : Connection) (piece : Piece) : Connection :=
  match c.conversation with
  | some conversationId =>
      if cfg.privateCloudSyncEnabled then
        let extended := c.extendPrivate piece
        if cfg.sampleRate * 2 * privateCloudChunkDuration ≤ extended.privateCloudSyncBuffer.size then
          extended.queuePrivate conversationId (extended.privateCloudChunkStartTime.getD 0)
        else extended
      else c
  | none => c

def queueAudioBytes (c : Connection) (item : AudioBytesQueueItem) : Connection :=
  let (queue, budget) := appendBounded AudioBytesQueueItem.size audioBytesQueueWarnSize c.audioBytesQueue item c.audioBudget
  { c with audioBytesQueue := queue, audioBudget := budget }

def queueTrigger (c : Connection) : Connection :=
  if cfg.hasAudioAppsEnabled ∧ cfg.sampleRate * audioBytesTriggerDelaySeconds * 2 < c.triggerAudiobuffer.size then
    { c.queueAudioBytes ⟨.app, c.triggerAudiobuffer⟩ with triggerAudiobuffer := [] }
  else c

def queueWebhook (c : Connection) : Connection :=
  match cfg.audioBytesWebhookDelaySeconds with
  | some delay =>
      if (cfg.sampleRate : Int) * delay * 2 < c.audiobuffer.size then
        { c.queueAudioBytes ⟨.webhook, c.audiobuffer⟩ with audiobuffer := [] }
      else c
  | none => c

def receiveAudio (c : Connection) (timestamp : UInt64) (data : Bytes) : Connection :=
  let piece : Piece := ⟨c.currentConversationId, timestamp, data⟩
  let c := { c with received := c.received ++ [piece] }
  ((((c.extendTrigger cfg piece).extendAudio cfg piece).receivePrivate cfg piece).queueTrigger cfg).queueWebhook cfg

/-- The `finally` block of `receive_tasks`. What the other two buffers hold stays reserved. -/
def finishReceiving (clock : UInt64) (c : Connection) : Connection :=
  let flushed :=
    match c.conversation with
    | some conversationId =>
        if cfg.privateCloudSyncEnabled ∧ 0 < c.privateCloudSyncBuffer.size then
          c.queuePrivate conversationId (c.startTimeOr clock)
        else c
    | none => c
  { flushed with websocketActive := false, receiving := false }

/-- One round of the receive loop. -/
def receive (clock : UInt64) (c : Connection) (data : Bytes) : Connection :=
  match readFrame data with
  | none => c.finishReceiving cfg clock
  | some .heartbeat => c
  | some (.conversation id) => c.receiveConversation cfg clock id
  | some (.audio timestamp data) => c.receiveAudio cfg timestamp data
  | some frame => if cfg.payloadAccepted frame then c else c.finishReceiving cfg clock

theorem receive_encode (clock : UInt64) (c : Connection) (frame : Frame) :
    c.receive cfg clock frame.encode =
      match frame with
      | .heartbeat => c
      | .conversation id => c.receiveConversation cfg clock id
      | .audio timestamp data => c.receiveAudio cfg timestamp data
      | other => if cfg.payloadAccepted other then c else c.finishReceiving cfg clock := by
  rw [receive, readFrame_encode]
  cases frame <;> rfl

/-! ## Uploading -/

def boundPrivatePending (c : Connection) : Connection :=
  match c.pending with
  | [] => c
  | (_, oldest) :: rest =>
      if c.pending.length < privateCloudPendingMaxConversations then c
      else { c with pending := rest, audioBudget := c.audioBudget.release oldest.size }

def addToBatch (now : ℚ) (c : Connection) (chunk : PrivateCloudChunk) : Connection :=
  if chunk.conversationId ∈ c.deletedConversations then
    { c with audioBudget := c.audioBudget.release chunk.size }
  else
    match Dict.get c.pending chunk.conversationId with
    | some batch =>
        { c with pending := Dict.put c.pending chunk.conversationId { batch with data := batch.data ++ chunk.data } }
    | none =>
        let bounded := c.boundPrivatePending
        { bounded with
          pending := Dict.put bounded.pending chunk.conversationId ⟨chunk.data, chunk.timestamp, now, 0⟩ }

def readyToFlush (now : ℚ) (c : Connection) (batch : Batch) : Bool :=
  !c.websocketActive || decide (cfg.sampleRate * 2 * privateCloudChunkDuration ≤ batch.size) ||
    decide (privateCloudBatchMaxAge ≤ now - batch.queuedAt)

def nextRound (c : Connection) : Connection :=
  if c.websocketActive ∨ c.privateCloudQueue ≠ [] ∨ c.pending ≠ [] then { c with uploader := .waiting }
  else { c with uploader := .ended }

/-- `_flush_batch` for each conversation, up to its upload. -/
def flushBatches (c : Connection) : List String → Connection
  | [] => c.nextRound
  | conversationId :: rest =>
      match Dict.get c.pending conversationId with
      | none => flushBatches c rest
      | some batch =>
          let popped := { c with pending := Dict.erase c.pending conversationId }
          if batch.size = 0 then flushBatches popped rest
          else { popped with uploader := .uploading conversationId batch rest }

/-- One round of `process_private_cloud_queue`. -/
def processPrivateCloudQueue (now : ℚ) (c : Connection) : Connection :=
  let drained := c.privateCloudQueue.foldl (addToBatch now) { c with privateCloudQueue := [] }
  drained.flushBatches ((drained.pending.filter fun entry => drained.readyToFlush cfg now entry.2).map Prod.fst)

def uploadSucceeded (c : Connection) : Connection :=
  match c.uploader with
  | .uploading conversationId batch rest =>
      { c with
        uploads := c.uploads ++ [⟨conversationId, batch.data, batch.timestamp⟩]
        uploader := .recording conversationId batch rest }
  | _ => c

def uploadFailed (now : ℚ) (c : Connection) : Connection :=
  match c.uploader with
  | .uploading conversationId batch rest =>
      if batch.retries < privateCloudSyncMaxRetries then
        flushBatches { c with
          pending := Dict.put c.pending conversationId
            { batch with retries := batch.retries + 1, queuedAt := if c.websocketActive then now else 0 } } rest
      else flushBatches { c with audioBudget := c.audioBudget.release batch.size } rest
  | _ => c

/-- `gone`: `update_conversation` found no conversation. Errors of the recording are logged. -/
def recorded (gone : Bool) (c : Connection) : Connection :=
  match c.uploader with
  | .recording conversationId batch rest =>
      flushBatches { c with
        deletedConversations := if gone then conversationId :: c.deletedConversations else c.deletedConversations
        audioBudget := c.audioBudget.release batch.size } rest
  | _ => c

/-! ## Audio bytes -/

def takeAudioBytes (c : Connection) : Connection := { c with delivering := c.audioBytesQueue, audioBytesQueue := [] }

def delivered (c : Connection) : Connection :=
  match c.delivering with
  | [] => c
  | item :: rest => { c with delivering := rest, audioBudget := c.audioBudget.release item.size }

end Connection

/-! ## Runs -/

/-- `finish` is the loop's other ends (a timeout, a disconnect, an error, a cancellation) and `deactivate` the
supervisor's `websocket_active = False`. A task that was cancelled takes no more steps. -/
inductive Event where
  | frame (clock : UInt64) (data : Bytes)
  | finish (clock : UInt64)
  | deactivate
  | round (now : ℚ)
  | uploadSucceeded
  | uploadFailed (now : ℚ)
  | recorded (gone : Bool)
  | takeAudioBytes
  | delivered

def Event.Enabled (c : Connection) : Event → Prop
  | .frame _ _ => c.receiving = true ∧ c.websocketActive = true
  | .finish _ => c.receiving = true
  | .round _ => c.uploader = .waiting
  | .uploadSucceeded | .uploadFailed _ => ∃ id batch rest, c.uploader = .uploading id batch rest
  | .recorded _ => ∃ id batch rest, c.uploader = .recording id batch rest
  | .takeAudioBytes => c.delivering = []
  | .deactivate | .delivered => True

def Event.apply (cfg : Config) (c : Connection) : Event → Connection
  | .frame clock data => c.receive cfg clock data
  | .finish clock => c.finishReceiving cfg clock
  | .deactivate => { c with websocketActive := false }
  | .round now => c.processPrivateCloudQueue cfg now
  | .uploadSucceeded => c.uploadSucceeded
  | .uploadFailed now => c.uploadFailed now
  | .recorded gone => c.recorded gone
  | .takeAudioBytes => c.takeAudioBytes
  | .delivered => c.delivered

def Step (cfg : Config) (c : Connection) (e : Event) (d : Connection) : Prop := e.Enabled c ∧ d = e.apply cfg c

end OmiLocal.Pusher
