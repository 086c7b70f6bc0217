import OmiLocal.Pusher.Buffers
import OmiLocal.Lib.Values

/-!
# Conversation requests across reconnects

The session's pending conversation requests and buffered speaker samples: the calls that add to
them, the receive loop that removes and retries them, and the re-sends of `_connect`, one step from
one await to the next. Clocks, delays and what `json.loads` makes of a frame are given from outside.
-/
namespace OmiLocal.Pusher
open Lib Lib.Framing Lib.Drains Lib.Values

structure RequestConfig where
  maxPendingRequests : Nat
  maxPendingSpeakerSampleRequests : Nat
  maxAudioBufferSize : Nat
  language : String

def pendingRequestTimeout : ℚ := 120

def maxRetriesPerRequest : Nat := 3

def pendingRequestRecoveryCooldown : ℚ := 300

def finalizationInFlightError : String := "job_leased"

def finalizationResultProtocol : Nat := 2

def finalizationStaleGenerationError : String := "job_stale_generation"

structure Pending where
  sentAt : ℚ
  retries : Nat
  finalizationJobId : Option String
  dispatchGeneration : Option Int
  deriving DecidableEq

abbrev PendingRequests := List (String × Pending)

structure FinalizationFields where
  finalizationJobId : String
  dispatchGeneration : Int
  finalizationResultProtocol : Nat
  deriving DecidableEq

/-- The payload of a process-conversation frame, less the user's own keys. -/
structure ProcessConversation where
  conversationId : String
  language : String
  finalization : Option FinalizationFields
  deriving DecidableEq

structure SpeakerSampleRequest where
  personId : String
  conversationId : String
  segmentIds : List String
  deriving DecidableEq

/-- `existing or value` of a text and of a number. -/
def orText (text other : Option String) : Option String := if text = none ∨ text = some "" then other else text

def orNumber (number other : Option Int) : Option Int := if number = none ∨ number = some 0 then other else number

/-- `pending.get('dispatch_generation') or 1`. -/
def Pending.generation (pending : Pending) : Int := (orNumber pending.dispatchGeneration (some 1)).getD 1

/-- `min` over the keys by `sent_at`: the first of the smallest. -/
def oldestPending : PendingRequests → Option String
  | [] => none
  | entry :: rest =>
      some (rest.foldl (fun best other => if other.2.sentAt < best.2.sentAt then other else best) entry).1

/-! ## State -/

/-- Where `pusher_receive` awaits. -/
inductive Receiver where
  | waiting
  | sleeping
  | receiving
  | recovering
  | retrying (socket : Nat) (message : ProcessConversation) (rest : List String) (now : ℚ)
  | stopped
  deriving DecidableEq

/-- Where the re-sends of `_connect` await, and what is left of its lists. -/
inductive Replay where
  | idle
  | requests (socket : Nat) (message : ProcessConversation) (rest : List String)
  | samples (socket : Nat) (request : SpeakerSampleRequest) (rest : List SpeakerSampleRequest)
  deriving DecidableEq

/-- The samples that only the loop holds. -/
def Replay.held : Replay → List SpeakerSampleRequest
  | .samples _ request rest => request :: rest
  | _ => []

/-- What became of a request at its turn. -/
inductive Turn where
  | sent
  | failed
  | disconnected
  deriving DecidableEq

/-- How `_connect` ended after its connection was up. `missing` is the swallowed `KeyError` of its loop. -/
inductive ReplayEnd where
  | returned
  | missing (conversationId : String)
  | cancelled
  deriving DecidableEq

/-- History of the last connection: its websocket, the requests that were pending when it came up, their turns. -/
structure Resend where
  socket : Nat
  listed : List String
  turns : List (String × Turn)
  ended : Option ReplayEnd
  deriving DecidableEq

/-- `requestSends` and `sampleSends` are the sends of other callers. From `sent` on everything is history: what was sent
without an error, by websocket; the last connection; the sample requests that callers left to the buffer, and those
that were re-sent, pushed out at the limit or lost with a cancelled reconnect. -/
structure ListenRequests where
  session : Session
  pendingConversationRequests : PendingRequests
  pendingSpeakerSampleRequests : List SpeakerSampleRequest
  receiver : Receiver
  replay : Replay
  requestSends : List (Nat × ProcessConversation)
  sampleSends : List (Nat × SpeakerSampleRequest)
  sent : List (Nat × ProcessConversation)
  resend : Resend
  buffered : List SpeakerSampleRequest
  resent : List SpeakerSampleRequest
  pushedOut : List SpeakerSampleRequest
  abandoned : List SpeakerSampleRequest
  deriving DecidableEq

namespace ListenRequests
variable (cfg : RequestConfig)

def start : ListenRequests where
  session := .start
  pendingConversationRequests := []
  pendingSpeakerSampleRequests := []
  receiver := .waiting
  replay := .idle
  requestSends := []
  sampleSends := []
  sent := []
  resend := ⟨0, [], [], none⟩
  buffered := []
  resent := []
  pushedOut := []
  abandoned := []

/-- The websocket of a session that is connected. -/
def socket (s : ListenRequests) : Option Nat := if s.session.pusherConnected then s.session.pusherWs else none

def pending (s : ListenRequests) (cid : String) : Option Pending := Dict.get s.pendingConversationRequests cid

def setPending (s : ListenRequests) (cid : String) (pending : Pending) : ListenRequests :=
  { s with pendingConversationRequests := Dict.put s.pendingConversationRequests cid pending }

def dropPending (s : ListenRequests) (cid : String) : ListenRequests :=
  { s with pendingConversationRequests := Dict.erase s.pendingConversationRequests cid }

/-! ## Conversation requests -/

/-- `_buffer_pending_conversation_request`; `none` is the `ValueError` of `min` over nothing. -/
def bufferPendingConversationRequest (s : ListenRequests) (conversationId : String) (finalizationJobId : Option String)
    (dispatchGeneration : Option Int) (now : ℚ) : Option ListenRequests :=
  match s.pending conversationId with
  | some existing =>
      some (s.setPending conversationId
        { sentAt := now
          retries := existing.retries
          finalizationJobId := orText finalizationJobId existing.finalizationJobId
          dispatchGeneration := orNumber dispatchGeneration existing.dispatchGeneration })
  | none =>
      let added : Pending := ⟨now, 0, orText finalizationJobId none, orNumber dispatchGeneration none⟩
      if cfg.maxPendingRequests ≤ s.pendingConversationRequests.length then
        (oldestPending s.pendingConversationRequests).map fun oldest =>
          (s.dropPending oldest).setPending conversationId added
      else some (s.setPending conversationId added)

def processConversation (conversationId : String) (pending : Pending) : ProcessConversation where
  conversationId := conversationId
  language := cfg.language
  finalization :=
    match orText pending.finalizationJobId none with
    | some job => some ⟨job, pending.generation, finalizationResultProtocol⟩
    | none => none

/-- `request_conversation_processing` up to its send, with the websocket and the message of that send. -/
def requestConversationProcessing (s : ListenRequests) (conversationId : String) (finalizationJobId : Option String)
    (dispatchGeneration : Option Int) (now : ℚ) : ListenRequests × Option (Nat × ProcessConversation) :=
  match s.bufferPendingConversationRequest cfg conversationId finalizationJobId dispatchGeneration now with
  | some buffered =>
      match buffered.socket, buffered.pending conversationId with
      | some socket, some pending => (buffered, some (socket, processConversation cfg conversationId pending))
      | _, _ => (buffered, none)
  | none => (s, none)

/-- A send ends; one that raises has sent nothing for certain. -/
def sendEnded (s : ListenRequests) (socket : Nat) (message : ProcessConversation) (result : SendResult) : ListenRequests :=
  if result = .sent then { s with sent := s.sent ++ [(socket, message)] } else s

/-! ## Speaker samples -/

/-- `append` to the bounded `pending_speaker_sample_requests`. -/
def bufferSample (s : ListenRequests) (request : SpeakerSampleRequest) : ListenRequests :=
  let queue := s.pendingSpeakerSampleRequests
  { s with
    pendingSpeakerSampleRequests := dequeAppend cfg.maxPendingSpeakerSampleRequests queue request
    pushedOut := s.pushedOut ++ (queue ++ [request]).take (queue.length + 1 - cfg.maxPendingSpeakerSampleRequests) }

/-! ## Re-sending -/

def endReplay (s : ListenRequests) (ended : ReplayEnd) : ListenRequests :=
  { s with replay := .idle, session := s.session.replayed, resend := { s.resend with ended := some ended } }

/-- `for person_id, conv_id, segment_ids in buffered`, up to the next send. -/
def resendSamples (s : ListenRequests) : List SpeakerSampleRequest → ListenRequests
  | [] => s.endReplay .returned
  | request :: rest =>
      match s.socket with
      | some socket => { s with replay := .samples socket request rest }
      | none => (s.bufferSample cfg request).resendSamples rest

def takeSamples (s : ListenRequests) : ListenRequests :=
  { s with pendingSpeakerSampleRequests := [] }.resendSamples cfg s.pendingSpeakerSampleRequests

def turn (s : ListenRequests) (cid : String) (turn : Turn) : ListenRequests :=
  { s with resend := { s.resend with turns := s.resend.turns ++ [(cid, turn)] } }

/-- `for cid in list(self.pending_conversation_requests.keys())`, up to the next send. -/
def resendRequests (s : ListenRequests) (now : ℚ) : List String → ListenRequests
  | [] => s.takeSamples cfg
  | cid :: rest =>
      match s.pending cid with
      | none => s.endReplay (.missing cid)
      | some pending =>
          let marked := s.setPending cid { pending with sentAt := now }
          match marked.requestConversationProcessing cfg cid pending.finalizationJobId pending.dispatchGeneration now with
          | (requested, some (socket, message)) => { requested with replay := .requests socket message rest }
          | (requested, none) => (requested.turn cid .disconnected).resendRequests now rest

/-- `_connect` once it has its websocket, up to its next await. -/
def connected (s : ListenRequests) (now : ℚ) : ListenRequests :=
  let listed := Dict.keys s.pendingConversationRequests
  { s with
    session := s.session.socketOpened .socket
    resend := ⟨s.session.opened, listed, [], none⟩ }.resendRequests cfg now listed

/-- The reconnect task, or the task that connects, is cancelled in the middle of the re-sends. -/
def abandonReplay (s : ListenRequests) (session : Session) : ListenRequests :=
  { s with
    session := session
    replay := .idle
    resend := { s.resend with ended := some .cancelled }
    abandoned := s.abandoned ++ s.replay.held }

def replaySent (s : ListenRequests) (result : SendResult) (now : ℚ) : ListenRequests :=
  match result with
  | .cancelled _ =>
      s.abandonReplay { s.session with
        connect := .idle
        reconnectTask := if s.session.connect = .replaying true then .absent else s.session.reconnectTask }
  | _ =>
      match s.replay with
      | .requests socket message rest =>
          let turned := (s.sendEnded socket message result).turn message.conversationId
            (if result = .sent then .sent else .failed)
          turned.resendRequests cfg now rest
      | .samples _ request rest =>
          match result with
          | .sent => { s with resent := s.resent ++ [request] }.resendSamples cfg rest
          | .connectionClosed _ =>
              let kept := s.bufferSample cfg request
              { kept with session := kept.session.markDisconnected }.resendSamples cfg rest
          | _ => (s.bufferSample cfg request).resendSamples cfg rest
      | .idle => s

/-! ## The receive loop -/

/-- From `if not self.pusher_connected or not self.pusher_ws` to the next await. -/
def awaitFrame (s : ListenRequests) : ListenRequests :=
  { s with receiver := if s.socket.isSome then .receiving else .sleeping }

/-- The head of the loop; `active` is `is_active()`. -/
def loopHead (s : ListenRequests) (active : Bool) : ListenRequests :=
  if !active then { s with receiver := .stopped }
  else if s.pendingConversationRequests = [] then { s with receiver := .waiting }
  else s.awaitFrame

/-- `for cid in timed_out`, up to the next send. -/
def retryRequests (s : ListenRequests) (now clock : ℚ) (active : Bool) : List String → ListenRequests
  | [] => s.loopHead active
  | cid :: rest =>
      match s.pending cid with
      | none => s.retryRequests now clock active rest
      | some info =>
          if maxRetriesPerRequest ≤ info.retries then
            let sentAt := now + pendingRequestRecoveryCooldown - pendingRequestTimeout
            (s.setPending cid { info with retries := 0, sentAt := sentAt }).retryRequests now clock active rest
          else
            let counted := s.setPending cid { info with retries := info.retries + 1 }
            match counted.requestConversationProcessing cfg cid info.finalizationJobId info.dispatchGeneration clock with
            | (requested, some (socket, message)) => { requested with receiver := .retrying socket message rest now }
            | (requested, none) => requested.retryRequests now clock active rest

def retryTimedOut (s : ListenRequests) (now clock : ℚ) (active : Bool) : ListenRequests :=
  let timedOut := s.pendingConversationRequests.filter fun entry => decide (pendingRequestTimeout < now - entry.2.sentAt)
  s.retryRequests cfg now clock active (Dict.keys timedOut)

/-- `result.get(key)`. -/
def field (result : Entries) (key : String) : Value := (Dict.get result key).getD .none

/-- The entry is due at once. -/
def expire (s : ListenRequests) (cid : String) (now : ℚ) : ListenRequests :=
  match s.pending cid with
  | some info => s.setPending cid { info with sentAt := now - pendingRequestTimeout - 1 }
  | none => s

/-- `result["error"]`, for a conversation id that is a text. -/
def handleError (s : ListenRequests) (result : Entries) (cid : String) (now : ℚ) : ListenRequests :=
  if (field result "error").text = some finalizationStaleGenerationError then
    match s.pending cid, field result "dispatch_generation" with
    | some info, .int rejected => if info.generation = rejected then s.dropPending cid else s
    | _, _ => s
  else if (field result "terminal").truthy then s.dropPending cid
  else if (field result "error").text = some finalizationInFlightError then s
  else s.expire cid now

/-- A result that names a conversation. -/
def handleNamed (s : ListenRequests) (result : Entries) (cid : String) (now : ℚ) : ListenRequests :=
  if (Dict.get result "error").isSome then s.handleError result cid now
  else if (field result "fenced").truthy then s.dropPending cid
  else if (field result "success").truthy then s.dropPending cid
  else s.expire cid now

def succeeded (result : Entries) : Bool :=
  (Dict.get result "error").isNone && !(field result "fenced").truthy && (field result "success").truthy

/-- The handling of a result frame, and whether it raises. `raises` is that `on_conversation_processed` does, or the
lookup of an id that is no text; such an id finds nothing. -/
def handleResult (s : ListenRequests) (result : Value) (now : ℚ) (raises : Bool) : ListenRequests × Bool :=
  match result with
  | .dict result =>
      match field result "conversation_id" with
      | .str cid => (s.handleNamed result cid now, succeeded result && raises)
      | _ => (s, raises)
  | _ => (s, true)

/-- How `wait_for(self.pusher_ws.recv(), timeout=5.0)` ends. -/
inductive Received where
  | frame (data : Bytes)
  | timeout
  | connectionClosed
  | cancelled
  | failed
  deriving DecidableEq

def received (loads : Bytes → Option Value) (s : ListenRequests) (msg : Received) (now clock : ℚ) (active raises : Bool) :
    ListenRequests :=
  match msg with
  | .frame data =>
      if data.length < 4 then s.loopHead active
      else if fromLittleEndian (data.take 4) = 201 then
        match loads (data.drop 4) with
        | some result =>
            let (handled, raised) := s.handleResult result now raises
            if raised then { handled with receiver := .recovering } else handled.retryTimedOut cfg now clock active
        | none => { s with receiver := .recovering }
      else s.retryTimedOut cfg now clock active
  | .timeout => s.retryTimedOut cfg now clock active
  | .connectionClosed => { s with session := s.session.markDisconnected }.retryTimedOut cfg now clock active
  | .cancelled => { s with receiver := .stopped }
  | .failed => { s with receiver := .recovering }

/-- The wait for a request ends, by the event or by its timeout. -/
def woken (s : ListenRequests) (set active : Bool) : ListenRequests := if set then s.awaitFrame else s.loopHead active

def retrySent (s : ListenRequests) (result : SendResult) (clock : ℚ) (active : Bool) : ListenRequests :=
  match s.receiver with
  | .retrying socket message rest now =>
      match result with
      | .cancelled _ => { s with receiver := .stopped }
      | _ => (s.sendEnded socket message result).retryRequests cfg now clock active rest
  | _ => s

/-! ## Other callers -/

def request (s : ListenRequests) (conversationId : String) (finalizationJobId : Option String)
    (dispatchGeneration : Option Int) (now : ℚ) : ListenRequests :=
  let (requested, send) := s.requestConversationProcessing cfg conversationId finalizationJobId dispatchGeneration now
  { requested with requestSends := requested.requestSends ++ send.toList }

def requestSent (s : ListenRequests) (socket : Nat) (message : ProcessConversation) (result : SendResult) :
    ListenRequests :=
  { s with requestSends := s.requestSends.erase (socket, message) }.sendEnded socket message result

/-- A caller's request goes to the buffer. -/
def keepSample (s : ListenRequests) (request : SpeakerSampleRequest) : ListenRequests :=
  { s.bufferSample cfg request with buffered := s.buffered ++ [request] }

/-- `send_speaker_sample_request` up to its send. -/
def sendSpeakerSampleRequest (s : ListenRequests) (request : SpeakerSampleRequest) : ListenRequests :=
  match s.socket with
  | some socket => { s with sampleSends := s.sampleSends ++ [(socket, request)] }
  | none => s.keepSample cfg request

def sampleSent (s : ListenRequests) (socket : Nat) (request : SpeakerSampleRequest) (result : SendResult) :
    ListenRequests :=
  let ended := { s with sampleSends := s.sampleSends.erase (socket, request) }
  match result with
  | .sent | .cancelled _ => ended
  | .connectionClosed _ =>
      let kept := ended.keepSample cfg request
      { kept with session := kept.session.markDisconnected }
  | .failed _ => ended.keepSample cfg request

/-- A step of the session itself; to cancel its reconnect task can end the re-sends. -/
def sessionStep (s : ListenRequests) (a : Action) : ListenRequests :=
  let session := a.apply cfg.maxAudioBufferSize s.session
  if a = .cancelReconnect ∧ s.session.connect = .replaying true then s.abandonReplay session
  else { s with session := session }

end ListenRequests

/-! ## Runs -/

inductive RequestAction where
  | session (a : Action)
  | connected (now : ℚ)
  | replaySent (result : SendResult) (now : ℚ)
  | request (conversationId : String) (finalizationJobId : Option String) (dispatchGeneration : Option Int) (now : ℚ)
  | requestSent (socket : Nat) (message : ProcessConversation) (result : SendResult)
  | sample (request : SpeakerSampleRequest)
  | sampleSent (socket : Nat) (request : SpeakerSampleRequest) (result : SendResult)
  | received (msg : ListenRequests.Received) (now clock : ℚ) (active raises : Bool)
  | woken (set active : Bool)
  | slept (active : Bool)
  | recovered (now clock : ℚ) (active : Bool)
  | retrySent (result : SendResult) (clock : ℚ) (active : Bool)
  | cancelReceiver
  deriving DecidableEq

namespace ListenRequests
variable (cfg : RequestConfig) (loads : Bytes → Option Value)

/-- The steps of the session that this model does not make itself. -/
def ownStep : Action → Bool
  | .socketOpened .socket | .replayed | .frameSent _ (.processConversation _) | .frameSent _ (.speakerSample _) => false
  | _ => true

def enabled (s : ListenRequests) : RequestAction → Bool
  | .session a => ownStep a && a.enabled s.session
  | .connected _ => (s.session.connect matches .opening _)
  | .replaySent _ _ => decide (s.replay ≠ .idle)
  | .request _ _ _ _ => true
  | .requestSent socket message _ => decide ((socket, message) ∈ s.requestSends)
  | .sample _ => true
  | .sampleSent socket request _ => decide ((socket, request) ∈ s.sampleSends)
  | .received _ _ _ _ _ => decide (s.receiver = .receiving)
  | .woken _ _ => decide (s.receiver = .waiting)
  | .slept _ => decide (s.receiver = .sleeping)
  | .recovered _ _ _ => decide (s.receiver = .recovering)
  | .retrySent _ _ _ => (s.receiver matches .retrying ..)
  | .cancelReceiver => decide (s.receiver ≠ .stopped)

def apply (s : ListenRequests) : RequestAction → ListenRequests
  | .session a => s.sessionStep cfg a
  | .connected now => s.connected cfg now
  | .replaySent result now => s.replaySent cfg result now
  | .request cid job generation now => s.request cfg cid job generation now
  | .requestSent socket message result => s.requestSent socket message result
  | .sample request => s.sendSpeakerSampleRequest cfg request
  | .sampleSent socket request result => s.sampleSent cfg socket request result
  | .received msg now clock active raises => s.received cfg loads msg now clock active raises
  | .woken set active => s.woken set active
  | .slept active => s.loopHead active
  | .recovered now clock active => s.retryTimedOut cfg now clock active
  | .retrySent result clock active => s.retrySent cfg result clock active
  | .cancelReceiver => { s with receiver := .stopped }

def act (s : ListenRequests) (a : RequestAction) : Option ListenRequests :=
  if s.enabled a then some (s.apply cfg loads a) else none

end ListenRequests
end OmiLocal.Pusher
