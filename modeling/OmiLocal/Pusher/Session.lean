import OmiLocal.Pusher.Connection

/-!
# The listen session's side of a pusher connection

`ListenPusherSession`, one step from one await to the next: the audio flush, the reconnect
loop, `connect`, and the other senders as far as they disconnect the session. Clocks and delays
are given by the steps.
-/
namespace OmiLocal.Pusher
open Lib Lib.Framing

inductive PusherReconnectState where
  | connected
  | reconnectBackoff
  | degraded
  | halfOpenProbe
  deriving DecidableEq

def pusherMaxReconnectAttempts : Nat := 6

/-- Where `_audio_bytes_flush` awaits; it holds its lock unless it is idle. -/
inductive Flush where
  | idle
  | announcing (socket : Nat) (id : String)
  | sending (socket : Nat) (began : Option String) (timestamp : UInt64) (pendingChunks : List Bytes)
      (pendingTotalSize : Nat)
  deriving DecidableEq

/-- Where `connect` awaits, and whether the reconnect loop called it. -/
inductive Connect where
  | idle
  | closing (byLoop : Bool)
  | opening (byLoop : Bool)
  | replaying (byLoop : Bool)
  deriving DecidableEq

/-- `absent` is no task, or one that is done. -/
inductive ReconnectTask where
  | absent
  | turning
  | backingOff
  | coolingDown
  | connecting (probe : Bool)
  deriving DecidableEq

/-- A frame written to a websocket. `began` is the conversation that was current when the flush
that sent it began. -/
structure Sent where
  socket : Nat
  frame : Frame
  began : Option String
  deriving DecidableEq

/-- Websockets are numbered as they open. `outdated` is history: since the last announcement that
succeeded, a websocket was opened, or an announcement failed after it was written. -/
structure Session where
  currentConversationId : Option String
  pusherWs : Option Nat
  pusherConnected : Bool
  reconnectState : PusherReconnectState
  reconnectAttempts : Nat
  reconnectTask : ReconnectTask
  lastSyncedConversationId : Option String
  audioChunks : List Bytes
  audioTotalSize : Nat
  flush : Flush
  connect : Connect
  opened : Nat
  sent : List Sent
  outdated : Bool
  deriving DecidableEq

def Session.start : Session where
  currentConversationId := none
  pusherWs := none
  pusherConnected := false
  reconnectState := .connected
  reconnectAttempts := 0
  reconnectTask := .absent
  lastSyncedConversationId := none
  audioChunks := []
  audioTotalSize := 0
  flush := .idle
  connect := .idle
  opened := 0
  sent := []
  outdated := false

/-- How a send ends. One that raises may have written its frame. -/
inductive SendResult where
  | sent
  | connectionClosed (written : Bool)
  | failed (written : Bool)
  | cancelled (written : Bool)
  deriving DecidableEq

def SendResult.written : SendResult → Bool
  | .sent => true
  | .connectionClosed written | .failed written | .cancelled written => written

inductive OpenResult where
  | socket
  | none
  | circuitBreakerOpen
  | failed
  deriving DecidableEq

namespace Session
variable (maxAudioBufferSize : Nat)

/-- `_mark_disconnected`. -/
def markDisconnected (s : Session) : Session :=
  if s.pusherConnected then
    { s with
      pusherConnected := false
      reconnectState := if s.reconnectState = .connected then .reconnectBackoff else s.reconnectState
      reconnectTask := if s.reconnectTask = .absent then .turning else s.reconnectTask }
  else s

/-! ## Audio -/

/-- `while audio_total_size > max: audio_total_size -= len(audio_chunks.popleft())`. -/
def trim (limit : Nat) : List Bytes → Nat → List Bytes × Nat
  | [], total => ([], total)
  | old :: chunks, total => if limit < total then trim limit chunks (total - old.length) else (old :: chunks, total)

/-- `chunk[-max_audio_buffer_size:]` of a chunk that is longer than that. -/
def lastBytes (chunk : Bytes) : Bytes :=
  if maxAudioBufferSize < chunk.length ∧ 0 < maxAudioBufferSize then chunk.drop (chunk.length - maxAudioBufferSize)
  else chunk

def audioBytesSend (s : Session) (audioBytes : Bytes) : Session :=
  let chunk := lastBytes maxAudioBufferSize audioBytes
  let (chunks, total) := trim (maxAudioBufferSize - chunk.length) s.audioChunks s.audioTotalSize
  { s with audioChunks := chunks ++ [chunk], audioTotalSize := total + chunk.length }

/-- The second half of `_audio_bytes_flush`, up to its send. -/
def sendAudio (s : Session) (timestamp : UInt64) (began : Option String) : Session :=
  match s.pusherWs with
  | some socket =>
      if s.pusherConnected ∧ 0 < s.audioTotalSize then
        { s with
          flush := .sending socket began timestamp s.audioChunks s.audioTotalSize
          audioChunks := []
          audioTotalSize := 0 }
      else { s with flush := .idle }
  | none => { s with flush := .idle }

/-- `_audio_bytes_flush` up to its first await. -/
def audioBytesFlush (s : Session) (timestamp : UInt64) : Session :=
  match s.pusherWs, s.currentConversationId with
  | some socket, some id =>
      if id ≠ "" ∧ s.lastSyncedConversationId ≠ some id then { s with flush := .announcing socket id }
      else s.sendAudio timestamp s.currentConversationId
  | _, _ => s.sendAudio timestamp s.currentConversationId

def write (s : Session) (entry : Sent) : Session := { s with sent := s.sent ++ [entry] }

/-- The announcement's send ends, and the flush goes on to the audio. -/
def flushAnnounced (s : Session) (result : SendResult) (timestamp : UInt64) : Session :=
  match s.flush with
  | .announcing socket id =>
      let entry : Sent := ⟨socket, .conversation id, some id⟩
      match result with
      | .sent =>
          { s.write entry with
            lastSyncedConversationId := some id
            outdated := decide (s.pusherWs ≠ some socket) }.sendAudio timestamp (some id)
      | .connectionClosed written =>
          (if written then { s.write entry with outdated := true } else s).markDisconnected.sendAudio timestamp (some id)
      | .failed written =>
          (if written then { s.write entry with outdated := true } else s).sendAudio timestamp (some id)
      | .cancelled written =>
          { (if written then { s.write entry with outdated := true } else s) with flush := .idle }
  | _ => s

/-- The chunks of a send that failed go back in front. -/
def restore (s : Session) (pendingChunks : List Bytes) (pendingTotalSize : Nat) : Session :=
  let (chunks, total) := trim maxAudioBufferSize (pendingChunks ++ s.audioChunks) (s.audioTotalSize + pendingTotalSize)
  { s with audioChunks := chunks, audioTotalSize := total }

def flushSent (s : Session) (result : SendResult) : Session :=
  match s.flush with
  | .sending socket began timestamp pendingChunks pendingTotalSize =>
      let written := if result.written then s.write ⟨socket, .audio timestamp pendingChunks.flatten, began⟩ else s
      let ended := { written with flush := .idle }
      match result with
      | .sent => ended
      | .connectionClosed _ => (ended.restore maxAudioBufferSize pendingChunks pendingTotalSize).markDisconnected
      | .failed _ | .cancelled _ => ended.restore maxAudioBufferSize pendingChunks pendingTotalSize
  | _ => s

/-! ## Reconnecting -/

/-- One turn of `_pusher_reconnect_loop`, up to its await; `cooled` is that the cooldown is over. -/
def turn (s : Session) (active cooled : Bool) : Session :=
  if !active || s.pusherConnected then { s with reconnectTask := .absent }
  else
    match s.reconnectState with
    | .reconnectBackoff =>
        if pusherMaxReconnectAttempts ≤ s.reconnectAttempts then
          { s with reconnectState := .degraded, reconnectAttempts := 0 }
        else { s with reconnectTask := .backingOff }
    | .degraded => if cooled then { s with reconnectState := .halfOpenProbe } else { s with reconnectTask := .coolingDown }
    | .halfOpenProbe => { s with reconnectTask := .connecting true }
    | .connected => { s with reconnectTask := .absent }

/-- `wait_for_event` returns; `shutdown` is that the shutdown event is set. -/
def waited (s : Session) (shutdown : Bool) : Session :=
  match s.reconnectTask with
  | .backingOff => { s with reconnectTask := if shutdown then .absent else .connecting false }
  | .coolingDown => { s with reconnectTask := if shutdown then .absent else .turning }
  | _ => s

/-- The loop after its `connect`. -/
def loopConnected (s : Session) (breakerOpen : Bool) : Session :=
  match s.reconnectTask with
  | .connecting probe =>
      if breakerOpen then
        { s with
          reconnectState := .degraded
          reconnectAttempts := if probe then s.reconnectAttempts else 0
          reconnectTask := .turning }
      else if s.pusherConnected then
        { s with reconnectState := .connected, reconnectAttempts := 0, reconnectTask := .absent }
      else if probe then { s with reconnectState := .degraded, reconnectTask := .turning }
      else { s with reconnectAttempts := s.reconnectAttempts + 1, reconnectTask := .turning }
  | _ => s

/-- `connect` returns, or raises that the circuit breaker is open. -/
def connectEnded (s : Session) (byLoop breakerOpen : Bool) : Session :=
  if byLoop then { s with connect := .idle }.loopConnected breakerOpen else { s with connect := .idle }

/-- `connect` up to its first await, once it has the lock. -/
def beginConnect (s : Session) (byLoop : Bool) : Session :=
  if s.pusherConnected then s.connectEnded byLoop false
  else if s.pusherWs.isSome then { s with connect := .closing byLoop }
  else { s with connect := .opening byLoop }

def socketClosed (s : Session) (raised : Bool) : Session :=
  match s.connect with
  | .closing byLoop => { s with pusherWs := if raised then s.pusherWs else none, connect := .opening byLoop }
  | _ => s

/-- `_connect`, once `connect_to_pusher` returns or raises. -/
def socketOpened (s : Session) (result : OpenResult) : Session :=
  match s.connect with
  | .opening byLoop =>
      match result with
      | .socket =>
          { s with
            pusherWs := some s.opened
            opened := s.opened + 1
            pusherConnected := true
            reconnectState := .connected
            reconnectAttempts := 0
            outdated := true
            connect := .replaying byLoop }
      | .none => { s with pusherWs := none }.connectEnded byLoop false
      | .circuitBreakerOpen => s.connectEnded byLoop true
      | .failed => s.connectEnded byLoop false
  | _ => s

def replayed (s : Session) : Session :=
  match s.connect with
  | .replaying byLoop => s.connectEnded byLoop false
  | _ => s

/-- `close` cancels the reconnect task, and with it the task's `connect`. -/
def cancelReconnect (s : Session) : Session :=
  { s with
    reconnectTask := .absent
    connect := if s.connect ∈ [.closing true, .opening true, .replaying true] then .idle else s.connect }

def startDegraded (s : Session) : Session :=
  { s with
    reconnectState := .degraded
    reconnectTask := if s.reconnectTask = .absent then .turning else s.reconnectTask }

end Session

/-! ## Runs -/

/-- `frameSent` is a frame of the other senders, and `connectionClosed` one of them, or the receiver, finding the
connection closed. -/
inductive Action where
  | setConversation (id : Option String)
  | audioBytesSend (audioBytes : Bytes)
  | flush (timestamp : UInt64)
  | flushAnnounced (result : SendResult) (timestamp : UInt64)
  | flushSent (result : SendResult)
  | frameSent (socket : Nat) (frame : Frame)
  | connectionClosed
  | turn (active cooled : Bool)
  | waited (shutdown : Bool)
  | beginConnect (byLoop : Bool)
  | socketClosed (raised : Bool)
  | socketOpened (result : OpenResult)
  | replayed
  | cancelReconnect
  | startDegraded
  deriving DecidableEq

/-- Audio and conversation frames are sent by the flush alone. -/
def Frame.byOthers : Frame → Bool
  | .audio _ _ | .conversation _ => false
  | _ => true

def Action.enabled (s : Session) : Action → Bool
  | .flush _ => s.flush = .idle
  | .flushAnnounced _ _ => (s.flush matches .announcing ..)
  | .flushSent _ => (s.flush matches .sending ..)
  | .frameSent socket frame => decide (socket < s.opened) && frame.byOthers
  | .turn _ _ => s.reconnectTask = .turning
  | .waited _ => decide (s.reconnectTask = .backingOff) || decide (s.reconnectTask = .coolingDown)
  | .beginConnect byLoop => decide (s.connect = .idle) && (!byLoop || (s.reconnectTask matches .connecting _))
  | .socketClosed _ => (s.connect matches .closing _)
  | .socketOpened _ => (s.connect matches .opening _)
  | .replayed => (s.connect matches .replaying _)
  | .startDegraded => !s.pusherConnected
  | .setConversation _ => true
  | .audioBytesSend _ => true
  | .connectionClosed => true
  | .cancelReconnect => true

def Action.apply (maxAudioBufferSize : Nat) (s : Session) : Action → Session
  | .setConversation id => { s with currentConversationId := id }
  | .audioBytesSend audioBytes => s.audioBytesSend maxAudioBufferSize audioBytes
  | .flush timestamp => s.audioBytesFlush timestamp
  | .flushAnnounced result timestamp => s.flushAnnounced result timestamp
  | .flushSent result => s.flushSent maxAudioBufferSize result
  | .frameSent socket frame => s.write ⟨socket, frame, none⟩
  | .connectionClosed => s.markDisconnected
  | .turn active cooled => s.turn active cooled
  | .waited shutdown => s.waited shutdown
  | .beginConnect byLoop => s.beginConnect byLoop
  | .socketClosed raised => s.socketClosed raised
  | .socketOpened result => s.socketOpened result
  | .replayed => s.replayed
  | .cancelReconnect => s.cancelReconnect
  | .startDegraded => s.startDegraded

def act (maxAudioBufferSize : Nat) (s : Session) (a : Action) : Option Session :=
  if a.enabled s then some (a.apply maxAudioBufferSize s) else none

end OmiLocal.Pusher
