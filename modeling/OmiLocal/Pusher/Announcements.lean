import OmiLocal.Pusher.Session
import OmiLocal.Lib.Transition

/-!
# Audio under its conversation

The session remembers which conversation it announced last, the pusher which one it was told
on this websocket. As long as the two agree when a flush relies on it, every audio frame
follows the announcement of the conversation its flush began with.
-/
namespace OmiLocal.Pusher
open Lib Lib.Framing

/-- The frames written to one websocket. -/
def onSocket (socket : Nat) (sent : List Sent) : List Frame :=
  (sent.filter fun entry => decide (entry.socket = socket)).map Sent.frame

theorem onSocket_append (socket : Nat) (sent : List Sent) (entry : Sent) :
    onSocket socket (sent ++ [entry]) =
      if entry.socket = socket then onSocket socket sent ++ [entry.frame] else onSocket socket sent := by
  unfold onSocket
  rw [List.filter_append, List.map_append]
  split
  · rename_i same
    rw [List.filter_cons_of_pos (by simpa using same)]
    rfl
  · rename_i other
    rw [List.filter_cons_of_neg (by simpa using other), List.filter_nil, List.map_nil, List.append_nil]

/-- A frame that announces nothing leaves what the reader knows. -/
theorem announced_onSocket_append {socket : Nat} {sent : List Sent} {entry : Sent}
    (quiet : ∀ id, entry.frame ≠ .conversation id) :
    announced (onSocket socket (sent ++ [entry])) = announced (onSocket socket sent) := by
  rw [onSocket_append]
  split
  · rw [announced_append]
    split
    · rename_i id conversation
      exact absurd conversation (quiet id)
    · rfl
  · rfl

theorem announced_onSocket_conversation (socket : Nat) (sent : List Sent) (id : String) (began : Option String) :
    announced (onSocket socket (sent ++ [⟨socket, .conversation id, began⟩])) = some id := by
  rw [onSocket_append, if_pos rfl, announced_append]

theorem announced_onSocket_other {socket other : Nat} (apart : other ≠ socket) (sent : List Sent) (frame : Frame)
    (began : Option String) :
    announced (onSocket socket (sent ++ [⟨other, frame, began⟩])) = announced (onSocket socket sent) := by
  rw [onSocket_append, if_neg apart]

/-- Every audio frame follows, on its websocket, the announcement of the conversation its flush began with. -/
def Announced (sent : List Sent) : Prop :=
  ∀ earlier entry later, sent = earlier ++ entry :: later → ∀ timestamp data, entry.frame = .audio timestamp data →
    ∃ id, entry.began = some id ∧ id ≠ "" ∧ announced (onSocket entry.socket earlier) = some id

theorem announced_sent_nil : Announced [] := fun earlier entry later split => by
  cases earlier <;> cases split

theorem Announced.append {sent : List Sent} (h : Announced sent) {entry : Sent}
    (last : ∀ timestamp data, entry.frame = .audio timestamp data →
      ∃ id, entry.began = some id ∧ id ≠ "" ∧ announced (onSocket entry.socket sent) = some id) :
    Announced (sent ++ [entry]) := by
  intro earlier inner later split
  rcases List.eq_nil_or_concat later with rfl | ⟨front, final, rfl⟩
  · obtain ⟨rfl, same⟩ := List.append_inj' split rfl
    cases same
    exact last
  · rw [List.concat_eq_append, ← List.cons_append, ← List.append_assoc] at split
    obtain ⟨rfl, -⟩ := List.append_inj' split rfl
    exact h earlier inner front rfl

namespace Session

/-- The flush will send audio unless the connection is lost first. -/
def WillSend (s : Session) : Prop := s.pusherConnected = true ∧ s.pusherWs ≠ none ∧ 0 < s.audioTotalSize

structure Inv (s : Session) : Prop where
  synced : ∀ socket id, s.pusherWs = some socket → s.lastSyncedConversationId = some id → s.outdated = false →
    announced (onSocket socket s.sent) = some id
  announcing : ∀ socket id, s.flush = .announcing socket id → id ≠ ""
  sending : ∀ socket began timestamp pendingChunks pendingTotalSize,
    s.flush = .sending socket began timestamp pendingChunks pendingTotalSize →
      ∃ id, began = some id ∧ id ≠ "" ∧ announced (onSocket socket s.sent) = some id
  sent : Announced s.sent

theorem inv_start : Session.start.Inv :=
  ⟨fun _ _ none => (by cases none), fun _ _ idle => (by cases idle), fun _ _ _ _ _ idle => (by cases idle),
    announced_sent_nil⟩

end Session

/-- A flush that will send audio has a conversation, and one that was announced was announced on this websocket,
undisturbed since; an announcement after which audio goes out was written, and on the websocket of the audio. -/
def Action.Steady (s : Session) : Action → Prop
  | .flush _ =>
      s.WillSend → ∃ id, s.currentConversationId = some id ∧ id ≠ "" ∧
        (s.lastSyncedConversationId = some id → s.outdated = false)
  | .flushAnnounced result _ =>
      s.WillSend → ∀ socket id, s.flush = .announcing socket id →
        match result with
        | .sent => s.pusherWs = some socket
        | .failed written => written = true ∧ s.pusherWs = some socket
        | .connectionClosed _ | .cancelled _ => True
  | _ => True

namespace Session
section Steps
variable {s t : Session}

/-- Steps that touch neither what was announced nor the flush. -/
structure Quiet (s t : Session) : Prop where
  sent : t.sent = s.sent
  synced : t.lastSyncedConversationId = s.lastSyncedConversationId
  flush : t.flush = s.flush
  socket : ∀ socket, t.pusherWs = some socket → t.outdated = false → s.pusherWs = some socket ∧ s.outdated = false

theorem Quiet.refl (s : Session) : Quiet s s := ⟨rfl, rfl, rfl, fun _ same current => ⟨same, current⟩⟩

theorem Quiet.trans {u : Session} (first : Quiet s t) (second : Quiet t u) : Quiet s u :=
  ⟨second.sent.trans first.sent, second.synced.trans first.synced, second.flush.trans first.flush,
    fun socket same current =>
      have ⟨same, current⟩ := second.socket socket same current
      first.socket socket same current⟩

theorem Inv.quiet (h : s.Inv) (quiet : Quiet s t) : t.Inv := by
  refine ⟨?_, ?_, ?_, ?_⟩
  · intro socket id same synced current
    have ⟨same, current⟩ := quiet.socket socket same current
    rw [quiet.sent]
    exact h.synced socket id same (quiet.synced ▸ synced) current
  · rw [quiet.flush]
    exact h.announcing
  · rw [quiet.flush, quiet.sent]
    exact h.sending
  · rw [quiet.sent]
    exact h.sent

theorem quiet_markDisconnected (s : Session) : Quiet s s.markDisconnected := by
  unfold markDisconnected
  split
  · exact ⟨rfl, rfl, rfl, fun _ same current => ⟨same, current⟩⟩
  · exact Quiet.refl s

theorem quiet_loopConnected (s : Session) (breakerOpen : Bool) : Quiet s (s.loopConnected breakerOpen) := by
  unfold loopConnected
  split
  · split
    · exact ⟨rfl, rfl, rfl, fun _ same current => ⟨same, current⟩⟩
    · split
      · exact ⟨rfl, rfl, rfl, fun _ same current => ⟨same, current⟩⟩
      · split <;> exact ⟨rfl, rfl, rfl, fun _ same current => ⟨same, current⟩⟩
  · exact Quiet.refl s

theorem quiet_connectEnded (s : Session) (byLoop breakerOpen : Bool) : Quiet s (s.connectEnded byLoop breakerOpen) := by
  have released : Quiet s { s with connect := .idle } := ⟨rfl, rfl, rfl, fun _ same current => ⟨same, current⟩⟩
  unfold connectEnded
  split
  · exact released.trans (quiet_loopConnected _ breakerOpen)
  · exact released

theorem quiet_turn (s : Session) (active cooled : Bool) : Quiet s (s.turn active cooled) := by
  unfold turn
  split
  · exact ⟨rfl, rfl, rfl, fun _ same current => ⟨same, current⟩⟩
  · split
    · split <;> exact ⟨rfl, rfl, rfl, fun _ same current => ⟨same, current⟩⟩
    · split <;> exact ⟨rfl, rfl, rfl, fun _ same current => ⟨same, current⟩⟩
    · exact ⟨rfl, rfl, rfl, fun _ same current => ⟨same, current⟩⟩
    · exact ⟨rfl, rfl, rfl, fun _ same current => ⟨same, current⟩⟩

theorem quiet_waited (s : Session) (shutdown : Bool) : Quiet s (s.waited shutdown) := by
  unfold waited
  split
  · exact ⟨rfl, rfl, rfl, fun _ same current => ⟨same, current⟩⟩
  · exact ⟨rfl, rfl, rfl, fun _ same current => ⟨same, current⟩⟩
  · exact Quiet.refl s

theorem quiet_beginConnect (s : Session) (byLoop : Bool) : Quiet s (s.beginConnect byLoop) := by
  unfold beginConnect
  split
  · exact quiet_connectEnded s byLoop false
  · split <;> exact ⟨rfl, rfl, rfl, fun _ same current => ⟨same, current⟩⟩

theorem quiet_socketClosed (s : Session) (raised : Bool) : Quiet s (s.socketClosed raised) := by
  unfold socketClosed
  split
  · refine ⟨rfl, rfl, rfl, fun socket same current => ⟨?_, current⟩⟩
    dsimp only at same
    split at same
    · exact same
    · cases same
  · exact Quiet.refl s

/-- A fresh websocket outdates the announcement. -/
theorem quiet_socketOpened (s : Session) (result : OpenResult) : Quiet s (s.socketOpened result) := by
  unfold socketOpened
  split
  · split
    · exact ⟨rfl, rfl, rfl, fun _ _ current => by cases current⟩
    · have dropped : Quiet s { s with pusherWs := none } := ⟨rfl, rfl, rfl, fun _ same => by cases same⟩
      exact dropped.trans (quiet_connectEnded _ _ _)
    · exact quiet_connectEnded s _ _
    · exact quiet_connectEnded s _ _
  · exact Quiet.refl s

theorem quiet_replayed (s : Session) : Quiet s s.replayed := by
  unfold replayed
  split
  · exact quiet_connectEnded s _ _
  · exact Quiet.refl s

theorem quiet_restore (maxAudioBufferSize : Nat) (s : Session) (pendingChunks : List Bytes) (pendingTotalSize : Nat) :
    Quiet s (s.restore maxAudioBufferSize pendingChunks pendingTotalSize) :=
  ⟨rfl, rfl, rfl, fun _ same current => ⟨same, current⟩⟩

/-- The flush is over. -/
theorem Inv.flushed (h : s.Inv) : { s with flush := .idle }.Inv :=
  ⟨h.synced, fun _ _ idle => (by cases idle), fun _ _ _ _ _ idle => (by cases idle), h.sent⟩

theorem Inv.write (h : s.Inv) {entry : Sent} (quiet : ∀ id, entry.frame ≠ .conversation id)
    (last : ∀ timestamp data, entry.frame = .audio timestamp data →
      ∃ id, entry.began = some id ∧ id ≠ "" ∧ announced (onSocket entry.socket s.sent) = some id) :
    (s.write entry).Inv := by
  refine ⟨?_, h.announcing, ?_, h.sent.append last⟩
  · intro socket id same synced current
    exact (announced_onSocket_append quiet).trans (h.synced socket id same synced current)
  · intro socket began timestamp chunks size sending
    obtain ⟨id, owner, nonempty, known⟩ := h.sending socket began timestamp chunks size sending
    exact ⟨id, owner, nonempty, (announced_onSocket_append quiet).trans known⟩

/-- Audio goes out under a conversation that its websocket was told. -/
theorem Inv.sendAudio (h : s.Inv) (timestamp : UInt64) {began : Option String}
    (told : s.WillSend → ∀ socket, s.pusherWs = some socket →
      ∃ id, began = some id ∧ id ≠ "" ∧ announced (onSocket socket s.sent) = some id) :
    (s.sendAudio timestamp began).Inv := by
  unfold Session.sendAudio
  split
  · rename_i socket connection
    split
    · rename_i sends
      refine ⟨h.synced, fun _ _ sending => (by cases sending), fun _ _ _ _ _ sending => ?_, h.sent⟩
      cases sending
      exact told ⟨sends.1, by rw [connection]; simp, sends.2⟩ socket connection
    · exact h.flushed
  · exact h.flushed

theorem Inv.audioBytesFlush (h : s.Inv) (timestamp : UInt64) (steady : (Action.flush timestamp).Steady s) :
    (s.audioBytesFlush timestamp).Inv := by
  have relied (unannounced : ∀ id, s.currentConversationId = some id → id ≠ "" → s.pusherWs ≠ none →
      s.lastSyncedConversationId = some id) : (s.sendAudio timestamp s.currentConversationId).Inv := by
    refine h.sendAudio timestamp fun sends socket connection => ?_
    obtain ⟨id, current, nonempty, undisturbed⟩ := steady sends
    have synced := unannounced id current nonempty sends.2.1
    exact ⟨id, current, nonempty, h.synced socket id connection synced (undisturbed synced)⟩
  unfold Session.audioBytesFlush
  split
  · rename_i socket id connection current
    split
    · rename_i announces
      refine ⟨h.synced, fun _ _ announcing => ?_, fun _ _ _ _ _ sending => (by cases sending), h.sent⟩
      cases announcing
      exact announces.1
    · rename_i silent
      refine relied fun other same nonempty _ => ?_
      cases current.symm.trans same
      by_contra unsynced
      exact silent ⟨nonempty, unsynced⟩
  · rename_i missing
    refine relied fun id same _ connection => ?_
    obtain ⟨socket, connection⟩ := Option.ne_none_iff_exists'.mp connection
    exact absurd same (missing socket id connection)

/-- After an announcement was written the invariant asks nothing of what is remembered. -/
theorem Inv.writeAnnouncement (h : s.Inv) {socket : Nat} {id : String} (announcing : s.flush = .announcing socket id) :
    { s.write ⟨socket, .conversation id, some id⟩ with outdated := true }.Inv := by
  refine ⟨fun _ _ _ _ current => (by cases current), h.announcing, ?_, h.sent.append fun _ _ audio => by cases audio⟩
  intro _ _ _ _ _ sending
  have flush : s.flush = _ := sending
  rw [announcing] at flush
  cases flush

theorem Inv.flushAnnounced (h : s.Inv) {result : SendResult} (timestamp : UInt64)
    (steady : (Action.flushAnnounced result timestamp).Steady s) : (s.flushAnnounced result timestamp).Inv := by
  unfold Session.flushAnnounced
  split
  · rename_i socket id announcing
    have nonempty := h.announcing socket id announcing
    have written := h.writeAnnouncement announcing
    have raised (wrote : Bool) :
        (if wrote then { s.write ⟨socket, .conversation id, some id⟩ with outdated := true } else s).Inv := by
      split
      · exact written
      · exact h
    dsimp only
    cases result with
    | sent =>
        refine Inv.sendAudio ?_ timestamp fun sends other connection => ?_
        · refine ⟨fun other known connection synced current => ?_, h.announcing, written.sending, written.sent⟩
          have same : s.pusherWs = some socket := by simpa using current
          cases same.symm.trans connection
          cases synced
          exact announced_onSocket_conversation socket s.sent id (some id)
        · have same : s.pusherWs = some socket := steady sends socket id announcing
          cases same.symm.trans connection
          exact ⟨id, rfl, nonempty, announced_onSocket_conversation socket s.sent id (some id)⟩
    | connectionClosed wrote =>
        refine ((raised wrote).quiet (quiet_markDisconnected _)).sendAudio timestamp fun sends => ?_
        have lost : ∀ u : Session, u.markDisconnected.pusherConnected = false := fun u => by
          unfold markDisconnected
          split
          · rfl
          · rename_i offline
            simpa using offline
        cases (lost _).symm.trans sends.1
    | failed wrote =>
        refine (raised wrote).sendAudio timestamp fun sends other connection => ?_
        have unchanged : (if wrote then { s.write ⟨socket, .conversation id, some id⟩ with outdated := true } else s).WillSend →
            s.WillSend := by
          cases wrote <;> exact fun will => will
        obtain ⟨rfl, same⟩ := steady (unchanged sends) socket id announcing
        cases same.symm.trans connection
        exact ⟨id, rfl, nonempty, announced_onSocket_conversation socket s.sent id (some id)⟩
    | cancelled wrote => exact (raised wrote).flushed
  · exact h

theorem Inv.flushSent (h : s.Inv) (maxAudioBufferSize : Nat) (result : SendResult) :
    (s.flushSent maxAudioBufferSize result).Inv := by
  unfold Session.flushSent
  split
  · rename_i socket began timestamp chunks size sending
    have told := h.sending socket began timestamp chunks size sending
    have ended : { (if result.written then s.write ⟨socket, .audio timestamp chunks.flatten, began⟩ else s) with
        flush := .idle }.Inv := by
      split
      · exact (h.write (fun _ conversation => by cases conversation) fun _ _ _ => told).flushed
      · exact h.flushed
    dsimp only
    split
    · exact ended
    · exact (ended.quiet (quiet_restore maxAudioBufferSize _ chunks size)).quiet (quiet_markDisconnected _)
    · exact ended.quiet (quiet_restore maxAudioBufferSize _ chunks size)
    · exact ended.quiet (quiet_restore maxAudioBufferSize _ chunks size)
  · exact h

theorem Inv.apply (h : s.Inv) (maxAudioBufferSize : Nat) {a : Action} (enabled : a.enabled s = true)
    (steady : a.Steady s) : (a.apply maxAudioBufferSize s).Inv := by
  cases a with
  | setConversation id => exact h.quiet ⟨rfl, rfl, rfl, fun _ same current => ⟨same, current⟩⟩
  | audioBytesSend bytes => exact h.quiet ⟨rfl, rfl, rfl, fun _ same current => ⟨same, current⟩⟩
  | flush timestamp => exact h.audioBytesFlush timestamp steady
  | flushAnnounced result timestamp => exact h.flushAnnounced timestamp steady
  | flushSent result => exact h.flushSent maxAudioBufferSize result
  | frameSent socket frame =>
      have other := (Bool.and_eq_true _ _ ▸ enabled).2
      refine h.write ?_ ?_
      · rintro id rfl
        cases other
      · rintro timestamp data rfl
        cases other
  | connectionClosed => exact h.quiet (quiet_markDisconnected s)
  | turn active cooled => exact h.quiet (quiet_turn s active cooled)
  | waited shutdown => exact h.quiet (quiet_waited s shutdown)
  | beginConnect byLoop => exact h.quiet (quiet_beginConnect s byLoop)
  | socketClosed raised => exact h.quiet (quiet_socketClosed s raised)
  | socketOpened result => exact h.quiet (quiet_socketOpened s result)
  | replayed => exact h.quiet (quiet_replayed s)
  | cancelReconnect => exact h.quiet ⟨rfl, rfl, rfl, fun _ same current => ⟨same, current⟩⟩
  | startDegraded => exact h.quiet ⟨rfl, rfl, rfl, fun _ same current => ⟨same, current⟩⟩

end Steps
end Session

/-! ## Runs -/

/-- The sessions that a run of steady actions reaches. -/
abbrev ReachedSteady (maxAudioBufferSize : Nat) : Session → Prop :=
  Transition.Reachable (· = Session.start) fun s a t => a.Steady s ∧ act maxAudioBufferSize s a = some t

theorem ReachedSteady.inv {maxAudioBufferSize : Nat} {s : Session} (reached : ReachedSteady maxAudioBufferSize s) :
    s.Inv := by
  induction reached with
  | start initial =>
      rw [initial]
      exact Session.inv_start
  | next _ step ih =>
      obtain ⟨steady, acted⟩ := step
      unfold act at acted
      split at acted
      · rename_i enabled
        cases acted
        exact ih.apply maxAudioBufferSize enabled steady
      · cases acted

/-! ## The pusher's side -/

namespace Connection
variable (cfg : Config) (clock : UInt64)

/-- A connection that has read the frames. -/
def read (frames : List Frame) : Connection := frames.foldl (fun c frame => c.receive cfg clock frame.encode) start

theorem receiveAudio_current (c : Connection) (timestamp : UInt64) (data : Bytes) :
    (c.receiveAudio cfg timestamp data).currentConversationId = c.currentConversationId := by
  have queueWebhook (d : Connection) : (d.queueWebhook cfg).currentConversationId = d.currentConversationId := by
    unfold Connection.queueWebhook
    split
    · split <;> rfl
    · rfl
  have queueTrigger (d : Connection) : (d.queueTrigger cfg).currentConversationId = d.currentConversationId := by
    unfold Connection.queueTrigger
    split <;> rfl
  have receivePrivate (d : Connection) (piece : Piece) :
      (d.receivePrivate cfg piece).currentConversationId = d.currentConversationId := by
    unfold Connection.receivePrivate
    split
    · split
      · dsimp only
        split <;> rfl
      · rfl
    · rfl
  have extendAudio (d : Connection) (piece : Piece) :
      (d.extendAudio cfg piece).currentConversationId = d.currentConversationId := by
    unfold Connection.extendAudio
    split <;> rfl
  have extendTrigger (d : Connection) (piece : Piece) :
      (d.extendTrigger cfg piece).currentConversationId = d.currentConversationId := by
    unfold Connection.extendTrigger
    split <;> rfl
  unfold Connection.receiveAudio
  dsimp only
  rw [queueWebhook, queueTrigger, receivePrivate, extendAudio, extendTrigger]

theorem finishReceiving_current (c : Connection) :
    (c.finishReceiving cfg clock).currentConversationId = c.currentConversationId := by
  unfold Connection.finishReceiving
  dsimp only
  split
  · split <;> rfl
  · rfl

/-- What the pusher takes for the current conversation is what the frames last announced. -/
theorem read_current (frames : List Frame) : (read cfg clock frames).currentConversationId = announced frames := by
  induction frames using List.reverseRecOn with
  | nil => rfl
  | append_singleton frames frame ih =>
      have last : read cfg clock (frames ++ [frame]) = (read cfg clock frames).receive cfg clock frame.encode := by
        rw [read, List.foldl_append]
        rfl
      have payload (other : Frame) :
          (if cfg.payloadAccepted other then read cfg clock frames
            else (read cfg clock frames).finishReceiving cfg clock).currentConversationId = announced frames := by
        split
        · exact ih
        · rw [finishReceiving_current]
          exact ih
      rw [last, receive_encode, announced_append]
      cases frame with
      | heartbeat => exact ih
      | conversation id => rfl
      | audio timestamp data =>
          dsimp only
          rw [receiveAudio_current]
          exact ih
      | transcript bytes => exact payload _
      | processConversation bytes => exact payload _
      | speakerSample bytes => exact payload _

end Connection

/-- In a run of steady actions every audio frame follows, on its own websocket, the announcement of the conversation
that was current when its flush began, and this is the conversation that a pusher takes it for. -/
theorem audio_under_its_conversation (maxAudioBufferSize : Nat) (s : Session)
    (reached : ReachedSteady maxAudioBufferSize s) :
    ∀ earlier entry later, s.sent = earlier ++ entry :: later → ∀ timestamp data, entry.frame = .audio timestamp data →
      (∃ id, entry.began = some id ∧ announced (onSocket entry.socket earlier) = some id) ∧
        ∀ cfg clock, (Connection.read cfg clock (onSocket entry.socket earlier)).conversation = entry.began := by
  intro earlier entry later split timestamp data audio
  obtain ⟨id, began, nonempty, told⟩ := (ReachedSteady.inv reached).sent earlier entry later split timestamp data audio
  refine ⟨⟨id, began, told⟩, fun cfg clock => ?_⟩
  rw [Connection.conversation, Connection.read_current, told, began, Option.filter_some, if_pos (by simpa using nonempty)]

theorem audio_under_its_conversation_first :
    ∃ s, ReachedSteady 1000 s ∧ s.sent = [⟨0, .conversation "c", some "c"⟩, ⟨0, .audio 1 [1], some "c"⟩] ∧
      announced (onSocket 0 [⟨0, .conversation "c", some "c"⟩]) = some "c" := by
  have next {s t : Session} (reached : ReachedSteady 1000 s) (a : Action) (steady : a.Steady s)
      (acted : act 1000 s a = some t) : ReachedSteady 1000 t := reached.next ⟨steady, acted⟩
  have connected := next (next (next (.start rfl) (.beginConnect false) trivial rfl) (.socketOpened .socket) trivial rfl)
    .replayed trivial rfl
  have heard := next (next connected (.setConversation (some "c")) trivial rfl) (.audioBytesSend [1]) trivial rfl
  have announcing := next heard (.flush 1) (fun _ => ⟨"c", rfl, by decide, fun synced => by cases synced⟩) rfl
  have sending := next announcing (.flushAnnounced .sent 1) (fun _ _ _ same => by cases same; rfl) rfl
  have flushed := next sending (.flushSent .sent) trivial rfl
  obtain ⟨⟨id, began, told⟩, _⟩ := audio_under_its_conversation 1000 _ flushed [⟨0, .conversation "c", some "c"⟩] _ [] rfl 1 [1] rfl
  cases began
  exact ⟨_, flushed, rfl, told⟩

/-! ## A reconnect without a change of conversation -/

def sampleActions : List Action :=
  [.beginConnect false, .socketOpened .socket, .replayed, .setConversation (some "c"), .audioBytesSend [1], .flush 1,
    .flushAnnounced .sent 1, .flushSent .sent, .connectionClosed, .turn true false, .waited false, .beginConnect true,
    .socketClosed false, .socketOpened .socket, .replayed, .audioBytesSend [2], .flush 2, .flushSent .sent]

/-- The conversation was announced on the first websocket only. -/
theorem unannounced_after_reconnect :
    (sampleActions.foldlM (act 1000) Session.start).map Session.sent =
        some [⟨0, .conversation "c", some "c"⟩, ⟨0, .audio 1 [1], some "c"⟩, ⟨1, .audio 2 [2], some "c"⟩] ∧
      announced (onSocket 1 [⟨0, .conversation "c", some "c"⟩, ⟨0, .audio 1 [1], some "c"⟩]) = none := by
  decide +kernel

end OmiLocal.Pusher
