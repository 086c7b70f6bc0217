import OmiLocal.Pusher.RequestSafety

/-!
# The re-sends of a reconnect

While `_connect` re-sends, nothing else moves its websocket. Its two loops end with a turn for
every listed request, unless one had disappeared by then, and no speaker sample is lost on the way
but those that the full buffer pushes out and those a cancelled reconnect still held.
-/
namespace OmiLocal.Pusher
open Lib Lib.Framing Lib.Drains Lib.Transition Lib.Values

/-! ## The session's connection -/

namespace Session
variable (s : Session)

def connection : Connect × Option Nat := (s.connect, s.pusherWs)

def replaying : Bool := s.connect matches .replaying _

variable {s} in
theorem replaying_of_connection {t : Session} (same : t.connection = s.connection) :
    t.replaying = s.replaying ∧ t.pusherWs = s.pusherWs := by
  simp only [connection, Prod.mk.injEq] at same
  exact ⟨by rw [replaying, same.1, replaying], same.2⟩

@[simp] theorem connection_markDisconnected : s.markDisconnected.connection = s.connection := by
  unfold markDisconnected
  split <;> rfl

@[simp] theorem connection_loopConnected (breakerOpen : Bool) :
    (s.loopConnected breakerOpen).connection = s.connection := by
  unfold loopConnected
  split
  · split_ifs <;> rfl
  · rfl

@[simp] theorem connection_turn (active cooled : Bool) : (s.turn active cooled).connection = s.connection := by
  unfold turn
  split
  · rfl
  split
  · split <;> rfl
  · split <;> rfl
  · rfl
  · rfl

@[simp] theorem connection_waited (shutdown : Bool) : (s.waited shutdown).connection = s.connection := by
  unfold waited
  split <;> rfl

@[simp] theorem connection_sendAudio (timestamp : UInt64) (began : Option String) :
    (s.sendAudio timestamp began).connection = s.connection := by
  unfold sendAudio
  split
  · split <;> rfl
  · rfl

@[simp] theorem connection_audioBytesFlush (timestamp : UInt64) :
    (s.audioBytesFlush timestamp).connection = s.connection := by
  unfold audioBytesFlush
  split
  · split
    · rfl
    · exact connection_sendAudio ..
  · exact connection_sendAudio ..

@[simp] theorem connection_flushAnnounced (result : SendResult) (timestamp : UInt64) :
    (s.flushAnnounced result timestamp).connection = s.connection := by
  have written (entry : Sent) (written : Bool) :
      (if written then { s.write entry with outdated := true } else s).connection = s.connection := by
    split <;> rfl
  unfold flushAnnounced
  split
  · cases result with
    | sent => exact connection_sendAudio ..
    | connectionClosed wrote =>
        exact ((connection_sendAudio ..).trans (connection_markDisconnected _)).trans (written _ wrote)
    | failed wrote => exact (connection_sendAudio ..).trans (written _ wrote)
    | cancelled wrote => exact written _ wrote
  · rfl

@[simp] theorem connection_flushSent (maxAudioBufferSize : Nat) (result : SendResult) :
    (s.flushSent maxAudioBufferSize result).connection = s.connection := by
  have written (entry : Sent) (written : Bool) : (if written then s.write entry else s).connection = s.connection := by
    split <;> rfl
  unfold flushSent
  split
  · cases result with
    | sent => rfl
    | connectionClosed wrote => exact (connection_markDisconnected _).trans (written _ wrote)
    | failed wrote => exact written _ wrote
    | cancelled wrote => exact written _ wrote
  · rfl

theorem connect_connectEnded (byLoop breakerOpen : Bool) : (s.connectEnded byLoop breakerOpen).connect = .idle := by
  unfold connectEnded
  split
  · exact congrArg Prod.fst (connection_loopConnected _ _)
  · rfl

theorem replaying_replayed (replaying : s.replaying = true) : s.replayed.replaying = false := by
  unfold Session.replaying at replaying
  split at replaying
  · rename_i byLoop connect
    rw [replayed, connect]
    dsimp only
    rw [Session.replaying, connect_connectEnded]
  · cases replaying

end Session

/-- While the re-sends go on, the other steps of the session leave its websocket, and none of them begins re-sends. -/
theorem Action.replaying_apply {a : Action} (maxAudioBufferSize : Nat) {s : Session}
    (own : ListenRequests.ownStep a = true) (enabled : a.enabled s = true)
    (uncancelled : ¬(a = .cancelReconnect ∧ s.connect = .replaying true)) :
    (a.apply maxAudioBufferSize s).connection = s.connection ∨
      (s.replaying = false ∧ (a.apply maxAudioBufferSize s).replaying = false) := by
  cases a with
  | setConversation id => exact Or.inl rfl
  | audioBytesSend audioBytes => exact Or.inl rfl
  | flush timestamp => exact Or.inl (s.connection_audioBytesFlush timestamp)
  | flushAnnounced result timestamp => exact Or.inl (s.connection_flushAnnounced result timestamp)
  | flushSent result => exact Or.inl (s.connection_flushSent maxAudioBufferSize result)
  | frameSent socket frame => exact Or.inl rfl
  | connectionClosed => exact Or.inl s.connection_markDisconnected
  | turn active cooled => exact Or.inl (s.connection_turn active cooled)
  | waited shutdown => exact Or.inl (s.connection_waited shutdown)
  | beginConnect byLoop =>
      have idle : s.connect = .idle := of_decide_eq_true (Bool.and_eq_true_iff.mp enabled).1
      refine Or.inr ⟨by rw [Session.replaying, idle], ?_⟩
      change (s.beginConnect byLoop).replaying = false
      unfold Session.beginConnect
      split
      · rw [Session.replaying, Session.connect_connectEnded]
      · split <;> rfl
  | socketClosed raised =>
      change (s.socketClosed raised).connection = _ ∨ _ ∧ (s.socketClosed raised).replaying = false
      unfold Session.socketClosed
      split
      · rename_i byLoop closing
        exact Or.inr ⟨by rw [Session.replaying, closing], rfl⟩
      · exact Or.inl rfl
  | socketOpened result =>
      change (s.socketOpened result).connection = _ ∨ _ ∧ (s.socketOpened result).replaying = false
      unfold Session.socketOpened
      split
      · rename_i byLoop opening
        refine Or.inr ⟨by rw [Session.replaying, opening], ?_⟩
        cases result with
        | socket => cases own
        | none => exact by rw [Session.replaying, Session.connect_connectEnded]
        | circuitBreakerOpen => exact by rw [Session.replaying, Session.connect_connectEnded]
        | failed => exact by rw [Session.replaying, Session.connect_connectEnded]
      · exact Or.inl rfl
  | replayed => cases own
  | cancelReconnect =>
      change s.cancelReconnect.connection = _ ∨ _ ∧ s.cancelReconnect.replaying = false
      unfold Session.cancelReconnect
      split
      · rename_i listed
        simp only [List.mem_cons, List.not_mem_nil, or_false] at listed
        rcases listed with closing | opening | replaying
        · exact Or.inr ⟨by rw [Session.replaying, closing], rfl⟩
        · exact Or.inr ⟨by rw [Session.replaying, opening], rfl⟩
        · exact absurd ⟨rfl, replaying⟩ uncancelled
      · exact Or.inl rfl
  | startDegraded => exact Or.inl rfl

namespace ListenRequests
variable {cfg : RequestConfig} {loads : Bytes → Option Value} {s t : ListenRequests}

/-! ## The loops -/

/-- Every sample that a caller left to the buffer, with those of the loop. -/
structure Accounted (cfg : RequestConfig) (s : ListenRequests) (held : List SpeakerSampleRequest) : Prop where
  within : s.pendingSpeakerSampleRequests.length ≤ cfg.maxPendingSpeakerSampleRequests
  everything : s.buffered.Perm (s.resent ++ s.pushedOut ++ s.abandoned ++ s.pendingSpeakerSampleRequests ++ held)

/-- How far the turns are. -/
def Turns (s : ListenRequests) : Prop :=
  match s.replay with
  | .requests socket message rest =>
      socket = s.resend.socket ∧ s.resend.ended = none ∧
        s.resend.listed = s.resend.turns.map Prod.fst ++ message.conversationId :: rest
  | .samples _ _ _ => s.resend.ended = none ∧ s.resend.listed = s.resend.turns.map Prod.fst
  | .idle => s.resend.ended = some .returned → s.resend.listed = s.resend.turns.map Prod.fst

/-- A request whose turn succeeded was sent on the websocket of the connection. -/
def SentTurns (s : ListenRequests) : Prop :=
  ∀ cid, (cid, Turn.sent) ∈ s.resend.turns → ∃ message, (s.resend.socket, message) ∈ s.sent ∧ message.conversationId = cid

/-- The loop over the requests, with these still to come. -/
structure Resending (s : ListenRequests) (rest : List String) : Prop where
  ended : s.resend.ended = none
  listed : s.resend.listed = s.resend.turns.map Prod.fst ++ rest
  sent : s.SentTurns
  replaying : s.session.replaying = true
  websocket : s.session.pusherWs = some s.resend.socket

structure ReplayInv (s : ListenRequests) : Prop where
  turns : s.Turns
  sent : s.SentTurns
  replaying : s.replay ≠ .idle → s.session.replaying = true
  websocket : s.session.replaying = true → s.session.pusherWs = some s.resend.socket

theorem accounted_bufferSample {held : List SpeakerSampleRequest} {request : SpeakerSampleRequest}
    (h : s.Accounted cfg (request :: held)) : (s.bufferSample cfg request).Accounted cfg held := by
  have queue := dequeAppend_eq h.within request
  constructor
  · exact (congrArg List.length queue).trans_le (ListenBuffers.length_newest_units _ _)
  · refine h.everything.trans ?_
    have parts : s.pendingSpeakerSampleRequests ++ [request] =
        (s.pendingSpeakerSampleRequests ++ [request]).take
            (s.pendingSpeakerSampleRequests.length + 1 - cfg.maxPendingSpeakerSampleRequests) ++
          dequeAppend cfg.maxPendingSpeakerSampleRequests s.pendingSpeakerSampleRequests request := by
      rw [queue, newest_unit, List.length_append, List.length_singleton, List.take_append_drop]
    rw [← List.singleton_append, List.append_assoc _ s.pendingSpeakerSampleRequests, ← List.append_assoc _ [request],
      parts, ← Multiset.coe_eq_coe]
    simp only [bufferSample, ← Multiset.coe_add]
    abel

theorem turns_endReplay {ended : ReplayEnd} (done : ended = .returned → s.resend.listed = s.resend.turns.map Prod.fst) :
    (s.endReplay ended).Turns := fun same => done (Option.some_inj.mp same)

theorem inv_endReplay {ended : ReplayEnd} (sent : s.SentTurns) (replaying : s.session.replaying = true)
    (done : ended = .returned → s.resend.listed = s.resend.turns.map Prod.fst) : (s.endReplay ended).ReplayInv where
  turns := turns_endReplay done
  sent := sent
  replaying busy := absurd rfl busy
  websocket again := by
    have replayed := s.session.replaying_replayed replaying
    exact absurd (again.symm.trans replayed) (by decide)

variable (cfg) in
/-- The samples' loop: every turn was taken before it. -/
theorem inv_resendSamples (h : s.Resending []) (requests : List SpeakerSampleRequest) :
    (s.resendSamples cfg requests).ReplayInv := by
  have all : s.resend.listed = s.resend.turns.map Prod.fst := h.listed.trans (List.append_nil _)
  induction requests generalizing s with
  | nil => exact inv_endReplay h.sent h.replaying fun _ => all
  | cons request rest ih =>
      unfold resendSamples
      split
      · exact ⟨⟨h.ended, all⟩, h.sent, fun _ => h.replaying, fun _ => h.websocket⟩
      · exact ih ⟨h.ended, h.listed, h.sent, h.replaying, h.websocket⟩ all

theorem accounted_resendSamples (requests : List SpeakerSampleRequest) (h : s.Accounted cfg requests) :
    (s.resendSamples cfg requests).Accounted cfg (s.resendSamples cfg requests).replay.held := by
  induction requests generalizing s with
  | nil => exact ⟨h.within, h.everything⟩
  | cons request rest ih =>
      unfold resendSamples
      split
      · exact ⟨h.within, h.everything⟩
      · exact ih (accounted_bufferSample h)

theorem accounted_takeSamples (h : s.Accounted cfg []) : (s.takeSamples cfg).Accounted cfg (s.takeSamples cfg).replay.held := by
  refine accounted_resendSamples _ ⟨Nat.zero_le _, ?_⟩
  simpa only [List.append_nil] using h.everything

variable (cfg) in
/-- The requests' loop. -/
theorem inv_resendRequests (now : ℚ) (rest : List String) (h : s.Resending rest) :
    (s.resendRequests cfg now rest).ReplayInv := by
  induction rest generalizing s with
  | nil =>
      have taken : Resending { s with pendingSpeakerSampleRequests := [] } [] :=
        ⟨h.ended, h.listed, h.sent, h.replaying, h.websocket⟩
      exact inv_resendSamples cfg taken _
  | cons cid rest ih =>
      unfold resendRequests
      split
      · exact inv_endReplay h.sent h.replaying fun same => by cases same
      · rename_i p known
        dsimp only
        split
        · rename_i requested socket message call
          have spec := requestConversationProcessing_spec cfg (s.setPending cid { p with sentAt := now }) cid
            p.finalizationJobId p.dispatchGeneration now
          rw [call] at spec
          obtain ⟨⟨requests, rfl⟩, send⟩ := spec
          obtain ⟨open_, named⟩ := send socket message rfl
          refine ⟨⟨?_, h.ended, ?_⟩, h.sent, fun _ => h.replaying, fun _ => h.websocket⟩
          · unfold ListenRequests.socket at open_
            split at open_
            · exact Option.some_inj.mp (open_.symm.trans h.websocket)
            · cases open_
          · rw [named]
            exact h.listed
        · rename_i requested call
          have spec := requestConversationProcessing_spec cfg (s.setPending cid { p with sentAt := now }) cid
            p.finalizationJobId p.dispatchGeneration now
          rw [call] at spec
          obtain ⟨⟨requests, rfl⟩, -⟩ := spec
          refine ih ⟨h.ended, ?_, fun other sent => ?_, h.replaying, h.websocket⟩
          · exact h.listed.trans (by simp only [turn, setPending, List.map_append, List.map_singleton, List.append_assoc, List.singleton_append])
          · rcases List.mem_append.mp sent with before | now
            · exact h.sent other before
            · cases List.mem_singleton.mp now

theorem accounted_resendRequests (now : ℚ) (rest : List String) (h : s.Accounted cfg []) :
    (s.resendRequests cfg now rest).Accounted cfg (s.resendRequests cfg now rest).replay.held := by
  induction rest generalizing s with
  | nil => exact accounted_takeSamples h
  | cons cid rest ih =>
      unfold resendRequests
      split
      · exact ⟨h.within, h.everything⟩
      · rename_i p known
        dsimp only
        have spec := requestConversationProcessing_spec cfg (s.setPending cid { p with sentAt := now }) cid
          p.finalizationJobId p.dispatchGeneration now
        split
        · rename_i requested socket message call
          rw [call] at spec
          obtain ⟨⟨requests, rfl⟩, -⟩ := spec
          exact ⟨h.within, h.everything⟩
        · rename_i requested call
          rw [call] at spec
          obtain ⟨⟨requests, rfl⟩, -⟩ := spec
          exact ih ⟨h.within, h.everything⟩

/-! ## One step -/

structure Inv (cfg : RequestConfig) (s : ListenRequests) : Prop where
  replay : s.ReplayInv
  accounted : s.Accounted cfg s.replay.held
  distinct : s.Distinct

theorem ReplayInv.congr (h : s.ReplayInv) (connection : t.session.connection = s.session.connection)
    (replay : t.replay = s.replay) (resend : t.resend = s.resend) (sent : ∀ entry ∈ s.sent, entry ∈ t.sent) :
    t.ReplayInv := by
  obtain ⟨same, websocket⟩ := Session.replaying_of_connection connection
  refine ⟨?_, fun cid turn => ?_, fun busy => ?_, fun replaying => ?_⟩
  · unfold Turns
    rw [replay, resend]
    exact h.turns
  · rw [resend] at turn ⊢
    obtain ⟨message, known, named⟩ := h.sent cid turn
    exact ⟨message, sent _ known, named⟩
  · rw [same]
    exact h.replaying (replay ▸ busy)
  · rw [websocket, resend]
    exact h.websocket (same ▸ replaying)

variable (cfg) in
theorem retryRequests_spec (s : ListenRequests) (now clock : ℚ) (active : Bool) (rest : List String) :
    ∃ requests receiver, s.retryRequests cfg now clock active rest =
      { s with pendingConversationRequests := requests, receiver := receiver } := by
  induction rest generalizing s with
  | nil =>
      change ∃ requests receiver, s.loopHead active = _
      unfold loopHead
      split
      · exact ⟨_, _, rfl⟩
      · split
        · exact ⟨_, _, rfl⟩
        · exact ⟨_, _, rfl⟩
  | cons cid rest ih =>
      unfold retryRequests
      split
      · exact ih s
      · rename_i info known
        split
        · exact ih _
        · dsimp only
          have spec := requestConversationProcessing_spec cfg
            (s.setPending cid { info with retries := info.retries + 1 }) cid info.finalizationJobId
            info.dispatchGeneration clock
          split
          · rename_i requested socket message call
            rw [call] at spec
            obtain ⟨⟨requests, rfl⟩, -⟩ := spec
            exact ⟨_, _, rfl⟩
          · rename_i requested call
            rw [call] at spec
            obtain ⟨⟨requests, rfl⟩, -⟩ := spec
            exact ih _

theorem handleResult_spec (s : ListenRequests) (result : Value) (now : ℚ) (raises : Bool) :
    ∃ requests, (s.handleResult result now raises).1 = { s with pendingConversationRequests := requests } := by
  have expired (cid : String) : ∃ requests, s.expire cid now = { s with pendingConversationRequests := requests } := by
    unfold expire
    split <;> exact ⟨_, rfl⟩
  have named (result : Entries) (cid : String) :
      ∃ requests, s.handleNamed result cid now = { s with pendingConversationRequests := requests } := by
    unfold handleNamed handleError
    split
    · split
      · split
        · split <;> exact ⟨_, rfl⟩
        · exact ⟨_, rfl⟩
      · split
        · exact ⟨_, rfl⟩
        · split
          · exact ⟨_, rfl⟩
          · exact expired cid
    · split
      · exact ⟨_, rfl⟩
      · split
        · exact ⟨_, rfl⟩
        · exact expired cid
  unfold handleResult
  split
  · split
    · exact named _ _
    · exact ⟨_, rfl⟩
  · exact ⟨_, rfl⟩

variable (cfg loads) in
/-- A frame changes the pending requests, where the loop awaits and whether the session is connected. -/
theorem received_spec (s : ListenRequests) (msg : Received) (now clock : ℚ) (active raises : Bool) :
    ∃ requests receiver session, s.received cfg loads msg now clock active raises =
      { s with pendingConversationRequests := requests, receiver := receiver, session := session } ∧
        session.connection = s.session.connection := by
  have timedOut (t : ListenRequests) : ∃ requests receiver, t.retryTimedOut cfg now clock active =
      { t with pendingConversationRequests := requests, receiver := receiver } := retryRequests_spec cfg t now clock active _
  cases msg with
  | frame data =>
      unfold received
      dsimp only
      split
      · obtain ⟨requests, receiver, same⟩ := retryRequests_spec cfg s now clock active []
        exact ⟨requests, receiver, s.session, same, rfl⟩
      split
      · split
        · rename_i result read
          obtain ⟨handled, same⟩ := s.handleResult_spec result now raises
          split
          · exact ⟨handled, .recovering, s.session, by rw [same], rfl⟩
          · rw [same]
            obtain ⟨requests, receiver, same⟩ := timedOut { s with pendingConversationRequests := handled }
            exact ⟨requests, receiver, s.session, same, rfl⟩
        · exact ⟨_, .recovering, s.session, rfl, rfl⟩
      · obtain ⟨requests, receiver, same⟩ := timedOut s
        exact ⟨requests, receiver, s.session, same, rfl⟩
  | timeout =>
      obtain ⟨requests, receiver, same⟩ := timedOut s
      exact ⟨requests, receiver, s.session, same, rfl⟩
  | connectionClosed =>
      obtain ⟨requests, receiver, same⟩ := timedOut { s with session := s.session.markDisconnected }
      exact ⟨requests, receiver, s.session.markDisconnected, same, s.session.connection_markDisconnected⟩
  | cancelled => exact ⟨_, .stopped, s.session, rfl, rfl⟩
  | failed => exact ⟨_, .recovering, s.session, rfl, rfl⟩

theorem mem_sendEnded (s : ListenRequests) (socket : Nat) (message : ProcessConversation) (result : SendResult) :
    ∃ sent, s.sendEnded socket message result = { s with sent := sent } ∧ (∀ entry ∈ s.sent, entry ∈ sent) ∧
      (result = .sent → (socket, message) ∈ sent) := by
  unfold sendEnded
  split
  · exact ⟨_, rfl, fun _ known => List.mem_append_left _ known, fun _ => List.mem_append_right _ List.mem_cons_self⟩
  · rename_i failed
    exact ⟨s.sent, rfl, fun _ known => known, fun returned => absurd returned failed⟩

theorem held_idle (idle : s.session.replaying = false) (h : s.ReplayInv) : s.replay = .idle := by
  by_contra busy
  exact absurd ((h.replaying busy).symm.trans idle) (by decide)

theorem abandonReplay_inv (h : s.Inv cfg) {session : Session} (stopped : session.replaying = false) :
    (s.abandonReplay session).ReplayInv ∧ (s.abandonReplay session).Accounted cfg [] := by
  refine ⟨⟨fun cancelled => ?_, h.replay.sent, fun busy => absurd rfl busy, fun again => ?_⟩, h.accounted.within, ?_⟩
  · cases cancelled
  · exact absurd (again.symm.trans stopped) (by decide)
  · refine h.accounted.everything.trans ?_
    rw [← Multiset.coe_eq_coe]
    simp only [abandonReplay, ← Multiset.coe_add, List.append_nil]
    abel

theorem inv_sessionStep (h : s.Inv cfg) {a : Action} (own : ownStep a = true) (enabled : a.enabled s.session = true) :
    (s.sessionStep cfg a).ReplayInv ∧ (s.sessionStep cfg a).Accounted cfg (s.sessionStep cfg a).replay.held := by
  unfold sessionStep
  dsimp only
  split
  · rename_i cancelled
    obtain ⟨rfl, connect⟩ := cancelled
    refine abandonReplay_inv h ?_
    change s.session.cancelReconnect.replaying = false
    rw [Session.cancelReconnect, connect]
    rfl
  · rename_i uncancelled
    refine ⟨?_, h.accounted.within, h.accounted.everything⟩
    rcases Action.replaying_apply cfg.maxAudioBufferSize own enabled uncancelled with same | ⟨before, after⟩
    · exact h.replay.congr same rfl rfl fun _ known => known
    · exact ⟨h.replay.turns, h.replay.sent, fun busy => absurd ((h.replay.replaying busy).symm.trans before) (by decide),
        fun again => absurd (again.symm.trans after) (by decide)⟩

theorem inv_connected (h : s.Inv cfg) (opening : (s.session.connect matches .opening _) = true) (now : ℚ) :
    (s.connected cfg now).ReplayInv ∧ (s.connected cfg now).Accounted cfg (s.connected cfg now).replay.held := by
  split at opening
  · rename_i byLoop connect
    have idle := held_idle (by rw [Session.replaying, connect]) h.replay
    have opened : s.session.socketOpened .socket =
        { s.session with
          pusherWs := some s.session.opened
          opened := s.session.opened + 1
          pusherConnected := true
          reconnectState := .connected
          reconnectAttempts := 0
          outdated := true
          connect := .replaying byLoop } := by
      rw [Session.socketOpened, connect]
    have accounted := h.accounted
    rw [idle] at accounted
    refine ⟨inv_resendRequests cfg now _ ⟨rfl, rfl, fun cid none => (by cases none), ?_, ?_⟩,
      accounted_resendRequests now _ ⟨accounted.within, accounted.everything⟩⟩
    · rw [opened]
      rfl
    · rw [opened]
  · cases opening

/-- A turn of the requests' loop ends with its send. -/
theorem resending_turn (h : s.Inv cfg) {socket : Nat} {message : ProcessConversation} {rest : List String}
    (sending : s.replay = .requests socket message rest) (result : SendResult) :
    ((s.sendEnded socket message result).turn message.conversationId
      (if result = .sent then .sent else .failed)).Resending rest := by
  have turns := h.replay.turns
  unfold Turns at turns
  rw [sending] at turns
  obtain ⟨websocket, ended, listed⟩ := turns
  have replaying := h.replay.replaying (by rw [sending]; exact Replay.noConfusion)
  obtain ⟨sent, same, kept, done⟩ := mem_sendEnded s socket message result
  rw [same]
  refine ⟨ended, ?_, fun cid turn => ?_, replaying, h.replay.websocket replaying⟩
  · refine listed.trans ?_
    simp only [ListenRequests.turn, List.map_append, List.map_singleton, List.append_assoc, List.singleton_append]
  · rcases List.mem_append.mp turn with before | now
    · obtain ⟨message, known, named⟩ := h.replay.sent cid before
      exact ⟨message, kept _ known, named⟩
    · obtain ⟨rfl, turned⟩ := Prod.mk.inj (List.mem_singleton.mp now)
      split at turned
      · rename_i returned
        exact ⟨message, websocket ▸ done returned, rfl⟩
      · cases turned

theorem accounted_turn (h : s.Inv cfg) {socket : Nat} {message : ProcessConversation} {rest : List String}
    (sending : s.replay = .requests socket message rest) (result : SendResult) (turn : Turn) :
    ((s.sendEnded socket message result).turn message.conversationId turn).Accounted cfg [] := by
  have accounted := h.accounted
  rw [sending] at accounted
  obtain ⟨sent, same, -, -⟩ := mem_sendEnded s socket message result
  rw [same]
  exact ⟨accounted.within, accounted.everything⟩

theorem inv_replaySent (h : s.Inv cfg) (result : SendResult) (now : ℚ) :
    (s.replaySent cfg result now).ReplayInv ∧
      (s.replaySent cfg result now).Accounted cfg (s.replaySent cfg result now).replay.held := by
  have requests {socket : Nat} {message : ProcessConversation} {rest : List String}
      (sending : s.replay = .requests socket message rest) (result : SendResult) :=
    And.intro (inv_resendRequests cfg now rest (resending_turn h sending result))
      (accounted_resendRequests now rest (accounted_turn h sending result (if result = .sent then .sent else .failed)))
  have samples {socket : Nat} {request : SpeakerSampleRequest} {rest : List SpeakerSampleRequest}
      (sending : s.replay = .samples socket request rest) : s.Resending [] ∧ s.Accounted cfg (request :: rest) := by
    have turns := h.replay.turns
    unfold Turns at turns
    rw [sending] at turns
    have replaying := h.replay.replaying (by rw [sending]; exact Replay.noConfusion)
    have accounted := h.accounted
    rw [sending] at accounted
    exact ⟨⟨turns.1, by rw [List.append_nil]; exact turns.2, h.replay.sent, replaying, h.replay.websocket replaying⟩,
      accounted⟩
  have again {t : ListenRequests} {rest : List SpeakerSampleRequest} (resending : t.Resending [])
      (accounted : t.Accounted cfg rest) :=
    And.intro (inv_resendSamples cfg resending rest) (accounted_resendSamples rest accounted)
  cases result with
  | cancelled wrote => exact abandonReplay_inv h rfl
  | sent =>
      cases sending : s.replay with
      | idle => simpa only [replaySent, sending] using And.intro h.replay h.accounted
      | requests socket message rest => simpa only [replaySent, sending] using requests sending .sent
      | samples socket request rest =>
          obtain ⟨resending, accounted⟩ := samples sending
          simp only [replaySent, sending]
          refine again ⟨resending.ended, resending.listed, resending.sent, resending.replaying, resending.websocket⟩
            ⟨accounted.within, accounted.everything.trans ?_⟩
          rw [← List.singleton_append, ← Multiset.coe_eq_coe]
          simp only [← Multiset.coe_add]
          abel
  | connectionClosed wrote =>
      cases sending : s.replay with
      | idle => simpa only [replaySent, sending] using And.intro h.replay h.accounted
      | requests socket message rest => simpa only [replaySent, sending] using requests sending (.connectionClosed wrote)
      | samples socket request rest =>
          obtain ⟨resending, accounted⟩ := samples sending
          simp only [replaySent, sending]
          have kept := accounted_bufferSample accounted
          obtain ⟨replaying, websocket⟩ := Session.replaying_of_connection s.session.connection_markDisconnected
          exact again ⟨resending.ended, resending.listed, resending.sent, replaying.trans resending.replaying,
            websocket.trans resending.websocket⟩ ⟨kept.within, kept.everything⟩
  | failed wrote =>
      cases sending : s.replay with
      | idle => simpa only [replaySent, sending] using And.intro h.replay h.accounted
      | requests socket message rest => simpa only [replaySent, sending] using requests sending (.failed wrote)
      | samples socket request rest =>
          obtain ⟨resending, accounted⟩ := samples sending
          simp only [replaySent, sending]
          exact again ⟨resending.ended, resending.listed, resending.sent, resending.replaying, resending.websocket⟩
            (accounted_bufferSample accounted)

theorem accounted_keepSample {held : List SpeakerSampleRequest} (h : s.Accounted cfg held)
    (request : SpeakerSampleRequest) : (s.keepSample cfg request).Accounted cfg held := by
  refine accounted_bufferSample (s := { s with buffered := s.buffered ++ [request] }) ⟨h.within, ?_⟩
  refine (h.everything.append_right [request]).trans ?_
  have front : request :: held = [request] ++ held := rfl
  rw [front, ← Multiset.coe_eq_coe]
  simp only [← Multiset.coe_add]
  abel

theorem inv_apply (h : s.Inv cfg) {a : RequestAction} (enabled : s.enabled a = true) : (s.apply cfg loads a).Inv cfg := by
  suffices inv : (s.apply cfg loads a).ReplayInv ∧
      (s.apply cfg loads a).Accounted cfg (s.apply cfg loads a).replay.held from
    ⟨inv.1, inv.2, distinct_apply h.distinct a⟩
  have still {requests : PendingRequests} {receiver : Receiver} {session : Session}
      (same : session.connection = s.session.connection) (t : ListenRequests)
      (eq : t = { s with pendingConversationRequests := requests, receiver := receiver, session := session }) :
      t.ReplayInv ∧ t.Accounted cfg t.replay.held := by
    rw [eq]
    exact ⟨h.replay.congr same rfl rfl fun _ known => known, h.accounted.within, h.accounted.everything⟩
  cases a with
  | session a =>
      obtain ⟨own, enabled⟩ := Bool.and_eq_true_iff.mp enabled
      exact inv_sessionStep h own enabled
  | connected now => exact inv_connected h enabled now
  | replaySent result now => exact inv_replaySent h result now
  | request cid job generation now =>
      obtain ⟨⟨requests, same⟩, -⟩ := requestConversationProcessing_spec cfg s cid job generation now
      change (s.request cfg cid job generation now).ReplayInv ∧
        (s.request cfg cid job generation now).Accounted cfg (s.request cfg cid job generation now).replay.held
      unfold request
      dsimp only
      rw [same]
      exact ⟨h.replay.congr rfl rfl rfl fun _ known => known, h.accounted.within, h.accounted.everything⟩
  | requestSent socket message result =>
      obtain ⟨sent, same, kept, -⟩ :=
        mem_sendEnded { s with requestSends := s.requestSends.erase (socket, message) } socket message result
      change (s.requestSent socket message result).ReplayInv ∧
        (s.requestSent socket message result).Accounted cfg (s.requestSent socket message result).replay.held
      unfold requestSent
      rw [same]
      exact ⟨h.replay.congr rfl rfl rfl kept, h.accounted.within, h.accounted.everything⟩
  | sample request =>
      change (s.sendSpeakerSampleRequest cfg request).ReplayInv ∧
        (s.sendSpeakerSampleRequest cfg request).Accounted cfg (s.sendSpeakerSampleRequest cfg request).replay.held
      unfold sendSpeakerSampleRequest
      split
      · exact ⟨h.replay.congr rfl rfl rfl fun _ known => known, h.accounted.within, h.accounted.everything⟩
      · exact ⟨h.replay.congr rfl rfl rfl fun _ known => known, accounted_keepSample h.accounted request⟩
  | sampleSent socket request result =>
      have ended : { s with sampleSends := s.sampleSends.erase (socket, request) }.Accounted cfg s.replay.held :=
        ⟨h.accounted.within, h.accounted.everything⟩
      have kept := accounted_keepSample ended request
      cases result with
      | sent => exact ⟨h.replay.congr rfl rfl rfl fun _ known => known, ended⟩
      | cancelled wrote => exact ⟨h.replay.congr rfl rfl rfl fun _ known => known, ended⟩
      | connectionClosed wrote =>
          exact ⟨h.replay.congr s.session.connection_markDisconnected rfl rfl fun _ known => known,
            kept.within, kept.everything⟩
      | failed wrote => exact ⟨h.replay.congr rfl rfl rfl fun _ known => known, kept⟩
  | received msg now clock active raises =>
      obtain ⟨requests, receiver, session, eq, same⟩ :=
        received_spec cfg loads s msg now clock active raises
      exact still same _ eq
  | woken set active =>
      change (s.woken set active).ReplayInv ∧ (s.woken set active).Accounted cfg (s.woken set active).replay.held
      unfold woken
      split
      · exact still rfl _ rfl
      · obtain ⟨requests, receiver, eq⟩ := retryRequests_spec cfg s 0 0 active []
        exact still rfl _ eq
  | slept active =>
      obtain ⟨requests, receiver, eq⟩ := retryRequests_spec cfg s 0 0 active []
      exact still rfl _ eq
  | recovered now clock active =>
      obtain ⟨requests, receiver, eq⟩ := retryRequests_spec cfg s now clock active _
      exact still rfl _ eq
  | retrySent result clock active =>
      change (s.retrySent cfg result clock active).ReplayInv ∧
        (s.retrySent cfg result clock active).Accounted cfg (s.retrySent cfg result clock active).replay.held
      unfold retrySent
      split
      · rename_i socket message rest now _
        split
        · exact still rfl _ rfl
        · obtain ⟨sent, same, kept, -⟩ := mem_sendEnded s socket message result
          rw [same]
          obtain ⟨requests, receiver, eq⟩ := retryRequests_spec cfg { s with sent := sent } now clock active rest
          rw [eq]
          exact ⟨h.replay.congr rfl rfl rfl kept, h.accounted.within, h.accounted.everything⟩
      · exact ⟨h.replay, h.accounted⟩
  | cancelReceiver => exact still rfl _ rfl

/-! ## Runs -/

theorem inv_start : start.Inv cfg where
  replay := ⟨fun returned => (by cases returned), fun _ none => (by cases none), fun busy => absurd rfl busy,
    fun replaying => (by cases replaying)⟩
  accounted := ⟨Nat.zero_le _, List.Perm.refl _⟩
  distinct := List.nodup_nil

/-- The states of the runs in which requests, results, timeouts and reconnects come in any order. -/
abbrev Reached (cfg : RequestConfig) (loads : Bytes → Option Value) : ListenRequests → Prop :=
  Reachable (fun s => s = start) (fun s a t => act cfg loads s a = some t)

theorem Reached.inv (reached : Reached cfg loads s) : s.Inv cfg := by
  refine reached.invariant (fun s initial => initial ▸ inv_start) (fun s a t h step => ?_)
  unfold act at step
  split at step
  · rename_i enabled
    cases step
    exact inv_apply h enabled
  · cases step

end ListenRequests

end OmiLocal.Pusher
