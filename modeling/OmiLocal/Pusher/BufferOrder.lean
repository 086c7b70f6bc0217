import OmiLocal.Pusher.Buffers
import OmiLocal.Lib.Transition

/-!
# The order of the session's buffers

Whatever happens to the sends, the code's queues are the numbered ones, so what was sent and what is
still buffered is in the order of its arrival. A failed flush can keep a chunk that is older than
one dropped while it was in flight; with segments, which all count one, that cannot happen.
-/
namespace OmiLocal.Pusher
open Lib.Framing Lib.Drains Lib.Transition

/-! ## The queues of the code -/

theorem trim_totalSize (limit : Nat) (chunks : List Bytes) :
    Session.trim limit chunks (totalSize List.length chunks) =
      (newest List.length limit chunks, totalSize List.length (newest List.length limit chunks)) := by
  induction chunks with
  | nil => rfl
  | cons old chunks ih =>
      by_cases fits : totalSize List.length (old :: chunks) ≤ limit
      · rw [newest_eq_self fits, Session.trim, if_neg (by omega)]
      · have dropped : newest List.length limit (old :: chunks) = newest List.length limit chunks := if_neg fits
        rw [Session.trim, if_pos (by omega), dropped, ← ih, totalSize_cons, Nat.add_sub_cancel_left]

theorem length_lastBytes {maxAudioBufferSize : Nat} (positive : 0 < maxAudioBufferSize) (chunk : Bytes) :
    (Session.lastBytes maxAudioBufferSize chunk).length ≤ maxAudioBufferSize := by
  unfold Session.lastBytes
  split
  · rw [List.length_drop]
    omega
  · omega

theorem dequeAppend_eq {α : Type} {maxlen : Nat} {queue : List α} (within : queue.length ≤ maxlen) (item : α) :
    dequeAppend maxlen queue item = newest (fun _ => 1) maxlen (queue ++ [item]) := by
  rw [newest_unit, List.length_append, List.length_singleton, dequeAppend]
  split
  · rename_i none
    rw [none, Nat.sub_zero, List.drop_eq_nil_of_le (by rw [List.length_append, List.length_singleton])]
  split
  · rw [Nat.sub_eq_zero_of_le (by omega), List.drop_zero]
  · rename_i some_ full
    rw [show queue.length + 1 - maxlen = 1 by omega, List.drop_one, List.tail_append_of_ne_nil]
    rintro rfl
    exact full (Nat.pos_of_ne_zero some_)

theorem dequeExtend_eq {α : Type} {maxlen : Nat} {queue : List α} (within : queue.length ≤ maxlen) (items : List α) :
    dequeExtend maxlen queue items = newest (fun _ => 1) maxlen (queue ++ items) := by
  induction items generalizing queue with
  | nil =>
      rw [List.append_nil, newest_eq_self]
      · rfl
      · rwa [List.map_const', List.sum_replicate_nat, mul_one]
  | cons item items ih =>
      have first := dequeAppend_eq within item
      have short : (dequeAppend maxlen queue item).length ≤ maxlen := by
        rw [first, newest_unit, List.length_drop]
        omega
      calc dequeExtend maxlen queue (item :: items)
          = dequeExtend maxlen (dequeAppend maxlen queue item) items := rfl
        _ = newest (fun _ => 1) maxlen (newest (fun _ => 1) maxlen (queue ++ [item]) ++ items) := by rw [ih short, first]
        _ = newest (fun _ => 1) maxlen (queue ++ item :: items) := by
            rw [newest_append, List.append_assoc, List.singleton_append]

theorem items_put {β : Type} (weight : β → Nat) (capacity : Nat) (b : Drain β) (item : β) :
    (b.put weight capacity item).queued.map Entry.item =
      newest weight capacity (b.queued.map Entry.item ++ [item]) := by
  rw [← List.map_singleton (f := Entry.item) (a := Entry.mk b.received.length item), ← List.map_append, newest_map]
  rfl

theorem items_fail {β : Type} (weight : β → Nat) (capacity : Nat) (b : Drain β) :
    (b.fail weight capacity).queued.map Entry.item =
      newest weight capacity (b.inFlight.map Entry.item ++ b.queued.map Entry.item) := by
  rw [← List.map_append, newest_map]
  rfl

/-! ## The session's functions -/

namespace Session

def audioState (s : Session) : List Bytes × Nat × Flush := (s.audioChunks, s.audioTotalSize, s.flush)

section Quiet
variable (s : Session)

@[simp] theorem audioState_markDisconnected : s.markDisconnected.audioState = s.audioState := by
  unfold markDisconnected
  split <;> rfl

@[simp] theorem audioState_write (entry : Sent) : (s.write entry).audioState = s.audioState := rfl

@[simp] theorem audioState_loopConnected (breakerOpen : Bool) :
    (s.loopConnected breakerOpen).audioState = s.audioState := by
  unfold loopConnected
  split
  · split_ifs <;> rfl
  · rfl

@[simp] theorem audioState_connectEnded (byLoop breakerOpen : Bool) :
    (s.connectEnded byLoop breakerOpen).audioState = s.audioState := by
  unfold connectEnded
  split
  · rw [audioState_loopConnected]
    rfl
  · rfl

@[simp] theorem audioState_turn (active cooled : Bool) : (s.turn active cooled).audioState = s.audioState := by
  unfold turn
  split
  · rfl
  split
  · split <;> rfl
  · split <;> rfl
  · rfl
  · rfl

@[simp] theorem audioState_waited (shutdown : Bool) : (s.waited shutdown).audioState = s.audioState := by
  unfold waited
  split <;> rfl

@[simp] theorem audioState_beginConnect (byLoop : Bool) : (s.beginConnect byLoop).audioState = s.audioState := by
  unfold beginConnect
  split
  · exact audioState_connectEnded _ _ _
  · split <;> rfl

@[simp] theorem audioState_socketClosed (raised : Bool) : (s.socketClosed raised).audioState = s.audioState := by
  unfold socketClosed
  split <;> rfl

@[simp] theorem audioState_socketOpened (result : OpenResult) : (s.socketOpened result).audioState = s.audioState := by
  unfold socketOpened
  split
  · split
    · rfl
    · exact audioState_connectEnded _ _ _
    · exact audioState_connectEnded _ _ _
    · exact audioState_connectEnded _ _ _
  · rfl

@[simp] theorem audioState_replayed : s.replayed.audioState = s.audioState := by
  unfold replayed
  split
  · exact audioState_connectEnded _ _ _
  · rfl

end Quiet

section Audio
variable {s : Session} {maxAudioBufferSize : Nat}

theorem audioState_audioBytesSend (total : s.audioTotalSize = totalSize List.length s.audioChunks)
    (positive : 0 < maxAudioBufferSize) (audioBytes : Bytes) :
    let chunks := newest List.length maxAudioBufferSize (s.audioChunks ++ [lastBytes maxAudioBufferSize audioBytes])
    (s.audioBytesSend maxAudioBufferSize audioBytes).audioState = (chunks, totalSize List.length chunks, s.flush) := by
  have short := length_lastBytes positive audioBytes
  rw [newest_concat s.audioChunks short]
  simp only [audioBytesSend, total, trim_totalSize, audioState, totalSize_append, totalSize_cons, totalSize_nil,
    Nat.add_zero]

theorem audioState_restore (total : s.audioTotalSize = totalSize List.length s.audioChunks) (pendingChunks : List Bytes) :
    let chunks := newest List.length maxAudioBufferSize (pendingChunks ++ s.audioChunks)
    (s.restore maxAudioBufferSize pendingChunks (totalSize List.length pendingChunks)).audioState =
      (chunks, totalSize List.length chunks, s.flush) := by
  simp only [restore, total, Nat.add_comm _ (totalSize List.length pendingChunks), ← totalSize_append, trim_totalSize,
    audioState]

/-- What a flush can do before its send: take the whole queue or leave it. -/
def Begun (s t : Session) : Prop :=
  (t.audioChunks = s.audioChunks ∧ t.audioTotalSize = s.audioTotalSize ∧ (t.flush matches .sending ..) = false) ∨
    (t.audioChunks = [] ∧ t.audioTotalSize = 0 ∧
      ∃ socket began timestamp, t.flush = .sending socket began timestamp s.audioChunks s.audioTotalSize)

theorem Begun.of_audioState {r t : Session} (h : Begun r t) (same : r.audioState = s.audioState) : Begun s t := by
  simp only [audioState, Prod.mk.injEq] at same
  rwa [Begun, same.1, same.2.1] at h

theorem begun_sendAudio (timestamp : UInt64) (began : Option String) : Begun s (s.sendAudio timestamp began) := by
  unfold sendAudio
  split
  · rename_i socket open_
    split
    · exact Or.inr ⟨rfl, rfl, socket, began, timestamp, rfl⟩
    · exact Or.inl ⟨rfl, rfl, rfl⟩
  · exact Or.inl ⟨rfl, rfl, rfl⟩

theorem begun_audioBytesFlush (timestamp : UInt64) : Begun s (s.audioBytesFlush timestamp) := by
  unfold audioBytesFlush
  split
  · split
    · exact Or.inl ⟨rfl, rfl, rfl⟩
    · exact begun_sendAudio _ _
  · exact begun_sendAudio _ _

theorem begun_flushAnnounced (announcing : (s.flush matches .announcing ..) = true) (result : SendResult)
    (timestamp : UInt64) : Begun s (s.flushAnnounced result timestamp) := by
  have written (entry : Sent) (written : Bool) :
      (if written then { s.write entry with outdated := true } else s).audioState = s.audioState := by
    split <;> rfl
  unfold flushAnnounced
  split
  · rename_i socket id _
    cases result with
    | sent => exact (begun_sendAudio _ _).of_audioState rfl
    | connectionClosed wrote =>
        exact (begun_sendAudio _ _).of_audioState ((audioState_markDisconnected _).trans (written _ wrote))
    | failed wrote => exact (begun_sendAudio _ _).of_audioState (written _ wrote)
    | cancelled wrote =>
        have same := written ⟨socket, .conversation id, some id⟩ wrote
        simp only [audioState, Prod.mk.injEq] at same
        exact Or.inl ⟨same.1, same.2.1, rfl⟩
  · rename_i other
    split at announcing
    · rename_i socket id flush
      exact absurd flush (other socket id)
    · cases announcing

end Audio
end Session

/-! ## One step -/

/-- A step that neither adds to the audio nor is part of its flush. -/
def Action.leavesAudio : Action → Bool
  | .audioBytesSend _ | .flush _ | .flushAnnounced _ _ | .flushSent _ => false
  | _ => true

theorem Action.audioState_apply {a : Action} (leaves : a.leavesAudio = true) (maxAudioBufferSize : Nat) (s : Session) :
    (a.apply maxAudioBufferSize s).audioState = s.audioState := by
  cases a with
  | setConversation id => rfl
  | audioBytesSend audioBytes => cases leaves
  | flush timestamp => cases leaves
  | flushAnnounced result timestamp => cases leaves
  | flushSent result => cases leaves
  | frameSent socket frame => rfl
  | connectionClosed => exact s.audioState_markDisconnected
  | turn active cooled => exact s.audioState_turn active cooled
  | waited shutdown => exact s.audioState_waited shutdown
  | beginConnect byLoop => exact s.audioState_beginConnect byLoop
  | socketClosed raised => exact s.audioState_socketClosed raised
  | socketOpened result => exact s.audioState_socketOpened result
  | replayed => exact s.audioState_replayed
  | cancelReconnect => rfl
  | startDegraded => rfl

namespace ListenBuffers
variable {Segment : Type}

/-- The chunks in flight are the ones that the flush holds. -/
def Flying : Flush → List (Entry Bytes) → Prop
  | .sending _ _ _ pendingChunks pendingTotalSize, inFlight =>
      inFlight.map Entry.item = pendingChunks ∧ pendingTotalSize = totalSize List.length pendingChunks
  | _, inFlight => inFlight = []

/-- The audio that was sent, is in flight and is buffered, in the numbered order of its arrival. -/
structure AudioInOrder (cfg : BufferConfig) (s : ListenBuffers Segment) : Prop where
  total : s.session.audioTotalSize = totalSize List.length s.session.audioChunks
  within : s.session.audioTotalSize ≤ cfg.maxAudioBufferSize
  received : s.audio.received = s.receivedAudio.map (Session.lastBytes cfg.maxAudioBufferSize)
  sent : s.audioFrames.flatten = (s.audio.sent.map Entry.item).flatten
  flying : Flying s.session.flush s.audio.inFlight
  queued : s.session.audioChunks = s.audio.queued.map Entry.item
  fifo : s.audio.Fifo

def FlyingSegments : TranscriptFlush Segment → List (Entry Segment) → Prop
  | .sending _ _ pendingSegments, inFlight => inFlight.map Entry.item = pendingSegments
  | .idle, inFlight => inFlight = []

structure TranscriptsInOrder (cfg : BufferConfig) (s : ListenBuffers Segment) : Prop where
  within : s.segmentBuffers.length ≤ cfg.maxSegmentBufferSize
  sent : s.transcriptFrames.flatten = s.transcripts.sent.map Entry.item
  flying : FlyingSegments s.transcriptFlush s.transcripts.inFlight
  queued : s.segmentBuffers = s.transcripts.queued.map Entry.item
  fifo : s.transcripts.Fifo
  latest : s.transcripts.Latest cfg.maxSegmentBufferSize

section Audio
variable {cfg : BufferConfig} {s : ListenBuffers Segment}

theorem AudioInOrder.congr (h : s.AudioInOrder cfg) {t : ListenBuffers Segment}
    (state : t.session.audioState = s.session.audioState) (received : t.receivedAudio = s.receivedAudio)
    (frames : t.audioFrames = s.audioFrames) (audio : t.audio = s.audio) : t.AudioInOrder cfg := by
  simp only [Session.audioState, Prod.mk.injEq] at state
  obtain ⟨chunks, size, flush⟩ := state
  exact ⟨by rw [size, chunks, h.total], by rw [size]; exact h.within, by rw [audio, received, h.received],
    by rw [frames, audio, h.sent], by rw [flush, audio]; exact h.flying, by rw [chunks, audio, h.queued],
    by rw [audio]; exact h.fifo⟩

theorem AudioInOrder.audioBytesSend (h : s.AudioInOrder cfg) (audioBytes : Bytes) :
    (s.sessionStep cfg (.audioBytesSend audioBytes)).AudioInOrder cfg := by
  have state := Session.audioState_audioBytesSend h.total cfg.positive audioBytes
  simp only [Session.audioState, Prod.mk.injEq] at state
  obtain ⟨chunks, size, flush⟩ := state
  have items := items_put List.length cfg.maxAudioBufferSize s.audio (Session.lastBytes cfg.maxAudioBufferSize audioBytes)
  exact
    { total := size.trans (congrArg _ chunks.symm)
      within := size.trans_le (newest_fits _ _ _)
      received := by
        rw [sessionStep, List.map_append, ← h.received]
        rfl
      sent := (congrArg List.flatten (List.append_nil _)).trans h.sent
      flying := by
        change Flying (s.session.audioBytesSend _ _).flush s.audio.inFlight
        rw [flush]
        exact h.flying
      queued := by
        refine chunks.trans (Eq.trans ?_ items.symm)
        rw [h.queued]
      fifo := h.fifo.put List.length cfg.maxAudioBufferSize _ }

/-- A flush up to its send, or up to the end of its announcement. -/
theorem AudioInOrder.begin (h : s.AudioInOrder cfg) (idle : s.audio.inFlight = []) {t : Session}
    (begun : Session.Begun s.session t) {u : ListenBuffers Segment} (session : u.session = t)
    (received : u.receivedAudio = s.receivedAudio) (frames : u.audioFrames = s.audioFrames)
    (audio : u.audio = if t.flush matches .sending .. then s.audio.take else s.audio) : u.AudioInOrder cfg := by
  rcases begun with ⟨chunks, size, waiting⟩ | ⟨chunks, size, socket, began, timestamp, flush⟩
  · rw [waiting, if_neg Bool.false_ne_true] at audio
    refine ⟨by rw [session, size, chunks, h.total], by rw [session, size]; exact h.within,
      by rw [audio, received, h.received], by rw [frames, audio, h.sent], ?_, by rw [session, chunks, audio, h.queued],
      by rw [audio]; exact h.fifo⟩
    rw [session, audio, idle]
    cases flush : t.flush with
    | idle => rfl
    | announcing socket id => rfl
    | sending socket began timestamp pendingChunks pendingTotalSize =>
        rw [flush] at waiting
        cases waiting
  · rw [flush, if_pos rfl] at audio
    refine ⟨by rw [session, size, chunks, totalSize_nil], by rw [session, size]; exact Nat.zero_le _,
      by rw [audio]; exact received ▸ h.received, by rw [frames, audio]; exact h.sent, ?_,
      by rw [session, chunks, audio]; rfl, by rw [audio]; exact h.fifo.take idle⟩
    rw [session, flush, audio]
    exact ⟨h.queued.symm, h.total⟩

/-- The chunks of a send that failed are back in front. -/
theorem AudioInOrder.fail (h : s.AudioInOrder cfg) {socket : Nat} {began : Option String} {timestamp : UInt64}
    {pendingChunks : List Bytes} {pendingTotalSize : Nat}
    (sending : s.session.flush = .sending socket began timestamp pendingChunks pendingTotalSize) {r t : Session}
    (audio : r.audioState = (s.session.audioChunks, s.session.audioTotalSize, .idle))
    (state : t.audioState = (r.restore cfg.maxAudioBufferSize pendingChunks pendingTotalSize).audioState)
    {u : ListenBuffers Segment} (session : u.session = t) (received : u.receivedAudio = s.receivedAudio)
    (frames : u.audioFrames = s.audioFrames)
    (moved : u.audio = s.audio.fail List.length cfg.maxAudioBufferSize) : u.AudioInOrder cfg := by
  have flying := h.flying
  rw [sending] at flying
  obtain ⟨items, rfl⟩ := flying
  simp only [Session.audioState, Prod.mk.injEq] at audio
  obtain ⟨chunks, size, idle⟩ := audio
  rw [Session.audioState_restore (by rw [size, chunks, h.total])] at state
  simp only [Session.audioState, Prod.mk.injEq, chunks, idle] at state
  obtain ⟨chunks, size, flush⟩ := state
  refine ⟨by rw [session, size, chunks], by rw [session, size]; exact newest_fits _ _ _,
    by rw [moved]; exact received ▸ h.received, by rw [frames, moved]; exact h.sent,
    by rw [session, flush, moved]; rfl, ?_, by rw [moved]; exact h.fifo.fail _ _⟩
  rw [session, chunks, moved, items_fail, items, h.queued]

theorem AudioInOrder.flushSent (h : s.AudioInOrder cfg) (sending : (s.session.flush matches .sending ..) = true)
    (result : SendResult) : (s.sessionStep cfg (.flushSent result)).AudioInOrder cfg := by
  split at sending
  · rename_i socket began timestamp pendingChunks pendingTotalSize flush
    have written (entry : Sent) (written : Bool) :
        ({ (if written then s.session.write entry else s.session) with flush := .idle } : Session).audioState =
          (s.session.audioChunks, s.session.audioTotalSize, .idle) := by
      split <;> rfl
    have ended (result : SendResult) := written ⟨socket, .audio timestamp pendingChunks.flatten, began⟩ result.written
    have none : s.audioFrames ++ [] = s.audioFrames := List.append_nil _
    cases result with
    | sent =>
        have flying := h.flying
        rw [flush] at flying
        have step : s.session.flushSent cfg.maxAudioBufferSize .sent =
            { s.session.write ⟨socket, .audio timestamp pendingChunks.flatten, began⟩ with flush := .idle } := by
          simp only [Session.flushSent, flush, SendResult.written, if_true]
        have frames : s.framed (.flushSent .sent) = [pendingChunks.flatten] := by simp only [framed, flush]
        refine ⟨?_, ?_, h.received, ?_, ?_, ?_, h.fifo.succeed⟩
        all_goals simp only [sessionStep, Action.apply, step, frames]
        · exact h.total
        · exact h.within
        · simp only [List.flatten_append, List.flatten_singleton, h.sent, moveAudio, Drain.succeed, List.map_append,
            flying.1]
        · rfl
        · exact h.queued
    | connectionClosed wrote =>
        refine h.fail flush (ended (.connectionClosed wrote)) (Session.audioState_markDisconnected _) ?_ rfl none rfl
        simp only [sessionStep, Action.apply, Session.flushSent, flush]
    | failed wrote =>
        refine h.fail flush (ended (.failed wrote)) rfl ?_ rfl none rfl
        simp only [sessionStep, Action.apply, Session.flushSent, flush]
    | cancelled wrote =>
        refine h.fail flush (ended (.cancelled wrote)) rfl ?_ rfl none rfl
        simp only [sessionStep, Action.apply, Session.flushSent, flush]
  · cases sending

theorem AudioInOrder.sessionStep (h : s.AudioInOrder cfg) {a : Action} (enabled : a.enabled s.session = true) :
    (s.sessionStep cfg a).AudioInOrder cfg := by
  have none : s.audioFrames ++ [] = s.audioFrames := List.append_nil _
  have flying := h.flying
  cases kind : a.leavesAudio with
  | true =>
      refine h.congr (a.audioState_apply kind cfg.maxAudioBufferSize s.session) ?_ ?_ ?_ <;> cases a <;>
        first | rfl | exact none | cases kind
  | false =>
      cases a with
      | audioBytesSend audioBytes => exact h.audioBytesSend audioBytes
      | flush timestamp =>
          rw [of_decide_eq_true enabled] at flying
          exact h.begin flying (Session.begun_audioBytesFlush timestamp) rfl rfl none rfl
      | flushAnnounced result timestamp =>
          have announcing := Session.begun_flushAnnounced enabled result timestamp
          change (s.session.flush matches .announcing ..) = true at enabled
          split at enabled
          · rename_i flush
            rw [flush] at flying
            exact h.begin flying announcing rfl rfl none rfl
          · cases enabled
      | flushSent result => exact h.flushSent enabled result
      | _ => cases kind

end Audio

/-! ## Transcripts -/

section Transcripts
variable {cfg : BufferConfig} {s : ListenBuffers Segment}

theorem sum_units {α : Type} (queue : List α) : (queue.map fun _ => 1).sum = queue.length := by
  rw [List.map_const', List.sum_replicate_nat, mul_one]

theorem length_newest_units {α : Type} (capacity : Nat) (queue : List α) :
    (newest (fun _ => 1) capacity queue).length ≤ capacity := by
  have fits := newest_fits (fun _ => 1) capacity queue
  rwa [sum_units] at fits

theorem TranscriptsInOrder.transcriptSend (h : s.TranscriptsInOrder cfg) (segments : List Segment) :
    (s.transcriptSend cfg segments).TranscriptsInOrder cfg := by
  induction segments generalizing s with
  | nil => exact h
  | cons segment segments ih =>
      refine ih (s := s.transcriptSend cfg [segment])
        ⟨?_, h.sent, h.flying, ?_, h.fifo.put (fun _ => 1) cfg.maxSegmentBufferSize segment, h.latest.put h.fifo segment⟩
      · exact (congrArg List.length (dequeAppend_eq h.within segment)).trans_le (length_newest_units _ _)
      · exact (dequeAppend_eq h.within segment).trans (by rw [h.queued]; exact (items_put _ _ _ _).symm)

theorem TranscriptsInOrder.begin (h : s.TranscriptsInOrder cfg) (idle : s.transcriptFlush = .idle)
    (dumps : List Segment → Option String → Bytes) : (s.beginTranscriptFlush dumps).TranscriptsInOrder cfg := by
  have flying := h.flying
  rw [idle] at flying
  unfold beginTranscriptFlush
  split
  · split
    · exact ⟨Nat.zero_le _, h.sent, h.queued.symm, rfl, h.fifo.take flying, h.latest.take⟩
    · exact h
  · exact h

theorem TranscriptsInOrder.restore (h : s.TranscriptsInOrder cfg) {socket : Nat} {payload : Bytes}
    {pendingSegments : List Segment} (sending : s.transcriptFlush = .sending socket payload pendingSegments)
    (session : Session) :
    (restoreTranscripts cfg { s with transcriptFlush := .idle, session := session } pendingSegments).TranscriptsInOrder
      cfg := by
  have flying := h.flying
  rw [sending] at flying
  have queue : dequeExtend cfg.maxSegmentBufferSize [] (pendingSegments ++ s.segmentBuffers) =
      newest (fun _ => 1) cfg.maxSegmentBufferSize ([] ++ (pendingSegments ++ s.segmentBuffers)) :=
    dequeExtend_eq (Nat.zero_le _) _
  refine ⟨?_, h.sent, rfl, ?_, h.fifo.fail (fun _ => 1) cfg.maxSegmentBufferSize, h.latest.fail h.fifo⟩
  · exact (congrArg List.length queue).trans_le (length_newest_units _ _)
  · refine queue.trans ?_
    rw [List.nil_append, ← flying, h.queued]
    exact (items_fail _ _ _).symm

theorem TranscriptsInOrder.transcriptSent (h : s.TranscriptsInOrder cfg) (result : SendResult) :
    (s.transcriptSent cfg result).TranscriptsInOrder cfg := by
  unfold ListenBuffers.transcriptSent
  split
  · rename_i socket payload pendingSegments sending
    cases result with
    | sent =>
        have flying := h.flying
        rw [sending] at flying
        refine ⟨h.within, ?_, rfl, h.queued, h.fifo.succeed, h.latest.succeed⟩
        simp only [List.flatten_append, List.flatten_singleton, h.sent, Drain.succeed, List.map_append]
        rw [flying]
    | connectionClosed wrote =>
        have restored := h.restore sending (s.session.write ⟨socket, .transcript payload, none⟩)
        exact ⟨restored.within, restored.sent, restored.flying, restored.queued, restored.fifo, restored.latest⟩
    | failed wrote => exact h.restore sending _
    | cancelled wrote => exact h.restore sending _
  · exact h

end Transcripts

/-! ## Runs -/

section Runs
variable {cfg : BufferConfig} {dumps : List Segment → Option String → Bytes} {s : ListenBuffers Segment}

theorem AudioInOrder.beginTranscriptFlush (h : s.AudioInOrder cfg) : (s.beginTranscriptFlush dumps).AudioInOrder cfg := by
  unfold ListenBuffers.beginTranscriptFlush
  split
  · split
    · exact h.congr rfl rfl rfl rfl
    · exact h
  · exact h

theorem AudioInOrder.transcriptSent (h : s.AudioInOrder cfg) (result : SendResult) :
    (s.transcriptSent cfg result).AudioInOrder cfg := by
  have written (entry : Sent) (written : Bool) :
      (if written then s.session.write entry else s.session).audioState = s.session.audioState := by
    split <;> rfl
  unfold ListenBuffers.transcriptSent
  split
  · rename_i socket payload pendingSegments _
    have kept (result : SendResult) := written ⟨socket, .transcript payload, none⟩ result.written
    cases result with
    | sent => exact h.congr (kept .sent) rfl rfl rfl
    | connectionClosed wrote =>
        exact h.congr ((Session.audioState_markDisconnected _).trans (kept (.connectionClosed wrote))) rfl rfl rfl
    | failed wrote => exact h.congr (kept (.failed wrote)) rfl rfl rfl
    | cancelled wrote => exact h.congr (kept (.cancelled wrote)) rfl rfl rfl
  · exact h

theorem TranscriptsInOrder.sessionStep (h : s.TranscriptsInOrder cfg) (a : Action) :
    (s.sessionStep cfg a).TranscriptsInOrder cfg := ⟨h.within, h.sent, h.flying, h.queued, h.fifo, h.latest⟩

theorem inOrder_start : (start : ListenBuffers Segment).AudioInOrder cfg ∧ (start : ListenBuffers Segment).TranscriptsInOrder cfg :=
  ⟨⟨rfl, Nat.zero_le _, rfl, rfl, rfl, rfl, Drain.fifo_start⟩, ⟨Nat.zero_le _, rfl, rfl, rfl, Drain.fifo_start, Drain.latest_start⟩⟩

theorem inOrder_apply (h : s.AudioInOrder cfg ∧ s.TranscriptsInOrder cfg) {a : BufferAction Segment}
    (enabled : s.enabled a = true) :
    (s.apply cfg dumps a).AudioInOrder cfg ∧ (s.apply cfg dumps a).TranscriptsInOrder cfg := by
  obtain ⟨audio, transcripts⟩ := h
  cases a with
  | session a =>
      refine ⟨audio.sessionStep ?_, transcripts.sessionStep a⟩
      unfold ListenBuffers.enabled at enabled
      split at enabled
      all_goals grind
  | transcriptSend segments => exact ⟨audio.congr rfl rfl rfl rfl, transcripts.transcriptSend segments⟩
  | transcriptFlush =>
      refine ⟨audio.beginTranscriptFlush, transcripts.begin ?_ dumps⟩
      simp only [ListenBuffers.enabled] at enabled
      split at enabled
      · assumption
      · cases enabled
  | transcriptSent result => exact ⟨audio.transcriptSent result, transcripts.transcriptSent result⟩

/-- The states of the runs in which audio and segments arrive, and flushes and their sends end, in any order. -/
abbrev Reached (cfg : BufferConfig) (dumps : List Segment → Option String → Bytes) : ListenBuffers Segment → Prop :=
  Reachable (fun s => s = start) (fun s a t => act cfg dumps s a = some t)

theorem Reached.inOrder (reached : Reached cfg dumps s) : s.AudioInOrder cfg ∧ s.TranscriptsInOrder cfg := by
  refine reached.invariant (fun s initial => initial ▸ inOrder_start) (fun s a t h step => ?_)
  unfold act at step
  split at step
  · rename_i enabled
    cases step
    exact inOrder_apply h enabled
  · cases step

end Runs
end ListenBuffers

/-- In every reachable state, what was sent without an error, is in flight and is buffered is what was received, in its
order and each at most once. A chunk was dropped only when every older one was sent, dropped before it or in flight;
a segment only when every older one is by now sent, dropped or, behind a full buffer, in flight. -/
theorem buffers_in_order {Segment : Type} (cfg : BufferConfig) (dumps : List Segment → Option String → Bytes)
    (s : ListenBuffers Segment) (reached : ListenBuffers.Reached cfg dumps s) :
    s.AudioInOrder cfg ∧ s.TranscriptsInOrder cfg := reached.inOrder

/-! ## A flush that fails -/

def sampleBuffers : BufferConfig := ⟨1000, 10, by decide⟩

def sampleDumps (_ : List Nat) (_ : Option String) : Bytes := []

/-- One byte is in flight while nine arrive, and two more; then the flush fails. -/
def sampleFlush : List (BufferAction Nat) :=
  [.session (.beginConnect false), .session (.socketOpened .socket), .session .replayed,
    .session (.audioBytesSend [1]), .session (.flush 1), .session (.audioBytesSend (List.replicate 9 2)),
    .session (.audioBytesSend [3, 3]), .session (.flushSent (.failed false))]

theorem sampleFlush_run :
    (sampleFlush.foldlM (ListenBuffers.act sampleBuffers sampleDumps) .start).map (fun s =>
      ((s.session.flush, s.session.audioChunks, s.audioFrames), s.audio.queued.map Entry.number,
        s.audio.removed.map fun r => r.entry.number)) = some ((.idle, [[1], [3, 3]], []), [0, 2], [1]) := by
  decide +kernel

theorem sampleFlush_reached : ∃ s, ListenBuffers.Reached sampleBuffers sampleDumps s ∧ s.session.flush = .idle ∧
    s.session.audioChunks = [[1], [3, 3]] ∧ s.audioFrames = [] ∧ s.audio.queued.map Entry.number = [0, 2] ∧
    (s.audio.removed.map fun r => r.entry.number) = [1] := by
  obtain ⟨s, run, facts⟩ := Option.map_eq_some_iff.mp sampleFlush_run
  simp only [Prod.mk.injEq] at facts
  obtain ⟨⟨idle, chunks, frames⟩, queued, removed⟩ := facts
  exact ⟨s, Reachable.actions (fun a _ s t step => step) (.start rfl) run, idle, chunks, frames, queued, removed⟩

/-- The newer chunk is dropped and the older one stays, and neither was sent. -/
theorem buffers_drop_newer : ¬ ∀ s, ListenBuffers.Reached sampleBuffers sampleDumps s → s.session.flush = .idle →
    ∀ r ∈ s.audio.removed, ∀ entry ∈ s.audio.queued, r.entry.number < entry.number := by
  intro oldest
  obtain ⟨s, reached, idle, -, -, queued, removed⟩ := sampleFlush_reached
  obtain ⟨entry, kept, first⟩ := List.mem_map.mp (queued ▸ List.mem_cons_self : (0 : Nat) ∈ s.audio.queued.map Entry.number)
  obtain ⟨r, gone, second⟩ :=
    List.mem_map.mp (removed ▸ List.mem_cons_self : (1 : Nat) ∈ s.audio.removed.map fun r => r.entry.number)
  have newer := oldest s reached idle r gone entry kept
  omega

theorem buffers_in_order_sample : ∃ s : ListenBuffers Nat, s.AudioInOrder sampleBuffers ∧ s.TranscriptsInOrder sampleBuffers ∧
    s.session.audioChunks = [[1], [3, 3]] := by
  obtain ⟨s, reached, -, chunks, -⟩ := sampleFlush_reached
  obtain ⟨audio, transcripts⟩ := buffers_in_order sampleBuffers sampleDumps s reached
  exact ⟨s, audio, transcripts, chunks⟩

end OmiLocal.Pusher
