import OmiLocal.Pusher.Accounting
import Mathlib.Data.List.Flatten

/-!
# Where uploaded audio comes from

The pieces of a conversation that were uploaded, are being uploaded, are pending, are queued and
are buffered, in this order, are some of the pieces received while it was current, in the order
they came. The start time of a chunk is that of its first piece as long as no frame that sets a
start time is refused or empty.
-/
namespace OmiLocal.Pusher
open Lib Lib.Framing

def Uploader.carried (id : String) : Uploader → Buffer
  | .uploading conversationId batch _ => if conversationId = id then batch.data else []
  | _ => []

def pendingFor (pending : List (String × Batch)) (id : String) : Buffer := ((Dict.get pending id).map Batch.data).getD []

def queuedFor (queue : List PrivateCloudChunk) (id : String) : Buffer :=
  (queue.filter fun chunk => decide (chunk.conversationId = id)).flatMap PrivateCloudChunk.data

def uploadedFor (uploads : List Upload) (id : String) : Buffer :=
  (uploads.filter fun upload => decide (upload.conversationId = id)).flatMap Upload.data

theorem queuedFor_cons (chunk : PrivateCloudChunk) (queue : List PrivateCloudChunk) (id : String) :
    queuedFor (chunk :: queue) id = (if chunk.conversationId = id then chunk.data else []) ++ queuedFor queue id := by
  unfold queuedFor
  split
  · rename_i same
    rw [List.filter_cons_of_pos (by simp [same]), List.flatMap_cons]
  · rename_i other
    rw [List.filter_cons_of_neg (by simp [other]), List.nil_append]

theorem queuedFor_append (front back : List PrivateCloudChunk) (id : String) :
    queuedFor (front ++ back) id = queuedFor front id ++ queuedFor back id := by
  simp [queuedFor]

theorem queuedFor_sublist {front back : List PrivateCloudChunk} (h : front.Sublist back) (id : String) :
    (queuedFor front id).Sublist (queuedFor back id) :=
  (h.filter _).flatMap _

namespace Connection

/-- What is on its way to an upload, oldest first. -/
def ahead (c : Connection) (id : String) : Buffer :=
  c.uploader.carried id ++ (pendingFor c.pending id ++ queuedFor c.privateCloudQueue id)

def bufferedFor (c : Connection) (id : String) : Buffer :=
  if c.conversation = some id then c.privateCloudSyncBuffer else []

def trail (c : Connection) (id : String) : Buffer :=
  uploadedFor c.uploads id ++ (c.ahead id ++ c.bufferedFor id)

def receivedFor (c : Connection) (id : String) : Buffer :=
  c.received.filter fun piece => decide (piece.conversation = some id)

structure Traced (cfg : Config) (c : Connection) : Prop where
  trail : ∀ id, (c.trail id).Sublist (c.receivedFor id)
  buffered : c.privateCloudSyncBuffer ≠ [] → cfg.privateCloudSyncEnabled = true ∧ c.conversation ≠ none
  pieces : ∀ piece ∈ c.privateCloudSyncBuffer, piece.data ≠ []

theorem traced_start (cfg : Config) : Traced cfg Connection.start := by
  refine ⟨fun id => ?_, fun some => absurd rfl some, fun _ inside => absurd inside (List.not_mem_nil)⟩
  exact List.nil_sublist _

/-- What the uploading side leaves alone. -/
structure Kept (c d : Connection) : Prop where
  current : d.currentConversationId = c.currentConversationId
  buffer : d.privateCloudSyncBuffer = c.privateCloudSyncBuffer
  start : d.privateCloudChunkStartTime = c.privateCloudChunkStartTime
  received : d.received = c.received

theorem Kept.refl (c : Connection) : Kept c c := ⟨rfl, rfl, rfl, rfl⟩

theorem Kept.trans {c d e : Connection} (first : Kept c d) (second : Kept d e) : Kept c e :=
  ⟨second.current.trans first.current, second.buffer.trans first.buffer, second.start.trans first.start,
    second.received.trans first.received⟩

section Tracing
variable {cfg : Config} {c d : Connection}

theorem Traced.moved (h : Traced cfg c) (kept : Kept c d)
    (fewer : ∀ id, (uploadedFor d.uploads id ++ d.ahead id).Sublist (uploadedFor c.uploads id ++ c.ahead id)) :
    Traced cfg d := by
  have conversation : d.conversation = c.conversation := congrArg (Option.filter (· ≠ "")) kept.current
  refine ⟨fun id => ?_, ?_, ?_⟩
  · have trail := h.trail id
    unfold Connection.trail bufferedFor receivedFor at trail ⊢
    rw [conversation, kept.buffer, kept.received, ← List.append_assoc]
    rw [← List.append_assoc] at trail
    exact ((fewer id).append_right _).trans trail
  · rw [kept.buffer, conversation]
    exact h.buffered
  · rw [kept.buffer]
    exact h.pieces

theorem size_eq_zero (pieces : ∀ piece ∈ c.privateCloudSyncBuffer, piece.data ≠ [])
    (empty : ¬0 < c.privateCloudSyncBuffer.size) : c.privateCloudSyncBuffer = [] := by
  cases buffer : c.privateCloudSyncBuffer with
  | nil => rfl
  | cons first rest =>
      have some := List.length_pos_iff.mpr (pieces first (by rw [buffer]; exact List.mem_cons_self))
      rw [buffer] at empty
      simp only [Buffer.size, totalSize_cons] at empty
      omega

theorem Traced.queuePrivate (h : Traced cfg c) {id : String} (current : c.conversation = some id) (timestamp : UInt64) :
    Traced cfg (c.queuePrivate id timestamp) := by
  refine ⟨fun other => ?_, fun some => absurd rfl some, fun _ inside => absurd inside (List.not_mem_nil)⟩
  obtain ⟨kept, suffix, queued⟩ := appendBounded_suffix PrivateCloudChunk.size privateCloudQueueMaxSize
    c.privateCloudQueue ⟨c.privateCloudSyncBuffer, id, timestamp⟩ c.audioBudget
  have trail := h.trail other
  unfold Connection.trail Connection.ahead bufferedFor at trail ⊢
  refine List.Sublist.trans ?_ trail
  have queue : (c.queuePrivate id timestamp).privateCloudQueue = kept ++ [⟨c.privateCloudSyncBuffer, id, timestamp⟩] := queued
  have buffer : (c.queuePrivate id timestamp).privateCloudSyncBuffer = [] := rfl
  rw [queue, buffer, current, queuedFor_append, queuedFor_cons, ite_self, List.append_nil]
  have same : (c.queuePrivate id timestamp).uploads = c.uploads ∧ (c.queuePrivate id timestamp).uploader = c.uploader ∧
    (c.queuePrivate id timestamp).pending = c.pending := ⟨rfl, rfl, rfl⟩
  rw [same.1, same.2.1, same.2.2]
  refine List.Sublist.append_left ?_ _
  rw [List.append_assoc, List.append_assoc]
  refine List.Sublist.append_left (List.Sublist.append_left ((queuedFor_sublist suffix.sublist other).append ?_) _) _
  simp [queuedFor]

theorem conversation_eq_some {id : String} (current : c.conversation = some id) : c.currentConversationId = some id :=
  (Option.filter_eq_some_iff.mp current).1

theorem Traced.buffer_nil (h : Traced cfg c) {new : String} (same : c.conversation ≠ some new)
    (unflushed : ∀ id, c.conversation = some id →
      ¬(cfg.privateCloudSyncEnabled = true ∧ id ≠ new ∧ 0 < c.privateCloudSyncBuffer.size)) :
    c.privateCloudSyncBuffer = [] := by
  by_contra some
  obtain ⟨enabled, current⟩ := h.buffered some
  obtain ⟨id, current⟩ := Option.ne_none_iff_exists'.mp current
  refine unflushed id current ⟨enabled, ?_, ?_⟩
  · rintro rfl
    exact same current
  · by_contra empty
    exact some (size_eq_zero h.pieces empty)

/-- The conversation may change while nothing is buffered. -/
theorem Traced.rename (h : Traced cfg c) {new : String}
    (quiet : c.conversation = some new ∨ c.privateCloudSyncBuffer = []) :
    Traced cfg { c with currentConversationId := some new } := by
  rcases quiet with same | empty
  · have unchanged : { c with currentConversationId := some new } = c := by
      rw [← conversation_eq_some same]
    rw [unchanged]
    exact h
  · refine ⟨fun id => List.Sublist.trans ?_ (h.trail id), fun some => absurd empty some, h.pieces⟩
    refine (List.Sublist.append_left ?_ _).append_left _
    have none : bufferedFor { c with currentConversationId := some new } id = [] := by
      simp only [bufferedFor, empty, ite_self]
    rw [none]
    exact List.nil_sublist _

theorem Traced.receiveConversation (h : Traced cfg c) (clock : UInt64) (new : String) :
    Traced cfg (c.receiveConversation cfg clock new) := by
  unfold Connection.receiveConversation
  dsimp only
  by_cases same : c.conversation = some new
  · rw [same]
    dsimp only
    rw [if_neg (by simp)]
    exact h.rename (.inl same)
  · split
    · rename_i id current
      split
      · exact (h.queuePrivate current _).rename (.inr rfl)
      · rename_i unflushed
        refine h.rename (.inr (h.buffer_nil same fun other found => ?_))
        cases current.symm.trans found
        exact unflushed
    · rename_i current
      refine h.rename (.inr (h.buffer_nil same fun other found => ?_))
      cases current.symm.trans found

theorem Traced.finishReceiving (h : Traced cfg c) (clock : UInt64) : Traced cfg (c.finishReceiving cfg clock) := by
  unfold Connection.finishReceiving
  dsimp only
  split
  · rename_i id current
    split
    · have queued := h.queuePrivate current (c.startTimeOr clock)
      exact ⟨queued.trail, queued.buffered, queued.pieces⟩
    · exact ⟨h.trail, h.buffered, h.pieces⟩
  · exact ⟨h.trail, h.buffered, h.pieces⟩

/-- The piece has been received and not yet been buffered. -/
structure Arriving (cfg : Config) (piece : Piece) (c : Connection) : Prop where
  trail : ∀ id, (c.trail id ++ if piece.conversation = some id then [piece] else []).Sublist (c.receivedFor id)
  buffered : c.privateCloudSyncBuffer ≠ [] → cfg.privateCloudSyncEnabled = true ∧ c.conversation ≠ none
  pieces : ∀ piece ∈ c.privateCloudSyncBuffer, piece.data ≠ []
  current : piece.conversation = c.currentConversationId

theorem Arriving.traced {piece : Piece} (h : Arriving cfg piece c) : Traced cfg c :=
  ⟨fun id => (List.sublist_append_left _ _).trans (h.trail id), h.buffered, h.pieces⟩

theorem Traced.arriving (h : Traced cfg c) (timestamp : UInt64) (data : Bytes) :
    Arriving cfg ⟨c.currentConversationId, timestamp, data⟩
      { c with received := c.received ++ [⟨c.currentConversationId, timestamp, data⟩] } := by
  refine ⟨fun id => ?_, h.buffered, h.pieces, rfl⟩
  unfold receivedFor
  rw [List.filter_append]
  refine (h.trail id).append ?_
  split
  · rename_i same
    rw [List.filter_cons_of_pos (by simpa using same)]
    exact List.Sublist.refl _
  · exact List.nil_sublist _

theorem Arriving.extendTrigger {piece : Piece} (h : Arriving cfg piece c) :
    Arriving cfg piece (c.extendTrigger cfg piece) := by
  unfold Connection.extendTrigger
  split
  · exact ⟨h.trail, h.buffered, h.pieces, h.current⟩
  · exact h

theorem Arriving.extendAudio {piece : Piece} (h : Arriving cfg piece c) : Arriving cfg piece (c.extendAudio cfg piece) := by
  unfold Connection.extendAudio
  split
  · exact ⟨h.trail, h.buffered, h.pieces, h.current⟩
  · exact h

theorem Arriving.extendPrivate {piece : Piece} (h : Arriving cfg piece c) (enabled : cfg.privateCloudSyncEnabled = true)
    {id : String} (current : c.conversation = some id) : Traced cfg (c.extendPrivate piece) := by
  have conversation : (c.extendPrivate piece).conversation = some id := current
  have owner : piece.conversation = some id := h.current.trans (conversation_eq_some current)
  rcases extendBounded_cases c.privateCloudSyncBuffer piece c.audioBudget with refused | ⟨some, extended⟩
  · have buffer : (c.extendPrivate piece).privateCloudSyncBuffer = c.privateCloudSyncBuffer := refused
    refine ⟨fun other => ?_, fun _ => ⟨enabled, by rw [conversation]; simp⟩, by rw [buffer]; exact h.pieces⟩
    have trail := h.traced.trail other
    unfold Connection.trail bufferedFor at trail ⊢
    rw [buffer]
    exact trail
  · have buffer : (c.extendPrivate piece).privateCloudSyncBuffer = c.privateCloudSyncBuffer ++ [piece] := extended
    refine ⟨fun other => ?_, fun _ => ⟨enabled, by rw [conversation]; simp⟩, ?_⟩
    · have trail := h.trail other
      unfold Connection.trail bufferedFor at trail ⊢
      rw [buffer, conversation]
      rw [current, owner, List.append_assoc, List.append_assoc] at trail
      refine List.Sublist.trans ((List.Sublist.append_left ?_ _).append_left _) trail
      split
      · exact List.Sublist.refl _
      · exact List.nil_sublist _
    · intro other inside
      rw [buffer] at inside
      rcases List.mem_append.mp inside with before | last
      · exact h.pieces other before
      · rw [List.mem_singleton.mp last]
        exact some

theorem Arriving.receivePrivate {piece : Piece} (h : Arriving cfg piece c) :
    Traced cfg (c.receivePrivate cfg piece) := by
  unfold Connection.receivePrivate
  split
  · rename_i id current
    split
    · rename_i enabled
      have extended := h.extendPrivate enabled current
      dsimp only
      split
      · exact extended.queuePrivate current _
      · exact extended
    · exact h.traced
  · exact h.traced

theorem Traced.queueTrigger (h : Traced cfg c) : Traced cfg (c.queueTrigger cfg) := by
  unfold Connection.queueTrigger
  split
  · exact ⟨h.trail, h.buffered, h.pieces⟩
  · exact h

theorem Traced.queueWebhook (h : Traced cfg c) : Traced cfg (c.queueWebhook cfg) := by
  unfold Connection.queueWebhook
  split
  · split
    · exact ⟨h.trail, h.buffered, h.pieces⟩
    · exact h
  · exact h

theorem Traced.receiveAudio (h : Traced cfg c) (timestamp : UInt64) (data : Bytes) :
    Traced cfg (c.receiveAudio cfg timestamp data) :=
  (h.arriving timestamp data).extendTrigger.extendAudio.receivePrivate.queueTrigger.queueWebhook

theorem Traced.receive (h : Traced cfg c) (clock : UInt64) (data : Bytes) : Traced cfg (c.receive cfg clock data) := by
  unfold Connection.receive
  split
  · exact h.finishReceiving clock
  · exact h
  · exact h.receiveConversation clock _
  · exact h.receiveAudio _ _
  · split
    · exact h
    · exact h.finishReceiving clock

/-! ## The uploading side -/

theorem pendingFor_put (pending : List (String × Batch)) (key : String) (batch : Batch) (id : String) :
    pendingFor (Dict.put pending key batch) id = if id = key then batch.data else pendingFor pending id := by
  unfold pendingFor
  split
  · rename_i same
    rw [same, Dict.get_put_self]
    rfl
  · rename_i other
    rw [Dict.get_put_other pending other]

theorem boundPrivatePending_sublist (distinct : (Dict.keys c.pending).Nodup) (id : String) :
    (pendingFor c.boundPrivatePending.pending id).Sublist (pendingFor c.pending id) := by
  unfold Connection.boundPrivatePending
  split
  · exact List.Sublist.refl _
  · rename_i key oldest rest pending
    rw [pending] at distinct
    have apart : key ∉ Dict.keys rest := (List.nodup_cons.mp distinct).1
    split
    · exact List.Sublist.refl _
    · rw [pending]
      unfold pendingFor
      by_cases same : key = id
      · rw [← same, Dict.get_of_not_mem apart]
        exact List.nil_sublist _
      · have later : Dict.get ((key, oldest) :: rest) id = Dict.get rest id := by
          rw [Dict.get, List.find?_cons_of_neg (by simp [same])]
          rfl
        rw [later]

/-- A chunk goes to the end of its conversation's batch, or nowhere. -/
theorem addToBatch_moves (distinct : (Dict.keys c.pending).Nodup) (now : ℚ) (chunk : PrivateCloudChunk) :
    ∃ pending budget, c.addToBatch now chunk = { c with pending := pending, audioBudget := budget } ∧
      ∀ id, (pendingFor pending id).Sublist
        (pendingFor c.pending id ++ if chunk.conversationId = id then chunk.data else []) := by
  unfold Connection.addToBatch
  split
  · exact ⟨c.pending, _, rfl, fun id => List.sublist_append_left _ _⟩
  · split
    · rename_i batch found
      refine ⟨_, c.audioBudget, rfl, fun id => ?_⟩
      rw [pendingFor_put]
      split
      · rename_i same
        have known : pendingFor c.pending id = batch.data := by rw [pendingFor, same, found]; rfl
        rw [known, if_pos same.symm]
      · exact List.sublist_append_left _ _
    · have bounded : ∃ pending budget, c.boundPrivatePending = { c with pending := pending, audioBudget := budget } := by
        unfold Connection.boundPrivatePending
        split
        · exact ⟨_, _, rfl⟩
        · split <;> exact ⟨_, _, rfl⟩
      have fewer := boundPrivatePending_sublist distinct
      obtain ⟨pending, budget, bounded⟩ := bounded
      rw [bounded] at fewer ⊢
      refine ⟨_, budget, rfl, fun id => ?_⟩
      rw [pendingFor_put]
      split
      · rename_i same
        rw [if_pos same.symm]
        exact List.sublist_append_right _ _
      · exact (fewer id).trans (List.sublist_append_left _ _)

theorem drain_moves (queue : List PrivateCloudChunk) (now : ℚ)
    (h : { c with privateCloudQueue := queue }.Settled) :
    ∃ pending budget, queue.foldl (addToBatch now) { c with privateCloudQueue := [] } =
      { c with privateCloudQueue := [], pending := pending, audioBudget := budget } ∧
      ∀ id, (pendingFor pending id).Sublist (pendingFor c.pending id ++ queuedFor queue id) := by
  induction queue generalizing c with
  | nil => exact ⟨c.pending, c.audioBudget, rfl, fun id => List.sublist_append_left _ _⟩
  | cons chunk queue ih =>
      have next := Settled.addToBatch h now
      rw [List.foldl_cons, addToBatch_queue]
      obtain ⟨pending, budget, added, first⟩ := addToBatch_moves (c := c) h.distinct now chunk
      rw [added] at next ⊢
      obtain ⟨pending', budget', drained, rest⟩ := ih next
      refine ⟨pending', budget', drained, fun id => ?_⟩
      rw [queuedFor_cons, ← List.append_assoc]
      exact (rest id).trans ((first id).append_right _)

theorem flushBatches_moves (ids : List String) :
    ∃ pending uploader, c.flushBatches ids = { c with pending := pending, uploader := uploader } ∧
      ∀ id, (uploader.carried id ++ pendingFor pending id).Sublist (pendingFor c.pending id) := by
  induction ids generalizing c with
  | nil =>
      rw [Connection.flushBatches, Connection.nextRound]
      split
      · exact ⟨c.pending, .waiting, rfl, fun id => List.Sublist.refl _⟩
      · exact ⟨c.pending, .ended, rfl, fun id => List.Sublist.refl _⟩
  | cons key rest ih =>
      rw [Connection.flushBatches]
      split
      · exact ih
      · rename_i batch found
        have popped (id : String) : pendingFor (Dict.erase c.pending key) id = if key = id then [] else pendingFor c.pending id := by
          unfold pendingFor
          split
          · rename_i same
            rw [← same, Dict.get_erase_self]
            rfl
          · rename_i other
            rw [Dict.get_erase_other c.pending (Ne.symm other)]
        dsimp only
        split
        · obtain ⟨pending, uploader, flushed, fewer⟩ := ih (c := { c with pending := Dict.erase c.pending key })
          refine ⟨pending, uploader, flushed, fun id => (fewer id).trans ?_⟩
          rw [popped]
          split
          · exact List.nil_sublist _
          · exact List.Sublist.refl _
        · refine ⟨_, _, rfl, fun id => ?_⟩
          rw [popped, Uploader.carried]
          split
          · rename_i same
            rw [List.append_nil, pendingFor, ← same, found]
            exact List.Sublist.refl _
          · exact List.Sublist.refl _

theorem Traced.flushBatches (h : Traced cfg c) (kept : Kept c d)
    (fewer : ∀ id, (uploadedFor d.uploads id ++ (pendingFor d.pending id ++ queuedFor d.privateCloudQueue id)).Sublist
      (uploadedFor c.uploads id ++ c.ahead id)) (ids : List String) : Traced cfg (d.flushBatches ids) := by
  obtain ⟨pending, uploader, flushed, moved⟩ := flushBatches_moves (c := d) ids
  rw [flushed]
  refine h.moved ⟨kept.current, kept.buffer, kept.start, kept.received⟩ fun id => List.Sublist.trans ?_ (fewer id)
  refine List.Sublist.append_left ?_ _
  unfold Connection.ahead
  rw [← List.append_assoc]
  exact (moved id).append_right _

theorem Traced.processPrivateCloudQueue (h : Traced cfg c) (counted : c.Accounted) (waiting : c.uploader = .waiting)
    (now : ℚ) : Traced cfg (c.processPrivateCloudQueue cfg now) := by
  have settled : { c with privateCloudQueue := c.privateCloudQueue }.Settled :=
    ⟨by rw [counted.used, held, waiting]; rfl, counted.limit, counted.distinct⟩
  obtain ⟨pending, budget, drained, moved⟩ := drain_moves (c := c) c.privateCloudQueue now settled
  unfold Connection.processPrivateCloudQueue
  dsimp only
  rw [drained]
  apply h.flushBatches
  · exact ⟨rfl, rfl, rfl, rfl⟩
  · intro id
    refine List.Sublist.append_left ?_ _
    rw [Connection.ahead, waiting]
    exact (List.append_nil _).symm ▸ moved id

theorem Traced.uploadSucceeded (h : Traced cfg c) : Traced cfg c.uploadSucceeded := by
  unfold Connection.uploadSucceeded
  split
  · rename_i key batch rest uploading
    refine h.moved ⟨rfl, rfl, rfl, rfl⟩ fun id => ?_
    unfold Connection.ahead
    rw [uploading]
    have uploaded : uploadedFor (c.uploads ++ [⟨key, batch.data, batch.timestamp⟩]) id =
        uploadedFor c.uploads id ++ if key = id then batch.data else [] := by
      unfold uploadedFor
      rw [List.filter_append, List.flatMap_append]
      split
      · rename_i same
        rw [List.filter_cons_of_pos (by simpa using same)]
        simp
      · rename_i other
        rw [List.filter_cons_of_neg (by simpa using other)]
        rfl
    rw [uploaded, List.append_assoc]
    exact List.Sublist.refl _
  · exact h

theorem Traced.uploadFailed (h : Traced cfg c) (counted : c.Accounted) (now : ℚ) : Traced cfg (c.uploadFailed now) := by
  have apart := counted.apart
  unfold Connection.uploadFailed
  split
  · rename_i key batch rest uploading
    rw [uploading] at apart
    split
    · apply h.flushBatches
      · exact ⟨rfl, rfl, rfl, rfl⟩
      · intro id
        refine List.Sublist.append_left ?_ _
        unfold Connection.ahead
        rw [uploading, pendingFor_put, ← List.append_assoc]
        refine List.Sublist.append_right ?_ _
        rw [Uploader.carried]
        split
        · rename_i same
          rw [if_pos same.symm]
          exact List.sublist_append_left _ _
        · exact List.sublist_append_right _ _
    · apply h.flushBatches
      · exact ⟨rfl, rfl, rfl, rfl⟩
      · exact fun id => List.Sublist.append_left (List.sublist_append_right _ _) _
  · exact h

theorem Traced.recorded (h : Traced cfg c) (gone : Bool) : Traced cfg (c.recorded gone) := by
  unfold Connection.recorded
  split
  · apply h.flushBatches
    · exact ⟨rfl, rfl, rfl, rfl⟩
    · exact fun id => List.Sublist.append_left (List.sublist_append_right _ _) _
  · exact h

theorem Traced.delivered (h : Traced cfg c) : Traced cfg c.delivered := by
  unfold Connection.delivered
  split
  · exact h
  · exact ⟨h.trail, h.buffered, h.pieces⟩

theorem Traced.step {e : Event} (h : Traced cfg c) (counted : c.Accounted) (step : Step cfg c e d) : Traced cfg d := by
  obtain ⟨enabled, rfl⟩ := step
  cases e with
  | frame clock data => exact h.receive clock data
  | finish clock => exact h.finishReceiving clock
  | deactivate => exact ⟨h.trail, h.buffered, h.pieces⟩
  | round now => exact h.processPrivateCloudQueue counted enabled now
  | uploadSucceeded => exact h.uploadSucceeded
  | uploadFailed now => exact h.uploadFailed counted now
  | recorded gone => exact h.recorded gone
  | takeAudioBytes => exact ⟨h.trail, h.buffered, h.pieces⟩
  | delivered => exact h.delivered

end Tracing
end Connection

theorem Reached.traced {cfg : Config} {c : Connection} (reached : Reached cfg c) : c.Traced cfg := by
  induction reached with
  | start initial =>
      rw [initial]
      exact Connection.traced_start cfg
  | next before step ih => exact ih.step (Reached.accounted before) step

end OmiLocal.Pusher
