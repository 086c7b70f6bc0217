import OmiLocal.Pusher.Connection
import OmiLocal.Lib.Transition

/-!
# What the audio budget counts

In every state of a connection the budget counts the bytes in the buffers, the queues, the
pending batches and the items in delivery, and nothing else.
-/
namespace OmiLocal.Pusher
open Lib Lib.Framing

def Uploader.held : Uploader → Nat
  | .uploading _ batch _ | .recording _ batch _ => batch.size
  | .waiting | .ended => 0

/-- The conversation of the batch that is being uploaded is not pending. -/
def Uploader.Apart (pending : List (String × Batch)) : Uploader → Prop
  | .uploading conversationId _ _ => conversationId ∉ Dict.keys pending
  | _ => True

namespace Connection

/-- The bytes in the buffers, the queues, the pending batches and the audio bytes being delivered. -/
def stored (c : Connection) : Nat :=
  c.audiobuffer.size + c.triggerAudiobuffer.size + c.privateCloudSyncBuffer.size +
    totalSize PrivateCloudChunk.size c.privateCloudQueue + totalSize AudioBytesQueueItem.size c.audioBytesQueue +
    Dict.total Batch.size c.pending + totalSize AudioBytesQueueItem.size c.delivering

/-- With the batch that is being uploaded or recorded. -/
def held (c : Connection) : Nat := c.stored + c.uploader.held

structure Accounted (c : Connection) : Prop where
  used : c.audioBudget.used = c.held
  limit : c.audioBudget.limit = bufferedAudioMaxBytes
  distinct : (Dict.keys c.pending).Nodup
  apart : c.uploader.Apart c.pending

theorem accounted_start : Connection.start.Accounted := ⟨rfl, rfl, List.nodup_nil, trivial⟩

/-! ## Receiving -/

section Receiving
variable {c : Connection}

theorem Accounted.queuePrivate (h : c.Accounted) (id : String) (timestamp : UInt64) :
    (c.queuePrivate id timestamp).Accounted := by
  refine ⟨?_, (appendBounded_limit _ _ _ _ _).trans h.limit, h.distinct, h.apart⟩
  have used := h.used
  simp only [held, stored] at used
  have counted := appendBounded_used PrivateCloudChunk.size privateCloudQueueMaxSize c.privateCloudQueue
    ⟨c.privateCloudSyncBuffer, id, timestamp⟩ (by omega : _ ≤ c.audioBudget.used)
  simp only [held, stored, Connection.queuePrivate]
  simp only [PrivateCloudChunk.size, Buffer.size, totalSize_nil] at counted used ⊢
  omega

theorem Accounted.extendTrigger (h : c.Accounted) (cfg : Config) (piece : Piece) :
    (c.extendTrigger cfg piece).Accounted := by
  unfold Connection.extendTrigger
  split
  · refine ⟨?_, (extendBounded_limit _ _ _).trans h.limit, h.distinct, h.apart⟩
    have used := h.used
    have counted := extendBounded_used c.triggerAudiobuffer piece c.audioBudget
    simp only [held, stored] at used ⊢
    omega
  · exact h

theorem Accounted.extendAudio (h : c.Accounted) (cfg : Config) (piece : Piece) :
    (c.extendAudio cfg piece).Accounted := by
  unfold Connection.extendAudio
  split
  · refine ⟨?_, (extendBounded_limit _ _ _).trans h.limit, h.distinct, h.apart⟩
    have used := h.used
    have counted := extendBounded_used c.audiobuffer piece c.audioBudget
    simp only [held, stored] at used ⊢
    omega
  · exact h

theorem Accounted.extendPrivate (h : c.Accounted) (piece : Piece) : (c.extendPrivate piece).Accounted := by
  refine ⟨?_, (extendBounded_limit _ _ _).trans h.limit, h.distinct, h.apart⟩
  have used := h.used
  have counted := extendBounded_used c.privateCloudSyncBuffer piece c.audioBudget
  simp only [held, stored, Connection.extendPrivate] at used ⊢
  omega

theorem Accounted.receivePrivate (h : c.Accounted) (cfg : Config) (piece : Piece) :
    (c.receivePrivate cfg piece).Accounted := by
  unfold Connection.receivePrivate
  split
  · split
    · dsimp only
      split
      · exact (h.extendPrivate piece).queuePrivate _ _
      · exact h.extendPrivate piece
    · exact h
  · exact h

theorem Accounted.queueTrigger (h : c.Accounted) (cfg : Config) : (c.queueTrigger cfg).Accounted := by
  unfold Connection.queueTrigger
  split
  · refine ⟨?_, (appendBounded_limit _ _ _ _ _).trans h.limit, h.distinct, h.apart⟩
    have used := h.used
    simp only [held, stored] at used
    have counted := appendBounded_used AudioBytesQueueItem.size audioBytesQueueWarnSize c.audioBytesQueue
      ⟨.app, c.triggerAudiobuffer⟩ (by omega : _ ≤ c.audioBudget.used)
    simp only [held, stored, queueAudioBytes]
    simp only [AudioBytesQueueItem.size, Buffer.size, totalSize_nil] at counted used ⊢
    omega
  · exact h

theorem Accounted.queueWebhook (h : c.Accounted) (cfg : Config) : (c.queueWebhook cfg).Accounted := by
  unfold Connection.queueWebhook
  split
  · split
    · refine ⟨?_, (appendBounded_limit _ _ _ _ _).trans h.limit, h.distinct, h.apart⟩
      have used := h.used
      simp only [held, stored] at used
      have counted := appendBounded_used AudioBytesQueueItem.size audioBytesQueueWarnSize c.audioBytesQueue
        ⟨.webhook, c.audiobuffer⟩ (by omega : _ ≤ c.audioBudget.used)
      simp only [held, stored, queueAudioBytes]
      simp only [AudioBytesQueueItem.size, Buffer.size, totalSize_nil] at counted used ⊢
      omega
    · exact h
  · exact h

theorem Accounted.receiveAudio (h : c.Accounted) (cfg : Config) (timestamp : UInt64) (data : Bytes) :
    (c.receiveAudio cfg timestamp data).Accounted := by
  have logged : Accounted { c with received := c.received ++ [⟨c.currentConversationId, timestamp, data⟩] } :=
    ⟨h.used, h.limit, h.distinct, h.apart⟩
  exact ((((logged.extendTrigger cfg _).extendAudio cfg _).receivePrivate cfg _).queueTrigger cfg).queueWebhook cfg

theorem Accounted.receiveConversation (h : c.Accounted) (cfg : Config) (clock : UInt64) (id : String) :
    (c.receiveConversation cfg clock id).Accounted := by
  unfold Connection.receiveConversation
  dsimp only
  split
  · split
    · have queued := h.queuePrivate ‹String› (c.startTimeOr clock)
      exact ⟨queued.used, queued.limit, queued.distinct, queued.apart⟩
    · exact ⟨h.used, h.limit, h.distinct, h.apart⟩
  · exact ⟨h.used, h.limit, h.distinct, h.apart⟩

theorem Accounted.finishReceiving (h : c.Accounted) (cfg : Config) (clock : UInt64) :
    (c.finishReceiving cfg clock).Accounted := by
  unfold Connection.finishReceiving
  dsimp only
  split
  · split
    · have queued := h.queuePrivate ‹String› (c.startTimeOr clock)
      exact ⟨queued.used, queued.limit, queued.distinct, queued.apart⟩
    · exact ⟨h.used, h.limit, h.distinct, h.apart⟩
  · exact ⟨h.used, h.limit, h.distinct, h.apart⟩

theorem Accounted.receive (h : c.Accounted) (cfg : Config) (clock : UInt64) (data : Bytes) :
    (c.receive cfg clock data).Accounted := by
  unfold Connection.receive
  split
  · exact h.finishReceiving cfg clock
  · exact h
  · exact h.receiveConversation cfg clock _
  · exact h.receiveAudio cfg _ _
  · split
    · exact h
    · exact h.finishReceiving cfg clock

end Receiving

/-! ## Uploading -/

section Uploading
variable {c : Connection}

/-- Before the next batch is taken, the budget counts what is stored. -/
structure Settled (c : Connection) : Prop where
  used : c.audioBudget.used = c.stored
  limit : c.audioBudget.limit = bufferedAudioMaxBytes
  distinct : (Dict.keys c.pending).Nodup

theorem Settled.nextRound (h : c.Settled) : c.nextRound.Accounted := by
  unfold Connection.nextRound
  split <;> exact ⟨h.used, h.limit, h.distinct, trivial⟩

theorem Settled.pop (h : c.Settled) {id : String} {batch : Batch} (found : Dict.get c.pending id = some batch) :
    { c with pending := Dict.erase c.pending id }.stored + batch.size = c.audioBudget.used := by
  have share := Dict.total_erase Batch.size h.distinct (Dict.get_eq_some found)
  have used := h.used
  simp only [stored] at used ⊢
  omega

theorem Settled.flushBatches (h : c.Settled) (ids : List String) : (c.flushBatches ids).Accounted := by
  induction ids generalizing c with
  | nil => exact h.nextRound
  | cons id rest ih =>
      rw [Connection.flushBatches]
      split
      · exact ih h
      · rename_i batch found
        have popped := h.pop found
        dsimp only
        split
        · rename_i empty
          exact ih ⟨by rw [empty] at popped; exact popped.symm, h.limit, Dict.nodup_erase h.distinct id⟩
        · exact ⟨popped.symm, h.limit, Dict.nodup_erase h.distinct id, Dict.not_mem_keys_erase c.pending id⟩

theorem Settled.boundPrivatePending (h : c.Settled) : c.boundPrivatePending.Settled := by
  unfold Connection.boundPrivatePending
  split
  · exact h
  · rename_i oldest rest pending
    split
    · exact h
    · have used := h.used
      have distinct := h.distinct
      rw [pending] at distinct
      refine ⟨?_, h.limit, (List.nodup_cons.mp distinct).2⟩
      simp only [stored, pending, Dict.total, List.map_cons, List.sum_cons] at used
      simp only [stored, ByteBudget.release_used, Dict.total]
      omega

theorem boundPrivatePending_keys (c : Connection) :
    (Dict.keys c.boundPrivatePending.pending).Sublist (Dict.keys c.pending) := by
  unfold Connection.boundPrivatePending
  split
  · exact List.Sublist.refl _
  · rename_i oldest rest pending
    split
    · exact List.Sublist.refl _
    · rw [pending]
      exact List.sublist_cons_self _ _

theorem boundPrivatePending_queue (c : Connection) (queue : List PrivateCloudChunk) :
    { c with privateCloudQueue := queue }.boundPrivatePending = { c.boundPrivatePending with privateCloudQueue := queue } := by
  simp only [Connection.boundPrivatePending]
  split
  · rfl
  · split <;> rfl

theorem addToBatch_queue (now : ℚ) (c : Connection) (chunk : PrivateCloudChunk) (queue : List PrivateCloudChunk) :
    addToBatch now { c with privateCloudQueue := queue } chunk =
      { c.addToBatch now chunk with privateCloudQueue := queue } := by
  simp only [Connection.addToBatch, boundPrivatePending_queue]
  split
  · rfl
  · split <;> rfl

/-- The chunk has left the queue and its bytes are still reserved. -/
theorem Settled.addToBatch {chunk : PrivateCloudChunk} {queue : List PrivateCloudChunk}
    (h : { c with privateCloudQueue := chunk :: queue }.Settled) (now : ℚ) :
    { c.addToBatch now chunk with privateCloudQueue := queue }.Settled := by
  have used := h.used
  simp only [stored, totalSize_cons] at used
  unfold Connection.addToBatch
  split
  · refine ⟨?_, h.limit, h.distinct⟩
    simp only [stored, ByteBudget.release_used]
    omega
  · split
    · rename_i batch found
      refine ⟨?_, h.limit, Dict.nodup_put h.distinct _ _⟩
      have share := Dict.total_put Batch.size h.distinct (Dict.get_eq_some found) { batch with data := batch.data ++ chunk.data }
      simp only [stored, PrivateCloudChunk.size, Batch.size, Buffer.size, totalSize_append] at used share ⊢
      omega
    · rename_i missing
      have bounded := h.boundPrivatePending
      rw [boundPrivatePending_queue] at bounded
      have absent : chunk.conversationId ∉ Dict.keys c.boundPrivatePending.pending := fun inside => by
        obtain ⟨batch, member⟩ := Dict.mem_keys.mp ((boundPrivatePending_keys c).subset inside)
        rw [Dict.get_of_mem h.distinct member] at missing
        cases missing
      refine ⟨?_, bounded.limit, Dict.nodup_put bounded.distinct _ _⟩
      have share := Dict.total_put_new Batch.size absent ⟨chunk.data, chunk.timestamp, now, 0⟩
      have counted := bounded.used
      simp only [stored, totalSize_cons, PrivateCloudChunk.size, Batch.size] at counted share ⊢
      omega

theorem Settled.drain {queue : List PrivateCloudChunk} (h : { c with privateCloudQueue := queue }.Settled) (now : ℚ) :
    (queue.foldl (Connection.addToBatch now) { c with privateCloudQueue := [] }).Settled := by
  induction queue generalizing c with
  | nil => exact h
  | cons chunk queue ih =>
      rw [List.foldl_cons, addToBatch_queue]
      exact ih (Settled.addToBatch h now)

theorem Accounted.processPrivateCloudQueue (h : c.Accounted) (waiting : c.uploader = .waiting) (cfg : Config) (now : ℚ) :
    (c.processPrivateCloudQueue cfg now).Accounted := by
  have settled : { c with privateCloudQueue := c.privateCloudQueue }.Settled :=
    ⟨by rw [h.used, held, waiting]; rfl, h.limit, h.distinct⟩
  exact (Settled.drain settled now).flushBatches _

theorem Accounted.uploadSucceeded (h : c.Accounted) : c.uploadSucceeded.Accounted := by
  have used := h.used
  unfold Connection.uploadSucceeded
  split
  · rename_i id batch rest uploading
    rw [held, uploading] at used
    exact ⟨used, h.limit, h.distinct, trivial⟩
  · exact h

/-- Without the batch that was uploading. -/
theorem Accounted.release (h : c.Accounted) {batch : Batch} (carried : c.uploader.held = batch.size) (deleted : List String) :
    { c with deletedConversations := deleted, audioBudget := c.audioBudget.release batch.size }.Settled := by
  refine ⟨?_, h.limit, h.distinct⟩
  have used := h.used
  rw [held, carried] at used
  simp only [ByteBudget.release_used, used, stored]
  omega

theorem Accounted.uploadFailed (h : c.Accounted) (now : ℚ) : (c.uploadFailed now).Accounted := by
  have used := h.used
  have apart := h.apart
  unfold Connection.uploadFailed
  split
  · rename_i id batch rest uploading
    rw [uploading] at apart
    split
    · apply Settled.flushBatches
      refine ⟨?_, h.limit, Dict.nodup_put h.distinct _ _⟩
      have share := Dict.total_put_new Batch.size apart
        { batch with retries := batch.retries + 1, queuedAt := if c.websocketActive then now else 0 }
      rw [held, uploading] at used
      simp only [stored, Uploader.held, Batch.size] at used share ⊢
      omega
    · exact (h.release (by rw [uploading]; rfl) c.deletedConversations).flushBatches rest
  · exact h

theorem Accounted.recorded (h : c.Accounted) (gone : Bool) : (c.recorded gone).Accounted := by
  unfold Connection.recorded
  split
  · rename_i id batch rest recording
    exact (h.release (by rw [recording]; rfl) _).flushBatches rest
  · exact h

theorem Accounted.takeAudioBytes (h : c.Accounted) (idle : c.delivering = []) : c.takeAudioBytes.Accounted := by
  refine ⟨?_, h.limit, h.distinct, h.apart⟩
  have used := h.used
  simp only [held, stored, idle, totalSize_nil] at used
  simp only [held, stored, Connection.takeAudioBytes, totalSize_nil]
  omega

theorem Accounted.delivered (h : c.Accounted) : c.delivered.Accounted := by
  unfold Connection.delivered
  split
  · exact h
  · rename_i item rest delivering
    refine ⟨?_, h.limit, h.distinct, h.apart⟩
    have used := h.used
    simp only [held, stored, delivering, totalSize_cons] at used
    simp only [held, stored, ByteBudget.release_used]
    omega

end Uploading

theorem Accounted.step {cfg : Config} {c d : Connection} {e : Event} (h : c.Accounted) (step : Step cfg c e d) :
    d.Accounted := by
  obtain ⟨enabled, rfl⟩ := step
  cases e with
  | frame clock data => exact h.receive cfg clock data
  | finish clock => exact h.finishReceiving cfg clock
  | deactivate => exact ⟨h.used, h.limit, h.distinct, h.apart⟩
  | round now => exact h.processPrivateCloudQueue enabled cfg now
  | uploadSucceeded => exact h.uploadSucceeded
  | uploadFailed now => exact h.uploadFailed now
  | recorded gone => exact h.recorded gone
  | takeAudioBytes => exact h.takeAudioBytes enabled
  | delivered => exact h.delivered

end Connection

/-- The connections that a run of events reaches. -/
abbrev Reached (cfg : Config) : Connection → Prop := Transition.Reachable (· = Connection.start) (Step cfg)

theorem Reached.accounted {cfg : Config} {c : Connection} (reached : Reached cfg c) : c.Accounted :=
  Transition.Reachable.invariant (fun s initial => by rw [initial]; exact Connection.accounted_start)
    (fun _ _ _ h step => h.step step) reached

end OmiLocal.Pusher
