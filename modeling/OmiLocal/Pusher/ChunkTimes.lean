import OmiLocal.Pusher.Attribution

/-!
# Start times of private cloud chunks

The start time of a chunk is set before its first frame is admitted to the budget, and a start
time of zero is taken for a missing one.
-/
namespace OmiLocal.Pusher
open Lib Lib.Framing

/-- The timestamp is that of the first frame whose bytes are in the chunk. -/
def PrivateCloudChunk.Stamped (chunk : PrivateCloudChunk) : Prop :=
  ∃ first rest, chunk.data = first :: rest ∧ first.data ≠ [] ∧ chunk.timestamp = first.timestamp

/-- The buffers that want a copy of an audio frame, with the private one. -/
def Config.copies (cfg : Config) : Nat :=
  (if cfg.hasAudioAppsEnabled then 1 else 0) + (if cfg.audioBytesWebhookDelaySeconds.isSome then 1 else 0) + 1

namespace Connection

def Fits (cfg : Config) (c : Connection) (data : Bytes) : Prop :=
  c.audioBudget.used + cfg.copies * data.length ≤ c.audioBudget.limit

def StartsAfterZero (c : Connection) : Prop := ∀ t, c.privateCloudChunkStartTime = some t → isZero t = false

end Connection

/-- A frame that sets a start time has audio, and all its copies fit; a chunk that is cut short did not start at zero. -/
def Event.Timely (cfg : Config) (c : Connection) : Event → Prop
  | .frame _ data =>
      match readFrame data with
      | none => c.StartsAfterZero
      | some .heartbeat => True
      | some (.conversation id) => c.conversation = some id ∨ c.StartsAfterZero
      | some (.audio _ audio) =>
          cfg.privateCloudSyncEnabled = true → c.conversation ≠ none → c.privateCloudChunkStartTime = none →
            audio ≠ [] ∧ c.Fits cfg audio
      | some other => cfg.payloadAccepted other = true ∨ c.StartsAfterZero
  | .finish _ => c.StartsAfterZero
  | _ => True

namespace Connection

structure Stamped (c : Connection) : Prop where
  chunks : ∀ chunk ∈ c.privateCloudQueue, chunk.Stamped
  start : c.privateCloudChunkStartTime = c.privateCloudSyncBuffer.head?.map Piece.timestamp

theorem stamped_start : Connection.start.Stamped := ⟨fun _ inside => absurd inside List.not_mem_nil, rfl⟩

section Stamping
variable {cfg : Config} {c d : Connection}

theorem Stamped.queuePrivate (h : c.Stamped) (pieces : ∀ piece ∈ c.privateCloudSyncBuffer, piece.data ≠ [])
    (nonempty : c.privateCloudSyncBuffer ≠ []) (id : String) {timestamp : UInt64}
    (first : c.privateCloudChunkStartTime = some timestamp) : (c.queuePrivate id timestamp).Stamped := by
  obtain ⟨head, rest, buffer⟩ := List.exists_cons_of_ne_nil nonempty
  have same : head.timestamp = timestamp := by
    have start := h.start
    rw [first, buffer] at start
    exact (Option.some.inj start).symm
  obtain ⟨kept, suffix, queued⟩ := appendBounded_suffix PrivateCloudChunk.size privateCloudQueueMaxSize
    c.privateCloudQueue ⟨c.privateCloudSyncBuffer, id, timestamp⟩ c.audioBudget
  refine ⟨fun chunk inside => ?_, rfl⟩
  have queue : (c.queuePrivate id timestamp).privateCloudQueue = kept ++ [⟨c.privateCloudSyncBuffer, id, timestamp⟩] := queued
  rw [queue] at inside
  rcases List.mem_append.mp inside with before | last
  · exact h.chunks chunk (suffix.subset before)
  · rw [List.mem_singleton.mp last]
    exact ⟨head, rest, buffer, pieces head (by rw [buffer]; exact List.mem_cons_self), same.symm⟩

theorem ne_nil_of_size {buffer : Buffer} (positive : 0 < buffer.size) : buffer ≠ [] := by
  rintro rfl
  exact Nat.lt_irrefl 0 positive

theorem Stamped.startTime (h : c.Stamped) (nonempty : c.privateCloudSyncBuffer ≠ []) (after : c.StartsAfterZero)
    (clock : UInt64) : c.privateCloudChunkStartTime = some (c.startTimeOr clock) := by
  obtain ⟨head, rest, buffer⟩ := List.exists_cons_of_ne_nil nonempty
  have start := h.start
  rw [buffer] at start
  have nonzero := after _ start
  rw [startTimeOr, start]
  simp only [List.head?_cons, Option.map_some]
  rw [nonzero]
  rfl

theorem Stamped.receiveConversation (h : c.Stamped) (traced : Traced cfg c) {new : String}
    (timely : c.conversation = some new ∨ c.StartsAfterZero) (clock : UInt64) :
    (c.receiveConversation cfg clock new).Stamped := by
  unfold Connection.receiveConversation
  dsimp only
  split
  · rename_i id current
    split
    · rename_i flushed
      have after : c.StartsAfterZero := timely.resolve_left fun same => flushed.2.1 (Option.some.inj (current.symm.trans same))
      have nonempty := ne_nil_of_size flushed.2.2
      have queued := h.queuePrivate traced.pieces nonempty id (h.startTime nonempty after clock)
      exact ⟨queued.chunks, queued.start⟩
    · exact ⟨h.chunks, h.start⟩
  · exact ⟨h.chunks, h.start⟩

theorem Stamped.finishReceiving (h : c.Stamped) (traced : Traced cfg c) (after : c.StartsAfterZero) (clock : UInt64) :
    (c.finishReceiving cfg clock).Stamped := by
  unfold Connection.finishReceiving
  dsimp only
  split
  · split
    · rename_i flushed
      have nonempty := ne_nil_of_size flushed.2
      have queued := h.queuePrivate traced.pieces nonempty ‹String› (h.startTime nonempty after clock)
      exact ⟨queued.chunks, queued.start⟩
    · exact ⟨h.chunks, h.start⟩
  · exact ⟨h.chunks, h.start⟩

/-! ## A frame that sets a start time -/

theorem extendBounded_used_le (buffer : Buffer) (piece : Piece) (budget : ByteBudget) :
    (extendBounded buffer piece budget).2.used ≤ budget.used + piece.data.length := by
  unfold extendBounded
  split
  · rename_i after reservation
    exact (ByteBudget.reserve_some reservation).1.le
  · exact Nat.le_add_right _ _

theorem extendBounded_admitted {buffer : Buffer} {piece : Piece} {budget : ByteBudget} (nonempty : piece.data ≠ [])
    (fits : budget.used + piece.data.length ≤ budget.limit) : (extendBounded buffer piece budget).1 = buffer ++ [piece] := by
  unfold extendBounded
  rw [ByteBudget.reserve, dif_pos fits]
  exact if_neg nonempty

/-- What another consumer's copy of a frame does: it may reserve `size` bytes. -/
structure Extended (c : Connection) (size : Nat) (d : Connection) : Prop where
  kept : Kept c d
  queue : d.privateCloudQueue = c.privateCloudQueue
  used : d.audioBudget.used ≤ c.audioBudget.used + size
  limit : d.audioBudget.limit = c.audioBudget.limit

theorem extendTrigger_extended (cfg : Config) (c : Connection) (piece : Piece) :
    Extended c ((if cfg.hasAudioAppsEnabled then 1 else 0) * piece.data.length) (c.extendTrigger cfg piece) := by
  unfold Connection.extendTrigger
  split
  · refine ⟨⟨rfl, rfl, rfl, rfl⟩, rfl, ?_, extendBounded_limit _ _ _⟩
    rw [Nat.one_mul]
    exact extendBounded_used_le _ _ _
  · exact ⟨Kept.refl c, rfl, Nat.le_add_right _ _, rfl⟩

theorem extendAudio_extended (cfg : Config) (c : Connection) (piece : Piece) :
    Extended c ((if cfg.audioBytesWebhookDelaySeconds.isSome then 1 else 0) * piece.data.length)
      (c.extendAudio cfg piece) := by
  unfold Connection.extendAudio
  split
  · refine ⟨⟨rfl, rfl, rfl, rfl⟩, rfl, ?_, extendBounded_limit _ _ _⟩
    rw [Nat.one_mul]
    exact extendBounded_used_le _ _ _
  · exact ⟨Kept.refl c, rfl, Nat.le_add_right _ _, rfl⟩

/-- Room for all copies leaves room for the private one. -/
theorem Fits.extend {piece : Piece} (fits : c.Fits cfg piece.data) :
    ((c.extendTrigger cfg piece).extendAudio cfg piece).audioBudget.used + piece.data.length ≤
      ((c.extendTrigger cfg piece).extendAudio cfg piece).audioBudget.limit := by
  have trigger := extendTrigger_extended cfg c piece
  have audio := extendAudio_extended cfg (c.extendTrigger cfg piece) piece
  rw [audio.limit, trigger.limit]
  have first := trigger.used
  have second := audio.used
  unfold Connection.Fits Config.copies at fits
  rw [Nat.add_mul, Nat.add_mul, Nat.one_mul] at fits
  omega

theorem Stamped.extendPrivate (h : c.Stamped) {piece : Piece}
    (admitted : c.privateCloudChunkStartTime = none →
      piece.data ≠ [] ∧ c.audioBudget.used + piece.data.length ≤ c.audioBudget.limit) :
    (c.extendPrivate piece).Stamped := by
  refine ⟨h.chunks, ?_⟩
  have start := h.start
  have time : (c.extendPrivate piece).privateCloudChunkStartTime = some (c.privateCloudChunkStartTime.getD piece.timestamp) := rfl
  have buffer : (c.extendPrivate piece).privateCloudSyncBuffer =
    (extendBounded c.privateCloudSyncBuffer piece c.audioBudget).1 := rfl
  rw [time, buffer]
  cases held : c.privateCloudSyncBuffer with
  | nil =>
      rw [held] at start
      obtain ⟨nonempty, fits⟩ := admitted start
      rw [start, extendBounded_admitted nonempty fits]
      rfl
  | cons first rest =>
      rw [held] at start
      rw [start]
      rcases extendBounded_cases (first :: rest) piece c.audioBudget with refused | ⟨_, extended⟩
      · rw [refused]
        rfl
      · rw [extended]
        rfl

theorem Stamped.receivePrivate (h : c.Stamped) {piece : Piece} (arriving : Arriving cfg piece c)
    (admitted : cfg.privateCloudSyncEnabled = true → c.conversation ≠ none → c.privateCloudChunkStartTime = none →
      piece.data ≠ [] ∧ c.audioBudget.used + piece.data.length ≤ c.audioBudget.limit) :
    (c.receivePrivate cfg piece).Stamped := by
  unfold Connection.receivePrivate
  split
  · rename_i id current
    split
    · rename_i enabled
      have extended := h.extendPrivate (admitted enabled (by rw [current]; simp))
      have traced := arriving.extendPrivate enabled current
      dsimp only
      split
      · rename_i full
        have positive : 0 < cfg.sampleRate * 2 * privateCloudChunkDuration := by
          have rate := cfg.sampleRateValid.1
          unfold minSampleRate at rate
          unfold privateCloudChunkDuration
          omega
        exact extended.queuePrivate traced.pieces (ne_nil_of_size (positive.trans_le full)) id rfl
      · exact extended
    · exact h
  · exact h

theorem Stamped.receiveAudio (h : c.Stamped) (traced : Traced cfg c) (timestamp : UInt64) {data : Bytes}
    (timely : cfg.privateCloudSyncEnabled = true → c.conversation ≠ none → c.privateCloudChunkStartTime = none →
      data ≠ [] ∧ c.Fits cfg data) :
    (c.receiveAudio cfg timestamp data).Stamped := by
  have arriving := (traced.arriving timestamp data).extendTrigger.extendAudio
  unfold Connection.receiveAudio
  dsimp only
  generalize logged : ({ c with received := c.received ++ [⟨c.currentConversationId, timestamp, data⟩] } : Connection) = l at arriving ⊢
  generalize piece : (⟨c.currentConversationId, timestamp, data⟩ : Piece) = p at arriving ⊢
  have trigger := extendTrigger_extended cfg l p
  have webhook := extendAudio_extended cfg (l.extendTrigger cfg p) p
  have kept := trigger.kept.trans webhook.kept
  have queue := webhook.queue.trans trigger.queue
  have extended : ((l.extendTrigger cfg p).extendAudio cfg p).Stamped := by
    refine ⟨?_, ?_⟩
    · rw [queue, ← logged]
      exact h.chunks
    · rw [kept.start, kept.buffer, ← logged]
      exact h.start
  have received := extended.receivePrivate arriving fun enabled current start => by
    have conversation : ((l.extendTrigger cfg p).extendAudio cfg p).conversation = c.conversation := by
      rw [Connection.conversation, kept.current, ← logged]
      rfl
    rw [conversation] at current
    rw [kept.start, ← logged] at start
    obtain ⟨nonempty, fits⟩ := timely enabled current start
    refine ⟨by rw [← piece]; exact nonempty, Fits.extend ?_⟩
    rw [← piece, ← logged]
    exact fits
  have queueTrigger : ∀ {d : Connection}, d.Stamped → (Connection.queueTrigger cfg d).Stamped := fun stamped => by
    unfold Connection.queueTrigger
    split
    · exact ⟨stamped.chunks, stamped.start⟩
    · exact stamped
  have queueWebhook : ∀ {d : Connection}, d.Stamped → (Connection.queueWebhook cfg d).Stamped := fun stamped => by
    unfold Connection.queueWebhook
    split
    · split
      · exact ⟨stamped.chunks, stamped.start⟩
      · exact stamped
    · exact stamped
  exact queueWebhook (queueTrigger received)

theorem Stamped.receive (h : c.Stamped) (traced : Traced cfg c) (clock : UInt64) {data : Bytes}
    (timely : (Event.frame clock data).Timely cfg c) : (c.receive cfg clock data).Stamped := by
  unfold Event.Timely at timely
  unfold Connection.receive
  revert timely
  dsimp only
  cases readFrame data with
  | none => exact fun after => h.finishReceiving traced after clock
  | some read =>
      cases read with
      | heartbeat => exact fun _ => h
      | conversation id => exact fun timely => h.receiveConversation traced timely clock
      | audio timestamp audio => exact fun timely => h.receiveAudio traced timestamp timely
      | transcript payload =>
          intro timely
          dsimp only at timely ⊢
          split
          · exact h
          · rename_i refused
            exact h.finishReceiving traced (timely.resolve_left refused) clock
      | processConversation payload =>
          intro timely
          dsimp only at timely ⊢
          split
          · exact h
          · rename_i refused
            exact h.finishReceiving traced (timely.resolve_left refused) clock
      | speakerSample payload =>
          intro timely
          dsimp only at timely ⊢
          split
          · exact h
          · rename_i refused
            exact h.finishReceiving traced (timely.resolve_left refused) clock

theorem Stamped.flushBatches (h : c.Stamped) (ids : List String) : (c.flushBatches ids).Stamped := by
  obtain ⟨pending, uploader, flushed, _⟩ := flushBatches_moves (c := c) ids
  rw [flushed]
  exact ⟨h.chunks, h.start⟩

theorem Stamped.processPrivateCloudQueue (h : c.Stamped) (counted : c.Accounted) (waiting : c.uploader = .waiting)
    (now : ℚ) : (c.processPrivateCloudQueue cfg now).Stamped := by
  have settled : { c with privateCloudQueue := c.privateCloudQueue }.Settled :=
    ⟨by rw [counted.used, held, waiting]; rfl, counted.limit, counted.distinct⟩
  obtain ⟨pending, budget, drained, _⟩ := drain_moves (c := c) c.privateCloudQueue now settled
  unfold Connection.processPrivateCloudQueue
  dsimp only
  rw [drained]
  apply Stamped.flushBatches
  exact ⟨fun _ inside => absurd inside List.not_mem_nil, h.start⟩

theorem Stamped.step {e : Event} (h : c.Stamped) (counted : c.Accounted) (traced : Traced cfg c)
    (timely : e.Timely cfg c) (step : Step cfg c e d) : d.Stamped := by
  obtain ⟨enabled, rfl⟩ := step
  cases e with
  | frame clock data => exact h.receive traced clock timely
  | finish clock => exact h.finishReceiving traced timely clock
  | deactivate => exact ⟨h.chunks, h.start⟩
  | round now => exact h.processPrivateCloudQueue counted enabled now
  | uploadSucceeded =>
      obtain ⟨id, batch, rest, uploading⟩ := enabled
      rw [Event.apply, Connection.uploadSucceeded, uploading]
      exact ⟨h.chunks, h.start⟩
  | uploadFailed now =>
      obtain ⟨id, batch, rest, uploading⟩ := enabled
      rw [Event.apply, Connection.uploadFailed, uploading]
      dsimp only
      split
      · apply Stamped.flushBatches
        exact ⟨h.chunks, h.start⟩
      · apply Stamped.flushBatches
        exact ⟨h.chunks, h.start⟩
  | recorded gone =>
      obtain ⟨id, batch, rest, recording⟩ := enabled
      rw [Event.apply, Connection.recorded, recording]
      apply Stamped.flushBatches
      exact ⟨h.chunks, h.start⟩
  | takeAudioBytes => exact ⟨h.chunks, h.start⟩
  | delivered =>
      rw [Event.apply, Connection.delivered]
      split
      · exact h
      · exact ⟨h.chunks, h.start⟩

end Stamping
end Connection

/-- The connections that a run of timely events reaches. -/
abbrev ReachedTimely (cfg : Config) : Connection → Prop :=
  Transition.Reachable (· = Connection.start) fun c e d => e.Timely cfg c ∧ Step cfg c e d

theorem ReachedTimely.reached {cfg : Config} {c : Connection} (reached : ReachedTimely cfg c) : Reached cfg c := by
  induction reached with
  | start initial => exact .start initial
  | next _ step ih => exact ih.next step.2

theorem ReachedTimely.stamped {cfg : Config} {c : Connection} (reached : ReachedTimely cfg c) : c.Stamped := by
  induction reached with
  | start initial =>
      rw [initial]
      exact Connection.stamped_start
  | next before step ih =>
      have reached := ReachedTimely.reached before
      exact ih.step reached.accounted reached.traced step.1 step.2

/-- The budget counts exactly what is held and stays within its limit, and what is uploaded for a
conversation is some of what was received while it was current, in order and at most once; in a run of timely
events every queued chunk carries the timestamp of the first frame in it. -/
theorem private_audio_accounted (cfg : Config) :
    (∀ c, Reached cfg c → c.audioBudget.used = c.held ∧ c.audioBudget.used ≤ bufferedAudioMaxBytes ∧
      ∀ id, (uploadedFor c.uploads id).Sublist (c.received.filter fun piece => decide (piece.conversation = some id))) ∧
    ∀ c, ReachedTimely cfg c → ∀ chunk ∈ c.privateCloudQueue, chunk.Stamped := by
  refine ⟨fun c reached => ?_, fun c reached => (ReachedTimely.stamped reached).chunks⟩
  have counted := Reached.accounted reached
  refine ⟨counted.used, counted.limit ▸ c.audioBudget.within, fun id => ?_⟩
  exact (List.sublist_append_left _ _).trans ((Reached.traced reached).trail id)

/-! ## A refused frame leaves its start time -/

open Connection

def sampleConfig : Config where
  sampleRate := 8000
  sampleRateValid := by decide
  hasAudioAppsEnabled := false
  audioBytesWebhookDelaySeconds := some 600
  privateCloudSyncEnabled := true
  payloadAccepted := fun _ => true

def sampleFrames (audio : Bytes) : List Event :=
  [.frame 9 (Frame.audio 1 audio).encode, .frame 9 (Frame.audio 2 audio).encode,
    .frame 9 (Frame.conversation "a").encode, .frame 9 (Frame.audio 5 [1]).encode, .takeAudioBytes, .delivered,
    .frame 9 (Frame.audio 6 [2]).encode, .frame 9 (Frame.conversation "b").encode]

theorem sampleFrames_end {audio : Bytes} (half : audio.length = 10 * 1024 * 1024) :
    ((sampleFrames audio).foldl (Event.apply sampleConfig) Connection.start).privateCloudQueue =
      [⟨[⟨some "a", 6, [2]⟩], "a", 5⟩] := by
  have nonempty : audio ≠ [] := List.ne_nil_of_length_pos (by rw [half]; decide)
  simp [sampleFrames, Event.apply, receive_encode, receiveAudio, receiveConversation, extendTrigger, extendAudio,
    receivePrivate, extendPrivate, queuePrivate, queueTrigger, queueWebhook, queueAudioBytes, takeAudioBytes, delivered,
    conversation, Option.filter_some, sampleConfig, Connection.start, extendBounded, appendBounded, ByteBudget.reserve,
    ByteBudget.release, Buffer.size, AudioBytesQueueItem.size, half, nonempty, audioBytesQueueWarnSize,
    bufferedAudioMaxBytes, privateCloudChunkDuration, privateCloudQueueMaxSize, startTimeOr, isZero]

theorem sampleFrames_reached {audio : Bytes} (half : audio.length = 10 * 1024 * 1024) :
    Reached sampleConfig ((sampleFrames audio).foldl (Event.apply sampleConfig) Connection.start) := by
  have nonempty : audio ≠ [] := List.ne_nil_of_length_pos (by rw [half]; decide)
  have next {c : Connection} (reached : Reached sampleConfig c) {e : Event} (enabled : e.Enabled c) :
      Reached sampleConfig (e.apply sampleConfig c) := reached.next ⟨enabled, rfl⟩
  unfold sampleFrames
  simp only [List.foldl_cons, List.foldl_nil]
  refine next (next (next (next (next (next (next (next (.start rfl) ?_) ?_) ?_) ?_) ?_) ?_) ?_) ?_ <;>
    simp [Event.Enabled, Event.apply, receive_encode, receiveAudio, receiveConversation, extendTrigger, extendAudio,
      receivePrivate, extendPrivate, queueTrigger, queueWebhook, queueAudioBytes, takeAudioBytes, delivered, conversation,
      Option.filter_some, sampleConfig, Connection.start, extendBounded, appendBounded, ByteBudget.reserve,
      ByteBudget.release, Buffer.size, AudioBytesQueueItem.size, half, nonempty, audioBytesQueueWarnSize,
      bufferedAudioMaxBytes, privateCloudChunkDuration]

/-- The webhook queue fills the budget, so the first frame of `a` is refused; once an item is delivered
the next one is admitted, and its chunk carries the time of the refused one. -/
theorem refused_start_time :
    Reached sampleConfig
        ((sampleFrames (List.replicate (10 * 1024 * 1024) 0)).foldl (Event.apply sampleConfig) Connection.start) ∧
      ((sampleFrames (List.replicate (10 * 1024 * 1024) 0)).foldl (Event.apply sampleConfig)
        Connection.start).privateCloudQueue = [⟨[⟨some "a", 6, [2]⟩], "a", 5⟩] ∧
      ¬PrivateCloudChunk.Stamped ⟨[⟨some "a", 6, [2]⟩], "a", 5⟩ := by
  refine ⟨sampleFrames_reached List.length_replicate, sampleFrames_end List.length_replicate, ?_⟩
  rintro ⟨first, rest, data, _, same⟩
  rw [← (List.cons.inj data).1] at same
  exact absurd same (by decide)

end OmiLocal.Pusher
