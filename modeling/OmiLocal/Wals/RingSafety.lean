import OmiLocal.Wals.RingSync
import OmiLocal.Wals.FlushSafety

/-!
# When the ring is advanced

The records are those of the bytes received, however these were cut into
notifications, and the chunks hold the frames of the records one after the
other. As long as no flush fails, a chunk begins 180 seconds after the one
before, so no two share a file. The decision comes behind the last flush, when
the stream is closed: the ring is advanced past what a complete notification of
success named, with every frame in a file by then.
-/
namespace OmiLocal.Wals.Ring
open Lib Lib.Framing Lib.Transition Lib.Blocks
open Phone (SessionLocation addExternalWal inheritLocation mem_addExternalWal)
open SdCard (sdcardChunkSizeSecs)

variable {x : RingWal}

theorem RingWal.fps_pos (x : RingWal) : 0 < x.fps := by
  unfold fps Phone.BleAudioCodec.getFramesPerSecond
  split <;> decide

theorem RingWal.chunkFrames_pos (x : RingWal) : 0 < x.chunkFrames := Nat.mul_pos (by decide) x.fps_pos

theorem RingWal.chunkFrames_seconds (x : RingWal) : x.chunkFrames / x.fps = sdcardChunkSizeSecs :=
  Nat.mul_div_cancel _ x.fps_pos

/-- The begin of the chunk with this number. -/
def startAt (first : Int) (number : Nat) : Int := first + (sdcardChunkSizeSecs * number : Nat)

theorem startAt_injective {first : Int} {i j : Nat} (same : startAt first i = startAt first j) : i = j := by
  unfold startAt sdcardChunkSizeSecs at same
  omega

theorem startAt_succ (first : Int) (i : Nat) : startAt first i + (sdcardChunkSizeSecs : Nat) = startAt first (i + 1) := by
  unfold startAt sdcardChunkSizeSecs
  omega

theorem fileName_injective {a b : Int} (same : x.getFileNameByTimeStarts a = x.getFileNameByTimeStarts b) : a = b :=
  Phone.getFileName_timerStart same

namespace RingSync
variable {s t : RingSync}

/-! ## The loop of a flush -/

theorem flushChunks_cases (x : RingWal) (s : RingSync) (finalFlush : Bool) :
    (∃ take, 0 < take ∧ take ≤ s.bytesData.length ∧
        (take = x.chunkFrames ∨ finalFlush = true ∧ take < x.chunkFrames ∧ take = s.bytesData.length) ∧
        s.flushChunks x finalFlush = s.takeChunk take) ∨
      ((finalFlush = true → s.bytesData = []) ∧ s.flushChunks x finalFlush = { s with flush := none }) := by
  unfold flushChunks
  split
  · rename_i full
    exact .inl ⟨_, x.chunkFrames_pos, full, .inl rfl, rfl⟩
  · rename_i short
    split
    · rename_i more
      exact .inl ⟨_, List.length_pos_iff.mpr more.2, Nat.le_refl _, .inr ⟨more.1, Nat.lt_of_not_le short, rfl⟩, rfl⟩
    · rename_i none
      exact .inr ⟨fun final => by_contra fun more => none ⟨final, more⟩, rfl⟩

/-- The drained records add their frames; the first of all sets the time. -/
theorem takeRecords_spec (x : RingWal) (nowSeconds : Int) (s : RingSync) (records : List Bytes) :
    ∃ first clock, records.foldl (fun (s : RingSync) record => s.takeRecord x nowSeconds record) s =
        { s with
          bytesData := s.bytesData ++ records.flatMap recordFrames
          records := s.records ++ records
          firstRecordTs := first
          chunkTimerStart := clock } ∧
      ((first = s.firstRecordTs ∧ clock = s.chunkTimerStart ∧ (s.firstRecordTs = none → records = [])) ∨
        (s.firstRecordTs = none ∧ first = some clock)) := by
  induction records generalizing s with
  | nil => exact ⟨s.firstRecordTs, s.chunkTimerStart, by simp, .inl ⟨rfl, rfl, fun _ => rfl⟩⟩
  | cons record records ih =>
      obtain ⟨first, clock, taken, times⟩ := ih (s.takeRecord x nowSeconds record)
      refine ⟨first, clock, ?_, ?_⟩
      · rw [List.foldl_cons, taken]
        unfold takeRecord anchor
        cases s.firstRecordTs <;> simp
      · unfold takeRecord anchor at times
        cases known : s.firstRecordTs with
        | some ts =>
            rw [known] at times
            rcases times with ⟨same, still, -⟩ | ⟨absent, -⟩
            · exact .inl ⟨same.trans known, still, fun absent => by cases absent⟩
            · exact absurd (known.symm.trans absent) (by simp)
        | none =>
            rw [known] at times
            rcases times with ⟨same, still, -⟩ | ⟨absent, -⟩
            · exact .inr ⟨rfl, by rw [same, still]⟩
            · cases absent

/-- What a data notification does before a flush may begin. -/
theorem receiveData_cases (x : RingWal) (nowSeconds : Int) (s : RingSync) (payload : Bytes) :
    ∃ first clock, ((first = s.firstRecordTs ∧ clock = s.chunkTimerStart ∧
          (s.firstRecordTs = none → (drain RingProtocol.recordSize (s.buffer ++ payload)).1 = [])) ∨
        (s.firstRecordTs = none ∧ first = some clock)) ∧
      ∃ t, t = { s with
          buffer := (drain RingProtocol.recordSize (s.buffer ++ payload)).2
          received := s.received ++ payload
          bytesData := s.bytesData ++ (drain RingProtocol.recordSize (s.buffer ++ payload)).1.flatMap recordFrames
          records := s.records ++ (drain RingProtocol.recordSize (s.buffer ++ payload)).1
          firstRecordTs := first
          chunkTimerStart := clock } ∧
        (s.receiveData x nowSeconds payload = t ∨
          (t.flush = none ∧ s.receiveData x nowSeconds payload = t.flushChunks x false)) := by
  obtain ⟨first, clock, taken, times⟩ := takeRecords_spec x nowSeconds
    { s with buffer := (drain RingProtocol.recordSize (s.buffer ++ payload)).2, received := s.received ++ payload }
    (drain RingProtocol.recordSize (s.buffer ++ payload)).1
  refine ⟨first, clock, times, _, rfl, ?_⟩
  unfold receiveData
  dsimp only
  rw [taken]
  split
  · rename_i begins
    exact .inr ⟨Option.isNone_iff_eq_none.mp begins.1, rfl⟩
  · exact .inl rfl

/-! ## The frames -/

/-- The chunks taken so far, with the one whose flush goes on. -/
def taken (s : RingSync) : List Chunk := s.chunks ++ (s.flush.map Flush.chunk).toList

/-- The bytes received, cut into records, and their frames, cut into chunks. -/
structure Stream (s : RingSync) : Prop where
  cut : Drained RingProtocol.recordSize s.received s.records s.buffer
  frames : s.taken.flatMap Chunk.frames ++ s.bytesData = s.records.flatMap recordFrames
  unanchored : s.firstRecordTs = none → s.records = []

theorem Stream.untaken (h : s.Stream) (absent : s.firstRecordTs = none) : s.bytesData = [] := by
  have frames := h.frames
  rw [h.unanchored absent, List.flatMap_nil] at frames
  exact (List.append_eq_nil_iff.mp frames).2

/-- Only these six say what was received and where it is. -/
theorem Stream.same (h : s.Stream) (received : t.received = s.received) (records : t.records = s.records)
    (buffer : t.buffer = s.buffer) (taken : t.taken = s.taken) (bytesData : t.bytesData = s.bytesData)
    (first : t.firstRecordTs = s.firstRecordTs) : t.Stream := by
  obtain ⟨cut, frames, unanchored⟩ := h
  refine ⟨?_, ?_, ?_⟩
  · rw [received, records, buffer]
    exact cut
  · rw [taken, bytesData, records]
    exact frames
  · rw [first, records]
    exact unanchored

/-- A loop that begins behind a flush takes the next frames. -/
theorem Stream.flushChunks (h : { s with flush := none }.Stream) (x : RingWal) (finalFlush : Bool) :
    (s.flushChunks x finalFlush).Stream := by
  rcases flushChunks_cases x s finalFlush with ⟨take, -, -, -, took⟩ | ⟨-, ended⟩
  · rw [took]
    refine ⟨h.cut, ?_, h.unanchored⟩
    have frames := h.frames
    simp only [RingSync.taken, takeChunk, Option.map_none, Option.toList_none, List.append_nil] at frames ⊢
    rw [← frames]
    simp only [Option.map_some, Option.toList_some, List.flatMap_append, List.flatMap_singleton, Flush.chunk, List.append_assoc,
      List.take_append_drop]
  · rw [ended]
    exact h

theorem taken_idle (idle : s.flush = none) : s.taken = s.chunks := by
  rw [taken, idle]
  exact List.append_nil _

theorem Stream.receiveData (h : s.Stream) (nowSeconds : Int) (payload : Bytes) : (s.receiveData x nowSeconds payload).Stream := by
  obtain ⟨first, clock, times, t, same, begins⟩ := receiveData_cases x nowSeconds s payload
  have positive : 0 < RingProtocol.recordSize := by decide
  have stream : t.Stream := by
    rw [same]
    refine ⟨?_, ?_, fun absent => ?_⟩
    · dsimp only
      have joined := drain_append positive s.received payload
      rw [h.cut.drain_eq] at joined
      have drained := drain_drained positive (s.received ++ payload)
      rw [joined] at drained
      exact drained
    · have frames := h.frames
      simp only [RingSync.taken] at frames ⊢
      rw [← List.append_assoc, frames, List.flatMap_append]
    · rcases times with ⟨still, -, nothing⟩ | ⟨-, set⟩
      · have absent : s.firstRecordTs = none := still.symm.trans absent
        dsimp only
        rw [h.unanchored absent, nothing absent, List.append_nil]
      · rw [set] at absent
        cases absent
  rcases begins with rest | ⟨idle, begins⟩
  · rw [rest]
    exact stream
  · rw [begins]
    refine Stream.flushChunks (stream.same rfl rfl rfl ?_ rfl rfl) x false
    rw [taken_idle rfl, taken_idle idle]

/-! ## The end of a flush -/

theorem decideAdvance_cases (s : RingSync) (reachedDone : Bool) :
    s.decideAdvance reachedDone = { s with main := .skipped } ∨
      ∃ n, s.doneNextSeq = some n ∧ reachedDone = true ∧ s.doneOk = true ∧ s.flushError = false ∧ s.isCancelled = false ∧
        s.decideAdvance reachedDone = { s with main := .advancing n } := by
  unfold decideAdvance
  cases named : s.doneNextSeq with
  | none => exact .inl rfl
  | some n =>
      dsimp only
      split
      · rename_i whole
        obtain ⟨reached, ok, clean, going⟩ := whole
        exact .inr ⟨n, rfl, reached, ok, Bool.eq_false_iff.mpr clean, Bool.eq_false_iff.mpr going, rfl⟩
      · exact .inl rfl

/-- Behind a flush the state is the same, or the main task has decided. -/
theorem afterFlush_cases (s : RingSync) :
    (s.afterFlush = s ∧ ∀ reachedDone, s.main = .flushing reachedDone → s.flush ≠ none) ∨
      ∃ reachedDone, s.main = .flushing reachedDone ∧ s.flush = none ∧ s.afterFlush = s.decideAdvance reachedDone := by
  unfold afterFlush
  split
  · rename_i reachedDone here idle
    exact .inr ⟨reachedDone, here, idle, rfl⟩
  · rename_i other
    exact .inl ⟨rfl, fun reachedDone here idle => other reachedDone here idle⟩

theorem Stream.afterFlush (h : s.Stream) : s.afterFlush.Stream := by
  rcases afterFlush_cases s with ⟨same, -⟩ | ⟨reachedDone, -, -, decides⟩
  · rw [same]
    exact h
  · rw [decides]
    rcases decideAdvance_cases s reachedDone with skips | ⟨n, -, -, -, -, -, advances⟩
    · rw [skips]
      exact h.same rfl rfl rfl rfl rfl rfl
    · rw [advances]
      exact h.same rfl rfl rfl rfl rfl rfl

/-- A flush that ends moves its chunk to those that are done. -/
theorem Stream.ended (h : s.Stream) {flush : Flush} (going : s.flush = some flush) {chunk : Chunk}
    (same : chunk.frames = flush.chunk.frames) : { s with chunks := s.chunks ++ [chunk], flush := none }.Stream := by
  refine ⟨h.cut, ?_, h.unanchored⟩
  have frames := h.frames
  simp only [RingSync.taken, going, Option.map_some, Option.toList_some, Option.map_none, Option.toList_none,
    List.append_nil, List.flatMap_append, List.flatMap_singleton] at frames ⊢
  rw [same]
  exact frames

theorem Stream.flushFailed (h : s.Stream) {flush : Flush} (going : s.flush = some flush) :
    (s.flushFailed flush.chunk).Stream := by
  unfold RingSync.flushFailed
  apply Stream.afterFlush
  split
  · exact (h.ended going rfl).same rfl rfl rfl rfl rfl rfl
  · exact (h.ended going rfl).same rfl rfl rfl rfl rfl rfl

theorem Stream.act (h : s.Stream) {a : Action} (done : s.act x a = some t) : t.Stream := by
  cases a with
  | notification nowSeconds value =>
      simp only [RingSync.act] at done
      split at done
      · cases done
        unfold onStorageBytesReceived
        split
        · exact h
        · split
          · exact h.same rfl rfl rfl rfl rfl rfl
          · split
            · exact h
            · split
              · split <;> exact h.same rfl rfl rfl rfl rfl rfl
              · split
                · have heard : { s with firstDataReceived := true }.Stream := h.same rfl rfl rfl rfl rfl rfl
                  exact heard.receiveData nowSeconds _
                · split
                  · exact h.same rfl rfl rfl rfl rfl rfl
                  · exact h
      · cases done
  | streamClosed =>
      simp only [RingSync.act] at done
      split at done
      · cases done
        exact h.same rfl rfl rfl rfl rfl rfl
      · cases done
  | firstDataTimeout =>
      simp only [RingSync.act] at done
      split at done
      · cases done
        exact h.same rfl rfl rfl rfl rfl rfl
      · cases done
  | cancelSync =>
      cases done
      exact h.same rfl rfl rfl rfl rfl rfl
  | foreignWal wal =>
      cases done
      exact h.same rfl rfl rfl rfl rfl rfl
  | written written =>
      simp only [RingSync.act] at done
      split at done
      · rename_i chunk going
        cases done
        cases written with
        | failed left =>
            cases left with
            | none => exact h.flushFailed going
            | some kept =>
                have wrote : (s.writeFile x chunk kept).Stream := h.same rfl rfl rfl rfl rfl rfl
                exact wrote.flushFailed going
        | whole =>
            refine ⟨h.cut, ?_, h.unanchored⟩
            have frames := h.frames
            simp only [RingSync.taken, going, chunkWritten, registerWithLocalSync, writeFile, Option.map_some,
              Option.toList_some, List.flatMap_append, List.flatMap_singleton, Flush.chunk] at frames ⊢
            exact frames
      · cases done
  | registered listSaved =>
      simp only [RingSync.act] at done
      split at done
      · rename_i chunk going
        cases done
        split
        · have ended : { s with chunks := s.chunks ++ [chunk], flush := none }.Stream := h.ended going rfl
          apply Stream.afterFlush
          apply Stream.flushChunks
          exact ended.same rfl rfl rfl rfl rfl rfl
        · exact h.flushFailed going
      · cases done
  | readSent ok =>
      simp only [RingSync.act] at done
      split at done
      · cases done
        split <;> exact h.same rfl rfl rfl rfl rfl rfl
      · cases done
  | completed =>
      simp only [RingSync.act] at done
      split at done
      · cases done
        exact h.same rfl rfl rfl rfl rfl rfl
      · cases done
  | overallTimeout =>
      simp only [RingSync.act] at done
      split at done
      · cases done
        exact h.same rfl rfl rfl rfl rfl rfl
      · cases done
  | unsubscribed =>
      simp only [RingSync.act] at done
      split at done
      · cases done
        exact h.same rfl rfl rfl rfl rfl rfl
      · cases done
  | settled =>
      simp only [RingSync.act] at done
      split at done
      · rename_i reachedDone here idle
        cases done
        apply Stream.afterFlush
        apply Stream.flushChunks
        refine h.same rfl rfl rfl ?_ rfl rfl
        rw [taken_idle rfl, taken_idle idle]
      · cases done

/-! ## The decision -/

def Decided (s : RingSync) : Prop := s.main = .skipped ∨ ∃ n, s.main = .advancing n

/-- What the main task knows where it stands. -/
structure Control (s : RingSync) : Prop where
  answer : s.completer = some true → ∃ value done, s.answer = some value ∧ parseDoneNotification value = some done ∧
    s.doneNextSeq = some done.nextSeq ∧ s.doneOk = done.isOk
  reached : s.main = .stopping true ∨ s.main = .settling true ∨ s.main = .flushing true → s.completer = some true
  closed : ∀ r, s.main = .settling r ∨ s.main = .flushing r → s.subscribed = false
  drained : ∀ r, s.main = .flushing r → s.flush = none → s.flushError = true ∨ s.bytesData = []
  decided : s.Decided → s.subscribed = false ∧ s.flush = none
  advanced : ∀ n, s.main = .advancing n →
    s.flushError = false ∧ s.bytesData = [] ∧ s.completer = some true ∧ s.doneOk = true ∧ s.doneNextSeq = some n

theorem Control.undecided (h : s.Control) (listening : s.subscribed = true) : ¬s.Decided := by
  intro decided
  rw [(h.decided decided).1] at listening
  cases listening

theorem Control.unsettled (h : s.Control) (listening : s.subscribed = true) (r : Bool) :
    s.main ≠ .settling r ∧ s.main ≠ .flushing r := by
  constructor
  · intro here
    rw [h.closed r (.inl here)] at listening
    cases listening
  · intro here
    rw [h.closed r (.inr here)] at listening
    cases listening

/-- Only these say where the main task stands and what it knows. -/
theorem Control.same (h : s.Control) (main : t.main = s.main) (completer : t.completer = s.completer) (answer : t.answer = s.answer)
    (next : t.doneNextSeq = s.doneNextSeq) (ok : t.doneOk = s.doneOk) (error : t.flushError = s.flushError)
    (subscribed : s.subscribed = false → t.subscribed = false) (bytesData : t.bytesData = s.bytesData)
    (flush : t.flush = none ↔ s.flush = none) : t.Control where
  answer := by
    rw [completer, answer, next, ok]
    exact h.answer
  reached := by
    rw [main, completer]
    exact h.reached
  closed r := by
    rw [main]
    exact fun here => subscribed (h.closed r here)
  drained r := by
    rw [main, error, bytesData, flush]
    exact h.drained r
  decided := by
    unfold Decided
    rw [main]
    intro here
    obtain ⟨deaf, idle⟩ := h.decided here
    exact ⟨subscribed deaf, flush.mpr idle⟩
  advanced n := by
    rw [main, error, bytesData, completer, ok, next]
    exact h.advanced n

/-- While the stream is listened to, only the answer matters. -/
theorem Control.listening (h : s.Control) (listening : s.subscribed = true) (main : t.main = s.main)
    (completer : s.completer = none → t.completer = some true → ∃ value done, t.answer = some value ∧
      parseDoneNotification value = some done ∧ t.doneNextSeq = some done.nextSeq ∧ t.doneOk = done.isOk)
    (waiting : s.completer = none) : t.Control where
  answer := completer waiting
  reached := by
    rw [main]
    intro here
    have answered := h.reached here
    rw [waiting] at answered
    cases answered
  closed r := by
    rw [main]
    intro here
    obtain ⟨unsettled, unflushed⟩ := h.unsettled listening r
    exact absurd here (not_or.mpr ⟨unsettled, unflushed⟩)
  drained r := by
    rw [main]
    intro here
    exact absurd here (h.unsettled listening r).2
  decided := by
    unfold Decided
    rw [main]
    intro here
    exact absurd here (h.undecided listening)
  advanced n := by
    rw [main]
    intro here
    exact absurd (.inr ⟨n, here⟩) (h.undecided listening)

theorem Control.complete (h : s.Control) : (s.complete false).Control where
  answer := by
    intro answered
    unfold RingSync.complete at answered
    cases known : s.completer with
    | none =>
        rw [known] at answered
        cases answered
    | some answer =>
        rw [known] at answered
        exact h.answer (known.trans answered)
  reached here := by
    unfold RingSync.complete
    rw [h.reached here]
    rfl
  closed := h.closed
  drained := h.drained
  decided := h.decided
  advanced n here := by
    obtain ⟨clean, nothing, answered, ok, named⟩ := h.advanced n here
    refine ⟨clean, nothing, ?_, ok, named⟩
    unfold RingSync.complete
    rw [answered]
    rfl

/-- Before the stream is closed the main task knows nothing. -/
theorem Control.early (h : s.Control) {subscribed : Bool} {main : Main}
    (early : main = .waiting ∨ main = .threw ∨ main = .stopping false) : { s with main, subscribed }.Control := by
  rcases early with rfl | rfl | rfl
  all_goals
    refine ⟨h.answer, ?_, ?_, ?_, ?_, ?_⟩
    · rintro (other | other | other) <;> cases other
    · rintro r (other | other) <;> cases other
    · rintro r ⟨⟩
    · rintro (other | ⟨n, other⟩) <;> cases other
    · rintro n ⟨⟩

theorem Control.afterFlush (h : s.Control) : s.afterFlush.Control := by
  rcases afterFlush_cases s with ⟨same, -⟩ | ⟨reachedDone, here, idle, decides⟩
  · rw [same]
    exact h
  · have deaf := h.closed reachedDone (.inr here)
    rw [decides]
    rcases decideAdvance_cases s reachedDone with skips | ⟨n, named, whole, ok, clean, -, advances⟩
    · rw [skips]
      refine ⟨h.answer, ?_, ?_, ?_, fun _ => ⟨deaf, idle⟩, ?_⟩
      · rintro (other | other | other) <;> cases other
      · rintro r (other | other) <;> cases other
      · rintro r ⟨⟩
      · rintro n ⟨⟩
    · rw [advances]
      refine ⟨h.answer, ?_, ?_, ?_, fun _ => ⟨deaf, idle⟩, ?_⟩
      · rintro (other | other | other) <;> cases other
      · rintro r (other | other) <;> cases other
      · rintro r ⟨⟩
      · rintro m advancing
        cases advancing
        have nothing := (h.drained reachedDone here idle).resolve_left (by rw [clean]; decide)
        exact ⟨clean, nothing, h.reached (.inr (.inr (by rw [here, whole]))), ok, named⟩

theorem Control.flushFailed (h : s.Control) (going : s.flush ≠ none) (chunk : Chunk) : (s.flushFailed chunk).Control := by
  have failed : { s with flushError := true, flush := none, chunks := s.chunks ++ [chunk] }.Control := by
    have undecided : ¬s.Decided := fun here => going (h.decided here).2
    exact ⟨h.answer, h.reached, h.closed, fun _ _ _ => .inl rfl, fun here => absurd here undecided,
      fun n here => absurd (.inr ⟨n, here⟩) undecided⟩
  unfold RingSync.flushFailed
  apply Control.afterFlush
  split
  · exact failed
  · exact failed.complete

/-- The last flush takes everything that is left. -/
theorem Control.flushChunks (h : s.Control) (undecided : ¬s.Decided) (x : RingWal) (finalFlush : Bool)
    (final : ∀ r, s.main = .flushing r → finalFlush = true) : (s.flushChunks x finalFlush).Control := by
  rcases flushChunks_cases x s finalFlush with ⟨take, -, -, -, took⟩ | ⟨nothing, ended⟩
  · rw [took]
    exact ⟨h.answer, h.reached, h.closed, fun _ _ idle => (by cases idle), fun here => absurd here undecided,
      fun n here => absurd (.inr ⟨n, here⟩) undecided⟩
  · rw [ended]
    exact ⟨h.answer, h.reached, h.closed, fun r here _ => .inr (nothing (final r here)), fun here => absurd here undecided,
      fun n here => absurd (.inr ⟨n, here⟩) undecided⟩

theorem receiveData_control (x : RingWal) (nowSeconds : Int) (s : RingSync) (payload : Bytes) :
    (s.receiveData x nowSeconds payload).main = s.main ∧ (s.receiveData x nowSeconds payload).completer = s.completer := by
  obtain ⟨first, clock, -, t, same, rest | ⟨-, begins⟩⟩ := receiveData_cases x nowSeconds s payload
  · rw [rest, same]
    exact ⟨rfl, rfl⟩
  · rw [begins]
    rcases flushChunks_cases x t false with ⟨take, -, -, -, took⟩ | ⟨-, ended⟩
    · rw [took, same]
      exact ⟨rfl, rfl⟩
    · rw [ended, same]
      exact ⟨rfl, rfl⟩

theorem Control.notification (h : s.Control) (listening : s.subscribed = true) (nowSeconds : Int) (value : Bytes) :
    (s.onStorageBytesReceived x nowSeconds value).Control := by
  unfold onStorageBytesReceived
  split
  · exact h
  · rename_i open_
    have waiting : s.completer = none := by simpa using open_
    have unanswered : ∀ {u : RingSync}, u.main = s.main → u.completer = none → u.Control := by
      intro u main none
      refine h.listening listening main (fun _ answered => ?_) waiting
      rw [none] at answered
      cases answered
    split
    · exact h.complete
    · split
      · exact h
      · split
        · split
          · exact h.complete
          · rename_i done parsed
            exact h.listening listening rfl (fun _ _ => ⟨_, done, rfl, parsed, rfl, rfl⟩) waiting
        · split
          · obtain ⟨main, completer⟩ := receiveData_control x nowSeconds { s with firstDataReceived := true } ‹_›
            exact unanswered main (completer.trans waiting)
          · split
            · exact unanswered rfl waiting
            · exact h

theorem Control.act (h : s.Control) {a : Action} (done : s.act x a = some t) : t.Control := by
  cases a with
  | notification nowSeconds value =>
      simp only [RingSync.act] at done
      split at done
      · rename_i listening
        cases done
        exact h.notification listening nowSeconds value
      · cases done
  | streamClosed =>
      simp only [RingSync.act] at done
      split at done
      · cases done
        have closed : { s with subscribed := false }.Control := h.same rfl rfl rfl rfl rfl rfl (fun _ => rfl) rfl Iff.rfl
        exact closed.complete
      · cases done
  | firstDataTimeout =>
      simp only [RingSync.act] at done
      split at done
      · cases done
        exact h.complete
      · cases done
  | cancelSync =>
      cases done
      exact h.same rfl rfl rfl rfl rfl rfl (fun _ => rfl) rfl Iff.rfl
  | foreignWal wal =>
      cases done
      exact h.same rfl rfl rfl rfl rfl rfl id rfl Iff.rfl
  | written written =>
      simp only [RingSync.act] at done
      split at done
      · rename_i chunk going
        cases done
        have busy : s.flush ≠ none := by simp [going]
        cases written with
        | failed left =>
            cases left with
            | none => exact h.flushFailed busy chunk
            | some kept =>
                have wrote : (s.writeFile x chunk kept).Control := h.same rfl rfl rfl rfl rfl rfl id rfl Iff.rfl
                exact wrote.flushFailed busy chunk
        | whole =>
            refine h.same rfl rfl rfl rfl rfl rfl id rfl ?_
            rw [going]
            exact iff_of_false (by simp [chunkWritten, registerWithLocalSync]) (by simp)
      · cases done
  | registered listSaved =>
      simp only [RingSync.act] at done
      split at done
      · rename_i chunk going
        cases done
        have busy : s.flush ≠ none := by simp [going]
        split
        · apply Control.afterFlush
          apply Control.flushChunks
          · exact h.same rfl rfl rfl rfl rfl rfl id rfl Iff.rfl
          · exact fun here => busy (h.decided here).2
          · intro r here
            have here : s.main = .flushing r := here
            simp only [isFinal, here]
        · exact h.flushFailed busy chunk
      · cases done
  | readSent ok =>
      simp only [RingSync.act] at done
      split at done
      · cases done
        split
        · exact h.early (.inl rfl)
        · exact h.early (.inr (.inl rfl))
      · cases done
  | completed =>
      simp only [RingSync.act] at done
      split at done
      · rename_i answer here answered
        cases done
        refine ⟨h.answer, ?_, ?_, ?_, ?_, ?_⟩
        · rintro (same | other | other)
          · cases same
            exact answered
          · cases other
          · cases other
        · rintro r (other | other) <;> cases other
        · rintro r ⟨⟩
        · rintro (other | ⟨n, other⟩) <;> cases other
        · rintro n ⟨⟩
      · cases done
  | overallTimeout =>
      simp only [RingSync.act] at done
      split at done
      · cases done
        exact h.early (.inr (.inr rfl))
      · cases done
  | unsubscribed =>
      simp only [RingSync.act] at done
      split at done
      · rename_i reachedDone here
        cases done
        refine ⟨h.answer, ?_, fun _ _ => rfl, ?_, ?_, ?_⟩
        · rintro (other | same | other)
          · cases other
          · cases same
            exact h.reached (.inl here)
          · cases other
        · rintro r ⟨⟩
        · rintro (other | ⟨n, other⟩) <;> cases other
        · rintro n ⟨⟩
      · cases done
  | settled =>
      simp only [RingSync.act] at done
      split at done
      · rename_i reachedDone here idle
        cases done
        have deaf := h.closed reachedDone (.inl here)
        apply Control.afterFlush
        rcases flushChunks_cases x { s with main := .flushing reachedDone } true with ⟨take, -, -, -, took⟩ | ⟨nothing, ended⟩
        · rw [took]
          refine ⟨h.answer, ?_, fun _ _ => deaf, fun _ _ idle => (by cases idle), ?_, ?_⟩
          · rintro (other | other | same)
            · cases other
            · cases other
            · cases same
              exact h.reached (.inr (.inl here))
          · rintro (other | ⟨n, other⟩) <;> cases other
          · rintro n ⟨⟩
        · rw [ended]
          refine ⟨h.answer, ?_, fun _ _ => deaf, fun _ _ _ => .inr (nothing rfl), ?_, ?_⟩
          · rintro (other | other | same)
            · cases other
            · cases other
            · cases same
              exact h.reached (.inr (.inl here))
          · rintro (other | ⟨n, other⟩) <;> cases other
          · rintro n ⟨⟩
      · cases done

/-! ## Times and files -/

/-- The whole chunk is in its file, and the file has an entry, unless there is no list of recordings or the id was taken. -/
def Stored (x : RingWal) (s : RingSync) (chunk : Chunk) : Prop :=
  Dict.get s.files (x.getFileNameByTimeStarts chunk.timerStart) = some (flushToDisk chunk.frames) ∧
    if chunk.registered then inheritLocation x.sessionLocation (chunkWal x chunk.timerStart chunk) ∈ s.wals
    else x.localSync = false ∨ ∃ w ∈ s.wals, w.id = (chunkWal x chunk.timerStart chunk).id

theorem Stored.later {chunk : Chunk} (h : s.Stored x chunk)
    (file : Dict.get t.files (x.getFileNameByTimeStarts chunk.timerStart) =
      Dict.get s.files (x.getFileNameByTimeStarts chunk.timerStart))
    (wals : ∀ w ∈ s.wals, w ∈ t.wals) : t.Stored x chunk := by
  obtain ⟨content, entry⟩ := h
  refine ⟨file.trans content, ?_⟩
  split
  · rename_i added
    rw [if_pos added] at entry
    exact wals _ entry
  · rename_i skipped
    rw [if_neg skipped] at entry
    exact entry.imp id fun ⟨w, member, same⟩ => ⟨w, wals w member, same⟩

def Last (s : RingSync) : Prop := ∃ r, s.main = .flushing r

/-- The main task is at its last flush or behind it. -/
def Ending (s : RingSync) : Prop := s.Last ∨ s.Decided

def AllFull (x : RingWal) (s : RingSync) : Prop := ∀ chunk ∈ s.chunks, chunk.frames.length = x.chunkFrames

/-- The chunks while no flush has failed: `first` is the time of the first record. Only the last of all may be short. -/
structure Punctual (x : RingWal) (s : RingSync) (first : Int) : Prop where
  starts : ∀ i chunk, s.taken[i]? = some chunk → chunk.timerStart = startAt first i
  clock : s.AllFull x → s.chunkTimerStart = startAt first s.chunks.length
  full : s.AllFull x ∨ s.Ending ∧ s.flush = none ∧ s.bytesData = []
  fullBut : ∀ chunk ∈ s.chunks.dropLast, chunk.frames.length = x.chunkFrames
  part : ∀ flush, s.flush = some flush →
    flush.chunk.frames.length = x.chunkFrames ∨ flush.chunk.frames.length < x.chunkFrames ∧ s.bytesData = [] ∧ s.Last
  frames : ∀ chunk ∈ s.taken, chunk.frames ≠ []
  short : ∀ chunk ∈ s.chunks, chunk.frames.length ≤ x.chunkFrames
  stored : ∀ chunk ∈ s.chunks, s.Stored x chunk
  storing : ∀ chunk, s.flush = some (.registering chunk) → s.Stored x chunk

/-- While a flush goes on, every chunk before it is full. -/
theorem Punctual.allFull {first : Int} (h : s.Punctual x first) (going : s.flush ≠ none) : s.AllFull x :=
  h.full.resolve_right fun ⟨_, idle, _⟩ => going idle

theorem getElem?_snoc {l : List Chunk} {a b : Chunk} {i : Nat} (here : (l ++ [a])[i]? = some b) :
    l[i]? = some b ∨ i = l.length ∧ b = a := by
  rcases Nat.lt_or_ge i l.length with inside | outside
  · rw [List.getElem?_append_left inside] at here
    exact .inl here
  · rw [List.getElem?_append_right outside, List.getElem?_singleton] at here
    split at here
    · rename_i atEnd
      exact .inr ⟨Nat.le_antisymm (Nat.sub_eq_zero_iff_le.mp atEnd) outside, (Option.some.inj here).symm⟩
    · cases here

/-- Only these say which chunks there are, and where they are. -/
theorem Punctual.same {first : Int} (h : s.Punctual x first) (chunks : t.chunks = s.chunks) (flush : t.flush = s.flush)
    (bytesData : t.bytesData = s.bytesData) (clock : t.chunkTimerStart = s.chunkTimerStart) (files : t.files = s.files)
    (wals : ∀ w ∈ s.wals, w ∈ t.wals) (ending : s.Ending → t.Ending) (last : s.flush ≠ none → s.Last → t.Last) :
    t.Punctual x first where
  starts := by
    unfold taken
    rw [chunks, flush]
    exact h.starts
  clock := by
    unfold AllFull
    rw [chunks, clock]
    exact h.clock
  full := by
    unfold AllFull
    rw [chunks, flush, bytesData]
    exact h.full.imp id fun ⟨here, idle, nothing⟩ => ⟨ending here, idle, nothing⟩
  fullBut := by
    rw [chunks]
    exact h.fullBut
  part f going := by
    rw [flush] at going
    rw [bytesData]
    refine (h.part f going).imp id fun ⟨shorter, nothing, here⟩ => ⟨shorter, nothing, last ?_ here⟩
    rw [going]
    exact Option.some_ne_none f
  frames := by
    unfold taken
    rw [chunks, flush]
    exact h.frames
  short := by
    rw [chunks]
    exact h.short
  stored := by
    rw [chunks]
    exact fun chunk member => (h.stored chunk member).later (by rw [files]) wals
  storing chunk going := by
    rw [flush] at going
    exact (h.storing chunk going).later (by rw [files]) wals

/-- The next chunk begins where the clock stands. -/
theorem Punctual.flushChunks {first : Int} (h : { s with flush := none }.Punctual x first) (full : s.AllFull x) {finalFlush : Bool}
    (final : finalFlush = true → s.Last) : (s.flushChunks x finalFlush).Punctual x first := by
  rcases flushChunks_cases x s finalFlush with ⟨take, positive, fits, width, took⟩ | ⟨-, ended⟩
  · have size : (s.bytesData.take take).length = take := List.length_take_of_le fits
    have earlier : ∀ i chunk, s.chunks[i]? = some chunk → chunk.timerStart = startAt first i := by
      have starts := h.starts
      rw [taken_idle rfl] at starts
      exact starts
    rw [took]
    refine ⟨fun i chunk here => ?_, h.clock, .inl full, h.fullBut, ?_, fun chunk member => ?_, h.short,
      fun chunk member => (h.stored chunk member).later rfl fun _ => id, fun chunk going => by cases going⟩
    · rcases getElem?_snoc here with before | ⟨rfl, rfl⟩
      · exact earlier i chunk before
      · exact h.clock full
    · rintro flush ⟨⟩
      rcases width with whole | ⟨isLast, short, all⟩
      · exact .inl (size.trans whole)
      · refine .inr ⟨lt_of_eq_of_lt size short, ?_, final isLast⟩
        change s.bytesData.drop take = []
        rw [all, List.drop_length]
    · rcases List.mem_append.mp member with before | now
      · refine h.frames chunk ?_
        rw [taken_idle rfl]
        exact before
      · obtain rfl := List.mem_singleton.mp now
        apply List.ne_nil_of_length_pos
        change 0 < (s.bytesData.take take).length
        rw [size]
        exact positive
  · rw [ended]
    exact h

/-- Behind a last flush that has ended the main task only decides. -/
theorem Punctual.afterFlush {first : Int} (h : s.Punctual x first) : s.afterFlush.Punctual x first := by
  rcases afterFlush_cases s with ⟨same, -⟩ | ⟨reachedDone, here, idle, decides⟩
  · rw [same]
    exact h
  · rw [decides]
    rcases decideAdvance_cases s reachedDone with skips | ⟨n, -, -, -, -, -, advances⟩
    · rw [skips]
      exact h.same rfl rfl rfl rfl rfl (fun _ => id) (fun _ => .inr (.inl rfl)) (fun going => absurd idle going)
    · rw [advances]
      exact h.same rfl rfl rfl rfl rfl (fun _ => id) (fun _ => .inr (.inr ⟨n, rfl⟩)) (fun going => absurd idle going)

/-- The chunk whose flush goes on is the one behind those that are done. -/
theorem Punctual.current {first : Int} (h : s.Punctual x first) {flush : Flush} (going : s.flush = some flush) :
    flush.chunk.timerStart = startAt first s.chunks.length ∧ flush.chunk.timerStart = s.chunkTimerStart ∧
      ∀ chunk ∈ s.chunks, x.getFileNameByTimeStarts chunk.timerStart ≠ x.getFileNameByTimeStarts flush.chunk.timerStart := by
  have here : s.taken[s.chunks.length]? = some flush.chunk := by
    rw [taken, going]
    exact List.getElem?_concat_length
  have begins := h.starts _ _ here
  refine ⟨begins, begins.trans (h.clock (h.allFull (by rw [going]; exact Option.some_ne_none flush))).symm, fun chunk member same => ?_⟩
  obtain ⟨i, inside, rfl⟩ := List.getElem_of_mem member
  have before : s.taken[i]? = some s.chunks[i] := by
    rw [taken, List.getElem?_append_left inside, List.getElem?_eq_getElem inside]
  have equal := (h.starts i _ before).symm.trans ((fileName_injective same).trans begins)
  exact absurd (startAt_injective equal) (Nat.ne_of_lt inside)

/-- A chunk that is written whole goes to the list of recordings; the files before it keep their bytes. -/
theorem Punctual.written {first : Int} (h : s.Punctual x first) {chunk : Chunk} (going : s.flush = some (.writing chunk)) :
    (s.chunkWritten x chunk .whole).Punctual x first := by
  obtain ⟨-, now, others⟩ := h.current going
  change chunk.timerStart = s.chunkTimerStart at now
  have added : ∀ w ∈ s.wals, w ∈ (s.chunkWritten x chunk .whole).wals := by
    intro w member
    change w ∈ if x.localSync then addExternalWal x.sessionLocation s.wals (chunkWal x s.chunkTimerStart chunk) else s.wals
    split
    · exact mem_addExternalWal member
    · exact member
  have full : (s.chunkWritten x chunk .whole).AllFull x := h.allFull (by rw [going]; exact Option.some_ne_none _)
  refine ⟨fun i c here => ?_, h.clock, .inl full, h.fullBut, ?_, fun c member => ?_, h.short, fun c member => ?_, ?_⟩
  · rcases getElem?_snoc here with before | ⟨rfl, rfl⟩
    · refine h.starts i c ?_
      have before : s.chunks[i]? = some c := before
      rw [taken, List.getElem?_append_left (List.getElem?_eq_some_iff.mp before).1]
      exact before
    · exact (h.current going).1
  · rintro flush ⟨⟩
    exact h.part (.writing chunk) going
  · rcases List.mem_append.mp member with before | here
    · exact h.frames c (List.mem_append_left _ before)
    · obtain rfl := List.mem_singleton.mp here
      refine h.frames chunk (List.mem_append_right _ ?_)
      rw [going]
      exact List.mem_singleton_self _
  · exact (h.stored c member).later (Dict.get_put_other _ (others c member) _) added
  · rintro c ⟨⟩
    refine ⟨?_, ?_⟩
    · change Dict.get (Dict.put _ _ _) _ = _
      rw [Dict.get_put_self, List.take_length]
    · change if s.isNew x chunk then inheritLocation x.sessionLocation (chunkWal x chunk.timerStart chunk) ∈
          (if x.localSync then addExternalWal x.sessionLocation s.wals (chunkWal x s.chunkTimerStart chunk) else s.wals)
        else x.localSync = false ∨ ∃ w ∈ (if x.localSync then
          addExternalWal x.sessionLocation s.wals (chunkWal x s.chunkTimerStart chunk) else s.wals),
            w.id = (chunkWal x chunk.timerStart chunk).id
      rw [now]
      unfold isNew addExternalWal
      cases x.localSync with
      | false => exact .inl rfl
      | true =>
          cases known : s.wals.any fun w => w.id == (chunkWal x s.chunkTimerStart chunk).id with
          | false =>
              rw [if_pos (by decide), if_pos rfl, if_neg (by decide)]
              exact List.mem_append_right _ (List.mem_singleton_self _)
          | true =>
              rw [if_neg (by decide), if_pos rfl, if_pos rfl]
              obtain ⟨w, member, same⟩ := List.any_eq_true.mp known
              exact .inr ⟨w, member, eq_of_beq same⟩

/-- A full chunk moves the clock to the begin of the next; behind a short one there is none. -/
theorem Punctual.registered {first : Int} (h : s.Punctual x first) {chunk : Chunk} (going : s.flush = some (.registering chunk)) :
    (s.chunkRegistered x chunk).Punctual x first := by
  have before : s.AllFull x := h.allFull (by rw [going]; exact Option.some_ne_none _)
  have starts : ∀ i c, (s.chunks ++ [chunk])[i]? = some c → c.timerStart = startAt first i := by
    intro i c here
    refine h.starts i c ?_
    rw [taken, going]
    exact here
  have frames : ∀ c ∈ s.chunks ++ [chunk], c.frames ≠ [] := by
    intro c member
    refine h.frames c ?_
    rw [taken, going]
    exact member
  have stored : ∀ c ∈ s.chunks ++ [chunk], s.Stored x c := by
    intro c member
    rcases List.mem_append.mp member with earlier | here
    · exact h.stored c earlier
    · obtain rfl := List.mem_singleton.mp here
      exact h.storing c going
  have fullBut : ∀ c ∈ (s.chunks ++ [chunk]).dropLast, c.frames.length = x.chunkFrames := by
    rw [List.dropLast_concat]
    exact before
  have short : ∀ c ∈ s.chunks ++ [chunk], c.frames.length ≤ x.chunkFrames := by
    intro c member
    rcases List.mem_append.mp member with earlier | here
    · exact h.short c earlier
    · obtain rfl := List.mem_singleton.mp here
      rcases h.part _ going with whole | ⟨less, -⟩
      · exact Nat.le_of_eq whole
      · exact Nat.le_of_lt less
  unfold chunkRegistered
  apply Punctual.afterFlush
  rcases h.part _ going with whole | ⟨less, nothing, last⟩
  · change chunk.frames.length = x.chunkFrames at whole
    have all : ∀ c ∈ s.chunks ++ [chunk], c.frames.length = x.chunkFrames := by
      intro c member
      rcases List.mem_append.mp member with earlier | here
      · exact before c earlier
      · obtain rfl := List.mem_singleton.mp here
        exact whole
    have next : { s with
        chunks := s.chunks ++ [chunk]
        chunkTimerStart := s.chunkTimerStart + (chunk.frames.length / x.fps : Nat)
        flush := none }.Punctual x first := by
      refine ⟨?_, fun _ => ?_, .inl all, fullBut, fun _ none => (by cases none), ?_, short,
        fun c member => (stored c member).later rfl fun _ => id, fun _ none => (by cases none)⟩
      · rw [taken_idle rfl]
        exact starts
      · change s.chunkTimerStart + (chunk.frames.length / x.fps : Nat) = startAt first (s.chunks ++ [chunk]).length
        rw [whole, x.chunkFrames_seconds, h.clock before, startAt_succ, List.length_append, List.length_singleton]
      · rw [taken_idle rfl]
        exact frames
    apply Punctual.flushChunks
    · exact next
    · exact all
    · intro final
      unfold isFinal at final
      split at final
      · rename_i r here
        exact ⟨r, here⟩
      · cases final
  · have ended := (flushChunks_cases x { s with
        chunks := s.chunks ++ [chunk]
        chunkTimerStart := s.chunkTimerStart + (chunk.frames.length / x.fps : Nat) } s.isFinal).resolve_left (by
      rintro ⟨take, positive, fits, -⟩
      change take ≤ s.bytesData.length at fits
      rw [nothing] at fits
      exact absurd (Nat.le_antisymm fits (Nat.zero_le _)) (Nat.ne_of_gt positive))
    change (RingSync.flushChunks x _ s.isFinal).Punctual x first
    rw [ended.2]
    refine ⟨?_, fun all => ?_, .inr ⟨.inl last, rfl, nothing⟩, fullBut, fun _ none => (by cases none), ?_, short, fun c member =>
      (stored c member).later rfl fun _ => id, fun _ none => by cases none⟩
    · rw [taken_idle rfl]
      exact starts
    · have whole := all chunk (List.mem_append_right _ (List.mem_singleton_self _))
      change chunk.frames.length < x.chunkFrames at less
      exact absurd whole (Nat.ne_of_lt less)
    · rw [taken_idle rfl]
      exact frames

/-- Before the first chunk is taken. -/
theorem Punctual.new (none : s.chunks = []) (idle : s.flush = .none) : s.Punctual x s.chunkTimerStart := by
  have nothing : s.taken = [] := (taken_idle idle).trans none
  refine ⟨fun i c here => ?_, fun _ => ?_, .inl fun c member => ?_, fun c member => ?_, fun flush going => ?_,
    fun c member => ?_, fun c member => ?_, fun c member => ?_, fun c going => ?_⟩
  · rw [nothing] at here
    cases here
  · rw [none]
    exact (Int.add_zero _).symm
  · rw [none] at member
    cases member
  · rw [none] at member
    cases member
  · rw [idle] at going
    cases going
  · rw [nothing] at member
    cases member
  · rw [none] at member
    cases member
  · rw [none] at member
    cases member
  · rw [idle] at going
    cases going

/-- No chunk without a record, and the chunks are punctual until a flush fails. -/
structure OnTime (x : RingWal) (s : RingSync) : Prop where
  untimed : s.firstRecordTs = none → s.taken = []
  timed : s.flushError = false → ∀ first, s.firstRecordTs = some first → s.Punctual x first

theorem OnTime.same (h : s.OnTime x) (first : t.firstRecordTs = s.firstRecordTs) (error : t.flushError = s.flushError)
    (chunks : t.chunks = s.chunks) (flush : t.flush = s.flush) (bytesData : t.bytesData = s.bytesData)
    (clock : t.chunkTimerStart = s.chunkTimerStart) (files : t.files = s.files) (wals : ∀ w ∈ s.wals, w ∈ t.wals)
    (ending : s.Ending → t.Ending) (last : s.flush ≠ none → s.Last → t.Last) : t.OnTime x where
  untimed absent := by
    rw [first] at absent
    unfold taken
    rw [chunks, flush]
    exact h.untimed absent
  timed clean f known := by
    rw [error] at clean
    rw [first] at known
    exact (h.timed clean f known).same chunks flush bytesData clock files wals ending last

/-- Before the last flush every chunk is full. -/
theorem OnTime.allFull (h : s.OnTime x) (early : ¬s.Ending) (clean : s.flushError = false) : s.AllFull x := by
  cases known : s.firstRecordTs with
  | none =>
      intro c member
      rw [(List.append_eq_nil_iff.mp (h.untimed known)).1] at member
      cases member
  | some first => exact (h.timed clean first known).full.resolve_right fun ⟨ending, _⟩ => early ending

/-- The main task moves on before the stream is closed and flushed. -/
theorem OnTime.moved (h : s.OnTime x) (early : ¬s.Ending) {main : Main} {subscribed : Bool} :
    { s with main, subscribed }.OnTime x :=
  h.same rfl rfl rfl rfl rfl rfl rfl (fun _ => id) (fun here => absurd here early) fun _ last => absurd (.inl last) early

theorem not_ending {main : Main} (here : s.main = main)
    (early : main = .reading ∨ main = .waiting ∨ (∃ r, main = .stopping r) ∨ ∃ r, main = .settling r) : ¬s.Ending := by
  rintro (⟨r, other⟩ | other | ⟨n, other⟩)
  all_goals
    rw [here] at other
    rcases early with rfl | rfl | ⟨r, rfl⟩ | ⟨r, rfl⟩ <;> cases other

theorem Control.not_ending (h : s.Control) (listening : s.subscribed = true) : ¬s.Ending := by
  rintro (⟨r, here⟩ | decided)
  · exact (h.unsettled listening r).2 here
  · exact h.undecided listening decided

theorem afterFlush_frame (s : RingSync) :
    s.afterFlush.firstRecordTs = s.firstRecordTs ∧ s.afterFlush.flushError = s.flushError ∧ s.afterFlush.taken = s.taken := by
  rcases afterFlush_cases s with ⟨same, -⟩ | ⟨reachedDone, -, -, decides⟩
  · rw [same]
    exact ⟨rfl, rfl, rfl⟩
  · rw [decides]
    rcases decideAdvance_cases s reachedDone with skips | ⟨n, -, -, -, -, -, advances⟩
    · rw [skips]
      exact ⟨rfl, rfl, rfl⟩
    · rw [advances]
      exact ⟨rfl, rfl, rfl⟩

theorem OnTime.afterFlush (h : s.OnTime x) : s.afterFlush.OnTime x := by
  obtain ⟨first, error, taken⟩ := afterFlush_frame s
  refine ⟨?_, ?_⟩
  · rw [first, taken]
    exact h.untimed
  · rw [first, error]
    exact fun clean f known => (h.timed clean f known).afterFlush

theorem OnTime.known (h : s.OnTime x) {flush : Flush} (going : s.flush = some flush) : s.firstRecordTs ≠ none := by
  intro absent
  have nothing := h.untimed absent
  rw [taken, going] at nothing
  exact absurd (List.append_eq_nil_iff.mp nothing).2 (List.cons_ne_nil _ _)

/-- Once a flush has failed, nothing is said about the chunks. -/
theorem OnTime.flushFailed (known : s.firstRecordTs ≠ none) (chunk : Chunk) : (s.flushFailed chunk).OnTime x := by
  unfold RingSync.flushFailed
  apply OnTime.afterFlush
  split
  · exact ⟨fun absent => absurd absent known, fun clean => by cases clean⟩
  · exact ⟨fun absent => absurd absent known, fun clean => by cases clean⟩

theorem flushChunks_frame (x : RingWal) (s : RingSync) (finalFlush : Bool) :
    (s.flushChunks x finalFlush).firstRecordTs = s.firstRecordTs ∧ (s.flushChunks x finalFlush).flushError = s.flushError := by
  rcases flushChunks_cases x s finalFlush with ⟨take, -, -, -, took⟩ | ⟨-, ended⟩
  · rw [took]
    exact ⟨rfl, rfl⟩
  · rw [ended]
    exact ⟨rfl, rfl⟩

theorem chunkRegistered_frame (x : RingWal) (s : RingSync) (chunk : Chunk) :
    (s.chunkRegistered x chunk).firstRecordTs = s.firstRecordTs ∧ (s.chunkRegistered x chunk).flushError = s.flushError := by
  unfold chunkRegistered
  dsimp only
  obtain ⟨first, error, -⟩ := afterFlush_frame (RingSync.flushChunks x { s with
    chunks := s.chunks ++ [chunk]
    chunkTimerStart := s.chunkTimerStart + (chunk.frames.length / x.fps : Nat) } s.isFinal)
  obtain ⟨first', error'⟩ := flushChunks_frame x { s with
    chunks := s.chunks ++ [chunk]
    chunkTimerStart := s.chunkTimerStart + (chunk.frames.length / x.fps : Nat) } s.isFinal
  exact ⟨first.trans first', error.trans error'⟩

/-- A flush that begins while none is under way. -/
theorem OnTime.flushChunks (h : s.OnTime x) (idle : s.flush = none) (untaken : s.firstRecordTs = none → s.bytesData = [])
    (full : s.flushError = false → s.AllFull x)
    {finalFlush : Bool} (final : finalFlush = true → s.Last) : (s.flushChunks x finalFlush).OnTime x := by
  obtain ⟨first, error⟩ := flushChunks_frame x s finalFlush
  refine ⟨?_, ?_⟩
  · rw [first]
    intro absent
    rcases flushChunks_cases x s finalFlush with ⟨take, positive, fits, -⟩ | ⟨-, ended⟩
    · rw [untaken absent] at fits
      exact absurd (Nat.le_antisymm fits (Nat.zero_le _)) (Nat.ne_of_gt positive)
    · rw [ended, taken_idle rfl, ← taken_idle idle]
      exact h.untimed absent
  · rw [first, error]
    intro clean f known
    have punctual : { s with flush := none }.Punctual x f :=
      (h.timed clean f known).same rfl idle.symm rfl rfl rfl (fun _ => id) id fun _ => id
    exact punctual.flushChunks (full clean) final

/-- Records that arrive while the stream is open set the first time once, and only add frames. -/
theorem OnTime.receiveData (h : s.OnTime x) (stream : s.Stream) (early : ¬s.Ending) (nowSeconds : Int) (payload : Bytes) :
    (s.receiveData x nowSeconds payload).OnTime x := by
  obtain ⟨first, clock, times, t, same, begins⟩ := receiveData_cases x nowSeconds s payload
  have punctual : ∀ f, s.flushError = false → first = some f → t.Punctual x f := by
    intro f clean known
    rcases times with ⟨still, held, -⟩ | ⟨absent, set⟩
    · have before := h.timed clean f (still.symm.trans known)
      rw [same]
      refine ⟨before.starts, fun full => held.trans (before.clock full), .inl ?_, before.fullBut, fun flush going => ?_,
        before.frames, before.short, fun c member => (before.stored c member).later rfl fun _ => id,
        fun c going => (before.storing c going).later rfl fun _ => id⟩
      · exact before.full.resolve_right fun ⟨ending, _⟩ => early ending
      · exact .inl ((before.part flush going).resolve_right fun ⟨_, _, last⟩ => early (.inl last))
    · obtain ⟨none, idle⟩ := List.append_eq_nil_iff.mp (h.untimed absent)
      obtain rfl : clock = f := Option.some.inj (set.symm.trans known)
      have new := Punctual.new (x := x) (s := t)
      rw [same] at new ⊢
      exact new none (Option.map_eq_none_iff.mp (Option.toList_eq_nil_iff.mp idle))
  have onTime : t.OnTime x := by
    refine ⟨fun absent => ?_, fun clean f known => ?_⟩
    · rw [same] at absent ⊢
      rcases times with ⟨still, -⟩ | ⟨-, set⟩
      · exact h.untimed (still.symm.trans absent)
      · rw [show first = none from absent] at set
        cases set
    · rw [same] at clean known
      exact punctual f clean known
  rcases begins with rest | ⟨idle, begins⟩
  · rw [rest]
    exact onTime
  · rw [begins]
    have open_ : ¬t.Ending := by
      rw [same]
      exact early
    refine onTime.flushChunks idle (fun absent => ?_) (onTime.allFull open_) fun final => by cases final
    rw [same] at absent ⊢
    rcases times with ⟨still, -, nothing⟩ | ⟨-, set⟩
    · have absent : s.firstRecordTs = none := still.symm.trans absent
      dsimp only
      rw [stream.untaken absent, nothing absent]
      rfl
    · rw [show first = none from absent] at set
      cases set

theorem OnTime.act (h : s.OnTime x) (stream : s.Stream) (control : s.Control) {a : Action} (done : s.act x a = some t) : t.OnTime x := by
  cases a with
  | notification nowSeconds value =>
      simp only [RingSync.act] at done
      split at done
      · rename_i listening
        cases done
        have early := control.not_ending listening
        unfold onStorageBytesReceived
        split
        · exact h
        · split
          · exact h.same rfl rfl rfl rfl rfl rfl rfl (fun _ => id) id fun _ => id
          · split
            · exact h
            · split
              · split <;> exact h.same rfl rfl rfl rfl rfl rfl rfl (fun _ => id) id fun _ => id
              · have heard : { s with firstDataReceived := true }.OnTime x :=
                  h.same rfl rfl rfl rfl rfl rfl rfl (fun _ => id) id fun _ => id
                split
                · exact heard.receiveData (stream.same rfl rfl rfl rfl rfl rfl) early nowSeconds _
                · split
                  · exact heard
                  · exact h
      · cases done
  | streamClosed =>
      simp only [RingSync.act] at done
      split at done
      · cases done
        exact h.same rfl rfl rfl rfl rfl rfl rfl (fun _ => id) id fun _ => id
      · cases done
  | firstDataTimeout =>
      simp only [RingSync.act] at done
      split at done
      · cases done
        exact h.same rfl rfl rfl rfl rfl rfl rfl (fun _ => id) id fun _ => id
      · cases done
  | cancelSync =>
      cases done
      exact h.same rfl rfl rfl rfl rfl rfl rfl (fun _ => id) id fun _ => id
  | foreignWal wal =>
      cases done
      exact h.same rfl rfl rfl rfl rfl rfl rfl (fun _ => mem_addExternalWal) id fun _ => id
  | written written =>
      simp only [RingSync.act] at done
      split at done
      · rename_i chunk going
        cases done
        cases written with
        | failed left =>
            cases left with
            | none => exact OnTime.flushFailed (h.known going) chunk
            | some kept =>
                have known : (s.writeFile x chunk kept).firstRecordTs ≠ none := h.known going
                exact OnTime.flushFailed known chunk
        | whole =>
            refine ⟨fun absent => absurd absent (h.known going), fun clean first known => ?_⟩
            exact (h.timed clean first known).written going
      · cases done
  | registered listSaved =>
      simp only [RingSync.act] at done
      split at done
      · rename_i chunk going
        cases done
        split
        · obtain ⟨first, error⟩ := chunkRegistered_frame x s chunk
          refine ⟨fun absent => absurd (first.symm.trans absent) (h.known going), fun clean f known => ?_⟩
          exact (h.timed (error.symm.trans clean) f (first.symm.trans known)).registered going
        · exact OnTime.flushFailed (h.known going) chunk
      · cases done
  | readSent ok =>
      simp only [RingSync.act] at done
      split at done
      · rename_i here
        cases done
        split
        · exact h.moved (not_ending here (.inl rfl))
        · exact h.moved (not_ending here (.inl rfl))
      · cases done
  | completed =>
      simp only [RingSync.act] at done
      split at done
      · rename_i answer here answered
        cases done
        exact h.moved (not_ending here (.inr (.inl rfl)))
      · cases done
  | overallTimeout =>
      simp only [RingSync.act] at done
      split at done
      · rename_i here
        cases done
        exact h.moved (not_ending here (.inr (.inl rfl)))
      · cases done
  | unsubscribed =>
      simp only [RingSync.act] at done
      split at done
      · rename_i reachedDone here
        cases done
        exact h.moved (not_ending here (.inr (.inr (.inl ⟨reachedDone, rfl⟩))))
      · cases done
  | settled =>
      simp only [RingSync.act] at done
      split at done
      · rename_i reachedDone here idle
        cases done
        have early := not_ending here (.inr (.inr (.inr ⟨reachedDone, rfl⟩)))
        have moved : { s with main := .flushing reachedDone }.OnTime x := h.moved early
        exact (moved.flushChunks idle stream.untaken (h.allFull early) fun _ => ⟨reachedDone, rfl⟩).afterFlush
      · cases done

/-! ## Over whole runs -/

theorem Stream.started (started : s.Started) : s.Stream := by
  refine ⟨?_, ?_, fun _ => started.records⟩
  · rw [started.received, started.records, started.buffer]
    exact ⟨rfl, fun block member => absurd member List.not_mem_nil, by decide⟩
  · rw [taken_idle started.flush, started.chunks, started.bytesData, started.records]
    rfl

theorem Control.started (started : s.Started) : s.Control := by
  have here := started.main
  refine ⟨fun answered => ?_, ?_, fun r settled => ?_, fun r last => ?_, fun decided => ?_, fun n last => ?_⟩
  · rw [started.completer] at answered
    cases answered
  · rw [here]
    rintro (other | other | other) <;> cases other
  · rw [here] at settled
    rcases settled with other | other <;> cases other
  · rw [here] at last
    cases last
  · exact absurd (.inr decided) (RingSync.not_ending here (.inl rfl))
  · rw [here] at last
    cases last

theorem OnTime.started (started : s.Started) : s.OnTime x := by
  refine ⟨fun _ => (taken_idle started.flush).trans started.chunks, fun _ first known => ?_⟩
  rw [started.firstRecordTs] at known
  cases known

theorem Reached.invariants (reached : Reached x s) : s.Stream ∧ s.Control ∧ s.OnTime x := by
  refine Reachable.invariant (I := fun s => s.Stream ∧ s.Control ∧ s.OnTime x) ?_ ?_ reached
  · exact fun s started => ⟨.started started, .started started, .started started⟩
  · exact fun s a t ⟨stream, control, onTime⟩ done => ⟨stream.act done, control.act done, onTime.act stream control done⟩

/-- The ring is advanced to the number of a whole notification of success. -/
theorem Control.named (h : s.Control) {n : Nat} (here : s.main = .advancing n) :
    ∃ value, s.answer = some value ∧ parseDoneNotification value = some ⟨0, n⟩ := by
  obtain ⟨-, -, answered, ok, named⟩ := h.advanced n here
  obtain ⟨value, done, heard, parsed, next, okDone⟩ := h.answer answered
  refine ⟨value, heard, parsed.trans ?_⟩
  have nextSeq : done.nextSeq = n := Option.some.inj (next.symm.trans named)
  have status : done.status = 0 := eq_of_beq (okDone.symm.trans ok)
  obtain ⟨doneStatus, doneNext⟩ := done
  cases nextSeq
  cases status
  rfl

/-- Then no frame waits any more, and the chunks are punctual, each in its file. -/
theorem Reached.advanced (reached : Reached x s) {n : Nat} (here : s.main = .advancing n) :
    s.taken = s.chunks ∧ s.bytesData = [] ∧
      ∃ first, ∀ i chunk, s.chunks[i]? = some chunk →
        chunk.timerStart = startAt first i ∧ chunk.frames ≠ [] ∧ chunk.frames.length ≤ x.chunkFrames ∧
          (i + 1 < s.chunks.length → chunk.frames.length = x.chunkFrames) ∧ s.Stored x chunk := by
  obtain ⟨-, control, onTime⟩ := reached.invariants
  obtain ⟨clean, nothing, -⟩ := control.advanced n here
  have idle := (control.decided (.inr ⟨n, here⟩)).2
  refine ⟨taken_idle idle, nothing, ?_⟩
  cases known : s.firstRecordTs with
  | none =>
      refine ⟨0, fun i chunk there => ?_⟩
      rw [(taken_idle idle).symm.trans (onTime.untimed known)] at there
      cases there
  | some first =>
      have punctual := onTime.timed clean first known
      refine ⟨first, fun i chunk there => ?_⟩
      have member := List.mem_of_getElem? there
      rw [← taken_idle idle] at there
      refine ⟨punctual.starts i chunk there, ?_, punctual.short chunk member, fun before => ?_, punctual.stored chunk member⟩
      · exact punctual.frames chunk (List.mem_of_getElem? there)
      · refine punctual.fullBut chunk (@List.mem_of_getElem? _ _ i _ ?_)
        rw [List.getElem?_dropLast, if_pos (by omega), ← taken_idle idle]
        exact there

/-- In every run the frames of the records received are in the chunks and the buffer behind them, in order and once. The
ring is advanced only to the number of a whole notification of success, when all of them are in files of 180 seconds, the
last one shorter, each with an entry, unless there is no list of recordings or the id was taken. -/
theorem ring_advanced_when_stored (x : RingWal) (s : RingSync) (reached : Reached x s) :
    Drained RingProtocol.recordSize s.received s.records s.buffer ∧
      s.taken.flatMap Chunk.frames ++ s.bytesData = s.records.flatMap recordFrames ∧
      ∀ n, s.main = .advancing n →
        (∃ value, s.answer = some value ∧ parseDoneNotification value = some ⟨0, n⟩) ∧
          s.taken = s.chunks ∧ s.bytesData = [] ∧
          ∃ first, ∀ i chunk, s.chunks[i]? = some chunk →
            chunk.timerStart = startAt first i ∧ chunk.frames ≠ [] ∧ chunk.frames.length ≤ x.chunkFrames ∧
              (i + 1 < s.chunks.length → chunk.frames.length = x.chunkFrames) ∧ s.Stored x chunk := by
  obtain ⟨stream, control, -⟩ := reached.invariants
  exact ⟨stream.cut, stream.frames, fun n here => ⟨control.named here, reached.advanced here⟩⟩

def sampleRing : RingWal :=
  ⟨{ timerStart := 90, codec := .opus, seconds := 10, device := "omi", status := .miss, storage := .mem }, true, true, none⟩

def sampleSync : RingSync :=
  ⟨[], [], none, 0, none, false, false, none, none, false, true, .reading, false, [], [], [], [], [], none⟩

/-- One record of one frame. -/
def sampleRecord : Bytes := [0, 0, 0, 100] ++ (packed [1] ++ List.replicate 438 0)

theorem sampleRecord_frames : recordFrames sampleRecord = [[1]] := by
  have fits : ∀ frame ∈ [[(1 : UInt8)]], Packable frame := by simp [Packable]
  exact parseAudioPayload_packed fits (by decide)

theorem sampleRecord_drained : drain RingProtocol.recordSize sampleRecord = ([sampleRecord], []) := by
  have size : sampleRecord.length = RingProtocol.recordSize := by
    unfold sampleRecord
    rw [List.length_append, List.length_append, List.length_replicate]
    rfl
  have blocks : ∀ block ∈ [sampleRecord], block.length = RingProtocol.recordSize := by
    rintro block (_ | ⟨_, ⟨⟩⟩)
    exact size
  have cut := drain_flatten blocks (by decide)
  rwa [List.flatten_singleton] at cut

def sampleHeard : RingSync :=
  { sampleSync with
    bytesData := [[1]]
    firstRecordTs := some 100
    chunkTimerStart := 100
    firstDataReceived := true
    received := sampleRecord
    records := [sampleRecord] }

theorem sampleSync_heard : sampleSync.act sampleRing (.notification 0 (notifyData :: sampleRecord)) = some sampleHeard := by
  have drained := sampleRecord_drained
  have frames := sampleRecord_frames
  have stamp : readRecordTimestamp sampleRecord = 100 := rfl
  unfold sampleHeard
  generalize sampleRecord = record at *
  have heard : RingSync.receiveData sampleRing { sampleSync with firstDataReceived := true } 0 record = { sampleSync with
      bytesData := [[1]]
      firstRecordTs := some 100
      chunkTimerStart := 100
      firstDataReceived := true
      received := record
      records := [record] } := by
    unfold receiveData
    simp only [sampleSync, List.nil_append, drained, List.foldl_cons, List.foldl_nil, takeRecord, anchor, frames, stamp]
    rfl
  exact congrArg some heard

def sampleDone : Bytes := [notifyDone, 0, 0, 0, 0, 0, 0, 0, 0, 7]

def sampleActions : List Action :=
  [.readSent true, .notification 0 sampleDone, .completed, .unsubscribed, .settled, .written .whole, .registered true]

/-- A run of one record. -/
theorem sample_reached : ∃ s : RingSync, Reached sampleRing s ∧ s.main = .advancing 7 ∧ s.received = sampleRecord ∧
    ∃ chunk, s.chunks = [chunk] ∧ chunk.frames = [[1]] ∧ chunk.timerStart = 100 := by
  obtain ⟨s, run, rest⟩ :
      ∃ s : RingSync, sampleActions.foldlM (fun s a => RingSync.act sampleRing s a) sampleHeard = some s ∧ s.main = .advancing 7 ∧
        s.received = sampleRecord ∧ ∃ chunk, s.chunks = [chunk] ∧ chunk.frames = [[1]] ∧ chunk.timerStart = 100 :=
    ⟨_, rfl, rfl, rfl, _, rfl, rfl, rfl⟩
  have started : sampleSync.Started := by constructor <;> rfl
  have heard : Reached sampleRing sampleHeard := (Reachable.start started).next sampleSync_heard
  exact ⟨s, heard.actions (fun _ _ _ _ => id) run, rest⟩

theorem sampleRecord_stored : ∃ s : RingSync, s.main = .advancing 7 ∧
    ∃ chunk, s.chunks = [chunk] ∧ chunk.frames = [[1]] ∧ chunk.timerStart = 100 ∧ s.Stored sampleRing chunk := by
  obtain ⟨s, reached, here, -, chunk, chunks, frames, start⟩ := sample_reached
  obtain ⟨-, -, advanced⟩ := ring_advanced_when_stored sampleRing s reached
  obtain ⟨-, -, -, first, stored⟩ := advanced 7 here
  have last : s.chunks[0]? = some chunk := by rw [chunks]; rfl
  exact ⟨s, here, chunk, chunks, frames, start, (stored 0 chunk last).2.2.2.2⟩

end RingSync
end OmiLocal.Wals.Ring
