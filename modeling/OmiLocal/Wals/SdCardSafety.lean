import OmiLocal.Wals.SdCard
import OmiLocal.Wals.FlushSafety

/-!
# When the SD card is cleared

The frames are cut into chunks without a gap, and each chunk is taken before the
disk is awaited, so the order of the awaits cannot lose or repeat a frame. What
can go wrong is told by the conditions of the runs: a transfer that ends without
its end code or while a callback still awaits the disk, an error that is
swallowed, and chunks that begin in the same second, which share a file name and
an id.
-/
namespace OmiLocal.Wals.SdCard
open Lib Lib.Framing Lib.Transition
open Phone (SessionLocation addExternalWal)

/-! ## Ranges -/

/-- Nonempty ranges that follow one another from `first` to `last`. -/
def Consecutive : Nat → List (Nat × Nat) → Nat → Prop
  | first, [], last => first = last
  | first, r :: ranges, last => r.1 = first ∧ first < r.2 ∧ Consecutive r.2 ranges last

theorem Consecutive.append {a b c : Nat} {front back : List (Nat × Nat)} (first : Consecutive a front b)
    (second : Consecutive b back c) : Consecutive a (front ++ back) c := by
  induction front generalizing a with
  | nil =>
      obtain rfl : a = b := first
      exact second
  | cons r front ih =>
      obtain ⟨start, stop, rest⟩ := first
      exact ⟨start, stop, ih rest⟩

theorem Consecutive.snoc {a b c : Nat} {front : List (Nat × Nat)} (first : Consecutive a front b) (more : b < c) :
    Consecutive a (front ++ [(b, c)]) c := first.append ⟨rfl, more, rfl⟩

theorem Consecutive.le {a b : Nat} {ranges : List (Nat × Nat)} (h : Consecutive a ranges b) : a ≤ b := by
  induction ranges generalizing a with
  | nil => exact Nat.le_of_eq h
  | cons r ranges ih => exact h.2.1.le.trans (ih h.2.2)

theorem Consecutive.mem {a b : Nat} {ranges : List (Nat × Nat)} (h : Consecutive a ranges b) {r : Nat × Nat}
    (member : r ∈ ranges) : r.2 ≤ b := by
  induction ranges generalizing a with
  | nil => exact absurd member List.not_mem_nil
  | cons q ranges ih =>
      rcases List.mem_cons.mp member with rfl | later
      · exact h.2.2.le
      · exact ih h.2.2 later

def Chunk.range (c : Chunk) : Nat × Nat := (c.start, c.stop)

def Segment.range (g : Segment) : Nat × Nat := (g.start, g.stop)

theorem consecutive_wholeSegments {size : Nat} (positive : 0 < size) (framesPerSecond count left : Nat) (timerStart : Int) :
    Consecutive left ((SdSync.wholeSegments size framesPerSecond count left timerStart).map Segment.range)
      (left + count * size) := by
  induction count generalizing left timerStart with
  | zero => exact (by rw [Nat.zero_mul, Nat.add_zero] : left = left + 0 * size)
  | succ count ih =>
      refine ⟨rfl, Nat.lt_add_of_pos_right positive, ?_⟩
      have rest := ih (left + size) (timerStart + size / framesPerSecond)
      rwa [show left + size + count * size = left + (count + 1) * size by rw [Nat.succ_mul]; omega] at rest

theorem consecutive_legacySegments {size : Nat} (positive : 0 < size) (framesPerSecond frames : Nat) (timerStart : Int) :
    Consecutive 0 ((SdSync.legacySegments size framesPerSecond frames timerStart).map Segment.range) frames := by
  have whole := consecutive_wholeSegments positive framesPerSecond (frames / size) 0 timerStart
  rw [Nat.zero_add] at whole
  have below : frames / size * size ≤ frames := Nat.div_mul_le_self frames size
  unfold SdSync.legacySegments
  rw [List.map_append]
  refine whole.append ?_
  split
  · rename_i rest
    exact ⟨rfl, rest, rfl⟩
  · rename_i rest
    exact Nat.le_antisymm below (Nat.not_lt.mp rest)

theorem consecutive_markedSegments {bytesLeft frames : Nat} {markers : List (Nat × Int)}
    (sorted : (markers.map Prod.fst).Pairwise (· ≤ ·)) {start : Nat} (inside : start ≤ frames)
    (behind : ∀ m ∈ markers, bytesLeft < m.1 → start ≤ m.1) (epoch : Int) :
    Consecutive start ((SdSync.markedSegments bytesLeft frames markers start epoch).map Segment.range) frames := by
  induction markers generalizing start epoch with
  | nil =>
      unfold SdSync.markedSegments
      split
      · rename_i rest
        exact ⟨rfl, rest, rfl⟩
      · rename_i rest
        exact Nat.le_antisymm inside (Nat.not_lt.mp rest)
  | cons m markers ih =>
      obtain ⟨later, sorted⟩ := List.pairwise_cons.mp sorted
      unfold SdSync.markedSegments
      split
      · rename_i cut
        have after : start ≤ m.1 := behind m List.mem_cons_self cut.1
        have rest := ih sorted cut.2.le (fun n member _ => later n.1 (List.mem_map_of_mem member)) m.2
        rw [List.map_append]
        split
        · rename_i nonempty
          exact Consecutive.append (b := m.1) ⟨rfl, nonempty, rfl⟩ rest
        · rename_i empty
          rw [show start = m.1 from Nat.le_antisymm after (Nat.not_lt.mp empty)]
          exact rest
      · exact ih sorted inside (fun n member above => behind n (List.mem_cons_of_mem _ member) above) epoch

/-! ## What a packet adds -/

/-- The markers stand in order, at frames that have been received. -/
structure Received.Marked (r : Received) : Prop where
  sorted : (r.timestampMarkers.map Prod.fst).Pairwise (· ≤ ·)
  below : ∀ m ∈ r.timestampMarkers, m.1 ≤ r.bytesData.length

theorem unpackMarked_spec (value : Bytes) (fuel packageOffset : Nat) {r : Received} (marked : r.Marked) :
    (unpackMarked value fuel packageOffset r).Marked ∧
      r.bytesData <+: (unpackMarked value fuel packageOffset r).bytesData := by
  induction fuel generalizing packageOffset r with
  | zero => exact ⟨marked, List.prefix_rfl⟩
  | succ fuel ih =>
      unfold unpackMarked
      split
      · exact ⟨marked, List.prefix_rfl⟩
      · simp only
        split
        · exact ih _ marked
        · split
          · split
            · refine ih _ ⟨?_, fun m member => ?_⟩
              · rw [List.map_append, List.pairwise_append]
                refine ⟨marked.sorted, List.pairwise_singleton _ _, fun a first b second => ?_⟩
                obtain ⟨m, member, rfl⟩ := List.mem_map.mp first
                obtain rfl := List.mem_singleton.mp second
                exact marked.below m member
              · rcases List.mem_append.mp member with old | new
                · exact marked.below m old
                · obtain rfl := List.mem_singleton.mp new
                  exact le_refl _
            · exact ih _ marked
          · split
            · exact ⟨marked, List.prefix_rfl⟩
            · rename_i frame_
              have grown : ({ r with bytesData := r.bytesData ++ [(value.take (packageOffset + 1 +
                  byteAt value packageOffset)).drop (packageOffset + 1)] } : Received).Marked :=
                ⟨marked.sorted, fun m member => (marked.below m member).trans (by simp)⟩
              have rest := ih (packageOffset + (byteAt value packageOffset + 1)) grown
              exact ⟨rest.1, (List.prefix_append _ _).trans rest.2⟩

theorem Card.unpack_spec (x : Card) (value : Bytes) {r : Received} (marked : r.Marked) :
    (x.unpack value r).Marked ∧ r.bytesData <+: (x.unpack value r).bytesData := by
  have grown : ∀ more, ({ r with bytesData := r.bytesData ++ more } : Received).Marked := fun more =>
    ⟨marked.sorted, fun m member => (marked.below m member).trans (by simp)⟩
  unfold Card.unpack
  split
  · exact ⟨grown _, List.prefix_append _ _⟩
  · split
    · split
      · exact unpackMarked_spec value _ 0 marked
      · have split_ : StorageSync.packageFrom value 0 r.bytesData =
            r.bytesData ++ RingProtocol.parseFrom value 0 [] := by
          rw [packageFrom_eq, ← parseFrom_append, List.append_nil]
        rw [split_]
        exact ⟨grown _, List.prefix_append _ _⟩
    · exact ⟨marked, List.prefix_rfl⟩

namespace SdSync
variable {x : Card} {s t : SdSync}

/-! ## Chunks on their way -/

/-- The chunk's file holds its frames, and the list of recordings has an entry for it. -/
def Stored (x : Card) (s : SdSync) (c : Chunk) : Prop :=
  Dict.get s.files (x.getFileNameByTimeStarts c.timerStart) = some (s.content c) ∧
    ∃ w ∈ s.wals, w.filePath = some (x.getFileNameByTimeStarts c.timerStart)

def InFlight (s : SdSync) (i : Nat) : Prop :=
  (∃ callback ∈ s.callbacks, callback.flush = .writing i) ∨ ∃ guarded left, s.main = .flushing (.writing i) guarded left

def Ranges (x : Card) (s : SdSync) : Prop :=
  match s.main with
  | .listening | .ended =>
      Consecutive 0 (s.chunks.map Chunk.range) s.bytesLeft ∧ s.bytesLeft ≤ s.frames ∧
        (x.supportsTimestampMarkers = false → s.bytesLeft = 0)
  | .flushing _ _ left => s.chunks ≠ [] ∧ ∃ reached, Consecutive 0 (s.chunks.map Chunk.range) reached ∧
      Consecutive reached (left.map Segment.range) s.frames
  | .clearing | .cleared => Consecutive 0 (s.chunks.map Chunk.range) s.frames
  | .nothing | .threw => True

/-- The chunks as far as they do not depend on where the main task stands. -/
structure ChunksOk (x : Card) (s : SdSync) : Prop where
  inside : ∀ c ∈ s.chunks, c.stop ≤ s.frames
  stored : ∀ c ∈ s.chunks, c.stored = true → s.Stored x c
  distinct : ∀ (i j : Nat) (c d : Chunk), s.chunks[i]? = some c → s.chunks[j]? = some d → c.stored = true → d.stored = true →
    c.timerStart = d.timerStart → i = j
  empty : s.chunks = [] → s.chunksDownloaded = 0 ∧ s.callbacks = []

structure Ok (x : Card) (s : SdSync) : Prop where
  chunks : s.ChunksOk x
  quiet : s.hasError = false
  marked : s.received.Marked
  ranges : s.Ranges x
  waiting : ∀ (i : Nat) (c : Chunk), s.chunks[i]? = some c → c.stored = false → s.InFlight i
  ended : s.main ≠ .listening → s.callbacks = [] ∧ (s.endedBy = some 100 ∨ s.frames = 0)
  clearing : s.main = .clearing ∨ s.main = .cleared → s.chunksDownloaded ≠ 0

/-- The run may still clear the card. -/
def Alive (s : SdSync) : Prop := s.main ≠ .threw ∧ s.main ≠ .nothing

/-- No stored chunk begins in the same second as this one, and no recording has its id. -/
def Fresh (x : Card) (s : SdSync) (n : Nat) : Prop :=
  ∀ chunk ∈ s.chunks[n]?, (∀ d ∈ s.chunks, d.stored = true → d.timerStart ≠ chunk.timerStart) ∧
    ∀ w ∈ s.wals, w.id ≠ (chunkWal x chunk).id

/-- The condition of the runs. Once frames have come, the transfer ends by the code 100 while no callback awaits the
disk; chunks are written fresh; and no error of a guarded chunk comes after another chunk was downloaded. -/
def Action.Steady (x : Card) (s : SdSync) : Action → Prop
  | .packet value =>
      match value with
      | [code] => code.toNat = 0 ∨ code.toNat = 3 ∨ s.frames = 0 ∨ (code.toNat = 100 ∧ s.callbacks = [])
      | _ => True
  | .callbackWrite i written =>
      match s.callbacks[i]? with
      | some ⟨.writing n, _, _⟩ => written = .whole → s.isCancelled = false → s.Fresh x n
      | _ => True
  | .mainWrite written =>
      match s.main with
      | .flushing (.writing n) guarded _ =>
          (written = .whole → s.isCancelled = false → s.Fresh x n) ∧
            (written ≠ .whole ∨ s.isCancelled = true → guarded = true → s.chunksDownloaded = 0)
      | _ => True
  | .mainRegister listSaved =>
      match s.main with
      | .flushing _ guarded _ => listSaved = false → guarded = true → s.chunksDownloaded = 0
      | _ => True
  | _ => True

instance (n : Nat) : Decidable (s.Fresh x n) := by
  unfold Fresh
  infer_instance

instance (a : Action) : Decidable (a.Steady x s) := by
  unfold Action.Steady
  split
  · split <;> infer_instance
  · split <;> infer_instance
  · split <;> infer_instance
  · split <;> infer_instance
  · infer_instance

abbrev Reached (x : Card) : SdSync → Prop := Reachable (Started x) fun s a t => s.act x a = some t

abbrev ReachedSteady (x : Card) : SdSync → Prop := Reachable (Started x) fun s a t => a.Steady x s ∧ s.act x a = some t

theorem chunkSize_pos (x : Card) : 0 < x.chunkSize := by
  unfold Card.chunkSize Card.framesPerSecond Phone.BleAudioCodec.getFramesPerSecond
  split
  · split <;> decide
  · decide

/-- More frames leave the content of the chunks as it is. -/
theorem content_grown {r : Received} (grown : s.received.bytesData <+: r.bytesData) {c : Chunk} (inside : c.stop ≤ s.frames) :
    ({ s with received := r } : SdSync).content c = s.content c := by
  obtain ⟨more, same⟩ := grown
  unfold content
  change (r.bytesData.drop c.start).take (c.stop - c.start) = _
  rw [← same]
  by_cases nonempty : c.start ≤ c.stop
  · rw [List.drop_append_of_le_length (nonempty.trans inside), List.take_append_of_le_length]
    rw [List.length_drop]
    exact Nat.sub_le_sub_right inside c.start
  · rw [Nat.sub_eq_zero_of_le (Nat.le_of_not_le nonempty), List.take_zero, List.take_zero]

theorem ChunksOk.grown (ok : s.ChunksOk x) {r : Received} (grown : s.received.bytesData <+: r.bytesData) :
    ({ s with received := r } : SdSync).ChunksOk x := by
  refine ⟨fun c member => (ok.inside c member).trans grown.length_le, fun c member written => ?_, ok.distinct, ok.empty⟩
  obtain ⟨file, entry⟩ := ok.stored c member written
  exact ⟨by rw [content_grown grown (ok.inside c member)]; exact file, entry⟩

/-! ## The packet callback -/

theorem getElem?_snoc {c d : Chunk} {chunks : List Chunk} {i : Nat} (here : (chunks ++ [d])[i]? = some c) :
    chunks[i]? = some c ∨ (i = chunks.length ∧ c = d) := by
  rcases Nat.lt_or_ge i chunks.length with inside | outside
  · rw [List.getElem?_append_left inside] at here
    exact .inl here
  · rw [List.getElem?_append_right outside, List.getElem?_singleton] at here
    split at here
    · rename_i last
      cases here
      exact .inr ⟨by omega, rfl⟩
    · cases here

/-- A chunk that is taken is not stored yet. -/
theorem ChunksOk.snoc (ok : s.ChunksOk x) {c : Chunk} (inside : c.stop ≤ s.frames) (new : c.stored = false) :
    ({ s with chunks := s.chunks ++ [c] } : SdSync).ChunksOk x := by
  refine ⟨fun d member => ?_, fun d member written => ?_, fun i j d e first second written written' same => ?_,
    fun none => absurd none (by simp)⟩
  · rcases List.mem_append.mp member with old | last
    · exact ok.inside d old
    · rwa [List.mem_singleton.mp last]
  · rcases List.mem_append.mp member with old | last
    · exact ok.stored d old written
    · rw [List.mem_singleton.mp last, new] at written
      cases written
  · rcases getElem?_snoc first with first | ⟨-, rfl⟩
    · rcases getElem?_snoc second with second | ⟨-, rfl⟩
      · exact ok.distinct i j d e first second written written' same
      · rw [new] at written'
        cases written'
    · rw [new] at written
      cases written

theorem Ranges.listening (ranges : s.Ranges x) (here : s.main = .listening) :
    Consecutive 0 (s.chunks.map Chunk.range) s.bytesLeft ∧ s.bytesLeft ≤ s.frames ∧
      (x.supportsTimestampMarkers = false → s.bytesLeft = 0) := by
  unfold Ranges at ranges
  rwa [here] at ranges

theorem ranges_listening (here : s.main = .listening)
    (ranges : Consecutive 0 (s.chunks.map Chunk.range) s.bytesLeft ∧ s.bytesLeft ≤ s.frames ∧
      (x.supportsTimestampMarkers = false → s.bytesLeft = 0)) : s.Ranges x := by
  unfold Ranges
  rwa [here]

theorem Ok.take (ok : s.Ok x) (here : s.main = .listening) (markers : x.supportsTimestampMarkers = true) {stop : Nat}
    (more : s.bytesLeft < stop) (inside : stop ≤ s.frames) (nextMarkerIdx : Nat) (atMarker : Bool) :
    ((s.takeChunk stop).suspend nextMarkerIdx atMarker).Ok x := by
  have ranges := ok.ranges.listening here
  have chunks := ok.chunks.snoc (c := Chunk.mk s.bytesLeft stop s.timerStart false) inside rfl
  have number : (s.chunks ++ [Chunk.mk s.bytesLeft stop s.timerStart false]).length - 1 = s.chunks.length := by
    rw [List.length_append, List.length_singleton, Nat.add_sub_cancel]
  refine ⟨⟨chunks.inside, chunks.stored, chunks.distinct, fun none => absurd none (by simp [takeChunk, suspend])⟩, ok.quiet,
    ok.marked, ranges_listening here ⟨?_, inside, fun none => absurd (markers.symm.trans none) (by simp)⟩, ?_,
    fun other => absurd here other, fun other => ?_⟩
  · change Consecutive 0 ((s.chunks ++ [_]).map Chunk.range) stop
    rw [List.map_append]
    exact ranges.1.snoc more
  · intro i c at_ unwritten
    rcases getElem?_snoc at_ with old | ⟨rfl, -⟩
    · rcases ok.waiting i c old unwritten with ⟨callback, member, writes⟩ | main
      · exact .inl ⟨callback, List.mem_append_left _ member, writes⟩
      · exact .inr main
    · exact .inl ⟨_, List.mem_append_right _ (List.mem_singleton_self _), congrArg Flush.writing number⟩
  · have here' : s.main = .clearing ∨ s.main = .cleared := other
    rw [here] at here'
    simp at here'

theorem Ok.markerStep (ok : s.Ok x) (here : s.main = .listening) (markers : x.supportsTimestampMarkers = true)
    (nextMarkerIdx : Nat) : (s.markerStep nextMarkerIdx).Ok x := by
  unfold SdSync.markerStep
  split
  · rename_i reached
    exact ok.take here markers reached.2.2 reached.2.1 nextMarkerIdx true
  · exact ok

theorem Ok.chunkLoop (ok : s.Ok x) (here : s.main = .listening) (markers : x.supportsTimestampMarkers = true)
    (nextMarkerIdx : Nat) : (s.chunkLoop x nextMarkerIdx).Ok x := by
  unfold SdSync.chunkLoop
  split
  · rename_i whole
    exact ok.take here markers (Nat.lt_add_of_pos_right (chunkSize_pos x)) whole.1 nextMarkerIdx false
  · exact ok.markerStep here markers nextMarkerIdx

/-- A change of the start time matters to chunks that are taken later. -/
theorem Ok.timed (ok : s.Ok x) (timerStart : Int) : ({ s with timerStart := timerStart } : SdSync).Ok x :=
  ⟨⟨ok.chunks.inside, ok.chunks.stored, ok.chunks.distinct, ok.chunks.empty⟩, ok.quiet, ok.marked, ok.ranges, ok.waiting,
    ok.ended, ok.clearing⟩

theorem Ok.resumeCallback (ok : s.Ok x) (here : s.main = .listening) (markers : x.supportsTimestampMarkers = true)
    (callback : Callback) (chunk : Chunk) : (s.resumeCallback x callback chunk).Ok x := by
  have moved := ok.timed (s.timerStart + (chunk.stop - chunk.start) / x.framesPerSecond)
  unfold SdSync.resumeCallback
  simp only
  split
  · split
    · exact ok.timed _
    · exact moved
  · exact moved.chunkLoop here markers callback.nextMarkerIdx

theorem Ok.packet (ok : s.Ok x) (here : s.main = .listening) {value : Bytes} (steady : (Action.packet value).Steady x s) :
    (s.onStorageBytesReceived x value).Ok x := by
  have first : ({ s with firstDataReceived := true } : SdSync).Ok x :=
    ⟨⟨ok.chunks.inside, ok.chunks.stored, ok.chunks.distinct, ok.chunks.empty⟩, ok.quiet, ok.marked, ok.ranges, ok.waiting,
      ok.ended, ok.clearing⟩
  have ranges := ok.ranges.listening here
  unfold onStorageBytesReceived
  split
  · exact ok
  · simp only
    split
    · rename_i code _
      split
      · exact first
      · rename_i ends
        unfold complete
        rw [if_pos here]
        have ended_ : s.callbacks = [] ∧ (some code.toNat = some 100 ∨ s.frames = 0) := by
          rcases steady with zero | three | empty | ⟨hundred, alone⟩
          · exact absurd (.inl zero) ends
          · exact absurd (.inr three) ends
          · have no : s.chunks = [] := by
              have left : s.bytesLeft = 0 := Nat.le_zero.mp (empty ▸ ranges.2.1)
              have ranges := ranges.1
              rw [left] at ranges
              cases taken : s.chunks with
              | nil => rfl
              | cons c chunks =>
                  rw [taken] at ranges
                  exact absurd (ranges.2.1.trans_le ranges.2.2.le) (lt_irrefl _)
            exact ⟨(ok.chunks.empty no).2, .inr empty⟩
          · exact ⟨alone, .inl (congrArg some hundred)⟩
        refine ⟨⟨ok.chunks.inside, ok.chunks.stored, ok.chunks.distinct, ok.chunks.empty⟩, ok.quiet, ok.marked, ranges,
          fun i c at_ unwritten => ?_, fun _ => ended_, fun other => absurd other (by simp)⟩
        rcases ok.waiting i c at_ unwritten with callback | ⟨guarded, left, flushing⟩
        · exact .inl callback
        · exact absurd (here.symm.trans flushing) (by simp)
    · obtain ⟨marked, grown⟩ := x.unpack_spec value ok.marked
      have chunks := ok.chunks.grown grown
      have received : ({ s with firstDataReceived := true, received := x.unpack value s.received } : SdSync).Ok x :=
        ⟨⟨chunks.inside, chunks.stored, chunks.distinct, chunks.empty⟩, ok.quiet, marked,
          ranges_listening here ⟨ranges.1, ranges.2.1.trans grown.length_le, ranges.2.2⟩, ok.waiting,
          fun other => absurd here other, fun other => ok.clearing other⟩
      split
      · rename_i markers
        exact received.chunkLoop here markers _
      · exact received

/-! ## Writing a chunk -/

theorem name_timerStart {a b : Int} (same : x.getFileNameByTimeStarts a = x.getFileNameByTimeStarts b) : a = b :=
  Phone.getFileName_timerStart same

/-- What a write and a registration that go through change. -/
theorem flushToDisk_whole {n : Nat} {chunk : Chunk} (going : s.isCancelled = false) :
    s.flushToDisk x n chunk .whole = (true, { s with
      files := Dict.put s.files (x.getFileNameByTimeStarts chunk.timerStart)
        ((s.content chunk).take (chunk.stop - chunk.start))
      wals := addExternalWal x.sessionLocation s.wals (chunkWal x chunk)
      chunks := s.chunks.set n { chunk with stored := true } }) := by
  unfold flushToDisk
  have still : (s.writeFile x chunk (chunk.stop - chunk.start)).isCancelled = false := going
  simp only [still]
  rfl

theorem flushToDisk_failed {n : Nat} {chunk : Chunk} {written : Written} (failed : (s.flushToDisk x n chunk written).1 = false) :
    (s.flushToDisk x n chunk written).2.main = s.main ∧ (written ≠ .whole ∨ s.isCancelled = true) ∧
      (s.flushToDisk x n chunk written).2.chunksDownloaded = s.chunksDownloaded := by
  unfold flushToDisk at failed ⊢
  split
  · exact ⟨rfl, .inl (by simp), rfl⟩
  · exact ⟨rfl, .inl (by simp), rfl⟩
  · simp only at failed ⊢
    split
    · rename_i cancelled
      exact ⟨rfl, .inr cancelled, rfl⟩
    · rename_i going
      rw [if_neg going] at failed
      cases failed

theorem flushToDisk_stored {n : Nat} {chunk : Chunk} {written : Written} (stored : (s.flushToDisk x n chunk written).1 = true) :
    written = .whole ∧ s.isCancelled = false := by
  cases written with
  | failed left => cases left <;> cases stored
  | whole =>
      refine ⟨rfl, ?_⟩
      by_contra cancelled
      have cancelled : s.isCancelled = true := by simpa using cancelled
      have still : (s.writeFile x chunk (chunk.stop - chunk.start)).isCancelled = true := cancelled
      unfold flushToDisk at stored
      simp only [still, if_true] at stored
      cases stored

theorem ChunksOk.flushed (ok : s.ChunksOk x) {n : Nat} {chunk : Chunk} (here : s.chunks[n]? = some chunk)
    (fresh : s.Fresh x n) (going : s.isCancelled = false) : (s.flushToDisk x n chunk .whole).2.ChunksOk x := by
  obtain ⟨apart, new⟩ := fresh chunk here
  rw [flushToDisk_whole going]
  have whole : (s.content chunk).take (chunk.stop - chunk.start) = s.content chunk := by
    rw [content, List.take_take, Nat.min_self]
  have cases_ : ∀ {i : Nat} {c : Chunk}, (s.chunks.set n { chunk with stored := true })[i]? = some c →
      (i = n ∧ c = { chunk with stored := true }) ∨ (i ≠ n ∧ s.chunks[i]? = some c) := by
    intro i c at_
    by_cases same : i = n
    · subst same
      rw [List.getElem?_set_self (List.getElem?_eq_some_iff.mp here).1] at at_
      cases at_
      exact .inl ⟨rfl, rfl⟩
    · rw [List.getElem?_set_ne (Ne.symm same)] at at_
      exact .inr ⟨same, at_⟩
  have member : ∀ c ∈ s.chunks.set n { chunk with stored := true }, c = { chunk with stored := true } ∨ c ∈ s.chunks := by
    intro c member
    obtain ⟨i, at_⟩ := List.mem_iff_getElem?.mp member
    rcases cases_ at_ with ⟨-, rfl⟩ | ⟨-, old⟩
    · exact .inl rfl
    · exact .inr (List.mem_of_getElem? old)
  have inside : chunk.stop ≤ s.frames := ok.inside chunk (List.mem_of_getElem? here)
  refine ⟨fun c listed => ?_, fun c listed written => ?_, fun i j c d first second written written' same => ?_, fun none => ?_⟩
  · rcases member c listed with rfl | old
    · exact inside
    · exact ok.inside c old
  · rcases member c listed with rfl | old
    · refine ⟨?_, Phone.added_addExternalWal x.sessionLocation new⟩
      change Dict.get (Dict.put s.files _ _) _ = some (s.content chunk)
      rw [Dict.get_put_self, whole]
    · obtain ⟨file, w, registered, path⟩ := ok.stored c old written
      refine ⟨?_, w, Phone.mem_addExternalWal registered, path⟩
      change Dict.get (Dict.put s.files _ _) _ = some (s.content c)
      rw [Dict.get_put_other _ fun equal => apart c old written (name_timerStart equal)]
      exact file
  · rcases cases_ first with ⟨rfl, rfl⟩ | ⟨other, old⟩
    · rcases cases_ second with ⟨rfl, -⟩ | ⟨-, old'⟩
      · rfl
      · exact absurd same.symm (apart d (List.mem_of_getElem? old') written')
    · rcases cases_ second with ⟨rfl, rfl⟩ | ⟨-, old'⟩
      · exact absurd same (apart c (List.mem_of_getElem? old) written)
      · exact ok.distinct i j c d old old' written written' same
  · refine ok.empty ?_
    have length := congrArg List.length none
    rw [List.length_set] at length
    exact List.length_eq_zero_iff.mp length

theorem range_set {chunks : List Chunk} {n : Nat} {chunk : Chunk} (here : chunks[n]? = some chunk) :
    (chunks.set n { chunk with stored := true }).map Chunk.range = chunks.map Chunk.range := by
  rw [List.map_set]
  apply List.ext_getElem?
  intro i
  by_cases same : i = n
  · subst same
    rw [List.getElem?_set_self (by rw [List.length_map]; exact (List.getElem?_eq_some_iff.mp here).1), List.getElem?_map, here]
    rfl
  · rw [List.getElem?_set_ne (Ne.symm same)]

/-- The chunk of this flight is stored; the other flights go on. -/
theorem waiting_flushed {n : Nat} {chunk : Chunk} (here : s.chunks[n]? = some chunk) {i : Nat} {c : Chunk}
    (at_ : (s.chunks.set n { chunk with stored := true })[i]? = some c) (unwritten : c.stored = false) :
    i ≠ n ∧ s.chunks[i]? = some c := by
  by_cases same : i = n
  · subst same
    rw [List.getElem?_set_self (List.getElem?_eq_some_iff.mp here).1] at at_
    cases at_
    cases unwritten
  · rw [List.getElem?_set_ne (Ne.symm same)] at at_
    exact ⟨same, at_⟩

/-! ## The main task -/

/-- A flight that ends leaves what the others have. -/
theorem Ok.nextSegment (chunks : s.ChunksOk x) (quiet : s.hasError = false) (marked : s.received.Marked)
    (waiting : ∀ c ∈ s.chunks, c.stored = true) (ended_ : s.callbacks = [] ∧ (s.endedBy = some 100 ∨ s.frames = 0))
    {left : List Segment} {reached : Nat} (ranges : Consecutive 0 (s.chunks.map Chunk.range) reached)
    (rest : Consecutive reached (left.map Segment.range) s.frames) (alive : (s.nextSegment left).Alive) :
    (s.nextSegment left).Ok x := by
  unfold SdSync.nextSegment at alive ⊢
  cases left with
  | nil =>
      obtain rfl : reached = s.frames := rest
      simp only at alive ⊢
      by_cases none : s.chunksDownloaded = 0
      · rw [if_pos none] at alive
        exact absurd rfl alive.2
      · rw [if_neg none]
        refine ⟨⟨chunks.inside, chunks.stored, chunks.distinct, chunks.empty⟩, quiet, marked, ranges,
          fun i c at_ unwritten => ?_, fun _ => ended_, fun _ => none⟩
        have written := waiting c (List.mem_of_getElem? at_)
        rw [unwritten] at written
        cases written
  | cons segment left =>
      obtain ⟨start, more, rest⟩ := rest
      have start : segment.start = reached := start
      have taken := chunks.snoc (c := Chunk.mk segment.start segment.stop segment.timerStart false) (rest.le) rfl
      refine ⟨⟨taken.inside, taken.stored, taken.distinct, fun none => absurd none (by simp)⟩, quiet, marked,
        ⟨by simp, segment.stop, ?_, rest⟩, fun i c at_ unwritten => ?_, fun _ => ended_, fun other => absurd other (by simp)⟩
      · change Consecutive 0 ((s.chunks ++ [_]).map Chunk.range) segment.stop
        rw [List.map_append]
        refine ranges.append ⟨start, more, rfl⟩
      · rcases getElem?_snoc at_ with old | ⟨rfl, -⟩
        · have written := waiting c (List.mem_of_getElem? old)
          rw [unwritten] at written
          cases written
        · exact .inr ⟨_, _, rfl⟩

theorem all_stored (ok : s.Ok x) (idle : ∀ i, ¬s.InFlight i) : ∀ c ∈ s.chunks, c.stored = true := by
  intro c member
  obtain ⟨i, at_⟩ := List.mem_iff_getElem?.mp member
  by_contra unwritten
  exact idle i (ok.waiting i c at_ (by simpa using unwritten))

theorem Ok.finish (ok : s.Ok x) (here : s.main = .ended) (nowSeconds : Int)
    (alive : (s.nextSegment (s.segments x nowSeconds)).Alive) : (s.nextSegment (s.segments x nowSeconds)).Ok x := by
  have ended_ := ok.ended (by rw [here]; simp)
  have ranges := ok.ranges
  unfold Ranges at ranges
  rw [here] at ranges
  obtain ⟨ranges, inside, legacy⟩ := ranges
  have idle : ∀ i, ¬s.InFlight i := by
    rintro i (⟨callback, member, -⟩ | ⟨guarded, left, flushing⟩)
    · rw [ended_.1] at member
      exact absurd member List.not_mem_nil
    · exact absurd (here.symm.trans flushing) (by simp)
  refine Ok.nextSegment ok.chunks ok.quiet ok.marked (all_stored ok idle) ended_ ranges ?_ alive
  unfold segments
  rw [if_neg (by rw [ok.quiet]; simp)]
  split
  · split
    · exact consecutive_markedSegments ok.marked.sorted inside (fun m _ above => above.le) s.timerStart
    · rename_i whole
      exact Nat.le_antisymm inside (Nat.not_lt.mp whole)
  · rename_i markers
    rw [legacy (by simpa using markers)]
    exact consecutive_legacySegments (chunkSize_pos x) _ _ _

theorem Ok.mainWrite (ok : s.Ok x) {n : Nat} {guarded : Bool} {left : List Segment}
    (here : s.main = .flushing (.writing n) guarded left) {chunk : Chunk} (at_ : s.chunks[n]? = some chunk)
    (fresh : s.Fresh x n) (going : s.isCancelled = false) :
    ({ (s.flushToDisk x n chunk .whole).2 with main := .flushing (.registering n) guarded left } : SdSync).Ok x := by
  have chunks := ok.chunks.flushed at_ fresh going
  have ended_ := ok.ended (by rw [here]; simp)
  have ranges := ok.ranges
  unfold Ranges at ranges
  rw [here] at ranges
  obtain ⟨taken, reached, ranges, rest⟩ := ranges
  rw [flushToDisk_whole going] at chunks ⊢
  refine ⟨⟨chunks.inside, chunks.stored, chunks.distinct, chunks.empty⟩, ok.quiet, ok.marked,
    ⟨fun none => taken ?_, reached, ?_, rest⟩,
    fun i c written unwritten => ?_, fun _ => ended_, fun other => absurd other (by simp)⟩
  · have length := congrArg List.length none
    rw [List.length_set] at length
    exact List.length_eq_zero_iff.mp length
  · change Consecutive 0 ((s.chunks.set n _).map Chunk.range) reached
    rw [range_set at_]
    exact ranges
  · obtain ⟨other, old⟩ := waiting_flushed at_ written unwritten
    rcases ok.waiting i c old unwritten with ⟨callback, member, -⟩ | ⟨guarded', left', flushing⟩
    · rw [ended_.1] at member
      exact absurd member List.not_mem_nil
    · exact absurd (Flush.writing.inj (Main.flushing.inj (here.symm.trans flushing)).1).symm other

theorem Ok.mainRegister (ok : s.Ok x) {n : Nat} {guarded : Bool} {left : List Segment}
    (here : s.main = .flushing (.registering n) guarded left)
    (alive : ({ s with chunksDownloaded := s.chunksDownloaded + 1 }.nextSegment left).Alive) :
    ({ s with chunksDownloaded := s.chunksDownloaded + 1 }.nextSegment left).Ok x := by
  have ended_ := ok.ended (by rw [here]; simp)
  have ranges := ok.ranges
  unfold Ranges at ranges
  rw [here] at ranges
  obtain ⟨taken, reached, ranges, rest⟩ := ranges
  have idle : ∀ i, ¬s.InFlight i := by
    rintro i (⟨callback, member, -⟩ | ⟨guarded', left', flushing⟩)
    · rw [ended_.1] at member
      exact absurd member List.not_mem_nil
    · exact absurd (Main.flushing.inj (here.symm.trans flushing)).1 (by simp)
  have stored : ∀ c ∈ s.chunks, c.stored = true := all_stored ok idle
  have counted : ({ s with chunksDownloaded := s.chunksDownloaded + 1 } : SdSync).ChunksOk x :=
    ⟨ok.chunks.inside, ok.chunks.stored, ok.chunks.distinct, fun none => absurd none taken⟩
  exact Ok.nextSegment counted ok.quiet ok.marked stored ended_ ranges rest alive

/-! ## The callbacks -/

theorem resumeCallback_main (callback : Callback) (chunk : Chunk) : (s.resumeCallback x callback chunk).main = s.main := by
  unfold SdSync.resumeCallback SdSync.chunkLoop SdSync.markerStep
  simp only
  split
  · split <;> rfl
  · split
    · rfl
    · split <;> rfl

theorem completeError_main (here : s.main = .listening) : s.completeError.main = .threw := by
  unfold completeError
  rw [if_pos here]

/-- A callback that awaits the disk is one of a transfer with markers that still goes on. -/
theorem Ok.awaiting (ok : s.Ok x) {i : Nat} {callback : Callback} (here : s.callbacks[i]? = some callback) :
    s.main = .listening ∧ x.supportsTimestampMarkers = true := by
  have some_ : s.callbacks ≠ [] := List.ne_nil_of_mem (List.mem_of_getElem? here)
  have listening : s.main = .listening := by
    by_contra other
    exact some_ (ok.ended other).1
  refine ⟨listening, ?_⟩
  by_contra plain
  obtain ⟨ranges, -, legacy⟩ := ok.ranges.listening listening
  rw [legacy (by simpa using plain)] at ranges
  refine some_ (ok.chunks.empty ?_).2
  cases taken : s.chunks with
  | nil => rfl
  | cons c chunks =>
      rw [taken] at ranges
      exact absurd (ranges.2.1.trans_le ranges.2.2.le) (lt_irrefl _)

theorem mem_set_other {i : Nat} {callbacks : List Callback} {old new other : Callback} (here : callbacks[i]? = some old)
    (apart : other ≠ old) (member : other ∈ callbacks) : other ∈ callbacks.set i new := by
  obtain ⟨j, at_⟩ := List.mem_iff_getElem?.mp member
  have moved : i ≠ j := by
    rintro rfl
    exact apart (Option.some.inj (at_.symm.trans here))
  exact List.mem_of_getElem? ((List.getElem?_set_ne moved).trans at_)

theorem Ok.callbackWrite (ok : s.Ok x) {i n : Nat} {callback : Callback} (here : s.callbacks[i]? = some callback)
    (writing : callback.flush = .writing n) {chunk : Chunk} (at_ : s.chunks[n]? = some chunk) (fresh : s.Fresh x n)
    (going : s.isCancelled = false) :
    ({ (s.flushToDisk x n chunk .whole).2 with
      callbacks := s.callbacks.set i { callback with flush := .registering n } } : SdSync).Ok x := by
  have chunks := ok.chunks.flushed at_ fresh going
  obtain ⟨listening, -⟩ := ok.awaiting here
  obtain ⟨ranges, inside, legacy⟩ := ok.ranges.listening listening
  rw [flushToDisk_whole going] at chunks ⊢
  refine ⟨⟨chunks.inside, chunks.stored, chunks.distinct, fun none => ?_⟩, ok.quiet, ok.marked,
    ranges_listening listening ⟨?_, inside, legacy⟩, fun j c written unwritten => ?_, fun other => absurd listening other,
    fun other => ok.clearing other⟩
  · obtain ⟨-, idle⟩ := chunks.empty none
    have idle : s.callbacks = [] := idle
    rw [idle] at here
    cases here
  · change Consecutive 0 ((s.chunks.set n _).map Chunk.range) s.bytesLeft
    rw [range_set at_]
    exact ranges
  · obtain ⟨other, old⟩ := waiting_flushed at_ written unwritten
    rcases ok.waiting j c old unwritten with ⟨callback', member, flight⟩ | flight
    · refine .inl ⟨callback', mem_set_other here (fun same => other ?_) member, flight⟩
      rw [same, writing] at flight
      exact (Flush.writing.inj flight).symm
    · exact .inr flight

theorem Ok.callbackRegister (ok : s.Ok x) {i n : Nat} {callback : Callback} (here : s.callbacks[i]? = some callback)
    (registering : callback.flush = .registering n) {chunk : Chunk} (at_ : s.chunks[n]? = some chunk) :
    ({ s with callbacks := s.callbacks.eraseIdx i, chunksDownloaded := s.chunksDownloaded + 1 } : SdSync).Ok x := by
  obtain ⟨listening, -⟩ := ok.awaiting here
  have ranges := ok.ranges.listening listening
  have taken : s.chunks ≠ [] := List.ne_nil_of_mem (List.mem_of_getElem? at_)
  refine ⟨⟨ok.chunks.inside, ok.chunks.stored, ok.chunks.distinct, fun none => absurd none taken⟩, ok.quiet, ok.marked,
    ranges_listening listening ranges, fun j c old unwritten => ?_, fun other => absurd listening other,
    fun other => absurd (ok.clearing other) (by rcases other with other | other <;> simp [listening] at other)⟩
  rcases ok.waiting j c old unwritten with ⟨callback', member, flight⟩ | flight
  · obtain ⟨k, there⟩ := List.mem_iff_getElem?.mp member
    refine .inl ⟨callback', List.mem_eraseIdx_iff_getElem?.mpr ⟨k, ?_, there⟩, flight⟩
    rintro rfl
    rw [Option.some.inj (there.symm.trans here), registering] at flight
    cases flight
  · exact .inr flight

/-! ## The runs -/

theorem flushToDisk_main {n : Nat} {chunk : Chunk} {written : Written} : (s.flushToDisk x n chunk written).2.main = s.main := by
  unfold flushToDisk
  split
  · rfl
  · rfl
  · simp only
    split <;> rfl

theorem flushToDisk_callbacks {n : Nat} {chunk : Chunk} {written : Written} :
    (s.flushToDisk x n chunk written).2.callbacks = s.callbacks := by
  unfold flushToDisk
  split
  · rfl
  · rfl
  · simp only
    split <;> rfl

theorem completeError_dead (dead : ¬s.Alive) : s.completeError.main = s.main := by
  unfold completeError
  simp only
  split
  · rename_i here
    exact absurd ⟨by rw [here]; simp, by rw [here]; simp⟩ dead
  · rfl

/-- A run that has thrown or read nothing stays there, so what may clear the card was alive before. -/
theorem Alive.before {a : Action} (alive : t.Alive) (done : s.act x a = some t) : s.Alive := by
  by_contra dead
  have main : t.main = s.main := by
    have ended : s.main = .threw ∨ s.main = .nothing := by
      by_contra other
      exact dead (not_or.mp other)
    have quiet : ∀ {m : Main}, m ≠ .threw → m ≠ .nothing → s.main ≠ m := by
      rintro m first second here
      rcases ended with there | there
      · exact first (here.symm.trans there)
      · exact second (here.symm.trans there)
    cases a with
    | packet value =>
        simp only [act, if_neg (quiet (m := .listening) (by simp) (by simp))] at done
        cases done
    | timeout =>
        have away := quiet (m := .listening) (by simp) (by simp)
        simp only [act, away, false_and, if_false] at done
        cases done
    | cancelSync =>
        cases done
        rfl
    | foreignWal wal =>
        cases done
        rfl
    | callbackWrite i written =>
        obtain ⟨callback, -, done⟩ := Option.bind_eq_some_iff.mp done
        split at done
        · cases done
        · obtain ⟨chunk, -, done⟩ := Option.bind_eq_some_iff.mp done
          rename_i n _ _
          simp only at done
          split at done
          · cases done
            exact flushToDisk_main
          · cases done
            rw [resumeCallback_main, completeError_dead]
            · exact flushToDisk_main
            · intro going
              refine dead ?_
              unfold Alive at going ⊢
              rwa [show ({ (s.flushToDisk x n chunk written).2 with callbacks := _ } : SdSync).main = s.main from
                flushToDisk_main] at going
    | callbackRegister i listSaved =>
        obtain ⟨callback, -, done⟩ := Option.bind_eq_some_iff.mp done
        split at done
        · cases done
        · obtain ⟨chunk, -, done⟩ := Option.bind_eq_some_iff.mp done
          simp only at done
          split at done
          · cases done
            exact resumeCallback_main _ _
          · cases done
            rw [resumeCallback_main, completeError_dead]
            exact dead
    | finish nowSeconds =>
        simp only [act, if_neg (quiet (m := .ended) (by simp) (by simp))] at done
        cases done
    | mainWrite written =>
        simp only [act] at done
        split at done
        · rename_i here
          exact absurd here (quiet (by simp) (by simp))
        · cases done
    | mainRegister listSaved =>
        simp only [act] at done
        split at done
        · rename_i here
          exact absurd here (quiet (by simp) (by simp))
        · cases done
    | clear =>
        simp only [act, if_neg (quiet (m := .clearing) (by simp) (by simp))] at done
        cases done
  unfold Alive at alive dead
  rw [main] at alive
  exact dead alive

theorem mainFailed_dead {guarded : Bool} (none : guarded = true → s.chunksDownloaded = 0) : ¬(s.mainFailed guarded).Alive := by
  unfold mainFailed
  split
  · rename_i swallowed
    unfold SdSync.nextSegment
    simp only [none swallowed, if_true]
    exact fun alive => alive.2 rfl
  · exact fun alive => alive.1 rfl

theorem Ok.act (ok : s.Ok x) {a : Action} (steady : a.Steady x s) (done : s.act x a = some t) (alive : t.Alive) : t.Ok x := by
  cases a with
  | packet value =>
      simp only [SdSync.act] at done
      split at done
      · rename_i here
        cases done
        exact ok.packet here steady
      · cases done
  | timeout =>
      simp only [SdSync.act] at done
      split at done
      · rename_i here
        cases done
        exact absurd (completeError_main here.1) alive.1
      · cases done
  | cancelSync =>
      cases done
      exact ⟨⟨ok.chunks.inside, ok.chunks.stored, ok.chunks.distinct, ok.chunks.empty⟩, ok.quiet, ok.marked, ok.ranges,
        ok.waiting, ok.ended, ok.clearing⟩
  | foreignWal wal =>
      cases done
      refine ⟨⟨ok.chunks.inside, fun c member written => ?_, ok.chunks.distinct, ok.chunks.empty⟩, ok.quiet, ok.marked,
        ok.ranges, ok.waiting, ok.ended, ok.clearing⟩
      obtain ⟨file, w, registered, path⟩ := ok.chunks.stored c member written
      exact ⟨file, w, Phone.mem_addExternalWal registered, path⟩
  | callbackWrite i written =>
      obtain ⟨callback, here, done⟩ := Option.bind_eq_some_iff.mp done
      split at done
      · cases done
      · rename_i n writing
        obtain ⟨chunk, at_, done⟩ := Option.bind_eq_some_iff.mp done
        obtain ⟨listening, -⟩ := ok.awaiting here
        simp only at done
        split at done
        · rename_i stored
          obtain ⟨rfl, going⟩ := flushToDisk_stored stored
          cases done
          have fresh : s.Fresh x n := by
            obtain ⟨flush, nextMarkerIdx, atMarker⟩ := callback
            obtain rfl : flush = .writing n := writing
            simp only [Action.Steady, here] at steady
            exact steady trivial going
          rw [flushToDisk_callbacks]
          exact ok.callbackWrite here writing at_ fresh going
        · cases done
          refine absurd ?_ alive.1
          rw [resumeCallback_main]
          exact completeError_main (flushToDisk_main.trans listening)
  | callbackRegister i listSaved =>
      obtain ⟨callback, here, done⟩ := Option.bind_eq_some_iff.mp done
      split at done
      · cases done
      · rename_i n registering
        obtain ⟨chunk, at_, done⟩ := Option.bind_eq_some_iff.mp done
        obtain ⟨listening, markers⟩ := ok.awaiting here
        simp only at done
        split at done
        · cases done
          exact (ok.callbackRegister here registering at_).resumeCallback listening markers callback chunk
        · cases done
          refine absurd ?_ alive.1
          rw [resumeCallback_main]
          exact completeError_main listening
  | finish nowSeconds =>
      simp only [SdSync.act] at done
      split at done
      · rename_i here
        cases done
        exact ok.finish here nowSeconds alive
      · cases done
  | mainWrite written =>
      simp only [SdSync.act] at done
      split at done
      · rename_i n guarded left here
        obtain ⟨chunk, at_, done⟩ := Option.bind_eq_some_iff.mp done
        simp only [Action.Steady, here] at steady
        split at done
        · rename_i stored
          obtain ⟨rfl, going⟩ := flushToDisk_stored stored
          cases done
          exact ok.mainWrite here at_ (steady.1 rfl going) going
        · rename_i failed
          obtain ⟨-, reason, downloaded⟩ := flushToDisk_failed (by simpa using failed)
          cases done
          exact absurd alive (mainFailed_dead fun swallowed => downloaded.trans (steady.2 reason swallowed))
      · cases done
  | mainRegister listSaved =>
      simp only [SdSync.act] at done
      split at done
      · rename_i n guarded left here
        simp only [Action.Steady, here] at steady
        split at done
        · cases done
          exact ok.mainRegister here alive
        · rename_i failed
          cases done
          exact absurd alive (mainFailed_dead (steady (by simpa using failed)))
      · cases done
  | clear =>
      simp only [SdSync.act] at done
      split at done
      · rename_i here
        cases done
        have ranges := ok.ranges
        unfold Ranges at ranges
        rw [here] at ranges
        have ended_ := ok.ended (by rw [here]; simp)
        refine ⟨⟨ok.chunks.inside, ok.chunks.stored, ok.chunks.distinct, ok.chunks.empty⟩, ok.quiet, ok.marked, ranges,
          fun i c at_ unwritten => ?_, fun _ => ended_, fun _ => ok.clearing (.inl here)⟩
        rcases ok.waiting i c at_ unwritten with ⟨callback, member, -⟩ | ⟨guarded, left, flushing⟩
        · rw [ended_.1] at member
          exact absurd member List.not_mem_nil
        · exact absurd (here.symm.trans flushing) (by simp)
      · cases done

theorem Started.ok (started : s.Started x) : s.Ok x := by
  have none : s.chunks = [] := started.chunks
  have no : ∀ c, c ∉ s.chunks := fun c member => by
    rw [none] at member
    exact absurd member List.not_mem_nil
  have at_ : ∀ {i : Nat} {c : Chunk}, s.chunks[i]? ≠ some c := fun here => no _ (List.mem_of_getElem? here)
  refine ⟨⟨fun c member => absurd member (no c), fun c member => absurd member (no c),
      fun i j c d first => absurd first at_, fun _ => ⟨started.chunksDownloaded, started.callbacks⟩⟩, started.hasError,
    by rw [started.received]; exact ⟨.nil, fun m member => absurd member List.not_mem_nil⟩,
    ranges_listening started.main ?_, fun i c here => absurd here at_, fun other => absurd started.main other, ?_⟩
  · rw [none, started.bytesLeft]
    exact ⟨rfl, Nat.zero_le _, fun _ => rfl⟩
  · rintro (other | other) <;> exact absurd (started.main.symm.trans other) (by simp)

def sampleCard : Card :=
  { wal := { timerStart := 1700000000, codec := .opus, seconds := 0, device := "pendant", status := .miss, storage := .sdcard }
    supportsTimestampMarkers := true
    sessionLocation := none }

def sampleSync : SdSync :=
  { received := ⟨[], []⟩, bytesLeft := 0, timerStart := 1700000000, hasError := false, firstDataReceived := false
    callbacks := [], main := .listening, chunksDownloaded := 0, isCancelled := false, files := [], wals := []
    endedBy := none, chunks := [] }

theorem sampleSync_started : sampleSync.Started sampleCard := ⟨rfl, rfl, rfl, rfl, rfl, rfl, rfl, rfl, rfl⟩

def sampleFrame : Bytes := List.replicate 254 8

/-- A frame, a marker for a second not long after 1700000000, and a frame; the packet ends in one that is cut off. -/
def samplePacket (second : UInt8) : Bytes :=
  [1, 7, 0xff, second, 0xf1, 0x53, 0x65, 254] ++ sampleFrame ++ List.replicate 178 254

/-- The frame before the marker is written while the packet is handled, the other one at the end. -/
def sampleRun (second : UInt8) : List Action :=
  [.packet (samplePacket second), .callbackWrite 0 .whole, .callbackRegister 0 true, .packet [100], .finish 1700000100,
    .mainWrite .whole, .mainRegister true, .clear]

def guarded (s : SdSync) (a : Action) : Option SdSync := if a.Steady sampleCard s then s.act sampleCard a else none

theorem reachedSteady_of_guarded {actions : List Action} (done : actions.foldlM guarded sampleSync = some s) :
    ReachedSteady sampleCard s := by
  refine Reachable.actions (fun a _ s t step => ?_) (.start sampleSync_started) done
  unfold guarded at step
  split at step
  · rename_i steady
    exact ⟨steady, step⟩
  · cases step

def outcome (s : SdSync) : Main × List (List Bytes) := (s.main, s.files.map Prod.snd)

end SdSync
end OmiLocal.Wals.SdCard
