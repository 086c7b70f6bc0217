import OmiLocal.Wals.SdCardSafety

/-!
# When the chunks of a marked card begin

A timestamp marker gives the time of the frame behind it. The packet callback
applies a marker only when it cuts off a chunk there. A marker that comes where
all frames before it are taken, or at which a whole chunk happens to end, is
never heard, and of several at one place the callback hears the first. The runs
without these three have every chunk at the time that its markers say.
-/
namespace OmiLocal.Wals.SdCard
open Lib Lib.Framing Lib.Transition

/-! ## Times by the markers -/

/-- The markers of a card, each with the number of frames before it. -/
abbrev Markers := List (Nat × Int)

/-- Frames `start` to `stop`, and the time given to the first of them. -/
structure Span where
  start : Nat
  stop : Nat
  timerStart : Int
  deriving DecidableEq

def Chunk.span (c : Chunk) : Span := ⟨c.start, c.stop, c.timerStart⟩

def Segment.span (g : Segment) : Span := ⟨g.start, g.stop, g.timerStart⟩

def Span.range (c : Span) : Nat × Nat := (c.start, c.stop)

def Span.seconds (x : Card) (c : Span) : Int := (c.stop - c.start) / x.framesPerSecond

/-- The last marker at or before a frame. -/
def lastMarker (markers : Markers) (frame : Nat) : Option (Nat × Int) := (markers.filter fun m => m.1 ≤ frame).getLast?

/-- The whole seconds of the chunks from a frame on. -/
def secondsSince (x : Card) (spans : List Span) (frame : Nat) : Int :=
  ((spans.filter fun c => frame ≤ c.start).map fun c => c.seconds x).sum

/-- The time of a frame behind these chunks: the epoch of its marker, or the recording's start, and the whole seconds of
the chunks since. -/
def markedTime (x : Card) (markers : Markers) (earlier : List Span) (frame : Nat) : Int :=
  match lastMarker markers frame with
  | some m => m.2 + secondsSince x earlier m.1
  | none => x.wal.timerStart + secondsSince x earlier 0

/-- Each chunk has the time of its first frame. -/
def Timed (x : Card) (markers : Markers) (spans : List Span) : Prop :=
  ∀ earlier c later, spans = earlier ++ c :: later → c.timerStart = markedTime x markers earlier c.start

/-- No chunk has frames from both sides of a marker. -/
def Uncut (markers : Markers) (spans : List Span) : Prop := ∀ c ∈ spans, ∀ m ∈ markers, ¬(c.start < m.1 ∧ m.1 < c.stop)

section Spans
variable {x : Card} {markers more : Markers} {spans : List Span} {c : Span} {frame : Nat}

theorem lastMarker_append (later : ∀ m ∈ more, frame < m.1) : lastMarker (markers ++ more) frame = lastMarker markers frame := by
  have none : more.filter (fun m => m.1 ≤ frame) = [] := by
    rw [List.filter_eq_nil_iff]
    intro m member
    simpa using later m member
  rw [lastMarker, List.filter_append, none, List.append_nil, lastMarker]

theorem lastMarker_concat {m : Nat × Int} (here : m.1 ≤ frame) : lastMarker (markers ++ [m]) frame = some m := by
  have kept : [m].filter (fun m => m.1 ≤ frame) = [m] := by simpa using here
  rw [lastMarker, List.filter_append, kept, List.getLast?_concat]

/-- Frames with the same markers before them have the same last marker. -/
theorem lastMarker_congr {other : Nat} (same : ∀ m ∈ markers, m.1 ≤ frame ↔ m.1 ≤ other) :
    lastMarker markers frame = lastMarker markers other := by
  rw [lastMarker, lastMarker]
  congr 1
  exact List.filter_congr fun m member => decide_eq_decide.mpr (same m member)

theorem markedTime_append (later : ∀ m ∈ more, frame < m.1) :
    markedTime x (markers ++ more) spans frame = markedTime x markers spans frame := by
  rw [markedTime, markedTime, lastMarker_append later]

theorem secondsSince_concat (begun : frame ≤ c.start) :
    secondsSince x (spans ++ [c]) frame = secondsSince x spans frame + c.seconds x := by
  have kept : [c].filter (fun c => frame ≤ c.start) = [c] := by simpa using begun
  rw [secondsSince, List.filter_append, kept, List.map_append, List.sum_append, List.map_singleton, List.sum_singleton,
    secondsSince]

theorem secondsSince_none (before : ∀ c ∈ spans, c.start < frame) : secondsSince x spans frame = 0 := by
  have none : spans.filter (fun c => frame ≤ c.start) = [] := by
    rw [List.filter_eq_nil_iff]
    intro c member
    simpa using before c member
  rw [secondsSince, none]
  rfl

theorem Timed.nil : Timed x markers [] := fun earlier c later split_ => by simp at split_

theorem Timed.concat (timed : Timed x markers spans) (here : c.timerStart = markedTime x markers spans c.start) :
    Timed x markers (spans ++ [c]) := by
  intro earlier d later split_
  rcases List.eq_nil_or_concat later with rfl | ⟨rest, last, rfl⟩
  · obtain ⟨rfl, same⟩ := List.append_inj' split_ rfl
    obtain rfl := List.singleton_inj.mp same
    exact here
  · rw [List.concat_eq_append, ← List.cons_append, ← List.append_assoc] at split_
    exact timed earlier d rest (List.append_inj' split_ rfl).1

theorem Timed.left {more : List Span} (timed : Timed x markers (spans ++ more)) : Timed x markers spans := by
  rintro earlier d later rfl
  exact timed earlier d (later ++ more) (by rw [List.append_assoc, List.cons_append])

/-- New markers stand behind the chunks there are. -/
theorem Timed.grown (timed : Timed x markers spans) (nonempty : ∀ c ∈ spans, c.start < c.stop)
    (behind : ∀ m ∈ more, ∀ c ∈ spans, c.stop ≤ m.1) : Timed x (markers ++ more) spans := by
  intro earlier c later split_
  have member : c ∈ spans := by
    rw [split_]
    exact List.mem_append_right _ List.mem_cons_self
  rw [markedTime_append fun m new => (nonempty c member).trans_le (behind m new c member)]
  exact timed earlier c later split_

theorem Uncut.grown (uncut : Uncut markers spans) (behind : ∀ m ∈ more, ∀ c ∈ spans, c.stop ≤ m.1) :
    Uncut (markers ++ more) spans := by
  intro c member m among
  rcases List.mem_append.mp among with old | new
  · exact uncut c member m old
  · exact fun inside => absurd (behind m new c member) (Nat.not_le.mpr inside.2)

theorem Uncut.concat (uncut : Uncut markers spans) (here : ∀ m ∈ markers, ¬(c.start < m.1 ∧ m.1 < c.stop)) :
    Uncut markers (spans ++ [c]) := by
  intro d member
  rcases List.mem_append.mp member with old | new
  · exact uncut d old
  · rw [List.mem_singleton.mp new]
    exact here

/-- Behind a chunk that ends at no marker, the time goes on by its seconds. -/
theorem markedTime_goes_on (whole : ∀ m ∈ markers, ¬(c.start < m.1 ∧ m.1 < c.stop)) (free : ∀ m ∈ markers, m.1 ≠ c.stop)
    (forward : c.start ≤ c.stop) :
    markedTime x markers (spans ++ [c]) c.stop = markedTime x markers spans c.start + c.seconds x := by
  have same : lastMarker markers c.stop = lastMarker markers c.start := lastMarker_congr fun m member => by
    have inside := whole m member
    have here := free m member
    omega
  rw [markedTime, markedTime, same]
  cases last : lastMarker markers c.start with
  | none =>
      dsimp only
      rw [secondsSince_concat (Nat.zero_le _), Int.add_assoc]
  | some m =>
      have before : m.1 ≤ c.start := by
        have member := List.mem_of_getLast? last
        simpa using (List.mem_filter.mp member).2
      dsimp only
      rw [secondsSince_concat before, Int.add_assoc]

/-- At a marker the time is the marker's. -/
theorem markedTime_marker {m : Nat × Int} (last : lastMarker markers frame = some m) (here : m.1 = frame)
    (before : ∀ c ∈ spans, c.start < frame) : markedTime x markers spans frame = m.2 := by
  rw [markedTime, last]
  dsimp only
  rw [here, secondsSince_none before, Int.add_zero]

/-! ## What a packet adds to the markers -/

theorem unpackMarked_markers (value : Bytes) (fuel packageOffset : Nat) (r : Received) :
    ∃ more, (unpackMarked value fuel packageOffset r).timestampMarkers = r.timestampMarkers ++ more ∧
      ∀ m ∈ more, r.bytesData.length ≤ m.1 := by
  induction fuel generalizing packageOffset r with
  | zero => exact ⟨[], (List.append_nil _).symm, fun m member => absurd member List.not_mem_nil⟩
  | succ fuel ih =>
      have stays : ∃ more, r.timestampMarkers = r.timestampMarkers ++ more ∧ ∀ m ∈ more, r.bytesData.length ≤ m.1 :=
        ⟨[], (List.append_nil _).symm, fun m member => absurd member List.not_mem_nil⟩
      unfold unpackMarked
      split
      · exact stays
      · dsimp only
        split
        · exact ih _ r
        · split
          · split
            · obtain ⟨more, same, behind⟩ := ih (packageOffset + 5) { r with timestampMarkers :=
                r.timestampMarkers ++ [(r.bytesData.length, (epochAt value (packageOffset + 1) : Int))] }
              refine ⟨(r.bytesData.length, (epochAt value (packageOffset + 1) : Int)) :: more, ?_, fun m member => ?_⟩
              · rw [same, List.append_assoc, List.singleton_append]
              · rcases List.mem_cons.mp member with rfl | later
                · exact Nat.le_refl _
                · exact behind m later
            · exact ih _ r
          · split
            · exact stays
            · obtain ⟨more, same, behind⟩ := ih (packageOffset + (byteAt value packageOffset + 1)) { r with bytesData :=
                r.bytesData ++ [(value.take (packageOffset + 1 + byteAt value packageOffset)).drop (packageOffset + 1)] }
              refine ⟨more, same, fun m member => ?_⟩
              have longer := behind m member
              rw [List.length_append] at longer
              omega

theorem Card.unpack_markers (x : Card) (value : Bytes) (r : Received) :
    ∃ more, (x.unpack value r).timestampMarkers = r.timestampMarkers ++ more ∧ ∀ m ∈ more, r.bytesData.length ≤ m.1 := by
  have stays : ∃ more, r.timestampMarkers = r.timestampMarkers ++ more ∧ ∀ m ∈ more, r.bytesData.length ≤ m.1 :=
    ⟨[], (List.append_nil _).symm, fun m member => absurd member List.not_mem_nil⟩
  unfold Card.unpack
  split
  · exact stays
  · split
    · split
      · exact unpackMarked_markers value _ 0 r
      · exact stays
    · exact stays

/-! ## The frames left at the end -/

theorem split_markers (sorted : (markers.map Prod.fst).Pairwise (· ≤ ·)) (frame : Nat) :
    ∃ low high, markers = low ++ high ∧ (∀ m ∈ low, m.1 ≤ frame) ∧ ∀ m ∈ high, frame < m.1 := by
  induction markers with
  | nil => exact ⟨[], [], rfl, fun m member => absurd member List.not_mem_nil, fun m member => absurd member List.not_mem_nil⟩
  | cons m markers ih =>
      obtain ⟨first, sorted⟩ := List.pairwise_cons.mp sorted
      by_cases low_ : m.1 ≤ frame
      · obtain ⟨low, high, same, passed, above⟩ := ih sorted
        refine ⟨m :: low, high, congrArg (m :: ·) same, fun n member => ?_, above⟩
        rcases List.mem_cons.mp member with rfl | later
        · exact low_
        · exact passed n later
      · refine ⟨[], m :: markers, rfl, fun n member => absurd member List.not_mem_nil, fun n member => ?_⟩
        rcases List.mem_cons.mp member with rfl | later
        · exact Nat.not_le.mp low_
        · exact (Nat.not_le.mp low_).trans_le (first n.1 (List.mem_map_of_mem later))

theorem markedSegments_low {bytesLeft frames : Nat} {low high : Markers} (heard : ∀ m ∈ low, m.1 ≤ bytesLeft) (start : Nat)
    (epoch : Int) :
    SdSync.markedSegments bytesLeft frames (low ++ high) start epoch =
      SdSync.markedSegments bytesLeft frames high start epoch := by
  induction low with
  | nil => rfl
  | cons m low ih =>
      have here := heard m List.mem_cons_self
      rw [List.cons_append, SdSync.markedSegments, if_neg (by omega)]
      exact ih fun n member => heard n (List.mem_cons_of_mem m member)

/-- By induction on the markers not yet passed. `epoch` is the time of the frame `start` by those that are passed; the
last of several at one place prevails. -/
theorem markedSegments_times {bytesLeft frames : Nat} {passed left : Markers}
    (sorted : ((passed ++ left).map Prod.fst).Pairwise (· ≤ ·)) (above : ∀ m ∈ left, bytesLeft < m.1) {start : Nat}
    (reached : ∀ m ∈ left, start ≤ m.1) (behind : ∀ m ∈ passed, m.1 ≤ start ∨ frames ≤ m.1)
    (begun : ∀ c ∈ spans, c.start < start) {epoch : Int}
    (time : start < frames → epoch = markedTime x passed spans start) (timed : Timed x (passed ++ left) spans)
    (uncut : Uncut (passed ++ left) spans) :
    Timed x (passed ++ left) (spans ++ (SdSync.markedSegments bytesLeft frames left start epoch).map Segment.span) ∧
      Uncut (passed ++ left) (spans ++ (SdSync.markedSegments bytesLeft frames left start epoch).map Segment.span) := by
  induction left generalizing passed spans start epoch with
  | nil =>
      rw [List.append_nil] at timed uncut ⊢
      rw [SdSync.markedSegments]
      split
      · rename_i more
        refine ⟨timed.concat (time more), uncut.concat fun m member inside => ?_⟩
        have place := behind m member
        change start < m.1 ∧ m.1 < frames at inside
        omega
      · rw [List.map_nil, List.append_nil]
        exact ⟨timed, uncut⟩
  | cons m left ih =>
      have here := reached m List.mem_cons_self
      have split_ : passed ++ m :: left = (passed ++ [m]) ++ left := by rw [List.append_assoc, List.singleton_append]
      have later : ∀ n ∈ left, m.1 ≤ n.1 := by
        rw [List.map_append, List.map_cons, List.pairwise_append] at sorted
        exact fun n member => (List.pairwise_cons.mp sorted.2.1).1 n.1 (List.mem_map_of_mem member)
      have above_left : ∀ n ∈ left, bytesLeft < n.1 := fun n member => above n (List.mem_cons_of_mem m member)
      rw [SdSync.markedSegments]
      split
      · rename_i cut
        rcases Nat.eq_or_lt_of_le here with same | more
        · rw [if_neg (by omega), List.nil_append, ← same, split_]
          rw [split_] at sorted timed uncut
          refine ih sorted above_left (fun n member => same ▸ later n member) (fun n member => ?_) begun (fun _ => ?_) timed uncut
          · rcases List.mem_append.mp member with old | new
            · exact behind n old
            · rw [List.mem_singleton.mp new]
              exact .inl same.ge
          · exact (markedTime_marker (lastMarker_concat same.ge) same.symm begun).symm
        · have first : (⟨start, m.1, epoch⟩ : Span).timerStart = markedTime x (passed ++ m :: left) spans start := by
            rw [markedTime_append fun n member => ?_]
            · exact time (more.trans cut.2)
            · rcases List.mem_cons.mp member with rfl | rest
              · exact more
              · exact more.trans_le (later n rest)
          have whole : ∀ n ∈ passed ++ m :: left, ¬(start < n.1 ∧ n.1 < m.1) := by
            intro n member inside
            rcases List.mem_append.mp member with old | new
            · have place := behind n old
              omega
            · rcases List.mem_cons.mp new with rfl | rest
              · exact absurd inside.2 (Nat.lt_irrefl _)
              · exact absurd (later n rest) (Nat.not_le.mpr inside.2)
          have timed_here := timed.concat (c := ⟨start, m.1, epoch⟩) first
          have uncut_here := uncut.concat (c := ⟨start, m.1, epoch⟩) whole
          have begun_here : ∀ c ∈ spans ++ [(⟨start, m.1, epoch⟩ : Span)], c.start < m.1 := by
            intro c member
            rcases List.mem_append.mp member with old | new
            · exact (begun c old).trans more
            · rw [List.mem_singleton.mp new]
              exact more
          rw [if_pos more, List.map_append, List.map_singleton, ← List.append_assoc, split_]
          rw [split_] at sorted timed_here uncut_here
          refine ih sorted above_left later (fun n member => ?_) begun_here (fun _ => ?_) timed_here uncut_here
          · rcases List.mem_append.mp member with old | new
            · have place := behind n old
              omega
            · rw [List.mem_singleton.mp new]
              exact .inl (Nat.le_refl _)
          · exact (markedTime_marker (lastMarker_concat (Nat.le_refl _)) rfl begun_here).symm
      · rename_i outside
        have beyond : frames ≤ m.1 := by
          have low := above m List.mem_cons_self
          omega
        rw [split_]
        rw [split_] at sorted timed uncut
        refine ih sorted above_left (fun n member => here.trans (later n member)) (fun n member => ?_) begun (fun more => ?_)
          timed uncut
        · rcases List.mem_append.mp member with old | new
          · exact behind n old
          · rw [List.mem_singleton.mp new]
            exact .inr beyond
        · rw [markedTime_append fun n member => ?_]
          · exact time more
          · rw [List.mem_singleton.mp member]
            omega

end Spans

theorem Consecutive.nonempty {a b : Nat} {ranges : List (Nat × Nat)} (h : Consecutive a ranges b) {r : Nat × Nat}
    (member : r ∈ ranges) : r.1 < r.2 := by
  induction ranges generalizing a with
  | nil => exact absurd member List.not_mem_nil
  | cons q ranges ih =>
      rcases List.mem_cons.mp member with rfl | later
      · exact h.1 ▸ h.2.1
      · exact ih h.2.2 later

namespace SdSync
variable {x : Card} {s t : SdSync}

/-! ## The runs -/

def markers (s : SdSync) : Markers := s.received.timestampMarkers

def spans (s : SdSync) : List Span := s.chunks.map Chunk.span

/-- The chunks taken, and those that the main task has still to write. -/
def planned (s : SdSync) : List Span :=
  match s.main with
  | .flushing _ _ left => s.spans ++ left.map Segment.span
  | _ => s.spans

/-- Packets of 440 bytes, each after the flushes of the one before, and the end code; no flush fails. -/
def Action.Quiet (s : SdSync) : Action → Prop
  | .packet value => s.callbacks = [] ∧ (value.length = 440 ∨ value = [100])
  | .callbackWrite _ written => written = .whole ∧ s.isCancelled = false
  | .mainWrite written => written = .whole ∧ s.isCancelled = false
  | .callbackRegister _ listSaved => listSaved = true
  | .mainRegister listSaved => listSaved = true
  | .timeout | .cancelSync => False
  | _ => True

/-- The markers are heard: none comes where all frames before it are taken, no whole chunk ends at one, and the first at
the place of a cut is the last there. -/
def Action.Heard (x : Card) (s : SdSync) : Action → Prop
  | .packet value =>
      ∀ m ∈ (x.unpack value s.received).timestampMarkers.drop s.received.timestampMarkers.length, m.1 ≠ s.bytesLeft
  | .callbackRegister i _ =>
      match s.callbacks[i]? with
      | some callback =>
          if callback.atMarker then (s.markers.find? fun m => m.1 == s.bytesLeft) = lastMarker s.markers s.bytesLeft
          else ∀ m ∈ s.markers, m.1 ≠ s.bytesLeft
      | none => True
  | _ => True

instance (a : Action) : Decidable (a.Quiet s) :=
  match a with
  | .packet value => inferInstanceAs (Decidable (s.callbacks = [] ∧ (value.length = 440 ∨ value = [100])))
  | .callbackWrite _ written | .mainWrite written => inferInstanceAs (Decidable (written = .whole ∧ s.isCancelled = false))
  | .callbackRegister _ listSaved | .mainRegister listSaved => inferInstanceAs (Decidable (listSaved = true))
  | .timeout | .cancelSync => .isFalse id
  | .foreignWal _ | .finish _ | .clear => .isTrue trivial

instance (a : Action) : Decidable (a.Heard x s) :=
  match a with
  | .packet value => inferInstanceAs <| Decidable <|
      ∀ m ∈ (x.unpack value s.received).timestampMarkers.drop s.received.timestampMarkers.length, m.1 ≠ s.bytesLeft
  | .callbackRegister i _ =>
      show Decidable (match s.callbacks[i]? with
        | some callback =>
            if callback.atMarker then (s.markers.find? fun m => m.1 == s.bytesLeft) = lastMarker s.markers s.bytesLeft
            else ∀ m ∈ s.markers, m.1 ≠ s.bytesLeft
        | none => True) from
      match s.callbacks[i]? with
      | some callback => inferInstanceAs <| Decidable <|
          if callback.atMarker then (s.markers.find? fun m => m.1 == s.bytesLeft) = lastMarker s.markers s.bytesLeft
          else ∀ m ∈ s.markers, m.1 ≠ s.bytesLeft
      | none => .isTrue trivial
  | .callbackWrite _ _ | .mainWrite _ | .mainRegister _ | .timeout | .cancelSync | .foreignWal _ | .finish _ | .clear =>
      .isTrue trivial

abbrev ReachedQuiet (x : Card) : SdSync → Prop := Reachable (Started x) fun s a t => a.Quiet s ∧ s.act x a = some t

abbrev ReachedHeard (x : Card) : SdSync → Prop :=
  Reachable (Started x) fun s a t => (a.Quiet s ∧ a.Heard x s) ∧ s.act x a = some t

/-! ## What the runs keep -/

/-- No callback awaits the disk, and the start time is that of the next frame. -/
def Settled (x : Card) (s : SdSync) : Prop :=
  s.callbacks = [] ∧ s.timerStart = markedTime x s.markers s.spans s.bytesLeft

/-- One callback awaits the disk for the last chunk taken, whose seconds are not counted yet. -/
structure Awaiting (s : SdSync) (callback : Callback) (earlier : List Chunk) (c : Chunk) : Prop where
  alone : s.callbacks = [callback]
  taken : s.chunks = earlier ++ [c]
  stop : c.stop = s.bytesLeft
  time : s.timerStart = c.timerStart
  next : ∀ m ∈ s.markers, c.start < m.1 → callback.nextMarkerIdx ≤ m.1
  reached : callback.atMarker = true → callback.nextMarkerIdx = s.bytesLeft ∧ ∃ m ∈ s.markers, m.1 = s.bytesLeft
  flush : callback.flush = .writing earlier.length ∨ callback.flush = .registering earlier.length

/-- While packets come. -/
structure Reading (x : Card) (s : SdSync) : Prop where
  ranges : Consecutive 0 (s.chunks.map Chunk.range) s.bytesLeft
  inside : s.bytesLeft ≤ s.frames
  state : s.Settled x ∨ s.main = .listening ∧ ∃ callback earlier c, s.Awaiting callback earlier c

structure TimesOk (x : Card) (s : SdSync) : Prop where
  marked : s.received.Marked
  timed : Timed x s.markers s.planned
  uncut : Uncut s.markers s.planned
  idle : s.main ≠ .listening → s.callbacks = []
  reading : s.main = .listening ∨ s.main = .ended → s.Reading x

theorem planned_spans (here : ∀ flush guarded left, s.main ≠ .flushing flush guarded left) : s.planned = s.spans := by
  unfold planned
  split
  · rename_i flush guarded left main
    exact absurd main (here flush guarded left)
  · rfl

theorem planned_listening (here : s.main = .listening) : s.planned = s.spans :=
  planned_spans fun flush guarded left other => by
    rw [here] at other
    cases other

theorem range_of_mem_spans {c : Span} (member : c ∈ s.spans) : c.range ∈ s.chunks.map Chunk.range := by
  obtain ⟨d, taken, rfl⟩ := List.mem_map.mp member
  exact List.mem_map_of_mem taken

theorem Reading.nonempty (reading : s.Reading x) : ∀ c ∈ s.spans, c.start < c.stop :=
  fun _ member => reading.ranges.nonempty (range_of_mem_spans member)

theorem Reading.before (reading : s.Reading x) : ∀ c ∈ s.spans, c.stop ≤ s.bytesLeft :=
  fun _ member => reading.ranges.mem (range_of_mem_spans member)

/-- Taking a chunk when all is settled. -/
theorem TimesOk.take (ok : s.TimesOk x) (here : s.main = .listening) (settled : s.Settled x) {stop : Nat}
    (more : s.bytesLeft < stop) (inside : stop ≤ s.frames) (whole : ∀ m ∈ s.markers, s.bytesLeft < m.1 → stop ≤ m.1)
    {nextMarkerIdx : Nat} (next : ∀ m ∈ s.markers, s.bytesLeft < m.1 → nextMarkerIdx ≤ m.1) {atMarker : Bool}
    (reached : atMarker = true → nextMarkerIdx = stop ∧ ∃ m ∈ s.markers, m.1 = stop) :
    ((s.takeChunk stop).suspend nextMarkerIdx atMarker).TimesOk x := by
  have reading := ok.reading (.inl here)
  have timed := ok.timed
  have uncut := ok.uncut
  rw [planned_listening here] at timed uncut
  have spans : ((s.takeChunk stop).suspend nextMarkerIdx atMarker).spans = s.spans ++ [⟨s.bytesLeft, stop, s.timerStart⟩] :=
    List.map_append
  have planned : ((s.takeChunk stop).suspend nextMarkerIdx atMarker).planned = s.spans ++ [⟨s.bytesLeft, stop, s.timerStart⟩] :=
    (planned_listening (s := (s.takeChunk stop).suspend nextMarkerIdx atMarker) here).trans spans
  refine ⟨ok.marked, ?_, ?_, fun other => absurd here other, fun _ => ⟨?_, inside, .inr ⟨here, ⟨.writing s.chunks.length, nextMarkerIdx, atMarker⟩, s.chunks,
    ⟨s.bytesLeft, stop, s.timerStart, false⟩, ?_, rfl, rfl, rfl, next, reached, .inl rfl⟩⟩⟩
  · rw [planned]
    exact timed.concat settled.2
  · rw [planned]
    exact uncut.concat fun m member cut => absurd (whole m member cut.1) (Nat.not_le.mpr cut.2)
  · change Consecutive 0 ((s.chunks ++ [_]).map Chunk.range) stop
    rw [List.map_append]
    exact reading.ranges.snoc more
  · change s.callbacks ++ [⟨.writing ((s.chunks ++ [_]).length - 1), nextMarkerIdx, atMarker⟩] = _
    rw [settled.1, List.nil_append, List.length_append, List.length_singleton, Nat.add_sub_cancel]

theorem TimesOk.chunkLoop (ok : s.TimesOk x) (here : s.main = .listening) (settled : s.Settled x) {nextMarkerIdx : Nat}
    (next : ∀ m ∈ s.markers, s.bytesLeft < m.1 → nextMarkerIdx ≤ m.1) : (s.chunkLoop x nextMarkerIdx).TimesOk x := by
  unfold SdSync.chunkLoop
  split
  · rename_i whole
    exact ok.take here settled (Nat.lt_add_of_pos_right (chunkSize_pos x)) whole.1
      (fun m member above => whole.2.trans (next m member above)) next (fun other => absurd other (by decide))
  · unfold SdSync.markerStep
    split
    · rename_i cut
      obtain ⟨m, member, same⟩ := List.any_eq_true.mp cut.1
      exact ok.take here settled cut.2.2 cut.2.1 next next fun _ => ⟨rfl, m, member, by simpa using same⟩
    · exact ok

/-- The markers of a packet stand behind the frames taken; by the condition none of them stands right behind. -/
theorem TimesOk.received (ok : s.TimesOk x) (here : s.main = .listening) (settled : s.Settled x) {value : Bytes}
    (heard : (Action.packet value).Heard x s) :
    ({ s with firstDataReceived := true, received := x.unpack value s.received } : SdSync).TimesOk x ∧
      ({ s with firstDataReceived := true, received := x.unpack value s.received } : SdSync).Settled x := by
  have reading := ok.reading (.inl here)
  have inside : s.bytesLeft ≤ s.received.bytesData.length := reading.inside
  obtain ⟨marked, grown⟩ := x.unpack_spec value ok.marked
  obtain ⟨more, same, behind⟩ := x.unpack_markers value s.received
  have beyond : ∀ m ∈ more, ∀ c ∈ s.spans, c.stop ≤ m.1 := fun m new c member =>
    (reading.before c member).trans (inside.trans (behind m new))
  have apart : ∀ m ∈ more, s.bytesLeft < m.1 := by
    intro m new
    have free : m.1 ≠ s.bytesLeft := heard m (by rw [same, List.drop_left]; exact new)
    have later := behind m new
    omega
  have timed := ok.timed
  have uncut := ok.uncut
  rw [planned_listening here] at timed uncut
  have settled' : ({ s with firstDataReceived := true, received := x.unpack value s.received } : SdSync).Settled x := by
    refine ⟨settled.1, settled.2.trans ?_⟩
    change markedTime x s.received.timestampMarkers s.spans s.bytesLeft =
      markedTime x (x.unpack value s.received).timestampMarkers s.spans s.bytesLeft
    rw [same, markedTime_append apart]
  refine ⟨⟨marked, ?_, ?_, fun other => absurd here other, fun _ => ⟨reading.ranges, inside.trans grown.length_le, .inl settled'⟩⟩, settled'⟩
  · rw [planned_listening (s := { s with firstDataReceived := true, received := x.unpack value s.received }) here]
    change Timed x (x.unpack value s.received).timestampMarkers s.spans
    rw [same]
    exact timed.grown reading.nonempty beyond
  · rw [planned_listening (s := { s with firstDataReceived := true, received := x.unpack value s.received }) here]
    change Uncut (x.unpack value s.received).timestampMarkers s.spans
    rw [same]
    exact uncut.grown beyond

/-- The search stops at the first marker behind the frames taken. -/
theorem nextMarkerIdx_le (marked : s.received.Marked) : ∀ m ∈ s.markers, s.bytesLeft < m.1 → s.nextMarkerIdx ≤ m.1 := by
  intro m member above
  unfold nextMarkerIdx
  cases found : (s.received.timestampMarkers.map Prod.fst).find? fun key => decide (s.bytesLeft < key) with
  | none =>
      rw [List.find?_eq_none] at found
      exact absurd (decide_eq_true above) (found m.1 (List.mem_map_of_mem member))
  | some key =>
      rw [Option.getD_some]
      obtain ⟨-, before, after, same, low⟩ := List.find?_eq_some_iff_append.mp found
      have sorted := marked.sorted
      have place : m.1 ∈ s.received.timestampMarkers.map Prod.fst := List.mem_map_of_mem member
      rw [same] at place sorted
      rcases List.mem_append.mp place with early | late
      · have not := low m.1 early
        simp only [Bool.not_eq_true', decide_eq_false_iff_not] at not
        exact absurd above not
      · rcases List.mem_cons.mp late with here | later
        · exact here.ge
        · exact (List.pairwise_cons.mp (List.pairwise_append.mp sorted).2.1).1 m.1 later

theorem TimesOk.packet (ok : s.TimesOk x) (markers : x.supportsTimestampMarkers = true) (here : s.main = .listening)
    {value : Bytes} (quiet : (Action.packet value).Quiet s) (heard : (Action.packet value).Heard x s) :
    (s.onStorageBytesReceived x value).TimesOk x := by
  have reading := ok.reading (.inl here)
  have settled : s.Settled x := reading.state.resolve_right fun ⟨_, callback, _, _, awaiting⟩ => by
    have none := quiet.1
    rw [awaiting.alone] at none
    cases none
  unfold onStorageBytesReceived
  split
  · exact ok
  · dsimp only
    split
    · rename_i code _
      have started : ({ s with firstDataReceived := true } : SdSync).TimesOk x :=
        ⟨ok.marked, ok.timed, ok.uncut, ok.idle, fun _ => ⟨reading.ranges, reading.inside, .inl settled⟩⟩
      split
      · exact started
      · have timed := ok.timed
        have uncut := ok.uncut
        rw [planned_listening here] at timed uncut
        unfold complete
        rw [if_pos here]
        exact ⟨ok.marked, timed, uncut, fun _ => settled.1, fun _ => ⟨reading.ranges, reading.inside, .inl settled⟩⟩
    · obtain ⟨received, settled'⟩ := ok.received here settled heard
      exact received.chunkLoop here settled' (nextMarkerIdx_le received.marked)

/-- Behind the flush of a callback: the chunk's seconds count, or the marker at its end sets the time. -/
theorem TimesOk.resumeCallback (ok : s.TimesOk x) (here : s.main = .listening) {callback : Callback} {earlier : List Chunk}
    {c chunk : Chunk} (awaiting : s.Awaiting callback earlier c) (same : chunk.span = c.span)
    (heard : if callback.atMarker then (s.markers.find? fun m => m.1 == s.bytesLeft) = lastMarker s.markers s.bytesLeft
      else ∀ m ∈ s.markers, m.1 ≠ s.bytesLeft) (downloaded : Nat) :
    ({ s with callbacks := [], chunksDownloaded := downloaded }.resumeCallback x callback chunk).TimesOk x := by
  have reading := ok.reading (.inl here)
  have timed := ok.timed
  have uncut := ok.uncut
  rw [planned_listening here] at timed uncut
  have spans : s.spans = earlier.map Chunk.span ++ [c.span] := by
    rw [SdSync.spans, awaiting.taken, List.map_append, List.map_singleton]
  have last : c.span ∈ s.spans := by
    rw [spans]
    exact List.mem_append_right _ (List.mem_singleton_self _)
  have forward : c.start < c.stop := reading.nonempty c.span last
  have stop := awaiting.stop
  have seconds : ((chunk.stop : Int) - chunk.start) / x.framesPerSecond = c.span.seconds x := by
    rw [← same]
    rfl
  have time : s.timerStart = markedTime x s.markers (earlier.map Chunk.span) c.start :=
    awaiting.time.trans (timed _ c.span [] spans)
  have settle : ∀ timerStart : Int, timerStart = markedTime x s.markers s.spans s.bytesLeft →
      ({ s with callbacks := [], chunksDownloaded := downloaded, timerStart := timerStart } : SdSync).TimesOk x ∧
        ({ s with callbacks := [], chunksDownloaded := downloaded, timerStart := timerStart } : SdSync).Settled x := by
    intro timerStart right
    refine ⟨⟨ok.marked, ?_, ?_, fun _ => rfl, fun _ => ⟨reading.ranges, reading.inside, .inl ⟨rfl, right⟩⟩⟩, rfl, right⟩
    · rw [planned_listening (s := { s with callbacks := [], chunksDownloaded := downloaded, timerStart := timerStart }) here]
      exact timed
    · rw [planned_listening (s := { s with callbacks := [], chunksDownloaded := downloaded, timerStart := timerStart }) here]
      exact uncut
  unfold SdSync.resumeCallback
  dsimp only
  cases atMarker : callback.atMarker with
  | true =>
      obtain ⟨reached, m, member, place⟩ := awaiting.reached atMarker
      rw [atMarker, if_pos rfl] at heard
      change s.received.timestampMarkers.find? _ = _ at heard
      rw [if_pos rfl, reached, heard]
      cases found : lastMarker s.markers s.bytesLeft with
      | none =>
          rw [found, List.find?_eq_none] at heard
          exact absurd (by simpa using place) (heard m member)
      | some n =>
          rw [found] at heard
          have there : n.1 = s.bytesLeft := by simpa using List.find?_some heard
          have before : ∀ d ∈ s.spans, d.start < s.bytesLeft := fun d taken =>
            (reading.nonempty d taken).trans_le (reading.before d taken)
          exact (settle n.2 (markedTime_marker found there before).symm).1
  | false =>
      rw [atMarker, if_neg (by decide)] at heard
      rw [if_neg (by decide), seconds]
      have goes_on : markedTime x s.markers (earlier.map Chunk.span ++ [c.span]) c.span.stop = _ :=
        markedTime_goes_on (uncut c.span last) (by rw [show c.span.stop = s.bytesLeft from stop]; exact heard) forward.le
      rw [← spans, show c.span.stop = s.bytesLeft from stop] at goes_on
      obtain ⟨ok', settled⟩ := settle (s.timerStart + c.span.seconds x) (by rw [goes_on, time]; rfl)
      refine ok'.chunkLoop here settled fun m member above => awaiting.next m member ?_
      change s.bytesLeft < m.1 at above
      omega

/-! ## Steps and runs -/

theorem span_set {chunks : List Chunk} {n : Nat} {chunk : Chunk} (here : chunks[n]? = some chunk) :
    (chunks.set n { chunk with stored := true }).map Chunk.span = chunks.map Chunk.span := by
  rw [List.map_set]
  apply List.ext_getElem?
  intro i
  by_cases same : i = n
  · subst same
    rw [List.getElem?_set_self (by rw [List.length_map]; exact (List.getElem?_eq_some_iff.mp here).1), List.getElem?_map, here]
    rfl
  · rw [List.getElem?_set_ne (Ne.symm same)]

/-- The one callback there is, while it awaits the disk. -/
theorem TimesOk.awaiting (ok : s.TimesOk x) {i : Nat} {callback : Callback} (here : s.callbacks[i]? = some callback) :
    s.main = .listening ∧ i = 0 ∧ ∃ earlier c, s.Awaiting callback earlier c := by
  have listening : s.main = .listening := by
    by_contra other
    rw [ok.idle other] at here
    cases here
  rcases (ok.reading (.inl listening)).state with settled | ⟨-, other, earlier, c, awaiting⟩
  · rw [settled.1] at here
    cases here
  · rw [awaiting.alone, List.getElem?_singleton] at here
    split at here
    · rename_i first
      cases here
      exact ⟨listening, first, earlier, c, awaiting⟩
    · cases here

theorem Awaiting.last {callback : Callback} {earlier : List Chunk} {c : Chunk} (awaiting : s.Awaiting callback earlier c)
    {n : Nat} (number : callback.flush = .writing n ∨ callback.flush = .registering n) {chunk : Chunk}
    (at_ : s.chunks[n]? = some chunk) : n = earlier.length ∧ chunk = c := by
  have same : n = earlier.length := by
    rcases number with writing | registering
    · rcases awaiting.flush with other | other
      · exact Flush.writing.inj (writing.symm.trans other)
      · cases writing.symm.trans other
    · rcases awaiting.flush with other | other
      · cases registering.symm.trans other
      · exact Flush.registering.inj (registering.symm.trans other)
  rw [same, awaiting.taken, List.getElem?_concat_length] at at_
  exact ⟨same, (Option.some.inj at_).symm⟩

theorem TimesOk.callbackWrite (ok : s.TimesOk x) {i n : Nat} {callback : Callback} (here : s.callbacks[i]? = some callback)
    (writing : callback.flush = .writing n) {chunk : Chunk} (at_ : s.chunks[n]? = some chunk) (going : s.isCancelled = false) :
    ({ (s.flushToDisk x n chunk .whole).2 with
      callbacks := s.callbacks.set i { callback with flush := .registering n } } : SdSync).TimesOk x := by
  obtain ⟨listening, rfl, earlier, c, awaiting⟩ := ok.awaiting here
  obtain ⟨rfl, rfl⟩ := awaiting.last (.inl writing) at_
  have reading := ok.reading (.inl listening)
  have timed := ok.timed
  have uncut := ok.uncut
  rw [planned_listening listening, spans, ← span_set at_] at timed uncut
  rw [flushToDisk_whole going]
  refine ⟨ok.marked, ?_, ?_, fun other => absurd listening other, fun _ => ⟨?_, reading.inside, .inr ⟨listening,
    { callback with flush := .registering earlier.length }, earlier, { chunk with stored := true }, ?_, ?_, awaiting.stop,
    awaiting.time, awaiting.next, awaiting.reached, .inr rfl⟩⟩⟩
  · unfold planned
    dsimp only
    rw [listening]
    exact timed
  · unfold planned
    dsimp only
    rw [listening]
    exact uncut
  · dsimp only
    rw [range_set at_]
    exact reading.ranges
  · dsimp only
    rw [awaiting.alone]
    rfl
  · dsimp only
    rw [awaiting.taken, List.set_append_right _ _ (Nat.le_refl _), Nat.sub_self]
    rfl

theorem TimesOk.nextSegment (marked : s.received.Marked) (idle : s.callbacks = []) {left : List Segment}
    (timed : Timed x s.markers (s.spans ++ left.map Segment.span)) (uncut : Uncut s.markers (s.spans ++ left.map Segment.span)) :
    (s.nextSegment left).TimesOk x := by
  unfold SdSync.nextSegment
  cases left with
  | nil =>
      rw [List.map_nil, List.append_nil] at timed uncut
      dsimp only
      split
      · exact ⟨marked, timed, uncut, fun _ => idle, fun other => by simp at other⟩
      · exact ⟨marked, timed, uncut, fun _ => idle, fun other => by simp at other⟩
  | cons segment left =>
      have planned : s.spans ++ (segment :: left).map Segment.span =
          (s.chunks ++ [Chunk.mk segment.start segment.stop segment.timerStart false]).map Chunk.span ++ left.map Segment.span := by
        rw [List.map_append, List.append_assoc, List.map_cons]
        rfl
      rw [planned] at timed uncut
      exact ⟨marked, timed, uncut, fun _ => idle, fun other => by simp at other⟩

theorem TimesOk.finish (ok : s.TimesOk x) (markers : x.supportsTimestampMarkers = true) (here : s.main = .ended)
    (nowSeconds : Int) : (s.nextSegment (s.segments x nowSeconds)).TimesOk x := by
  have reading := ok.reading (.inr here)
  have settled : s.Settled x := reading.state.resolve_right fun ⟨listening, _⟩ => by
    rw [here] at listening
    cases listening
  have timed := ok.timed
  have uncut := ok.uncut
  rw [planned_spans fun flush guarded left other => by rw [here] at other; cases other] at timed uncut
  have nothing : (s.nextSegment []).TimesOk x := TimesOk.nextSegment ok.marked settled.1
    (by rw [List.map_nil, List.append_nil]; exact timed) (by rw [List.map_nil, List.append_nil]; exact uncut)
  unfold segments
  split
  · exact nothing
  · split
    · obtain ⟨low, high, same, passed, above⟩ := split_markers ok.marked.sorted s.bytesLeft
      have sorted := ok.marked.sorted
      have time := settled.2
      rw [SdSync.markers, same] at timed uncut time
      rw [same] at sorted
      rw [markedTime_append above] at time
      rw [same, markedSegments_low passed]
      have behind : ∀ m ∈ low, m.1 ≤ s.bytesLeft ∨ s.frames ≤ m.1 := fun m member => .inl (passed m member)
      obtain ⟨all_timed, all_uncut⟩ := markedSegments_times sorted above (fun m member => (above m member).le) behind
        (fun c member => (reading.nonempty c member).trans_le (reading.before c member)) (fun _ => time) timed uncut
      rw [← same] at all_timed all_uncut
      exact TimesOk.nextSegment ok.marked settled.1 all_timed all_uncut
    · exact nothing

theorem TimesOk.act (ok : s.TimesOk x) (markers : x.supportsTimestampMarkers = true) {a : Action} (quiet : a.Quiet s)
    (heard : a.Heard x s) (done : s.act x a = some t) : t.TimesOk x := by
  cases a with
  | packet value =>
      simp only [SdSync.act] at done
      split at done
      · rename_i here
        cases done
        exact ok.packet markers here quiet heard
      · cases done
  | timeout => exact absurd quiet id
  | cancelSync => exact absurd quiet id
  | foreignWal wal =>
      cases done
      refine ⟨ok.marked, ok.timed, ok.uncut, ok.idle, fun here => ?_⟩
      have reading := ok.reading here
      refine ⟨reading.ranges, reading.inside, reading.state.imp id fun waiting => ?_⟩
      obtain ⟨listening, callback, earlier, c, awaiting⟩ := waiting
      exact ⟨listening, callback, earlier, c, awaiting.alone, awaiting.taken, awaiting.stop, awaiting.time, awaiting.next,
        awaiting.reached, awaiting.flush⟩
  | callbackWrite i written =>
      obtain ⟨rfl, going⟩ := quiet
      obtain ⟨callback, here, done⟩ := Option.bind_eq_some_iff.mp done
      split at done
      · cases done
      · rename_i n writing
        obtain ⟨chunk, at_, done⟩ := Option.bind_eq_some_iff.mp done
        have wrote : s.flushToDisk x n chunk .whole = (true, (s.flushToDisk x n chunk .whole).2) := by
          rw [flushToDisk_whole going]
        rw [wrote] at done
        cases done
        rw [flushToDisk_callbacks]
        exact ok.callbackWrite here writing at_ going
  | callbackRegister i listSaved =>
      obtain rfl : listSaved = true := quiet
      obtain ⟨callback, here, done⟩ := Option.bind_eq_some_iff.mp done
      split at done
      · cases done
      · rename_i n registering
        obtain ⟨chunk, at_, done⟩ := Option.bind_eq_some_iff.mp done
        obtain ⟨listening, rfl, earlier, c, awaiting⟩ := ok.awaiting here
        obtain ⟨-, rfl⟩ := awaiting.last (.inr registering) at_
        unfold Action.Heard at heard
        dsimp only at heard
        rw [here] at heard
        have alone : s.callbacks.eraseIdx 0 = [] := by
          rw [awaiting.alone]
          rfl
        rw [alone] at done
        cases done
        exact ok.resumeCallback listening awaiting rfl heard _
  | finish nowSeconds =>
      simp only [SdSync.act] at done
      split at done
      · rename_i here
        cases done
        exact ok.finish markers here nowSeconds
      · cases done
  | mainWrite written =>
      obtain ⟨rfl, going⟩ := quiet
      simp only [SdSync.act] at done
      split at done
      · rename_i n guarded left here
        obtain ⟨chunk, at_, done⟩ := Option.bind_eq_some_iff.mp done
        have timed := ok.timed
        have uncut := ok.uncut
        unfold planned at timed uncut
        rw [here] at timed uncut
        dsimp only at timed uncut
        rw [spans, ← span_set at_] at timed uncut
        rw [flushToDisk_whole going] at done
        cases done
        exact ⟨ok.marked, timed, uncut, fun _ => ok.idle (by rw [here]; simp), fun other => by simp at other⟩
      · cases done
  | mainRegister listSaved =>
      obtain rfl : listSaved = true := quiet
      simp only [SdSync.act] at done
      split at done
      · rename_i n guarded left here
        have timed := ok.timed
        have uncut := ok.uncut
        unfold planned at timed uncut
        rw [here] at timed uncut
        cases done
        exact TimesOk.nextSegment (s := { s with chunksDownloaded := s.chunksDownloaded + 1 }) ok.marked
          (ok.idle (by rw [here]; simp)) timed uncut
      · cases done
  | clear =>
      simp only [SdSync.act] at done
      split at done
      · rename_i here
        cases done
        have timed := ok.timed
        have uncut := ok.uncut
        unfold planned at timed uncut
        rw [here] at timed uncut
        exact ⟨ok.marked, timed, uncut, fun _ => ok.idle (by rw [here]; simp), fun other => by simp at other⟩
      · cases done

theorem Started.timesOk (started : s.Started x) : s.TimesOk x := by
  have none : s.spans = [] := by
    rw [spans, started.chunks, List.map_nil]
  have planned : s.planned = [] := (planned_listening started.main).trans none
  refine ⟨?_, ?_, ?_, fun _ => started.callbacks, fun _ => ⟨?_, ?_, .inl ⟨started.callbacks, ?_⟩⟩⟩
  · rw [started.received]
    exact ⟨.nil, fun m member => absurd member List.not_mem_nil⟩
  · rw [planned]
    exact .nil
  · rw [planned]
    exact fun c member => absurd member List.not_mem_nil
  · rw [started.chunks, started.bytesLeft]
    rfl
  · rw [started.bytesLeft]
    exact Nat.zero_le _
  · rw [started.timerStart, none, markers, started.received]
    exact (Int.add_zero _).symm

/-- In every run of packets with markers that are all heard, no chunk has frames from both sides of a marker, and each
begins at the epoch of the last marker at or before its first frame, or at the recording's start, and the whole seconds
of the chunks since. -/
theorem chunks_at_marked_times (markers : x.supportsTimestampMarkers = true) (reached : ReachedHeard x s) :
    Timed x s.markers s.spans ∧ Uncut s.markers s.spans := by
  have ok : s.TimesOk x := reached.invariant (fun _ started => started.timesOk)
    fun _ _ _ ok step => ok.act markers step.1.1 step.1.2 step.2
  have planned : ∃ more, s.planned = s.spans ++ more := by
    unfold SdSync.planned
    split
    · exact ⟨_, rfl⟩
    · exact ⟨[], (List.append_nil _).symm⟩
  obtain ⟨more, planned⟩ := planned
  have timed := ok.timed
  have uncut := ok.uncut
  rw [planned] at timed uncut
  exact ⟨timed.left, fun c member => uncut c (List.mem_append_left more member)⟩

def heard (s : SdSync) (a : Action) : Option SdSync :=
  if a.Quiet s ∧ a.Heard sampleCard s then s.act sampleCard a else none

/-- A frame before the marker and one behind it. -/
theorem chunks_at_marked_times_two :
    ∃ s : SdSync, s.spans = [⟨0, 1, 1700000000⟩, ⟨1, 2, 1700000050⟩] ∧ Timed sampleCard s.markers s.spans ∧
      Uncut s.markers s.spans := by
  have run : ((sampleRun 0x32).foldlM heard sampleSync).map spans = some [⟨0, 1, 1700000000⟩, ⟨1, 2, 1700000050⟩] := by
    decide +kernel
  obtain ⟨s, done, ended⟩ := Option.map_eq_some_iff.mp run
  have reached : ReachedHeard sampleCard s := by
    refine Reachable.actions (fun a _ s t step => ?_) (.start sampleSync_started) done
    unfold heard at step
    split at step
    · rename_i condition
      exact ⟨condition, step⟩
    · cases step
  exact ⟨s, ended, chunks_at_marked_times rfl reached⟩

/-- A marker, 50 seconds after the start of the recording, and the first frame behind it. -/
def leadingMarker : Bytes := [0xff, 0x32, 0xf1, 0x53, 0x65, 1, 7] ++ List.replicate 433 0

def quietly (s : SdSync) (a : Action) : Option SdSync := if a.Quiet s then s.act sampleCard a else none

/-- What the markers were, and where the chunks were cut. -/
def cuts (s : SdSync) : Markers × List Span := (s.markers, s.spans)

/-- The marker before the first frame is not heard: the frame is written under the start of the recording. -/
theorem leading_marker_unheard :
    ¬∀ (x : Card) (s : SdSync), x.supportsTimestampMarkers = true → ReachedQuiet x s →
      Timed x s.markers s.spans ∧ Uncut s.markers s.spans := by
  have run : ([Action.packet leadingMarker, .packet [100], .finish 1700000100, .mainWrite .whole, .mainRegister true].foldlM
      quietly sampleSync).map cuts = some ([(0, 1700000050)], [⟨0, 1, 1700000000⟩]) := by decide +kernel
  obtain ⟨s, done, ended⟩ := Option.map_eq_some_iff.mp run
  obtain ⟨markers, spans⟩ := Prod.mk.inj ended
  have reached : ReachedQuiet sampleCard s := by
    refine Reachable.actions (fun a _ s t step => ?_) (.start sampleSync_started) done
    unfold quietly at step
    split at step
    · rename_i quiet
      exact ⟨quiet, step⟩
    · cases step
  intro all
  have timed := (all sampleCard s rfl reached).1
  rw [markers, spans] at timed
  have first := timed [] ⟨0, 1, 1700000000⟩ [] rfl
  exact absurd first (by decide)

end SdSync
end OmiLocal.Wals.SdCard
