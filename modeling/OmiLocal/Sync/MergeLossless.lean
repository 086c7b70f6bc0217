import OmiLocal.Sync.SegmentMerge
import Mathlib.Data.List.Sort
import Mathlib.Tactic.Ring

/-!
# A merge loses nothing

A merge keeps every segment with its text, keeps the existing ones where they are and can be
repeated without effect. Its times are right exactly when no survivor starts before the conversation
and the segment that starts last, or the old end, ends last.
-/
namespace OmiLocal.Sync
open Lib

variable {ε : Type} {lower : List Char → List Char}

/-! ## The last of a stable sort -/

/-- The last of those that nothing in the list exceeds. -/
def lastLargest {α : Type} (le : α → α → Bool) (l : List α) : Option α :=
  (l.filter fun x => l.all fun y => le y x).getLast?

theorem getLast?_mergeSort {α : Type} {le : α → α → Bool} (trans : ∀ a b c, le a b = true → le b c = true → le a c = true)
    (total : ∀ a b, (le a b || le b a) = true) (l : List α) : (l.mergeSort le).getLast? = lastLargest le l := by
  have perm := List.mergeSort_perm l le
  have sorted := List.pairwise_mergeSort trans total l
  let largest (x : α) : Bool := l.all fun y => le y x
  have above {x y : α} (top : largest x = true) (member : y ∈ l) : le y x = true := List.all_eq_true.mp top y member
  -- The largest elements are in order already, so the sort leaves them as they are.
  have front : (l.filter largest).Pairwise (fun a b => le a b = true) :=
    List.pairwise_of_forall_mem_list fun a first b second =>
      above (List.mem_filter.mp second).2 (List.mem_filter.mp first).1
  have kept : (l.mergeSort le).filter largest = l.filter largest := by
    have inside := (List.sublist_mergeSort trans total front (List.filter_sublist (l := l))).filter largest
    rw [List.filter_filter] at inside
    simp only [Bool.and_self] at inside
    exact (inside.eq_of_length (perm.filter largest).length_eq.symm).symm
  unfold lastLargest
  change _ = (l.filter largest).getLast?
  rw [← kept]
  rcases List.eq_nil_or_concat (l.mergeSort le) with none | ⟨init, last, split_⟩
  · rw [none]
    rfl
  · rw [List.concat_eq_append] at split_
    rw [split_] at sorted
    have top : largest last = true := by
      refine List.all_eq_true.mpr fun y member => ?_
      have sortedMember := perm.mem_iff.mpr member
      rw [split_] at sortedMember
      rcases List.mem_append.mp sortedMember with earlier | here
      · exact (List.pairwise_append.mp sorted).2.2 y earlier last List.mem_cons_self
      · rw [List.mem_singleton.mp here]
        exact (Bool.or_eq_true_iff.mp (total last last)).elim id id
    rw [split_, List.filter_append, List.filter_cons_of_pos top, List.filter_nil, List.getLast?_concat,
      List.getLast?_concat]

/-! ## What is dropped -/

/-- The text is long, and an existing segment with the same text is about as long and near. -/
def TextPresent (lower : List Char → List Char) (existing : List (TimedSegment ε)) (s : TimedSegment ε) : Prop :=
  let entry := textEntry lower s
  textEligibleForSlopDedupe entry.text = true ∧ ∃ e ∈ existing, (textEntry lower e).text = entry.text ∧
    |entry.duration - (textEntry lower e).duration| / max (max entry.duration (textEntry lower e).duration) (1 / 1000) ≤
      mergeTextDupDurationRatio ∧
    |entry.absStart - (textEntry lower e).absStart| ≤ mergeTextDupSlopSeconds

def textIndex (lower : List Char → List Char) (existing : List (TimedSegment ε)) : List TextEntry :=
  (existing.map (textEntry lower)).filter fun entry => !entry.text.isEmpty

def textDuplicate (lower : List Char → List Char) (existing : List (TimedSegment ε)) (s : TimedSegment ε) : Bool :=
  isTextClockOffsetDuplicate mergeTextDupSlopSeconds mergeTextDupDurationRatio (textIndex lower existing)
    (textEntry lower s)

theorem textPresent_of_duplicate {existing : List (TimedSegment ε)} {s : TimedSegment ε}
    (duplicate : textDuplicate lower existing s = true) : TextPresent lower existing s := by
  unfold textDuplicate isTextClockOffsetDuplicate at duplicate
  obtain ⟨eligible, found⟩ := Bool.and_eq_true_iff.mp duplicate
  obtain ⟨entry, indexed, same⟩ := List.any_eq_true.mp found
  obtain ⟨e, member, rfl⟩ := List.mem_map.mp (List.mem_filter.mp indexed).1
  simp only [Bool.and_eq_true, decide_eq_true_eq, Bool.not_eq_true', decide_eq_false_iff_not, not_lt] at same
  exact ⟨eligible, e, member, same.1.1, same.1.2, same.2⟩

theorem textDuplicate_mono {existing more : List (TimedSegment ε)} (sub : ∀ e ∈ existing, e ∈ more)
    {s : TimedSegment ε} (duplicate : textDuplicate lower existing s = true) : textDuplicate lower more s = true := by
  unfold textDuplicate isTextClockOffsetDuplicate at *
  obtain ⟨eligible, found⟩ := Bool.and_eq_true_iff.mp duplicate
  obtain ⟨entry, indexed, same⟩ := List.any_eq_true.mp found
  obtain ⟨mapped, some_⟩ := List.mem_filter.mp indexed
  obtain ⟨e, member, rfl⟩ := List.mem_map.mp mapped
  exact Bool.and_eq_true_iff.mpr ⟨eligible,
    List.any_eq_true.mpr ⟨_, List.mem_filter.mpr ⟨List.mem_map_of_mem (sub e member), some_⟩, same⟩⟩

theorem textIndex_of_duplicate {existing : List (TimedSegment ε)} {s : TimedSegment ε}
    (duplicate : textDuplicate lower existing s = true) : textIndex lower existing ≠ [] := by
  obtain ⟨entry, indexed, -⟩ := List.any_eq_true.mp (Bool.and_eq_true_iff.mp duplicate).2
  exact List.ne_nil_of_mem indexed

/-- Dropping by flags is a filter. -/
theorem zip_filter {α : Type} (l : List α) (flag : α → Bool) :
    ((l.zip (l.map flag)).filter fun e => !e.2).map Prod.fst = l.filter fun x => !flag x := by
  induction l with
  | nil => rfl
  | cons x rest ih =>
      rw [List.map_cons, List.zip_cons_cons, List.filter_cons, List.filter_cons]
      split
      · rw [List.map_cons, ih]
      · exact ih

variable (lower) in
/-- The two stages: the ranges, and the texts if the batch lets them count. -/
theorem dedupe_eq (startedAt : ℚ) (existing incoming : List (TimedSegment ε)) :
    let fresh := incoming.filter fun s => !rangePresent startedAt existing s
    let deduped := dedupeSegmentsForMerge lower startedAt existing incoming mergeTextDupSlopSeconds
      mergeTextDupDurationRatio
    deduped = fresh ∨ deduped = fresh.filter fun s => !textDuplicate lower existing s := by
  unfold dedupeSegmentsForMerge
  dsimp only
  split
  · exact Or.inl rfl
  · split
    · exact Or.inr (zip_filter _ _)
    · exact Or.inl rfl

/-- What the ranges let through is dropped altogether if the texts of all of it are there. -/
theorem dedupe_eq_nil {startedAt : ℚ} {existing incoming : List (TimedSegment ε)}
    (all : ∀ s ∈ incoming, rangePresent startedAt existing s = true ∨ textDuplicate lower existing s = true) :
    dedupeSegmentsForMerge lower startedAt existing incoming mergeTextDupSlopSeconds mergeTextDupDurationRatio = [] := by
  have flagged : ∀ s ∈ incoming.filter (fun s => !rangePresent startedAt existing s),
      textDuplicate lower existing s = true := by
    intro s member
    obtain ⟨member, fresh⟩ := List.mem_filter.mp member
    rcases all s member with present | duplicate
    · rw [present] at fresh
      cases fresh
    · exact duplicate
  unfold dedupeSegmentsForMerge
  dsimp only
  generalize incoming.filter (fun s => !rangePresent startedAt existing s) = fresh at flagged
  cases fresh with
  | nil => rfl
  | cons s rest =>
      have index := textIndex_of_duplicate (flagged s List.mem_cons_self)
      have count : (((s :: rest).map (textDuplicate lower existing)).filter fun flag => flag).length =
          (s :: rest).length := by
        rw [List.filter_eq_self.mpr, List.length_map]
        intro flag member
        obtain ⟨x, inside, rfl⟩ := List.mem_map.mp member
        exact flagged x inside
      have some_ : 1 ≤ (((s :: rest).map (textDuplicate lower existing)).filter fun flag => flag).length := by
        rw [count]
        exact Nat.succ_pos _
      refine (if_neg ?_).trans ((if_pos (Or.inr ⟨count, some_⟩)).trans
        ((zip_filter _ (textDuplicate lower existing)).trans ?_))
      · rw [List.isEmpty_cons, Bool.false_or, List.isEmpty_iff]
        exact index
      · refine List.filter_eq_nil_iff.mpr fun x inside => ?_
        rw [flagged x inside]
        exact Bool.false_ne_true

/-! ## The merge -/

section Merge
variable {c merged : MergeConversation ε} {timestamp : ℚ} {incoming : List (MergeSegment ε)}

theorem relative_existing (startedAt : ℚ) (s : MergeSegment ε) : relative startedAt (existingSegment startedAt s) = s := by
  have start : startedAt + s.start - startedAt = s.start := add_sub_cancel_left _ _
  have finish : s.start + s.duration = s.finish := add_sub_cancel _ _
  unfold relative existingSegment
  dsimp only
  rw [start, finish]

/-- A segment that is written and read again is where it was. -/
theorem existing_relative (startedAt : ℚ) (s : TimedSegment ε) :
    segmentAbsRange (existingSegment startedAt (relative startedAt s)) = segmentAbsRange s := by
  have start : startedAt + (s.timestamp - startedAt) = s.timestamp := add_sub_cancel _ _
  have duration : (relative startedAt s).duration = s.segment.duration := add_sub_cancel_left _ _
  unfold segmentAbsRange
  rw [show (existingSegment startedAt (relative startedAt s)).timestamp = s.timestamp from start,
    show (existingSegment startedAt (relative startedAt s)).segment.duration = s.segment.duration from duration]

theorem mem_survivors {s : TimedSegment ε} (member : s ∈ survivors lower c timestamp incoming) :
    s ∈ incoming.map (incomingSegment timestamp) := by
  unfold survivors at member
  rcases dedupe_eq lower c.startedAt c.timed (incoming.map (incomingSegment timestamp)) with same | same
  · rw [same] at member
    exact (List.mem_filter.mp member).1
  · rw [same] at member
    exact (List.mem_filter.mp (List.mem_filter.mp member).1).1

variable (lower c) in
/-- Every incoming segment survives, or its range or its text is there. -/
theorem survives_or (s : TimedSegment ε) (member : s ∈ incoming.map (incomingSegment timestamp)) :
    s ∈ survivors lower c timestamp incoming ∨ rangePresent c.startedAt c.timed s = true ∨
      textDuplicate lower c.timed s = true := by
  by_cases present : rangePresent c.startedAt c.timed s = true
  · exact Or.inr (Or.inl present)
  · have fresh : s ∈ (incoming.map (incomingSegment timestamp)).filter
        fun s => !rangePresent c.startedAt c.timed s := List.mem_filter.mpr ⟨member, by simpa using present⟩
    unfold survivors
    rcases dedupe_eq lower c.startedAt c.timed (incoming.map (incomingSegment timestamp)) with same | same
    · rw [same]
      exact Or.inl fresh
    · by_cases duplicate : textDuplicate lower c.timed s = true
      · exact Or.inr (Or.inr duplicate)
      · refine Or.inl ?_
        rw [same]
        exact List.mem_filter.mpr ⟨fresh, by simpa using duplicate⟩

/-- The segments as they are sorted. -/
def sortedSegments (lower : List Char → List Char) (c : MergeConversation ε) (timestamp : ℚ)
    (incoming : List (MergeSegment ε)) : List (TimedSegment ε) :=
  (c.timed ++ survivors lower c timestamp incoming).mergeSort fun a b => decide (a.timestamp ≤ b.timestamp)

theorem merge_some (done : mergeSegments lower c timestamp incoming = some merged) :
    survivors lower c timestamp incoming ≠ [] ∧ merged.startedAt = c.startedAt ∧
      merged.transcriptSegments = (sortedSegments lower c timestamp incoming).map (relative c.startedAt) ∧
      merged.finishedAt = max c.finishedAt
        (c.startedAt + lastSegmentEnd ((sortedSegments lower c timestamp incoming).map (relative c.startedAt))) := by
  unfold mergeSegments at done
  dsimp only at done
  split at done
  · cases done
  · rename_i some_
    cases done
    refine ⟨fun none => some_ (List.isEmpty_iff.mpr none), rfl, rfl, ?_⟩
    dsimp only
    split
    · rename_i less
      exact (max_eq_left less.le).symm
    · rename_i notLess
      exact (max_eq_right (not_lt.mp notLess)).symm

theorem merge_none (done : mergeSegments lower c timestamp incoming = none) :
    survivors lower c timestamp incoming = [] := by
  unfold mergeSegments at done
  dsimp only at done
  split at done
  · rename_i none
    exact List.isEmpty_iff.mp none
  · cases done

/-- The same segments again: all of them are there. -/
theorem merge_again (done : mergeSegments lower c timestamp incoming = some merged) :
    mergeSegments lower merged timestamp incoming = none := by
  obtain ⟨-, startedAt, segments, -⟩ := merge_some done
  have perm : (sortedSegments lower c timestamp incoming).Perm (c.timed ++ survivors lower c timestamp incoming) :=
    List.mergeSort_perm _ _
  have timed {s : TimedSegment ε} (member : s ∈ c.timed ++ survivors lower c timestamp incoming) :
      existingSegment c.startedAt (relative c.startedAt s) ∈ merged.timed := by
    unfold MergeConversation.timed
    rw [startedAt, segments]
    exact List.mem_map_of_mem (List.mem_map_of_mem (perm.mem_iff.mpr member))
  have kept : ∀ e ∈ c.timed, e ∈ merged.timed := by
    intro e member
    obtain ⟨s, -, rfl⟩ := List.mem_map.mp member
    have again := timed (List.mem_append_left _ member)
    rwa [relative_existing] at again
  have all : survivors lower merged timestamp incoming = [] := by
    refine dedupe_eq_nil fun s member => ?_
    rcases survives_or lower c s member with survived | present | duplicate
    · refine Or.inl (Bool.or_eq_true_iff.mpr (Or.inl (decide_eq_true ?_)))
      have range := existing_relative c.startedAt s
      refine List.mem_map.mpr ⟨_, timed (List.mem_append_right _ survived), ?_⟩
      rw [range]
      rfl
    · refine Or.inl ?_
      unfold rangePresent at present ⊢
      rw [startedAt]
      simp only [Bool.or_eq_true, decide_eq_true_eq, List.mem_map] at present ⊢
      exact present.imp (fun ⟨e, member, same⟩ => ⟨e, kept e member, same⟩) fun ⟨e, member, same⟩ => ⟨e, kept e member, same⟩
    · exact Or.inr (textDuplicate_mono kept duplicate)
  unfold mergeSegments
  dsimp only
  rw [all]
  rfl

end Merge

/-! ## What the merge keeps -/

/-- The written conversation: every segment once, in order, from the start of the conversation to its end, nothing
dropped but what is there, and nothing left for the same segments again. -/
structure MergeKeeps (lower : List Char → List Char) (c : MergeConversation ε) (timestamp : ℚ)
    (incoming : List (MergeSegment ε)) (merged : MergeConversation ε) : Prop where
  startedAt : merged.startedAt = c.startedAt
  segments : merged.transcriptSegments.Perm
    (c.transcriptSegments ++ (survivors lower c timestamp incoming).map (relative c.startedAt))
  sorted : merged.transcriptSegments.Pairwise fun a b => a.start ≤ b.start
  nonnegative : ∀ s ∈ merged.transcriptSegments, 0 ≤ s.start
  finishedAt : c.finishedAt ≤ merged.finishedAt
  ended : ∀ s ∈ merged.transcriptSegments, c.startedAt + s.finish ≤ merged.finishedAt
  dropped : ∀ s ∈ incoming.map (incomingSegment timestamp), s ∈ survivors lower c timestamp incoming ∨
    rangePresent c.startedAt c.timed s = true ∨ TextPresent lower c.timed s
  again : mergeSegments lower merged timestamp incoming = none

/-- If nothing is written, every incoming segment was there. -/
def MergeHolds (lower : List Char → List Char) (c : MergeConversation ε) (timestamp : ℚ)
    (incoming : List (MergeSegment ε)) : Prop :=
  match mergeSegments lower c timestamp incoming with
  | some merged => MergeKeeps lower c timestamp incoming merged
  | none => ∀ s ∈ incoming.map (incomingSegment timestamp),
      rangePresent c.startedAt c.timed s = true ∨ TextPresent lower c.timed s

def startsBefore (a b : TimedSegment ε) : Bool := decide (a.timestamp ≤ b.timestamp)

def absEnd (s : TimedSegment ε) : ℚ := (segmentAbsRange s).2

/-- No survivor starts before the conversation, and none of the segments ends after both the old end and the segment
that starts last. -/
def MergesInTime (lower : List Char → List Char) (c : MergeConversation ε) (timestamp : ℚ)
    (incoming : List (MergeSegment ε)) : Prop :=
  survivors lower c timestamp incoming = [] ∨
    ((∀ s ∈ survivors lower c timestamp incoming, c.startedAt ≤ s.timestamp) ∧
      ∀ s ∈ c.timed ++ survivors lower c timestamp incoming, absEnd s ≤ c.finishedAt ∨
        ∃ last, lastLargest startsBefore (c.timed ++ survivors lower c timestamp incoming) = some last ∧
          absEnd s ≤ absEnd last)

section Times
variable {c merged : MergeConversation ε} {timestamp : ℚ} {incoming : List (MergeSegment ε)}

theorem startsBefore_trans (a b d : TimedSegment ε) (first : startsBefore a b = true) (second : startsBefore b d = true) :
    startsBefore a d = true :=
  decide_eq_true ((of_decide_eq_true first).trans (of_decide_eq_true second))

theorem startsBefore_total (a b : TimedSegment ε) : (startsBefore a b || startsBefore b a) = true := by
  rw [startsBefore, startsBefore, Bool.or_eq_true, decide_eq_true_eq, decide_eq_true_eq]
  exact le_total _ _

theorem finish_relative (startedAt : ℚ) (s : TimedSegment ε) : startedAt + (relative startedAt s).finish = absEnd s := by
  change startedAt + (s.timestamp - startedAt + s.segment.duration) = s.timestamp + s.segment.duration
  ring

/-- The end that is written. -/
theorem finishedAt_eq (done : mergeSegments lower c timestamp incoming = some merged) :
    ∃ last, lastLargest startsBefore (c.timed ++ survivors lower c timestamp incoming) = some last ∧
      merged.finishedAt = max c.finishedAt (absEnd last) := by
  obtain ⟨some_, -, -, finishedAt⟩ := merge_some done
  have sorted : (sortedSegments lower c timestamp incoming).getLast? =
      lastLargest startsBefore (c.timed ++ survivors lower c timestamp incoming) :=
    getLast?_mergeSort startsBefore_trans startsBefore_total _
  have nonempty : sortedSegments lower c timestamp incoming ≠ [] := by
    intro none
    have length : (sortedSegments lower c timestamp incoming).length = _ :=
      List.length_mergeSort (c.timed ++ survivors lower c timestamp incoming)
    rw [none, List.length_nil, List.length_append] at length
    exact some_ (List.length_eq_zero_iff.mp (by omega))
  cases found : (sortedSegments lower c timestamp incoming).getLast? with
  | none => exact absurd (List.getLast?_eq_none_iff.mp found) nonempty
  | some last =>
      refine ⟨last, sorted.symm.trans found, ?_⟩
      rw [finishedAt, lastSegmentEnd, List.getLast?_map, found, Option.map_some]
      dsimp only
      rw [finish_relative]

theorem sorted_starts (done : mergeSegments lower c timestamp incoming = some merged) :
    merged.transcriptSegments.Pairwise fun a b => a.start ≤ b.start := by
  rw [(merge_some done).2.2.1]
  have sorted : (sortedSegments lower c timestamp incoming).Pairwise fun a b => startsBefore a b = true :=
    List.pairwise_mergeSort startsBefore_trans startsBefore_total _
  refine List.pairwise_map.mpr (sorted.imp fun before => ?_)
  exact sub_le_sub_right (of_decide_eq_true before) c.startedAt

theorem perm_segments (done : mergeSegments lower c timestamp incoming = some merged) :
    merged.transcriptSegments.Perm
      (c.transcriptSegments ++ (survivors lower c timestamp incoming).map (relative c.startedAt)) := by
  rw [(merge_some done).2.2.1]
  have perm : (sortedSegments lower c timestamp incoming).Perm (c.timed ++ survivors lower c timestamp incoming) :=
    List.mergeSort_perm _ _
  have existing : c.timed.map (relative c.startedAt) = c.transcriptSegments := by
    rw [MergeConversation.timed, List.map_map]
    exact (List.map_congr_left fun s _ => relative_existing c.startedAt s).trans (List.map_id _)
  have mapped := perm.map (relative c.startedAt)
  rwa [List.map_append, existing] at mapped

theorem mem_segments (done : mergeSegments lower c timestamp incoming = some merged) {s : MergeSegment ε} :
    s ∈ merged.transcriptSegments ↔
      ∃ t ∈ c.timed ++ survivors lower c timestamp incoming, relative c.startedAt t = s := by
  rw [(merge_some done).2.2.1, List.mem_map]
  have perm : (sortedSegments lower c timestamp incoming).Perm (c.timed ++ survivors lower c timestamp incoming) :=
    List.mergeSort_perm _ _
  exact exists_congr fun t => and_congr_left fun _ => perm.mem_iff

end Times

/-- The merge keeps what it promises exactly when no survivor starts before the conversation and the last to start, or
the old end, ends last. -/
theorem merge_holds_iff (lower : List Char → List Char) (c : MergeConversation ε) (timestamp : ℚ)
    (incoming : List (MergeSegment ε)) (valid : ∀ s ∈ c.transcriptSegments, 0 ≤ s.start ∧ s.start ≤ s.finish) :
    MergeHolds lower c timestamp incoming ↔ MergesInTime lower c timestamp incoming := by
  have dropped : ∀ s ∈ incoming.map (incomingSegment timestamp), s ∈ survivors lower c timestamp incoming ∨
      rangePresent c.startedAt c.timed s = true ∨ TextPresent lower c.timed s :=
    fun s member => (survives_or lower c s member).imp_right (Or.imp_right textPresent_of_duplicate)
  unfold MergeHolds
  cases done : mergeSegments lower c timestamp incoming with
  | none =>
      have all := merge_none done
      refine ⟨fun _ => Or.inl all, fun _ s member => (dropped s member).resolve_left fun survived => ?_⟩
      rw [all] at survived
      cases survived
  | some merged =>
      obtain ⟨last, latest, finishedAt⟩ := finishedAt_eq done
      constructor
      · intro keeps
        refine Or.inr ⟨fun s survived => ?_, fun s member => ?_⟩
        · have start := keeps.nonnegative _ ((mem_segments done).mpr ⟨s, List.mem_append_right _ survived, rfl⟩)
          exact sub_nonneg.mp start
        · have ended := keeps.ended _ ((mem_segments done).mpr ⟨s, member, rfl⟩)
          rw [finish_relative, finishedAt] at ended
          exact (le_max_iff.mp ended).imp_right fun early => ⟨last, latest, early⟩
      · rintro (all | ⟨starts, ends⟩)
        · exact absurd all (merge_some done).1
        · refine ⟨(merge_some done).2.1, perm_segments done, sorted_starts done, fun s member => ?_, ?_, fun s member => ?_,
            dropped, merge_again done⟩
          · obtain ⟨t, inside, rfl⟩ := (mem_segments done).mp member
            rcases List.mem_append.mp inside with existing | survived
            · obtain ⟨e, known, rfl⟩ := List.mem_map.mp existing
              rw [relative_existing]
              exact (valid e known).1
            · exact sub_nonneg.mpr (starts t survived)
          · rw [finishedAt]
            exact le_max_left _ _
          · obtain ⟨t, inside, rfl⟩ := (mem_segments done).mp member
            rw [finish_relative, finishedAt]
            rcases ends t inside with early | ⟨other, found, early⟩
            · exact le_max_of_le_left early
            · cases found.symm.trans latest
              exact le_max_of_le_right early

/-! ## A segment before the conversation -/

def sampleConversation : MergeConversation Unit := ⟨100, 110, []⟩

/-- Five seconds of audio. -/
def sampleIncoming : List (MergeSegment Unit) := [⟨0, 5, some "well then", ()⟩]

/-- A conversation of one line. -/
def sampleSpoken : MergeConversation Unit := ⟨100, 110, [⟨0, 10, some "hello", ()⟩]⟩

def sampleTimed (timestamp : ℚ) : TimedSegment Unit := ⟨⟨0, 5, some "well then", ()⟩, timestamp⟩

theorem sample_survivors :
    survivors id sampleConversation 50 sampleIncoming = [sampleTimed 50] ∧
    survivors id sampleSpoken 112 sampleIncoming = [sampleTimed 112] ∧
    lastLargest startsBefore (sampleSpoken.timed ++ [sampleTimed 112]) = some (sampleTimed 112) ∧
    (∀ s ∈ sampleSpoken.timed ++ [sampleTimed 112], absEnd s ≤ absEnd (sampleTimed 112)) ∧
    (∀ s ∈ [sampleTimed 112], sampleSpoken.startedAt ≤ s.timestamp) ∧
    (∀ s ∈ sampleSpoken.transcriptSegments, 0 ≤ s.start ∧ s.start ≤ s.finish) ∧
    ¬(0 : ℚ) ≤ (relative 100 (sampleTimed 50)).start := by
  decide +kernel

/-- The segment is written with a negative start. -/
theorem merge_before_start : ¬MergeHolds id sampleConversation 50 sampleIncoming := by
  obtain ⟨kept, -, -, -, -, -, negative⟩ := sample_survivors
  intro holds
  unfold MergeHolds at holds
  cases done : mergeSegments id sampleConversation 50 sampleIncoming with
  | none =>
      have none := merge_none done
      rw [kept] at none
      cases none
  | some merged =>
      rw [done] at holds
      refine negative (holds.nonnegative _ ((mem_segments done).mpr ⟨sampleTimed 50, ?_, rfl⟩))
      rw [kept]
      exact List.mem_append_right _ List.mem_cons_self

theorem merge_holds_sample : MergeHolds id sampleSpoken 112 sampleIncoming := by
  obtain ⟨-, kept, last, ends, starts, valid, -⟩ := sample_survivors
  refine (merge_holds_iff id sampleSpoken 112 sampleIncoming valid).mpr (Or.inr ?_)
  rw [kept]
  exact ⟨starts, fun s member => Or.inr ⟨_, last, ends s member⟩⟩

end OmiLocal.Sync
