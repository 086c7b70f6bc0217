import Mathlib.Algebra.Order.Floor.Semiring
import Mathlib.Data.List.Induction
import Mathlib.Data.List.Pairwise
import Mathlib.Data.Rat.Floor
import Mathlib.Tactic.IntervalCases
import Mathlib.Tactic.Linarith

/-!
# Cutting synced audio at its silences

`_merge_and_cap_vad_segments` and the loop of `retrieve_vad_segments` that exports the pieces.
Times are exact rationals in seconds, and an exported piece is the range that the audio is cut to.
The pieces keep every voice segment; the export leaves out the pieces under a second, and so the
short end of a voice segment that was longer than the cap.
-/
namespace OmiLocal.Sync

structure VoiceSegment where
  start : ℚ
  finish : ℚ
  deriving DecidableEq

/-- `MAX_VAD_SEGMENT_SECONDS`. -/
structure VadCap where
  seconds : Nat
  positive : 0 < seconds

namespace VoiceSegment

def length (s : VoiceSegment) : ℚ := s.finish - s.start

def Contains (s : VoiceSegment) (t : ℚ) : Prop := s.start ≤ t ∧ t < s.finish

end VoiceSegment

variable (cap : VadCap)

/-- One turn of the loop that merges. -/
def mergeVoice (merged : List VoiceSegment) (segment : VoiceSegment) : List VoiceSegment :=
  match merged.getLast? with
  | some last =>
      if segment.start - last.finish < 120 ∧ segment.finish - last.start ≤ cap.seconds then
        merged.dropLast ++ [{ last with finish := segment.finish }]
      else merged ++ [segment]
  | none => [segment]

/-- `while chunk_start < segment['end']`. -/
def cutVoice (finish chunkStart : ℚ) : List VoiceSegment :=
  if chunkStart < finish then
    let chunkEnd := min (chunkStart + cap.seconds) finish
    ⟨chunkStart, chunkEnd⟩ :: cutVoice finish chunkEnd
  else []
termination_by ⌈(finish - chunkStart) / cap.seconds⌉₊
decreasing_by
  have positive : (0 : ℚ) < cap.seconds := Nat.cast_pos.mpr cap.positive
  have more : 0 < (finish - chunkStart) / cap.seconds := div_pos (by linarith) positive
  rcases min_cases (chunkStart + (cap.seconds : ℚ)) finish with ⟨same, -⟩ | ⟨same, -⟩
  · rw [same]
    have less : (finish - (chunkStart + cap.seconds)) / cap.seconds = (finish - chunkStart) / cap.seconds - 1 := by
      rw [← sub_sub, sub_div, div_self positive.ne']
    rw [less, Nat.ceil_sub_one]
    exact Nat.sub_lt (Nat.ceil_pos.mpr more) one_pos
  · rw [same, sub_self, zero_div, Nat.ceil_zero]
    exact Nat.ceil_pos.mpr more

def capVoice (segment : VoiceSegment) : List VoiceSegment :=
  if segment.length ≤ cap.seconds then [segment] else cutVoice cap segment.finish segment.start

def mergeAndCapVadSegments (voiceSegments : List VoiceSegment) : List VoiceSegment :=
  (voiceSegments.foldl (mergeVoice cap) []).flatMap (capVoice cap)

/-- The pieces that `retrieve_vad_segments` exports. -/
def exportedSegments (voiceSegments : List VoiceSegment) : List VoiceSegment :=
  (mergeAndCapVadSegments cap voiceSegments).filter fun segment => !decide (segment.length < 1)

variable {cap : VadCap}

/-- Each one ends before the next begins. -/
def InOrder (l : List VoiceSegment) : Prop := l.Pairwise fun u v => u.finish ≤ v.start

theorem InOrder.eq_or {l : List VoiceSegment} (h : InOrder l) {p q : VoiceSegment} (first : p ∈ l) (second : q ∈ l) :
    p = q ∨ p.finish ≤ q.start ∨ q.finish ≤ p.start := by
  have symmetric : Std.Symm fun p q : VoiceSegment => p = q ∨ p.finish ≤ q.start ∨ q.finish ≤ p.start :=
    ⟨fun p q apart => apart.elim (fun same => Or.inl same.symm) fun apart => Or.inr apart.symm⟩
  exact List.Pairwise.forall_of_forall (R := fun p q : VoiceSegment => p = q ∨ p.finish ≤ q.start ∨ q.finish ≤ p.start)
    (fun _ _ => Or.inl rfl) (h.imp fun before => Or.inr (Or.inl before)) first second

theorem InOrder.eq_of_contains {l : List VoiceSegment} (h : InOrder l) {p q : VoiceSegment} (first : p ∈ l)
    (second : q ∈ l) {t : ℚ} (inFirst : p.Contains t) (inSecond : q.Contains t) : p = q := by
  rcases h.eq_or first second with same | before | after
  · exact same
  · exact absurd (inFirst.2.trans_le before) (not_lt.mpr inSecond.1)
  · exact absurd (inSecond.2.trans_le after) (not_lt.mpr inFirst.1)

/-! ## Cutting -/

theorem cap_pos (cap : VadCap) : (0 : ℚ) < cap.seconds := Nat.cast_pos.mpr cap.positive

theorem one_le_cap (cap : VadCap) : (1 : ℚ) ≤ cap.seconds := Nat.one_le_cast.mpr cap.positive

/-- Every piece is the cap long but the one at the end, and starts a multiple of the cap after the segment. -/
theorem mem_cutVoice {finish chunkStart : ℚ} {p : VoiceSegment} (member : p ∈ cutVoice cap finish chunkStart) :
    chunkStart ≤ p.start ∧ p.start < p.finish ∧ p.finish ≤ finish ∧ p.length ≤ cap.seconds ∧
      (∃ k : ℕ, p.start = chunkStart + k * cap.seconds) ∧ (p.length = cap.seconds ∨ p.finish = finish) := by
  induction chunkStart using cutVoice.induct cap finish with
  | case1 chunkStart more chunkEnd ih =>
      have positive := cap_pos cap
      rw [cutVoice, if_pos more] at member
      rcases List.mem_cons.mp member with rfl | later
      · refine ⟨le_rfl, lt_min (by linarith) more, min_le_right _ _, ?_, ⟨0, by simp⟩, ?_⟩
        · exact sub_le_iff_le_add'.mpr (min_le_left _ _)
        · rcases min_cases (chunkStart + (cap.seconds : ℚ)) finish with ⟨same, -⟩ | ⟨same, -⟩
          · refine Or.inl ?_
            change min (chunkStart + (cap.seconds : ℚ)) finish - chunkStart = cap.seconds
            rw [same, add_sub_cancel_left]
          · exact Or.inr same
      · obtain ⟨after, some_, within, short, ⟨k, start⟩, full⟩ := ih later
        have next : chunkStart ≤ chunkEnd := le_min (by linarith) more.le
        refine ⟨next.trans after, some_, within, short, ⟨k + 1, ?_⟩, full⟩
        -- A piece after this one: this one was full.
        have whole : chunkEnd = chunkStart + cap.seconds := by
          rcases min_cases (chunkStart + (cap.seconds : ℚ)) finish with ⟨same, -⟩ | ⟨same, -⟩
          · exact same
          · exact absurd (after.trans_lt (some_.trans_le within)) (not_lt.mpr same.ge)
        rw [start, whole]
        push_cast
        ring
  | case2 chunkStart done =>
      rw [cutVoice, if_neg done] at member
      cases member

theorem inOrder_cutVoice (finish chunkStart : ℚ) : InOrder (cutVoice cap finish chunkStart) := by
  induction chunkStart using cutVoice.induct cap finish with
  | case1 chunkStart more chunkEnd ih =>
      rw [cutVoice, if_pos more]
      exact List.pairwise_cons.mpr ⟨fun p later => (mem_cutVoice later).1, ih⟩
  | case2 chunkStart done =>
      rw [cutVoice, if_neg done]
      exact List.Pairwise.nil

theorem cutVoice_covers (finish chunkStart : ℚ) {t : ℚ} (from_ : chunkStart ≤ t) (before : t < finish) :
    ∃ p ∈ cutVoice cap finish chunkStart, p.Contains t := by
  induction chunkStart using cutVoice.induct cap finish with
  | case1 chunkStart more chunkEnd ih =>
      rw [cutVoice, if_pos more]
      by_cases here : t < chunkEnd
      · exact ⟨_, List.mem_cons_self, from_, here⟩
      · obtain ⟨p, later, inside⟩ := ih (not_lt.mp here)
        exact ⟨p, List.mem_cons_of_mem _ later, inside⟩
  | case2 chunkStart done => exact absurd (from_.trans_lt before) done

/-! ## Merging -/

/-- Ordered and disjoint, from zero on, and none of them empty. -/
structure ValidVoice (voice : List VoiceSegment) : Prop where
  positive : ∀ v ∈ voice, 0 ≤ v.start ∧ v.start < v.finish
  inOrder : InOrder voice

/-- No segment reaches into the silence between two neighbours that are two minutes apart. -/
def KeepsGaps (voice segments : List VoiceSegment) : Prop :=
  ∀ earlier u v later, voice = earlier ++ u :: v :: later → 120 ≤ v.start - u.finish →
    ∀ m ∈ segments, ∀ t, m.Contains t → t < u.finish ∨ v.start ≤ t

structure Merged (cap : VadCap) (voice merged : List VoiceSegment) : Prop where
  last : merged.getLast?.map VoiceSegment.finish = voice.getLast?.map VoiceSegment.finish
  positive : ∀ m ∈ merged, m.start < m.finish
  inOrder : InOrder merged
  capped : ∀ m ∈ merged, m.length ≤ cap.seconds ∨ m ∈ voice
  covers : ∀ v ∈ voice, ∃ m ∈ merged, m.start ≤ v.start ∧ v.finish ≤ m.finish
  gaps : KeepsGaps voice merged

theorem merged_nil (cap : VadCap) : Merged cap [] [] :=
  ⟨rfl, fun _ none => (by cases none), List.Pairwise.nil, fun _ none => (by cases none), fun _ none => (by cases none),
    fun _ _ _ _ _ _ _ none => (by cases none)⟩

/-- A gap of a longer list is one of the list, or the one before its new last. -/
theorem gap_snoc {voice earlier later : List VoiceSegment} {u v w : VoiceSegment}
    (same : voice ++ [w] = earlier ++ u :: v :: later) :
    (∃ rest, voice = earlier ++ u :: v :: rest) ∨ (v = w ∧ voice = earlier ++ [u]) := by
  rcases List.eq_nil_or_concat later with rfl | ⟨rest, last, rfl⟩
  · have parts : voice ++ [w] = (earlier ++ [u]) ++ [v] := same.trans (by simp)
    obtain ⟨front, single⟩ := List.append_inj' parts rfl
    cases single
    exact Or.inr ⟨rfl, front⟩
  · have parts : voice ++ [w] = (earlier ++ u :: v :: rest) ++ [last] := same.trans (by simp)
    exact Or.inl ⟨rest, (List.append_inj' parts rfl).1⟩

theorem InOrder.concat {l : List VoiceSegment} {last : VoiceSegment} (h : InOrder l)
    (before : ∀ u ∈ l, u.finish ≤ last.start) : InOrder (l ++ [last]) :=
  List.pairwise_append.mpr ⟨h, List.pairwise_singleton _ _, fun u member v single => by
    rw [List.mem_singleton.mp single]
    exact before u member⟩

section Snoc
variable {voice merged init : List VoiceSegment} {last w : VoiceSegment}

/-- Joined to the last. -/
theorem Merged.join (h : Merged cap voice (init ++ [last])) (positive : w.start < w.finish)
    (ends : ∀ v ∈ voice, v.start < v.finish ∧ v.finish ≤ last.finish) (after : last.finish ≤ w.start)
    (near : w.start - last.finish < 120) (short : w.finish - last.start ≤ cap.seconds)
    (final : ∀ earlier u, voice = earlier ++ [u] → u.finish = last.finish) :
    Merged cap (voice ++ [w]) (init ++ [{ last with finish := w.finish }]) := by
  have lastPositive := h.positive last (List.mem_append_right _ List.mem_cons_self)
  obtain ⟨initOrder, -, beforeLast⟩ := List.pairwise_append.mp h.inOrder
  refine ⟨by rw [List.getLast?_concat, List.getLast?_concat]; rfl, fun m member => ?_, ?_, fun m member => ?_,
    fun v member => ?_, fun earlier u v later same gap m member t inside => ?_⟩
  · rcases List.mem_append.mp member with front | back
    · exact h.positive m (List.mem_append_left _ front)
    · rw [List.mem_singleton.mp back]
      exact lastPositive.trans (after.trans_lt positive)
  · exact InOrder.concat initOrder fun u member => beforeLast u member last List.mem_cons_self
  · rcases List.mem_append.mp member with front | back
    · exact (h.capped m (List.mem_append_left _ front)).imp_right (List.mem_append_left _)
    · rw [List.mem_singleton.mp back]
      exact Or.inl short
  · rcases List.mem_append.mp member with known | new
    · obtain ⟨m, inside, from_, upTo⟩ := h.covers v known
      rcases List.mem_append.mp inside with front | back
      · exact ⟨m, List.mem_append_left _ front, from_, upTo⟩
      · rw [List.mem_singleton.mp back] at from_ upTo
        exact ⟨_, List.mem_append_right _ List.mem_cons_self, from_, upTo.trans (after.trans positive.le)⟩
    · rw [List.mem_singleton.mp new]
      exact ⟨_, List.mem_append_right _ List.mem_cons_self, lastPositive.le.trans after, le_rfl⟩
  · rcases gap_snoc same with ⟨rest, known⟩ | ⟨rfl, known⟩
    · rcases List.mem_append.mp member with front | back
      · exact h.gaps earlier u v rest known gap m (List.mem_append_left _ front) t inside
      · rw [List.mem_singleton.mp back] at inside
        by_cases within : t < last.finish
        · exact h.gaps earlier u v rest known gap last (List.mem_append_right _ List.mem_cons_self) t ⟨inside.1, within⟩
        · have old := ends v (known ▸ by simp)
          exact Or.inr ((old.1.trans_le old.2).le.trans (not_lt.mp within))
    · have same := final earlier u known
      linarith

/-- Too far, or too long. -/
theorem Merged.append (h : Merged cap voice merged) (positive : w.start < w.finish)
    (ends : ∀ v ∈ voice, v.start < v.finish ∧ v.finish ≤ w.start) (after : ∀ m ∈ merged, m.finish ≤ w.start)
    (final : ∀ earlier u, voice = earlier ++ [u] → ∀ m ∈ merged, m.finish ≤ u.finish) :
    Merged cap (voice ++ [w]) (merged ++ [w]) := by
  refine ⟨by rw [List.getLast?_concat, List.getLast?_concat], fun m member => ?_, h.inOrder.concat after, fun m member => ?_,
    fun v member => ?_, fun earlier u v later same gap m member t inside => ?_⟩
  · rcases List.mem_append.mp member with known | new
    · exact h.positive m known
    · rw [List.mem_singleton.mp new]
      exact positive
  · rcases List.mem_append.mp member with known | new
    · exact (h.capped m known).imp_right (List.mem_append_left _)
    · exact Or.inr (List.mem_append_right _ new)
  · rcases List.mem_append.mp member with known | new
    · obtain ⟨m, inside, covers⟩ := h.covers v known
      exact ⟨m, List.mem_append_left _ inside, covers⟩
    · rw [List.mem_singleton.mp new]
      exact ⟨w, List.mem_append_right _ List.mem_cons_self, le_rfl, le_rfl⟩
  · rcases gap_snoc same with ⟨rest, known⟩ | ⟨rfl, known⟩
    · rcases List.mem_append.mp member with old | new
      · exact h.gaps earlier u v rest known gap m old t inside
      · rw [List.mem_singleton.mp new] at inside
        have earlierEnd := ends v (known ▸ by simp)
        exact Or.inr ((earlierEnd.1.le.trans earlierEnd.2).trans inside.1)
    · rcases List.mem_append.mp member with old | new
      · exact Or.inl (inside.2.trans_le (final earlier u known m old))
      · rw [List.mem_singleton.mp new] at inside
        exact Or.inr inside.1

theorem Merged.snoc (h : Merged cap voice merged) (valid : ValidVoice (voice ++ [w])) :
    Merged cap (voice ++ [w]) (mergeVoice cap merged w) := by
  have positive := (valid.positive w (List.mem_append_right _ List.mem_cons_self)).2
  obtain ⟨voiceOrder, -, beforeNew⟩ := List.pairwise_append.mp valid.inOrder
  have known : ∀ v ∈ voice, v.start < v.finish ∧ v.finish ≤ w.start := fun v member =>
    ⟨(valid.positive v (List.mem_append_left _ member)).2, beforeNew v member w List.mem_cons_self⟩
  rcases List.eq_nil_or_concat merged with rfl | ⟨init, last, rfl⟩
  · have none : voice = [] := List.getLast?_eq_none_iff.mp (Option.map_eq_none_iff.mp h.last.symm)
    subst none
    exact h.append positive known (fun _ none => by cases none) fun _ _ _ _ none => by cases none
  · rw [List.concat_eq_append] at h ⊢
    have lastEnd := h.last
    rw [List.getLast?_concat, Option.map_some] at lastEnd
    obtain ⟨z, zLast, zEnd⟩ := Option.map_eq_some_iff.mp lastEnd.symm
    have within : ∀ m ∈ init ++ [last], m.finish ≤ last.finish := by
      intro m member
      rcases List.mem_append.mp member with front | back
      · exact ((List.pairwise_append.mp h.inOrder).2.2 m front last List.mem_cons_self).trans
          (h.positive last (List.mem_append_right _ List.mem_cons_self)).le
      · rw [List.mem_singleton.mp back]
    have final : ∀ earlier u, voice = earlier ++ [u] → u.finish = last.finish := by
      rintro earlier u rfl
      rw [List.getLast?_concat] at zLast
      cases zLast
      exact zEnd
    have after : last.finish ≤ w.start := zEnd ▸ (known z (List.mem_of_getLast? zLast)).2
    unfold mergeVoice
    rw [List.getLast?_concat, List.dropLast_concat]
    dsimp only
    split
    · rename_i close
      refine h.join positive (fun v member => ⟨(known v member).1, ?_⟩) after close.1 close.2 final
      obtain ⟨front, rfl⟩ := List.getLast?_eq_some_iff.mp zLast
      rcases List.mem_append.mp member with earlier | single
      · exact ((List.pairwise_append.mp voiceOrder).2.2 v earlier z List.mem_cons_self).trans
          ((known z (List.mem_append_right _ List.mem_cons_self)).1.le.trans zEnd.le)
      · rw [List.mem_singleton.mp single, zEnd]
    · refine h.append positive known (fun m member => (within m member).trans after) fun earlier u same m member => ?_
      exact (within m member).trans (final earlier u same).ge

end Snoc

variable (cap) in
theorem merged_foldl {voice : List VoiceSegment} (valid : ValidVoice voice) :
    Merged cap voice (voice.foldl (mergeVoice cap) []) := by
  induction voice using List.reverseRecOn with
  | nil => exact merged_nil cap
  | append_singleton voice w ih =>
      rw [List.foldl_append]
      refine (ih ⟨fun v member => valid.positive v (List.mem_append_left _ member), ?_⟩).snoc valid
      exact (List.pairwise_append.mp valid.inOrder).1

/-! ## The pieces -/

section Pieces
variable {voice : List VoiceSegment}

theorem mem_mergeAndCap {p : VoiceSegment} :
    p ∈ mergeAndCapVadSegments cap voice ↔ ∃ m ∈ voice.foldl (mergeVoice cap) [], p ∈ capVoice cap m :=
  List.mem_flatMap

/-- A piece lies in its segment. -/
theorem mem_capVoice {m p : VoiceSegment} (positive : m.start < m.finish) (member : p ∈ capVoice cap m) :
    m.start ≤ p.start ∧ p.start < p.finish ∧ p.finish ≤ m.finish ∧ p.length ≤ cap.seconds := by
  unfold capVoice at member
  split at member
  · rename_i short
    rw [List.mem_singleton.mp member]
    exact ⟨le_rfl, positive, le_rfl, short⟩
  · obtain ⟨after, some_, within, short, -, -⟩ := mem_cutVoice member
    exact ⟨after, some_, within, short⟩

theorem inOrder_capVoice (m : VoiceSegment) : InOrder (capVoice cap m) := by
  unfold capVoice
  split
  · exact List.pairwise_singleton _ _
  · exact inOrder_cutVoice _ _

theorem inOrder_mergeAndCap (valid : ValidVoice voice) : InOrder (mergeAndCapVadSegments cap voice) := by
  have merged := merged_foldl cap valid
  refine List.pairwise_flatMap.mpr ⟨fun m _ => inOrder_capVoice m, ?_⟩
  refine merged.inOrder.imp_of_mem fun {m n} first second before p inFirst q inSecond => ?_
  have p_ := mem_capVoice (merged.positive m first) inFirst
  have q_ := mem_capVoice (merged.positive n second) inSecond
  exact p_.2.2.1.trans (before.trans q_.1)

variable (cap) in
theorem capVoice_covers {m : VoiceSegment} {t : ℚ} (inside : m.Contains t) : ∃ p ∈ capVoice cap m, p.Contains t := by
  unfold capVoice
  split
  · exact ⟨m, List.mem_cons_self, inside⟩
  · exact cutVoice_covers m.finish m.start inside.1 inside.2

end Pieces

/-- The pieces of the voice segments, and what of them is exported. -/
structure SplitsVoice (cap : VadCap) (voice : List VoiceSegment) : Prop where
  inOrder : InOrder (mergeAndCapVadSegments cap voice)
  positive : ∀ p ∈ mergeAndCapVadSegments cap voice, p.start < p.finish
  capped : ∀ p ∈ mergeAndCapVadSegments cap voice, p.length ≤ cap.seconds
  covers : ∀ v ∈ voice, ∀ t, v.Contains t → ∃ p ∈ mergeAndCapVadSegments cap voice, p.Contains t
  gaps : KeepsGaps voice (mergeAndCapVadSegments cap voice)
  exported : ∀ v ∈ voice, 1 ≤ v.length → ∀ t, v.Contains t → ∃ p ∈ exportedSegments cap voice, p.Contains t

/-- Nothing under a second is left of a voice segment after a multiple of the cap. -/
def NoShortRest (cap : VadCap) (voice : List VoiceSegment) : Prop :=
  ∀ v ∈ voice, ∀ k : ℕ, 0 < k → k * cap.seconds < v.length → 1 ≤ v.length - k * cap.seconds

section Exported
variable {voice : List VoiceSegment}

theorem mem_exported {p : VoiceSegment} :
    p ∈ exportedSegments cap voice ↔ p ∈ mergeAndCapVadSegments cap voice ∧ 1 ≤ p.length := by
  rw [exportedSegments, List.mem_filter, Bool.not_eq_true', decide_eq_false_iff_not, not_lt]

/-- A long voice segment is exported, if all pieces of a segment over the cap are. -/
theorem exported_covers (valid : ValidVoice voice) (rests : NoShortRest cap voice) {v : VoiceSegment} (member : v ∈ voice)
    (long : 1 ≤ v.length) {t : ℚ} (inside : v.Contains t) : ∃ p ∈ exportedSegments cap voice, p.Contains t := by
  have merged := merged_foldl cap valid
  obtain ⟨m, known, from_, upTo⟩ := merged.covers v member
  obtain ⟨p, piece, covers⟩ :=
    capVoice_covers cap ⟨from_.trans inside.1, inside.2.trans_le upTo⟩
  refine ⟨p, mem_exported.mpr ⟨mem_mergeAndCap.mpr ⟨m, known, piece⟩, ?_⟩, covers⟩
  unfold capVoice at piece
  split at piece
  · rw [List.mem_singleton.mp piece]
    exact long.trans (sub_le_sub upTo from_)
  · rename_i tooLong
    have isVoice := (merged.capped m known).resolve_left tooLong
    obtain ⟨-, some_, -, short, ⟨k, start⟩, whole | last⟩ := mem_cutVoice piece
    · exact whole ▸ one_le_cap cap
    · have rest : p.length = m.length - k * cap.seconds := by
        rw [VoiceSegment.length, VoiceSegment.length, last, start]
        ring
      have more : 0 < m.length - k * cap.seconds := rest ▸ sub_pos.mpr some_
      rcases Nat.eq_zero_or_pos k with rfl | later
      · rw [rest, Nat.cast_zero, zero_mul, sub_zero] at short
        exact absurd short tooLong
      · exact rest ▸ rests m isVoice k later (sub_pos.mp more)

variable (cap) in
/-- The last piece of a cut. -/
theorem last_mem_cutVoice (finish chunkStart : ℚ) (k : ℕ) (more : k * cap.seconds < finish - chunkStart)
    (last : finish - chunkStart ≤ (k + 1) * cap.seconds) :
    (⟨chunkStart + k * cap.seconds, finish⟩ : VoiceSegment) ∈ cutVoice cap finish chunkStart := by
  have positive := cap_pos cap
  induction k generalizing chunkStart with
  | zero =>
      rw [Nat.cast_zero, zero_mul] at more
      rw [Nat.cast_zero, zero_add, one_mul] at last
      rw [cutVoice, if_pos (by linarith), Nat.cast_zero, zero_mul, add_zero, min_eq_right (by linarith)]
      exact List.mem_cons_self
  | succ k ih =>
      push_cast at more last
      have room : 0 ≤ (k : ℚ) * cap.seconds := mul_nonneg (Nat.cast_nonneg k) positive.le
      have full : min (chunkStart + (cap.seconds : ℚ)) finish = chunkStart + cap.seconds := min_eq_left (by linarith)
      rw [cutVoice, if_pos (by linarith), full]
      refine List.mem_cons_of_mem _ ?_
      have later := ih (chunkStart + cap.seconds) (by linarith) (by linarith)
      have same : chunkStart + cap.seconds + k * cap.seconds = chunkStart + ((k + 1 : ℕ) : ℚ) * cap.seconds := by
        push_cast
        ring
      rwa [same] at later

/-- A rest under a second is exported by no piece. -/
theorem noShortRest_of_exported (valid : ValidVoice voice) (splits : SplitsVoice cap voice) : NoShortRest cap voice := by
  intro v member k later more
  by_contra short
  have merged := merged_foldl cap valid
  have positive := cap_pos cap
  have once : (cap.seconds : ℚ) ≤ k * cap.seconds := le_mul_of_one_le_left positive.le (Nat.one_le_cast.mpr later)
  obtain ⟨m, known, from_, upTo⟩ := merged.covers v member
  have contained : v.length ≤ m.length := sub_le_sub upTo from_
  have tooLong : ¬m.length ≤ cap.seconds := not_le.mpr ((once.trans_lt more).trans_le contained)
  have isVoice := (merged.capped m known).resolve_left tooLong
  have same : m = v := by
    refine valid.inOrder.eq_of_contains isVoice member ⟨from_, ?_⟩ ⟨le_rfl, (valid.positive v member).2⟩
    exact (valid.positive v member).2.trans_le upTo
  subst same
  have one := one_le_cap cap
  have piece := last_mem_cutVoice cap m.finish m.start k more (by
    have : m.finish - m.start = m.length := rfl
    linarith)
  have inPieces : (⟨m.start + k * cap.seconds, m.finish⟩ : VoiceSegment) ∈ mergeAndCapVadSegments cap voice :=
    mem_mergeAndCap.mpr ⟨m, known, by rwa [capVoice, if_neg tooLong]⟩
  have length : (⟨m.start + k * cap.seconds, m.finish⟩ : VoiceSegment).length = m.length - k * cap.seconds := by
    rw [VoiceSegment.length, VoiceSegment.length]
    ring
  have begins : (⟨m.start + k * cap.seconds, m.finish⟩ : VoiceSegment).Contains (m.start + k * cap.seconds) :=
    ⟨le_rfl, sub_pos.mp ((sub_pos.mpr more).trans_eq length.symm)⟩
  obtain ⟨p, exported, inside⟩ := splits.exported m member (by linarith) _ ⟨by linarith, begins.2⟩
  obtain ⟨known, long⟩ := mem_exported.mp exported
  rw [splits.inOrder.eq_of_contains known inPieces inside begins, length] at long
  exact short long

end Exported

/-- The voice segments are split as they should be, and exported, exactly when no voice segment leaves a rest under a
second after a multiple of the cap. -/
theorem splitsVoice_iff (cap : VadCap) (voice : List VoiceSegment) (valid : ValidVoice voice) :
    SplitsVoice cap voice ↔ NoShortRest cap voice := by
  refine ⟨noShortRest_of_exported valid, fun rests => ?_⟩
  have merged := merged_foldl cap valid
  refine ⟨inOrder_mergeAndCap valid, fun p member => ?_, fun p member => ?_, fun v member t inside => ?_,
    fun earlier u v later same gap p member t inside => ?_, fun v member long t inside => exported_covers valid rests member long inside⟩
  · obtain ⟨m, known, piece⟩ := mem_mergeAndCap.mp member
    exact (mem_capVoice (merged.positive m known) piece).2.1
  · obtain ⟨m, known, piece⟩ := mem_mergeAndCap.mp member
    exact (mem_capVoice (merged.positive m known) piece).2.2.2
  · obtain ⟨m, known, from_, upTo⟩ := merged.covers v member
    obtain ⟨p, piece, covers⟩ := capVoice_covers cap ⟨from_.trans inside.1, inside.2.trans_le upTo⟩
    exact ⟨p, mem_mergeAndCap.mpr ⟨m, known, piece⟩, covers⟩
  · obtain ⟨m, known, piece⟩ := mem_mergeAndCap.mp member
    obtain ⟨after, -, within, -⟩ := mem_capVoice (merged.positive m known) piece
    exact merged.gaps earlier u v later same gap m known t ⟨after.trans inside.1, inside.2.trans_le within⟩

/-! ## Ten minutes of speech -/

def sampleCap : VadCap := ⟨300, by decide⟩

theorem sample_valid {finish : ℚ} (positive : 0 < finish) : ValidVoice [⟨0, finish⟩] :=
  ⟨fun v member => by
    rw [List.mem_singleton.mp member]
    exact ⟨le_rfl, positive⟩, List.pairwise_singleton _ _⟩

/-- Ten minutes and half a second: the half second is not exported. -/
theorem short_rest_not_exported : ¬SplitsVoice sampleCap [⟨0, 600 + 1 / 2⟩] := by
  intro splits
  have rest := noShortRest_of_exported (sample_valid (by norm_num)) splits _ List.mem_cons_self 2 (by decide)
    (by norm_num [sampleCap, VoiceSegment.length])
  norm_num [sampleCap, VoiceSegment.length] at rest

/-- With a full second more, all of it is. -/
theorem splitsVoice_sample : SplitsVoice sampleCap [⟨0, 601⟩] := by
  refine (splitsVoice_iff sampleCap [⟨0, 601⟩] (sample_valid (by norm_num))).mpr fun v member k later more => ?_
  rw [List.mem_singleton.mp member] at more ⊢
  norm_num [sampleCap, VoiceSegment.length] at more ⊢
  have few : k < 3 := by
    by_contra many
    have three : (3 : ℚ) ≤ k := by exact_mod_cast not_lt.mp many
    linarith
  interval_cases k <;> norm_num

end OmiLocal.Sync
