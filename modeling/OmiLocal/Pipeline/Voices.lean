import OmiLocal.Lib.Tally
import OmiLocal.Pipeline.Transcript

/-!
# The words and their voices

`reconcile` cuts a segment between words and leaves the words themselves alone. The
voice of an interval is the first label that shares the most time with it, over a
scan of all sorted turns. In a segment with an untimed word every word has the
voice of the segment.
-/
namespace OmiLocal.Pipeline
open Lib

/-! ## The voice of an interval -/

def ballot (start stop : ℚ) (t : Turn) : String × ℚ := Tally.ballot Turn.label Turn.start Turn.stop start stop t

/-- The first label of greatest total over a scan of the turns. -/
def speakerByScan (turns : List Turn) (start stop : ℚ) : Option String :=
  let ballots := turns.map (ballot start stop)
  Tally.firstMaximiser (Tally.voters ballots) (Tally.total ballots)

theorem Turn.le_total (a b : Turn) : (a.le b || b.le a) = true := by
  unfold Turn.le
  rw [Bool.or_eq_true, decide_eq_true_eq, decide_eq_true_eq]
  rcases lt_trichotomy a.start b.start with less | same | more
  · exact .inl (.inl less)
  · rcases lt_trichotomy a.stop b.stop with less | same' | more
    · exact .inl (.inr ⟨same, .inl less⟩)
    · rcases String.le_total a.label b.label with less | more
      · exact .inl (.inr ⟨same, .inr ⟨same', less⟩⟩)
      · exact .inr (.inr ⟨same.symm, .inr ⟨same'.symm, more⟩⟩)
    · exact .inr (.inr ⟨same.symm, .inl more⟩)
  · exact .inr (.inl more)

theorem Turn.le_trans (a b c : Turn) (first : a.le b = true) (second : b.le c = true) : a.le c = true := by
  unfold Turn.le at *
  rw [decide_eq_true_eq] at *
  rcases first with less | ⟨same, less | ⟨same', less⟩⟩ <;> rcases second with less' | ⟨next, less' | ⟨next', less'⟩⟩
  · exact .inl (less.trans less')
  · exact .inl (less.trans_eq next)
  · exact .inl (less.trans_eq next)
  · exact .inl (same.trans_lt less')
  · exact .inr ⟨same.trans next, .inl (less.trans less')⟩
  · exact .inr ⟨same.trans next, .inl (less.trans_eq next')⟩
  · exact .inl (same.trans_lt less')
  · exact .inr ⟨same.trans next, .inl (same'.trans_lt less')⟩
  · exact .inr ⟨same.trans next, .inr ⟨same'.trans next', String.le_trans less less'⟩⟩

theorem Turn.start_le {a b : Turn} (ordered : a.le b = true) : a.start ≤ b.start := by
  rcases of_decide_eq_true ordered with less | ⟨same, -⟩
  · exact less.le
  · exact same.le

theorem sorted_starts (turns : List Turn) : ((turns.mergeSort Turn.le).map Turn.start).Pairwise (· ≤ ·) :=
  List.pairwise_map.mpr ((List.pairwise_mergeSort Turn.le_trans Turn.le_total turns).imp Turn.start_le)

theorem maxEnds_eq (last : Option ℚ) (turns : List Turn) :
    maxEnds last turns = Tally.runningMax last (turns.map Turn.stop) := by
  induction turns generalizing last with
  | nil => rfl
  | cons t rest ih =>
      have latest : max t.stop (last.getD t.stop) = last.elim t.stop (max t.stop) := by
        cases last with
        | none => exact max_self _
        | some last => rfl
      unfold maxEnds
      dsimp only
      rw [List.map_cons, Tally.runningMax, latest, ih]

theorem addScore_eq {scores : List (String × ℚ)} (distinct : (Dict.keys scores).Nodup) (label : String) (overlap : ℚ) :
    addScore label overlap scores = Dict.put scores label ((Dict.get scores label).getD 0 + overlap) := by
  have known : (scores.any fun s => s.1 == label) = true ↔ label ∈ Dict.keys scores := by
    simp [Dict.keys, List.any_eq_true]
  unfold addScore Dict.put
  by_cases here : label ∈ Dict.keys scores
  · rw [if_pos (known.mpr here), if_pos here]
    unfold Dict.change
    refine List.map_congr_left fun e member => ?_
    split
    · rename_i same
      rw [Dict.get_of_mem distinct (same ▸ member : (label, e.2) ∈ scores)]
      rfl
    · rfl
  · rw [if_neg (mt known.mp here), if_neg here, Dict.get_of_not_mem here, Option.getD_none, zero_add]

/-- The loop of `speaker` over the turns. -/
theorem foldl_scores (start stop : ℚ) (turns : List Turn) {scores : List (String × ℚ)}
    (distinct : (Dict.keys scores).Nodup) :
    turns.foldl (fun scores t =>
        let overlap := max 0 (min stop t.stop - max start t.start)
        if overlap = 0 then scores else addScore t.label overlap scores) scores =
      (turns.map (ballot start stop)).foldl Tally.cast scores := by
  induction turns generalizing scores with
  | nil => rfl
  | cons t rest ih =>
      have step : (if max 0 (min stop t.stop - max start t.start) = 0 then scores
          else addScore t.label (max 0 (min stop t.stop - max start t.start)) scores) =
          Tally.cast scores (ballot start stop t) := by
        rw [addScore_eq distinct]
        rfl
      have kept : (Dict.keys (Tally.cast scores (ballot start stop t))).Nodup := by
        unfold Tally.cast
        split
        · exact distinct
        · exact Dict.nodup_put distinct _ _
      rw [List.map_cons, List.foldl_cons, List.foldl_cons, ← ih kept]
      dsimp only
      rw [step]

/-- The bisected window loses no turn that shares time with the interval. -/
theorem speaker_eq_scan (turns : List Turn) (start stop : ℚ) :
    speaker (turns.mergeSort Turn.le) start stop = speakerByScan (turns.mergeSort Turn.le) start stop := by
  have votes := Tally.foldl_window Turn.label Turn.start Turn.stop start stop (sorted_starts turns)
  have best : ∀ scores, bestLabel scores = Tally.leading scores := by
    intro scores
    cases scores <;> rfl
  have none : (Dict.keys ([] : List (String × ℚ))).Nodup := List.nodup_nil
  unfold speaker
  rw [maxEnds_eq]
  refine (best _).trans ((congrArg Tally.leading (foldl_scores start stop _ none)).trans ?_)
  exact (congrArg Tally.leading votes).trans (Tally.leading_cast _)

/-! ## The words of one segment -/

def Word.unvoiced (w : Word) : Word := { w with speaker := none }

/-- What one segment is cut into. -/
structure Cut (turns : List Turn) (s : Segment) (cut : List Segment) : Prop where
  words : (cut.flatMap Segment.words).map Word.unvoiced = s.words.map Word.unvoiced
  shared : ∀ c ∈ cut, ∀ w ∈ c.words, w.speaker = c.speaker
  apart : cut.IsChain fun a b => a.speaker ≠ b.speaker
  /-- Where all words are timed, each word that lasts has its own voice. -/
  own : (∀ w ∈ s.words, w.start.isSome ∧ w.stop.isSome) → ∀ c ∈ cut, ∀ w ∈ c.words, ∀ a b,
    w.start = some a → w.stop = some b → a < b → w.speaker = speakerByScan turns a b
  /-- A segment that stays whole has the voice of its interval. -/
  whole : s.words = [] ∨ (∃ w ∈ s.words, w.start = none ∨ w.stop = none) →
    ∃ c, cut = [c] ∧ c.start = s.start ∧ c.stop = s.stop ∧ c.text = s.text ∧ c.speaker = speakerByScan turns s.start s.stop

theorem timed_words {words : List Word} {timed : List TimedWord} (found : words.mapM Word.timed = some timed) :
    timed.map TimedWord.word = words := by
  induction words generalizing timed with
  | nil =>
      cases found
      rfl
  | cons w rest ih =>
      rw [List.mapM_cons] at found
      simp only [Option.bind_eq_bind, Option.pure_def, Option.bind_eq_some_iff, Option.some.injEq] at found
      obtain ⟨first, times, others, later, rfl⟩ := found
      simp only [Word.timed, Option.bind_eq_bind, Option.pure_def, Option.bind_eq_some_iff, Option.some.injEq] at times
      obtain ⟨a, -, b, -, rfl⟩ := times
      rw [List.map_cons, ih later]

theorem mapM_timed_none {words : List Word} :
    words.mapM Word.timed = none ↔ ∃ w ∈ words, w.start = none ∨ w.stop = none := by
  have each : ∀ w : Word, w.timed = none ↔ w.start = none ∨ w.stop = none := by
    intro w
    unfold Word.timed
    cases w.start <;> cases w.stop <;> simp
  induction words with
  | nil => simp
  | cons w rest ih =>
      rw [List.mapM_cons, List.exists_mem_cons_iff]
      refine Iff.trans ?_ (or_congr (each w) ih)
      cases w.timed with
      | none => exact iff_of_true rfl (.inl rfl)
      | some first => cases rest.mapM Word.timed <;> simp

theorem settleVoices_words (neighbour : Option String) (entries : List (TimedWord × Option String)) :
    (settleVoices neighbour entries).map Word.unvoiced = entries.map fun e => e.1.word.unvoiced := by
  induction entries generalizing neighbour with
  | nil => rfl
  | cons e rest ih =>
      obtain ⟨timed, label⟩ := e
      unfold settleVoices
      split
      · rw [List.map_cons, ih]
        rfl
      · rw [List.map_cons, ih]
        rfl

/-- A word that lasts keeps its label, whatever its neighbours are. -/
theorem settleVoices_own {f : ℚ → ℚ → Option String} {neighbour : Option String} {words : List TimedWord}
    (times : ∀ t ∈ words, t.word.start = some t.start ∧ t.word.stop = some t.stop) {w : Word}
    (member : w ∈ settleVoices neighbour (words.zip (words.map fun t => f t.start t.stop))) {a b : ℚ}
    (start : w.start = some a) (stop : w.stop = some b) (lasts : a < b) : w.speaker = f a b := by
  induction words generalizing neighbour with
  | nil => cases member
  | cons t rest ih =>
      have later : ∀ u ∈ rest, u.word.start = some u.start ∧ u.word.stop = some u.stop :=
        fun u inside => times u (List.mem_cons_of_mem _ inside)
      obtain ⟨begins, ends⟩ := times t List.mem_cons_self
      rw [List.map_cons, List.zip_cons_cons] at member
      unfold settleVoices at member
      split at member
      · rename_i empty
        rcases List.mem_cons.mp member with rfl | behind
        · rw [begins] at start
          rw [ends] at stop
          cases start
          cases stop
          exact absurd lasts (empty ▸ lt_irrefl _)
        · exact ih later behind
      · rcases List.mem_cons.mp member with rfl | behind
        · rw [begins] at start
          rw [ends] at stop
          cases start
          cases stop
          rfl
        · exact ih later behind

theorem voicedWords_words {turns : List Turn} {s : Segment} {timed : List TimedWord}
    (found : s.words.mapM Word.timed = some timed) :
    (voicedWords turns s timed).map Word.unvoiced = s.words.map Word.unvoiced := by
  unfold voicedWords
  dsimp only
  rw [settleVoices_words]
  calc (timed.zip (timed.map fun w => speaker turns w.start w.stop)).map (fun e => e.1.word.unvoiced)
      = ((timed.zip (timed.map fun w => speaker turns w.start w.stop)).map Prod.fst).map fun t => t.word.unvoiced := by
        rw [List.map_map]
        rfl
    _ = (timed.map TimedWord.word).map Word.unvoiced := by
        rw [List.map_fst_zip (by rw [List.length_map]), List.map_map]
        rfl
    _ = s.words.map Word.unvoiced := by rw [timed_words found]

/-! ## The runs of one voice -/

theorem sameVoice_iff {a b : Word} : sameVoice a b = true ↔ a.speaker = b.speaker := by
  unfold sameVoice
  exact beq_iff_eq

theorem run_shared {run : List Word} (chain : run.IsChain fun a b => sameVoice a b = true) {w : Word} (member : w ∈ run) :
    w.speaker = run.head?.bind Word.speaker := by
  have same : run.IsChain fun a b => a.speaker = b.speaker := chain.imp fun a b => sameVoice_iff.mp
  cases run with
  | nil => cases member
  | cons first rest =>
      have all := (List.isChain_iff_pairwise (R := fun a b : Word => a.speaker = b.speaker)).mp same
      rw [List.head?_cons, Option.bind_some]
      rcases List.mem_cons.mp member with rfl | later
      · rfl
      · exact ((List.pairwise_cons.mp all).1 w later).symm

theorem runs_apart (s : Segment) (words : List Word) :
    ((words.splitBy sameVoice).map (groupSegment s)).IsChain fun a b => a.speaker ≠ b.speaker := by
  rw [List.isChain_map]
  refine (List.isChain_getLast_head_splitBy sameVoice words).imp_of_mem_imp ?_
  rintro a b insideA insideB ⟨nonemptyA, nonemptyB, different⟩ same
  have voiceA := run_shared (List.isChain_of_mem_splitBy insideA) (List.getLast_mem nonemptyA)
  have voiceB := run_shared (List.isChain_of_mem_splitBy insideB) (List.head_mem nonemptyB)
  have equal := sameVoice_iff.mpr (voiceA.trans (same.trans voiceB.symm))
  rw [equal] at different
  cases different

theorem Cut.of_whole {turns : List Turn} {s c : Segment} (words : c.words.map Word.unvoiced = s.words.map Word.unvoiced)
    (shared : ∀ w ∈ c.words, w.speaker = c.speaker) (untimed : s.words = [] ∨ ∃ w ∈ s.words, w.start = none ∨ w.stop = none)
    (start : c.start = s.start) (stop : c.stop = s.stop) (text : c.text = s.text)
    (voice : c.speaker = speakerByScan turns s.start s.stop) : Cut turns s [c] where
  words := by rwa [List.flatMap_singleton]
  shared := by simpa using shared
  apart := List.isChain_singleton c
  own := by
    intro timed d member w inside a b begins ends lasts
    rcases untimed with none | ⟨v, here, missing⟩
    · rw [none, List.map_nil, List.map_eq_nil_iff] at words
      rw [List.mem_singleton.mp member, words] at inside
      cases inside
    · obtain ⟨begins, ends⟩ := timed v here
      rcases missing with gone | gone
      · rw [gone] at begins
        cases begins
      · rw [gone] at ends
        cases ends
  whole := fun _ => ⟨c, rfl, start, stop, text, voice⟩

theorem reconcileSegment_cut (turns : List Turn) (s : Segment) :
    Cut (turns.mergeSort Turn.le) s (reconcileSegment (turns.mergeSort Turn.le) s) := by
  unfold reconcileSegment
  by_cases none : s.words = []
  · rw [if_pos none]
    refine .of_whole rfl (fun w member => ?_) (.inl none) rfl rfl rfl (speaker_eq_scan turns s.start s.stop)
    rw [show ({ s with speaker := _ } : Segment).words = [] from none] at member
    cases member
  · rw [if_neg none]
    cases found : s.words.mapM Word.timed with
    | none =>
        refine .of_whole ?_ (fun w member => ?_) (.inr (mapM_timed_none.mp found)) rfl rfl rfl
          (speaker_eq_scan turns s.start s.stop)
        · rw [List.map_map]
          rfl
        · obtain ⟨v, -, rfl⟩ := List.mem_map.mp member
          rfl
    | some timed =>
        dsimp only
        rw [groupWords_eq_splitBy]
        have words : (((voicedWords (turns.mergeSort Turn.le) s timed).splitBy sameVoice).map (groupSegment s)).flatMap
            Segment.words = voicedWords (turns.mergeSort Turn.le) s timed := by
          rw [List.flatMap_map]
          exact List.flatMap_id.trans (List.flatten_splitBy sameVoice _)
        refine ⟨by rw [words, voicedWords_words found], ?_, runs_apart s _, ?_, ?_⟩
        · intro c member w inside
          obtain ⟨run, here, rfl⟩ := List.mem_map.mp member
          exact run_shared (List.isChain_of_mem_splitBy here) inside
        · intro _ c member w inside a b start stop lasts
          have here : w ∈ voicedWords (turns.mergeSort Turn.le) s timed := by
            rw [← words]
            exact List.mem_flatMap.mpr ⟨c, member, inside⟩
          rw [← speaker_eq_scan]
          exact settleVoices_own (fun t known => ((timed_spec found).1 t known).2) here start stop lasts
        · rintro (empty | missing)
          · exact absurd empty none
          · rw [mapM_timed_none.mpr missing] at found
            cases found

theorem Cut.all_words {turns : List Turn} {segments : List Segment} {cuts : List (List Segment)}
    (cut : List.Forall₂ (Cut turns) segments cuts) :
    (cuts.flatten.flatMap Segment.words).map Word.unvoiced = (segments.flatMap Segment.words).map Word.unvoiced := by
  induction cut with
  | nil => rfl
  | cons first rest ih =>
      rw [List.flatten_cons, List.flatMap_append, List.map_append, first.words, ih, List.flatMap_cons, List.map_append]

/-- Every word is kept, in order, and has the right voice. -/
theorem reconcile_keeps_words (segments : List Segment) (turns : List Turn)
    (valid : ∀ t ∈ turns, 0 ≤ t.start ∧ t.start < t.stop) :
    ∃ cuts, reconcile segments turns = .ok cuts.flatten ∧
      (cuts.flatten.flatMap Segment.words).map Word.unvoiced = (segments.flatMap Segment.words).map Word.unvoiced ∧
      List.Forall₂ (Cut (turns.mergeSort Turn.le)) segments cuts := by
  have accepted : (turns.any fun t => decide (t.start < 0 ∨ t.stop ≤ t.start)) = false := by
    refine List.any_eq_false.mpr fun t member => ?_
    obtain ⟨nonneg, lasts⟩ := valid t member
    rw [decide_eq_true_eq, not_or, not_lt, not_le]
    exact ⟨nonneg, lasts⟩
  have cut : List.Forall₂ (Cut (turns.mergeSort Turn.le)) segments
      (segments.map (reconcileSegment (turns.mergeSort Turn.le))) :=
    List.forall₂_map_right_iff.mpr (List.forall₂_same.mpr fun s _ => reconcileSegment_cut turns s)
  refine ⟨segments.map (reconcileSegment (turns.mergeSort Turn.le)), ?_, ?_, cut⟩
  · unfold reconcile
    rw [accepted]
    rfl
  · exact Cut.all_words cut

/-! ## A word beside an untimed one -/

/-- The first word is heard in the first turn; the other carries no times. -/
def untimedSecond : Segment := ⟨0, 1, "a b", [⟨"a", some 0, some (1 / 10), none⟩, ⟨"b", none, none, none⟩], none⟩

def shortTurn : List Turn := [⟨0, 1 / 10, "A"⟩, ⟨1 / 10, 1, "B"⟩]

theorem sorted_shortTurn : shortTurn.mergeSort Turn.le = shortTurn :=
  List.mergeSort_of_pairwise (by decide +kernel)

theorem reconcile_keeps_words_untimed :
    ∃ cuts, reconcile [untimedSecond] shortTurn = .ok cuts.flatten ∧
      (cuts.flatten.flatMap Segment.words).map Word.unvoiced =
        ([untimedSecond].flatMap Segment.words).map Word.unvoiced ∧
      List.Forall₂ (Cut (shortTurn.mergeSort Turn.le)) [untimedSecond] cuts :=
  reconcile_keeps_words [untimedSecond] shortTurn (by decide +kernel)

/-- The first word gets the voice of its segment, which is not its own. -/
theorem timed_word_takes_segment_voice :
    (∀ t ∈ shortTurn, 0 ≤ t.start ∧ t.start < t.stop) ∧
    ∃ segments, reconcile [untimedSecond] shortTurn = .ok segments ∧
      ¬ ∀ c ∈ segments, ∀ w ∈ c.words, ∀ a b, w.start = some a → w.stop = some b → a < b →
        w.speaker = speakerByScan (shortTurn.mergeSort Turn.le) a b := by
  refine ⟨by decide +kernel, [untimedSecond].flatMap (reconcileSegment (shortTurn.mergeSort Turn.le)),
    if_neg (by decide +kernel), ?_⟩
  rw [sorted_shortTurn]
  intro own
  have first := own { untimedSecond with
    speaker := some "B", words := untimedSecond.words.map ({ · with speaker := some "B" }) } (by decide +kernel)
    ⟨"a", some 0, some (1 / 10), some "B"⟩ (by decide +kernel) 0 (1 / 10) rfl rfl (by decide +kernel)
  exact absurd first (by decide +kernel)

end OmiLocal.Pipeline
