import OmiLocal.Stt.SegmentDelta

/-!
# No word is lost or invented

Every outcome of `_merge` keeps the words of its two segments in order, apart from
white space, so the joined list always says what the tail and the new segments so
far said. The tail is in the joined list or dropped from it, and leaves the
transcript in both cases.
-/
namespace OmiLocal.Stt

open Lib.Text

variable {classes : CharClass}

def spokenWords (segments : List TranscriptSegment) : Text := segments.flatMap fun s => words s.text

@[simp] theorem words_append (front back : Text) : words (front ++ back) = words front ++ words back :=
  List.filter_append _ _

@[simp] theorem words_nil : words [] = [] := rfl

@[simp] theorem words_blank (text : Text) : words (' ' :: text) = words text := List.filter_cons_of_neg (by decide)

@[simp] theorem spokenWords_append (front back : List TranscriptSegment) :
    spokenWords (front ++ back) = spokenWords front ++ spokenWords back := List.flatMap_append

@[simp] theorem spokenWords_singleton (s : TranscriptSegment) : spokenWords [s] = words s.text := List.flatMap_singleton _ _

/-! ### Sentences -/

theorem splitSentences_words (current : Text) (skipping : Bool) (text : Text) :
    (splitSentences current skipping text).flatMap words = words current ++ words text := by
  induction text generalizing current skipping with
  | nil => simp [splitSentences]
  | cons c rest ih =>
      unfold splitSentences
      split
      · rename_i skipped
        have space : words (c :: rest) = words rest :=
          List.filter_cons_of_neg (by simp [(Bool.and_eq_true_iff.mp skipped).2])
        rw [ih, space]
      · split
        · rw [List.flatMap_cons, ih, words_append, words_nil, List.nil_append, List.append_assoc, ← words_append,
            List.singleton_append]
        · rw [ih, words_append, List.append_assoc, ← words_append, List.singleton_append]

theorem sentenceParts_words (text : Text) : (sentenceParts text).flatMap words = words text := by
  have empty : ∀ parts : List Text, (parts.filter fun part => !part.isEmpty).flatMap words = parts.flatMap words := by
    intro parts
    induction parts with
    | nil => rfl
    | cons part rest ih =>
        cases part with
        | nil => exact ih
        | cons c part => rw [List.filter_cons_of_pos rfl, List.flatMap_cons, List.flatMap_cons, ih]
  unfold sentenceParts
  rw [empty, splitSentences_words, words_nil, List.nil_append]

theorem joinSpace_words (parts : List Text) : words (joinSpace parts) = parts.flatMap words := by
  unfold joinSpace
  induction parts with
  | nil => rfl
  | cons part rest ih =>
      cases rest with
      | nil => rw [List.intercalate_singleton, List.flatMap_singleton]
      | cons next rest =>
          rw [List.intercalate_cons_cons, words_append, words_append, ih, List.flatMap_cons]
          simp [words_blank []]

theorem extractLast_words {text last front : Text} (found : extractLastIncompleteSentence text = (some last, front)) :
    words front ++ words last = words text := by
  unfold extractLastIncompleteSentence at found
  dsimp only at found
  split at found
  · cases found
  · rename_i ends
    split at found
    · cases found
    · cases found
      have parts := sentenceParts_words (stripChars text)
      rw [← List.dropLast_append_getLast? _ ends, List.flatMap_append, List.flatMap_singleton] at parts
      rw [words_stripChars, joinSpace_words, parts, words_stripChars]

theorem splitFirst_words (text : Text) :
    words (splitFirstSentence text).1 ++ words (splitFirstSentence text).2 = words text := by
  have parts := sentenceParts_words (stripChars text)
  rw [words_stripChars] at parts
  unfold splitFirstSentence
  split
  · rename_i none
    rw [none] at parts
    exact parts
  · rename_i first rest split
    rw [split, List.flatMap_cons] at parts
    rw [words_stripChars, joinSpace_words, parts]

/-! ### The outcomes of a merge -/

def Merged.words (merged : Merged) : Text := Stt.words merged.left.text ++ spokenWords merged.right.toList

theorem mergeSameVoice_words (a b : TranscriptSegment) :
    (mergeSameVoice classes a b).words = words a.text ++ words b.text := by
  have absorbed : (absorb a b).words = words a.text ++ words b.text := by
    simp [absorb, Merged.words, spokenWords]
  unfold mergeSameVoice
  split
  · exact absorbed
  · split
    · exact absorbed
    · exact congrArg (words a.text ++ ·) (spokenWords_singleton b)

theorem mergeAcross_words {a b : TranscriptSegment} {merged : Merged} (across : mergeAcross classes a b = some merged) :
    merged.words = words a.text ++ words b.text := by
  have sentence := splitFirst_words b.text
  unfold mergeAcross at across
  split at across
  · cases across
  · rename_i lastIncomplete front found
    have incomplete := extractLast_words found
    dsimp only at across
    split at across
    · cases across
      simp [Merged.words, words_stripChars, sentence]
    · rename_i notFirst
      split at across
      · rename_i single
        cases across
        -- A short first sentence is moved alone only when nothing comes after it.
        have alone : (splitFirstSentence b.text).2 = [] := by
          simp only [canBackwardMergeSingleSentence, canBackwardMergeFirstSentence, Bool.and_eq_true, Bool.not_eq_true',
            decide_eq_true_eq, not_and] at single notFirst
          by_contra some_
          exact notFirst ⟨by simpa using some_, single.1.1⟩ single.2
        rw [alone, words_nil, List.append_nil] at sentence
        simp [Merged.words, spokenWords, words_stripChars, sentence]
      · split at across
        · split at across
          · rename_i empty
            cases across
            rw [List.isEmpty_iff.mp empty, words_nil, List.nil_append] at incomplete
            simp [Merged.words, words_stripChars, incomplete]
          · cases across
            simp [Merged.words, words_stripChars, ← incomplete]
        · cases across

theorem merge_words (a b : TranscriptSegment) : (merge classes a b).words = words a.text ++ words b.text := by
  unfold merge
  split
  · exact congrArg (words a.text ++ ·) (spokenWords_singleton b)
  · split
    · cases across : mergeAcross classes a b with
      | none => exact mergeSameVoice_words a b
      | some merged => exact mergeAcross_words across
    · exact mergeSameVoice_words a b

/-! ### The join -/

theorem shift_text (deltaSeconds : Int) (s : TranscriptSegment) : (shift deltaSeconds s).text = s.text := by
  unfold shift
  split <;> rfl

theorem joinOne_words (tail : Option TranscriptSegment) (deltaSeconds : Int) (join : Join) (new : TranscriptSegment) :
    spokenWords (joinOne classes tail deltaSeconds join new).joined = spokenWords join.joined ++ words new.text := by
  unfold joinOne
  rcases List.eq_nil_or_concat' join.joined with none | ⟨kept, last, split⟩
  · rw [none]
    dsimp only [List.getLast?_nil]
    rw [spokenWords_append, spokenWords_singleton, shift_text]
  · have merged := @merge_words classes last (shift deltaSeconds new)
    rw [shift_text] at merged
    unfold Merged.words at merged
    rw [split, List.getLast?_concat, List.dropLast_concat]
    dsimp only
    rw [spokenWords_append, spokenWords_singleton, List.append_assoc (spokenWords kept), ← merged]
    split
    · rename_i dropped
      have empty := List.isEmpty_iff.mp (Bool.and_eq_true_iff.mp dropped).2
      rw [empty, words_nil, List.nil_append]
      split <;> exact spokenWords_append _ _
    · rw [spokenWords_append, spokenWords_append, spokenWords_singleton, List.append_assoc]

/-- The tail is still the first of the joined segments, or it was dropped. -/
def TailHeld (tail : Option TranscriptSegment) (join : Join) : Prop :=
  ∀ t ∈ tail, join.droppedExistingTail = true ∨ join.joined.head?.map (·.id) = some t.id

theorem joinOne_tailHeld {tail : Option TranscriptSegment} {join : Join} (held : TailHeld tail join) (deltaSeconds : Int)
    (new : TranscriptSegment) : TailHeld tail (joinOne classes tail deltaSeconds join new) := by
  intro t here
  unfold joinOne
  rcases List.eq_nil_or_concat' join.joined with none | ⟨kept, last, split⟩
  · rcases held t here with dropped | first
    · rw [none]
      exact .inl dropped
    · rw [none] at first
      cases first
  · have left := (@merge_keeps classes last (shift deltaSeconds new)).left
    have first := held t here
    rw [split] at first
    rw [split, List.getLast?_concat, List.dropLast_concat]
    dsimp only
    cases kept with
    | nil =>
        split
        · split
          · exact .inl rfl
          · rename_i other
            refine first.imp id fun same => absurd ?_ other
            rw [here, left]
            exact same.symm
        · refine first.imp id fun same => ?_
          rw [← same]
          exact congrArg some left
    | cons front kept =>
        split
        · split
          · exact .inl rfl
          · exact first
        · exact first

theorem foldl_tailHeld {tail : Option TranscriptSegment} (deltaSeconds : Int) (news : List TranscriptSegment) {join : Join}
    (held : TailHeld tail join) : TailHeld tail (news.foldl (joinOne classes tail deltaSeconds) join) := by
  induction news generalizing join with
  | nil => exact held
  | cons new rest ih => exact ih (joinOne_tailHeld held deltaSeconds new)

theorem foldl_words (tail : Option TranscriptSegment) (deltaSeconds : Int) (news : List TranscriptSegment) (join : Join) :
    spokenWords (news.foldl (joinOne classes tail deltaSeconds) join).joined =
      spokenWords join.joined ++ spokenWords news := by
  induction news generalizing join with
  | nil => exact (List.append_nil _).symm
  | cons new rest ih =>
      rw [List.foldl_cons, ih, joinOne_words, List.append_assoc]
      rfl

theorem spokenWords_normalize (segments : List TranscriptSegment) :
    spokenWords (segments.map normalize) = spokenWords segments := by
  unfold spokenWords
  rw [List.flatMap_map]
  refine List.flatMap_congr fun s _ => ?_
  exact congrArg View.words (view_normalize s)

/-- The resulting segments say what the transcript and the new segments said, in order. -/
theorem combined_words_conserved (classes : CharClass) (segments news : List TranscriptSegment) (deltaSeconds : Int) :
    spokenWords (combineSegments classes segments news deltaSeconds).segments =
      spokenWords segments ++ spokenWords news := by
  unfold combineSegments
  cases news with
  | nil => exact (List.append_nil _).symm
  | cons new rest =>
      dsimp only [List.isEmpty_cons]
      rw [if_neg Bool.false_ne_true]
      have words := @foldl_words classes segments.getLast? deltaSeconds (new :: rest)
        ⟨segments.getLast?.toList, [], false⟩
      have start : TailHeld segments.getLast? ⟨segments.getLast?.toList, [], false⟩ := by
        intro t here
        rw [Option.mem_def.mp here]
        exact .inr rfl
      have held := @foldl_tailHeld classes _ deltaSeconds (new :: rest) _ start
      revert words held
      generalize (new :: rest).foldl (joinOne classes segments.getLast? deltaSeconds) _ = join
      intro words held
      rw [spokenWords_normalize, spokenWords_append, words, ← List.append_assoc]
      congr 1
      rcases List.eq_nil_or_concat' segments with rfl | ⟨front, tail, rfl⟩
      · simp [spokenWords]
      · rw [List.getLast?_concat, List.dropLast_concat] at *
        rw [if_pos, Option.toList_some, ← spokenWords_append]
        refine (held tail rfl).imp id fun first => ⟨rfl, ?_⟩
        rw [first]
        rfl

end OmiLocal.Stt
