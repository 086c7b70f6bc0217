import Mathlib.Algebra.Order.Ring.Rat
import Mathlib.Data.List.SplitBy
import Mathlib.Order.Basic
import OmiLocal.Lib.Text

/-!
# Finished transcripts

`validate_transcript` and `reconcile`, with exact rational times. A word is
timed when it carries both its times. `reconcile` splits a segment whose words
are all timed wherever the voice changes, and takes the new starts from the
words, whose order and position `validate_transcript` does not look at.
-/
namespace OmiLocal.Pipeline
open Lib.Text

structure Word where
  word : String
  start : Option ℚ
  stop : Option ℚ
  speaker : Option String
deriving DecidableEq

structure Segment where
  start : ℚ
  stop : ℚ
  text : String
  words : List Word
  speaker : Option String
deriving DecidableEq

structure Transcript where
  outcome : Option String
  segments : List Segment

structure Turn where
  start : ℚ
  stop : ℚ
  label : String

/-! ## Checks -/

def Word.valid (limit : ℚ) (w : Word) : Bool :=
  match w.start, w.stop with
  | some a, some b => decide (0 ≤ a ∧ a ≤ b ∧ b ≤ limit)
  | _, _ => true

/-- The loop of `validate_transcript`, after a segment that started at `previous`. -/
def checkSegments (limit : ℚ) : ℚ → List Segment → Bool
  | _, [] => true
  | previous, s :: rest =>
      decide (0 ≤ s.start ∧ s.start < s.stop ∧ s.stop ≤ limit ∧ previous ≤ s.start) &&
        decide (strip s.text ≠ "") && s.words.all (Word.valid limit) && checkSegments limit s.start rest

def validateTranscript (raw : Transcript) (duration : ℚ) : Except String Unit :=
  if raw.segments = [] ∧ raw.outcome ≠ some "no_speech" then .error "Invalid empty transcript"
  else if checkSegments (duration + 1 / 10) 0 raw.segments then .ok ()
  else .error "Invalid timed transcript"

/-! ## Voices -/

def Turn.le (a b : Turn) : Bool :=
  decide (a.start < b.start ∨ a.start = b.start ∧
    (a.stop < b.stop ∨ a.stop = b.stop ∧ a.label ≤ b.label))

/-- `max_ends`: the latest end up to each turn. -/
def maxEnds : Option ℚ → List Turn → List ℚ
  | _, [] => []
  | latest, t :: rest =>
      let latest := max t.stop (latest.getD t.stop)
      latest :: maxEnds (some latest) rest

/-- `bisect_right` and `bisect_left` on an ordered list. -/
def bisectRight (xs : List ℚ) (x : ℚ) : Nat := (xs.takeWhile (· ≤ x)).length
def bisectLeft (xs : List ℚ) (x : ℚ) : Nat := (xs.takeWhile (· < x)).length

def addScore (label : String) (overlap : ℚ) (scores : List (String × ℚ)) : List (String × ℚ) :=
  if scores.any (fun s => s.1 == label) then
    scores.map (fun s => if s.1 = label then (label, s.2 + overlap) else s)
  else scores ++ [(label, overlap)]

/-- The first key with the greatest value. -/
def bestLabel : List (String × ℚ) → Option String
  | [] => none
  | s :: rest => some (rest.foldl (fun best s => if best.2 < s.2 then s else best) s).1

/-- `speaker` on sorted turns, for an item from `start` to `stop`. -/
def speaker (turns : List Turn) (start stop : ℚ) : Option String :=
  let left := bisectRight (maxEnds none turns) start
  let right := bisectLeft (turns.map Turn.start) stop
  bestLabel (((turns.take right).drop left).foldl (fun scores t =>
    let overlap := max 0 (min stop t.stop - max start t.start)
    if overlap = 0 then scores else addScore t.label overlap scores) [])

/-- A word with both its times. -/
structure TimedWord where
  word : Word
  start : ℚ
  stop : ℚ

def Word.timed (w : Word) : Option TimedWord := do
  let a ← w.start
  let b ← w.stop
  return ⟨w, a, b⟩

/-- Words without length take the voice of their neighbour. -/
def settleVoices : Option String → List (TimedWord × Option String) → List Word
  | _, [] => []
  | neighbour, (w, label) :: rest =>
      if w.start = w.stop then { w.word with speaker := neighbour } :: settleVoices neighbour rest
      else { w.word with speaker := label } :: settleVoices label rest

/-- The words of a segment, each with its voice. -/
def voicedWords (turns : List Turn) (s : Segment) (words : List TimedWord) : List Word :=
  let labels := words.map fun w => speaker turns w.start w.stop
  let neighbour := (((words.zip labels).find? (fun e => decide (e.1.start < e.1.stop))).map Prod.snd).getD
    (speaker turns s.start s.stop)
  settleVoices neighbour (words.zip labels)

/-! ## Groups -/

def addWord (groups : List (List Word)) (w : Word) : List (List Word) :=
  match groups.getLast? with
  | none => [[w]]
  | some group =>
      if group.getLast?.map Word.speaker = some w.speaker then groups.dropLast ++ [group ++ [w]]
      else groups ++ [[w]]

def groupWords (words : List Word) : List (List Word) := words.foldl addWord []

def spaced (w : Word) : List Char :=
  if w.word.toList.head? = some ' ' then w.word.toList else ' ' :: w.word.toList

def groupText (group : List Word) : String := strip (String.ofList (group.flatMap spaced))

def groupStart (group : List Word) : ℚ := (group.head?.bind Word.start).getD 0

def groupEnd (group : List Word) : ℚ :=
  match group.filterMap Word.stop with
  | [] => 0
  | b :: rest => rest.foldl max b

def groupSegment (s : Segment) (group : List Word) : Segment :=
  let interval := if groupEnd group ≤ groupStart group then (s.start, s.stop) else (groupStart group, groupEnd group)
  { start := interval.1, stop := interval.2, text := groupText group, words := group,
    speaker := group.head?.bind Word.speaker }

def reconcileSegment (turns : List Turn) (s : Segment) : List Segment :=
  if s.words = [] then [{ s with speaker := speaker turns s.start s.stop }]
  else match s.words.mapM Word.timed with
    | none =>
        let label := speaker turns s.start s.stop
        [{ s with speaker := label, words := s.words.map ({ · with speaker := label }) }]
    | some words => (groupWords (voicedWords turns s words)).map (groupSegment s)

def reconcile (segments : List Segment) (turns : List Turn) : Except String (List Segment) :=
  if turns.any (fun t => decide (t.start < 0 ∨ t.stop ≤ t.start)) then .error "Invalid speaker turns"
  else .ok (segments.flatMap (reconcileSegment (turns.mergeSort Turn.le)))

/-! ## What a checked transcript is -/

structure Segment.Valid (limit : ℚ) (s : Segment) : Prop where
  interval : 0 ≤ s.start ∧ s.start < s.stop ∧ s.stop ≤ limit
  words : ∀ w ∈ s.words, w.valid limit = true

def sameVoice (a b : Word) : Bool := a.speaker == b.speaker

theorem splitBy_snoc_same {words : List Word} {w : Word} {groups : List (List Word)} {group : List Word}
    (split : words.splitBy sameVoice = groups ++ [group])
    (same : group.getLast?.map Word.speaker = some w.speaker) :
    (words ++ [w]).splitBy sameVoice = groups ++ [group ++ [w]] := by
  obtain ⟨flat, nonempty, chains, breaks⟩ := List.splitBy_eq_iff.mp split
  have some : group ≠ [] := fun h => nonempty (by rw [← h]; simp)
  rw [List.splitBy_eq_iff]
  refine ⟨by rw [flat]; simp, ?_, ?_, ?_⟩
  · intro member
    rcases List.mem_append.mp member with old | new
    · exact nonempty (List.mem_append_left _ old)
    · simp at new
  · intro m member
    rcases List.mem_append.mp member with old | new
    · exact chains m (List.mem_append_left _ old)
    · rw [List.mem_singleton.mp new, List.isChain_append]
      refine ⟨chains group (by simp), List.isChain_singleton w, ?_⟩
      intro x last y first
      rw [Option.mem_def] at last
      rw [last] at same
      simp only [List.head?_cons, Option.mem_some_iff] at first
      subst first
      simpa [sameVoice] using same
  · rw [List.isChain_append] at breaks ⊢
    refine ⟨breaks.1, List.isChain_singleton _, ?_⟩
    intro x last y first
    simp only [List.head?_cons, Option.mem_some_iff] at first
    subst first
    obtain ⟨hx, hy, different⟩ := breaks.2.2 x last group (by simp)
    refine ⟨hx, by simp, ?_⟩
    rw [List.head_append_of_ne_nil some]
    exact different

theorem groupWords_eq_splitBy (words : List Word) : groupWords words = words.splitBy sameVoice := by
  induction words using List.reverseRecOn with
  | nil => rfl
  | append_singleton words w ih =>
      have step : groupWords (words ++ [w]) = addWord (groupWords words) w := by
        simp [groupWords, List.foldl_append]
      rw [step, ih]
      rcases List.eq_nil_or_concat' words with rfl | ⟨front, last, rfl⟩
      · rfl
      · have nonempty : front ++ [last] ≠ [] := by simp
        rcases List.eq_nil_or_concat' ((front ++ [last]).splitBy sameVoice) with none | ⟨groups, group, split⟩
        · rw [List.splitBy_eq_nil] at none
          exact absurd none nonempty
        · have ending := List.getLast_getLast_splitBy sameVoice nonempty
          have some : group ≠ [] := List.ne_nil_of_mem_splitBy (split ▸ List.mem_append_right _ List.mem_cons_self)
          have found : group.getLast? = Option.some last := by
            simp only [split, List.getLast_append_singleton] at ending
            rw [List.getLast?_eq_some_getLast some, ending]
          unfold addWord
          rw [split, List.getLast?_append, List.getLast?_singleton, Option.some_or]
          dsimp only
          split
          · rename_i same
            rw [List.dropLast_concat]
            exact (splitBy_snoc_same split same).symm
          · rename_i other
            rw [List.splitBy_append, split]
            · rfl
            · intro x hx y hy
              rw [List.getLast?_append, List.getLast?_singleton, Option.some_or, Option.mem_some_iff] at hx
              simp only [List.head?_cons, Option.mem_some_iff] at hy
              subst hx hy
              rw [found] at other
              simpa [sameVoice] using other

/-! ## Words keep their times -/

theorem timed_spec {words : List Word} {timed : List TimedWord} (h : words.mapM Word.timed = some timed) :
    (∀ t ∈ timed, t.word ∈ words ∧ t.word.start = some t.start ∧ t.word.stop = some t.stop) ∧
      timed.length = words.length := by
  induction words generalizing timed with
  | nil =>
      cases h
      exact ⟨fun _ member => (by cases member), rfl⟩
  | cons w rest ih =>
      rw [List.mapM_cons] at h
      simp only [Option.bind_eq_bind, Option.pure_def, Option.bind_eq_some_iff, Option.some.injEq] at h
      obtain ⟨first, times, others, found, rfl⟩ := h
      obtain ⟨each, length⟩ := ih found
      refine ⟨?_, by rw [List.length_cons, length, List.length_cons]⟩
      intro t member
      rcases List.mem_cons.mp member with rfl | later
      · simp only [Word.timed, Option.bind_eq_bind, Option.pure_def, Option.bind_eq_some_iff,
          Option.some.injEq] at times
        obtain ⟨a, start, b, stop, rfl⟩ := times
        exact ⟨List.mem_cons_self, start, stop⟩
      · obtain ⟨inside, rest⟩ := each t later
        exact ⟨List.mem_cons_of_mem w inside, rest⟩

/-- Two timed words in the wrong order, each with its own voice. -/
def swappedWords : Transcript where
  outcome := none
  segments := [⟨0, 10, "a b", [⟨"a", some 5, some 6, none⟩, ⟨"b", some 1, some 2, none⟩], none⟩]

end OmiLocal.Pipeline
