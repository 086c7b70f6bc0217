import OmiLocal.Lib.Tally
import OmiLocal.Speakers.Snapshot

/-!
# The voice of an item

Turns outside the bisected window share no time with the item, so that the votes of the window
are those of all turns, and the favourite is the first label with the greatest total.
-/
namespace OmiLocal.Speakers
open Lib Lib.Values Lib.Bisect

variable {α β : Type}

/-- The elements in the order of their first places. -/
def firstSeen [DecidableEq α] (l : List α) : List α := l.foldl (fun seen x => if x ∈ seen then seen else seen ++ [x]) []

def total (start stop : ℚ) (turns : List (Turn Int)) (label : Int) : ℚ :=
  ((turns.filter fun t => decide (t.label = label)).map (shared start stop)).sum

def voters (start stop : ℚ) (turns : List (Turn Int)) : List Int :=
  firstSeen ((turns.filter fun t => decide (shared start stop t ≠ 0)).map Turn.label)

def firstMaximiser (labels : List Int) (f : Int → ℚ) : Option Int :=
  labels.find? fun label => labels.all fun other => decide (f other ≤ f label)

/-- What `speaker` is for: the first label of greatest total over a scan of all turns. -/
def speakerByScan (b : Builtins) (turns : List (Turn Int)) (covered : ℚ) (item : Entries) : Int :=
  match seconds b (fetch item "start"), seconds b (fetch item "end") with
  | some start, some stop =>
    if stop ≤ start ∨ covered < stop then -1
    else (firstMaximiser (voters start stop turns) (total start stop turns)).getD (-1)
  | _, _ => -1

/-! ## The window -/

theorem turnLe_total (a b : Turn Int) : (turnLe a b || turnLe b a) = true := by
  simp only [turnLe, Bool.or_eq_true]
  split_ifs <;> simp only [decide_eq_true_eq] <;> first | omega | grind

theorem turnLe_trans (a b c : Turn Int) (first : turnLe a b = true) (second : turnLe b c = true) :
    turnLe a c = true := by
  unfold turnLe at *
  split_ifs at * <;> simp only [decide_eq_true_eq] at * <;> grind

theorem start_le_of_turnLe {a b : Turn Int} (h : turnLe a b = true) : a.start ≤ b.start := by
  unfold turnLe at h
  split at h
  · exact (of_decide_eq_true h).le
  · rename_i same
    exact (not_not.mp same).le

theorem sorted_starts (turns : List (Turn Int)) : ((sorted turns).map Turn.start).Pairwise (· ≤ ·) :=
  List.pairwise_map.mpr ((List.pairwise_mergeSort turnLe_trans turnLe_total turns).imp start_le_of_turnLe)

theorem maxEnds_eq (last : Option ℚ) (turns : List (Turn Int)) :
    maxEnds last turns = Tally.runningMax last (turns.map Turn.stop) := by
  induction turns generalizing last with
  | nil => rfl
  | cons t rest ih =>
      unfold maxEnds
      rw [List.map_cons, Tally.runningMax, ih]

/-! ## The votes -/

theorem firstSeen_append [DecidableEq α] (l : List α) (x : α) :
    firstSeen (l ++ [x]) = if x ∈ firstSeen l then firstSeen l else firstSeen l ++ [x] :=
  Tally.firstSeen_append l x

def ballot (start stop : ℚ) (t : Turn Int) : Int × ℚ := Tally.ballot Turn.label Turn.start Turn.stop start stop t

theorem foldl_vote (start stop : ℚ) (turns : List (Turn Int)) (votes : Votes) :
    turns.foldl (vote start stop) votes = (turns.map (ballot start stop)).foldl Tally.cast votes := by
  rw [List.foldl_map]
  rfl

theorem voters_eq (start stop : ℚ) (turns : List (Turn Int)) :
    voters start stop turns = Tally.voters (turns.map (ballot start stop)) := by
  unfold voters Tally.voters
  rw [List.filter_map, List.map_map]
  rfl

theorem total_eq (start stop : ℚ) (turns : List (Turn Int)) :
    total start stop turns = Tally.total (turns.map (ballot start stop)) := by
  funext label
  unfold total Tally.total
  rw [List.filter_map, List.map_map]
  rfl

theorem favourite_eq (votes : Votes) : favourite votes = (Tally.leading votes).getD (-1) := by
  cases votes <;> rfl

theorem favourite_of_window (start stop : ℚ) {turns : List (Turn Int)}
    (ascending : (turns.map Turn.start).Pairwise (· ≤ ·)) :
    favourite (((turns.take (searchLeft (turns.map Turn.start) stop)).drop
      (searchRight (maxEnds none turns) start)).foldl (vote start stop) []) =
      (firstMaximiser (voters start stop turns) (total start stop turns)).getD (-1) := by
  rw [maxEnds_eq, searchLeft_eq ascending, searchRight_eq (Tally.runningMax_ascending none _), foldl_vote, favourite_eq,
    voters_eq, total_eq]
  have votes := Tally.foldl_window Turn.label Turn.start Turn.stop start stop ascending
  exact congrArg (·.getD (-1)) ((congrArg Tally.leading votes).trans (Tally.leading_cast _))

theorem speaker_eq_scan (b : Builtins) (turns : List (Turn Int)) (covered : ℚ) (item : Entries) :
    speaker b (sorted turns) covered item = speakerByScan b (sorted turns) covered item := by
  unfold speaker speakerByScan
  cases seconds b (fetch item "start") with
  | none => rfl
  | some start =>
      cases seconds b (fetch item "end") with
      | none => rfl
      | some stop =>
          dsimp only
          rw [favourite_of_window start stop (sorted_starts turns)]

end OmiLocal.Speakers
