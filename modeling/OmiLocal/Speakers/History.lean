import Mathlib.Data.List.GetD
import OmiLocal.Lib.Transition
import OmiLocal.Speakers.Optimality

/-!
# Speaker numbers across re-clustering

`SpeakerHistory`: each update scores its labels against the speakers of the
previous turns by overlap, carries the numbers of the maximum assignment over
and numbers the other labels on. Times are rational; the suffix of the previous
turns from the source's index `left` on stands for that index.
-/
namespace OmiLocal.Speakers
open Lib.Transition

structure Turn (α : Type) where
  start : ℚ
  stop : ℚ
  label : α
deriving DecidableEq

variable {α β : Type}

namespace Turn

def valid (t : Turn α) : Bool := !(decide (t.start < 0) || decide (t.stop ≤ t.start))

/-- The order of tuples. -/
def le (a b : Turn String) : Bool :=
  if a.start ≠ b.start then decide (a.start < b.start)
  else if a.stop ≠ b.stop then decide (a.stop < b.stop)
  else decide (a.label ≤ b.label)

def relabel (f : α → β) (t : Turn α) : Turn β := ⟨t.start, t.stop, f t.label⟩

def overlap (t : Turn α) (p : Turn β) : ℚ := max 0 (min t.stop p.stop - max t.start p.start)

end Turn

structure History where
  turns : List (Turn Nat)
  nextSpeaker : Nat

def emptyHistory : History := ⟨[], 1⟩

/-- The keys of `dict.fromkeys`, in order of insertion. -/
def fromkeys (keys : List String) : List String :=
  keys.foldl (fun seen key => if key ∈ seen then seen else seen ++ [key]) []

def addScore (scores : List (List ℚ)) (row column : Nat) (x : ℚ) : List (List ℚ) :=
  scores.modify row fun r => r.modify column (· + x)

/-- The loop variables: `self.turns[left:]` and the scores. -/
structure Tally where
  rest : List (Turn Nat)
  scores : List (List ℚ)

def tallyTurn (labels : List String) (old : List Nat) (tally : Tally) (t : Turn String) : Tally :=
  let rest := tally.rest.dropWhile fun p => decide (p.stop ≤ t.start)
  ⟨rest, (rest.takeWhile fun p => decide (p.start < t.stop)).foldl
    (fun scores p => addScore scores (labels.idxOf t.label) (old.idxOf p.label) (t.overlap p)) tally.scores⟩

def sortTurns (turns : List (Turn String)) : List (Turn String) := turns.mergeSort Turn.le

def labelsOf (turns : List (Turn String)) : List String := fromkeys ((sortTurns turns).map Turn.label)

def speakersOf (previous : List (Turn Nat)) : List Nat :=
  (previous.map Turn.label).dedup.mergeSort fun a b => decide (a ≤ b)

def overlapScores (previous : List (Turn Nat)) (turns : List (Turn String)) : List (List ℚ) :=
  let labels := labelsOf turns
  let old := speakersOf previous
  ((sortTurns turns).foldl (tallyTurn labels old)
    ⟨previous, List.replicate labels.length (List.replicate old.length 0)⟩).scores

/-- The mapping before new numbers are given. -/
def matched (previous : List (Turn Nat)) (turns : List (Turn String)) : List (String × Nat) :=
  (maximumAssignment (overlapScores previous turns)).map fun p =>
    ((labelsOf turns).getD p.1 "", (speakersOf previous).getD p.2 0)

def numberLabel (state : List (String × Nat) × Nat) (label : String) : List (String × Nat) × Nat :=
  if (state.1.lookup label).isSome then state else (state.1 ++ [(label, state.2)], state.2 + 1)

def History.update (h : History) (turns : List (Turn String)) : Except String (History × List (Turn Nat)) :=
  if turns.any fun t => !t.valid then .error "invalid_speaker_turns"
  else
    let numbered := (labelsOf turns).foldl numberLabel (matched h.turns turns, h.nextSpeaker)
    let turns := (sortTurns turns).map (Turn.relabel fun label => (numbered.1.lookup label).getD 0)
    .ok (⟨turns, numbered.2⟩, turns)

/-! ## Labels -/

theorem fromkeys_spec (keys : List String) : (fromkeys keys).Nodup ∧ ∀ k, k ∈ fromkeys keys ↔ k ∈ keys := by
  induction keys using List.reverseRecOn with
  | nil => exact ⟨List.nodup_nil, fun _ => Iff.rfl⟩
  | append_singleton front key ih =>
      obtain ⟨nodup, members⟩ := ih
      unfold fromkeys at *
      rw [List.foldl_append, List.foldl_cons, List.foldl_nil]
      split
      · rename_i seen
        refine ⟨nodup, fun k => ?_⟩
        rw [members, List.mem_append, List.mem_singleton]
        constructor
        · exact .inl
        · rintro (h | rfl)
          · exact h
          · exact (members _).mp seen
      · rename_i unseen
        refine ⟨?_, fun k => by rw [List.mem_append, List.mem_append, members]⟩
        rw [List.nodup_append]
        refine ⟨nodup, List.nodup_singleton _, fun a ha b hb same => unseen ?_⟩
        rw [← List.mem_singleton.mp hb, ← same]
        exact ha

theorem mem_sortTurns {turns : List (Turn String)} {t : Turn String} : t ∈ sortTurns turns ↔ t ∈ turns :=
  List.mem_mergeSort

theorem labelsOf_nodup (turns : List (Turn String)) : (labelsOf turns).Nodup := (fromkeys_spec _).1

theorem mem_labelsOf {turns : List (Turn String)} {label : String} :
    label ∈ labelsOf turns ↔ ∃ t ∈ turns, t.label = label := by
  unfold labelsOf
  rw [(fromkeys_spec _).2, List.mem_map]
  simp only [mem_sortTurns]

theorem speakersOf_nodup (previous : List (Turn Nat)) : (speakersOf previous).Nodup :=
  (List.mergeSort_perm _ _).nodup_iff.mpr (List.nodup_dedup _)

theorem mem_speakersOf {previous : List (Turn Nat)} {id : Nat} :
    id ∈ speakersOf previous ↔ ∃ p ∈ previous, p.label = id := by
  unfold speakersOf
  rw [List.mem_mergeSort, List.mem_dedup, List.mem_map]

theorem Turn.le_trans (a b c : Turn String) (first : a.le b = true) (second : b.le c = true) : a.le c = true := by
  unfold Turn.le at *
  split at first <;> split at second
  · rename_i h k
    have := (of_decide_eq_true first).trans (of_decide_eq_true second)
    rw [if_pos this.ne]
    exact decide_eq_true this
  · rename_i h k
    rw [not_not] at k
    rw [← k, if_pos h]
    exact first
  · rename_i h k
    rw [not_not] at h
    rw [h, if_pos k]
    exact second
  · rename_i h k
    rw [not_not] at h k
    rw [if_neg (not_not.mpr (h.trans k))]
    split at first <;> split at second
    · have := (of_decide_eq_true first).trans (of_decide_eq_true second)
      rw [if_pos this.ne]
      exact decide_eq_true this
    · rename_i x y
      rw [not_not] at y
      rw [← y, if_pos x]
      exact first
    · rename_i x y
      rw [not_not] at x
      rw [x, if_pos y]
      exact second
    · rename_i x y
      rw [not_not] at x y
      rw [if_neg (not_not.mpr (x.trans y))]
      exact decide_eq_true (String.le_trans (of_decide_eq_true first) (of_decide_eq_true second))

theorem Turn.le_total (a b : Turn String) : (a.le b || b.le a) = true := by
  unfold Turn.le
  by_cases starts : a.start = b.start
  · by_cases stops : a.stop = b.stop
    · simp only [starts, stops, ne_eq, not_true_eq_false, if_false, Bool.or_eq_true, decide_eq_true_eq]
      exact String.le_total _ _
    · simp only [starts, ne_eq, not_true_eq_false, if_false, stops, Ne.symm stops, not_false_eq_true, if_true,
        Bool.or_eq_true, decide_eq_true_eq]
      exact lt_or_gt_of_ne stops
  · simp only [starts, Ne.symm starts, ne_eq, not_false_eq_true, if_true, Bool.or_eq_true, decide_eq_true_eq]
    exact lt_or_gt_of_ne starts

theorem Turn.start_le {a b : Turn String} (le : a.le b = true) : a.start ≤ b.start := by
  unfold Turn.le at le
  split at le
  · exact (of_decide_eq_true le).le
  · rename_i same
    exact (not_not.mp same).le

theorem sortTurns_sorted (turns : List (Turn String)) :
    (sortTurns turns).Pairwise fun a b => a.start ≤ b.start :=
  (List.pairwise_mergeSort Turn.le_trans Turn.le_total turns).imp Turn.start_le

/-! ## The scan -/

theorem Turn.overlap_nonneg (t : Turn α) (p : Turn β) : 0 ≤ t.overlap p := le_max_left _ _

theorem Turn.overlap_eq_zero {t : Turn α} {p : Turn β} (apart : p.stop ≤ t.start ∨ t.stop ≤ p.start) :
    t.overlap p = 0 := by
  refine max_eq_left (sub_nonpos.mpr ?_)
  rcases apart with h | h
  · exact (min_le_right _ _).trans (h.trans (le_max_left _ _))
  · exact (min_le_left _ _).trans (h.trans (le_max_right _ _))

def overlapOne [DecidableEq β] (t : Turn α) (previous : List (Turn β)) (speaker : β) : ℚ :=
  ((previous.filter fun p => p.label = speaker).map t.overlap).sum

/-- All pairwise overlaps of a label's turns with a speaker's previous turns. -/
def overlapSum [DecidableEq α] [DecidableEq β] (turns : List (Turn α)) (previous : List (Turn β)) (label : α)
    (speaker : β) : ℚ :=
  ((turns.filter fun t => t.label = label).map fun t => overlapOne t previous speaker).sum

theorem overlapOne_nonneg (t : Turn α) (previous : List (Turn Nat)) (speaker : Nat) :
    0 ≤ overlapOne t previous speaker := by
  refine List.sum_nonneg fun x member => ?_
  obtain ⟨p, -, rfl⟩ := List.mem_map.mp member
  exact t.overlap_nonneg p

theorem overlapOne_eq_zero {t : Turn α} {previous : List (Turn Nat)} {speaker : Nat}
    (apart : ∀ p ∈ previous, p.label = speaker → t.overlap p = 0) : overlapOne t previous speaker = 0 := by
  refine List.sum_eq_zero fun x member => ?_
  obtain ⟨p, here, rfl⟩ := List.mem_map.mp member
  have := List.mem_filter.mp here
  exact apart p this.1 (by simpa using this.2)

theorem overlapOne_append (t : Turn α) (front back : List (Turn Nat)) (speaker : Nat) :
    overlapOne t (front ++ back) speaker = overlapOne t front speaker + overlapOne t back speaker := by
  unfold overlapOne
  rw [List.filter_append, List.map_append, List.sum_append]

/-- The previous turns that the scan skips or leaves after its break overlap nothing. -/
theorem overlapOne_window {skipped rest : List (Turn Nat)} {t : Turn α} {speaker : Nat}
    (gone : ∀ p ∈ skipped, p.stop ≤ t.start) (sorted : rest.Pairwise fun a b => a.start ≤ b.start) :
    overlapOne t (skipped ++ rest) speaker =
      overlapOne t (rest.takeWhile fun p => decide (p.start < t.stop)) speaker := by
  have late : ∀ p ∈ rest.dropWhile fun p => decide (p.start < t.stop), t.stop ≤ p.start := by
    intro p member
    cases h : rest.dropWhile fun p => decide (p.start < t.stop) with
    | nil =>
        rw [h] at member
        cases member
    | cons first others =>
        have failed := List.head_dropWhile_not (fun p : Turn Nat => decide (p.start < t.stop)) (l := rest) (by simp [h])
        simp only [h, List.head_cons, decide_eq_false_iff_not, not_lt] at failed
        have order := sorted.sublist (List.dropWhile_sublist fun p => decide (p.start < t.stop))
        rw [h] at member order
        rcases List.mem_cons.mp member with rfl | later
        · exact failed
        · exact failed.trans ((List.pairwise_cons.mp order).1 p later)
  rw [overlapOne_append, overlapOne_eq_zero fun p h _ => Turn.overlap_eq_zero (.inl (gone p h)), zero_add]
  conv_lhs => rw [← List.takeWhile_append_dropWhile (p := fun p : Turn Nat => decide (p.start < t.stop)) (l := rest)]
  rw [overlapOne_append, overlapOne_eq_zero fun p h _ => Turn.overlap_eq_zero (.inr (late p h)), add_zero]

structure Rectangle (rows columns : Nat) (scores : List (List ℚ)) : Prop where
  rows : scores.length = rows
  columns : ∀ r ∈ scores, r.length = columns

theorem entry_addScore {rows columns : Nat} {scores : List (List ℚ)} (shape : Rectangle rows columns scores)
    {row column : Nat} (rowOk : row < rows) (columnOk : column < columns) (x : ℚ) :
    Rectangle rows columns (addScore scores row column x) ∧ ∀ i j, entry (addScore scores row column x) i j =
      entry scores i j + if row = i ∧ column = j then x else 0 := by
  have short : row < scores.length := shape.rows.symm ▸ rowOk
  unfold addScore
  refine ⟨⟨by rw [List.length_modify, shape.rows], ?_⟩, ?_⟩
  · intro r member
    obtain ⟨k, bound, rfl⟩ := List.mem_iff_getElem.mp member
    rw [List.length_modify] at bound
    rw [List.getElem_modify]
    split
    · rw [List.length_modify]
      exact shape.columns _ (List.getElem_mem _)
    · exact shape.columns _ (List.getElem_mem _)
  · intro i j
    unfold entry
    simp only [List.getD_eq_getElem?_getD, List.getElem?_modify]
    by_cases same : row = i
    · subst same
      rw [List.getElem?_eq_getElem short]
      have width := shape.columns _ (List.getElem_mem short)
      have inside : column < scores[row].length := width.symm ▸ columnOk
      by_cases here : column = j
      · subst here
        simp [List.getElem?_eq_getElem inside]
      · simp [here]
    · cases h : scores[i]? <;> simp [same]

section Scan

variable {labels : List String} {old : List Nat}

theorem entry_row {t : Turn String} {window : List (Turn Nat)} {scores : List (List ℚ)}
    (shape : Rectangle labels.length old.length scores) (known : t.label ∈ labels)
    (knownOld : ∀ p ∈ window, p.label ∈ old) :
    Rectangle labels.length old.length (window.foldl (fun scores p =>
      addScore scores (labels.idxOf t.label) (old.idxOf p.label) (t.overlap p)) scores) ∧
    ∀ label speaker, entry (window.foldl (fun scores p =>
      addScore scores (labels.idxOf t.label) (old.idxOf p.label) (t.overlap p)) scores)
        (labels.idxOf label) (old.idxOf speaker) =
      entry scores (labels.idxOf label) (old.idxOf speaker) +
        if t.label = label then overlapOne t window speaker else 0 := by
  induction window generalizing scores with
  | nil =>
      refine ⟨shape, fun label speaker => ?_⟩
      simp [overlapOne]
  | cons p window ih =>
      have here := knownOld p List.mem_cons_self
      obtain ⟨shape', added⟩ := entry_addScore shape (List.idxOf_lt_length_of_mem known)
        (List.idxOf_lt_length_of_mem here) (t.overlap p)
      obtain ⟨finalShape, entries⟩ := ih shape' fun q hq => knownOld q (List.mem_cons_of_mem _ hq)
      refine ⟨finalShape, fun label speaker => ?_⟩
      rw [List.foldl_cons, entries, added]
      simp only [List.idxOf_inj known, List.idxOf_inj here]
      by_cases mine : t.label = label
      · by_cases his : p.label = speaker
        · simp [mine, his, overlapOne, add_assoc]
        · simp [mine, his, overlapOne]
      · simp [mine]

/-- What the scan has done after some turns, for the turns that are still to come. -/
structure Tallied (labels : List String) (old : List Nat) (previous : List (Turn Nat)) (done : List (Turn String))
    (tally : Tally) : Prop where
  shape : Rectangle labels.length old.length tally.scores
  skipped : ∃ skipped, previous = skipped ++ tally.rest ∧
    ∀ p ∈ skipped, ∃ t ∈ done, p.stop ≤ t.start
  entries : ∀ label speaker, entry tally.scores (labels.idxOf label) (old.idxOf speaker) =
    overlapSum done previous label speaker

theorem tally_spec {previous : List (Turn Nat)} (sortedOld : previous.Pairwise fun a b => a.start ≤ b.start)
    (knownOld : ∀ p ∈ previous, p.label ∈ old) (turns : List (Turn String))
    (sorted : turns.Pairwise fun a b => a.start ≤ b.start) (known : ∀ t ∈ turns, t.label ∈ labels) :
    Tallied labels old previous turns (turns.foldl (tallyTurn labels old)
      ⟨previous, List.replicate labels.length (List.replicate old.length 0)⟩) := by
  induction turns using List.reverseRecOn with
  | nil =>
      refine ⟨⟨List.length_replicate, fun r h => ?_⟩, ⟨[], rfl, fun _ h => (by cases h)⟩, fun label speaker => ?_⟩
      · rw [List.eq_of_mem_replicate h, List.length_replicate]
      · simp only [List.foldl_nil, entry, overlapSum, List.filter_nil, List.map_nil, List.sum_nil]
        rw [List.getD_eq_getElem?_getD, List.getD_eq_getElem?_getD, List.getElem?_replicate]
        split
        · rw [Option.getD_some, List.getElem?_replicate]
          split <;> rfl
        · rfl
  | append_singleton front t ih =>
      obtain ⟨sortedFront, -, order⟩ := List.pairwise_append.mp sorted
      have before := ih sortedFront fun q hq => known q (List.mem_append_left _ hq)
      rw [List.foldl_append, List.foldl_cons, List.foldl_nil]
      generalize front.foldl (tallyTurn labels old) _ = tally at before
      obtain ⟨skipped, split, gone⟩ := before.skipped
      have parts := List.takeWhile_append_dropWhile (p := fun p : Turn Nat => decide (p.stop ≤ t.start))
        (l := tally.rest)
      unfold tallyTurn
      dsimp only
      generalize takenIs : tally.rest.takeWhile (fun p => decide (p.stop ≤ t.start)) = taken at parts
      generalize tally.rest.dropWhile (fun p => decide (p.stop ≤ t.start)) = rest at parts
      rw [← parts, ← List.append_assoc] at split
      have early : ∀ p ∈ skipped ++ taken, p.stop ≤ t.start := by
        intro p member
        rcases List.mem_append.mp member with old | new
        · obtain ⟨q, hq, le⟩ := gone p old
          exact le.trans (order q hq t (List.mem_singleton_self t))
        · rw [← takenIs] at new
          exact of_decide_eq_true (List.all_eq_true.mp List.all_takeWhile p new)
      have sortedRest : rest.Pairwise fun a b => a.start ≤ b.start := by
        rw [split] at sortedOld
        exact (List.pairwise_append.mp sortedOld).2.1
      have knownWindow : ∀ p ∈ rest.takeWhile fun p => decide (p.start < t.stop), p.label ∈ old := by
        intro p member
        refine knownOld p ?_
        rw [split]
        exact List.mem_append_right _ ((List.takeWhile_sublist _).subset member)
      obtain ⟨shape, entries⟩ := entry_row before.shape (known t (by simp)) knownWindow
      refine ⟨shape, ⟨skipped ++ taken, split, fun p member => ⟨t, by simp, early p member⟩⟩, ?_⟩
      intro label speaker
      rw [entries, before.entries]
      unfold overlapSum
      rw [List.filter_append, List.map_append, List.sum_append]
      congr 1
      by_cases mine : t.label = label
      · rw [if_pos mine, ← overlapOne_window early sortedRest, ← split]
        simp [mine]
      · rw [if_neg mine]
        simp [mine]

end Scan

theorem overlapScores_spec {previous : List (Turn Nat)}
    (sorted : previous.Pairwise fun a b => a.start ≤ b.start) (turns : List (Turn String)) :
    Rectangle (labelsOf turns).length (speakersOf previous).length (overlapScores previous turns) ∧
      ∀ label speaker, entry (overlapScores previous turns) ((labelsOf turns).idxOf label)
        ((speakersOf previous).idxOf speaker) = overlapSum turns previous label speaker := by
  have knownOld : ∀ p ∈ previous, p.label ∈ speakersOf previous := fun p h => mem_speakersOf.mpr ⟨p, h, rfl⟩
  have known : ∀ t ∈ sortTurns turns, t.label ∈ labelsOf turns := fun t h =>
    mem_labelsOf.mpr ⟨t, mem_sortTurns.mp h, rfl⟩
  have tallied := tally_spec sorted knownOld (sortTurns turns) (sortTurns_sorted turns) known
  refine ⟨tallied.shape, fun label speaker => (tallied.entries label speaker).trans ?_⟩
  exact (((List.mergeSort_perm turns Turn.le).filter _).map _).sum_eq

/-! ## The mapping -/

theorem lookup_of_mem {mapping : List (String × Nat)} (nodup : (mapping.map Prod.fst).Nodup) {label : String}
    {id : Nat} (member : (label, id) ∈ mapping) : mapping.lookup label = some id := by
  obtain ⟨front, back, rfl⟩ := List.append_of_mem member
  rw [List.lookup_eq_some_iff]
  refine ⟨front, back, rfl, fun p here => ?_⟩
  rw [List.map_append, List.map_cons, List.nodup_append] at nodup
  have := nodup.2.2 p.1 (List.mem_map_of_mem here) label List.mem_cons_self
  simpa using Ne.symm this

theorem lookup_isSome_iff_mem {mapping : List (String × Nat)} {label : String} :
    (mapping.lookup label).isSome = true ↔ ∃ id, (label, id) ∈ mapping := by
  rw [List.lookup_isSome_iff]
  constructor
  · rintro ⟨p, member, same⟩
    rw [eq_of_beq same]
    exact ⟨p.2, member⟩
  · rintro ⟨id, member⟩
    exact ⟨_, member, beq_self_eq_true _⟩

/-- The mapping after the labels `done`, from the matched pairs `start` and the number `first`. -/
structure Numbered (start : List (String × Nat)) (first : Nat) (done : List String)
    (state : List (String × Nat) × Nat) : Prop where
  keys : (state.1.map Prod.fst).Nodup
  numbers : (state.1.map Prod.snd).Nodup
  below : ∀ p ∈ state.1, p.2 < state.2
  kept : ∀ p ∈ start, p ∈ state.1
  later : ∀ p ∈ state.1, p ∈ start ∨ first ≤ p.2
  covered : ∀ label ∈ done, ∃ id, (label, id) ∈ state.1
  next : first ≤ state.2

theorem Numbered.step {start : List (String × Nat)} {first : Nat} {done : List String}
    {state : List (String × Nat) × Nat} (before : Numbered start first done state) (label : String) :
    Numbered start first (done ++ [label]) (numberLabel state label) := by
  unfold numberLabel
  split
  · rename_i known
    refine ⟨before.keys, before.numbers, before.below, before.kept, before.later, ?_, before.next⟩
    intro other member
    rcases List.mem_append.mp member with old | last
    · exact before.covered other old
    · rw [List.mem_singleton.mp last]
      exact lookup_isSome_iff_mem.mp known
  · rename_i unknown
    have absent : label ∉ state.1.map Prod.fst := by
      intro member
      obtain ⟨⟨_, id⟩, here, rfl⟩ := List.mem_map.mp member
      exact unknown (lookup_isSome_iff_mem.mpr ⟨id, here⟩)
    have fresh : state.2 ∉ state.1.map Prod.snd := by
      intro member
      obtain ⟨p, here, same⟩ := List.mem_map.mp member
      have := before.below p here
      omega
    refine ⟨?_, ?_, ?_, fun p h => List.mem_append_left _ (before.kept p h), ?_, ?_, before.next.trans (by simp)⟩
    · rw [List.map_append, List.map_singleton, List.nodup_append]
      refine ⟨before.keys, List.nodup_singleton _, fun a ha b hb same => absent ?_⟩
      have : b = label := List.mem_singleton.mp hb
      exact this ▸ same ▸ ha
    · rw [List.map_append, List.map_singleton, List.nodup_append]
      refine ⟨before.numbers, List.nodup_singleton _, fun a ha b hb same => fresh ?_⟩
      have : b = state.2 := List.mem_singleton.mp hb
      exact this ▸ same ▸ ha
    · intro p member
      rcases List.mem_append.mp member with old | last
      · exact (before.below p old).trans (by simp)
      · rw [List.mem_singleton.mp last]
        simp
    · intro p member
      rcases List.mem_append.mp member with old | last
      · exact before.later p old
      · rw [List.mem_singleton.mp last]
        exact .inr before.next
    · intro other member
      rcases List.mem_append.mp member with old | last
      · obtain ⟨id, here⟩ := before.covered other old
        exact ⟨id, List.mem_append_left _ here⟩
      · exact ⟨state.2, List.mem_append_right _ (by rw [List.mem_singleton.mp last]; simp)⟩

theorem Numbered.all {start : List (String × Nat)} {first : Nat} (keys : (start.map Prod.fst).Nodup)
    (numbers : (start.map Prod.snd).Nodup) (below : ∀ p ∈ start, p.2 < first) (labels : List String) :
    Numbered start first labels (labels.foldl numberLabel (start, first)) := by
  induction labels using List.reverseRecOn with
  | nil => exact ⟨keys, numbers, below, fun _ h => h, fun _ h => .inl h, fun _ h => (by cases h), le_refl _⟩
  | append_singleton front label ih =>
      rw [List.foldl_append, List.foldl_cons, List.foldl_nil]
      exact ih.step label

theorem getD_injective {γ : Type} {l : List γ} (nodup : l.Nodup) {d : γ} {i j : Nat} (hi : i < l.length)
    (hj : j < l.length) (same : l.getD i d = l.getD j d) : i = j := by
  rw [List.getD_eq_getElem _ _ hi, List.getD_eq_getElem _ _ hj] at same
  exact (nodup.getElem_inj_iff).mp same

/-- Rows and columns of the assignment, as labels and speakers. -/
structure Matches (previous : List (Turn Nat)) (turns : List (Turn String)) : Prop where
  keys : ((matched previous turns).map Prod.fst).Nodup
  numbers : ((matched previous turns).map Prod.snd).Nodup
  speakers : ∀ p ∈ matched previous turns, p.2 ∈ speakersOf previous
  mem : ∀ label ∈ labelsOf turns, ∀ id ∈ speakersOf previous,
    ((labelsOf turns).idxOf label, (speakersOf previous).idxOf id) ∈
      maximumAssignment (overlapScores previous turns) → (label, id) ∈ matched previous turns

theorem matched_spec {previous : List (Turn Nat)} (sorted : previous.Pairwise fun a b => a.start ≤ b.start)
    (turns : List (Turn String)) : Matches previous turns := by
  obtain ⟨shape, -⟩ := overlapScores_spec sorted turns
  have matching := maximumAssignment_spec (overlapScores previous turns)
  have inside : ∀ p ∈ maximumAssignment (overlapScores previous turns),
      p.1 < (labelsOf turns).length ∧ p.2 < (speakersOf previous).length := by
    intro p member
    obtain ⟨row, column⟩ := matching.inside p member
    refine ⟨shape.rows ▸ row, ?_⟩
    cases h : overlapScores previous turns with
    | nil =>
        rw [h] at row
        cases row
    | cons r rest =>
        rw [← shape.columns r (by rw [h]; exact List.mem_cons_self)]
        rw [h] at column
        exact column
  refine ⟨?_, ?_, ?_, ?_⟩
  · unfold matched
    rw [List.map_map]
    have := (List.pairwise_map.mp matching.rows).imp_of_mem (fun {p q} hp hq (ne : p.1 ≠ q.1) =>
      fun same : (labelsOf turns).getD p.1 "" = (labelsOf turns).getD q.1 "" =>
        ne (getD_injective (labelsOf_nodup turns) (inside p hp).1 (inside q hq).1 same))
    exact List.pairwise_map.mpr this
  · unfold matched
    rw [List.map_map]
    have := (List.pairwise_map.mp matching.columns).imp_of_mem (fun {p q} hp hq (ne : p.2 ≠ q.2) =>
      fun same : (speakersOf previous).getD p.2 0 = (speakersOf previous).getD q.2 0 =>
        ne (getD_injective (speakersOf_nodup previous) (inside p hp).2 (inside q hq).2 same))
    exact List.pairwise_map.mpr this
  · intro p member
    obtain ⟨q, here, rfl⟩ := List.mem_map.mp member
    dsimp only
    rw [List.getD_eq_getElem _ _ (inside q here).2]
    exact List.getElem_mem _
  · intro label hl id hi member
    refine List.mem_map.mpr ⟨_, member, ?_⟩
    dsimp only
    rw [List.getD_eq_getElem _ _ (List.idxOf_lt_length_of_mem hl),
      List.getD_eq_getElem _ _ (List.idxOf_lt_length_of_mem hi), List.getElem_idxOf, List.getElem_idxOf]

/-! ## Relabelled turns -/

/-- The part of a turn inside an interval. -/
def Turn.clip (lo hi : ℚ) (t : Turn α) : Option (Turn α) :=
  if max lo t.start < min hi t.stop then some ⟨max lo t.start, min hi t.stop, t.label⟩ else none

def Apart (a b : Turn α) : Prop := a.stop ≤ b.start ∨ b.stop ≤ a.start

instance : Std.Symm (Apart (α := α)) := ⟨fun _ _ h => h.symm⟩

theorem Turn.clip_some {lo hi : ℚ} {t t' : Turn α} (clipped : t.clip lo hi = some t') :
    t' = ⟨max lo t.start, min hi t.stop, t.label⟩ := by
  unfold Turn.clip at clipped
  split at clipped
  · exact (Option.some.inj clipped).symm
  · cases clipped

theorem Turn.overlap_clip {lo hi : ℚ} (t : Turn α) {p : Turn β} (low : lo ≤ p.start) (high : p.stop ≤ hi) :
    t.overlap p = (t.clip lo hi).elim 0 fun t' => t'.overlap p := by
  unfold Turn.clip
  split
  · simp only [Option.elim_some, Turn.overlap]
    rw [min_comm hi, min_assoc, min_eq_right high, max_comm lo, max_assoc, max_eq_right low]
  · rename_i outside
    rw [Option.elim_none]
    refine max_eq_left (sub_nonpos.mpr ?_)
    calc min t.stop p.stop ≤ min hi t.stop := le_min ((min_le_right _ _).trans high) (min_le_left _ _)
      _ ≤ max lo t.start := not_lt.mp outside
      _ ≤ max t.start p.start := max_le (low.trans (le_max_right _ _)) (le_max_left _ _)

theorem overlapSum_clip {lo hi : ℚ} {previous : List (Turn Nat)}
    (covered : ∀ p ∈ previous, lo ≤ p.start ∧ p.stop ≤ hi) (turns : List (Turn String)) (label : String)
    (speaker : Nat) : overlapSum turns previous label speaker =
      overlapSum (turns.filterMap (Turn.clip lo hi)) previous label speaker := by
  have one : ∀ t : Turn String, overlapOne t previous speaker =
      (t.clip lo hi).elim 0 fun t' => overlapOne t' previous speaker := by
    intro t
    cases h : t.clip lo hi with
    | none =>
        refine overlapOne_eq_zero fun p member _ => ?_
        rw [t.overlap_clip (covered p member).1 (covered p member).2, h]
        rfl
    | some t' =>
        refine congrArg List.sum (List.map_congr_left fun p member => ?_)
        have here := (List.mem_filter.mp member).1
        rw [t.overlap_clip (covered p here).1 (covered p here).2, h]
        rfl
  unfold overlapSum
  induction turns with
  | nil => rfl
  | cons t turns ih =>
      have here := one t
      rw [List.filterMap_cons]
      cases h : t.clip lo hi with
      | none =>
          rw [h] at here
          dsimp only
          by_cases mine : t.label = label
          · rw [List.filter_cons_of_pos (by simpa using mine), List.map_cons, List.sum_cons, here, ih]
            exact zero_add _
          · rw [List.filter_cons_of_neg (by simpa using mine), ih]
      | some t' =>
          rw [h] at here
          have named : t'.label = t.label := by rw [Turn.clip_some h]
          dsimp only
          by_cases mine : t.label = label
          · rw [List.filter_cons_of_pos (by simpa using mine), List.filter_cons_of_pos (by simpa [named] using mine),
              List.map_cons, List.map_cons, List.sum_cons, List.sum_cons, here, ih]
            rfl
          · rw [List.filter_cons_of_neg (by simpa using mine), List.filter_cons_of_neg (by simpa [named] using mine),
              ih]

section Relabelled

variable {previous : List (Turn Nat)} {name : Nat → String}

theorem overlapSum_other (apart : previous.Pairwise Apart) {label : String} {speaker : Nat}
    (other : label ≠ name speaker) :
    overlapSum (previous.map (Turn.relabel name)) previous label speaker = 0 := by
  refine List.sum_eq_zero fun x member => ?_
  obtain ⟨t, here, rfl⟩ := List.mem_map.mp member
  obtain ⟨inside, mine⟩ := List.mem_filter.mp here
  obtain ⟨q, hq, rfl⟩ := List.mem_map.mp inside
  refine overlapOne_eq_zero fun p hp his => ?_
  have ne : q ≠ p := by
    rintro rfl
    have := of_decide_eq_true mine
    rw [Turn.relabel, his] at this
    exact other this.symm
  have := apart.forall hq hp ne
  exact Turn.overlap_eq_zero (t := q.relabel name) this.symm

theorem overlapSum_own {p : Turn Nat} (member : p ∈ previous) (long : p.start < p.stop) :
    0 < overlapSum (previous.map (Turn.relabel name)) previous (name p.label) p.label := by
  have self : 0 < (p.relabel name).overlap p := by
    simp only [Turn.overlap, Turn.relabel, min_self, max_self]
    exact lt_max_of_lt_right (sub_pos.mpr long)
  have one : (p.relabel name).overlap p ≤ overlapOne (p.relabel name) previous p.label := by
    refine List.single_le_sum ?_ _ (List.mem_map_of_mem (List.mem_filter.mpr ⟨member, by simp⟩))
    intro x here
    obtain ⟨q, -, rfl⟩ := List.mem_map.mp here
    exact Turn.overlap_nonneg _ q
  refine (self.trans_le one).trans_le (List.single_le_sum ?_ _ ?_)
  · intro x here
    obtain ⟨q, -, rfl⟩ := List.mem_map.mp here
    exact overlapOne_nonneg q _ _
  · exact List.mem_map_of_mem (List.mem_filter.mpr ⟨List.mem_map_of_mem member, by simp [Turn.relabel]⟩)

/-- The pair of a speaker and its new name is matched: nothing else scores in its row or column. -/
theorem matched_of_relabelled {turns : List (Turn String)} {lo hi : ℚ}
    (sorted : previous.Pairwise fun a b => a.start ≤ b.start) (long : ∀ p ∈ previous, p.start < p.stop)
    (apart : previous.Pairwise Apart) (covered : ∀ p ∈ previous, lo ≤ p.start ∧ p.stop ≤ hi)
    (injective : ∀ p ∈ previous, ∀ q ∈ previous, name p.label = name q.label → p.label = q.label)
    (same : (turns.filterMap (Turn.clip lo hi)).Perm (previous.map (Turn.relabel name))) {p : Turn Nat}
    (member : p ∈ previous) : (name p.label, p.label) ∈ matched previous turns := by
  obtain ⟨shape, entries⟩ := overlapScores_spec sorted turns
  have sums : ∀ label speaker, overlapSum turns previous label speaker =
      overlapSum (previous.map (Turn.relabel name)) previous label speaker := by
    intro label speaker
    rw [overlapSum_clip covered]
    exact ((same.filter _).map _).sum_eq
  have known : name p.label ∈ labelsOf turns := by
    have here := same.symm.subset (List.mem_map_of_mem (f := Turn.relabel name) member)
    obtain ⟨t, inside, clipped⟩ := List.mem_filterMap.mp here
    refine mem_labelsOf.mpr ⟨t, inside, ?_⟩
    have := congrArg Turn.label (Turn.clip_some clipped)
    exact this.symm
  have knownOld : p.label ∈ speakersOf previous := mem_speakersOf.mpr ⟨p, member, rfl⟩
  have rowOk := List.idxOf_lt_length_of_mem known
  have columnOk := List.idxOf_lt_length_of_mem knownOld
  have width : ((overlapScores previous turns).headD []).length = (speakersOf previous).length := by
    cases h : overlapScores previous turns with
    | nil =>
        have := shape.rows
        rw [h] at this
        simp only [List.length_nil] at this
        omega
    | cons r rest => exact shape.columns r (by rw [h]; exact List.mem_cons_self)
  refine (matched_spec sorted turns).mem _ known _ knownOld
    ((maximumAssignment_spec _).mem_of_lone (shape.rows ▸ rowOk) (width ▸ columnOk) ?_ ?_ ?_)
  · rw [entries, sums]
    exact overlapSum_own member (long p member)
  · intro c bound ne
    rw [width] at bound
    have column : c = (speakersOf previous).idxOf ((speakersOf previous)[c]) :=
      ((speakersOf_nodup previous).idxOf_getElem c bound).symm
    rw [column, entries, sums, overlapSum_other apart]
    intro equal
    obtain ⟨q, hq, his⟩ := mem_speakersOf.mp (List.getElem_mem bound)
    rw [← his] at equal column
    rw [injective p member q hq equal] at ne
    exact ne column
  · intro r bound ne
    rw [shape.rows] at bound
    have row : r = (labelsOf turns).idxOf ((labelsOf turns)[r]) :=
      ((labelsOf_nodup turns).idxOf_getElem r bound).symm
    rw [row, entries, sums, overlapSum_other apart]
    intro equal
    rw [equal] at row
    exact ne row

end Relabelled

/-! ## Runs of updates -/

/-- A history with every number its updates have returned. -/
structure Session where
  history : History
  issued : List Nat

def Session.init (s : Session) : Prop := s = ⟨emptyHistory, []⟩

def Session.step (s : Session) (turns : List (Turn String)) (t : Session) : Prop :=
  ∃ history result, s.history.update turns = .ok (history, result) ∧
    t = ⟨history, s.issued ++ result.map Turn.label⟩

structure Consistent (s : Session) : Prop where
  sorted : s.history.turns.Pairwise fun a b => a.start ≤ b.start
  long : ∀ p ∈ s.history.turns, p.start < p.stop
  speakers : ∀ p ∈ s.history.turns, p.label < s.history.nextSpeaker
  issued : ∀ id ∈ s.issued, id < s.history.nextSpeaker

theorem Consistent.numbered {s : Session} (consistent : Consistent s) (turns : List (Turn String)) :
    Numbered (matched s.history.turns turns) s.history.nextSpeaker (labelsOf turns)
      ((labelsOf turns).foldl numberLabel (matched s.history.turns turns, s.history.nextSpeaker)) := by
  have pairs := matched_spec consistent.sorted turns
  refine Numbered.all pairs.keys pairs.numbers (fun p member => ?_) (labelsOf turns)
  obtain ⟨q, here, same⟩ := mem_speakersOf.mp (pairs.speakers p member)
  rw [← same]
  exact consistent.speakers q here

theorem update_ok {h : History} {turns : List (Turn String)} {result : History × List (Turn Nat)}
    (updated : h.update turns = .ok result) : (∀ t ∈ turns, t.valid = true) ∧ result =
      let numbered := (labelsOf turns).foldl numberLabel (matched h.turns turns, h.nextSpeaker)
      let out := (sortTurns turns).map (Turn.relabel fun label => (numbered.1.lookup label).getD 0)
      (⟨out, numbered.2⟩, out) := by
  unfold History.update at updated
  split at updated
  · cases updated
  · rename_i valid
    refine ⟨fun t member => ?_, (Except.ok.inj updated).symm⟩
    by_contra bad
    exact valid (List.any_eq_true.mpr ⟨t, member, by simpa using bad⟩)

theorem consistent_step {s t : Session} {turns : List (Turn String)} (consistent : Consistent s)
    (step : s.step turns t) : Consistent t := by
  obtain ⟨history, result, updated, rfl⟩ := step
  obtain ⟨valid, equal⟩ := update_ok updated
  have numbered := consistent.numbered turns
  dsimp only at equal
  generalize (labelsOf turns).foldl numberLabel _ = state at numbered equal
  obtain ⟨rfl, rfl⟩ := Prod.mk.inj equal
  have named : ∀ t ∈ sortTurns turns, (state.1.lookup t.label).getD 0 < state.2 := by
    intro t member
    obtain ⟨id, here⟩ := numbered.covered t.label (mem_labelsOf.mpr ⟨t, mem_sortTurns.mp member, rfl⟩)
    rw [lookup_of_mem numbered.keys here]
    exact numbered.below _ here
  refine ⟨?_, ?_, ?_, ?_⟩
  · exact List.pairwise_map.mpr (sortTurns_sorted turns)
  · intro p member
    obtain ⟨t, here, rfl⟩ := List.mem_map.mp member
    have := valid t (mem_sortTurns.mp here)
    simp only [Turn.valid, Bool.not_eq_true', Bool.or_eq_false_iff, decide_eq_false_iff_not, not_lt, not_le] at this
    exact this.2
  · intro p member
    obtain ⟨t, here, rfl⟩ := List.mem_map.mp member
    exact named t here
  · intro id member
    rcases List.mem_append.mp member with old | new
    · exact (consistent.issued id old).trans_le numbered.next
    · rw [List.map_map] at new
      obtain ⟨t, here, rfl⟩ := List.mem_map.mp new
      exact named t here

theorem consistent_run {s : Session} (run : Reachable Session.init Session.step s) : Consistent s := by
  refine run.invariant (I := Consistent) ?_ fun s turns t before step => consistent_step before step
  rintro s rfl
  exact ⟨List.Pairwise.nil, fun _ h => (by cases h), fun _ h => (by cases h), fun _ h => (by cases h)⟩

/-- After any run, an update with valid turns succeeds and returns them sorted under a numbering: one-to-one on the
labels, with the matched numbers carried over and the others beyond every number issued so far. The scores of the
match are the sums of all overlaps. Where the turns repeat the previous, disjoint ones under other names within an
interval that covers these, each speaker keeps its number. -/
theorem speaker_numbers_stable {s : Session} (run : Reachable Session.init Session.step s)
    {turns : List (Turn String)} (valid : ∀ t ∈ turns, 0 ≤ t.start ∧ t.start < t.stop) :
    ∃ (history : History) (number : String → Nat),
      s.history.update turns = .ok (history, (sortTurns turns).map (Turn.relabel number)) ∧
      history.turns = (sortTurns turns).map (Turn.relabel number) ∧
      (∀ t ∈ turns, ∀ t' ∈ turns, number t.label = number t'.label → t.label = t'.label) ∧
      (∀ t ∈ turns, ∀ id, (t.label, id) ∈ matched s.history.turns turns → number t.label = id) ∧
      (∀ t ∈ turns, (∀ id, (t.label, id) ∉ matched s.history.turns turns) →
        ∀ id ∈ s.issued, id < number t.label) ∧
      (∀ label speaker, entry (overlapScores s.history.turns turns) ((labelsOf turns).idxOf label)
        ((speakersOf s.history.turns).idxOf speaker) = overlapSum turns s.history.turns label speaker) ∧
      ∀ (name : Nat → String) (lo hi : ℚ), s.history.turns.Pairwise Apart →
        (∀ p ∈ s.history.turns, lo ≤ p.start ∧ p.stop ≤ hi) →
        (∀ p ∈ s.history.turns, ∀ q ∈ s.history.turns, name p.label = name q.label → p.label = q.label) →
        (turns.filterMap (Turn.clip lo hi)).Perm (s.history.turns.map (Turn.relabel name)) →
        ∀ p ∈ s.history.turns, number (name p.label) = p.label := by
  have consistent := consistent_run run
  have numbered := consistent.numbered turns
  have accepted : (turns.any fun t => !t.valid) ≠ true := by
    intro bad
    obtain ⟨t, member, invalid⟩ := List.any_eq_true.mp bad
    obtain ⟨low, long⟩ := valid t member
    simp [Turn.valid, not_lt.mpr low, not_le.mpr long] at invalid
  generalize stateIs : (labelsOf turns).foldl numberLabel (matched s.history.turns turns, s.history.nextSpeaker) =
    state at numbered
  have number : ∀ label id, (label, id) ∈ state.1 → (state.1.lookup label).getD 0 = id := by
    intro label id member
    rw [lookup_of_mem numbered.keys member]
    rfl
  have covered : ∀ t ∈ turns, ∃ id, (t.label, id) ∈ state.1 := fun t member =>
    numbered.covered t.label (mem_labelsOf.mpr ⟨t, member, rfl⟩)
  refine ⟨⟨_, state.2⟩, fun label => (state.1.lookup label).getD 0, ?_, rfl, ?_, ?_, ?_, ?_, ?_⟩
  · unfold History.update
    rw [if_neg accepted]
    dsimp only
    rw [stateIs]
  · intro t ht t' ht' same
    obtain ⟨id, here⟩ := covered t ht
    obtain ⟨id', here'⟩ := covered t' ht'
    dsimp only at same
    rw [number _ _ here, number _ _ here'] at same
    have := List.inj_on_of_nodup_map numbered.numbers here here' same
    exact congrArg Prod.fst this
  · intro t _ id here
    exact number _ _ (numbered.kept _ here)
  · intro t ht unmatched id old
    obtain ⟨new, here⟩ := covered t ht
    dsimp only
    rw [number _ _ here]
    exact (consistent.issued id old).trans_le ((numbered.later _ here).resolve_left (unmatched new))
  · exact (overlapScores_spec consistent.sorted turns).2
  · intro name lo hi apart inside injective same p member
    exact number _ _ (numbered.kept _ (matched_of_relabelled consistent.sorted consistent.long apart inside injective
      same member))

def firstTurns : List (Turn String) := [⟨0, 1, "SPEAKER_00"⟩, ⟨1, 2, "SPEAKER_01"⟩]

def firstHistory : History := ⟨[⟨0, 1, 1⟩, ⟨1, 2, 2⟩], 3⟩

theorem update_firstTurns : emptyHistory.update firstTurns = .ok (firstHistory, firstHistory.turns) := by
  have sorted : sortTurns firstTurns = firstTurns := List.mergeSort_of_pairwise (by decide +kernel)
  have nobody : speakersOf [] = [] := List.mergeSort_nil
  have labels : labelsOf firstTurns = ["SPEAKER_00", "SPEAKER_01"] := by
    unfold labelsOf
    rw [sorted]
    decide +kernel
  unfold History.update matched overlapScores
  simp only [emptyHistory, sorted, nobody, labels]
  rfl

/-- The clustering has exchanged its labels and the second voice has gone on talking. -/
theorem speaker_numbers_stable_exchanged : ∃ (history : History) (number : String → Nat),
    firstHistory.update [⟨0, 1, "SPEAKER_01"⟩, ⟨1, 3, "SPEAKER_00"⟩] = .ok (history, history.turns) ∧
      number "SPEAKER_01" = 1 ∧ number "SPEAKER_00" = 2 := by
  have run : Reachable Session.init Session.step ⟨firstHistory, [] ++ firstHistory.turns.map Turn.label⟩ :=
    .next (.start rfl) ⟨_, _, update_firstTurns, rfl⟩
  obtain ⟨history, number, updated, turns, -, -, -, -, stable⟩ := @speaker_numbers_stable _ run
    [⟨0, 1, "SPEAKER_01"⟩, ⟨1, 3, "SPEAKER_00"⟩] (by decide +kernel)
  have kept := stable (fun id => if id = 1 then "SPEAKER_01" else "SPEAKER_00") 0 2
    (by simp [firstHistory, Apart]) (by decide +kernel) (by decide +kernel) (by decide +kernel)
  refine ⟨history, number, by rw [turns]; exact updated, ?_, ?_⟩
  · exact kept ⟨0, 1, 1⟩ (by decide +kernel)
  · exact kept ⟨1, 2, 2⟩ (by decide +kernel)

end OmiLocal.Speakers
