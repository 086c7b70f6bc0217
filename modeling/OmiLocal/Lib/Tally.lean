import Mathlib.Algebra.BigOperators.Group.List.Basic
import Mathlib.Algebra.Order.Group.Defs
import Mathlib.Data.List.Find
import OmiLocal.Lib.Bisect
import OmiLocal.Lib.Dict

/-!
# Votes by shared time

Labelled intervals vote for their labels with the time they share with a given one.
The scores are kept in a dictionary, whose keys come in the order of their first
votes, and the first of several greatest scores wins. Of intervals that are sorted
by their starts only a window can share time, and two bisections find it.
-/
namespace Lib.Tally
open Bisect

variable {α κ τ : Type} [DecidableEq κ]

/-! ## The order of first places -/

def firstSeen (l : List κ) : List κ := l.foldl (fun seen x => if x ∈ seen then seen else seen ++ [x]) []

theorem firstSeen_append (l : List κ) (x : κ) :
    firstSeen (l ++ [x]) = if x ∈ firstSeen l then firstSeen l else firstSeen l ++ [x] := by
  unfold firstSeen
  rw [List.foldl_append, List.foldl_cons, List.foldl_nil]

theorem mem_firstSeen {l : List κ} {x : κ} : x ∈ firstSeen l ↔ x ∈ l := by
  induction l using List.reverseRecOn with
  | nil => exact Iff.rfl
  | append_singleton front y ih =>
      rw [firstSeen_append]
      split
      · rename_i seen
        rw [ih, List.mem_append, List.mem_singleton]
        refine ⟨.inl, ?_⟩
        rintro (old | rfl)
        · exact old
        · exact ih.mp seen
      · rw [List.mem_append, List.mem_append, ih]

theorem nodup_firstSeen (l : List κ) : (firstSeen l).Nodup := by
  induction l using List.reverseRecOn with
  | nil => exact List.nodup_nil
  | append_singleton front y ih =>
      rw [firstSeen_append]
      split
      · exact ih
      · rename_i fresh
        refine List.nodup_append.mpr ⟨ih, List.nodup_singleton y, ?_⟩
        intro x member z single
        rw [List.mem_singleton.mp single]
        rintro rfl
        exact fresh member

/-! ## The dictionary of the values of a function -/

def graph (labels : List κ) (f : κ → τ) : List (κ × τ) := labels.map fun label => (label, f label)

omit [DecidableEq κ] in
theorem keys_graph (labels : List κ) (f : κ → τ) : Dict.keys (graph labels f) = labels := by
  simp [Dict.keys, graph, Function.comp_def]

theorem get_graph {labels : List κ} {f : κ → τ} {label : κ} (member : label ∈ labels) :
    Dict.get (graph labels f) label = some (f label) := by
  refine Dict.get_of_forall (List.mem_map_of_mem member) fun x other => ?_
  obtain ⟨l, -, same⟩ := List.mem_map.mp other
  cases same
  rfl

theorem put_graph (labels : List κ) (f : κ → τ) (label : κ) (x : τ) :
    Dict.put (graph labels f) label x =
      graph (if label ∈ labels then labels else labels ++ [label]) (Function.update f label x) := by
  unfold Dict.put
  rw [keys_graph]
  split
  · unfold Dict.change graph
    rw [List.map_map]
    refine List.map_congr_left fun l _ => ?_
    rw [Function.comp_apply]
    dsimp only
    split
    · rename_i same
      rw [same, Function.update_self]
    · rename_i other
      rw [Function.update_of_ne other]
  · rename_i fresh
    unfold graph
    rw [List.map_append, List.map_singleton, Function.update_self]
    congr 1
    refine List.map_congr_left fun l member => ?_
    rw [Function.update_of_ne]
    rintro rfl
    exact fresh member

/-! ## The first of several greatest -/

section Greatest
variable [LinearOrder τ]

def leading : List (κ × τ) → Option κ
  | [] => none
  | first :: rest => some (rest.foldl (fun best e => if best.2 < e.2 then e else best) first).1

/-- The first label that no other exceeds. -/
def firstMaximiser (labels : List κ) (f : κ → τ) : Option κ :=
  labels.find? fun label => labels.all fun other => decide (f other ≤ f label)

omit [DecidableEq κ] in
theorem find_leading (first : κ × τ) (rest : List (κ × τ)) :
    (first :: rest).find? (fun e => (first :: rest).all fun other => decide (other.2 ≤ e.2)) =
      some (rest.foldl (fun best e => if best.2 < e.2 then e else best) first) := by
  induction rest using List.reverseRecOn with
  | nil => simp
  | append_singleton rest e ih =>
      rw [List.foldl_append, List.foldl_cons, List.foldl_nil]
      generalize (rest.foldl (fun best e => if best.2 < e.2 then e else best) first) = best at ih
      have greatest : ∀ x ∈ first :: rest, x.2 ≤ best.2 := by
        have passed := List.find?_some ih
        exact fun x member => of_decide_eq_true (List.all_eq_true.mp passed x member)
      rw [← List.cons_append, List.find?_append]
      split
      · rename_i better
        rw [List.find?_eq_none.mpr, Option.none_or]
        · rw [List.find?_cons_of_pos]
          refine List.all_eq_true.mpr fun x member => decide_eq_true ?_
          rcases List.mem_append.mp member with old | last
          · exact (greatest x old).trans better.le
          · rw [List.mem_singleton.mp last]
        · intro x member all
          have := of_decide_eq_true (List.all_eq_true.mp all e (by simp))
          exact absurd (better.trans_le this) (not_lt.mpr (greatest x member))
      · rename_i worse
        have same : ∀ x ∈ first :: rest, ((first :: rest ++ [e]).all fun other => decide (other.2 ≤ x.2)) =
            (first :: rest).all fun other => decide (other.2 ≤ x.2) := by
          intro x member
          rw [List.all_append]
          by_cases all : ((first :: rest).all fun other => decide (other.2 ≤ x.2)) = true
          · have top : best.2 ≤ x.2 := of_decide_eq_true (List.all_eq_true.mp all best (List.mem_of_find?_eq_some ih))
            simp [all, (not_lt.mp worse).trans top]
          · rw [Bool.not_eq_true] at all
            rw [all, Bool.false_and]
        rw [List.find?_congr same, ih, Option.some_or]

omit [DecidableEq κ] in
theorem leading_graph (labels : List κ) (f : κ → τ) : leading (graph labels f) = firstMaximiser labels f := by
  cases labels with
  | nil => rfl
  | cons label rest =>
      have pick : firstMaximiser (label :: rest) f =
          ((graph (label :: rest) f).find? fun e => (graph (label :: rest) f).all fun other =>
            decide (other.2 ≤ e.2)).map Prod.fst := by
        unfold firstMaximiser graph
        rw [List.find?_map, Option.map_map]
        simp [Function.comp_def]
      rw [pick]
      exact (congrArg (Option.map Prod.fst) (find_leading (label, f label) (graph rest f))).symm

end Greatest

/-! ## The votes -/

section Votes
variable [AddCommGroup τ] [LinearOrder τ]

/-- `scores[label] = scores.get(label, 0) + weight`, unless the weight is nothing. -/
def cast (scores : List (κ × τ)) (ballot : κ × τ) : List (κ × τ) :=
  if ballot.2 = 0 then scores else Dict.put scores ballot.1 ((Dict.get scores ballot.1).getD 0 + ballot.2)

def total (ballots : List (κ × τ)) (label : κ) : τ := ((ballots.filter fun b => decide (b.1 = label)).map Prod.snd).sum

def voters (ballots : List (κ × τ)) : List κ := firstSeen ((ballots.filter fun b => decide (b.2 ≠ 0)).map Prod.fst)

theorem foldl_cast_filter (ballots : List (κ × τ)) (scores : List (κ × τ)) :
    ballots.foldl cast scores = (ballots.filter fun b => decide (b.2 ≠ 0)).foldl cast scores := by
  induction ballots generalizing scores with
  | nil => rfl
  | cons b rest ih =>
      rw [List.foldl_cons, ih]
      by_cases none : b.2 = 0
      · rw [List.filter_cons_of_neg (by simp [none])]
        unfold cast
        rw [if_pos none]
      · rw [List.filter_cons_of_pos (by simp [none]), List.foldl_cons]

omit [LinearOrder τ] in
theorem total_append (ballots : List (κ × τ)) (b : κ × τ) (label : κ) :
    total (ballots ++ [b]) label = total ballots label + if b.1 = label then b.2 else 0 := by
  unfold total
  rw [List.filter_append, List.map_append, List.sum_append]
  congr 1
  split
  · rename_i same
    simp [same]
  · rename_i other
    simp [other]

theorem total_of_not_voter {ballots : List (κ × τ)} {label : κ} (silent : label ∉ voters ballots) :
    total ballots label = 0 := by
  refine List.sum_eq_zero fun x member => ?_
  obtain ⟨b, inside, rfl⟩ := List.mem_map.mp member
  obtain ⟨here, same⟩ := List.mem_filter.mp inside
  by_contra some
  refine silent (mem_firstSeen.mpr ?_)
  rw [← of_decide_eq_true same]
  exact List.mem_map_of_mem (List.mem_filter.mpr ⟨here, decide_eq_true some⟩)

theorem foldl_cast (ballots : List (κ × τ)) : ballots.foldl cast [] = graph (voters ballots) (total ballots) := by
  induction ballots using List.reverseRecOn with
  | nil => rfl
  | append_singleton front b ih =>
      rw [List.foldl_append, List.foldl_cons, List.foldl_nil, ih]
      unfold cast
      by_cases none : b.2 = 0
      · have same : total (front ++ [b]) = total front := by
          funext label
          rw [total_append, none, ite_self, add_zero]
        rw [if_pos none, same]
        simp [voters, none]
      · have later : total (front ++ [b]) = Function.update (total front) b.1 (total front b.1 + b.2) := by
          funext label
          rw [total_append]
          by_cases same : b.1 = label
          · rw [if_pos same, ← same, Function.update_self]
          · rw [if_neg same, Function.update_of_ne (Ne.symm same), add_zero]
        have before : (Dict.get (graph (voters front) (total front)) b.1).getD 0 = total front b.1 := by
          by_cases known : b.1 ∈ voters front
          · rw [get_graph known]
            rfl
          · rw [Dict.get_of_not_mem (by rw [keys_graph]; exact known), total_of_not_voter known]
            rfl
        have more : voters (front ++ [b]) = if b.1 ∈ voters front then voters front else voters front ++ [b.1] := by
          unfold voters
          rw [List.filter_append, List.filter_cons_of_pos (by simp [none]), List.filter_nil, List.map_append,
            List.map_singleton, firstSeen_append]
        rw [if_neg none, before, put_graph, later, more]

/-- The winner is the first label of greatest total. -/
theorem leading_cast (ballots : List (κ × τ)) :
    leading (ballots.foldl cast []) = firstMaximiser (voters ballots) (total ballots) := by
  rw [foldl_cast, leading_graph]

end Votes

/-! ## The window -/

omit [DecidableEq κ] in
theorem filter_window {p : α → Bool} {l : List α} {m n : Nat} (front : ∀ x ∈ l.take m, p x = false)
    (back : ∀ x ∈ l.drop n, p x = false) : ((l.take n).drop m).filter p = l.filter p := by
  have behind : (l.drop n).filter p = [] := List.filter_eq_nil_iff.mpr fun x member => by simp [back x member]
  have ahead : ((l.take n).take m).filter p = [] := by
    refine List.filter_eq_nil_iff.mpr fun x member => ?_
    rw [List.take_take, min_comm, ← List.take_take] at member
    simp [front x (List.mem_of_mem_take member)]
  calc ((l.take n).drop m).filter p
      = ((l.take n).take m).filter p ++ ((l.take n).drop m).filter p := by rw [ahead, List.nil_append]
    _ = (l.take n).filter p := by rw [← List.filter_append, List.take_append_drop]
    _ = (l.take n).filter p ++ (l.drop n).filter p := by rw [behind, List.append_nil]
    _ = l.filter p := by rw [← List.filter_append, List.take_append_drop]

section Window
variable [LinearOrder τ]

/-- The greatest stop up to each interval. -/
def runningMax : Option τ → List τ → List τ
  | _, [] => []
  | last, t :: rest => last.elim t (max t) :: runningMax (some (last.elim t (max t))) rest

theorem le_of_mem_runningMax {stops : List τ} {last x : τ} (member : x ∈ runningMax (some last) stops) : last ≤ x := by
  induction stops generalizing last with
  | nil => cases member
  | cons t rest ih =>
      rcases List.mem_cons.mp member with rfl | later
      · exact le_max_right _ _
      · exact (le_max_right t last).trans (ih later)

theorem runningMax_ascending (last : Option τ) (stops : List τ) : (runningMax last stops).Pairwise (· ≤ ·) := by
  induction stops generalizing last with
  | nil => exact List.Pairwise.nil
  | cons t rest ih => exact List.pairwise_cons.mpr ⟨fun _ member => le_of_mem_runningMax member, ih _⟩

theorem le_runningMax (last : Option τ) (t : τ) : t ≤ last.elim t (max t) := by
  cases last with
  | none => exact le_refl _
  | some last => exact le_max_left _ _

/-- Every interval before the window has ended. -/
theorem ended_before (stop : α → τ) (a : τ) {l : List α} {last : Option τ} {t : α}
    (member : t ∈ l.take (bisectRight (runningMax last (l.map stop)) a)) : stop t ≤ a := by
  induction l generalizing last with
  | nil => simp at member
  | cons first rest ih =>
      rw [List.map_cons] at member
      unfold bisectRight runningMax at member
      rw [List.takeWhile_cons] at member
      split at member
      · rename_i passed
        rw [List.length_cons, List.take_succ_cons] at member
        rcases List.mem_cons.mp member with rfl | later
        · exact (le_runningMax last _).trans (of_decide_eq_true passed)
        · exact ih later
      · cases member

/-- No interval behind the window has begun. -/
theorem begun_after (start : α → τ) (b : τ) {l : List α} (ascending : (l.map start).Pairwise (· ≤ ·)) {t : α}
    (member : t ∈ l.drop (bisectLeft (l.map start) b)) : b ≤ start t := by
  induction l with
  | nil => simp at member
  | cons first rest ih =>
      obtain ⟨least, later⟩ := List.pairwise_cons.mp ascending
      unfold bisectLeft at member
      rw [List.map_cons, List.takeWhile_cons] at member
      split at member
      · rw [List.length_cons, List.drop_succ_cons] at member
        exact ih later member
      · rename_i reached
        have bound : b ≤ start first := not_lt.mp (by simpa using reached)
        rcases List.mem_cons.mp member with rfl | after
        · exact bound
        · exact bound.trans (least _ (List.mem_map_of_mem after))

variable [AddCommGroup τ]

/-- The time that `[a, b]` and `[c, d]` share. -/
def overlap (a b c d : τ) : τ := max 0 (min b d - max a c)

def ballot (label : α → κ) (start stop : α → τ) (a b : τ) (t : α) : κ × τ := (label t, overlap a b (start t) (stop t))

variable [IsOrderedAddMonoid τ]

theorem overlap_of_ended {a c d : τ} (b : τ) (ended : d ≤ a) : overlap a b c d = 0 := by
  have short : min b d ≤ max a c := (min_le_right _ _).trans (ended.trans (le_max_left _ _))
  exact max_eq_left (sub_nonpos.mpr short)

theorem overlap_of_after (a : τ) {b c : τ} (d : τ) (after : b ≤ c) : overlap a b c d = 0 := by
  have short : min b d ≤ max a c := (min_le_left _ _).trans (after.trans (le_max_right _ _))
  exact max_eq_left (sub_nonpos.mpr short)

/-- The votes of the window are the votes of all. -/
theorem foldl_window (label : α → κ) (start stop : α → τ) (a b : τ) {l : List α}
    (ascending : (l.map start).Pairwise (· ≤ ·)) :
    (((l.take (bisectLeft (l.map start) b)).drop (bisectRight (runningMax none (l.map stop)) a)).map
        (ballot label start stop a b)).foldl cast [] =
      (l.map (ballot label start stop a b)).foldl cast [] := by
  rw [foldl_cast_filter, foldl_cast_filter (l.map _), List.filter_map, List.filter_map, filter_window]
  · intro t member
    simp [ballot, overlap_of_ended b (ended_before stop a member)]
  · intro t member
    simp [ballot, overlap_of_after a (stop t) (begun_after start b ascending member)]

end Window

end Lib.Tally
