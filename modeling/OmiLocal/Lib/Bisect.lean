import Mathlib.Order.Lattice
import Mathlib.Data.List.TakeWhile

/-!
# The insertion point to the right

`bisectRight marks t` is the number of leading marks that are at most `t`: in an
ascending list every later mark is above `t`.
-/
namespace Lib.Bisect

universe u
variable {α : Type u} [LinearOrder α]

def bisectRight (marks : List α) (t : α) : Nat :=
  (marks.takeWhile (fun mark => decide (mark ≤ t))).length

theorem bisectRight_of_forall_le {marks : List α} {t : α} (passed : ∀ mark ∈ marks, mark ≤ t) :
    bisectRight marks t = marks.length := by
  rw [bisectRight, List.takeWhile_eq_self_iff.mpr]
  intro mark h
  exact decide_eq_true (passed mark h)

theorem bisectRight_append_of_lt {marks : List α} {t new : α} (ahead : t < new) :
    bisectRight (marks ++ [new]) t = bisectRight marks t := by
  induction marks with
  | nil => simp [bisectRight, not_le.mpr ahead]
  | cons mark rest ih =>
      unfold bisectRight at ih ⊢
      rw [List.cons_append, List.takeWhile_cons, List.takeWhile_cons]
      split
      · rw [List.length_cons, List.length_cons, ih]
      · rfl

theorem bisectRight_le_length (marks : List α) (t : α) : bisectRight marks t ≤ marks.length := by
  exact (List.takeWhile_prefix _).length_le

theorem bisectRight_mono (marks : List α) {s t : α} (le : s ≤ t) : bisectRight marks s ≤ bisectRight marks t := by
  unfold bisectRight
  induction marks with
  | nil => exact le_refl _
  | cons mark rest ih =>
      rw [List.takeWhile_cons, List.takeWhile_cons]
      by_cases passed : mark ≤ s
      · rw [decide_eq_true passed, decide_eq_true (passed.trans le)]
        exact Nat.succ_le_succ ih
      · rw [decide_eq_false passed]
        exact Nat.zero_le _

def bisectLeft (marks : List α) (t : α) : Nat :=
  (marks.takeWhile (fun mark => decide (mark < t))).length

/-! ## The search by halving -/

/-- The first index from `lo` to `hi` that has not passed; `fuel` bounds the halvings. -/
def halve (passed : Nat → Bool) : Nat → Nat → Nat → Nat
  | 0, lo, _ => lo
  | fuel + 1, lo, hi =>
      if lo < hi then
        if passed ((lo + hi) / 2) then halve passed fuel ((lo + hi) / 2 + 1) hi
        else halve passed fuel lo ((lo + hi) / 2)
      else lo

theorem halve_eq {passed : Nat → Bool} {k : Nat} (fuel : Nat) {lo hi : Nat}
    (boundary : ∀ i < hi, passed i = true ↔ i < k) (low : lo ≤ k) (high : k ≤ hi) (enough : hi - lo ≤ fuel) :
    halve passed fuel lo hi = k := by
  induction fuel generalizing lo hi with
  | zero =>
      unfold halve
      omega
  | succ fuel ih =>
      unfold halve
      split
      · rename_i open_
        have middle := boundary ((lo + hi) / 2) (by omega)
        split
        · rename_i before
          have := middle.mp before
          exact ih boundary (by omega) high (by omega)
        · rename_i after
          have : ¬ (lo + hi) / 2 < k := fun h => after (middle.mpr h)
          exact ih (fun i h => boundary i (by omega)) low (by omega) (by omega)
      · omega

/-- `bisect` over a list: the number of leading elements that pass. -/
def searchBy (passes : α → Bool) (marks : List α) : Nat :=
  halve (fun i => (marks[i]?).elim false passes) marks.length 0 marks.length

omit [LinearOrder α] in
theorem searchBy_eq {passes : α → Bool} {marks : List α}
    (leading : marks.Pairwise fun a b => passes b = true → passes a = true) :
    searchBy passes marks = (marks.takeWhile passes).length := by
  refine halve_eq marks.length ?_ (Nat.zero_le _) (List.takeWhile_prefix _).length_le (by omega)
  intro i inside
  induction marks generalizing i with
  | nil => cases inside
  | cons mark rest ih =>
      obtain ⟨first, later⟩ := List.pairwise_cons.mp leading
      rw [List.takeWhile_cons]
      by_cases here : passes mark = true
      · rw [if_pos here, List.length_cons]
        cases i with
        | zero => simp [here]
        | succ i =>
            rw [List.getElem?_cons_succ, Nat.add_lt_add_iff_right]
            exact ih later i (Nat.lt_of_succ_lt_succ inside)
      · rw [if_neg here]
        refine iff_of_false ?_ (Nat.not_lt_zero _)
        intro passed
        cases i with
        | zero => exact here (by simpa using passed)
        | succ i =>
            have bound : i < rest.length := Nat.lt_of_succ_lt_succ inside
            rw [List.getElem?_cons_succ, List.getElem?_eq_getElem bound] at passed
            exact here (first _ (List.getElem_mem bound) passed)

def searchRight (marks : List α) (t : α) : Nat := searchBy (fun mark => decide (mark ≤ t)) marks

def searchLeft (marks : List α) (t : α) : Nat := searchBy (fun mark => decide (mark < t)) marks

theorem searchRight_eq {marks : List α} (ascending : marks.Pairwise (· ≤ ·)) (t : α) :
    searchRight marks t = bisectRight marks t := by
  refine searchBy_eq (ascending.imp fun below passed => ?_)
  exact decide_eq_true (below.trans (of_decide_eq_true passed))

theorem searchLeft_eq {marks : List α} (ascending : marks.Pairwise (· ≤ ·)) (t : α) :
    searchLeft marks t = bisectLeft marks t := by
  refine searchBy_eq (ascending.imp fun below passed => ?_)
  exact decide_eq_true (below.trans_lt (of_decide_eq_true passed))

end Lib.Bisect
