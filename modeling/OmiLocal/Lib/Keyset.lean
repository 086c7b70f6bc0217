import Mathlib.Data.List.Basic
import Mathlib.Data.List.Sort
import Mathlib.Order.Basic

/-!
# Keyset pages

A page is what comes behind a key in a list that is ordered by its keys. The
page behind the last key of a page is its continuation.
-/
namespace Lib.Keyset

universe u v
variable {α : Type u} {κ : Type v} [LinearOrder κ] (key : α → κ)

def sortedBy (xs : List α) : List α := xs.insertionSort fun a b => key a ≤ key b

/-- The elements strictly behind `after`. -/
def behind (xs : List α) (after : Option κ) : List α := xs.filter fun x => after.all fun k => decide (k < key x)

theorem sortedBy_perm (xs : List α) : (sortedBy key xs).Perm xs := List.perm_insertionSort _ xs

theorem sortedBy_sorted (xs : List α) : (sortedBy key xs).Pairwise fun a b => key a ≤ key b := by
  have : Std.Total fun a b : α => key a ≤ key b := ⟨fun a b => le_total (key a) (key b)⟩
  have : IsTrans α fun a b => key a ≤ key b := ⟨fun _ _ _ first second => first.trans second⟩
  exact List.pairwise_insertionSort _ xs

/-- Sorting by keys that are distinct is strict. -/
theorem sortedBy_strict {xs : List α} (distinct : (xs.map key).Nodup) : (sortedBy key xs).Pairwise fun a b => key a < key b := by
  have apart : (sortedBy key xs).Pairwise fun a b => key a ≠ key b :=
    List.pairwise_map.mp (((sortedBy_perm key xs).map key).nodup_iff.mpr distinct)
  exact ((sortedBy_sorted key xs).and apart).imp fun h => lt_of_le_of_ne h.1 h.2

variable {key}

theorem mem_behind {xs : List α} {after : Option κ} {x : α} :
    x ∈ behind key xs after ↔ x ∈ xs ∧ ∀ k ∈ after, k < key x := by
  unfold behind
  rw [List.mem_filter]
  cases after <;> simp

theorem behind_sorted {xs : List α} (sorted : xs.Pairwise fun a b => key a < key b) (after : Option κ) :
    (behind key xs after).Pairwise fun a b => key a < key b := sorted.filter _

/-- What is behind an element of a page follows it on the page. -/
theorem behind_next {xs front back : List α} {after : Option κ} {x : α} (sorted : xs.Pairwise fun a b => key a < key b)
    (page : behind key xs after = front ++ x :: back) : behind key xs (some (key x)) = back := by
  have inside : x ∈ behind key xs after := by
    rw [page]
    exact List.mem_append_right _ List.mem_cons_self
  have later : ∀ k ∈ after, k < key x := (mem_behind.mp inside).2
  have narrower : behind key xs (some (key x)) = (behind key xs after).filter fun y => decide (key x < key y) := by
    unfold behind
    rw [List.filter_filter]
    refine List.filter_congr fun y _ => ?_
    cases after with
    | none => simp
    | some k =>
        have less : k < key x := later k rfl
        by_cases next : key x < key y
        · simp [next, less.trans next]
        · simp [next]
  have ordered := behind_sorted sorted after
  rw [page, List.pairwise_append, List.pairwise_cons] at ordered
  obtain ⟨-, ⟨above, -⟩, below⟩ := ordered
  rw [narrower, page, List.filter_append, List.filter_cons_of_neg (by simp), List.filter_eq_nil_iff.mpr, List.nil_append,
    List.filter_eq_self.mpr fun y member => decide_eq_true (above y member)]
  intro y member
  simpa using (below y member x List.mem_cons_self).le

/-- A page that is not the last one is continued behind its last element. -/
theorem behind_page {xs : List α} {after : Option κ} (sorted : xs.Pairwise fun a b => key a < key b) {n : Nat} {x : α}
    (last : ((behind key xs after).take n).getLast? = some x) :
    behind key xs (some (key x)) = (behind key xs after).drop n := by
  obtain ⟨front, page⟩ := List.getLast?_eq_some_iff.mp last
  have whole : behind key xs after = front ++ x :: (behind key xs after).drop n := by
    conv_lhs => rw [← List.take_append_drop n (behind key xs after), page, List.append_assoc]
    rfl
  exact behind_next sorted whole

/-- What is behind a key is on its page, or the page is full and it is behind the last element of that page. -/
theorem page_or_behind {xs : List α} {after : Option κ} (sorted : xs.Pairwise fun a b => key a < key b) {n : Nat}
    {x last : α} (found : ((behind key xs after).take n).getLast? = some last) (member : x ∈ behind key xs after) :
    x ∈ (behind key xs after).take n ∨ ((behind key xs after).take n).length = n ∧ key last < key x := by
  rw [← List.take_append_drop n (behind key xs after)] at member
  rcases List.mem_append.mp member with here | later
  · exact .inl here
  · have more : n < (behind key xs after).length := by
      have := List.length_pos_of_mem later
      rw [List.length_drop] at this
      omega
    rw [← behind_page sorted found] at later
    exact .inr ⟨List.length_take_of_le more.le, (mem_behind.mp later).2 _ rfl⟩

/-! ## Merges -/

section Merges
variable {le : α → α → Bool} {x y : α} {xs ys : List α}

theorem merge_left (first : ∀ y ∈ ys.head?, le x y = true) : List.merge (x :: xs) ys le = x :: List.merge xs ys le := by
  cases ys with
  | nil => rw [List.merge_right, List.merge_right]
  | cons y ys => exact List.cons_merge_cons_pos le xs ys (first y rfl)

theorem merge_right (first : ∀ x ∈ xs.head?, le x y = false) : List.merge xs (y :: ys) le = y :: List.merge xs ys le := by
  cases xs with
  | nil => rw [List.nil_merge, List.nil_merge]
  | cons x xs => exact List.cons_merge_cons_neg le xs ys (by rw [first x rfl]; exact Bool.false_ne_true)

end Merges
end Lib.Keyset
