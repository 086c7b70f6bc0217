import Mathlib

/-!
# The shortest suffix that weighs enough

A bounded window keeps the newest items: it drops from the front while what is
left still reaches the minimum. `window` is that loop and `shortest_window` says
what it keeps.
-/
namespace Lib.Suffix

universe u
variable {α : Type u} (weight : α → Nat)

def total (items : List α) : Nat := (items.map weight).sum

@[simp] theorem total_nil : total weight [] = 0 := rfl

@[simp] theorem total_cons (x : α) (items : List α) :
    total weight (x :: items) = weight x + total weight items := by
  simp [total]

@[simp] theorem total_append (front back : List α) :
    total weight (front ++ back) = total weight front + total weight back := by
  simp [total]

theorem total_suffix_le {part items : List α} (h : part <:+ items) :
    total weight part ≤ total weight items := by
  obtain ⟨front, rfl⟩ := h
  simp

/-- Drop items from the front while the rest still weighs `least`. -/
def window (least : Nat) : List α → List α
  | [] => []
  | x :: rest => if least ≤ total weight rest then window least rest else x :: rest

structure Shortest (least : Nat) (all part : List α) : Prop where
  suffix : part <:+ all
  enough : least ≤ total weight part
  minimal : ∀ other, other <:+ all → least ≤ total weight other → part.length ≤ other.length

variable {weight}

theorem window_suffix (least : Nat) (items : List α) : window weight least items <:+ items := by
  induction items with
  | nil => exact List.suffix_refl []
  | cons x rest ih =>
      rw [window]
      split
      · exact ih.trans (List.suffix_cons x rest)
      · exact List.suffix_refl _

theorem window_enough {least : Nat} {items : List α} (h : least ≤ total weight items) :
    least ≤ total weight (window weight least items) := by
  induction items with
  | nil => exact h
  | cons x rest ih =>
      rw [window]
      split
      · exact ih (by assumption)
      · exact h

/-- What the window keeps weighs less than the minimum without its first item. -/
theorem window_tight {least : Nat} {items : List α} {x : α} {rest : List α}
    (h : window weight least items = x :: rest) : total weight rest < least := by
  induction items with
  | nil => cases h
  | cons y items ih =>
      rw [window] at h
      split at h
      · exact ih h
      · cases h
        omega

theorem window_minimal {least : Nat} {items other : List α} (suffix : other <:+ items)
    (enough : least ≤ total weight other) :
    (window weight least items).length ≤ other.length := by
  cases kept : window weight least items with
  | nil => simp
  | cons x rest =>
      have tight := window_tight kept
      by_contra longer
      have both : other <:+ rest := by
        have inside : x :: rest <:+ items := kept ▸ window_suffix least items
        have shorter : other <:+ x :: rest :=
          List.suffix_of_suffix_length_le suffix inside (by omega)
        rcases List.suffix_cons_iff.mp shorter with rfl | h
        · simp at longer
        · exact h
      have := total_suffix_le weight both
      omega

theorem shortest_window {least : Nat} {items : List α} (h : least ≤ total weight items) :
    Shortest weight least items (window weight least items) :=
  ⟨window_suffix least items, window_enough h, fun _ suffix enough => window_minimal suffix enough⟩

/-- Adding an item and trimming again is trimming the whole history once. -/
theorem window_append (least : Nat) (items : List α) (x : α) :
    window weight least (window weight least items ++ [x]) = window weight least (items ++ [x]) := by
  induction items with
  | nil => rfl
  | cons y items ih =>
      rw [window]
      split
      · rename_i heavy
        rw [ih, List.cons_append, window, if_pos (by simp; omega)]
      · rfl

theorem window_eq_nil {least : Nat} {items : List α} (positive : 0 < least)
    (h : window weight least items = []) : items = [] := by
  induction items with
  | nil => rfl
  | cons y items ih =>
      rw [window] at h
      split at h
      · rename_i heavy
        have := ih h
        subst this
        simp at heavy
        omega
      · cases h

end Lib.Suffix
