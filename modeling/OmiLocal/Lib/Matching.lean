import Mathlib.Algebra.Order.BigOperators.Group.Finset
import Mathlib.Data.Fintype.Card
import Mathlib.Data.Fintype.BigOperators

/-!
# Assignments and potentials

Weak duality of the assignment problem: an assignment whose edges are tight for
feasible potentials, with nothing on the free columns, has the least cost.
-/
namespace Lib.Matching
open Finset

variable {ι κ R : Type*} [Fintype ι] [Fintype κ] [AddCommGroup R]

theorem sum_eq_sum_of_free {v : κ → R} {a : ι → κ} (injective : Function.Injective a)
    (free : ∀ j, (∀ i, a i ≠ j) → v j = 0) : ∑ i, v (a i) = ∑ j, v j := by
  classical
  have image : ∑ i, v (a i) = ∑ j ∈ univ.image a, v j := (sum_image fun i _ k _ h => injective h).symm
  rw [image]
  refine sum_subset (subset_univ _) fun j _ outside => free j fun i same => outside ?_
  exact mem_image.mpr ⟨i, mem_univ i, same⟩

variable [LinearOrder R] [IsOrderedAddMonoid R]

/-- Nonpositive values sum to no less over part of the columns. -/
theorem sum_le_sum_injective {v : κ → R} (nonpos : ∀ j, v j ≤ 0) {b : ι → κ} (injective : Function.Injective b) :
    ∑ j, v j ≤ ∑ i, v (b i) := by
  classical
  have image : ∑ i, v (b i) = ∑ j ∈ univ.image b, v j := (sum_image fun i _ k _ h => injective h).symm
  rw [image, ← sum_add_sum_compl (univ.image b) v]
  have rest : ∑ j ∈ (univ.image b)ᶜ, v j ≤ 0 := sum_nonpos fun j _ => nonpos j
  exact add_le_of_nonpos_right rest

theorem cost_le_of_potentials {c : ι → κ → R} {u : ι → R} {v : κ → R}
    (feasible : ∀ i j, u i + v j ≤ c i j) (nonpos : ∀ j, v j ≤ 0) {a b : ι → κ}
    (ha : Function.Injective a) (hb : Function.Injective b)
    (tight : ∀ i, u i + v (a i) = c i (a i)) (free : ∀ j, (∀ i, a i ≠ j) → v j = 0) :
    ∑ i, c i (a i) ≤ ∑ i, c i (b i) := by
  calc ∑ i, c i (a i) = ∑ i, (u i + v (a i)) := sum_congr rfl fun i _ => (tight i).symm
    _ = ∑ i, u i + ∑ j, v j := by rw [sum_add_distrib, sum_eq_sum_of_free ha free]
    _ ≤ ∑ i, u i + ∑ i, v (b i) := by gcongr; exact sum_le_sum_injective nonpos hb
    _ = ∑ i, (u i + v (b i)) := sum_add_distrib.symm
    _ ≤ ∑ i, c i (b i) := sum_le_sum fun i _ => feasible i (b i)

end Lib.Matching
