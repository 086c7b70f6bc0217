import Mathlib.Data.List.Basic

/-!
# Slices at a position

What stands at a position of a sequence. A reader that walks over an encoding
finds one field after the other there; `append` moves it past the first.
-/
namespace Lib.Slices

universe u
variable {α : Type u} {data xs ys : List α} {pos : Int} {x : α}

/-- `slice` stands in `data` from `pos` on. -/
def Stands (data : List α) (pos : Int) (slice : List α) : Prop :=
  ∃ before after, data = before ++ slice ++ after ∧ (before.length : Int) = pos

theorem Stands.whole (data : List α) : Stands data 0 data := ⟨[], [], (List.append_nil data).symm, rfl⟩

theorem Stands.nonneg (stands : Stands data pos xs) : 0 ≤ pos := by
  obtain ⟨before, after, rfl, rfl⟩ := stands
  exact Int.natCast_nonneg _

theorem Stands.le_length (stands : Stands data pos xs) : pos + xs.length ≤ data.length := by
  obtain ⟨before, after, rfl, rfl⟩ := stands
  rw [List.length_append, List.length_append]
  omega

theorem Stands.left (stands : Stands data pos (xs ++ ys)) : Stands data pos xs := by
  obtain ⟨before, after, rfl, rfl⟩ := stands
  exact ⟨before, ys ++ after, by simp only [List.append_assoc], rfl⟩

theorem Stands.right (stands : Stands data pos (xs ++ ys)) : Stands data (pos + xs.length) ys := by
  obtain ⟨before, after, rfl, rfl⟩ := stands
  exact ⟨before ++ xs, after, by simp only [List.append_assoc], by rw [List.length_append, Int.natCast_add]⟩

theorem Stands.tail (stands : Stands data pos (x :: xs)) : Stands data (pos + 1) xs := by
  have here : Stands data pos ([x] ++ xs) := stands
  exact here.right

theorem Stands.drop (stands : Stands data pos xs) : ∃ after, data.drop pos.toNat = xs ++ after := by
  obtain ⟨before, after, rfl, rfl⟩ := stands
  exact ⟨after, by rw [Int.toNat_natCast, List.append_assoc, List.drop_left]⟩

theorem Stands.getElem? (stands : Stands data pos (x :: xs)) : data[pos.toNat]? = some x := by
  obtain ⟨after, rest⟩ := stands.drop
  rw [← List.head?_drop, rest]
  rfl

theorem Stands.take (stands : Stands data pos xs) : (data.drop pos.toNat).take xs.length = xs := by
  obtain ⟨after, rest⟩ := stands.drop
  rw [rest, List.take_left]

end Lib.Slices
