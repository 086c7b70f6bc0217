import Mathlib.Data.List.Forall2

/-!
# Computations that may raise

Inversion of a sequence or a loop that returned: each of its parts returned.
-/
namespace Lib.Fallible

universe u
variable {ε : Type u} {α β : Type u}

theorem bind_ok {x : Except ε α} {f : α → Except ε β} {b : β} (done : (x >>= f) = .ok b) :
    ∃ a, x = .ok a ∧ f a = .ok b := by
  cases x with
  | error e => cases done
  | ok a => exact ⟨a, rfl, done⟩

theorem ok_bind {x : Except ε α} {f : α → Except ε β} {a : α} {b : β} (first : x = .ok a) (rest : f a = .ok b) :
    (x >>= f) = .ok b := by
  rw [first]
  exact rest

section Unless
variable {ε' β' : Type} {wrong : Prop} [Decidable wrong] {error : ε'} {rest : Unit → Except ε' β'} {b : β'}

/-- `if wrong: raise error` before the rest of a computation. -/
theorem unless_ok (done : (if wrong then (Except.error error >>= rest) else rest ()) = .ok b) :
    ¬wrong ∧ rest () = .ok b := by
  split at done
  · cases done
  · rename_i right
    exact ⟨right, done⟩

theorem ok_unless (right : ¬wrong) (done : rest () = .ok b) :
    (if wrong then (Except.error error >>= rest) else rest ()) = .ok b := by
  rw [if_neg right]
  exact done

end Unless

/-- A value that is computed in one of two ways, before the rest of a computation. -/
theorem choice_ok {c : Prop} [Decidable c] {x y : Except ε α} {rest : α → Except ε β} {b : β}
    (done : (if c then (x >>= rest) else (y >>= rest)) = .ok b) :
    ∃ a, (if c then x else y) = .ok a ∧ rest a = .ok b := by
  split at done
  · rename_i yes
    rw [if_pos yes]
    exact bind_ok done
  · rename_i no
    rw [if_neg no]
    exact bind_ok done

theorem ok_choice {c : Prop} [Decidable c] {x y : Except ε α} {rest : α → Except ε β} {a : α} {b : β}
    (first : (if c then x else y) = .ok a) (done : rest a = .ok b) :
    (if c then (x >>= rest) else (y >>= rest)) = .ok b := by
  split at first
  · rename_i yes
    rw [if_pos yes]
    exact ok_bind first done
  · rename_i no
    rw [if_neg no]
    exact ok_bind first done

theorem map_ok {x : Except ε α} {f : α → β} {b : β} (done : x.map f = .ok b) : ∃ a, x = .ok a ∧ f a = b := by
  cases x with
  | error e => cases done
  | ok a => exact ⟨a, rfl, Except.ok.inj done⟩

theorem mapM_ok {f : α → Except ε β} {xs : List α} {ys : List β} (done : xs.mapM f = .ok ys) :
    List.Forall₂ (fun x y => f x = .ok y) xs ys := by
  induction xs generalizing ys with
  | nil =>
      cases done
      exact .nil
  | cons x rest ih =>
      rw [List.mapM_cons] at done
      obtain ⟨y, first, done⟩ := bind_ok done
      obtain ⟨others, later, done⟩ := bind_ok done
      cases done
      exact .cons first (ih later)

theorem mapM_total {f : α → Except ε β} {xs : List α} (each : ∀ x ∈ xs, ∃ y, f x = .ok y) :
    ∃ ys, xs.mapM f = .ok ys := by
  induction xs with
  | nil => exact ⟨[], rfl⟩
  | cons x rest ih =>
      obtain ⟨y, first⟩ := each x List.mem_cons_self
      obtain ⟨ys, later⟩ := ih fun x member => each x (List.mem_cons_of_mem _ member)
      refine ⟨y :: ys, ?_⟩
      rw [List.mapM_cons, first, later]
      rfl

theorem mapM_map {f : α → Except ε β} {g : α → β} {xs : List α} (each : ∀ x ∈ xs, f x = .ok (g x)) :
    xs.mapM f = .ok (xs.map g) := by
  induction xs with
  | nil => rfl
  | cons x rest ih =>
      rw [List.mapM_cons, each x List.mem_cons_self, ih fun y member => each y (List.mem_cons_of_mem _ member)]
      rfl

theorem foldlM_foldl {f : β → α → Except ε β} {g : β → α → β} {xs : List α} (each : ∀ x ∈ xs, ∀ b, f b x = .ok (g b x))
    (b : β) : xs.foldlM f b = .ok (xs.foldl g b) := by
  induction xs generalizing b with
  | nil => rfl
  | cons x rest ih =>
      rw [List.foldlM_cons, each x List.mem_cons_self]
      exact ih (fun y member => each y (List.mem_cons_of_mem _ member)) (g b x)

theorem filterM_filter {ε γ : Type} {f : γ → Except ε Bool} {g : γ → Bool} {xs : List γ} (each : ∀ x ∈ xs, f x = .ok (g x)) :
    xs.filterM f = .ok (xs.filter g) := by
  have loop (kept : List γ) : List.filterAuxM f xs kept = .ok ((xs.filter g).reverse ++ kept) := by
    induction xs generalizing kept with
    | nil => rfl
    | cons x rest ih =>
        have rest := ih fun y member => each y (List.mem_cons_of_mem _ member)
        unfold List.filterAuxM
        rw [each x List.mem_cons_self]
        cases here : g x with
        | false =>
            rw [List.filter_cons_of_neg (by simp [here])]
            exact rest kept
        | true =>
            rw [List.filter_cons_of_pos here, List.reverse_cons, List.append_assoc]
            exact rest (x :: kept)
  unfold List.filterM
  rw [loop, List.append_nil]
  change Except.ok (xs.filter g).reverse.reverse = _
  rw [List.reverse_reverse]

theorem mem_of_mapM {f : α → Except ε β} {xs : List α} {ys : List β} (done : xs.mapM f = .ok ys) {y : β}
    (member : y ∈ ys) : ∃ x ∈ xs, f x = .ok y := by
  have each := mapM_ok done
  clear done
  induction each with
  | nil => cases member
  | cons first later ih =>
      rcases List.mem_cons.mp member with rfl | inside
      · exact ⟨_, List.mem_cons_self, first⟩
      · obtain ⟨x, found, made⟩ := ih inside
        exact ⟨x, List.mem_cons_of_mem _ found, made⟩

theorem map_mapM {f : α → Except ε β} {xs : List α} {ys : List β} {γ : Type u} {g : β → γ} {h : α → γ}
    (done : xs.mapM f = .ok ys) (same : ∀ x y, f x = .ok y → g y = h x) : ys.map g = xs.map h := by
  have each := mapM_ok done
  clear done
  induction each with
  | nil => rfl
  | cons first later ih => rw [List.map_cons, List.map_cons, ih, same _ _ first]

end Lib.Fallible
