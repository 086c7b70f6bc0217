import Mathlib.Logic.Relation

/-!
# Runs of a labelled transition relation

A state is reachable when a finite run leads to it from an initial state. Every
safety result below this layer is an invariant: true initially and kept by each
step. Later-state results use `Reaches`, the finite runs from a given state.
-/
namespace Lib.Transition

universe u v
variable {σ : Type u} {α : Type v}

inductive Reachable (init : σ → Prop) (step : σ → α → σ → Prop) : σ → Prop
  | start {s : σ} : init s → Reachable init step s
  | next {s t : σ} {a : α} : Reachable init step s → step s a t → Reachable init step t

def Reaches (step : σ → α → σ → Prop) : σ → σ → Prop :=
  Relation.ReflTransGen (fun s t => ∃ a, step s a t)

variable {init : σ → Prop} {step : σ → α → σ → Prop}

theorem Reachable.invariant {I : σ → Prop} (initial : ∀ s, init s → I s)
    (preserved : ∀ s a t, I s → step s a t → I t) {s : σ}
    (reachable : Reachable init step s) : I s := by
  induction reachable with
  | start h => exact initial _ h
  | next _ h ih => exact preserved _ _ _ ih h

theorem Reachable.after {s t : σ} (reachable : Reachable init step s)
    (run : Reaches step s t) : Reachable init step t := by
  induction run with
  | refl => exact reachable
  | tail _ h ih =>
      obtain ⟨a, h⟩ := h
      exact ih.next h

/-- The run of a list of actions of an executable step function. -/
theorem Reachable.actions {f : σ → α → Option σ} {actions : List α}
    (each : ∀ a ∈ actions, ∀ s t, f s a = some t → step s a t) {s t : σ} (reachable : Reachable init step s)
    (done : actions.foldlM f s = some t) : Reachable init step t := by
  induction actions generalizing s with
  | nil =>
      cases done
      exact reachable
  | cons a actions ih =>
      rw [List.foldlM_cons] at done
      obtain ⟨next, first, rest⟩ := Option.bind_eq_some_iff.mp done
      exact ih (fun b h => each b (List.mem_cons_of_mem _ h)) (reachable.next (each a List.mem_cons_self s next first)) rest

theorem Reaches.stable {P : σ → Prop} (preserved : ∀ s a t, P s → step s a t → P t)
    {s t : σ} (run : Reaches step s t) (h : P s) : P t := by
  induction run with
  | refl => exact h
  | tail _ last ih =>
      obtain ⟨a, last⟩ := last
      exact preserved _ _ _ ih last

end Lib.Transition
