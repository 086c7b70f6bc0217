import Mathlib.Data.Option.Basic

/-!
# Loops that may not end

A pass over a loop's body goes on with a new state or leaves with a result. A
loop is run for a number of passes; it does not end when no number is enough.
-/
namespace Lib.Loop

universe u v
variable {σ : Type u} {ρ : Type v}

inductive Turn (σ : Type u) (ρ : Type v) where
  | again (state : σ)
  | leave (result : ρ)

/-- `none`: still running after `fuel` passes. A body is `none` when a loop inside it still runs. -/
def run (body : σ → Option (Turn σ ρ)) : Nat → σ → Option ρ
  | 0, _ => none
  | fuel + 1, s =>
      match body s with
      | none => none
      | some (.again t) => run body fuel t
      | some (.leave r) => some r

variable {body : σ → Option (Turn σ ρ)}

theorem run_again {s t : σ} (pass : body s = some (.again t)) (fuel : Nat) : run body (fuel + 1) s = run body fuel t := by
  rw [run, pass]

theorem run_leave {s : σ} {r : ρ} (pass : body s = some (.leave r)) (fuel : Nat) : run body (fuel + 1) s = some r := by
  unfold run
  rw [pass]

/-- What a loop leaves with does not depend on the number of passes it is given. -/
theorem run_unique {s : σ} {fuel more : Nat} {r t : ρ} (first : run body fuel s = some r) (second : run body more s = some t) :
    r = t := by
  induction fuel generalizing s more with
  | zero => cases first
  | succ fuel ih =>
      cases more with
      | zero => cases second
      | succ more =>
          unfold run at first second
          cases pass : body s with
          | none =>
              rw [pass] at first
              cases first
          | some turn =>
              rw [pass] at first second
              cases turn with
              | again next => exact ih first second
              | leave result => exact Option.some.inj (first.symm.trans second)

/-- A loop ends when each pass leaves or makes a measure smaller. -/
theorem run_of_measure (holds : σ → Prop) {post : ρ → Prop} (measure : σ → Nat)
    (each : ∀ s, holds s → (∃ r, body s = some (.leave r) ∧ post r) ∨
      ∃ t, body s = some (.again t) ∧ holds t ∧ measure t < measure s)
    {s : σ} (start : holds s) {fuel : Nat} (enough : measure s < fuel) : ∃ r, run body fuel s = some r ∧ post r := by
  induction fuel generalizing s with
  | zero => exact absurd enough (Nat.not_lt_zero _)
  | succ fuel ih =>
      rcases each s start with ⟨r, pass, good⟩ | ⟨t, pass, later, less⟩
      · exact ⟨r, run_leave pass fuel, good⟩
      · obtain ⟨r, done, good⟩ := ih later (Nat.lt_of_lt_of_le less (Nat.le_of_lt_succ enough))
        exact ⟨r, (run_again pass fuel).trans done, good⟩

end Lib.Loop
