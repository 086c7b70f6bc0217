import Mathlib.Data.List.Basic

/-!
# Windows

The front of a list that a scan looks at when it stops after some number of
candidates and after some number of elements, whichever comes first. A scan
that takes the list in pieces looks at the same front.
-/
namespace Lib.Window

universe u v
variable {α : Type u} {β : Type v} (candidate : α → Option β)

/-- The elements up to the `limit`-th candidate, at most `most` of them. -/
def front : Nat → Nat → List α → List α
  | 0, _, _ => []
  | _ + 1, 0, _ => []
  | _ + 1, _ + 1, [] => []
  | limit + 1, most + 1, x :: rest => x :: front (if (candidate x).isSome then limit else limit + 1) most rest

def candidates (xs : List α) : List β := xs.filterMap candidate

variable {candidate} {limit most : Nat} {x : α} {xs ys : List α}

@[simp] theorem candidates_nil : candidates candidate [] = [] := rfl

theorem candidates_append : candidates candidate (xs ++ ys) = candidates candidate xs ++ candidates candidate ys :=
  List.filterMap_append

theorem length_candidates_cons :
    (candidates candidate (x :: xs)).length = (if (candidate x).isSome then 1 else 0) + (candidates candidate xs).length := by
  unfold candidates
  cases accepted : candidate x with
  | none => simp [List.filterMap_cons_none accepted]
  | some b => simp [List.filterMap_cons_some accepted, Nat.add_comm]

@[simp] theorem front_zero_left : front candidate 0 most xs = [] := by
  unfold front
  rfl

@[simp] theorem front_zero_right : front candidate limit 0 xs = [] := by
  cases limit <;> rfl

@[simp] theorem front_nil : front candidate limit most [] = [] := by
  cases limit <;> cases most <;> rfl

theorem front_cons : front candidate (limit + 1) (most + 1) (x :: xs) =
    x :: front candidate (if (candidate x).isSome then limit else limit + 1) most xs := rfl

/-- What a scan has seen, and why it stopped. -/
structure Stopped (candidate : α → Option β) (limit most : Nat) (xs : List α) : Prop where
  isPrefix : front candidate limit most xs <+: xs
  short : (front candidate limit most xs).length ≤ most
  few : (candidates candidate (front candidate limit most xs)).length ≤ limit
  reason : front candidate limit most xs = xs ∨ (front candidate limit most xs).length = most ∨
    (candidates candidate (front candidate limit most xs)).length = limit

theorem stopped (candidate : α → Option β) (limit most : Nat) (xs : List α) : Stopped candidate limit most xs := by
  induction xs generalizing limit most with
  | nil => exact ⟨by simp, by simp, by simp, .inl (by simp)⟩
  | cons x rest ih =>
      cases limit with
      | zero => exact ⟨by simp, by simp, by simp, .inr (.inr (by simp))⟩
      | succ limit =>
          cases most with
          | zero => exact ⟨by simp, by simp, by simp, .inr (.inl (by simp))⟩
          | succ most =>
              have tail := ih (if (candidate x).isSome then limit else limit + 1) most
              have count := tail.few
              constructor
              · rw [front_cons]
                exact List.cons_prefix_cons.mpr ⟨rfl, tail.isPrefix⟩
              · rw [front_cons, List.length_cons]
                exact Nat.succ_le_succ tail.short
              · rw [front_cons, length_candidates_cons]
                split at count <;> rename_i accepted
                · rw [if_pos accepted, if_pos accepted]
                  omega
                · rw [if_neg accepted, if_neg accepted]
                  omega
              · rw [front_cons, length_candidates_cons, List.length_cons]
                rcases tail.reason with whole | full | reached
                · exact .inl (by rw [whole])
                · exact .inr (.inl (by rw [full]))
                · refine .inr (.inr ?_)
                  rw [reached]
                  split <;> omega

/-- A scan that got through the first piece goes on with what it has left. -/
theorem front_append_whole (whole : front candidate limit most xs = xs) : front candidate limit most (xs ++ ys) =
    xs ++ front candidate (limit - (candidates candidate xs).length) (most - xs.length) ys := by
  induction xs generalizing limit most with
  | nil => rfl
  | cons x rest ih =>
      cases limit with
      | zero =>
          rw [front_zero_left] at whole
          cases whole
      | succ limit =>
          cases most with
          | zero =>
              rw [front_zero_right] at whole
              cases whole
          | succ most =>
              rw [front_cons] at whole
              have tail := ih (List.cons.inj whole).2
              rw [List.cons_append, front_cons, tail, length_candidates_cons, List.length_cons, Nat.add_sub_add_right,
                List.cons_append]
              congr 3
              split <;> omega

/-- A scan that stopped in the first piece does not see the second. -/
theorem front_append_cut (cut : front candidate limit most xs ≠ xs) :
    front candidate limit most (xs ++ ys) = front candidate limit most xs := by
  induction xs generalizing limit most with
  | nil => exact absurd front_nil cut
  | cons x rest ih =>
      cases limit with
      | zero => rw [front_zero_left, front_zero_left]
      | succ limit =>
          cases most with
          | zero => rw [front_zero_right, front_zero_right]
          | succ most =>
              rw [front_cons] at cut
              rw [List.cons_append, front_cons, front_cons, ih fun whole => cut (congrArg (x :: ·) whole)]

/-- The window ends with the `limit`-th candidate where that comes soon enough. -/
theorem front_reaches (accepted : (candidate x).isSome) (count : (candidates candidate xs).length + 1 = limit)
    (soon : xs.length < most) : front candidate limit most (xs ++ x :: ys) = xs ++ [x] := by
  induction xs generalizing limit most with
  | nil =>
      obtain ⟨most, rfl⟩ := Nat.exists_eq_succ_of_ne_zero (Nat.ne_of_gt soon)
      subst count
      rw [List.nil_append, List.nil_append, candidates_nil, List.length_nil, front_cons, if_pos accepted, front_zero_left]
  | cons y rest ih =>
      obtain ⟨most, rfl⟩ := Nat.exists_eq_succ_of_ne_zero (Nat.ne_of_gt (Nat.zero_lt_of_lt soon))
      subst count
      rw [List.cons_append, front_cons, List.cons_append, ih ?_ (Nat.lt_of_succ_lt_succ soon)]
      rw [length_candidates_cons]
      split <;> omega

/-- A window with that many candidates ends with the last of them. -/
theorem front_reached (some_ : 1 ≤ limit) (reached : (candidates candidate (front candidate limit most xs)).length = limit) :
    ∃ before last, front candidate limit most xs = before ++ [last] ∧ (candidate last).isSome ∧
      (candidates candidate before).length + 1 = limit ∧ before.length < most := by
  induction xs generalizing limit most with
  | nil =>
      rw [front_nil] at reached
      exact absurd reached (Nat.ne_of_lt some_)
  | cons x rest ih =>
      obtain ⟨limit, rfl⟩ := Nat.exists_eq_succ_of_ne_zero (Nat.ne_of_gt some_)
      cases most with
      | zero =>
          rw [front_zero_right] at reached
          cases reached
      | succ most =>
          rw [front_cons, length_candidates_cons] at reached
          by_cases accepted : (candidate x).isSome
          · rw [if_pos accepted, if_pos accepted, Nat.add_comm] at reached
            cases limit with
            | zero => exact ⟨[], x, by rw [front_cons, if_pos accepted, front_zero_left]; rfl, accepted, rfl, most.succ_pos⟩
            | succ limit =>
                obtain ⟨before, last, seen, found, count, soon⟩ := ih (Nat.succ_pos _) (Nat.succ.inj reached)
                refine ⟨x :: before, last, by rw [front_cons, if_pos accepted, seen]; rfl, found, ?_, Nat.succ_lt_succ soon⟩
                rw [length_candidates_cons, if_pos accepted, Nat.add_assoc, count, Nat.add_comm]
          · rw [if_neg accepted, if_neg accepted, Nat.zero_add] at reached
            obtain ⟨before, last, seen, found, count, soon⟩ := ih (Nat.succ_pos _) reached
            refine ⟨x :: before, last, by rw [front_cons, if_neg accepted, seen]; rfl, found, ?_, Nat.succ_lt_succ soon⟩
            rw [length_candidates_cons, if_neg accepted, Nat.zero_add, count]

end Lib.Window
