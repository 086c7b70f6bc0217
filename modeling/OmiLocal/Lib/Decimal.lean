import Mathlib.Data.List.TakeWhile

/-!
# Decimal numbers in texts

What the decimal text of a number consists of, and how numbers are read back from names that
end in one.
-/
namespace Lib.Decimal

theorem isDigit_of_mem_repr {n : Nat} {c : Char} (member : c ∈ (Nat.repr n).toList) : c.isDigit = true := by
  rw [Nat.toList_repr] at member
  exact Nat.isDigit_of_mem_toDigits (by decide) (by decide) member

theorem repr_injective {m n : Nat} (same : (Nat.repr m).toList = (Nat.repr n).toList) : m = n := by
  rw [Nat.toList_repr, Nat.toList_repr] at same
  have values := congrArg (fun ds => Nat.ofDigitChars 10 ds 0) same
  simpa using values

theorem toList_negSucc (n : Nat) : (toString (Int.negSucc n)).toList = '-' :: (Nat.repr (n + 1)).toList := by
  show ("-" ++ Nat.repr (n + 1)).toList = _
  rw [String.toList_append]
  rfl

theorem mem_toString {n : Int} {c : Char} (member : c ∈ (toString n).toList) : c.isDigit = true ∨ c = '-' := by
  cases n with
  | ofNat n => exact .inl (isDigit_of_mem_repr (n := n) member)
  | negSucc n =>
      rw [toList_negSucc] at member
      rcases List.mem_cons.mp member with sign | later
      · exact .inr sign
      · exact .inl (isDigit_of_mem_repr later)

theorem toString_injective {m n : Int} (same : (toString m).toList = (toString n).toList) : m = n := by
  have sign {k l : Nat} : (toString (Int.ofNat k)).toList ≠ (toString (Int.negSucc l)).toList := by
    intro equal
    have digit : '-' ∈ (Nat.repr k).toList := by
      rw [show (Nat.repr k).toList = _ from equal, toList_negSucc]
      exact List.mem_cons_self
    exact absurd (isDigit_of_mem_repr digit) (by decide)
  cases m with
  | ofNat k =>
      cases n with
      | ofNat l => rw [repr_injective (m := k) (n := l) same]
      | negSucc l => exact absurd same sign
  | negSucc k =>
      cases n with
      | ofNat l => exact absurd same.symm sign
      | negSucc l =>
          rw [toList_negSucc, toList_negSucc] at same
          rw [Nat.succ.inj (repr_injective (List.cons.inj same).2)]

theorem takeWhile_before {sep : Char} {c : List Char} (free : sep ∉ c) (rest : List Char) :
    (c ++ sep :: rest).takeWhile (fun ch => decide (ch ≠ sep)) = c := by
  rw [List.takeWhile_append_of_pos]
  · simp
  · intro ch member
    refine decide_eq_true ?_
    rintro rfl
    exact free member

/-- What follows the last separator. -/
theorem after_last_inj {sep : Char} {a b c d : List Char} (free : sep ∉ c) (free' : sep ∉ d)
    (same : a ++ sep :: c = b ++ sep :: d) : c = d := by
  have turned : c.reverse ++ sep :: a.reverse = d.reverse ++ sep :: b.reverse := by
    simpa using congrArg List.reverse same
  have fronts := congrArg (List.takeWhile fun ch => decide (ch ≠ sep)) turned
  rw [takeWhile_before (by simpa using free), takeWhile_before (by simpa using free')] at fronts
  exact List.reverse_inj.mp fronts

end Lib.Decimal
