import Mathlib.Data.List.Basic

/-!
# Obligations in a log

A log, newest entry first, whose entries raise obligations and settle them.
`Kept` says that nothing raised is forgotten: a newer entry settles it, or the
state still has it in hand. Each step of a system adds entries and passes on
what it had in hand, which is what `cons` and `mono` ask for.
-/
namespace Lib.Obligations

universe u v
variable {ε : Type u} {ω : Type v}

def Kept (raises settles : ε → ω → Prop) (inHand : ω → Prop) (log : List ε) : Prop :=
  ∀ newer entry older, log = newer ++ entry :: older →
    ∀ o, raises entry o → (∃ e ∈ newer, settles e o) ∨ inHand o

variable {raises settles : ε → ω → Prop} {inHand later : ω → Prop} {log : List ε}

theorem Kept.nil : Kept raises settles inHand [] := by
  intro newer entry older split
  cases newer <;> cases split

theorem Kept.mono (kept : Kept raises settles inHand log) (passed : ∀ o, inHand o → later o) :
    Kept raises settles later log := by
  intro newer entry older split o raised
  rcases kept newer entry older split o raised with settled | held
  · exact .inl settled
  · exact .inr (passed o held)

theorem Kept.cons {entry : ε} (kept : Kept raises settles inHand log)
    (taken : ∀ o, raises entry o → later o) (passed : ∀ o, inHand o → settles entry o ∨ later o) :
    Kept raises settles later (entry :: log) := by
  intro newer e older split o raised
  cases newer with
  | nil =>
      obtain ⟨rfl, -⟩ := List.cons.inj split
      exact .inr (taken o raised)
  | cons head newer =>
      obtain ⟨rfl, rest⟩ := List.cons.inj split
      rcases kept newer e older rest o raised with ⟨n, member, settled⟩ | held
      · exact .inl ⟨n, List.mem_cons_of_mem _ member, settled⟩
      · rcases passed o held with settled | held
        · exact .inl ⟨entry, List.mem_cons_self, settled⟩
        · exact .inr held

/-- An entry that raises nothing. -/
theorem Kept.silent {entry : ε} (kept : Kept raises settles inHand log) (quiet : ∀ o, ¬ raises entry o)
    (passed : ∀ o, inHand o → settles entry o ∨ later o) :
    Kept raises settles later (entry :: log) :=
  kept.cons (fun o raised => absurd raised (quiet o)) passed

/-- With nothing in hand, everything raised is settled. -/
theorem Kept.settled (kept : Kept raises settles inHand log) (empty : ∀ o, ¬ inHand o)
    {newer older : List ε} {entry : ε} (split : log = newer ++ entry :: older) {o : ω} (raised : raises entry o) :
    ∃ e ∈ newer, settles e o := by
  rcases kept newer entry older split o raised with settled | held
  · exact settled
  · exact absurd held (empty o)

end Lib.Obligations
