import Mathlib.Data.List.Basic

/-!
# Blocks of one width

A buffer that is filled with pieces of any size and emptied in blocks of one
width. What comes out depends on the bytes alone, not on how they were cut.
-/
namespace Lib.Blocks

universe u
variable {α : Type u} {width : Nat} {buffer out rest : List α}

/-- The complete blocks at the front and what is left. Each pass takes a block, so `buffer.length` passes are enough. -/
def drainFrom (width : Nat) : Nat → List α → List (List α) × List α
  | 0, buffer => ([], buffer)
  | passes + 1, buffer =>
      if width ≤ buffer.length then
        let (out, rest) := drainFrom width passes (buffer.drop width)
        (buffer.take width :: out, rest)
      else ([], buffer)

def drain (width : Nat) (buffer : List α) : List (List α) × List α := drainFrom width buffer.length buffer

/-- `out` are the blocks of `buffer`, and `rest` is too short for another. -/
structure Drained (width : Nat) (buffer : List α) (out : List (List α)) (rest : List α) : Prop where
  whole : out.flatten ++ rest = buffer
  blocks : ∀ block ∈ out, block.length = width
  short : rest.length < width

theorem drainFrom_drained (positive : 0 < width) {passes : Nat} (enough : buffer.length ≤ passes) :
    Drained width buffer (drainFrom width passes buffer).1 (drainFrom width passes buffer).2 := by
  induction passes generalizing buffer with
  | zero =>
      refine ⟨rfl, fun block member => absurd member List.not_mem_nil, ?_⟩
      change buffer.length < width
      omega
  | succ passes ih =>
      rw [drainFrom]
      split
      · rename_i fits
        have shorter : (buffer.drop width).length ≤ passes := by
          rw [List.length_drop]
          omega
        obtain ⟨whole, blocks, short⟩ := ih shorter
        refine ⟨?_, ?_, short⟩
        · rw [List.flatten_cons, List.append_assoc, whole, List.take_append_drop]
        · rintro block (_ | ⟨_, later⟩)
          · rw [List.length_take, Nat.min_eq_left fits]
          · exact blocks block later
      · rename_i short
        exact ⟨rfl, fun block member => absurd member List.not_mem_nil, Nat.lt_of_not_le short⟩

theorem drain_drained (positive : 0 < width) (buffer : List α) :
    Drained width buffer (drain width buffer).1 (drain width buffer).2 :=
  drainFrom_drained positive (Nat.le_refl _)

/-- There is one way to cut a buffer into blocks. -/
theorem Drained.unique {out' : List (List α)} {rest' : List α} {out : List (List α)}
    (first : Drained width buffer out rest) (second : Drained width buffer out' rest') : out = out' ∧ rest = rest' := by
  induction out generalizing buffer out' with
  | nil =>
      cases out' with
      | nil => exact ⟨rfl, first.whole.trans second.whole.symm⟩
      | cons block out' =>
          have size := congrArg List.length (first.whole.trans second.whole.symm)
          have full := second.blocks block List.mem_cons_self
          have short := first.short
          simp only [List.flatten_nil, List.nil_append, List.flatten_cons, List.length_append, full] at size
          omega
  | cons block out ih =>
      have full := first.blocks block List.mem_cons_self
      cases out' with
      | nil =>
          have size := congrArg List.length (first.whole.trans second.whole.symm)
          have short := second.short
          simp only [List.flatten_nil, List.nil_append, List.flatten_cons, List.length_append, full] at size
          omega
      | cons block' out' =>
          have full' := second.blocks block' List.mem_cons_self
          have same := first.whole.trans second.whole.symm
          rw [List.flatten_cons, List.flatten_cons, List.append_assoc, List.append_assoc] at same
          obtain ⟨rfl, tails⟩ := List.append_inj same (full.trans full'.symm)
          have later : Drained width (out.flatten ++ rest) out rest :=
            ⟨rfl, fun b member => first.blocks b (List.mem_cons_of_mem _ member), first.short⟩
          have later' : Drained width (out.flatten ++ rest) out' rest' :=
            ⟨tails.symm, fun b member => second.blocks b (List.mem_cons_of_mem _ member), second.short⟩
          obtain ⟨rfl, rests⟩ := ih later later'
          exact ⟨rfl, rests⟩

theorem Drained.drain_eq {out : List (List α)} (drained : Drained width buffer out rest) : drain width buffer = (out, rest) := by
  have positive : 0 < width := Nat.lt_of_le_of_lt (Nat.zero_le _) drained.short
  obtain ⟨same, left⟩ := (drain_drained positive buffer).unique drained
  exact Prod.ext same left

/-- Draining after each piece gives the blocks of the whole. -/
theorem drain_append (positive : 0 < width) (buffer more : List α) :
    drain width (buffer ++ more) =
      ((drain width buffer).1 ++ (drain width ((drain width buffer).2 ++ more)).1, (drain width ((drain width buffer).2 ++ more)).2) := by
  obtain ⟨whole, blocks, -⟩ := drain_drained positive buffer
  obtain ⟨whole', blocks', short'⟩ := drain_drained positive ((drain width buffer).2 ++ more)
  apply Drained.drain_eq
  refine ⟨?_, ?_, short'⟩
  · rw [List.flatten_append, List.append_assoc, whole', ← List.append_assoc, whole]
  · intro block member
    rcases List.mem_append.mp member with earlier | later
    · exact blocks block earlier
    · exact blocks' block later

/-- Blocks that were joined are cut apart again. -/
theorem drain_flatten {blocks : List (List α)} (sizes : ∀ block ∈ blocks, block.length = width) (positive : 0 < width) :
    drain width blocks.flatten = (blocks, []) :=
  Drained.drain_eq ⟨List.append_nil _, sizes, positive⟩

end Lib.Blocks
