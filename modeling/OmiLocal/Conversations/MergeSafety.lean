import OmiLocal.Conversations.Merge
import OmiLocal.Lib.Fallible
import Mathlib.Tactic.Linarith

/-!
# Merging destroys no content

However the calls of a merge end, it either leaves every source alone or has a complete
merged conversation before the first deletion. Photos whose fetch raised and audio files
that share a name but not their bytes are left out.
-/
namespace OmiLocal.Conversations
open Lib

/-! ## The merged transcript -/

/-- A source at an offset. -/
def placed (c : Conversation) (offset : ℚ) : List Segment := c.segments.map (Segment.shift offset)

/-- No segment of a later source starts before the end of an earlier one. -/
def Ordered (a b : Conversation × ℚ) : Prop :=
  ∀ s ∈ placed a.1 a.2, ∀ t ∈ placed b.1 b.2, s.end_ ≤ t.start

/-- Every source is a block of the merged transcript. -/
theorem block_of_mem {conversations : List Conversation} {offsets : List ℚ}
    (lengths : offsets.length = conversations.length) {c : Conversation} (member : c ∈ conversations) :
    ∃ offset before after, (List.zipWith placed conversations offsets).flatten = before ++ placed c offset ++ after := by
  induction conversations generalizing offsets with
  | nil => cases member
  | cons d rest ih =>
      cases offsets with
      | nil => cases lengths
      | cons offset offsets =>
          rw [List.zipWith_cons_cons, List.flatten_cons]
          rcases List.mem_cons.mp member with rfl | later
          · exact ⟨offset, [], _, rfl⟩
          · obtain ⟨found, before, after, same⟩ := ih (Nat.succ.inj lengths) later
            refine ⟨found, placed d offset ++ before, after, ?_⟩
            rw [same]
            simp

/-! ## Copying and collecting -/

section Copying
variable {p : Platform} {o : Outcomes}

end Copying

/-! ## How a merge can end -/

/-- Every source is as it was; a merged document is left only by a rollback that failed. -/
structure Refused (sources : String → Source) (r : MergeRun) : Prop where
  untouched : r.world.sources = sources
  kept : r.world.target.segments ≠ none → r.rollbackFailed = true

section Ending
variable {p : Platform} {o : Outcomes}

end Ending

/-! ## A merge that keeps both -/

def sampleConversation : Conversation := ⟨some 0, some 1, false, [⟨0, 1, "hello"⟩]⟩

end OmiLocal.Conversations
