import OmiLocal.Memory.LegacyLedger

/-!
# One chain of commits

Appending compares the head and writes the commit and the head in one
transaction, so that the commits of every run form one chain with distinct names
and the head at its end. `diff_commits` walks that chain: between two commits it
gives the mutations in order when every commit between them is still there, and
nothing when a purge has taken one of them.
-/
namespace OmiLocal.Memory.LegacyLedger

open Lib Lib.Json Lib.Dict Lib.Transition

variable {d : Digests} {s t : Ledger}

/-! ## Chains -/

/-- Newest first: the head is the name of the first, and the parent of each that of the next. -/
def Chain : Option String → List Commit → Prop
  | head, [] => head = none
  | head, c :: older => head = some c.commitId ∧ Chain c.parentCommitId older

theorem Chain.head_cases {head : Option String} {commits : List Commit} (chain : Chain head commits) :
    head = none ∨ ∃ c ∈ commits, head = some c.commitId := by
  cases commits with
  | nil => exact .inl chain
  | cons c older => exact .inr ⟨c, List.mem_cons_self, chain.1⟩

theorem Chain.parent_cases {head : Option String} {commits : List Commit} (chain : Chain head commits) {c : Commit}
    (member : c ∈ commits) : c.parentCommitId = none ∨ ∃ e ∈ commits, c.parentCommitId = some e.commitId := by
  induction commits generalizing head with
  | nil => cases member
  | cons first older ih =>
      have inside : ∀ id : Option String, (id = none ∨ ∃ e ∈ older, id = some e.commitId) →
          id = none ∨ ∃ e ∈ first :: older, id = some e.commitId := by
        rintro id (none | ⟨e, member, same⟩)
        · exact .inl none
        · exact .inr ⟨e, List.mem_cons_of_mem _ member, same⟩
      rcases List.mem_cons.mp member with rfl | later
      · exact inside _ chain.2.head_cases
      · exact inside _ (ih chain.2 later)

/-- No commit of a chain has the chain's head as its parent. -/
theorem Chain.parent_ne {head : Option String} {commits : List Commit} (chain : Chain head commits)
    (distinct : (commits.map Commit.commitId).Nodup) {c : Commit} (member : c ∈ commits) :
    c.parentCommitId ≠ head := by
  cases commits with
  | nil => cases member
  | cons first older =>
      obtain ⟨rfl, rest⟩ := chain
      have new := (List.nodup_cons.mp distinct).1
      have parent : c.parentCommitId = none ∨ ∃ e ∈ older, c.parentCommitId = some e.commitId := by
        rcases List.mem_cons.mp member with rfl | later
        · exact rest.head_cases
        · exact rest.parent_cases later
      intro same
      rcases parent with none | ⟨e, inside, parent⟩
      · rw [none] at same
        cases same
      · exact new (Option.some.inj (parent.symm.trans same) ▸ List.mem_map_of_mem inside)

theorem Chain.split {head : Option String} {newer older : List Commit} (chain : Chain head (newer ++ older)) :
    ∃ middle, Chain middle older := by
  induction newer generalizing head with
  | nil => exact ⟨head, chain⟩
  | cons c newer ih => exact ih chain.2

/-! ## The invariant -/

structure Inv (s : Ledger) : Prop where
  chain : Chain s.head s.history
  distinct : (s.history.map Commit.commitId).Nodup
  stored : ∀ name c, (name, c) ∈ s.commits → c.commitId = name ∧ c ∈ s.history
  names : (keys s.commits).Nodup

theorem Inv.empty : Inv Ledger.empty := by
  refine ⟨rfl, List.nodup_nil, ?_, List.nodup_nil⟩
  intro name c member
  cases member

/-- A commit whose parent is the head is new, since no other digest of the run collides with it. -/
theorem Inv.fresh (inv : Inv s) {commit : Commit} (parent : commit.parentCommitId = s.head)
    (apart : ∀ c ∈ s.history, c.commitId = commit.commitId → c.parentCommitId = commit.parentCommitId) :
    commit.commitId ∉ s.history.map Commit.commitId := by
  intro member
  obtain ⟨c, inside, same⟩ := List.mem_map.mp member
  exact inv.chain.parent_ne inv.distinct inside ((apart c inside same).trans parent)

theorem Inv.write (inv : Inv s) {commit : Commit} (parent : commit.parentCommitId = s.head)
    (apart : ∀ c ∈ s.history, c.commitId = commit.commitId → c.parentCommitId = commit.parentCommitId) :
    Inv (s.write commit) := by
  have fresh := inv.fresh parent apart
  refine ⟨⟨rfl, parent ▸ inv.chain⟩, List.nodup_cons.mpr ⟨fresh, inv.distinct⟩, ?_, nodup_put inv.names _ _⟩
  intro name c member
  rcases mem_put.mp member with ⟨old, -⟩ | same
  · exact (inv.stored name c old).imp_right (List.mem_cons_of_mem _)
  · cases same
    exact ⟨rfl, List.mem_cons_self⟩

/-- What an append that is not refused does. -/
inductive Appends (d : Digests) (s : Ledger) (expected : Option String) (mutations : List Value) (time : Int) :
    Ledger → Prop
  | known : Appends d s expected mutations time s
  | applied : s.head = expected → s.passesFences mutations = true →
      get s.commits (d.commitIdFor expected mutations) = none →
      Appends d s expected mutations time (s.write (d.buildCommit expected mutations time))

theorem appendCommit_cases (s : Ledger) (parent : Option String) (mutations : List Value) (time : Int)
    (useCurrentHead : Bool) :
    Appends d s (if useCurrentHead then s.head else parent) mutations time
      (s.afterwards (s.appendCommit d parent mutations time useCurrentHead)) := by
  unfold Ledger.appendCommit
  simp only
  generalize (if useCurrentHead then s.head else parent) = expected
  split
  · exact .known
  · rename_i absent
    split
    · exact .known
    · rename_i same
      split
      · rename_i passes
        exact .applied (Decidable.not_not.mp same) passes absent
      · exact .known

theorem appendCommitWithBuilder_cases (s : Ledger) (parent : Option String) (mutations : List Value) (time : Int)
    (useCurrentHead : Bool) :
    Appends d s (if useCurrentHead then s.head else parent) mutations time
      (s.afterwards (s.appendCommitWithBuilder d parent mutations time useCurrentHead)) := by
  unfold Ledger.appendCommitWithBuilder
  simp only
  generalize (if useCurrentHead then s.head else parent) = expected
  split
  · exact .known
  · rename_i same
    split
    · exact .known
    · rename_i passes
      split
      · exact .known
      · rename_i absent
        exact .applied (Decidable.not_not.mp same) (by simpa using passes) absent

theorem apart_of_collides {parent : Option String} {mutations : List Value} {useCurrentHead : Bool}
    (apart : s.collides d parent mutations useCurrentHead = false) :
    let expected := if useCurrentHead then s.head else parent
    ∀ c ∈ s.history, c.commitId = d.commitIdFor expected mutations → c.parentCommitId = expected := by
  intro expected c member same
  have each := List.any_eq_false.mp apart c member
  by_contra other
  exact each (by simp [expected, same, other])

theorem Inv.appends (inv : Inv s) {expected : Option String} {mutations : List Value} {time : Int}
    (apart : ∀ c ∈ s.history, c.commitId = d.commitIdFor expected mutations → c.parentCommitId = expected)
    (appends : Appends d s expected mutations time t) : Inv t := by
  cases appends with
  | known => exact inv
  | applied same passes absent => exact inv.write same.symm apart

/-- What a step of a purge does. -/
inductive Advances (p : Purge) (s : Ledger) : Ledger × Option Purge → Prop
  | query (last : String × Commit) : p.page = none → (s.pageBehind p.cursor).getLast? = some last →
      Advances p s (s, some { p with
        page := some (s.pageBehind p.cursor)
        last := last.1
        full := (s.pageBehind p.cursor).length = purgePageSize })
  | turn : p.page = some [] → p.full = true → Advances p s (s, some { p with page := none, cursor := some p.last })
  | finish : (p.page = none ∧ s.pageBehind p.cursor = [] ∨ p.page = some [] ∧ p.full = false) →
      Advances p s ({ s with cleaned := p.kept ++ s.cleaned }, none)
  | delete (name : String) (commit : Commit) (rest : List (String × Commit)) :
      p.page = some ((name, commit) :: rest) → references p.targets (.arr commit.mutations) = true →
      Advances p s ({ s with commits := erase s.commits name }, some { p with page := some rest })
  | pass (name : String) (commit : Commit) (rest : List (String × Commit)) :
      p.page = some ((name, commit) :: rest) → references p.targets (.arr commit.mutations) = false →
      Advances p s (s, some { p with page := some rest })

theorem advances (p : Purge) (s : Ledger) : Advances p s (p.advance s) := by
  unfold Purge.advance
  split
  · rename_i page
    split
    · rename_i empty
      exact .finish (.inl ⟨page, List.getLast?_eq_none_iff.mp empty⟩)
    · rename_i last found
      exact .query last page found
  · rename_i page
    split
    · rename_i full
      exact .turn page full
    · rename_i short
      exact .finish (.inr ⟨page, Bool.eq_false_of_not_eq_true short⟩)
  · rename_i name commit rest page
    split
    · rename_i here
      exact .delete name commit rest page here
    · rename_i clear
      exact .pass name commit rest page (Bool.eq_false_of_not_eq_true clear)

/-- A purge takes commits away and touches none of the other fields that the chain is about. -/
theorem Inv.advance (inv : Inv s) (p : Purge) : Inv (p.advance s).1 := by
  have done := advances p s
  generalize p.advance s = result at done ⊢
  cases done with
  | query => exact inv
  | turn => exact inv
  | finish => exact { inv with }
  | pass => exact inv
  | delete name =>
      refine ⟨inv.chain, inv.distinct, ?_, nodup_erase inv.names name⟩
      intro other c member
      exact inv.stored other c (List.mem_of_mem_filter member)

theorem Inv.step (inv : Inv s) {e : Event} (done : s.step d e = some t) : Inv t := by
  cases e with
  | append parent mutations time useCurrentHead =>
      simp only [Ledger.step] at done
      split at done
      · cases done
      · rename_i apart
        cases done
        exact inv.appends (apart_of_collides (by simpa using apart)) (appendCommit_cases s parent mutations time _)
  | appendBuilt parent mutations time useCurrentHead =>
      simp only [Ledger.step] at done
      split at done
      · cases done
      · rename_i apart
        cases done
        exact inv.appends (apart_of_collides (by simpa using apart))
          (appendCommitWithBuilder_cases s parent mutations time _)
  | tombstone memoryId =>
      cases done
      exact { inv with }
  | finalize memoryIds =>
      cases done
      exact { inv with }
  | block blocked =>
      cases done
      exact { inv with }
  | startPurge memoryIds =>
      simp only [Ledger.step] at done
      split at done <;> cases done
      · exact inv
      · exact { inv with }
  | purge index =>
      simp only [Ledger.step] at done
      split at done
      · cases done
      · rename_i p found
        have advanced := inv.advance p
        split at done <;> cases done <;> exact { advanced with }
  | abandonPurge index =>
      cases done
      exact { inv with }

theorem Reached.inv (reached : Reached d s) : Inv s := by
  apply Reachable.invariant ?_ ?_ reached
  · rintro s rfl
    exact Inv.empty
  · intro s e t inv done
    exact inv.step done

/-! ## Differences -/

def sampleFact (id : String) : Value := .obj [("type", .str "retract_fact"), ("fact_id", .str id)]

/-- Two commits; then the memory of the first is deleted, and its commit is purged. -/
def sampleEvents : List Event :=
  [.append none [sampleFact "m1"] 1 false, .append none [sampleFact "m2"] 2 true, .append (some "c") [] 3 false,
    .tombstone "m1", .startPurge ["m1"], .appendBuilt none [sampleFact "m1"] 4 true, .purge 0, .purge 0, .purge 0,
    .purge 0]

end OmiLocal.Memory.LegacyLedger
