import OmiLocal.Lib.Dict
import OmiLocal.Lib.Json
import OmiLocal.Lib.Keyset
import OmiLocal.Lib.Loop
import OmiLocal.Lib.Transition
import Mathlib.Order.Lattice
import Mathlib.Data.String.Basic

/-!
# The legacy memory ledger

Commits under names that are digests of their parent and their mutations, and a
head. Commits are appended by many requests, each in one transaction. A privacy
purge runs beside them: it reads the commits page by page in the order of their
names and deletes those that mention a deleted memory. The commits of the
canonical apply stream in the same collection have no mutations and are left out.
-/
namespace OmiLocal.Memory.LegacyLedger

open Lib Lib.Json Lib.Dict

def purgePageSize : Nat := 100

/-- `_canonical_json` and the digest. -/
structure Digests where
  canonicalJson : Value → String
  sha256 : String → String

structure Commit where
  commitId : String
  parentCommitId : Option String
  commitTime : Int
  mutations : List Value

def Digests.commitIdFor (d : Digests) (parentCommitId : Option String) (mutations : List Value) : String :=
  d.sha256 (d.canonicalJson (.obj
    [("parent_commit_id", match parentCommitId with | some id => .str id | none => .null), ("mutations", .arr mutations)]))

def Digests.buildCommit (d : Digests) (parentCommitId : Option String) (mutations : List Value) (commitTime : Int) : Commit :=
  ⟨d.commitIdFor parentCommitId mutations, parentCommitId, commitTime, mutations⟩

/-! ## Memories that a mutation mentions -/

/-- A text under a key, where it is one and not empty. -/
def textAt (key : String) (fields : List (String × Value)) : Option String :=
  match field key fields with
  | some (.str id) => if id = "" then none else some id
  | _ => none

/-- The body of the loop of `_mutation_memory_ids`. -/
def entryMemoryIds : Value → List String
  | .obj entry =>
      (match field "fact" entry with
        | some (.obj fact) => (textAt "id" fact).toList
        | _ => []) ++
        (textAt "fact_id" entry).toList ++ (textAt "target_fact_id" entry).toList ++ (textAt "by" entry).toList
  | _ => []

def mutationMemoryIds (mutations : List Value) : List String := (mutations.flatMap entryMemoryIds).dedup

mutual
/-- `_value_references_memory_id` -/
def references (targets : List String) : Value → Bool
  | .str s => s ∈ targets
  | .obj fields => referencesFields targets fields
  | .arr items => referencesItems targets items
  | _ => false

def referencesItems (targets : List String) : List Value → Bool
  | [] => false
  | v :: rest => references targets v || referencesItems targets rest

def referencesFields (targets : List String) : List (String × Value) → Bool
  | [] => false
  | (_, v) :: rest => references targets v || referencesFields targets rest
end

/-! ## States -/

/-- A call of `purge_legacy_memory_commits_for_memories`: before a query, or among the documents of a page. `page` is
what is left of it, `last` its last name, and `full` says that it had the full size. `kept` is for the record: the
targets that have been tombstoned since the call began. -/
structure Purge where
  targets : List String
  cursor : Option String
  page : Option (List (String × Commit))
  last : String
  full : Bool
  kept : List String

/-- `history` (newest first) is every commit ever appended, and `cleaned` the memories that a purge has finished with
and that are still tombstoned; no decision reads them. `blocked` is an account deletion or a destructive operation. -/
structure Ledger where
  head : Option String
  commits : List (String × Commit)
  tombstoned : List String
  blocked : Bool
  purges : List Purge
  history : List Commit
  cleaned : List String

def Ledger.empty : Ledger := ⟨none, [], [], false, [], [], []⟩

/-! ## Appending -/

inductive Refusal where
  | headConflict (expectedParent currentHead : Option String)
  | privacyFence

/-- `_assert_legacy_commit_privacy_fences` lets the mutations pass. -/
def Ledger.passesFences (s : Ledger) (mutations : List Value) : Bool :=
  !s.blocked && (mutationMemoryIds mutations).length ≤ 200 && (mutationMemoryIds mutations).all (· ∉ s.tombstoned)

structure Appended where
  ledger : Ledger
  commit : Commit
  applied : Bool

/-- Both writes of the transaction. -/
def Ledger.write (s : Ledger) (commit : Commit) : Ledger :=
  { s with
    head := some commit.commitId
    commits := put s.commits commit.commitId commit
    history := commit :: s.history }

/-- `_append_commit_transaction` -/
def Ledger.appendCommit (s : Ledger) (d : Digests) (parentCommitId : Option String) (mutations : List Value)
    (commitTime : Int) (useCurrentHead : Bool) : Except Refusal Appended :=
  let expectedParent := if useCurrentHead then s.head else parentCommitId
  let commit := d.buildCommit expectedParent mutations commitTime
  match get s.commits commit.commitId with
  | some existing => .ok ⟨s, existing, false⟩
  | none =>
      if s.head ≠ expectedParent then .error (.headConflict expectedParent s.head)
      else if s.passesFences mutations then .ok ⟨s.write commit, commit, true⟩
      else .error .privacyFence

/-- `_append_commit_with_builder_transaction`: the head is compared before the mutations are built. -/
def Ledger.appendCommitWithBuilder (s : Ledger) (d : Digests) (parentCommitId : Option String) (mutations : List Value)
    (commitTime : Int) (useCurrentHead : Bool) : Except Refusal Appended :=
  let expectedParent := if useCurrentHead then s.head else parentCommitId
  if s.head ≠ expectedParent then .error (.headConflict expectedParent s.head)
  else if s.passesFences mutations = false then .error .privacyFence
  else
    let commit := d.buildCommit expectedParent mutations commitTime
    match get s.commits commit.commitId with
    | some existing => .ok ⟨s, existing, false⟩
    | none => .ok ⟨s.write commit, commit, true⟩

/-! ## Purging -/

/-- `query.start_after(cursor).limit(…)` -/
def Ledger.pageBehind (s : Ledger) (cursor : Option String) : List (String × Commit) :=
  (Keyset.behind Prod.fst (Keyset.sortedBy Prod.fst s.commits) cursor).take purgePageSize

/-- The next query or document of a purge, and what is left of it. -/
def Purge.advance (p : Purge) (s : Ledger) : Ledger × Option Purge :=
  match p.page with
  | none =>
      match (s.pageBehind p.cursor).getLast? with
      | none => ({ s with cleaned := p.kept ++ s.cleaned }, none)
      | some last =>
          (s, some { p with
            page := some (s.pageBehind p.cursor)
            last := last.1
            full := (s.pageBehind p.cursor).length = purgePageSize })
  | some [] =>
      if p.full then (s, some { p with page := none, cursor := some p.last })
      else ({ s with cleaned := p.kept ++ s.cleaned }, none)
  | some ((name, commit) :: rest) =>
      (if references p.targets (.arr commit.mutations) then { s with commits := erase s.commits name } else s,
        some { p with page := some rest })

/-! ## Reading -/

/-- A purge can stop between any two of its steps. A tombstone ends when the tombstoned items are removed. -/
inductive Event where
  | append (parentCommitId : Option String) (mutations : List Value) (commitTime : Int) (useCurrentHead : Bool)
  | appendBuilt (parentCommitId : Option String) (mutations : List Value) (commitTime : Int) (useCurrentHead : Bool)
  | tombstone (memoryId : String)
  | finalize (memoryIds : List String)
  | block (blocked : Bool)
  | startPurge (memoryIds : List String)
  | purge (index : Nat)
  | abandonPurge (index : Nat)

/-- What an append leaves, and nothing where it was refused. -/
def Ledger.afterwards (s : Ledger) : Except Refusal Appended → Ledger
  | .ok result => result.ledger
  | .error _ => s

/-- No commit of a run has the digest of another one with another parent. -/
def Ledger.collides (s : Ledger) (d : Digests) (parentCommitId : Option String) (mutations : List Value)
    (useCurrentHead : Bool) : Bool :=
  let expectedParent := if useCurrentHead then s.head else parentCommitId
  s.history.any fun c => c.commitId = d.commitIdFor expectedParent mutations && c.parentCommitId ≠ expectedParent

def Ledger.step (d : Digests) (s : Ledger) : Event → Option Ledger
  | .append parentCommitId mutations commitTime useCurrentHead =>
      if s.collides d parentCommitId mutations useCurrentHead then none
      else some (s.afterwards (s.appendCommit d parentCommitId mutations commitTime useCurrentHead))
  | .appendBuilt parentCommitId mutations commitTime useCurrentHead =>
      if s.collides d parentCommitId mutations useCurrentHead then none
      else some (s.afterwards (s.appendCommitWithBuilder d parentCommitId mutations commitTime useCurrentHead))
  | .tombstone memoryId => some { s with tombstoned := memoryId :: s.tombstoned }
  | .finalize memoryIds =>
      some { s with
        tombstoned := s.tombstoned.filter (· ∉ memoryIds)
        cleaned := s.cleaned.filter (· ∉ memoryIds)
        purges := s.purges.map fun p => { p with kept := p.kept.filter (· ∉ memoryIds) } }
  | .block blocked => some { s with blocked := blocked }
  | .startPurge memoryIds =>
      let targets := memoryIds.filter (· ≠ "")
      if targets = [] then some s
      else some { s with purges := s.purges ++ [⟨targets, none, none, "", false, targets.filter (· ∈ s.tombstoned)⟩] }
  | .purge index =>
      match s.purges[index]? with
      | none => none
      | some p =>
          let (t, next) := p.advance s
          match next with
          | some q => some { t with purges := t.purges.set index q }
          | none => some { t with purges := t.purges.eraseIdx index }
  | .abandonPurge index => some { s with purges := s.purges.eraseIdx index }

def Reached (d : Digests) (s : Ledger) : Prop :=
  Lib.Transition.Reachable (fun s => s = Ledger.empty) (fun s e t => Ledger.step d s e = some t) s

end OmiLocal.Memory.LegacyLedger
