import OmiLocal.Memory.LedgerChain

/-!
# What a purge leaves

A purge visits the commits page by page while commits are appended and other
purges delete what a page or the cursor was taken from. A memory that is
tombstoned before its purge and stays so gets no new commit, and every stored
commit that mentions it is still ahead of the purge. When a purge has come to its
end, no stored commit mentions the memory.
-/
namespace OmiLocal.Memory.LegacyLedger

open Lib Lib.Json Lib.Dict Lib.Transition

variable {d : Digests} {s t : Ledger}

/-- A stored commit mentions a memory. -/
def Mentions (s : Ledger) (id name : String) (commit : Commit) : Prop :=
  (name, commit) ∈ s.commits ∧ id ∈ mutationMemoryIds commit.mutations

/-! ## What a purge looks for -/

theorem mem_of_field {key : String} {fields : List (String × Value)} {v : Value} (found : field key fields = some v) :
    (key, v) ∈ fields := by
  obtain ⟨e, here, rfl⟩ := Option.map_eq_some_iff.mp found
  have same : e.1 = key := by simpa using List.find?_some here
  rw [← same]
  exact List.mem_reverse.mp (List.mem_of_find?_eq_some here)

theorem textAt_eq {key id : String} {fields : List (String × Value)} (found : textAt key fields = some id) :
    (key, Value.str id) ∈ fields := by
  unfold textAt at found
  split at found
  · rename_i text here
    split at found
    · cases found
    · cases found
      exact mem_of_field here
  · cases found

theorem referencesFields_of_mem {targets : List String} {fields : List (String × Value)} {key : String} {v : Value}
    (member : (key, v) ∈ fields) (here : references targets v = true) : referencesFields targets fields = true := by
  induction fields with
  | nil => cases member
  | cons e rest ih =>
      rw [referencesFields, Bool.or_eq_true]
      rcases List.mem_cons.mp member with rfl | later
      · exact .inl here
      · exact .inr (ih later)

theorem referencesItems_of_mem {targets : List String} {items : List Value} {v : Value} (member : v ∈ items)
    (here : references targets v = true) : referencesItems targets items = true := by
  induction items with
  | nil => cases member
  | cons e rest ih =>
      rw [referencesItems, Bool.or_eq_true]
      rcases List.mem_cons.mp member with rfl | later
      · exact .inl here
      · exact .inr (ih later)

theorem references_textAt {targets : List String} {key id : String} {fields : List (String × Value)}
    (found : id ∈ (textAt key fields).toList) (target : id ∈ targets) : references targets (.obj fields) = true := by
  rw [references]
  apply referencesFields_of_mem (textAt_eq (Option.mem_toList.mp found))
  rw [references]
  exact decide_eq_true target

theorem references_entry {targets : List String} {id : String} {entry : Value} (found : id ∈ entryMemoryIds entry)
    (target : id ∈ targets) : references targets entry = true := by
  cases entry with
  | obj fields =>
      rw [entryMemoryIds] at found
      rcases List.mem_append.mp found with found | by_
      · rcases List.mem_append.mp found with found | targetFact
        · rcases List.mem_append.mp found with fact | factId
          · split at fact
            · rename_i inner here
              rw [references]
              exact referencesFields_of_mem (mem_of_field here) (references_textAt fact target)
            · cases fact
          · exact references_textAt factId target
        · exact references_textAt targetFact target
      · exact references_textAt by_ target
  | _ => cases found

/-- What the fences of an append look at, a purge finds. -/
theorem references_of_mentioned {targets : List String} {mutations : List Value} {id : String}
    (mentioned : id ∈ mutationMemoryIds mutations) (target : id ∈ targets) : references targets (.arr mutations) = true := by
  obtain ⟨entry, member, found⟩ := List.mem_flatMap.mp (List.mem_dedup.mp mentioned)
  rw [references]
  exact referencesItems_of_mem member (references_entry found target)

/-! ## The invariant of a purge -/

/-- A commit is still ahead of a purge: behind its cursor, on the rest of its page, or behind that page. -/
def Purge.Ahead (p : Purge) (name : String) (commit : Commit) : Prop :=
  match p.page with
  | none => ∀ cursor ∈ p.cursor, cursor < name
  | some rest => (name, commit) ∈ rest ∨ p.full = true ∧ p.last < name

structure Purge.Ok (p : Purge) (s : Ledger) : Prop where
  targets : ∀ id ∈ p.kept, id ∈ p.targets
  tombstoned : ∀ id ∈ p.kept, id ∈ s.tombstoned
  ahead : ∀ id ∈ p.kept, ∀ name commit, Mentions s id name commit → p.Ahead name commit

structure Clean (s : Ledger) : Prop where
  purges : ∀ p ∈ s.purges, p.Ok s
  tombstoned : ∀ id ∈ s.cleaned, id ∈ s.tombstoned
  gone : ∀ id ∈ s.cleaned, ∀ name commit, ¬ Mentions s id name commit

/-- A purge stays as it is where nothing that mentions a tombstoned memory is added. -/
theorem Purge.Ok.mono {p : Purge} (ok : p.Ok s) (still : ∀ id ∈ p.kept, id ∈ t.tombstoned)
    (fewer : ∀ id ∈ s.tombstoned, ∀ name commit, Mentions t id name commit → Mentions s id name commit) : p.Ok t where
  targets := ok.targets
  tombstoned := still
  ahead := by
    intro id kept name commit mentions
    exact ok.ahead id kept name commit (fewer id (ok.tombstoned id kept) name commit mentions)

theorem Clean.mono (clean : Clean s) (purges : t.purges = s.purges) (cleaned : t.cleaned = s.cleaned)
    (tombstoned : ∀ id ∈ s.tombstoned, id ∈ t.tombstoned)
    (fewer : ∀ id ∈ s.tombstoned, ∀ name commit, Mentions t id name commit → Mentions s id name commit) : Clean t where
  purges := by
    intro p member
    rw [purges] at member
    have ok := clean.purges p member
    exact ok.mono (fun id kept => tombstoned id (ok.tombstoned id kept)) fewer
  tombstoned := by
    intro id member
    rw [cleaned] at member
    exact tombstoned id (clean.tombstoned id member)
  gone := by
    intro id member name commit mentions
    rw [cleaned] at member
    exact clean.gone id member name commit (fewer id (clean.tombstoned id member) name commit mentions)

/-- The fences keep a commit out that mentions a tombstoned memory. -/
theorem not_mentioned_of_passes {mutations : List Value} (passes : s.passesFences mutations = true) {id : String}
    (tombstoned : id ∈ s.tombstoned) : id ∉ mutationMemoryIds mutations := by
  intro mentioned
  unfold Ledger.passesFences at passes
  rw [Bool.and_eq_true] at passes
  exact of_decide_eq_true (List.all_eq_true.mp passes.2 id mentioned) tombstoned

theorem Clean.appends (clean : Clean s) {expected : Option String} {mutations : List Value} {time : Int}
    (appends : Appends d s expected mutations time t) : Clean t := by
  cases appends with
  | known => exact clean
  | applied same passes absent =>
      apply Clean.mono (t := s.write _) clean rfl rfl (fun _ member => member)
      intro id tombstoned name commit mentions
      rcases mem_put.mp mentions.1 with ⟨old, -⟩ | new
      · exact ⟨old, mentions.2⟩
      · cases new
        exact absurd mentions.2 (not_mentioned_of_passes passes tombstoned)

/-! ## One step of a purge -/

theorem mem_pageBehind_or_behind (inv : Inv s) {cursor : Option String} {last : String × Commit}
    (found : (s.pageBehind cursor).getLast? = some last) {name : String} {commit : Commit}
    (stored : (name, commit) ∈ s.commits) (behind : ∀ c ∈ cursor, c < name) :
    (name, commit) ∈ s.pageBehind cursor ∨ (s.pageBehind cursor).length = purgePageSize ∧ last.1 < name := by
  apply Keyset.page_or_behind (Keyset.sortedBy_strict Prod.fst inv.names) found
  apply Keyset.mem_behind.mpr
  exact ⟨(Keyset.sortedBy_perm Prod.fst s.commits).mem_iff.mpr stored, behind⟩

theorem not_behind_of_pageBehind (s : Ledger) {cursor : Option String} (empty : s.pageBehind cursor = []) {name : String}
    {commit : Commit} (stored : (name, commit) ∈ s.commits) : ¬ ∀ c ∈ cursor, c < name := by
  intro behind
  have member : (name, commit) ∈ Keyset.behind Prod.fst (Keyset.sortedBy Prod.fst s.commits) cursor :=
    Keyset.mem_behind.mpr ⟨(Keyset.sortedBy_perm Prod.fst s.commits).mem_iff.mpr stored, behind⟩
  rcases List.take_eq_nil_iff.mp empty with zero | none
  · cases zero
  · rw [none] at member
    cases member

/-- A step of a purge goes on with nothing left behind it, or ends with nothing left. -/
theorem Purge.Ok.advance {p : Purge} (inv : Inv s) (ok : p.Ok s) :
    (∀ q, (p.advance s).2 = some q → q.Ok (p.advance s).1) ∧
      ((p.advance s).2 = none → ∀ id ∈ p.kept, ∀ name commit, ¬ Mentions (p.advance s).1 id name commit) := by
  have done := advances p s
  generalize p.advance s = result at done ⊢
  have ahead := ok.ahead
  simp only [Purge.Ahead] at ahead
  cases done with
  | query last page found =>
      constructor
      · rintro q ⟨⟩
        refine ⟨ok.targets, ok.tombstoned, ?_⟩
        intro id kept name commit mentions
        have behind := ahead id kept name commit mentions
        rw [page] at behind
        rcases mem_pageBehind_or_behind inv found mentions.1 behind with here | later
        · exact .inl here
        · exact .inr ⟨decide_eq_true later.1, later.2⟩
      · intro more
        cases more
  | turn page full =>
      constructor
      · rintro q ⟨⟩
        refine ⟨ok.targets, ok.tombstoned, ?_⟩
        intro id kept name commit mentions cursor same
        have behind := ahead id kept name commit mentions
        rw [page] at behind
        rcases behind with here | later
        · cases here
        · cases same
          exact later.2
      · intro more
        cases more
  | finish ended =>
      constructor
      · rintro q ⟨⟩
      · intro _ id kept name commit mentions
        have behind := ahead id kept name commit mentions
        rcases ended with ⟨page, empty⟩ | ⟨page, short⟩
        · rw [page] at behind
          exact not_behind_of_pageBehind s empty mentions.1 behind
        · rw [page] at behind
          rcases behind with here | later
          · cases here
          · rw [short] at later
            cases later.1
  | delete name commit rest page references =>
      constructor
      · rintro q ⟨⟩
        refine ⟨ok.targets, ok.tombstoned, ?_⟩
        intro id kept other commit' mentions
        obtain ⟨stored, apart⟩ := List.mem_filter.mp mentions.1
        have behind := ahead id kept other commit' ⟨stored, mentions.2⟩
        rw [page] at behind
        rcases behind with here | later
        · rcases List.mem_cons.mp here with same | next
          · cases same
            exact absurd rfl (of_decide_eq_true apart)
          · exact .inl next
        · exact .inr later
      · intro more
        cases more
  | pass name commit rest page clear =>
      constructor
      · rintro q ⟨⟩
        refine ⟨ok.targets, ok.tombstoned, ?_⟩
        intro id kept other commit' mentions
        have behind := ahead id kept other commit' mentions
        rw [page] at behind
        rcases behind with here | later
        · rcases List.mem_cons.mp here with same | next
          · cases same
            rw [references_of_mentioned mentions.2 (ok.targets id kept)] at clear
            cases clear
          · exact .inl next
        · exact .inr later
      · intro more
        cases more

/-- What a step of a purge leaves alone, and what it counts as cleaned. -/
theorem advance_frame (p : Purge) (s : Ledger) :
    (p.advance s).1.purges = s.purges ∧ (p.advance s).1.tombstoned = s.tombstoned ∧
      (∀ id name commit, Mentions (p.advance s).1 id name commit → Mentions s id name commit) ∧
      ((p.advance s).1.cleaned = s.cleaned ∨
        (p.advance s).2 = none ∧ (p.advance s).1.cleaned = p.kept ++ s.cleaned) := by
  have done := advances p s
  generalize p.advance s = result at done ⊢
  cases done with
  | query => exact ⟨rfl, rfl, fun _ _ _ mentions => mentions, .inl rfl⟩
  | turn => exact ⟨rfl, rfl, fun _ _ _ mentions => mentions, .inl rfl⟩
  | finish => exact ⟨rfl, rfl, fun _ _ _ mentions => mentions, .inr ⟨rfl, rfl⟩⟩
  | delete name =>
      refine ⟨rfl, rfl, ?_, .inl rfl⟩
      intro id other commit mentions
      exact ⟨List.mem_of_mem_filter mentions.1, mentions.2⟩
  | pass => exact ⟨rfl, rfl, fun _ _ _ mentions => mentions, .inl rfl⟩

/-- A step of one purge, among the others. -/
theorem Clean.advance (clean : Clean s) (inv : Inv s) {p : Purge} (member : p ∈ s.purges) :
    Clean (p.advance s).1 ∧ ∀ q, (p.advance s).2 = some q → q.Ok (p.advance s).1 := by
  obtain ⟨purges, tombstoned, fewer, cleaned⟩ := advance_frame p s
  have own := (clean.purges p member).advance inv
  refine ⟨⟨?_, ?_, ?_⟩, own.1⟩
  · intro other inside
    rw [purges] at inside
    have ok := clean.purges other inside
    apply ok.mono
    · intro id kept
      rw [tombstoned]
      exact ok.tombstoned id kept
    · intro id _
      exact fewer id
  · intro id inside
    rw [tombstoned]
    rcases cleaned with same | ⟨-, more⟩
    · exact clean.tombstoned id (same ▸ inside)
    · rw [more] at inside
      rcases List.mem_append.mp inside with kept | before
      · exact (clean.purges p member).tombstoned id kept
      · exact clean.tombstoned id before
  · intro id inside name commit mentions
    rcases cleaned with same | ⟨ended, more⟩
    · exact clean.gone id (same ▸ inside) name commit (fewer id name commit mentions)
    · rw [more] at inside
      rcases List.mem_append.mp inside with kept | before
      · exact own.2 ended id kept name commit mentions
      · exact clean.gone id before name commit (fewer id name commit mentions)

theorem Clean.purges_of (clean : Clean s) {purges : List Purge} (each : ∀ p ∈ purges, p.Ok s) :
    Clean { s with purges := purges } where
  purges := by
    intro p member
    have ok := each p member
    exact ⟨ok.targets, ok.tombstoned, ok.ahead⟩
  tombstoned := clean.tombstoned
  gone := clean.gone

theorem Clean.step (clean : Clean s) (inv : Inv s) {e : Event} (done : s.step d e = some t) : Clean t := by
  cases e with
  | append parent mutations time useCurrentHead =>
      simp only [Ledger.step] at done
      split at done <;> cases done
      exact clean.appends (appendCommit_cases s parent mutations time useCurrentHead)
  | appendBuilt parent mutations time useCurrentHead =>
      simp only [Ledger.step] at done
      split at done <;> cases done
      exact clean.appends (appendCommitWithBuilder_cases s parent mutations time useCurrentHead)
  | tombstone memoryId =>
      cases done
      apply Clean.mono (t := { s with tombstoned := memoryId :: s.tombstoned }) clean rfl rfl
      · intro id member
        exact List.mem_cons_of_mem _ member
      · intro id _ name commit mentions
        exact mentions
  | finalize memoryIds =>
      cases done
      refine ⟨?_, ?_, ?_⟩
      · intro p member
        obtain ⟨q, inside, rfl⟩ := List.mem_map.mp member
        have ok := clean.purges q inside
        refine ⟨?_, ?_, ?_⟩
        · intro id kept
          exact ok.targets id (List.mem_of_mem_filter kept)
        · intro id kept
          obtain ⟨kept, other⟩ := List.mem_filter.mp kept
          exact List.mem_filter.mpr ⟨ok.tombstoned id kept, other⟩
        · intro id kept name commit mentions
          exact ok.ahead id (List.mem_of_mem_filter kept) name commit mentions
      · intro id member
        obtain ⟨member, other⟩ := List.mem_filter.mp member
        exact List.mem_filter.mpr ⟨clean.tombstoned id member, other⟩
      · intro id member name commit mentions
        exact clean.gone id (List.mem_of_mem_filter member) name commit mentions
  | block blocked =>
      cases done
      exact Clean.mono (t := { s with blocked := blocked }) clean rfl rfl (fun _ member => member)
        (fun _ _ _ _ mentions => mentions)
  | startPurge memoryIds =>
      simp only [Ledger.step] at done
      split at done <;> cases done
      · exact clean
      · apply clean.purges_of
        intro p member
        rcases List.mem_append.mp member with old | new
        · exact clean.purges p old
        · rw [List.mem_singleton.mp new]
          refine ⟨?_, ?_, ?_⟩
          · intro id kept
            exact List.mem_of_mem_filter kept
          · intro id kept
            exact of_decide_eq_true (List.mem_filter.mp kept).2
          · rintro id _ name commit _ cursor ⟨⟩
  | purge index =>
      simp only [Ledger.step] at done
      split at done
      · cases done
      · rename_i p found
        obtain ⟨after, next⟩ := clean.advance inv (List.mem_of_getElem? found)
        split at done <;> cases done
        · rename_i q more
          apply after.purges_of
          intro other member
          rcases List.mem_or_eq_of_mem_set member with old | rfl
          · exact after.purges other old
          · exact next _ more
        · apply after.purges_of
          intro other member
          exact after.purges other (List.mem_of_mem_eraseIdx member)
  | abandonPurge index =>
      cases done
      apply clean.purges_of
      intro other member
      exact clean.purges other (List.mem_of_mem_eraseIdx member)

end OmiLocal.Memory.LegacyLedger
