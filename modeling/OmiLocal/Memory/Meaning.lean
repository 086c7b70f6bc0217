import OmiLocal.Memory.Committed

/-!
# The meaning of long-term memories

When an update leaves what a long-term memory says: its content, its evidence and
its subject, predicate and arguments.
-/
namespace OmiLocal.Memory

open Lib Lib.Values

variable {p : Platform}

structure MeaningKept (existing result : MemoryItem) : Prop where
  content : result.content = existing.content
  evidence : evidenceIds result.evidence = evidenceIds existing.evidence
  subject : result.subjectEntityId = existing.subjectEntityId
  predicate : result.predicate = existing.predicate
  arguments : sameDict result.arguments existing.arguments = true

def DurableMemoryPatch.withoutAssertion (patch : DurableMemoryPatch) : DurableMemoryPatch :=
  { patch with subjectEntityId := none, predicate := none, arguments := [] }

/-- The patch proposes no change by the code's own test, sets no empty text over
another one, and clears no assertion that the item has. -/
structure KeepsMeaning (existing : MemoryItem) (patch : DurableMemoryPatch) (evidence : List MemoryEvidence) : Prop where
  proposed : patch.clearGraphAssertion = false → semanticChange existing patch evidence = false
  emptied : patch.clearGraphAssertion = false →
    (patch.subjectEntityId = some "" → existing.subjectEntityId = some "") ∧
      (patch.predicate = some "" → existing.predicate = some "")
  cleared : patch.clearGraphAssertion = true → semanticChange existing patch.withoutAssertion evidence = false ∧
    existing.subjectEntityId = none ∧ existing.predicate = none ∧ existing.arguments = []

theorem semanticChange_eq_false {existing : MemoryItem} {patch : DurableMemoryPatch} {evidence : List MemoryEvidence} :
    semanticChange existing patch evidence = false ↔ resolvedUpdateContent existing patch = existing.content ∧
      evidenceIds (resolvedEvidence existing evidence) = evidenceIds existing.evidence ∧
      textOr patch.subjectEntityId existing.subjectEntityId = existing.subjectEntityId ∧
      textOr patch.predicate existing.predicate = existing.predicate ∧
      sameDict (argumentsOr patch.arguments existing.arguments) existing.arguments = true := by
  unfold semanticChange
  simp only [Bool.or_eq_false_iff, bne_eq_false_iff_eq, Bool.not_eq_false', and_assoc]

/-- A text that the patch gives is the text there is, if it is not the empty one. -/
theorem written_eq_iff {given_ existing : Option String} :
    (if given_.isSome then given_ else existing) = existing ↔
      textOr given_ existing = existing ∧ (given_ = some "" → existing = some "") := by
  unfold textOr given
  cases given_ with
  | none => simp
  | some text =>
      by_cases empty : text = ""
      · subst empty
        simp [eq_comm]
      · simp [empty]

/-- The fields that carry the meaning, as the update writes them. -/
theorem meaningKept_iff {existing m : MemoryItem} {patch : DurableMemoryPatch} {evidence : List MemoryEvidence}
    {commitId : String} {sequence : Int} {promotionAudit : Option Entries} {extra : ItemUpdates} {reading : Int}
    (done : applyUpdateMemoryItem p existing patch evidence commitId sequence promotionAudit extra reading = .ok m) :
    MeaningKept existing m ↔ KeepsMeaning existing patch evidence := by
  obtain ⟨updatedAt, expiresAt, -, -, rfl⟩ := applyUpdateMemoryItem_ok done
  cases clears : patch.clearGraphAssertion with
  | false =>
      rw [if_neg Bool.false_ne_true]
      constructor
      · intro kept
        have subject := written_eq_iff.mp kept.subject
        have predicate := written_eq_iff.mp kept.predicate
        refine ⟨fun _ => ?_, fun _ => ⟨subject.2, predicate.2⟩, fun clear => absurd (clears.symm.trans clear) (by decide)⟩
        exact semanticChange_eq_false.mpr ⟨kept.content, kept.evidence, subject.1, predicate.1, kept.arguments⟩
      · intro keeps
        obtain ⟨content, ids, subject, predicate, arguments⟩ := semanticChange_eq_false.mp (keeps.proposed clears)
        obtain ⟨subjectText, predicateText⟩ := keeps.emptied clears
        exact ⟨content, ids, written_eq_iff.mpr ⟨subject, subjectText⟩, written_eq_iff.mpr ⟨predicate, predicateText⟩,
          arguments⟩
  | true =>
      rw [if_pos rfl]
      constructor
      · intro kept
        have subject : existing.subjectEntityId = none := kept.subject.symm
        have predicate : existing.predicate = none := kept.predicate.symm
        have none : existing.arguments = [] := (sameDict_nil _).mp kept.arguments
        refine ⟨fun clear => absurd (clears.symm.trans clear) (by decide),
          fun clear => absurd (clears.symm.trans clear) (by decide), fun _ => ⟨?_, subject, predicate, none⟩⟩
        refine semanticChange_eq_false.mpr ⟨kept.content, kept.evidence, rfl, rfl, ?_⟩
        change sameDict existing.arguments existing.arguments = true
        rw [none]
        rfl
      · intro keeps
        obtain ⟨same, subject, predicate, none⟩ := keeps.cleared clears
        obtain ⟨content, ids, -⟩ := semanticChange_eq_false.mp same
        exact ⟨content, ids, subject.symm, predicate.symm, (sameDict_nil _).mpr none⟩

/-- An update of a long-term memory that leaves an active long-term one keeps its meaning
exactly when the patch keeps it; for an active memory the proposed change is refused. -/
theorem long_term_meaning_kept_iff {p : Platform} {control : MemoryControlState} {op : MemoryOperation} {payload : PatchPayload}
    {clock : Clock} {r : ApplyResult} {patch : DurableMemoryPatch} {evidence : List MemoryEvidence}
    {document : ItemDocument} {existing item : MemoryItem}
    (done : applyLongTermPatchTransaction p control op payload false clock = .ok r) (committed : r.status = .committed)
    (typed : payload.patch = .typed patch) (updates : patch.decision = .update)
    (resolved : payload.resolvedEvidence = .ok evidence) (supplied : payload.existingItem = some document)
    (read : document.read p = .ok existing) (longTerm : existing.tier = .longTerm)
    (result : r.memoryItems.head? = some item) (active : item.status = .active) (stays : item.tier = .longTerm)
    (plain : op.operationType ≠ .graphEnrichment) :
    (MeaningKept existing item ↔ KeepsMeaning existing patch evidence) ∧
      (existing.status = .active → semanticChange existing patch evidence = false) := by
  obtain ⟨patch', evidence', next, h⟩ := apply_committed done committed
  obtain rfl : patch' = patch := RawPatch.typed.inj (h.typed.symm.trans typed)
  obtain rfl : evidence' = evidence := Except.ok.inj (h.resolved.symm.trans resolved)
  rcases applyCommit_ok h.applied with ⟨skips, -⟩ | ⟨-, written, item', superseded, wrote⟩
  · rw [updates] at skips
    cases skips
  · obtain rfl : item' = item := by
      rw [wrote.items] at result
      exact Option.some.inj result
    rcases writtenItem_ok wrote.wrote with ⟨-, found, admitted, made, -⟩ | ⟨creates, -⟩
    · obtain rfl : found = existing := by
        obtain ⟨document', here, read'⟩ := admitted.read
        obtain rfl : document' = document := Option.some.inj (here.symm.trans supplied)
        exact Except.ok.inj (read'.symm.trans read)
      have kept := meaningKept_iff made
      have tier : written.1.tier = patch'.targetTier.getD found.tier := by
        obtain ⟨updatedAt, expiresAt, -, -, same⟩ := applyUpdateMemoryItem_ok made
        rw [same]
        split <;> rfl
      have same : (MeaningKept found item' ↔ MeaningKept found written.1) ∧ item'.tier = written.1.tier := by
        rcases refreshGraphAssertion_ok wrote.refreshed with ⟨-, rfl⟩ | ⟨-, plan, assertion, -, rfl⟩
        · exact ⟨Iff.rfl, rfl⟩
        · exact ⟨⟨fun k => ⟨k.1, k.2, k.3, k.4, k.5⟩, fun k => ⟨k.1, k.2, k.3, k.4, k.5⟩⟩, rfl⟩
      refine ⟨same.1.trans kept, ?_⟩
      intro wasActive
      by_contra change
      have guarded : found.activeLongTerm = true := by
        unfold MemoryItem.activeLongTerm
        rw [longTerm, wasActive]
        rfl
      rcases admitted.meaning guarded (Bool.not_eq_false _ ▸ change) with demoted | graph | allowed
      · unfold DurableMemoryPatch.explicitShortTermDemotion at demoted
        have moved : patch'.targetTier = some .shortTerm := by
          simpa using (Bool.and_eq_true_iff.mp demoted).1
        rw [same.2, tier, moved] at stays
        cases stays
      · exact plain graph
      · cases allowed
    · exact absurd updates creates

/-- An update that says the same again. -/
theorem long_term_meaning_kept_iff_repeated : ∃ r, applyLongTermPatchTransaction samplePlatform sampleControl
    (sampleOperation samplePlatform (samplePatch false [] none)) (samplePayload (samplePatch false [] none))
    false sampleClock = .ok r ∧ ∃ item, r.memoryItems = [item] ∧
    (MeaningKept (sampleItem "m") item ↔ KeepsMeaning (sampleItem "m") (samplePatch false [] none) [sampleEvidence]) ∧
    ((sampleItem "m").status = .active →
      semanticChange (sampleItem "m") (samplePatch false [] none) [sampleEvidence] = false) := by
  obtain ⟨r, done, committed, items⟩ := @sample_commits samplePlatform false [] none _ rfl
  refine ⟨r, done, _, items, ?_⟩
  exact long_term_meaning_kept_iff done committed rfl rfl rfl rfl rfl rfl (by rw [items]; rfl) rfl rfl (by decide)

/-- Clearing the graph assertion of an active long-term memory that stays one takes its
subject away. -/
theorem cleared_subject : ∃ r, applyLongTermPatchTransaction samplePlatform sampleControl
    (sampleOperation samplePlatform (samplePatch true [] none)) (samplePayload (samplePatch true [] none))
    false sampleClock = .ok r ∧ r.status = .committed ∧ (sampleItem "m").activeLongTerm = true ∧
    ∃ item, r.memoryItems = [item] ∧ item.activeLongTerm = true ∧ (sampleItem "m").subjectEntityId = some "user" ∧
      item.subjectEntityId = none ∧ ¬MeaningKept (sampleItem "m") item := by
  obtain ⟨r, done, committed, items⟩ := @sample_commits samplePlatform true [] none _ rfl
  refine ⟨r, done, committed, rfl, _, items, rfl, rfl, rfl, ?_⟩
  intro kept
  have subject : none = some "user" := kept.subject
  cases subject

end OmiLocal.Memory
