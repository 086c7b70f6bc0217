import OmiLocal.Memory.Admission
import OmiLocal.Memory.CommitChain

/-!
# Well-formed supersession

A commit is a write set over memory ids and event ids when the new item and the
superseded ones are all different. Nothing in the patch or the transaction asks
for that; what is asked for is that the superseded items are active.
-/
namespace OmiLocal.Memory

open Lib Lib.Text Lib.Values

variable {p : Platform}

/-! ## Event ids -/

/-- What the id of an event is made from. -/
def eventIdentity (commitId operationId : String) (key : MemoryOutboxEventType × Option String) : Entries :=
  [("event_type", .str key.1.value), ("commit_id", .str commitId), ("memory_id", optionalText key.2),
    ("operation_id", .str operationId)]

/-- The events of a commit, in their order. -/
def eventKeys (memoryIds : List (Option String)) : List (MemoryOutboxEventType × Option String) :=
  memoryIds.flatMap fun memoryId => [(.projectionSync, memoryId), (.vectorSync, memoryId)]

/-- The first 32 digits tell these payloads apart. -/
def IdsApart (p : Platform) (purpose : String) (payloads : List Entries) : Prop :=
  ∀ a ∈ payloads, ∀ b ∈ payloads, first32 (deterministicContractId p purpose a) =
    first32 (deterministicContractId p purpose b) → a = b

theorem eventIdentity_inj {commitId operationId : String} {a b : MemoryOutboxEventType × Option String}
    (same : eventIdentity commitId operationId a = eventIdentity commitId operationId b) : a = b := by
  obtain ⟨eventType, memoryId⟩ := a
  obtain ⟨eventType', memoryId'⟩ := b
  simp only [eventIdentity, List.cons.injEq, Prod.mk.injEq, Value.str.injEq, true_and, and_true] at same
  obtain ⟨kind, owner⟩ := same
  have kinds : eventType = eventType' := by
    cases eventType <;> cases eventType' <;> first | rfl | exact absurd kind (by decide)
  have owners : memoryId = memoryId' := by
    cases memoryId <;> cases memoryId' <;> first | rfl | cases owner
    rfl
  rw [kinds, owners]

theorem eventId_eq (eventType : MemoryOutboxEventType) (commitId operationId : String) (memoryId : Option String) :
    eventId p eventType commitId memoryId operationId = "evt_" ++ first32 (deterministicContractId p "memory-outbox"
      (eventIdentity commitId operationId (eventType, memoryId))) := rfl

theorem Commit.event_id {c : Commit} {eventType : MemoryOutboxEventType} {memoryId : Option String} {payload : Entries}
    {reading : Int} {e : MemoryOutboxEvent} (done : c.event p eventType memoryId payload reading = .ok e) :
    e.eventId = eventId p eventType c.commitId memoryId c.operation.operationId := by
  unfold Commit.event at done
  dsimp only at done
  split at done
  · cases done
  · cases done
    rfl

theorem Commit.pair_ids {c : Commit} {memoryId : Option String} {payload : MemoryOutboxEventType → Entries}
    {reading : MemoryOutboxEventType → Int} {events : List MemoryOutboxEvent}
    (done : c.pair p memoryId payload reading = .ok events) : events.map (·.eventId) =
      (eventKeys [memoryId]).map fun key => eventId p key.1 c.commitId key.2 c.operation.operationId := by
  obtain ⟨projection, first, done⟩ := Fallible.bind_ok done
  obtain ⟨vector, second, done⟩ := Fallible.bind_ok done
  cases done
  rw [List.map_cons, List.map_singleton, Commit.event_id first, Commit.event_id second]
  rfl

theorem Commit.barrier_ids {c : Commit} {clock : Clock} {events : List MemoryOutboxEvent}
    (done : c.barrierOutboxEvents p clock = .ok events) : events.map (·.eventId) =
      (eventKeys [none]).map fun key => eventId p key.1 c.commitId key.2 c.operation.operationId := by
  unfold Commit.barrierOutboxEvents at done
  exact Commit.pair_ids done

theorem Commit.itemEvents_ids {c : Commit} {clock : Clock} {items : List MemoryItem}
    {pairs : List (List MemoryOutboxEvent)} (done : c.itemEvents p clock items = .ok pairs) :
    pairs.flatten.map (·.eventId) = (eventKeys (items.map fun m => some m.memoryId)).map fun key =>
      eventId p key.1 c.commitId key.2 c.operation.operationId := by
  have each := Fallible.mapM_ok done
  clear done
  generalize 0 = start at each
  induction items generalizing pairs start with
  | nil =>
      rw [List.zipIdx_nil] at each
      cases each
      rfl
  | cons m rest ih =>
      rw [List.zipIdx_cons] at each
      cases each with
      | cons first later =>
          have here := Commit.pair_ids first
          have there := ih (start + 1) later
          rw [List.flatten_cons, List.map_append, here, there, List.map_cons]
          rfl

theorem nodup_eventKeys {memoryIds : List (Option String)} (distinct : memoryIds.Nodup) : (eventKeys memoryIds).Nodup := by
  unfold eventKeys
  rw [List.nodup_flatMap]
  refine ⟨fun memoryId _ => by simp, distinct.imp fun {a b} apart => ?_⟩
  simp [Function.onFun, Ne.symm apart]

/-- Different events get different ids. -/
theorem nodup_eventIds {commitId operationId : String} {memoryIds : List (Option String)} (distinct : memoryIds.Nodup)
    (apart : IdsApart p "memory-outbox" ((eventKeys memoryIds).map (eventIdentity commitId operationId))) :
    ((eventKeys memoryIds).map fun key => eventId p key.1 commitId key.2 operationId).Nodup := by
  refine List.Nodup.map_on (fun a inA b inB same => ?_) (nodup_eventKeys distinct)
  rw [eventId_eq, eventId_eq] at same
  have digits := String.append_right_inj _ |>.mp same
  exact eventIdentity_inj (apart _ (List.mem_map_of_mem inA) _ (List.mem_map_of_mem inB) digits)

/-! ## Supersession -/

/-- What became of an item that the patch supersedes. -/
structure SupersededBy (existing written m : MemoryItem) : Prop where
  memoryId : m.memoryId = existing.memoryId
  wasActive : existing.status = .active
  status : m.status = .superseded
  supersededBy : m.supersededBy = some written.memoryId
  itemRevision : m.itemRevision = existing.itemRevision + 1
  other : m.memoryId ≠ written.memoryId

/-- The result is a write set over its ids, and its first item supersedes the others. -/
structure WellFormedSupersession (p : Platform) (payload : PatchPayload) (r : ApplyResult) : Prop where
  items : (r.memoryItems.map (·.memoryId)).Nodup
  events : (r.outboxEvents.map (·.eventId)).Nodup
  superseded : ∀ written rest, r.memoryItems = written :: rest → ∀ m ∈ rest, ∃ existing,
    (∃ documents ∈ payload.supersededItems, ∃ document ∈ documents, document.read p = .ok existing) ∧
      SupersededBy existing written m

/-- The events that a patch leads to. -/
def commitKeys (p : Platform) (control : MemoryControlState) (op : MemoryOperation) (patch : DurableMemoryPatch) :
    List (MemoryOutboxEventType × Option String) :=
  if patch.decision = .skipDuplicate then eventKeys [none]
  else
    eventKeys ((deterministicMaterializedMemoryId p op.uid patch (control.nextCommitId p op.operationId) ::
      patch.supersedes).map some)

/-- The digests behind the event ids of one commit do not collide. -/
def EventIdsApart (p : Platform) (control : MemoryControlState) (op : MemoryOperation) (patch : DurableMemoryPatch) : Prop :=
  IdsApart p "memory-outbox" ((commitKeys p control op patch).map
    (eventIdentity (control.nextCommitId p op.operationId) op.operationId))

section Commits

variable {control : MemoryControlState} {op : MemoryOperation} {payload : PatchPayload} {allow : Bool} {clock : Clock}
  {r : ApplyResult} {patch : DurableMemoryPatch} {evidence : List MemoryEvidence} {next : MemoryControlState}

theorem Committed.eventIds (h : Committed p control op payload allow clock r patch evidence next) :
    r.outboxEvents.map (·.eventId) = (commitKeys p control op patch).map fun key =>
      eventId p key.1 (control.nextCommitId p op.operationId) key.2 op.operationId := by
  unfold commitKeys
  rcases applyCommit_ok h.applied with ⟨skips, skipped⟩ | ⟨writes, written, item, superseded, wrote⟩
  · rw [if_pos skips]
    rw [Commit.barrier_ids skipped.events]
  · obtain ⟨pairs, made, same⟩ := wrote.events
    have ids := h.ids writes
    rw [wrote.items] at ids
    rw [if_neg writes, same, Commit.itemEvents_ids made, ← ids, List.map_map, Function.comp_def]

theorem Committed.wellFormed_iff (h : Committed p control op payload allow clock r patch evidence next)
    (apart : EventIdsApart p control op patch) :
    WellFormedSupersession p payload r ↔ DistinctTargets p control op patch := by
  constructor
  · intro formed
    by_cases skips : patch.decision = .skipDuplicate
    · exact .inl skips
    · exact .inr (h.ids skips ▸ formed.items)
  · intro distinct
    have keys : (r.outboxEvents.map (·.eventId)).Nodup := by
      rw [h.eventIds]
      unfold EventIdsApart at apart
      unfold commitKeys at apart ⊢
      split
      · rename_i skips
        rw [if_pos skips] at apart
        exact nodup_eventIds (List.nodup_singleton _) apart
      · rename_i writes
        rw [if_neg writes] at apart
        exact nodup_eventIds ((distinct.resolve_left writes).map (Option.some_injective _)) apart
    rcases applyCommit_ok h.applied with ⟨-, skipped⟩ | ⟨writes, written, item, superseded, wrote⟩
    · have none : r.memoryItems = [] := (commitResult_ok skipped.result).2.2.2.1
      refine ⟨none ▸ List.nodup_nil, keys, fun written rest same => ?_⟩
      rw [none] at same
      cases same
    · have nodup : (r.memoryItems.map (·.memoryId)).Nodup := h.ids writes ▸ distinct.resolve_left writes
      refine ⟨nodup, keys, fun first rest same m member => ?_⟩
      rw [wrote.items] at same nodup
      cases same
      obtain ⟨existing, at_, reading, read, active, -, -, rfl⟩ := (supersedeAll_ok wrote.replaced).2 m member
      refine ⟨existing, read, ⟨rfl, active, rfl, rfl, rfl, fun itself => ?_⟩⟩
      have inside := List.mem_map_of_mem (f := MemoryItem.memoryId) member
      rw [itself] at inside
      exact (List.nodup_cons.mp nodup).1 inside

/-- Supersession is well formed exactly when the patch names different items. -/
theorem supersession_well_formed_iff (done : applyLongTermPatchTransaction p control op payload allow clock = .ok r)
    (committed : r.status = .committed) (typed : payload.patch = .typed patch) (apart : EventIdsApart p control op patch) :
    WellFormedSupersession p payload r ↔ DistinctTargets p control op patch := by
  obtain ⟨patch', evidence, next, h⟩ := apply_committed done committed
  have same : patch' = patch := RawPatch.typed.inj (h.typed.symm.trans typed)
  exact (same ▸ h).wellFormed_iff apart

end Commits

/-! ## Sample commits -/

theorem sample_ids_apart :
    EventIdsApart textPlatform sampleControl (sampleOperation textPlatform (samplePatch false ["b"] none))
      (samplePatch false ["b"] none) := by
  have digests : (((commitKeys textPlatform sampleControl (sampleOperation textPlatform (samplePatch false ["b"] none))
      (samplePatch false ["b"] none)).map (eventIdentity
        (sampleControl.nextCommitId textPlatform (sampleOperation textPlatform (samplePatch false ["b"] none)).operationId)
        (sampleOperation textPlatform (samplePatch false ["b"] none)).operationId)).map
      fun payload => first32 (deterministicContractId textPlatform "memory-outbox" payload)).Nodup := by
    decide +kernel
  exact fun a inA b inB same => List.inj_on_of_nodup_map digests inA inB same

theorem supersession_well_formed_iff_once : ∃ r, applyLongTermPatchTransaction textPlatform sampleControl
    (sampleOperation textPlatform (samplePatch false ["b"] none)) (samplePayload (samplePatch false ["b"] none)) false
    sampleClock = .ok r ∧ WellFormedSupersession textPlatform (samplePayload (samplePatch false ["b"] none)) r := by
  obtain ⟨r, done, committed, -⟩ := @sample_commits textPlatform false ["b"] none _ rfl
  exact ⟨r, done, (supersession_well_formed_iff done committed rfl sample_ids_apart).mpr (.inr (by decide))⟩

/-- An id that is listed twice is superseded twice, with the same event ids. -/
theorem superseded_twice_malformed : ∃ r, applyLongTermPatchTransaction textPlatform sampleControl
    (sampleOperation textPlatform (samplePatch false ["b", "b"] none)) (samplePayload (samplePatch false ["b", "b"] none))
    false sampleClock = .ok r ∧ r.status = .committed ∧
    ¬WellFormedSupersession textPlatform (samplePayload (samplePatch false ["b", "b"] none)) r := by
  obtain ⟨r, done, committed, -⟩ := @sample_commits textPlatform false ["b", "b"] none _ rfl
  obtain ⟨patch, evidence, next, h⟩ := apply_committed done committed
  have same : patch = samplePatch false ["b", "b"] none := RawPatch.typed.inj h.typed.symm
  refine ⟨r, done, committed, fun formed => ?_⟩
  have nodup := formed.items
  rw [h.ids (by rw [same]; decide), same] at nodup
  exact absurd nodup.of_cons (by decide)

end OmiLocal.Memory
