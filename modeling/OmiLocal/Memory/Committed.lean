import OmiLocal.Memory.Apply

/-!
# What a commit writes

The transaction read backwards, once: the checks a commit has passed, its items
and its events. Then a way forward for updates, which commit when nothing refuses
them.
-/
namespace OmiLocal.Memory

open Lib Lib.Text Lib.Values

variable {p : Platform}

theorem raising_ok {α : Type} {x : Except String α} {a : α} (done : raising x = .ok a) : x = .ok a := by
  cases x with
  | error e => cases done
  | ok b => cases done; rfl

theorem raised {α : Type} {x : Except String α} {a : α} (done : x = .ok a) : raising x = .ok a := by
  rw [done]
  rfl

theorem refuse_ne {α : Type} {status : ApplyStatus} {op : MemoryOperation} {reason : Option String}
    {refused : status ≠ .committed} {a : α} (done : refuse status op reason refused = .ok a) : False := by
  cases done

/-! ## What a commit writes -/

theorem commitResult_ok {c : Commit} {next : MemoryControlState} {items : List MemoryItem}
    {assertions : List MemoryGraphAssertion} {events : List MemoryOutboxEvent} {clock : Clock} {r : ApplyResult}
    (done : commitResult p c next items assertions events clock = .ok r) :
    c.operation.status ≠ .committed ∧ r.status = .committed ∧ r.controlState = next ∧ r.memoryItems = items ∧
      r.graphAssertions = assertions ∧ r.outboxEvents = events ∧ r.operation.status = .committed := by
  obtain ⟨made, marked, done⟩ := Fallible.bind_ok done
  cases done
  obtain ⟨open_, committed, -⟩ := MemoryOperation.markCommitted_ok marked
  exact ⟨open_, rfl, rfl, rfl, rfl, rfl, committed⟩

/-- A commit without a written item. -/
structure SkippedDuplicate (p : Platform) (c : Commit) (next : MemoryControlState) (clock : Clock) (r : ApplyResult) :
    Prop where
  events : c.barrierOutboxEvents p clock = .ok r.outboxEvents
  result : commitResult p c next [] [] r.outboxEvents clock = .ok r

/-- The parts of a commit that writes an item. -/
structure WroteItem (p : Platform) (c : Commit) (next : MemoryControlState) (patch : DurableMemoryPatch)
    (payload : PatchPayload) (evidence : List MemoryEvidence) (allow : Bool) (clock : Clock) (r : ApplyResult)
    (written : MemoryItem × Bool) (item : MemoryItem) (superseded : List MemoryItem) : Prop where
  wrote : writtenItem p c patch payload evidence allow clock = .ok written
  refreshed : refreshGraphAssertion p c patch written = .ok (item, r.graphAssertions)
  replaced : supersedeAll p c patch payload item clock = .ok superseded
  items : r.memoryItems = item :: superseded
  events : ∃ pairs, c.itemEvents p clock (item :: superseded) = .ok pairs ∧ r.outboxEvents = pairs.flatten
  result : commitResult p c next (item :: superseded) r.graphAssertions r.outboxEvents clock = .ok r

theorem applyCommit_ok {c : Commit} {next : MemoryControlState} {patch : DurableMemoryPatch} {payload : PatchPayload}
    {evidence : List MemoryEvidence} {allow : Bool} {clock : Clock} {r : ApplyResult}
    (done : applyCommit p c next patch payload evidence allow clock = .ok r) :
    (patch.decision = .skipDuplicate ∧ SkippedDuplicate p c next clock r) ∨
      (patch.decision ≠ .skipDuplicate ∧ ∃ written item superseded,
        WroteItem p c next patch payload evidence allow clock r written item superseded) := by
  unfold applyCommit at done
  split at done
  · rename_i skipped
    obtain ⟨events, made, done⟩ := Fallible.bind_ok done
    have result := raising_ok done
    obtain ⟨-, -, -, -, -, same, -⟩ := commitResult_ok result
    subst same
    exact .inl ⟨skipped, raising_ok made, result⟩
  · rename_i writes
    obtain ⟨written, wrote, done⟩ := Fallible.bind_ok done
    obtain ⟨⟨item, assertions⟩, refreshed, done⟩ := Fallible.bind_ok done
    obtain ⟨superseded, replaced, done⟩ := Fallible.bind_ok done
    obtain ⟨pairs, events, done⟩ := Fallible.bind_ok done
    have result := raising_ok done
    obtain ⟨-, -, -, items, assertionsSame, eventsSame, -⟩ := commitResult_ok result
    subst assertionsSame
    exact .inr ⟨writes, written, item, superseded, wrote, refreshed, replaced, items, ⟨pairs, raising_ok events, eventsSame⟩,
      eventsSame ▸ result⟩

/-- What is known of every commit. -/
structure Committed (p : Platform) (control : MemoryControlState) (op : MemoryOperation) (payload : PatchPayload)
    (allow : Bool) (clock : Clock) (r : ApplyResult) (patch : DurableMemoryPatch) (evidence : List MemoryEvidence)
    (next : MemoryControlState) : Prop where
  typed : payload.patch = .typed patch
  resolved : payload.resolvedEvidence = .ok evidence
  valid : patch.validate p = .ok ()
  checked : checkOperation p control op patch payload evidence clock = .ok ()
  advanced : next = { control with
    headCommitId := control.nextCommitId p op.operationId
    commitSequence := control.commitSequence + 1
    updatedAt := now clock.control }
  applied : applyCommit p ⟨control, op, control.nextCommitId p op.operationId, control.commitSequence + 1⟩ next patch
    payload evidence allow clock = .ok r

theorem applyAttempt_ok {control : MemoryControlState} {op : MemoryOperation} {payload : PatchPayload} {allow : Bool}
    {clock : Clock} {r : ApplyResult} (done : applyAttempt p control op payload allow clock = .ok r) :
    ∃ patch evidence next, Committed p control op payload allow clock r patch evidence next := by
  unfold applyAttempt at done
  obtain ⟨evidence, resolved, done⟩ := Fallible.bind_ok done
  split at done
  · exact (refuse_ne done).elim
  · rename_i patch typed
    split at done
    · exact (refuse_ne done).elim
    · rename_i valid
      obtain ⟨_, checked, done⟩ := Fallible.bind_ok done
      obtain ⟨next, advanced, done⟩ := Fallible.bind_ok done
      have advanced := raising_ok advanced
      unfold MemoryControlState.advanceHead at advanced
      split at advanced
      · cases advanced
      · cases advanced
        exact ⟨patch, evidence, _, typed, raising_ok resolved, valid, checked, rfl, done⟩

theorem applyCommit_committed {c : Commit} {next : MemoryControlState} {patch : DurableMemoryPatch}
    {payload : PatchPayload} {evidence : List MemoryEvidence} {allow : Bool} {clock : Clock} {r : ApplyResult}
    (done : applyCommit p c next patch payload evidence allow clock = .ok r) :
    c.operation.status ≠ .committed ∧ r.status = .committed ∧ r.controlState = next ∧ r.operation.status = .committed := by
  rcases applyCommit_ok done with ⟨-, skipped⟩ | ⟨-, written, item, superseded, wrote⟩
  · obtain ⟨open_, committed, control, -, -, -, op⟩ := commitResult_ok skipped.result
    exact ⟨open_, committed, control, op⟩
  · obtain ⟨open_, committed, control, -, -, -, op⟩ := commitResult_ok wrote.result
    exact ⟨open_, committed, control, op⟩

/-- A result that is no commit carries nothing and leaves the control state. -/
structure Unchanged (control : MemoryControlState) (r : ApplyResult) : Prop where
  refused : r.status ≠ .committed
  controlState : r.controlState = control
  memoryItems : r.memoryItems = []
  graphAssertions : r.graphAssertions = []
  outboxEvents : r.outboxEvents = []

/-- A result is a commit or a refusal. -/
theorem apply_cases {control : MemoryControlState} {op : MemoryOperation} {payload : PatchPayload} {allow : Bool}
    {clock : Clock} {r : ApplyResult} (done : applyLongTermPatchTransaction p control op payload allow clock = .ok r) :
    Unchanged control r ∨ ∃ patch evidence next, Committed p control op payload allow clock r patch evidence next := by
  unfold applyLongTermPatchTransaction at done
  split at done
  · rename_i attempted
    cases done
    exact .inr (applyAttempt_ok attempted)
  · rename_i refusal _
    cases done
    exact .inl ⟨refusal.refused, rfl, rfl, rfl, rfl⟩
  · cases done

theorem apply_committed {control : MemoryControlState} {op : MemoryOperation} {payload : PatchPayload} {allow : Bool}
    {clock : Clock} {r : ApplyResult} (done : applyLongTermPatchTransaction p control op payload allow clock = .ok r)
    (committed : r.status = .committed) :
    ∃ patch evidence next, Committed p control op payload allow clock r patch evidence next := by
  rcases apply_cases done with unchanged | found
  · exact absurd committed unchanged.refused
  · exact found

/-! ## Events -/

def eventsFor (events : List MemoryOutboxEvent) (eventType : MemoryOutboxEventType) (memoryId : Option String) : Nat :=
  events.countP fun e => decide (e.eventType = eventType ∧ e.memoryId = memoryId)

/-- An event names the old head, the new commit and its sequence. -/
structure Commit.Names (c : Commit) (e : MemoryOutboxEvent) : Prop where
  commit : e.commitId = c.commitId
  parent : e.parentCommitId = c.control.headCommitId
  sequence : e.commitSequence = c.sequence

theorem Commit.event_ok {c : Commit} {eventType : MemoryOutboxEventType} {memoryId : Option String} {payload : Entries}
    {reading : Int} {e : MemoryOutboxEvent} (done : c.event p eventType memoryId payload reading = .ok e) :
    c.Names e ∧ e.eventType = eventType ∧ e.memoryId = memoryId ∧ e.payload = payload := by
  unfold Commit.event at done
  dsimp only at done
  split at done
  · cases done
  · cases done
    exact ⟨⟨rfl, rfl, rfl⟩, rfl, rfl, rfl⟩

theorem Commit.pair_ok {c : Commit} {memoryId : Option String} {payload : MemoryOutboxEventType → Entries}
    {reading : MemoryOutboxEventType → Int} {events : List MemoryOutboxEvent}
    (done : c.pair p memoryId payload reading = .ok events) :
    (∀ e ∈ events, c.Names e ∧ e.memoryId = memoryId ∧ e.payload = payload e.eventType) ∧
      ∀ eventType id, eventsFor events eventType id = if memoryId = id then 1 else 0 := by
  obtain ⟨projection, first, done⟩ := Fallible.bind_ok done
  obtain ⟨vector, second, done⟩ := Fallible.bind_ok done
  cases done
  obtain ⟨firstNames, firstType, firstId, firstPayload⟩ := Commit.event_ok first
  obtain ⟨secondNames, secondType, secondId, secondPayload⟩ := Commit.event_ok second
  constructor
  · intro e member
    rcases List.mem_cons.mp member with rfl | member
    · exact ⟨firstNames, firstId, firstType ▸ firstPayload⟩
    · rw [List.mem_singleton.mp member]
      exact ⟨secondNames, secondId, secondType ▸ secondPayload⟩
  · intro eventType id
    unfold eventsFor
    rw [List.countP_cons, List.countP_singleton, firstType, firstId, secondType, secondId]
    by_cases same : memoryId = id
    · cases eventType <;> simp [same]
    · simp [same]

theorem Commit.itemEvents_ok {c : Commit} {clock : Clock} {items : List MemoryItem}
    {pairs : List (List MemoryOutboxEvent)} (done : c.itemEvents p clock items = .ok pairs) :
    (∀ e ∈ pairs.flatten, c.Names e ∧ ∃ m ∈ items, e.memoryId = some m.memoryId) ∧
      ∀ eventType id, eventsFor pairs.flatten eventType (some id) = (items.map (·.memoryId)).count id := by
  have each := Fallible.mapM_ok done
  clear done
  generalize 0 = start at each
  induction items generalizing pairs start with
  | nil =>
      rw [List.zipIdx_nil] at each
      cases each
      refine ⟨?_, fun _ _ => rfl⟩
      intro e member
      cases member
  | cons m rest ih =>
      rw [List.zipIdx_cons] at each
      cases each with
      | cons first later =>
          obtain ⟨names, counts⟩ := ih (start + 1) later
          obtain ⟨firstNames, firstCounts⟩ := Commit.pair_ok first
          rw [List.flatten_cons]
          constructor
          · intro e member
            rcases List.mem_append.mp member with here | there
            · exact ⟨(firstNames e here).1, m, List.mem_cons_self, (firstNames e here).2.1⟩
            · obtain ⟨named, n, inside, same⟩ := names e there
              exact ⟨named, n, List.mem_cons_of_mem m inside, same⟩
          · intro eventType id
            have back := counts eventType id
            have front := firstCounts eventType (some id)
            unfold eventsFor at back front ⊢
            rw [List.countP_append, front, back, List.map_cons, List.count_cons, Nat.add_comm]
            simp

/-! ## The changed items -/

/-- The dictionary of the superseded items has each under its own id. -/
theorem mem_byId {items : List MemoryItem} {d : List (String × MemoryItem)} {k : String} {m : MemoryItem}
    (member : (k, m) ∈ items.foldl (fun d m => Dict.put d m.memoryId m) d) :
    (m.memoryId = k ∧ m ∈ items) ∨ (k, m) ∈ d := by
  induction items generalizing d with
  | nil => exact .inr member
  | cons first rest ih =>
      rcases ih member with ⟨same, inside⟩ | earlier
      · exact .inl ⟨same, List.mem_cons_of_mem first inside⟩
      · rcases Dict.mem_put.mp earlier with ⟨old, -⟩ | new
        · exact .inr old
        · cases new
          exact .inl ⟨rfl, List.mem_cons_self⟩

theorem supersedeOne_ok {c : Commit} {patch : DurableMemoryPatch} {written : MemoryItem} {clock : Clock}
    {items : List (String × MemoryItem)} {target : String × Nat} {m : MemoryItem}
    (done : supersedeOne c patch written clock items target = .ok m) :
    ∃ existing at_, (target.1, existing) ∈ items ∧ existing.status = .active ∧
      (patch.ofLedger = true → existing.ledgerSchemaVersion = some knowledgeLedger) ∧
      supersededAt existing written patch.ofLedger (clock.superseded target.2) = .ok at_ ∧
      m = existing.supersede c written.memoryId patch.ofLedger at_ := by
  unfold supersedeOne at done
  split at done
  · cases done
  · rename_i existing found
    split at done
    · exact (refuse_ne done).elim
    · rename_i active
      split at done
      · exact (refuse_ne done).elim
      · rename_i rows
        split at done
        · exact (refuse_ne done).elim
        · obtain ⟨at_, chosen, done⟩ := Fallible.bind_ok done
          cases done
          refine ⟨existing, at_, Dict.get_eq_some found, not_not.mp active, ?_, raising_ok chosen, rfl⟩
          intro ledger
          simpa [ledger] using rows

/-- Every superseded item was read from a document; they come in the patch's order. -/
theorem supersedeAll_ok {c : Commit} {patch : DurableMemoryPatch} {payload : PatchPayload} {written : MemoryItem}
    {clock : Clock} {superseded : List MemoryItem}
    (done : supersedeAll p c patch payload written clock = .ok superseded) :
    superseded.map (·.memoryId) = patch.supersedes ∧ ∀ m ∈ superseded, ∃ existing at_ reading,
      (∃ documents ∈ payload.supersededItems, ∃ document ∈ documents, document.read p = .ok existing) ∧
      existing.status = .active ∧ (patch.ofLedger = true → existing.ledgerSchemaVersion = some knowledgeLedger) ∧
      supersededAt existing written patch.ofLedger reading = .ok at_ ∧
      m = existing.supersede c written.memoryId patch.ofLedger at_ := by
  unfold supersedeAll at done
  split at done
  · rename_i none
    cases done
    exact ⟨(List.isEmpty_iff.mp none).symm, fun m member => by cases member⟩
  · split at done
    · exact (refuse_ne done).elim
    · rename_i documents given
      obtain ⟨read, loaded, done⟩ := Fallible.bind_ok done
      dsimp only at done
      split at done
      · exact (refuse_ne done).elim
      · have from_ : ∀ target m, supersedeOne c patch written clock
            (read.foldl (fun d m => Dict.put d m.memoryId m) []) target = .ok m → m.memoryId = target.1 ∧
            ∃ existing at_, existing ∈ read ∧ existing.status = .active ∧
              (patch.ofLedger = true → existing.ledgerSchemaVersion = some knowledgeLedger) ∧
              supersededAt existing written patch.ofLedger (clock.superseded target.2) = .ok at_ ∧
              m = existing.supersede c written.memoryId patch.ofLedger at_ := by
          intro target m made
          obtain ⟨existing, at_, member, active, rows, chosen, rfl⟩ := supersedeOne_ok made
          rcases mem_byId member with ⟨same, inside⟩ | none
          · exact ⟨same, existing, at_, inside, active, rows, chosen, rfl⟩
          · cases none
        constructor
        · rw [Fallible.map_mapM done (fun target m made => (from_ target m made).1)]
          exact List.zipIdx_map_fst 0 patch.supersedes
        · intro m member
          obtain ⟨target, -, made⟩ := Fallible.mem_of_mapM done member
          obtain ⟨-, existing, at_, inside, rest⟩ := from_ target m made
          obtain ⟨document, listed, loaded⟩ := Fallible.mem_of_mapM (raising_ok loaded) inside
          exact ⟨existing, at_, clock.superseded target.2, ⟨documents, given, document, listed, loaded⟩, rest⟩

theorem applyUpdateMemoryItem_ok {existing m : MemoryItem} {patch : DurableMemoryPatch} {evidence : List MemoryEvidence}
    {commitId : String} {sequence : Int} {promotionAudit : Option Entries} {extra : ItemUpdates} {reading : Int}
    (done : applyUpdateMemoryItem p existing patch evidence commitId sequence promotionAudit extra reading = .ok m) :
    ∃ updatedAt expiresAt, updateTime existing reading = .ok updatedAt ∧
      updateExpiry existing (patch.targetTier.getD existing.tier) = .ok expiresAt ∧
      m = if patch.clearGraphAssertion then
          (extra.apply (patch.ledgerUpdates (updatedFields p existing patch evidence commitId sequence promotionAudit
            updatedAt expiresAt))).clearGraphAssertion
        else extra.apply (patch.ledgerUpdates (updatedFields p existing patch evidence commitId sequence promotionAudit
          updatedAt expiresAt)) := by
  obtain ⟨updatedAt, latest, done⟩ := Fallible.bind_ok done
  obtain ⟨expiresAt, expiry, done⟩ := Fallible.bind_ok done
  obtain ⟨_, -, done⟩ := Fallible.bind_ok done
  cases done
  exact ⟨updatedAt, expiresAt, latest, expiry, rfl⟩

/-- What an update that was not refused has passed. -/
structure UpdateAdmitted (p : Platform) (control : MemoryControlState) (op : MemoryOperation) (patch : DurableMemoryPatch)
    (payload : PatchPayload) (evidence : List MemoryEvidence) (allow : Bool) (existing : MemoryItem) : Prop where
  read : ∃ document ∈ payload.existingItem, document.read p = .ok existing
  target : given patch.targetMemoryId = true ∧ patch.targetMemoryId = some existing.memoryId
  enrichment : op.operationType = .graphEnrichment →
    graphEnrichmentAllowed p op existing control patch payload evidence = true
  meaning : existing.activeLongTerm = true → semanticChange existing patch evidence = true →
    patch.explicitShortTermDemotion = true ∨ op.operationType = .graphEnrichment ∨ allow = true
  promotion : transitioningToLongTerm existing patch = true → checkPromotion p op existing patch payload evidence = .ok ()

theorem existingForUpdate_ok {control : MemoryControlState} {op : MemoryOperation} {patch : DurableMemoryPatch}
    {payload : PatchPayload} {evidence : List MemoryEvidence} {allow : Bool} {existing : MemoryItem}
    (done : existingForUpdate p control op patch payload evidence allow = .ok existing) :
    UpdateAdmitted p control op patch payload evidence allow existing := by
  unfold existingForUpdate at done
  split at done
  · exact (refuse_ne done).elim
  · rename_i document supplied
    obtain ⟨found, read, done⟩ := Fallible.bind_ok done
    split at done
    · exact (refuse_ne done).elim
    · rename_i target
      split at done
      · exact (refuse_ne done).elim
      · split at done
        · exact (refuse_ne done).elim
        · split at done
          · exact (refuse_ne done).elim
          · rename_i enrichment
            split at done
            · exact (refuse_ne done).elim
            · rename_i meaning
              have promoted : found = existing ∧ (transitioningToLongTerm found patch = true →
                  checkPromotion p op found patch payload evidence = .ok ()) := by
                dsimp only at done
                split at done
                · obtain ⟨_, checked, done⟩ := Fallible.bind_ok done
                  cases done
                  exact ⟨rfl, fun _ => checked⟩
                · rename_i stays
                  cases done
                  exact ⟨rfl, fun moves => absurd moves stays⟩
              obtain ⟨rfl, promoted⟩ := promoted
              refine ⟨⟨document, supplied, raising_ok read⟩, ?_, ?_, ?_, promoted⟩
              · have same : given patch.targetMemoryId = true ∧ some found.memoryId = patch.targetMemoryId := by
                  simpa using target
                exact ⟨same.1, same.2.symm⟩
              · intro graph
                simpa [graph] using enrichment
              · intro active change
                simp only [active, change, Bool.true_and, Bool.and_eq_true, Bool.not_eq_true', bne_iff_ne, not_and,
                  Bool.not_eq_false] at meaning
                cases demotion : patch.explicitShortTermDemotion with
                | true => exact .inl rfl
                | false =>
                    by_cases graph : op.operationType = .graphEnrichment
                    · exact .inr (.inl graph)
                    · exact .inr (.inr (meaning ⟨demotion, graph⟩))

theorem writtenItem_ok {c : Commit} {patch : DurableMemoryPatch} {payload : PatchPayload} {evidence : List MemoryEvidence}
    {allow : Bool} {clock : Clock} {written : MemoryItem × Bool}
    (done : writtenItem p c patch payload evidence allow clock = .ok written) :
    (patch.decision = .update ∧ ∃ existing,
      UpdateAdmitted p c.control c.operation patch payload evidence allow existing ∧
      applyUpdateMemoryItem p existing patch evidence c.commitId c.sequence payload.promotionAudit
        (payload.extraItemUpdates p) clock.item = .ok written.1 ∧
      written.2 = (transitioningToLongTerm existing patch || c.operation.operationType == .graphEnrichment)) ∨
    (patch.decision ≠ .update ∧ written.2 = false ∧ ∃ made,
      materializeMemoryItem p c.operation.uid patch evidence c.commitId c.sequence c.control.accountGeneration
        payload.promotion clock.item = .ok made ∧
      (written.1 = made ∨ ((payload.extraItemUpdates p).apply made).parse p = .ok written.1)) := by
  unfold writtenItem at done
  dsimp only at done
  split at done
  · rename_i updates
    obtain ⟨existing, admitted, done⟩ := Fallible.bind_ok done
    obtain ⟨item, made, done⟩ := Fallible.bind_ok done
    cases done
    exact .inl ⟨updates, existing, existingForUpdate_ok admitted, raising_ok made, rfl⟩
  · rename_i creates
    obtain ⟨made, created, done⟩ := Fallible.bind_ok done
    right
    refine ⟨creates, ?_⟩
    split at done
    · cases done
      exact ⟨rfl, made, raising_ok created, .inl rfl⟩
    · obtain ⟨item, parsed, done⟩ := Fallible.bind_ok done
      cases done
      exact ⟨rfl, made, raising_ok created, .inr (raising_ok parsed)⟩

theorem refreshGraphAssertion_ok {c : Commit} {patch : DurableMemoryPatch} {written : MemoryItem × Bool}
    {item : MemoryItem} {assertions : List MemoryGraphAssertion}
    (done : refreshGraphAssertion p c patch written = .ok (item, assertions)) :
    (refreshesGraphAssertion patch written = false ∧ item = written.1) ∨
    (refreshesGraphAssertion patch written = true ∧ ∃ plan assertion,
      buildMemoryGraphAssertion p c.operation.uid written.1.memoryId written.1.itemRevision
        (written.1.contentHash.getD "") (evidenceIds written.1.evidence) plan c.commitId c.sequence written.1.updatedAt =
        .ok assertion ∧
      item = written.1.withAssertion assertion plan) := by
  unfold refreshGraphAssertion at done
  dsimp only at done
  split at done
  · rename_i refreshes
    split at done
    · split at done
      · exact (refuse_ne done).elim
      · rename_i plan _
        obtain ⟨assertion, built, done⟩ := Fallible.bind_ok done
        cases done
        exact .inr ⟨refreshes, plan, assertion, raising_ok built, rfl⟩
    · exact (refuse_ne done).elim
  · rename_i stays
    cases done
    exact .inl ⟨Bool.not_eq_true _ ▸ stays, rfl⟩

theorem refreshGraphAssertion_memoryId {c : Commit} {patch : DurableMemoryPatch} {written : MemoryItem × Bool}
    {item : MemoryItem} {assertions : List MemoryGraphAssertion}
    (done : refreshGraphAssertion p c patch written = .ok (item, assertions)) : item.memoryId = written.1.memoryId := by
  rcases refreshGraphAssertion_ok done with ⟨-, rfl⟩ | ⟨-, plan, assertion, -, rfl⟩ <;> rfl

theorem applyUpdateMemoryItem_memoryId {existing m : MemoryItem} {patch : DurableMemoryPatch}
    {evidence : List MemoryEvidence} {commitId : String} {sequence : Int} {promotionAudit : Option Entries}
    {extra : ItemUpdates} {reading : Int}
    (done : applyUpdateMemoryItem p existing patch evidence commitId sequence promotionAudit extra reading = .ok m) :
    m.memoryId = existing.memoryId := by
  obtain ⟨updatedAt, expiresAt, -, -, rfl⟩ := applyUpdateMemoryItem_ok done
  split <;> rfl

theorem materializeMemoryItem_ok {uid : String} {patch : DurableMemoryPatch} {evidence : List MemoryEvidence}
    {commitId : String} {sequence accountGeneration : Int} {promotion : Option Entries} {reading : Int} {m : MemoryItem}
    (done : materializeMemoryItem p uid patch evidence commitId sequence accountGeneration promotion reading = .ok m) :
    m.Valid p ∧ m.memoryId = deterministicMaterializedMemoryId p uid patch commitId := by
  obtain ⟨expiresAt, -, done⟩ := Fallible.bind_ok done
  obtain ⟨_, -, done⟩ := Fallible.bind_ok done
  obtain ⟨valid, rfl⟩ := (MemoryItem.parse_ok _ _).mp done
  exact ⟨valid.normalized, rfl⟩

/-- The id of the written item is known before the transaction. -/
theorem writtenItem_memoryId {c : Commit} {patch : DurableMemoryPatch} {payload : PatchPayload}
    {evidence : List MemoryEvidence} {allow : Bool} {clock : Clock} {written : MemoryItem × Bool}
    (done : writtenItem p c patch payload evidence allow clock = .ok written) :
    written.1.memoryId = deterministicMaterializedMemoryId p c.operation.uid patch c.commitId := by
  rcases writtenItem_ok done with ⟨-, existing, admitted, made, -⟩ | ⟨-, -, made, created, written⟩
  · rw [applyUpdateMemoryItem_memoryId made]
    unfold deterministicMaterializedMemoryId
    rw [if_pos admitted.target.1, admitted.target.2]
    rfl
  · rw [← (materializeMemoryItem_ok created).2]
    rcases written with rfl | parsed
    · rfl
    · obtain ⟨-, same⟩ := (MemoryItem.parse_ok _ _).mp parsed
      rw [same]
      rfl

/-! ## Updates that commit -/

theorem blank_commitId (control : MemoryControlState) (operationId : String) :
    blank (control.nextCommitId p operationId) = false := by
  unfold MemoryControlState.nextCommitId
  rw [blank_append]
  rfl

theorem blank_eventId (eventType : MemoryOutboxEventType) (commitId : String) (memoryId : Option String)
    (operationId : String) : blank (eventId p eventType commitId memoryId operationId) = false := by
  unfold eventId
  rw [blank_append]
  rfl

theorem Commit.itemEvents_total {c : Commit} (owner : blank c.operation.uid = false)
    (named : blank c.operation.operationId = false) (commit : blank c.commitId = false) (clock : Clock)
    (items : List MemoryItem) : ∃ pairs, c.itemEvents p clock items = .ok pairs := by
  have each : ∀ eventType memoryId payload reading, ∃ e, c.event p eventType memoryId payload reading = .ok e := by
    intro eventType memoryId payload reading
    unfold Commit.event
    simp [blank_eventId, owner, commit, named]
  apply Fallible.mapM_total
  rintro ⟨m, k⟩ -
  obtain ⟨projection, one⟩ := each .projectionSync (some m.memoryId) m.eventPayload (clock.event k .projectionSync)
  obtain ⟨vector, two⟩ := each .vectorSync (some m.memoryId) m.eventPayload (clock.event k .vectorSync)
  exact ⟨[projection, vector], Fallible.ok_bind one (Fallible.ok_bind two rfl)⟩

/-- An update that is admitted, leaves the graph alone and supersedes known items commits. -/
theorem apply_update {control : MemoryControlState} {op : MemoryOperation} {payload : PatchPayload} {allow : Bool}
    {clock : Clock} {patch : DurableMemoryPatch} {evidence : List MemoryEvidence} {existing m : MemoryItem}
    {superseded : List MemoryItem} (c : Commit)
    (commit : c = ⟨control, op, control.nextCommitId p op.operationId, control.commitSequence + 1⟩)
    (typed : payload.patch = .typed patch) (resolved : payload.resolvedEvidence = .ok evidence)
    (valid : patch.validate p = .ok ()) (checked : checkOperation p control op patch payload evidence clock = .ok ())
    (updates : patch.decision = .update)
    (admitted : existingForUpdate p control op patch payload evidence allow = .ok existing)
    (made : applyUpdateMemoryItem p existing patch evidence c.commitId c.sequence payload.promotionAudit
      (payload.extraItemUpdates p) clock.item = .ok m)
    (plain : refreshesGraphAssertion patch
      (m, transitioningToLongTerm existing patch || op.operationType == .graphEnrichment) = false)
    (replaced : supersedeAll p c patch payload m clock = .ok superseded) (owner : blank op.uid = false)
    (counters : 0 ≤ op.accountGeneration ∧ 0 ≤ op.sourceGeneration ∧ 0 ≤ op.attemptCount)
    (open_ : op.status.terminal = false) (identity : op.operationId = op.buildOperationId p)
    (digest : op.logicalPayloadDigest = logicalPayloadDigest p op.logicalPayload) (counted : 0 ≤ control.commitSequence)
    (created : op.createdAt.aware = true ∧ op.createdAt.micros ≤ clock.operation) :
    ∃ r, applyLongTermPatchTransaction p control op payload allow clock = .ok r ∧ r.status = .committed ∧
      r.memoryItems = m :: superseded := by
  subst commit
  have named : blank op.operationId = false := identity ▸ blank_operationId op
  have commit : blank (control.nextCommitId p op.operationId) = false := blank_commitId control op.operationId
  obtain ⟨pairs, events⟩ := Commit.itemEvents_total (p := p)
    (c := ⟨control, op, control.nextCommitId p op.operationId, control.commitSequence + 1⟩) owner named commit clock
    (m :: superseded)
  have later : (0 : Int) ≤ control.commitSequence + 1 := by omega
  obtain ⟨committed, marked⟩ := MemoryOperation.markCommitted_total open_ owner counters identity digest commit later
    ⟨created.1, (rfl : (now clock.operation).aware = true)⟩ created.2 ((m :: superseded).map (·.memoryId))
    (pairs.flatten.map (·.eventId))
  have wrote : writtenItem p ⟨control, op, control.nextCommitId p op.operationId, control.commitSequence + 1⟩ patch payload
      evidence allow clock =
        .ok (m, transitioningToLongTerm existing patch || op.operationType == .graphEnrichment) := by
    unfold writtenItem
    rw [if_pos updates]
    exact Fallible.ok_bind admitted (Fallible.ok_bind (raised made) rfl)
  have refreshed : refreshGraphAssertion p ⟨control, op, control.nextCommitId p op.operationId,
      control.commitSequence + 1⟩ patch (m, transitioningToLongTerm existing patch ||
        op.operationType == .graphEnrichment) = .ok (m, []) := by
    unfold refreshGraphAssertion
    rw [plain]
    rfl
  let next : MemoryControlState := { control with
    headCommitId := control.nextCommitId p op.operationId
    commitSequence := control.commitSequence + 1
    updatedAt := now clock.control }
  have advanced : control.advanceHead (control.nextCommitId p op.operationId) (now clock.control) = .ok next :=
    if_neg (by rw [commit]; exact Bool.false_ne_true)
  have applied : applyCommit p ⟨control, op, control.nextCommitId p op.operationId, control.commitSequence + 1⟩ next patch
      payload evidence allow clock =
        .ok ⟨.committed, next, committed, m :: superseded, [], pairs.flatten, none⟩ := by
    unfold applyCommit
    rw [if_neg (by rw [updates]; decide)]
    exact Fallible.ok_bind wrote (Fallible.ok_bind refreshed (Fallible.ok_bind replaced (Fallible.ok_bind (raised events)
      (raised (Fallible.ok_bind marked rfl)))))
  have attempted : applyAttempt p control op payload allow clock =
      .ok ⟨.committed, next, committed, m :: superseded, [], pairs.flatten, none⟩ := by
    refine Fallible.ok_bind (raised resolved) ?_
    rw [typed]
    dsimp only
    rw [valid]
    exact Fallible.ok_bind checked (Fallible.ok_bind (raised advanced) applied)
  refine ⟨⟨.committed, next, committed, m :: superseded, [], pairs.flatten, none⟩, ?_, rfl, rfl⟩
  unfold applyLongTermPatchTransaction
  rw [attempted]

/-! ## A sample update -/

def asciiLower (s : String) : String := String.ofList (s.toList.map Char.toLower)

theorem toLower_toLower (c : Char) : c.toLower.toLower = c.toLower := by
  refine dif_neg fun upper => ?_
  by_cases was : 'A'.val ≤ c.val ∧ c.val ≤ 'Z'.val
  · have lowered : c.toLower.val = c.val + 32 := congrArg Char.val (dif_pos was)
    rw [lowered] at upper
    simp only [UInt32.le_iff_toNat_le, UInt32.toNat_add] at was upper
    simp at was upper
    omega
  · have kept : c.toLower = c := dif_neg was
    rw [kept] at upper
    exact was upper

theorem asciiLower_lower (s t : String) (written : ∀ c ∈ t.toList, c ∈ (asciiLower s).toList ∨ c = '_') :
    asciiLower t = t := by
  unfold asciiLower at *
  have same : t.toList.map Char.toLower = t.toList := by
    refine (List.map_congr_left fun c member => ?_).trans (List.map_id _)
    rcases written c member with lowered | rfl
    · rw [String.toList_ofList] at lowered
      obtain ⟨d, -, rfl⟩ := List.mem_map.mp lowered
      exact toLower_toLower d
    · decide
  rw [same, String.ofList_toList]

/-- Text functions that agree with the real ones on the sample's ASCII texts; nothing
below depends on what is hashed. -/
def samplePlatform : Platform where
  nfkc := id
  casefold := asciiLower
  lower := asciiLower
  dumps := fun _ => "{}"
  sha256 := id
  fromisoformat := fun _ => none
  readInt := Value.integer
  lower_lower := asciiLower_lower

def sampleEvidence : MemoryEvidence where
  evidenceId := "e1"
  sourceType := "conversation"
  sourceId := some "c1"
  sourceVersion := some "1"
  sourceState := .active
  clientDeviceId := none
  named := by decide
  sourced := by decide

def sampleItem (memoryId : String) : MemoryItem where
  memoryId
  uid := "u"
  canonicalMemoryId := none
  version := 1
  tier := .longTerm
  status := .active
  processingState := .processed
  content := some "Likes tea"
  normalizedContentKey := none
  evidence := [sampleEvidence]
  sourceState := .active
  sensitivityLabels := []
  visibility := "private"
  userAsserted := true
  capturedAt := now 0
  updatedAt := now 0
  expiresAt := none
  ledgerCommitId := some "c0"
  ledgerSequence := some 0
  itemRevision := 1
  sourceCommitId := none
  sourceCommitSequence := none
  contentHash := none
  accountGeneration := 0
  promotion := none
  captureDeviceIds := []
  primaryCaptureDevice := none
  corroborationCount := 0
  lastCorroboratedAt := none
  confidence := none
  supersededBy := none
  subjectEntityId := some "user"
  predicate := some "likes"
  arguments := [("object", .str "tea")]
  kgExtracted := false
  graphReady := false
  graphAssertionId := none
  graphPlanHash := none
  ledgerSchemaVersion := none
  kind := .fact
  subjectScope := .primaryUser
  slot := none
  body := none
  validFrom := none
  validTo := none
  curationWeight := 0
  triggerCondition := []
  intentBacked := false
  writeReason := none

/-- An update of "m" that may clear its assertion, supersede items and set its weight. -/
def samplePatch (clear : Bool) (supersedes : List String) (weight : Option Int) : DurableMemoryPatch where
  patchId := "p1"
  idempotencyKey := "k1"
  decision := .update
  resultStatus := .active
  evidenceIds := ["e1"]
  evidenceRefs := []
  targetMemoryId := some "m"
  newMemoryId := none
  memoryText := none
  predicate := none
  arguments := []
  supersedes
  subjectEntityId := none
  initialTier := .shortTerm
  targetTier := none
  targetVisibility := none
  targetUserAsserted := none
  clearGraphAssertion := clear
  visibility := "private"
  userAsserted := false
  ledgerSchemaVersion := none
  kind := none
  subjectScope := none
  slot := none
  body := none
  validFrom := none
  validTo := none
  curationWeight := weight
  triggerCondition := none
  intentBacked := none
  writeReason := none

def samplePayload (patch : DurableMemoryPatch) : PatchPayload where
  patch := .typed patch
  mutationIdentity := []
  existingItem := some (.item (sampleItem "m"))
  supersededItems := some (patch.supersedes.map fun id => .item (sampleItem id))
  promotionAudit := none
  promotion := none
  expectedItemRevision := none
  expectedContentHash := none
  evidence := [sampleEvidence]
  corroborationCount := none
  lastCorroboratedAt := none
  capturedAt := none
  updatedAt := none
  expiresAt := none
  supersededBy := none
  kgExtracted := none
  confidence := none
  sensitivityLabels := none
  captureDeviceIds := none
  primaryCaptureDevice := none

def sampleControl : MemoryControlState where
  uid := "u"
  headCommitId := "c0"
  accountGeneration := 0
  sourceGeneration := 0
  commitSequence := 0
  updatedAt := now 0

def sampleOperation (p : Platform) (patch : DurableMemoryPatch) : MemoryOperation :=
  MemoryOperation.fresh p "u" .longTermApply none (some "m") ["e1"]
    { decision := patch.decision.value
      memoryText := patch.memoryText
      targetMemoryId := patch.targetMemoryId
      resultStatus := some patch.resultStatus.value
      supersedes := patch.supersedes
      subjectEntityId := none
      predicate := none
      arguments := patch.arguments
      targetTier := none
      targetVisibility := none
      targetUserAsserted := none
      clearGraphAssertion := some patch.clearGraphAssertion
      mutationMetadata := none
      metadata := [] } 0 0 none (now 0)

def sampleClock : Clock := ⟨1, 1, fun _ => 1, fun _ _ => 1, 1⟩

/-- The item a sample update writes. -/
def sampleUpdated (p : Platform) (patch : DurableMemoryPatch) : MemoryItem :=
  let updated := patch.ledgerUpdates (updatedFields p (sampleItem "m") patch [sampleEvidence]
    (sampleControl.nextCommitId p (sampleOperation p patch).operationId) 1 none (now 1) none)
  if patch.clearGraphAssertion then updated.clearGraphAssertion else updated

theorem sample_checked (p : Platform) (clear : Bool) (supersedes : List String) (weight : Option Int) :
    checkOperation p sampleControl (sampleOperation p (samplePatch clear supersedes weight))
      (samplePatch clear supersedes weight) (samplePayload (samplePatch clear supersedes weight)) [sampleEvidence]
      sampleClock = .ok () := by
  have digest : operationDigestForPatch p (samplePatch clear supersedes weight)
      (sampleOperation p (samplePatch clear supersedes weight)) [] =
      (sampleOperation p (samplePatch clear supersedes weight)).logicalPayloadDigest := rfl
  unfold checkOperation
  rw [if_neg, if_neg, if_neg, if_neg, if_neg, if_neg, if_neg, if_neg]
  · simp [sampleEvidence]
  · simp [sampleOperation, MemoryOperation.fresh]
  · simp [sampleOperation, MemoryOperation.fresh, given]
  · simp [sampleOperation, MemoryOperation.fresh, sampleControl]
  · simp [sampleOperation, MemoryOperation.fresh]
  · rw [show (samplePayload (samplePatch clear supersedes weight)).mutationIdentity = [] from rfl, digest]
    simp
  · simp [samplePatch, DurableMemoryPatch.ofLedger, knowledgeLedger]
  · simp [samplePatch, sampleOperation, MemoryOperation.fresh]

theorem sample_valid (p : Platform) (clear : Bool) (supersedes : List String) (weight : Option Int) :
    (samplePatch clear supersedes weight).validate p = .ok () := by
  unfold DurableMemoryPatch.validate
  rw [raiseFirst_ok]
  simp [DurableMemoryPatch.decisionChecks, DurableMemoryPatch.ledgerChecks, DurableMemoryPatch.ofLedger, samplePatch,
    given]

theorem sample_admitted (p : Platform) (clear : Bool) (supersedes : List String) (weight : Option Int) :
    existingForUpdate p sampleControl (sampleOperation p (samplePatch clear supersedes weight))
      (samplePatch clear supersedes weight) (samplePayload (samplePatch clear supersedes weight)) [sampleEvidence] false =
      .ok (sampleItem "m") := by
  unfold existingForUpdate
  refine Fallible.ok_bind (a := sampleItem "m") rfl ?_
  rw [if_neg, if_neg, if_neg, if_neg, if_neg]
  · rfl
  · have same : semanticChange (sampleItem "m") (samplePatch clear supersedes weight) [sampleEvidence] = false := by
      unfold semanticChange
      simp [resolvedUpdateContent, samplePatch, resolvedEvidence, sampleItem, textOr, given, argumentsOr, sameDict,
        sameEntries, Dict.get, Value.same, Value.text]
    rw [same]
    simp
  · simp [sampleOperation, MemoryOperation.fresh]
  · simp [samplePayload]
  · simp [samplePayload]
  · simp [samplePatch, given, sampleItem]

/-- The sample update commits, and writes what it was made of. -/
theorem sample_commits (p : Platform) (clear : Bool) {supersedes : List String} (weight : Option Int)
    {superseded : List MemoryItem}
    (replaced : supersedeAll p ⟨sampleControl, sampleOperation p (samplePatch clear supersedes weight),
      sampleControl.nextCommitId p (sampleOperation p (samplePatch clear supersedes weight)).operationId, 1⟩
      (samplePatch clear supersedes weight) (samplePayload (samplePatch clear supersedes weight))
      (sampleUpdated p (samplePatch clear supersedes weight)) sampleClock = .ok superseded) :
    ∃ r, applyLongTermPatchTransaction p sampleControl (sampleOperation p (samplePatch clear supersedes weight))
      (samplePayload (samplePatch clear supersedes weight)) false sampleClock = .ok r ∧ r.status = .committed ∧
      r.memoryItems = sampleUpdated p (samplePatch clear supersedes weight) :: superseded := by
  have owner : blank "u" = false := by decide
  refine apply_update _ rfl rfl rfl (sample_valid p clear supersedes weight) (sample_checked p clear supersedes weight) rfl
    (sample_admitted p clear supersedes weight) rfl ?_ replaced owner ⟨le_rfl, le_rfl, le_rfl⟩ rfl rfl rfl le_rfl
    ⟨rfl, Int.one_nonneg⟩
  cases clear <;> rfl

end OmiLocal.Memory
