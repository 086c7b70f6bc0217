import OmiLocal.Memory.OutboxWorker
import OmiLocal.Memory.Committed

/-!
# The indexes converge

An index entry may differ from what the item implies only as long as someone
looks after it: a document that will be claimed and written, one whose claim
broke off, a claim under way, or the claim whose write the entry holds and that
has not yet read the item again. Every step hands the entry on, or names it in
`lost`.
-/
namespace OmiLocal.Memory
open Lib Lib.Values Lib.Transition

variable {x : IndexedAccount} {p : Platform}

/-! ## Targets and entries -/

theorem OutboxDocument.target_congr {doc doc' : OutboxDocument} (same : doc'.event = doc.event) (uid documentId : String) :
    doc'.target uid documentId = doc.target uid documentId := by
  unfold target target.memoryTarget
  rw [same]

theorem OutboxDocument.entry_congr {doc doc' : OutboxDocument} (same : doc'.event = doc.event) (documentId : String) :
    doc'.entry x documentId = doc.entry x documentId := by
  unfold entry
  rw [target_congr same, same]

theorem OutboxDocument.entry_some {doc : OutboxDocument} {documentId : String} {κ : MemoryOutboxEventType × String}
    (about : doc.entry x documentId = some κ) : doc.event.eventType = κ.1 ∧
      ∃ itemRevision contentHash, doc.target x.uid documentId = .ok (.memory κ.2 itemRevision contentHash) := by
  unfold entry at about
  split at about
  · rename_i memoryId itemRevision contentHash target
    cases about
    exact ⟨rfl, itemRevision, contentHash, target⟩
  · cases about

/-! ## The provider -/

theorem Provider.published_perform (provider : Provider) (event : MemoryOutboxEvent) (memoryId : String)
    (state : AuthoritativeProjectionState) (useEventCommitId : Bool) :
    (provider.perform event memoryId state useEventCommitId).published event.eventType memoryId = state.implied := by
  unfold perform published
  cases event.eventType <;> cases state.implied <;> simp

theorem Provider.published_perform_other (provider : Provider) (event : MemoryOutboxEvent) (memoryId : String)
    (state : AuthoritativeProjectionState) (useEventCommitId : Bool) {eventType : MemoryOutboxEventType} {id : String}
    (other : (eventType, id) ≠ (event.eventType, memoryId)) :
    (provider.perform event memoryId state useEventCommitId).published eventType id = provider.published eventType id := by
  unfold perform published
  cases kind : event.eventType <;> cases state.implied <;> cases eventType <;> try rfl
  all_goals
    have apart : id ≠ memoryId := fun same => other (by rw [same, kind])
    simp [Dict.get_put_other _ apart, Dict.get_erase_other _ apart]

/-! ## The fence -/

/-- `state` was authoritative once: its item is the present one or an older one. -/
def Outbox.Past (s : Outbox) (memoryId : String) (state : AuthoritativeProjectionState) : Prop :=
  ∀ item, state.item = some item → ∃ present, Dict.get s.items memoryId = some present ∧
    (item.itemRevision < present.itemRevision ∨ item = present)

theorem sameItemFence_revision {a b : MemoryItem} (same : sameItemFence a b = true) : a.itemRevision = b.itemRevision := by
  unfold sameItemFence at same
  simp only [Bool.and_eq_true, beq_iff_eq] at same
  exact same.1.1.1.1.1.1.1.1.2

/-- Where the fence is that of the present state, the state is the present one, as far as the provider is concerned. -/
theorem implied_of_sameFence {s : Outbox} {memoryId : String} {state : AuthoritativeProjectionState}
    (past : s.Past memoryId state) (same : (s.authoritative x memoryId).sameFence state = true) :
    state.implied = (s.authoritative x memoryId).implied := by
  unfold AuthoritativeProjectionState.sameFence at same
  rw [Bool.and_eq_true, Bool.and_eq_true, beq_iff_eq, beq_iff_eq] at same
  obtain ⟨⟨generation, blocked⟩, items⟩ := same
  have item : state.item = (s.authoritative x memoryId).item := by
    split at items
    · rename_i absent absent'
      rw [absent, absent']
    · rename_i present item found known
      obtain ⟨current, here, older | equal⟩ := past item known
      · have this : current = present := Option.some.inj (here.symm.trans found)
        rw [← sameItemFence_revision items, this] at older
        exact absurd older (lt_irrefl _)
      · rw [known, found, equal]
        exact here.symm.trans found
    · cases items
  unfold AuthoritativeProjectionState.implied
  rw [generation, blocked, item]

namespace Outbox

/-! ## Who looks after an entry -/

/-- The event is that of the present item: a delivery that has just claimed it will not find it stale. -/
def Current (x : IndexedAccount) (s : Outbox) (documentId : String) (doc : OutboxDocument) : Prop :=
  ∃ memoryId itemRevision contentHash, doc.target x.uid documentId = .ok (.memory memoryId itemRevision contentHash) ∧
    doc.event.accountGeneration = s.control.accountGeneration ∧
    ∀ item, Dict.get s.items memoryId = some item → item.accountGeneration = doc.event.accountGeneration ∧
      item.itemRevision = itemRevision ∧ item.contentHash = some contentHash

theorem Current.congr {s t : Outbox} {documentId : String} {doc doc' : OutboxDocument} (current : s.Current x documentId doc)
    (event : doc'.event = doc.event) (control : t.control.accountGeneration = s.control.accountGeneration)
    (items : ∀ eventType memoryId, doc.entry x documentId = some (eventType, memoryId) →
      Dict.get t.items memoryId = Dict.get s.items memoryId) :
    t.Current x documentId doc' := by
  obtain ⟨memoryId, itemRevision, contentHash, target, generation, matched⟩ := current
  refine ⟨memoryId, itemRevision, contentHash, (OutboxDocument.target_congr event _ _).trans target, ?_, ?_⟩
  · rw [event, generation, control]
  · have about : doc.entry x documentId = some (doc.event.eventType, memoryId) := by
      unfold OutboxDocument.entry
      rw [target]
    rw [items _ _ about, event]
    exact matched

/-- The claim will write the entry, or leave a document that lets another one do so. -/
def WillWrite (x : IndexedAccount) (s : Outbox) (d : Delivery) : Prop :=
  match d.stage with
  | .claimed => d.lease.needsRepair = true ∨ s.Current x d.lease.documentId d.lease.rawEvent
  | .writing _ _ _ _ => True
  | .failing errorCode =>
      repairCode errorCode = true ∨ d.lease.needsRepair = true ∨ s.Current x d.lease.documentId d.lease.rawEvent
  | _ => False

/-- The document waits for a claim, or for someone to look at what failed. -/
def Waiting (status : MemoryOutboxStatus) : Prop := status ≠ .processing ∧ status ≠ .delivered

inductive LookedAfter (x : IndexedAccount) (s : Outbox) (κ : MemoryOutboxEventType × String) : Prop
  /-- A document that will be claimed, of the present item or with the sign that the entry is to be repaired. -/
  | waiting (documentId : String) (doc : OutboxDocument) (found : Dict.get s.documents documentId = some doc)
      (about : doc.entry x documentId = some κ) (status : Waiting doc.status)
      (due : s.Current x documentId doc ∨ doc.lastErrorCode.any repairCode = true)
  /-- A claim that broke off. -/
  | orphan (documentId : String) (doc : OutboxDocument) (found : Dict.get s.documents documentId = some doc)
      (about : doc.entry x documentId = some κ) (status : doc.status = .processing)
      (left : ∀ d ∈ s.deliveries, d.lease.documentId = documentId → s.holds d = false)
  /-- A claim that holds and has written nothing yet. -/
  | holder (d : Delivery) (under : d ∈ s.deliveries) (about : d.entry x = some κ) (holds : s.holds d = true)
      (clean : d.unverified = none) (will : s.WillWrite x d)
  /-- The claim that wrote what the entry holds. -/
  | writer (d : Delivery) (under : d ∈ s.deliveries) (about : d.entry x = some κ) (state : AuthoritativeProjectionState)
      (wrote : d.unverified = some state) (holds : s.provider.published κ.1 κ.2 = state.implied)

/-- What the steps rely on: a claim under way knows its document, and no two claims are the same one. -/
structure Tracked (x : IndexedAccount) (s : Outbox) : Prop where
  known : ∀ d ∈ s.deliveries, ∃ doc, Dict.get s.documents d.lease.documentId = some doc ∧
    doc.event = d.lease.rawEvent.event ∧ d.lease.leaseEpoch ≤ doc.leaseEpoch
  distinct : (s.deliveries.map fun d => (d.lease.documentId, d.lease.leaseEpoch)).Nodup
  writing : ∀ d ∈ s.deliveries, ∀ memoryId state attempt use, d.stage = .writing memoryId state attempt use →
    d.entry x = some (d.lease.rawEvent.event.eventType, memoryId) ∧ s.Past memoryId state
  verifying : ∀ d ∈ s.deliveries, ∀ memoryId state attempt, d.stage = .verifying memoryId state attempt →
    d.entry x = some (d.lease.rawEvent.event.eventType, memoryId) ∧ s.Past memoryId state ∧ d.unverified = some state
  settled : ∀ d ∈ s.deliveries, ∀ reason, d.stage = .acknowledging reason → d.unverified = none
  started : ∀ d ∈ s.deliveries, d.stage = .claimed → d.unverified = none

/-! ## Membership -/

theorem mem_set {l : List Delivery} {k : Nat} {d d' e : Delivery} (here : l[k]? = some d) (member : e ∈ l) (other : e ≠ d) :
    e ∈ l.set k d' := by
  obtain ⟨j, inside, rfl⟩ := List.getElem_of_mem member
  have apart : k ≠ j := by
    rintro rfl
    exact other (Option.some.inj ((List.getElem?_eq_getElem inside).symm.trans here))
  refine List.mem_of_getElem? (?_ : (l.set k d')[j]? = some l[j])
  rw [List.getElem?_set_ne apart, List.getElem?_eq_getElem inside]

theorem mem_eraseIdx {l : List Delivery} {k : Nat} {d e : Delivery} (here : l[k]? = some d) (member : e ∈ l) (other : e ≠ d) :
    e ∈ l.eraseIdx k := by
  obtain ⟨j, inside, rfl⟩ := List.getElem_of_mem member
  have apart : j ≠ k := by
    rintro rfl
    exact other (Option.some.inj ((List.getElem?_eq_getElem inside).symm.trans here))
  exact List.mem_eraseIdx_iff_getElem?.mpr ⟨j, apart, List.getElem?_eq_getElem inside⟩

theorem set_self {l : List Delivery} {k : Nat} {d d' : Delivery} (here : l[k]? = some d) : d' ∈ l.set k d' := by
  have inside := (List.getElem?_eq_some_iff.mp here).1
  exact List.mem_of_getElem? (List.getElem?_set_self inside)

theorem holds_iff {s : Outbox} {d : Delivery} : s.holds d = true ↔ ∃ doc, Dict.get s.documents d.lease.documentId = some doc ∧
    doc.status = .processing ∧ doc.leaseOwner = some d.lease.config.workerId ∧ doc.leaseEpoch = d.lease.leaseEpoch := by
  unfold holds LeasedMemoryOutboxEvent.owns
  cases found : Dict.get s.documents d.lease.documentId with
  | none => simp
  | some doc => simp [and_assoc]

/-- Two claims that hold one document are the same. -/
theorem Tracked.holder_unique {s : Outbox} (h : s.Tracked x) {k j : Nat} {d e : Delivery} (here : s.deliveries[k]? = some d)
    (there : s.deliveries[j]? = some e) (same : e.lease.documentId = d.lease.documentId) (first : s.holds d = true)
    (second : s.holds e = true) : j = k := by
  obtain ⟨doc, found, -, -, epoch⟩ := holds_iff.mp first
  obtain ⟨doc', found', -, -, epoch'⟩ := holds_iff.mp second
  rw [same, found] at found'
  cases found'
  have keys : (s.deliveries.map fun d => (d.lease.documentId, d.lease.leaseEpoch))[j]? =
      (s.deliveries.map fun d => (d.lease.documentId, d.lease.leaseEpoch))[k]? := by
    rw [List.getElem?_map, List.getElem?_map, here, there]
    exact congrArg some (Prod.ext same (epoch'.symm.trans epoch))
  refine (List.getElem?_inj ?_ h.distinct).mp keys
  rw [List.length_map]
  exact (List.getElem?_eq_some_iff.mp there).1

/-! ## The first read -/

theorem decide_cases (d : Delivery) (memoryId : String) (itemRevision : Int) (contentHash : String)
    (state : AuthoritativeProjectionState) :
    (∃ reason, d.decide memoryId itemRevision contentHash state = .acknowledging reason) ∨
      ∃ use, d.decide memoryId itemRevision contentHash state = .writing memoryId state 0 use := by
  unfold Delivery.decide
  dsimp only
  split
  · exact .inl ⟨_, rfl⟩
  · split
    · exact .inr ⟨_, rfl⟩
    · split
      · exact .inl ⟨_, rfl⟩
      · split
        · exact .inl ⟨_, rfl⟩
        · split
          · exact .inl ⟨_, rfl⟩
          · exact .inr ⟨_, rfl⟩

/-- An event that is to be repaired, or is that of the item, is not found stale. -/
theorem decide_writes {d : Delivery} {memoryId : String} {itemRevision : Int} {contentHash : String}
    {state : AuthoritativeProjectionState}
    (due : d.lease.needsRepair = true ∨ d.lease.rawEvent.event.accountGeneration = state.accountGeneration ∧
      ∀ item, state.item = some item → item.accountGeneration = d.lease.rawEvent.event.accountGeneration ∧
        item.itemRevision = itemRevision ∧ item.contentHash = some contentHash) :
    ∃ use, d.decide memoryId itemRevision contentHash state = .writing memoryId state 0 use := by
  unfold Delivery.decide
  dsimp only
  rcases due with repair | ⟨generation, matched⟩
  · simp only [repair, not_true_eq_false, and_false, if_false]
    split <;> exact ⟨_, rfl⟩
  · rw [if_neg (fun stale => stale.1 generation)]
    split
    · exact ⟨_, rfl⟩
    · rename_i item present
      obtain ⟨itemGeneration, revision, hash⟩ := matched item present
      rw [if_neg (fun stale => stale.1 itemGeneration), if_neg (fun stale => stale.1 revision), if_neg (fun stale => stale.1 hash)]
      exact ⟨_, rfl⟩

/-- What the first read leads to. -/
structure FirstRead (x : IndexedAccount) (s : Outbox) (d : Delivery) (stage : Stage) : Prop where
  due : ∀ κ, d.entry x = some κ → (d.lease.needsRepair = true ∨ s.Current x d.lease.documentId d.lease.rawEvent) →
    (∃ errorCode, stage = .failing errorCode) ∨ ∃ memoryId state attempt use, stage = .writing memoryId state attempt use
  writing : ∀ memoryId state attempt use, stage = .writing memoryId state attempt use →
    d.entry x = some (d.lease.rawEvent.event.eventType, memoryId) ∧ state = s.authoritative x memoryId
  later : stage ≠ .claimed ∧ ∀ memoryId state attempt, stage ≠ .verifying memoryId state attempt

theorem firstRead_failing (s : Outbox) (d : Delivery) (errorCode : String) : FirstRead x s d (.failing errorCode) where
  due _ _ _ := .inl ⟨errorCode, rfl⟩
  writing _ _ _ _ other := by cases other
  later := ⟨Stage.noConfusion, fun _ _ _ => Stage.noConfusion⟩

theorem start_spec (x : IndexedAccount) (s : Outbox) (k : Nat) (d : Delivery) (read : Read) :
    ∃ stage, s.start x k d read = s.set k { d with stage } ∧ FirstRead x s d stage := by
  unfold start
  split
  · exact ⟨_, rfl, firstRead_failing s d _⟩
  · rename_i target checked
    split
    · exact ⟨_, rfl, firstRead_failing s d _⟩
    · cases target with
      | barrier =>
          refine ⟨_, rfl, fun κ about => ?_, fun _ _ _ _ other => (by cases other), ?_⟩
          · unfold Delivery.entry OutboxDocument.entry at about
            rw [checked] at about
            cases about
          · exact ⟨Stage.noConfusion, fun _ _ _ => Stage.noConfusion⟩
      | memory memoryId itemRevision contentHash =>
          have about : d.entry x = some (d.lease.rawEvent.event.eventType, memoryId) := by
            unfold Delivery.entry OutboxDocument.entry
            rw [checked]
          refine ⟨_, rfl, fun κ _ due => ?_, fun id state attempt use writes => ?_, ?_, fun id state attempt other => ?_⟩
          · refine .inr ?_
            have fresh : d.lease.needsRepair = true ∨
                d.lease.rawEvent.event.accountGeneration = (s.authoritative x memoryId).accountGeneration ∧
                  ∀ item, (s.authoritative x memoryId).item = some item →
                    item.accountGeneration = d.lease.rawEvent.event.accountGeneration ∧ item.itemRevision = itemRevision ∧
                      item.contentHash = some contentHash := by
              refine due.imp id fun current => ?_
              obtain ⟨memoryId', itemRevision', contentHash', target, generation, matched⟩ := current
              rw [checked] at target
              cases target
              exact ⟨generation, matched⟩
            obtain ⟨use, writes⟩ := decide_writes fresh
            exact ⟨_, _, _, _, writes⟩
          · rcases decide_cases d memoryId itemRevision contentHash (s.authoritative x memoryId) with ⟨reason, acks⟩ | ⟨use', did⟩
            · rw [acks] at writes
              cases writes
            · rw [did] at writes
              cases writes
              exact ⟨about, rfl⟩
          · rcases decide_cases d memoryId itemRevision contentHash (s.authoritative x memoryId) with ⟨reason, acks⟩ | ⟨use', did⟩
            · rw [acks]
              exact Stage.noConfusion
            · rw [did]
              exact Stage.noConfusion
          · rcases decide_cases d memoryId itemRevision contentHash (s.authoritative x memoryId) with ⟨reason, acks⟩ | ⟨use', did⟩
            · rw [acks] at other
              cases other
            · rw [did] at other
              cases other

/-! ## Handing an entry on -/

/-- What the provider holds elsewhere does not matter. -/
theorem LookedAfter.provider {s : Outbox} {κ : MemoryOutboxEventType × String} (h : s.LookedAfter x κ) {provider : Provider}
    (same : provider.published κ.1 κ.2 = s.provider.published κ.1 κ.2) : { s with provider := provider }.LookedAfter x κ := by
  cases h with
  | waiting documentId doc found about status due => exact .waiting documentId doc found about status due
  | orphan documentId doc found about status left => exact .orphan documentId doc found about status left
  | holder d under about holds clean will => exact .holder d under about holds clean will
  | writer d under about state wrote holds => exact .writer d under about state wrote (same.trans holds)

/-- A claim goes on: it looks after its entry as before. -/
theorem LookedAfter.set {s : Outbox} {κ : MemoryOutboxEventType × String} (h : s.LookedAfter x κ) {k : Nat} {d d' : Delivery}
    (here : s.deliveries[k]? = some d) (lease : d'.lease = d.lease)
    (clean : d.entry x = some κ → d.unverified = none → s.WillWrite x d → d'.unverified = none ∧ s.WillWrite x d')
    (wrote : d.entry x = some κ → ∀ state, d.unverified = some state → s.provider.published κ.1 κ.2 = state.implied →
      d'.unverified = some state) : (s.set k d').LookedAfter x κ := by
  have sameEntry : d'.entry x = d.entry x := by
    unfold Delivery.entry
    rw [lease]
  have sameHolds : s.holds d' = s.holds d := by
    unfold Outbox.holds
    rw [lease]
  cases h with
  | waiting documentId doc found about status due => exact .waiting documentId doc found about status due
  | orphan documentId doc found about status left =>
      refine .orphan documentId doc found about status fun e under document => ?_
      rcases List.mem_or_eq_of_mem_set under with old | rfl
      · exact left e old document
      · rw [lease] at document
        exact sameHolds.trans (left d (List.mem_of_getElem? here) document)
  | holder e under about holds nothing will =>
      by_cases itself : e = d
      · subst itself
        obtain ⟨stillClean, stillWill⟩ := clean about nothing will
        exact .holder d' (set_self here) (sameEntry.trans about) (sameHolds.trans holds) stillClean stillWill
      · exact .holder e (mem_set here under itself) about holds nothing will
  | writer e under about state last holds =>
      by_cases itself : e = d
      · subst itself
        exact .writer d' (set_self here) (sameEntry.trans about) state (wrote about state last holds) holds
      · exact .writer e (mem_set here under itself) about state last holds

/-- A claim that breaks off while it holds leaves its document to the next. -/
theorem LookedAfter.orphaned {s : Outbox} (tracked : s.Tracked x) {k : Nat} {d : Delivery} (here : s.deliveries[k]? = some d)
    {κ : MemoryOutboxEventType × String} (about : d.entry x = some κ) (holds : s.holds d = true) (forgotten : Bool) :
    (s.finish x k d forgotten).LookedAfter x κ := by
  obtain ⟨doc, found, processing, -, -⟩ := holds_iff.mp holds
  obtain ⟨doc', found', event, -⟩ := tracked.known d (List.mem_of_getElem? here)
  rw [found] at found'
  cases found'
  refine .orphan d.lease.documentId doc found ?_ processing fun e under document => ?_
  · exact (OutboxDocument.entry_congr event _).trans about
  · obtain ⟨j, apart, there⟩ := List.mem_eraseIdx_iff_getElem?.mp under
    refine Bool.eq_false_iff.mpr fun second => apart ?_
    exact tracked.holder_unique here there document holds second

/-- A claim that ends without settling its document. -/
theorem LookedAfter.finish {s : Outbox} (tracked : s.Tracked x) {κ : MemoryOutboxEventType × String} (h : s.LookedAfter x κ)
    {k : Nat} {d : Delivery} (here : s.deliveries[k]? = some d) {forgotten : Bool}
    (forgot : s.holds d = false → d.unverified.isSome = true → forgotten = true) :
    κ ∈ (s.finish x k d forgotten).lost ∨ (s.finish x k d forgotten).LookedAfter x κ := by
  cases h with
  | waiting documentId doc found about status due => exact .inr (.waiting documentId doc found about status due)
  | orphan documentId doc found about status left =>
      exact .inr (.orphan documentId doc found about status fun e under => left e (List.mem_of_mem_eraseIdx under))
  | holder e under about holds clean will =>
      by_cases itself : e = d
      · subst itself
        exact .inr (LookedAfter.orphaned tracked here about holds forgotten)
      · exact .inr (.holder e (mem_eraseIdx here under itself) about holds clean will)
  | writer e under about state wrote published =>
      by_cases itself : e = d
      · subst itself
        cases holds : s.holds e with
        | true => exact .inr (LookedAfter.orphaned tracked here about holds forgotten)
        | false =>
            have named := forgot holds (by rw [wrote]; rfl)
            refine .inl ?_
            unfold Outbox.finish
            rw [named, about]
            exact List.mem_append_right _ (List.mem_singleton_self _)
      · exact .inr (.writer e (mem_eraseIdx here under itself) about state wrote published)

/-- The other claims do not see that a document is settled. -/
theorem holds_put_other {s : Outbox} {documentId : String} {doc : OutboxDocument} {e : Delivery}
    (other : e.lease.documentId ≠ documentId) :
    { s with documents := Dict.put s.documents documentId doc }.holds e = s.holds e := by
  unfold Outbox.holds
  dsimp only
  rw [Dict.get_put_other _ other]

/-- A claim settles the document that it holds. -/
theorem LookedAfter.settled {s : Outbox} (tracked : s.Tracked x) {κ : MemoryOutboxEventType × String} (h : s.LookedAfter x κ)
    {k : Nat} {d : Delivery} (here : s.deliveries[k]? = some d) (holds : s.holds d = true) {change : OutboxDocument → OutboxDocument}
    {forgotten : Bool} {t : Outbox} (same : t = (s.patch d change).finish x k d forgotten)
    (mine : d.entry x = some κ → (d.unverified.isSome = true ∨ s.WillWrite x d) → κ ∈ t.lost ∨ t.LookedAfter x κ) :
    κ ∈ t.lost ∨ t.LookedAfter x κ := by
  obtain ⟨doc, found, processing, -, -⟩ := holds_iff.mp holds
  have patched : s.patch d change = { s with documents := Dict.put s.documents d.lease.documentId (change doc) } := by
    unfold Outbox.patch
    rw [found]
  have kept : ∀ {documentId : String}, documentId ≠ d.lease.documentId →
      Dict.get (s.patch d change).documents documentId = Dict.get s.documents documentId := by
    intro documentId other
    rw [patched]
    exact Dict.get_put_other _ other _
  have holdsKept : ∀ {e : Delivery}, e.lease.documentId ≠ d.lease.documentId → (s.patch d change).holds e = s.holds e := by
    intro e other
    rw [patched]
    exact holds_put_other other
  subst same
  cases h with
  | waiting documentId doc' found' about status due =>
      have other : documentId ≠ d.lease.documentId := by
        rintro rfl
        rw [found] at found'
        cases found'
        exact status.1 processing
      refine .inr (.waiting documentId doc' ((kept other).trans found') about status (due.imp (fun current => ?_) id))
      rw [patched]
      exact current
  | orphan documentId doc' found' about status left =>
      have other : documentId ≠ d.lease.documentId := by
        rintro rfl
        have free := left d (List.mem_of_getElem? here) rfl
        rw [holds] at free
        cases free
      refine .inr (.orphan documentId doc' ((kept other).trans found') about status fun e under document => ?_)
      have before := List.mem_of_mem_eraseIdx under
      rw [patched] at before
      have away : e.lease.documentId ≠ d.lease.documentId := by
        rw [document]
        exact other
      exact (holdsKept away).trans (left e before document)
  | holder e under about holds' clean will =>
      by_cases itself : e = d
      · subst itself
        exact mine about (.inr will)
      · have away : e.lease.documentId ≠ d.lease.documentId := by
          intro document
          obtain ⟨j, inside, rfl⟩ := List.getElem_of_mem under
          have index := tracked.holder_unique here (List.getElem?_eq_getElem inside) document holds holds'
          subst index
          exact itself (Option.some.inj ((List.getElem?_eq_getElem inside).symm.trans here))
        refine .inr (.holder e ?_ about ((holdsKept away).trans holds') clean ?_)
        · change e ∈ (s.patch d change).deliveries.eraseIdx k
          rw [patched]
          exact mem_eraseIdx here under itself
        · rw [patched]
          exact will
  | writer e under about state wrote published =>
      by_cases itself : e = d
      · subst itself
        exact mine about (.inl (by rw [wrote]; rfl))
      · refine .inr (.writer e ?_ about state wrote ?_)
        · change e ∈ (s.patch d change).deliveries.eraseIdx k
          rw [patched]
          exact mem_eraseIdx here under itself
        · rw [patched]
          exact published

/-- A document that was looked after is claimed, and with it its entry. -/
theorem LookedAfter.claimed {s : Outbox} (tracked : s.Tracked x) {κ : MemoryOutboxEventType × String} (h : s.LookedAfter x κ)
    {documentId : String} {doc : OutboxDocument} (found : Dict.get s.documents documentId = some doc)
    (config : CanonicalMemoryOutboxWorkerConfig) (now : Int) : (s.claimed documentId doc config now).LookedAfter x κ := by
  have fresh : (s.claimed documentId doc config now).holds ⟨⟨documentId, doc, config, doc.leaseEpoch + 1, now⟩, .claimed, none⟩ = true :=
    holds_iff.mpr ⟨doc.claim config now, Dict.get_put_self _ _ _, rfl, rfl, rfl⟩
  have under : ⟨⟨documentId, doc, config, doc.leaseEpoch + 1, now⟩, .claimed, none⟩ ∈ (s.claimed documentId doc config now).deliveries :=
    List.mem_append_right _ (List.mem_singleton_self _)
  -- a document that was under way already is claimed for repair
  have again : doc.entry x documentId = some κ → doc.status = .processing → (s.claimed documentId doc config now).LookedAfter x κ := by
    intro about processing
    refine .holder _ under about fresh rfl (.inl ?_)
    unfold LeasedMemoryOutboxEvent.needsRepair
    rw [processing]
    rfl
  cases h with
  | waiting other doc' found' about status due =>
      by_cases same : other = documentId
      · subst same
        rw [found] at found'
        cases found'
        refine .holder _ under about fresh rfl ?_
        rcases due with current | repair
        · exact .inr current
        · refine .inl ?_
          change (doc.status == .processing || doc.lastErrorCode.any repairCode) = true
          rw [repair, Bool.or_true]
      · exact .waiting other doc' ((Dict.get_put_other _ same _).trans found') about status due
  | orphan other doc' found' about status left =>
      by_cases same : other = documentId
      · subst same
        rw [found] at found'
        cases found'
        exact again about status
      · refine .orphan other doc' ((Dict.get_put_other _ same _).trans found') about status fun e member document => ?_
        rcases List.mem_append.mp member with old | new
        · have away : e.lease.documentId ≠ documentId := by
            rw [document]
            exact same
          exact (holds_put_other away).trans (left e old document)
        · obtain rfl := List.mem_singleton.mp new
          exact absurd document.symm same
  | holder e member about holds clean will =>
      by_cases same : e.lease.documentId = documentId
      · obtain ⟨doc', found', processing, -, -⟩ := holds_iff.mp holds
        obtain ⟨doc'', found'', event, -⟩ := tracked.known e member
        rw [same, found] at found' found''
        cases found'
        cases found''
        refine again ((OutboxDocument.entry_congr event documentId).trans ?_) processing
        rw [← same]
        exact about
      · exact .holder e (List.mem_append_left _ member) about ((holds_put_other same).trans holds) clean will
  | writer e member about state wrote published => exact .writer e (List.mem_append_left _ member) about state wrote published

end Outbox

/-! ## Commits -/

/-- An event of an item, as the commit writes it. -/
structure Commit.EventOf (c : Commit) (m : MemoryItem) (eventType : MemoryOutboxEventType) (e : MemoryOutboxEvent) : Prop where
  eventType : e.eventType = eventType
  memoryId : e.memoryId = some m.memoryId
  payload : e.payload = m.eventPayload
  uid : e.uid = c.operation.uid
  generation : e.accountGeneration = c.control.accountGeneration

theorem Commit.event_of {c : Commit} {m : MemoryItem} {eventType : MemoryOutboxEventType} {reading : Int} {e : MemoryOutboxEvent}
    (done : c.event p eventType (some m.memoryId) m.eventPayload reading = .ok e) : c.EventOf m eventType e := by
  unfold Commit.event at done
  dsimp only at done
  split at done
  · cases done
  · cases done
    exact ⟨rfl, rfl, rfl, rfl, rfl⟩

/-- Every written item has an event of each type. -/
theorem Commit.itemEvents_of {c : Commit} {clock : Clock} {items : List MemoryItem} {pairs : List (List MemoryOutboxEvent)}
    (done : c.itemEvents p clock items = .ok pairs) {m : MemoryItem} (member : m ∈ items) (eventType : MemoryOutboxEventType) :
    ∃ e ∈ pairs.flatten, c.EventOf m eventType e := by
  have each := Fallible.mapM_ok done
  clear done
  generalize 0 = start at each
  induction items generalizing pairs start with
  | nil => cases member
  | cons n rest ih =>
      rw [List.zipIdx_cons] at each
      cases each with
      | cons first later =>
          rw [List.flatten_cons]
          rcases List.mem_cons.mp member with rfl | later'
          · obtain ⟨projection, made, first⟩ := Fallible.bind_ok first
            obtain ⟨vector, made', first⟩ := Fallible.bind_ok first
            cases first
            cases eventType with
            | projectionSync => exact ⟨projection, List.mem_append_left _ List.mem_cons_self, Commit.event_of made⟩
            | vectorSync =>
                exact ⟨vector, List.mem_append_left _ (List.mem_cons_of_mem _ List.mem_cons_self), Commit.event_of made'⟩
          · obtain ⟨e, inside, of⟩ := ih later' (start + 1) later
            exact ⟨e, List.mem_append_right _ inside, of⟩

/-- The event of an item passes every check, with the fence of the item. -/
theorem Commit.EventOf.target {c : Commit} {m : MemoryItem} {eventType : MemoryOutboxEventType} {e : MemoryOutboxEvent}
    (h : c.EventOf m eventType e) {contentHash : String} (hash : m.contentHash = some contentHash)
    (filled : blank contentHash = false) (revision : 1 ≤ m.itemRevision) :
    e.document.target c.operation.uid e.eventId = .ok (.memory m.memoryId m.itemRevision contentHash) := by
  have action : (fetch e.payload "action").text = some "upsert" ∨ (fetch e.payload "action").text = some "delete" := by
    rw [h.payload]
    unfold MemoryItem.eventPayload
    cases m.syncEligible
    · exact .inr rfl
    · exact .inl rfl
  have id : (fetch e.payload "memory_id").text = some m.memoryId := by
    rw [h.payload]
    rfl
  have fence : fetch e.payload "item_revision" = .int m.itemRevision ∧ fetch e.payload "content_hash" = .str contentHash := by
    rw [h.payload]
    refine ⟨rfl, ?_⟩
    change optionalText m.contentHash = _
    rw [hash]
    rfl
  have memory : OutboxDocument.target.memoryTarget e.document = .ok (.memory m.memoryId m.itemRevision contentHash) := by
    unfold OutboxDocument.target.memoryTarget MemoryOutboxEvent.document
    simp only [h.memoryId, id, ne_eq, not_true_eq_false, if_false, fence.1, fence.2, filled]
    rw [if_neg]
    rintro (small | blank)
    · omega
    · cases blank
  unfold OutboxDocument.target
  rw [if_neg (fun other => other h.uid), if_neg (fun other => other rfl)]
  rcases action with upsert | delete
  · have text : (fetch e.document.event.payload "action").text = some "upsert" := upsert
    rw [text]
    exact memory
  · have text : (fetch e.document.event.payload "action").text = some "delete" := delete
    rw [text]
    exact memory

namespace Outbox

variable {s : Outbox} {c : Committed}

theorem Commits.get_item (commits : s.Commits x p c) {m : MemoryItem} (member : m ∈ c.items) :
    Dict.get (s.committed c).items m.memoryId = some m :=
  @Dict.get_puts _ _ _ _ MemoryItem.memoryId id _ commits.distinct m member s.items

theorem get_item_other {memoryId : String} (absent : memoryId ∉ c.items.map MemoryItem.memoryId) :
    Dict.get (s.committed c).items memoryId = Dict.get s.items memoryId :=
  @Dict.get_puts_other _ _ _ _ MemoryItem.memoryId id _ memoryId absent s.items

theorem get_document_old {documentId : String} {doc : OutboxDocument} (found : Dict.get s.documents documentId = some doc) :
    Dict.get (s.committed c).documents documentId = some doc :=
  Dict.get_append_of_some found _

theorem Commits.get_document (commits : s.Commits x p c) {e : MemoryOutboxEvent} (member : e ∈ c.events) :
    Dict.get (s.committed c).documents e.eventId = some e.document := by
  refine Dict.get_of_forall (List.mem_append_right _ (List.mem_map_of_mem member)) fun doc other => ?_
  rcases List.mem_append.mp other with old | new
  · exact absurd (Dict.mem_keys_of_mem old) (commits.fresh e member)
  · obtain ⟨e', member', same⟩ := List.mem_map.mp new
    obtain rfl : e' = e := List.inj_on_of_nodup_map commits.ids member' member (congrArg Prod.fst same)
    exact (congrArg Prod.snd same).symm

/-- Both entries of a written item get a document of the item itself. -/
theorem Commits.lookedAfter (commits : s.Commits x p c) {m : MemoryItem} (member : m ∈ c.items)
    (eventType : MemoryOutboxEventType) : (s.committed c).LookedAfter x (eventType, m.memoryId) := by
  obtain ⟨pairs, made, same⟩ := commits.events
  obtain ⟨e, inside, of⟩ := Commit.itemEvents_of made member eventType
  rw [← same] at inside
  obtain ⟨contentHash, hash, filled⟩ := commits.hashes m member
  have target := of.target hash filled (commits.revisions m member).1
  rw [commits.uid] at target
  refine .waiting e.eventId e.document (commits.get_document inside) ?_ ⟨fun other => (by cases other), fun other => (by cases other)⟩
    (.inl ⟨m.memoryId, m.itemRevision, contentHash, target, ?_, fun item present => ?_⟩)
  · unfold OutboxDocument.entry
    rw [target]
    exact congrArg (fun kind => some (kind, m.memoryId)) of.eventType
  · exact of.generation.trans ((congrArg MemoryControlState.accountGeneration commits.control).trans commits.generation.symm)
  · obtain rfl : m = item := Option.some.inj ((commits.get_item member).symm.trans present)
    refine ⟨(commits.generations m member).trans ?_, rfl, hash⟩
    exact (of.generation.trans (congrArg MemoryControlState.accountGeneration commits.control)).symm

/-- The entries of other items are looked after as before. -/
theorem LookedAfter.committed (tracked : s.Tracked x) (commits : s.Commits x p c) {κ : MemoryOutboxEventType × String}
    (h : s.LookedAfter x κ) (absent : κ.2 ∉ c.items.map MemoryItem.memoryId) : (s.committed c).LookedAfter x κ := by
  have items : Dict.get (s.committed c).items κ.2 = Dict.get s.items κ.2 := get_item_other absent
  have current : ∀ {documentId doc}, doc.entry x documentId = some κ → s.Current x documentId doc →
      (s.committed c).Current x documentId doc := by
    intro documentId doc about current
    refine current.congr rfl commits.generation fun eventType memoryId named => ?_
    obtain rfl := Option.some.inj (about.symm.trans named)
    exact items
  have holds : ∀ e ∈ s.deliveries, (s.committed c).holds e = s.holds e := by
    intro e member
    obtain ⟨doc, found, -⟩ := tracked.known e member
    unfold Outbox.holds
    rw [found, get_document_old found]
  cases h with
  | waiting documentId doc found about status due =>
      exact .waiting documentId doc (get_document_old found) about status (due.imp (current about) id)
  | orphan documentId doc found about status left =>
      exact .orphan documentId doc (get_document_old found) about status fun e under document =>
        (holds e under).trans (left e under document)
  | holder e under about held clean will =>
      refine .holder e under about ((holds e under).trans held) clean ?_
      unfold WillWrite at will ⊢
      split
      · rename_i here
        rw [here] at will
        exact will.imp id (current about)
      · trivial
      · rename_i errorCode here
        rw [here] at will
        exact will.imp id (Or.imp id (current about))
      · rename_i idle claimed writing failing
        split at will
        · exact absurd ‹_› claimed
        · exact absurd ‹_› (writing _ _ _ _)
        · exact absurd ‹_› (failing _)
        · exact will
  | writer e under about state wrote published => exact .writer e under about state wrote published

/-! ## What the steps rely on -/

/-- A claim under way, on its own. -/
structure Sound (x : IndexedAccount) (s : Outbox) (d : Delivery) : Prop where
  writing : ∀ memoryId state attempt use, d.stage = .writing memoryId state attempt use →
    d.entry x = some (d.lease.rawEvent.event.eventType, memoryId) ∧ s.Past memoryId state
  verifying : ∀ memoryId state attempt, d.stage = .verifying memoryId state attempt →
    d.entry x = some (d.lease.rawEvent.event.eventType, memoryId) ∧ s.Past memoryId state ∧ d.unverified = some state
  settled : ∀ reason, d.stage = .acknowledging reason → d.unverified = none
  started : d.stage = .claimed → d.unverified = none

theorem Tracked.sound (h : s.Tracked x) {d : Delivery} (under : d ∈ s.deliveries) : s.Sound x d :=
  ⟨h.writing d under, h.verifying d under, h.settled d under, h.started d under⟩

theorem Tracked.of_sound {documents : List (String × OutboxDocument)} {deliveries : List Delivery}
    (documents_eq : s.documents = documents) (deliveries_eq : s.deliveries = deliveries)
    (known : ∀ d ∈ deliveries, ∃ doc, Dict.get documents d.lease.documentId = some doc ∧
      doc.event = d.lease.rawEvent.event ∧ d.lease.leaseEpoch ≤ doc.leaseEpoch)
    (distinct : (deliveries.map fun d => (d.lease.documentId, d.lease.leaseEpoch)).Nodup)
    (sound : ∀ d ∈ deliveries, s.Sound x d) : s.Tracked x := by
  subst documents_eq deliveries_eq
  exact ⟨known, distinct, fun d under => (sound d under).writing, fun d under => (sound d under).verifying,
    fun d under => (sound d under).settled, fun d under => (sound d under).started⟩

theorem Past.authoritative (s : Outbox) (memoryId : String) : s.Past memoryId (s.authoritative x memoryId) :=
  fun _ present => ⟨_, present, .inr rfl⟩

/-- Newer items keep what was read in the past. -/
theorem Past.committed (commits : s.Commits x p c) {memoryId : String} {state : AuthoritativeProjectionState}
    (past : s.Past memoryId state) : (s.committed c).Past memoryId state := by
  intro item read
  obtain ⟨present, found, order⟩ := past item read
  by_cases written : memoryId ∈ c.items.map MemoryItem.memoryId
  · obtain ⟨m, member, rfl⟩ := List.mem_map.mp written
    have newer := (commits.revisions m member).2 present found
    refine ⟨m, commits.get_item member, .inl ?_⟩
    rcases order with older | rfl
    · exact older.trans newer
    · exact newer
  · exact ⟨present, (get_item_other written).trans found, order⟩

theorem Sound.past {t : Outbox} {d : Delivery} (h : s.Sound x d)
    (past : ∀ memoryId state, s.Past memoryId state → t.Past memoryId state) : t.Sound x d where
  writing memoryId state attempt use here := (h.writing memoryId state attempt use here).imp id (past memoryId state)
  verifying memoryId state attempt here := (h.verifying memoryId state attempt here).imp id (And.imp (past memoryId state) id)
  settled := h.settled
  started := h.started

theorem Tracked.committed (h : s.Tracked x) (commits : s.Commits x p c) : (s.committed c).Tracked x := by
  refine .of_sound rfl rfl (fun d under => ?_) h.distinct fun d under => (h.sound under).past fun _ _ => Past.committed commits
  obtain ⟨doc, found, event, epoch⟩ := h.known d under
  exact ⟨doc, get_document_old found, event, epoch⟩

theorem Tracked.claimed (h : s.Tracked x) {documentId : String} {doc : OutboxDocument}
    (found : Dict.get s.documents documentId = some doc) (config : CanonicalMemoryOutboxWorkerConfig) (now : Int) :
    (s.claimed documentId doc config now).Tracked x := by
  refine .of_sound rfl rfl (fun d under => ?_) ?_ fun d under => ?_
  · rcases List.mem_append.mp under with old | new
    · obtain ⟨known, here, event, epoch⟩ := h.known d old
      by_cases same : d.lease.documentId = documentId
      · rw [same, found] at here
        cases here
        rw [same]
        exact ⟨doc.claim config now, Dict.get_put_self _ _ _, event, Nat.le_succ_of_le epoch⟩
      · exact ⟨known, (Dict.get_put_other _ same _).trans here, event, epoch⟩
    · obtain rfl := List.mem_singleton.mp new
      exact ⟨doc.claim config now, Dict.get_put_self _ _ _, rfl, Nat.le_refl _⟩
  · change ((s.deliveries ++ [_]).map fun d : Delivery => (d.lease.documentId, d.lease.leaseEpoch)).Nodup
    rw [List.map_append]
    refine List.nodup_append.mpr ⟨h.distinct, List.nodup_singleton _, fun key old key' new => ?_⟩
    rintro rfl
    obtain ⟨d, under, rfl⟩ := List.mem_map.mp old
    have same := List.mem_singleton.mp new
    obtain ⟨known, here, -, epoch⟩ := h.known d under
    have documents : d.lease.documentId = documentId := congrArg Prod.fst same
    have epochs : d.lease.leaseEpoch = doc.leaseEpoch + 1 := congrArg Prod.snd same
    rw [documents, found] at here
    cases here
    omega
  · rcases List.mem_append.mp under with old | new
    · exact (h.sound old).past fun _ _ => id
    · obtain rfl := List.mem_singleton.mp new
      exact ⟨fun _ _ _ _ other => (by cases other), fun _ _ _ other => (by cases other), fun _ other => (by cases other), fun _ => rfl⟩

theorem Tracked.provider (h : s.Tracked x) (provider : Provider) : { s with provider := provider }.Tracked x :=
  .of_sound rfl rfl h.known h.distinct fun _ under => (h.sound under).past fun _ _ => id

theorem Tracked.set (h : s.Tracked x) {k : Nat} {d : Delivery} (here : s.deliveries[k]? = some d) {stage : Stage}
    {unverified : Option AuthoritativeProjectionState} (sound : s.Sound x { d with stage, unverified }) :
    (s.set k { d with stage, unverified }).Tracked x := by
  refine .of_sound rfl rfl (fun e under => ?_) ?_ fun e under => ?_
  · rcases List.mem_or_eq_of_mem_set under with old | rfl
    · exact h.known e old
    · exact h.known d (List.mem_of_getElem? here)
  · change ((s.deliveries.set k _).map fun d : Delivery => (d.lease.documentId, d.lease.leaseEpoch)).Nodup
    rw [List.map_set]
    have still : (s.deliveries.map fun d => (d.lease.documentId, d.lease.leaseEpoch)).set k (d.lease.documentId, d.lease.leaseEpoch) =
        s.deliveries.map fun d => (d.lease.documentId, d.lease.leaseEpoch) := by
      refine List.ext_getElem? fun j => ?_
      by_cases same : k = j
      · subst same
        rw [List.getElem?_set_self (by rw [List.length_map]; exact (List.getElem?_eq_some_iff.mp here).1), List.getElem?_map, here]
        rfl
      · rw [List.getElem?_set_ne same]
    rw [still]
    exact h.distinct
  · rcases List.mem_or_eq_of_mem_set under with old | rfl
    · exact (h.sound old).past fun _ _ => id
    · exact sound.past fun _ _ => id

/-- A patch that settles a document leaves its event and its epoch. -/
theorem Tracked.finish (h : s.Tracked x) (k : Nat) (d : Delivery) (forgotten : Bool) : (s.finish x k d forgotten).Tracked x := by
  refine .of_sound rfl rfl (fun e under => h.known e (List.mem_of_mem_eraseIdx under)) ?_
    fun e under => (h.sound (List.mem_of_mem_eraseIdx under)).past fun _ _ => id
  exact h.distinct.sublist ((List.eraseIdx_sublist _ _).map _)

theorem Tracked.patch (h : s.Tracked x) (d : Delivery) {change : OutboxDocument → OutboxDocument}
    (event : ∀ doc, (change doc).event = doc.event) (epoch : ∀ doc, (change doc).leaseEpoch = doc.leaseEpoch) :
    (s.patch d change).Tracked x := by
  unfold Outbox.patch
  split
  · rename_i doc found
    refine .of_sound rfl rfl (fun e under => ?_) h.distinct fun e under => (h.sound under).past fun _ _ => id
    obtain ⟨known, here, same, order⟩ := h.known e under
    by_cases document : e.lease.documentId = d.lease.documentId
    · rw [document, found] at here
      cases here
      rw [document]
      exact ⟨change doc, Dict.get_put_self _ _ _, (event doc).trans same, by rw [epoch]; exact order⟩
    · exact ⟨known, (Dict.get_put_other _ document _).trans here, same, order⟩
  · exact h

/-! ## Steps -/

/-- An index entry is lost, right, or looked after. -/
def Kept (x : IndexedAccount) (s : Outbox) (κ : MemoryOutboxEventType × String) : Prop :=
  κ ∈ s.lost ∨ s.provider.published κ.1 κ.2 = (s.authoritative x κ.2).implied ∨ s.LookedAfter x κ

theorem Kept.committed (tracked : s.Tracked x) (commits : s.Commits x p c) {κ : MemoryOutboxEventType × String}
    (h : s.Kept x κ) : (s.committed c).Kept x κ := by
  by_cases written : κ.2 ∈ c.items.map MemoryItem.memoryId
  · obtain ⟨m, member, same⟩ := List.mem_map.mp written
    refine .inr (.inr ?_)
    have looked := commits.lookedAfter member κ.1
    rw [same] at looked
    exact looked
  · refine h.imp id (Or.imp (fun right => right.trans ?_) fun looked => looked.committed tracked commits written)
    unfold Outbox.authoritative
    rw [get_item_other written]
    unfold Outbox.committed
    dsimp only
    rw [commits.generation]

theorem Kept.claimed (tracked : s.Tracked x) {κ : MemoryOutboxEventType × String} (h : s.Kept x κ) {documentId : String}
    {doc : OutboxDocument} (found : Dict.get s.documents documentId = some doc) (config : CanonicalMemoryOutboxWorkerConfig)
    (now : Int) : (s.claimed documentId doc config now).Kept x κ :=
  h.imp id (Or.imp id fun looked => looked.claimed tracked found config now)

section Moves
variable {k : Nat} {d : Delivery} {κ : MemoryOutboxEventType × String}

theorem Kept.start (here : s.deliveries[k]? = some d) (stage : d.stage = .claimed) (h : s.Kept x κ)
    (read : Read) : (s.start x k d read).Kept x κ := by
  obtain ⟨next, same, first⟩ := start_spec x s k d read
  rw [same]
  refine h.imp id (Or.imp id fun looked => looked.set here rfl (fun about clean will => ⟨clean, ?_⟩) fun _ _ wrote _ => wrote)
  unfold WillWrite at will
  rw [stage] at will
  unfold WillWrite
  rcases first.due κ about will with ⟨errorCode, fails⟩ | ⟨memoryId, state, attempt, use, writes⟩
  · rw [fails]
    exact .inr will
  · rw [writes]
    trivial

theorem failureCode_repair (state : AuthoritativeProjectionState) (eventType : MemoryOutboxEventType) :
    repairCode (state.failureCode eventType) = true := by
  unfold AuthoritativeProjectionState.failureCode
  cases eventType <;> cases state.implied.isSome <;> decide

/-- A write that took effect makes its claim the one that looks after the entry. -/
theorem Kept.wrote (here : s.deliveries[k]? = some d) {memoryId : String}
    (about : d.entry x = some (d.lease.rawEvent.event.eventType, memoryId)) (h : s.Kept x κ) (state : AuthoritativeProjectionState)
    (use : Bool) (stage : Stage) :
    ({ s with provider := s.provider.perform d.lease.rawEvent.event memoryId state use }.set k
      { d with stage, unverified := some state }).Kept x κ := by
  by_cases mine : κ = (d.lease.rawEvent.event.eventType, memoryId)
  · subst mine
    exact .inr (.inr (.writer { d with stage, unverified := some state } (set_self here) about state rfl
      (s.provider.published_perform d.lease.rawEvent.event memoryId state use)))
  · have same := s.provider.published_perform_other d.lease.rawEvent.event memoryId state use mine
    have apart : d.entry x ≠ some κ := fun other => mine (Option.some.inj (other.symm.trans about))
    refine h.imp id (Or.imp (fun right => same.trans right) fun looked => ?_)
    exact (looked.provider same).set here rfl (fun other => absurd other apart) fun other => absurd other apart

theorem Kept.write (tracked : s.Tracked x) (here : s.deliveries[k]? = some d) {memoryId : String}
    {state : AuthoritativeProjectionState} {attempt : Nat} {use : Bool} (stage : d.stage = .writing memoryId state attempt use)
    (h : s.Kept x κ) (effect : Effect) : (s.write k d memoryId state attempt use effect).Kept x κ := by
  obtain ⟨about, -⟩ := tracked.writing d (List.mem_of_getElem? here) _ _ _ _ stage
  unfold Outbox.write
  cases effect with
  | taken => exact h.wrote here about state _ _
  | failed tookEffect =>
      cases tookEffect with
      | true => exact h.wrote here about state _ _
      | false =>
          refine h.imp id (Or.imp id fun looked => looked.set here rfl (fun _ clean _ => ⟨clean, ?_⟩) fun _ _ wrote _ => wrote)
          exact .inl (failureCode_repair state _)

theorem Kept.verify (tracked : s.Tracked x) (here : s.deliveries[k]? = some d) {memoryId : String}
    {state : AuthoritativeProjectionState} {attempt : Nat} (stage : d.stage = .verifying memoryId state attempt) (h : s.Kept x κ)
    (read : Read) : (s.verify x k d memoryId state attempt read).Kept x κ := by
  obtain ⟨about, past, wrote⟩ := tracked.verifying d (List.mem_of_getElem? here) _ _ _ stage
  have onward : ∀ stage', (s.set k { d with stage := stage' }).Kept x κ := by
    intro stage'
    refine h.imp id (Or.imp id fun looked => looked.set here rfl (fun _ clean => ?_) fun _ _ wrote _ => wrote)
    rw [wrote] at clean
    cases clean
  unfold Outbox.verify
  split
  · exact onward _
  · split
    · exact onward _
    · dsimp only
      split
      · rename_i same
        rcases h with lost | right | looked
        · exact .inl lost
        · exact .inr (.inl right)
        · by_cases right : s.provider.published κ.1 κ.2 = (s.authoritative x κ.2).implied
          · exact .inr (.inl right)
          · refine .inr (.inr (looked.set here rfl (fun _ clean => ?_) fun mine written last published => ?_))
            · rw [wrote] at clean
              cases clean
            · -- the entry holds what this claim wrote, and that is the present state
              obtain rfl := Option.some.inj (about.symm.trans mine)
              obtain rfl : state = written := Option.some.inj (wrote.symm.trans last)
              exact absurd (published.trans (implied_of_sameFence past same)) right
      · split
        · exact onward _
        · exact onward _

theorem Kept.finish (tracked : s.Tracked x) (here : s.deliveries[k]? = some d) (h : s.Kept x κ) {forgotten : Bool}
    (forgot : s.holds d = false → d.unverified.isSome = true → forgotten = true) : (s.finish x k d forgotten).Kept x κ := by
  rcases h with lost | right | looked
  · refine .inl ?_
    unfold Outbox.finish
    dsimp only
    split
    · exact List.mem_append_left _ lost
    · exact lost
  · exact .inr (.inl right)
  · exact (looked.finish tracked here forgot).imp id .inr

/-- A claim that settles its document: a failure leaves the sign that the entry is to be repaired, or the entry is named. -/
theorem Kept.settle (tracked : s.Tracked x) (here : s.deliveries[k]? = some d) (h : s.Kept x κ)
    {change : OutboxDocument → OutboxDocument} {repaired : Bool} (committed : Bool)
    (mine : ∀ doc, Dict.get s.documents d.lease.documentId = some doc → doc.event = d.lease.rawEvent.event →
      d.entry x = some κ → (d.unverified.isSome = true ∨ s.WillWrite x d) →
      (d.unverified.isSome || d.lease.needsRepair) = true ∧ repaired = false ∨
        (change doc).event = doc.event ∧ Waiting (change doc).status ∧
          (s.Current x d.lease.documentId doc ∨ (change doc).lastErrorCode.any repairCode = true)) :
    (s.settle x k d change repaired committed).Kept x κ := by
  unfold Outbox.settle
  split
  · exact h.finish tracked here fun _ wrote => wrote
  · rename_i keeps
    have holds : s.holds d = true := by simpa using keeps
    split
    · obtain ⟨doc, found, -, -, -⟩ := holds_iff.mp holds
      obtain ⟨doc', found', event, -⟩ := tracked.known d (List.mem_of_getElem? here)
      rw [found] at found'
      cases found'
      have patched : s.patch d change = { s with documents := Dict.put s.documents d.lease.documentId (change doc) } := by
        unfold Outbox.patch
        rw [found]
      rcases h with lost | right | looked
      · refine .inl ?_
        rw [patched]
        unfold Outbox.finish
        dsimp only
        split
        · exact List.mem_append_left _ lost
        · exact lost
      · refine .inr (.inl ?_)
        rw [patched]
        exact right
      · refine (looked.settled tracked here holds rfl fun about due => ?_).imp id .inr
        rcases mine doc found event about due with ⟨owed, unrepaired⟩ | ⟨same, waits, again⟩
        · refine .inl ?_
          rw [owed, unrepaired]
          unfold Outbox.finish
          rw [about]
          exact List.mem_append_right _ (List.mem_singleton_self _)
        · refine .inr (.waiting d.lease.documentId (change doc) ?_ ?_ waits (again.imp (fun current => ?_) id))
          · rw [patched]
            exact Dict.get_put_self _ _ _
          · exact (OutboxDocument.entry_congr (same.trans event) _).trans about
          · rw [patched]
            exact current.congr same rfl fun _ _ _ => rfl
    · exact h.finish tracked here fun free _ => absurd (free.symm.trans holds) (by decide)

theorem Kept.acknowledge (tracked : s.Tracked x) (here : s.deliveries[k]? = some d) {reason : SettledReason}
    (stage : d.stage = .acknowledging reason) (h : s.Kept x κ) (committed : Bool) :
    (s.settle x k d OutboxDocument.acknowledged true committed).Kept x κ := by
  have clean := tracked.settled d (List.mem_of_getElem? here) reason stage
  refine h.settle tracked here committed fun doc _ _ _ due => ?_
  rcases due with wrote | will
  · rw [clean] at wrote
    cases wrote
  · unfold WillWrite at will
    rw [stage] at will
    exact absurd will id

theorem Kept.fail (tracked : s.Tracked x) (here : s.deliveries[k]? = some d) {errorCode : String}
    (stage : d.stage = .failing errorCode) (h : s.Kept x κ) (committed : Bool) :
    (s.settle x k d (d.lease.failed errorCode) (repairCode errorCode) committed).Kept x κ := by
  refine h.settle tracked here committed fun doc found event about due => ?_
  have waits : Waiting (d.lease.failed errorCode doc).status := by
    unfold LeasedMemoryOutboxEvent.failed
    dsimp only
    split
    · exact ⟨fun other => (by cases other), fun other => (by cases other)⟩
    · exact ⟨fun other => (by cases other), fun other => (by cases other)⟩
  cases repairs : repairCode errorCode with
  | true => exact .inr ⟨rfl, waits, .inr repairs⟩
  | false =>
      unfold WillWrite at due
      rw [stage] at due
      rcases due with wrote | repairs' | repair | current
      · exact .inl ⟨by rw [wrote, Bool.true_or], rfl⟩
      · rw [repairs] at repairs'
        cases repairs'
      · exact .inl ⟨by rw [repair, Bool.or_true], rfl⟩
      · exact .inr ⟨rfl, waits, .inl (current.congr event rfl fun _ _ _ => rfl)⟩

theorem Kept.move (tracked : s.Tracked x) (here : s.deliveries[k]? = some d) (h : s.Kept x κ) {m : Move} {t : Outbox}
    (done : s.move x k d m = some t) : t.Kept x κ := by
  cases m with
  | start read =>
      simp only [Outbox.move] at done
      split at done
      · cases done
        exact h.start here ‹_› read
      · cases done
  | write effect =>
      simp only [Outbox.move] at done
      split at done
      · cases done
        exact h.write tracked here ‹_› effect
      · cases done
  | verify read =>
      simp only [Outbox.move] at done
      split at done
      · cases done
        exact h.verify tracked here ‹_› read
      · cases done
  | settle committed =>
      simp only [Outbox.move] at done
      split at done
      · cases done
        exact h.acknowledge tracked here ‹_› committed
      · cases done
        exact h.fail tracked here ‹_› committed
      · cases done
  | crash =>
      cases done
      refine h.finish tracked here fun free wrote => ?_
      rw [free, wrote]
      rfl

theorem Tracked.move (h : s.Tracked x) (here : s.deliveries[k]? = some d) {m : Move} {t : Outbox}
    (done : s.move x k d m = some t) : t.Tracked x := by
  have sound := h.sound (List.mem_of_getElem? here)
  cases m with
  | start read =>
      simp only [Outbox.move] at done
      split at done
      · rename_i stage
        cases done
        obtain ⟨next, same, first⟩ := start_spec x s k d read
        rw [same]
        refine h.set here ⟨fun memoryId state attempt use writes => ?_, fun memoryId state attempt other => ?_,
          fun _ _ => sound.started stage, fun other => absurd other first.later.1⟩
        · obtain ⟨about, rfl⟩ := first.writing memoryId state attempt use writes
          exact ⟨about, Past.authoritative s memoryId⟩
        · exact absurd other (first.later.2 memoryId state attempt)
      · cases done
  | write effect =>
      simp only [Outbox.move] at done
      split at done
      · rename_i memoryId state attempt use stage
        cases done
        obtain ⟨about, past⟩ := sound.writing _ _ _ _ stage
        have performed := h.provider (s.provider.perform d.lease.rawEvent.event memoryId state (use && attempt == 0))
        have took : ∀ {stage}, s.Sound x { d with stage := stage, unverified := some state } →
            ({ s with provider := s.provider.perform d.lease.rawEvent.event memoryId state (use && attempt == 0) }.set k
              { d with stage := stage, unverified := some state }).Tracked x := fun sound =>
          performed.set here (sound.past fun _ _ => id)
        have failing : ∀ unverified, s.Sound x { d with
            stage := .failing (state.failureCode d.lease.rawEvent.event.eventType), unverified := unverified } := fun _ =>
          ⟨fun _ _ _ _ other => (by cases other), fun _ _ _ other => (by cases other), fun _ other => (by cases other),
            fun other => (by cases other)⟩
        unfold Outbox.write
        cases effect with
        | taken =>
            refine took ⟨fun _ _ _ _ other => (by cases other), fun id read tries at_ => ?_, fun _ other => (by cases other),
              fun other => (by cases other)⟩
            cases at_
            exact ⟨about, past, rfl⟩
        | failed tookEffect =>
            cases tookEffect with
            | true => exact took (failing _)
            | false => exact h.set here (failing _)
      · cases done
  | verify read =>
      simp only [Outbox.move] at done
      split at done
      · rename_i memoryId state attempt stage
        cases done
        obtain ⟨about, past, wrote⟩ := sound.verifying _ _ _ stage
        have failing : ∀ errorCode, (s.set k { d with stage := .failing errorCode }).Tracked x := fun _ =>
          h.set here ⟨fun _ _ _ _ other => (by cases other), fun _ _ _ other => (by cases other),
            fun _ other => (by cases other), fun other => (by cases other)⟩
        unfold Outbox.verify
        split
        · exact failing _
        · split
          · exact failing _
          · dsimp only
            split
            · exact h.set here ⟨fun _ _ _ _ other => (by cases other),
                fun _ _ _ other => (by cases other), fun _ _ => rfl, fun other => (by cases other)⟩
            · split
              · refine h.set here ⟨fun id read tries use writes => ?_, fun _ _ _ other => (by cases other),
                  fun _ other => (by cases other), fun other => (by cases other)⟩
                cases writes
                exact ⟨about, Past.authoritative s memoryId⟩
              · exact failing _
      · cases done
  | settle committed =>
      have settled : ∀ {change : OutboxDocument → OutboxDocument} {repaired}, (∀ doc, (change doc).event = doc.event) →
          (∀ doc, (change doc).leaseEpoch = doc.leaseEpoch) → (s.settle x k d change repaired committed).Tracked x := by
        intro change repaired event epoch
        unfold Outbox.settle
        split
        · exact h.finish k d _
        · split
          · exact (h.patch d event epoch).finish k d _
          · exact h.finish k d _
      simp only [Outbox.move] at done
      split at done
      · cases done
        exact settled (fun _ => rfl) fun _ => rfl
      · cases done
        exact settled (fun _ => rfl) fun _ => rfl
      · cases done
  | crash =>
      cases done
      exact h.finish k d _

end Moves

/-! ## Runs -/

theorem Reached.kept (reached : Reached x p s) : s.Tracked x ∧ ∀ κ, s.Kept x κ := by
  refine Reachable.invariant (I := fun s => s.Tracked x ∧ ∀ κ, s.Kept x κ) (fun s started => ?_) (fun s a t h step => ?_) reached
  · refine ⟨.of_sound started.documents started.deliveries ?_ List.nodup_nil ?_, fun κ => .inr (.inl (started.agrees κ.1 κ.2))⟩
    · intro d under
      cases under
    · intro d under
      cases under
  · obtain ⟨tracked, kept⟩ := h
    cases step with
    | commit commits => exact ⟨tracked.committed commits, fun κ => (kept κ).committed tracked commits⟩
    | claim config found claimable => exact ⟨tracked.claimed found config _, fun κ => (kept κ).claimed tracked found config _⟩
    | move here done => exact ⟨tracked.move here done, fun κ => (kept κ).move tracked here done⟩

/-- In every run of commits, claims, provider calls that fail with or without effect, lapsed leases and crashes: once the
events of an index entry are delivered and no claim for it is under way, the entry holds exactly what the present item
implies, unless a claim that had written or was to repair it ended without leaving a sign of it. -/
theorem indexes_converge (x : IndexedAccount) (p : Platform) (s : Outbox) (reached : Reached x p s) (eventType : MemoryOutboxEventType)
    (memoryId : String)
    (delivered : ∀ documentId doc, Dict.get s.documents documentId = some doc →
      doc.entry x documentId = some (eventType, memoryId) → doc.status = .delivered)
    (idle : ∀ d ∈ s.deliveries, d.entry x ≠ some (eventType, memoryId)) (kept : (eventType, memoryId) ∉ s.lost) :
    s.provider.published eventType memoryId = (s.authoritative x memoryId).implied := by
  rcases reached.kept.2 (eventType, memoryId) with lost | right | looked
  · exact absurd lost kept
  · exact right
  · cases looked with
    | waiting documentId doc found about status due => exact absurd (delivered documentId doc found about) status.2
    | orphan documentId doc found about status left =>
        rw [delivered documentId doc found about] at status
        cases status
    | holder d under about holds clean will => exact absurd about (idle d under)
    | writer d under about state wrote published => exact absurd about (idle d under)

/-! ## A sample run -/

/-- Event ids that are read off the type of the event. -/
def eventPlatform : Platform :=
  { samplePlatform with dumps := fun v => ((v.entries.getD []).findSome? fun e => if e.1 = "event_type" then e.2.text else none).getD "" }

def sampleCommitted : Committed :=
  { commit := ⟨sampleControl, { sampleOperation eventPlatform (samplePatch false [] none) with operationId := "o1" }, "c1", 1⟩
    clock := sampleClock
    items := [{ sampleItem "m" with contentHash := some "h" }]
    control := { sampleControl with headCommitId := "c1", commitSequence := 1 }
    events := [.projectionSync, .vectorSync].map fun eventType =>
      { eventId := "evt_memory-outbox|" ++ eventType.value
        uid := "u"
        eventType
        commitId := "c1"
        parentCommitId := "c0"
        commitSequence := 1
        memoryId := some "m"
        operationId := "o1"
        accountGeneration := 0
        sourceGeneration := 0
        payload := ({ sampleItem "m" with contentHash := some "h" } : MemoryItem).eventPayload
        availableAt := now 1 } }

def sampleOutbox : Outbox := ⟨sampleControl, [], [], ⟨[], []⟩, [], []⟩

theorem sample_commits_outbox : sampleOutbox.Commits ⟨"u", false⟩ eventPlatform sampleCommitted where
  control := rfl
  uid := rfl
  generation := rfl
  distinct := by decide
  generations := by
    intro m member
    rw [List.mem_singleton.mp member]
    rfl
  revisions := by
    intro m member
    rw [List.mem_singleton.mp member]
    exact ⟨by decide, fun old present => by cases present⟩
  hashes := by
    intro m member
    rw [List.mem_singleton.mp member]
    exact ⟨"h", rfl, by decide⟩
  events := ⟨[sampleCommitted.events], rfl, rfl⟩
  ids := by decide
  fresh := fun _ _ member => by cases member

def sampleConfig : CanonicalMemoryOutboxWorkerConfig := { workerId := "w" }

def sampleDocument : String := "evt_memory-outbox|projection_sync"

/-- A commit, and one claim that goes through. -/
theorem sample_delivered : ∃ s, Reached ⟨"u", false⟩ eventPlatform s ∧ s.deliveries = [] ∧ s.lost = [] ∧
    s.documents.map (fun e => (e.1, e.2.event.eventType, e.2.status)) =
      [(sampleDocument, .projectionSync, .delivered), ("evt_memory-outbox|vector_sync", .vectorSync, .pending)] ∧
    (s.authoritative ⟨"u", false⟩ "m").implied.map MemoryItem.contentHash = some (some "h") := by
  have started : Started ⟨"u", false⟩ sampleOutbox := ⟨rfl, rfl, fun eventType memoryId => by cases eventType <;> rfl⟩
  have committed := (Reachable.start started : Reached ⟨"u", false⟩ eventPlatform sampleOutbox).next (.commit sample_commits_outbox)
  have claimed := committed.next (@Step.claim _ _ _ sampleDocument _ sampleConfig 1 rfl rfl)
  have read := claimed.next (@Step.move _ _ _ _ 0 _ (.start .whole) rfl rfl)
  have written := read.next (@Step.move _ _ _ _ 0 _ (.write .taken) rfl rfl)
  have verified := written.next (@Step.move _ _ _ _ 0 _ (.verify .whole) rfl rfl)
  exact ⟨_, verified.next (@Step.move _ _ _ _ 0 _ (.settle true) rfl rfl), rfl, rfl, rfl, rfl⟩

theorem sample_converges : ∃ s, Reached ⟨"u", false⟩ eventPlatform s ∧
    (s.provider.published .projectionSync "m").map MemoryItem.contentHash = some (some "h") := by
  obtain ⟨s, reached, idle, clean, documents, implied⟩ := sample_delivered
  have converged := indexes_converge ⟨"u", false⟩ eventPlatform s reached .projectionSync "m" (fun documentId doc found about => by
    have member := List.mem_map_of_mem (f := fun e => (e.1, e.2.event.eventType, e.2.status)) (Dict.get_eq_some found)
    have kind : doc.event.eventType = .projectionSync := (OutboxDocument.entry_some about).1
    rw [documents] at member
    rcases List.mem_cons.mp member with first | second
    · exact congrArg (fun e => e.2.2) first
    · have other := congrArg (fun e => e.2.1) (List.mem_singleton.mp second)
      rw [kind] at other
      cases other) (fun d under => by rw [idle] at under; cases under) (by rw [clean]; exact List.not_mem_nil)
  exact ⟨s, reached, by rw [converged, implied]⟩

end Outbox
end OmiLocal.Memory
