import OmiLocal.Memory.Apply
import OmiLocal.Lib.Dict
import OmiLocal.Lib.Transition

/-!
# The outbox worker

`run_canonical_memory_outbox_worker_tick`: an event is claimed for a time, the
item it names is read again and written to the search projection or the vector
index, and the event is settled if the claim still holds. A tick handles its
claims one after the other; the model runs each claim by itself between its
calls of the database and the provider, together with the claims of other ticks
and workers and with the commits that append the events. Which of the due
events a tick claims, and the summary it returns, are left out, as are events
that cannot be parsed.
-/
namespace OmiLocal.Memory
open Lib Lib.Values Lib.Transition

inductive MemoryOutboxStatus where
  | pending
  | processing
  | delivered
  | retryableFailure
  | deadLetter
deriving DecidableEq

/-- The document of an event, with what delivery adds to it. -/
structure OutboxDocument where
  event : MemoryOutboxEvent
  status : MemoryOutboxStatus
  attemptCount : Nat
  lastErrorCode : Option String
  availableAt : Int
  leaseOwner : Option String
  leaseEpoch : Nat
  leaseExpiresAt : Option Int

def MemoryOutboxEvent.document (event : MemoryOutboxEvent) : OutboxDocument :=
  ⟨event, .pending, 0, none, event.availableAt.micros, none, 0, none⟩

def providerConvergenceAttempts : Nat := 5

def providerStateRaceError : String := "provider_state_changed_during_delivery"

def providerRepairRequiredErrorCodes : List String :=
  [providerStateRaceError, "projection_upsert_failed", "projection_delete_failed", "vector_upsert_failed", "vector_delete_failed"]

/-- `limit` and `scan_limit` are left out. -/
structure CanonicalMemoryOutboxWorkerConfig where
  workerId : String
  leaseSeconds : Nat := 300
  maxAttempts : Nat := 5
  baseBackoffSeconds : Nat := 30
  maxBackoffSeconds : Nat := 1800

/-- In microseconds. -/
def timedelta (seconds : Nat) : Int := seconds * 1000000

def CanonicalMemoryOutboxWorkerConfig.retryDelay (config : CanonicalMemoryOutboxWorkerConfig) (attemptCount : Nat) : Int :=
  timedelta (min config.maxBackoffSeconds (config.baseBackoffSeconds * 2 ^ min (attemptCount - 1) 30))

/-! ## Claims -/

def OutboxDocument.isClaimable (doc : OutboxDocument) (now : Int) : Bool :=
  match doc.status with
  | .pending => decide (doc.availableAt ≤ now)
  | .retryableFailure => decide (doc.availableAt ≤ now)
  | .processing => doc.leaseExpiresAt.any fun expiresAt => decide (expiresAt ≤ now)
  | _ => false

/-- `rawEvent` is the document before the claim, `now` the time of the tick. -/
structure LeasedMemoryOutboxEvent where
  documentId : String
  rawEvent : OutboxDocument
  config : CanonicalMemoryOutboxWorkerConfig
  leaseEpoch : Nat
  now : Int

def OutboxDocument.claim (doc : OutboxDocument) (config : CanonicalMemoryOutboxWorkerConfig) (now : Int) : OutboxDocument :=
  { doc with
    status := .processing
    leaseOwner := some config.workerId
    leaseEpoch := doc.leaseEpoch + 1
    leaseExpiresAt := some (now + timedelta config.leaseSeconds) }

/-- `_ack_event_transaction` settles a document for its owner of this epoch only. -/
def LeasedMemoryOutboxEvent.owns (lease : LeasedMemoryOutboxEvent) (doc : OutboxDocument) : Bool :=
  doc.status == .processing && doc.leaseOwner == some lease.config.workerId && doc.leaseEpoch == lease.leaseEpoch

def LeasedMemoryOutboxEvent.needsRepair (lease : LeasedMemoryOutboxEvent) : Bool :=
  lease.rawEvent.status == .processing || lease.rawEvent.lastErrorCode.any providerRepairRequiredErrorCodes.contains

/-- The patch behind a delivery. -/
def OutboxDocument.acknowledged (doc : OutboxDocument) : OutboxDocument :=
  { doc with status := .delivered, lastErrorCode := none, leaseOwner := none, leaseExpiresAt := none }

/-- The patch of `_settle_failure`. -/
def LeasedMemoryOutboxEvent.failed (lease : LeasedMemoryOutboxEvent) (errorCode : String) (doc : OutboxDocument) : OutboxDocument :=
  let attemptCount := lease.rawEvent.attemptCount + 1
  let deadLetter := decide (lease.config.maxAttempts ≤ attemptCount)
  { doc with
    status := if deadLetter then .deadLetter else .retryableFailure
    attemptCount := attemptCount
    lastErrorCode := some errorCode
    leaseOwner := none
    leaseExpiresAt := none
    availableAt := if deadLetter then doc.availableAt else lease.now + lease.config.retryDelay attemptCount }

/-! ## The authoritative state -/

structure AuthoritativeProjectionState where
  accountGeneration : Int
  item : Option MemoryItem
  projectionWritesBlocked : Bool

def userReview (item : MemoryItem) : Value := fetch (item.promotion.getD []) "user_review"

def sameItemFence (a b : MemoryItem) : Bool :=
  a.uid == b.uid && a.accountGeneration == b.accountGeneration && a.itemRevision == b.itemRevision &&
    a.contentHash == b.contentHash && a.ledgerCommitId == b.ledgerCommitId && a.tier == b.tier && a.status == b.status &&
    a.processingState == b.processingState && a.sourceState == b.sourceState &&
    a.sensitivityLabels.insertionSort (· ≤ ·) == b.sensitivityLabels.insertionSort (· ≤ ·) && (userReview a).same (userReview b)

/-- Equality of the fences. -/
def AuthoritativeProjectionState.sameFence (a b : AuthoritativeProjectionState) : Bool :=
  a.accountGeneration == b.accountGeneration && a.projectionWritesBlocked == b.projectionWritesBlocked &&
    match a.item, b.item with
    | none, none => true
    | some i, some j => sameItemFence i j
    | _, _ => false

/-- `_is_search_projection_indexable` and `_is_vector_indexable`, which are the same test. -/
def isIndexable (item : MemoryItem) : Bool :=
  (item.tier == .shortTerm || item.tier == .longTerm) && item.status == .active && item.processingState == .processed &&
    item.sourceState == .active && notRejected item.promotion && !restricted item.sensitivityLabels &&
    !blank (item.content.getD "")

/-- The item that the provider is to hold. -/
def AuthoritativeProjectionState.implied (state : AuthoritativeProjectionState) : Option MemoryItem :=
  if state.projectionWritesBlocked then none
  else state.item.filter fun item => item.accountGeneration == state.accountGeneration && isIndexable item

/-! ## The provider -/

structure Provider where
  projection : List (String × (MemoryItem × Int))
  vector : List (String × (MemoryItem × String))

/-- The item that one index holds under an id. -/
def Provider.published (provider : Provider) (eventType : MemoryOutboxEventType) (memoryId : String) : Option MemoryItem :=
  match eventType with
  | .projectionSync => (Dict.get provider.projection memoryId).map Prod.fst
  | .vectorSync => (Dict.get provider.vector memoryId).map Prod.fst

/-- The effect of `_perform_authoritative_side_effect` when the provider takes it. -/
def Provider.perform (provider : Provider) (event : MemoryOutboxEvent) (memoryId : String) (state : AuthoritativeProjectionState)
    (useEventCommitId : Bool) : Provider :=
  match event.eventType, state.implied with
  | .projectionSync, some item =>
      { provider with projection := Dict.put provider.projection memoryId (item, state.accountGeneration) }
  | .projectionSync, none => { provider with projection := Dict.erase provider.projection memoryId }
  | .vectorSync, some item =>
      let commitId := if useEventCommitId then event.commitId
        else if given item.ledgerCommitId then item.ledgerCommitId.getD "" else event.commitId
      { provider with vector := Dict.put provider.vector memoryId (item, commitId) }
  | .vectorSync, none => { provider with vector := Dict.erase provider.vector memoryId }

def AuthoritativeProjectionState.failureCode (state : AuthoritativeProjectionState) (eventType : MemoryOutboxEventType) : String :=
  match eventType, state.implied.isSome with
  | .projectionSync, true => "projection_upsert_failed"
  | .projectionSync, false => "projection_delete_failed"
  | .vectorSync, true => "vector_upsert_failed"
  | .vectorSync, false => "vector_delete_failed"

/-! ## One claim under way -/

/-- What an event asks for, once it has been checked. -/
inductive OutboxTarget where
  | barrier
  | memory (memoryId : String) (itemRevision : Int) (contentHash : String)

/-- The checks of `_process_leased_event`, or the code of the first that fails. -/
def OutboxDocument.target (doc : OutboxDocument) (requestedUid documentId : String) : Except String OutboxTarget :=
  if doc.event.uid ≠ requestedUid then .error "event_uid_mismatch"
  else if doc.event.eventId ≠ documentId then .error "event_id_mismatch"
  else
    match (fetch doc.event.payload "action").text with
    | some "barrier" => if doc.event.memoryId.isSome then .error "invalid_barrier_event" else .ok .barrier
    | some "upsert" => memoryTarget
    | some "delete" => memoryTarget
    | _ => .error "invalid_event_action"
where
  memoryTarget : Except String OutboxTarget :=
    match doc.event.memoryId with
    | none => .error "event_memory_id_mismatch"
    | some memoryId =>
        if (fetch doc.event.payload "memory_id").text ≠ some memoryId then .error "event_memory_id_mismatch"
        else
          match fetch doc.event.payload "item_revision", fetch doc.event.payload "content_hash" with
          | .int revision, .str contentHash =>
              if revision < 1 ∨ blank contentHash then .error "invalid_event_fence"
              else .ok (.memory memoryId revision contentHash)
          | _, _ => .error "invalid_event_fence"

/-- What a delivery that needs no failure code ends with. -/
inductive SettledReason where
  | projected
  | barrier
  | staleAccountGeneration
  | staleSourceGeneration
  | staleItemAccountGeneration
  | staleItemRevision
  | staleContentHash
deriving DecidableEq

inductive Stage where
  | claimed
  | writing (memoryId : String) (state : AuthoritativeProjectionState) (attempt : Nat) (useEventCommitId : Bool)
  | verifying (memoryId : String) (state : AuthoritativeProjectionState) (attempt : Nat)
  | acknowledging (settledReason : SettledReason)
  | failing (errorCode : String)

/-- `unverified` is recorded: the state whose write took effect last, as long as no later read has confirmed it. -/
structure Delivery where
  lease : LeasedMemoryOutboxEvent
  stage : Stage
  unverified : Option AuthoritativeProjectionState

/-- How a read of the authoritative state ends: whole, with a processing failure of its own, or with another exception. -/
inductive Read where
  | whole
  | missingControlState
  | invalidControlState
  | invalidAuthoritativeItem
  | authoritativeItemUidMismatch
  | raised
deriving DecidableEq

def Read.code : Read → String
  | .whole => ""
  | .missingControlState => "missing_control_state"
  | .invalidControlState => "invalid_control_state"
  | .invalidAuthoritativeItem => "invalid_authoritative_item"
  | .authoritativeItemUidMismatch => "authoritative_item_uid_mismatch"
  | .raised => "processing_failed"

/-- How a call of the provider ends. An error may come behind the effect. -/
inductive Effect where
  | taken
  | failed (tookEffect : Bool)
deriving DecidableEq

/-- The account, and the deletion fence that does not change during the run. -/
structure IndexedAccount where
  uid : String
  projectionWritesBlocked : Bool

/-- `lost` is recorded: the index entries whose last write, or whose repair, no document asks to be checked again. -/
structure Outbox where
  control : MemoryControlState
  items : List (String × MemoryItem)
  documents : List (String × OutboxDocument)
  provider : Provider
  deliveries : List Delivery
  lost : List (MemoryOutboxEventType × String)

/-- The index entry an event is about. -/
def OutboxDocument.entry (x : IndexedAccount) (documentId : String) (doc : OutboxDocument) : Option (MemoryOutboxEventType × String) :=
  match doc.target x.uid documentId with
  | .ok (.memory memoryId _ _) => some (doc.event.eventType, memoryId)
  | _ => none

namespace Delivery

def entry (x : IndexedAccount) (d : Delivery) : Option (MemoryOutboxEventType × String) :=
  d.lease.rawEvent.entry x d.lease.documentId

/-- Behind the first read: the event is stale, or the delivery begins. -/
def decide (d : Delivery) (memoryId : String) (itemRevision : Int) (contentHash : String) (state : AuthoritativeProjectionState) :
    Stage :=
  let event := d.lease.rawEvent.event
  let repair := d.lease.needsRepair
  if event.accountGeneration ≠ state.accountGeneration ∧ ¬repair then .acknowledging .staleAccountGeneration
  else
    match state.item with
    | none => .writing memoryId state 0 false
    | some item =>
        let matchesItem := item.accountGeneration == event.accountGeneration && item.itemRevision == itemRevision &&
          item.contentHash == some contentHash
        if item.accountGeneration ≠ event.accountGeneration ∧ ¬repair then .acknowledging .staleItemAccountGeneration
        else if item.itemRevision ≠ itemRevision ∧ ¬repair then .acknowledging .staleItemRevision
        else if item.contentHash ≠ some contentHash ∧ ¬repair then .acknowledging .staleContentHash
        else .writing memoryId state 0 matchesItem

end Delivery

namespace Outbox
variable (x : IndexedAccount) (s : Outbox)

def authoritative (memoryId : String) : AuthoritativeProjectionState :=
  ⟨s.control.accountGeneration, Dict.get s.items memoryId, x.projectionWritesBlocked⟩

def set (k : Nat) (d : Delivery) : Outbox := { s with deliveries := s.deliveries.set k d }

/-- `_process_leased_event` up to the first write. -/
def start (k : Nat) (d : Delivery) (read : Read) : Outbox :=
  match d.lease.rawEvent.target x.uid d.lease.documentId with
  | .error code => s.set k { d with stage := .failing code }
  | .ok target =>
      if read ≠ .whole then s.set k { d with stage := .failing read.code }
      else
        match target with
        | .barrier =>
            let event := d.lease.rawEvent.event
            s.set k { d with stage := .acknowledging (
              if event.accountGeneration ≠ s.control.accountGeneration then .staleAccountGeneration
              else if event.sourceGeneration ≠ s.control.sourceGeneration then .staleSourceGeneration
              else .barrier) }
        | .memory memoryId itemRevision contentHash =>
            s.set k { d with stage := d.decide memoryId itemRevision contentHash (s.authoritative x memoryId) }

/-- `_perform_authoritative_side_effect`. -/
def write (k : Nat) (d : Delivery) (memoryId : String) (state : AuthoritativeProjectionState) (attempt : Nat)
    (useEventCommitId : Bool) (effect : Effect) : Outbox :=
  let written := { s with
    provider := s.provider.perform d.lease.rawEvent.event memoryId state (useEventCommitId && attempt == 0) }
  let code := state.failureCode d.lease.rawEvent.event.eventType
  match effect with
  | .taken => written.set k { d with stage := .verifying memoryId state attempt, unverified := some state }
  | .failed true => written.set k { d with stage := .failing code, unverified := some state }
  | .failed false => s.set k { d with stage := .failing code }

/-- The read behind a write. -/
def verify (k : Nat) (d : Delivery) (memoryId : String) (state : AuthoritativeProjectionState) (attempt : Nat) (read : Read) : Outbox :=
  if read = .raised then s.set k { d with stage := .failing read.code }
  else if read ≠ .whole then s.set k { d with stage := .failing providerStateRaceError }
  else
    let observed := s.authoritative x memoryId
    if observed.sameFence state then s.set k { d with stage := .acknowledging .projected, unverified := none }
    else if attempt + 1 < providerConvergenceAttempts then
      s.set k { d with stage := .writing memoryId observed (attempt + 1) false }
    else s.set k { d with stage := .failing providerStateRaceError }

/-- The lease still holds. -/
def holds (d : Delivery) : Bool := (Dict.get s.documents d.lease.documentId).any d.lease.owns

/-- A delivery that ends, `forgotten` when its entry is not looked after any more. -/
def finish (k : Nat) (d : Delivery) (forgotten : Bool) : Outbox :=
  { s with
    deliveries := s.deliveries.eraseIdx k
    lost := if forgotten then s.lost ++ (d.entry x).toList else s.lost }

def patch (d : Delivery) (change : OutboxDocument → OutboxDocument) : Outbox :=
  match Dict.get s.documents d.lease.documentId with
  | some doc => { s with documents := Dict.put s.documents d.lease.documentId (change doc) }
  | none => s

/-- A code that makes the next claim repair what the provider holds. -/
def repairCode (errorCode : String) : Bool := providerRepairRequiredErrorCodes.contains errorCode

/-- `_ack_leased_event`, which ignores an exception of its transaction. -/
def settle (k : Nat) (d : Delivery) (change : OutboxDocument → OutboxDocument) (repaired committed : Bool) : Outbox :=
  if !s.holds d then s.finish x k d d.unverified.isSome
  else if committed then (s.patch d change).finish x k d ((d.unverified.isSome || d.lease.needsRepair) && !repaired)
  else s.finish x k d false

/-- An accepted commit: its items and their events. -/
structure Committed where
  commit : Commit
  clock : Clock
  items : List MemoryItem
  control : MemoryControlState
  events : List MemoryOutboxEvent

/-- The items are newer than those they replace, and their events are those of `Commit.itemEvents`. -/
structure Commits (p : Platform) (c : Committed) : Prop where
  control : c.commit.control = s.control
  uid : c.commit.operation.uid = x.uid
  generation : c.control.accountGeneration = s.control.accountGeneration
  distinct : (c.items.map MemoryItem.memoryId).Nodup
  generations : ∀ m ∈ c.items, m.accountGeneration = s.control.accountGeneration
  revisions : ∀ m ∈ c.items, 1 ≤ m.itemRevision ∧
    ∀ old, Dict.get s.items m.memoryId = some old → old.itemRevision < m.itemRevision
  hashes : ∀ m ∈ c.items, ∃ contentHash, m.contentHash = some contentHash ∧ blank contentHash = false
  events : ∃ pairs, c.commit.itemEvents p c.clock c.items = .ok pairs ∧ c.events = pairs.flatten
  ids : (c.events.map MemoryOutboxEvent.eventId).Nodup
  fresh : ∀ e ∈ c.events, e.eventId ∉ Dict.keys s.documents

def committed (c : Committed) : Outbox :=
  { s with
    control := c.control
    items := c.items.foldl (fun items m => Dict.put items m.memoryId m) s.items
    documents := s.documents ++ c.events.map fun e => (e.eventId, e.document) }

/-- The claim of a document, and the claim that is now under way. -/
def claimed (documentId : String) (doc : OutboxDocument) (config : CanonicalMemoryOutboxWorkerConfig) (now : Int) : Outbox :=
  { s with
    documents := Dict.put s.documents documentId (doc.claim config now)
    deliveries := s.deliveries ++ [⟨⟨documentId, doc, config, doc.leaseEpoch + 1, now⟩, .claimed, none⟩] }

inductive Move where
  | start (read : Read)
  | write (effect : Effect)
  | verify (read : Read)
  | settle (committed : Bool)
  | crash
deriving DecidableEq

/-- What a claim under way does next. -/
def move (k : Nat) (d : Delivery) : Move → Option Outbox
  | .start read =>
      match d.stage with
      | .claimed => some (s.start x k d read)
      | _ => none
  | .write effect =>
      match d.stage with
      | .writing memoryId state attempt useEventCommitId =>
          some (s.write k d memoryId state attempt useEventCommitId effect)
      | _ => none
  | .verify read =>
      match d.stage with
      | .verifying memoryId state attempt => some (s.verify x k d memoryId state attempt read)
      | _ => none
  | .settle committed =>
      match d.stage with
      | .acknowledging _ => some (s.settle x k d OutboxDocument.acknowledged true committed)
      | .failing errorCode => some (s.settle x k d (d.lease.failed errorCode) (repairCode errorCode) committed)
      | _ => none
  | .crash => some (s.finish x k d (!s.holds d && d.unverified.isSome))

inductive Action where
  | commit (c : Committed)
  | claim (documentId : String) (config : CanonicalMemoryOutboxWorkerConfig) (now : Int)
  | move (k : Nat) (m : Move)

/-- Times are those of the ticks, in no order. -/
inductive Step (p : Platform) : Outbox → Action → Outbox → Prop
  | commit {s : Outbox} {c : Committed} (commits : s.Commits x p c) : Step p s (.commit c) (s.committed c)
  | claim {s : Outbox} {documentId : String} {doc : OutboxDocument} (config : CanonicalMemoryOutboxWorkerConfig) {now : Int}
      (found : Dict.get s.documents documentId = some doc) (claimable : doc.isClaimable now = true) :
      Step p s (.claim documentId config now) (s.claimed documentId doc config now)
  | move {s t : Outbox} {k : Nat} {d : Delivery} {m : Move} (here : s.deliveries[k]? = some d)
      (done : s.move x k d m = some t) : Step p s (.move k m) t

/-- The indexes agree with the items, and nothing is owed. -/
structure Started : Prop where
  documents : s.documents = []
  deliveries : s.deliveries = []
  agrees : ∀ eventType memoryId, s.provider.published eventType memoryId = (s.authoritative x memoryId).implied

abbrev Reached (p : Platform) : Outbox → Prop := Reachable (Started x) (Step x p)

end Outbox
end OmiLocal.Memory
