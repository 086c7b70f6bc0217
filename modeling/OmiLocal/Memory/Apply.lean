import OmiLocal.Memory.Operation

/-!
# Applying a memory patch

One pure transaction on the control state. A stop is either an exception, which
leaves no result, or a refusal, which is a result of its own; no refusal can be
built with the status of a commit.
-/
namespace OmiLocal.Memory

open Lib Lib.Text Lib.Values

inductive ApplyStatus where
  | committed
  | idempotentSkip
  | retryableHeadMismatch
  | generationMismatch
  | sourceNotActive
  | targetNotActive
  | payloadMismatch
  | invalidPatch
deriving DecidableEq

structure MemoryControlState where
  uid : String
  headCommitId : String
  accountGeneration : Int
  sourceGeneration : Int
  commitSequence : Int
  updatedAt : DateTime
deriving DecidableEq

inductive MemoryOutboxEventType where
  | projectionSync
  | vectorSync
deriving DecidableEq

def MemoryOutboxEventType.value : MemoryOutboxEventType → String
  | .projectionSync => "projection_sync"
  | .vectorSync => "vector_sync"

structure MemoryOutboxEvent where
  eventId : String
  uid : String
  eventType : MemoryOutboxEventType
  commitId : String
  parentCommitId : String
  commitSequence : Int
  memoryId : Option String
  operationId : String
  accountGeneration : Int
  sourceGeneration : Int
  payload : Entries
  availableAt : DateTime

structure ApplyResult where
  status : ApplyStatus
  controlState : MemoryControlState
  operation : MemoryOperation
  memoryItems : List MemoryItem
  graphAssertions : List MemoryGraphAssertion
  outboxEvents : List MemoryOutboxEvent
  reason : Option String

structure Refusal where
  status : ApplyStatus
  operation : MemoryOperation
  reason : Option String
  refused : status ≠ .committed

def Refusal.result (refusal : Refusal) (control : MemoryControlState) : ApplyResult :=
  ⟨refusal.status, control, refusal.operation, [], [], [], refusal.reason⟩

inductive Stop where
  | raised (error : String)
  | refused (refusal : Refusal)

abbrev Attempt := Except Stop

def raising {α : Type} (x : Except String α) : Attempt α := x.mapError .raised

def refuse {α : Type} (status : ApplyStatus) (op : MemoryOperation) (reason : Option String)
    (refused : status ≠ .committed := by decide) : Attempt α :=
  .error (.refused ⟨status, op, reason, refused⟩)

/-- The readings of the clock that one call takes. -/
structure Clock where
  control : Int
  item : Int
  superseded : Nat → Int
  event : Nat → MemoryOutboxEventType → Int
  operation : Int

def now (reading : Int) : DateTime := ⟨reading, true⟩

variable (p : Platform)

def MemoryControlState.nextCommitId (control : MemoryControlState) (operationId : String) : String :=
  "commit_" ++ first32 (deterministicContractId p "memory-commit"
    [("uid", .str control.uid), ("head_commit_id", .str control.headCommitId), ("operation_id", .str operationId),
      ("commit_sequence", .int (control.commitSequence + 1))])

def MemoryControlState.advanceHead (control : MemoryControlState) (commitId : String) (at_ : DateTime) :
    Except String MemoryControlState :=
  if blank commitId then .error "commit_id must not be blank"
  else .ok { control with headCommitId := commitId, commitSequence := control.commitSequence + 1, updatedAt := at_ }

def eventId (eventType : MemoryOutboxEventType) (commitId : String) (memoryId : Option String) (operationId : String) :
    String :=
  "evt_" ++ first32 (deterministicContractId p "memory-outbox"
    [("event_type", .str eventType.value), ("commit_id", .str commitId), ("memory_id", optionalText memoryId),
      ("operation_id", .str operationId)])

/-- What the events of one commit have in common. -/
structure Commit where
  control : MemoryControlState
  operation : MemoryOperation
  commitId : String
  sequence : Int

def Commit.event (c : Commit) (eventType : MemoryOutboxEventType) (memoryId : Option String) (payload : Entries)
    (reading : Int) : Except String MemoryOutboxEvent :=
  let event : MemoryOutboxEvent :=
    { eventId := eventId p eventType c.commitId memoryId c.operation.operationId
      uid := c.operation.uid
      eventType
      commitId := c.commitId
      parentCommitId := c.control.headCommitId
      commitSequence := c.sequence
      memoryId
      operationId := c.operation.operationId
      accountGeneration := c.control.accountGeneration
      sourceGeneration := c.control.sourceGeneration
      payload
      availableAt := now reading }
  if blank event.eventId || blank event.uid || blank event.commitId || blank event.operationId then
    .error "outbox identifiers must not be blank"
  else .ok event

/-- The projection event and the vector event of one change. -/
def Commit.pair (c : Commit) (memoryId : Option String) (payload : MemoryOutboxEventType → Entries)
    (reading : MemoryOutboxEventType → Int) : Except String (List MemoryOutboxEvent) := do
  let projection ← c.event p .projectionSync memoryId (payload .projectionSync) (reading .projectionSync)
  let vector ← c.event p .vectorSync memoryId (payload .vectorSync) (reading .vectorSync)
  return [projection, vector]

def Commit.barrierOutboxEvents (c : Commit) (clock : Clock) : Except String (List MemoryOutboxEvent) :=
  c.pair p none (fun _ => [("action", .str "barrier")]) (clock.event 0)

def restricted (labels : List String) : Bool := labels.any restrictedSensitivityLabels.contains

/-- `user_review is not False`. -/
def notRejected (promotion : Option Entries) : Bool :=
  match fetch (promotion.getD []) "user_review" with
  | .bool false => false
  | _ => true

/-- The projection and the vector have the same condition. -/
def MemoryItem.syncEligible (m : MemoryItem) : Bool :=
  m.status == .active && m.processingState == .processed && (m.tier == .shortTerm || m.tier == .longTerm) &&
    notRejected m.promotion && !restricted m.sensitivityLabels

def MemoryItem.eventPayload (m : MemoryItem) : Entries :=
  [("memory_id", .str m.memoryId), ("tier", .str m.tier.value),
    ("action", .str (if m.syncEligible then "upsert" else "delete")), ("item_revision", .int m.itemRevision),
    ("content_hash", optionalText m.contentHash)]

def Commit.itemEvents (c : Commit) (clock : Clock) (items : List MemoryItem) :
    Except String (List (List MemoryOutboxEvent)) :=
  items.zipIdx.mapM fun (m, k) => c.pair p (some m.memoryId) (fun _ => m.eventPayload) (clock.event k)

def memoryContentHash (content : Option String) (evidenceIds : List String) : String :=
  deterministicContractId p "memory-content"
    [("content", optionalText content), ("evidence_ids", .list (evidenceIds.map .str))]

def deterministicMaterializedMemoryId (uid : String) (patch : DurableMemoryPatch) (commitId : String) : String :=
  if given patch.targetMemoryId then patch.targetMemoryId.getD ""
  else if given patch.newMemoryId then patch.newMemoryId.getD ""
  else
    "mem_" ++ first32 (deterministicContractId p "memory-materialized-item"
      [("uid", .str uid), ("commit_id", .str commitId), ("patch_id", .str patch.patchId),
        ("idempotency_key", .str patch.idempotencyKey)])

def processingStateForPromotion (promotion : Option Entries) (fallback : ProcessingState) : ProcessingState :=
  match fetch (promotion.getD []) "processing_status" with
  | .str status =>
    if ["pending_processing", "processing_failed_retryable", "pending_admission"].contains status then .pending
    else if status = "processing_blocked" then .blocked
    else if status = "processed" then .processed
    else fallback
  | _ => fallback

/-- An archived memory is active or tombstoned; only a short-term one may be unprocessed. -/
def assertLegalState (tier : MemoryTier) (status : MemoryItemStatus) (processing : ProcessingState) :
    Except String Unit :=
  let legal : Bool :=
    match tier with
    | .shortTerm => true
    | .longTerm => processing == .processed
    | .archive => status != .superseded && processing == .processed
  if legal then .ok () else .error "illegal memory state combination"

def createExpiry (tier : MemoryTier) (reading : Int) : Except String (Option DateTime) :=
  if tier = .shortTerm then some <$> defaultShortTermExpiry (now reading) else .ok none

def materializeMemoryItem (uid : String) (patch : DurableMemoryPatch) (evidence : List MemoryEvidence) (commitId : String)
    (sequence accountGeneration : Int) (promotion : Option Entries) (reading : Int) : Except String MemoryItem := do
  let expiresAt ← createExpiry patch.initialTier reading
  let processingState := processingStateForPromotion promotion .processed
  assertLegalState patch.initialTier .active processingState
  MemoryItem.parse p
    { memoryId := deterministicMaterializedMemoryId p uid patch commitId
      uid
      canonicalMemoryId := none
      version := 1
      tier := patch.initialTier
      status := .active
      processingState
      content := patch.memoryText
      normalizedContentKey := normalizedMemoryContentKey p patch.memoryText
      evidence
      sourceState := .active
      sensitivityLabels := []
      visibility := if patch.visibility = "" then "private" else patch.visibility
      userAsserted := patch.userAsserted
      capturedAt := now reading
      updatedAt := now reading
      expiresAt
      ledgerCommitId := some commitId
      ledgerSequence := some sequence
      itemRevision := 1
      sourceCommitId := some commitId
      sourceCommitSequence := some sequence
      contentHash := some (memoryContentHash p patch.memoryText patch.evidenceIds)
      accountGeneration
      promotion
      captureDeviceIds := []
      primaryCaptureDevice := none
      corroborationCount := 0
      lastCorroboratedAt := none
      confidence := none
      supersededBy := none
      subjectEntityId := patch.subjectEntityId
      predicate := patch.predicate
      arguments := patch.arguments
      kgExtracted := false
      graphReady := false
      graphAssertionId := none
      graphPlanHash := none
      ledgerSchemaVersion := patch.ledgerSchemaVersion.join
      kind := patch.kind.getD .fact
      subjectScope := patch.subjectScope.getD .primaryUser
      slot := patch.slot.join
      body := patch.body.join
      validFrom := some (patch.validFrom.join.getD (now reading))
      validTo := patch.validTo.join
      curationWeight := patch.curationWeight.getD 0
      triggerCondition := patch.triggerCondition.getD []
      intentBacked := patch.intentBacked.getD false
      writeReason := patch.writeReason.join }

/-- A blank text keeps the content there is. -/
def resolvedUpdateContent (existing : MemoryItem) (patch : DurableMemoryPatch) : Option String :=
  match patch.memoryText with
  | some text => if blank text then existing.content else some text
  | none => existing.content

def resolvedUpdateStatus (existing : MemoryItem) (patch : DurableMemoryPatch) : MemoryItemStatus :=
  match patch.resultStatus with
  | .hidden => .hidden
  | .rejected => .hidden
  | .superseded => .superseded
  | .active => .active
  | _ => existing.status

def resolvedEvidence (existing : MemoryItem) (evidence : List MemoryEvidence) : List MemoryEvidence :=
  if evidence.isEmpty then existing.evidence else evidence

/-- The ledger fields the patch was given. -/
def DurableMemoryPatch.ledgerUpdates (patch : DurableMemoryPatch) (m : MemoryItem) : MemoryItem :=
  { m with
    ledgerSchemaVersion := patch.ledgerSchemaVersion.getD m.ledgerSchemaVersion
    kind := patch.kind.getD m.kind
    subjectScope := patch.subjectScope.getD m.subjectScope
    slot := patch.slot.getD m.slot
    body := patch.body.getD m.body
    validFrom := patch.validFrom.getD m.validFrom
    validTo := patch.validTo.getD m.validTo
    curationWeight := patch.curationWeight.getD m.curationWeight
    triggerCondition := patch.triggerCondition.getD m.triggerCondition
    intentBacked := patch.intentBacked.getD m.intentBacked
    writeReason := patch.writeReason.getD m.writeReason }

def MemoryItem.clearGraphAssertion (m : MemoryItem) : MemoryItem :=
  { m with
    subjectEntityId := none
    predicate := none
    arguments := []
    graphReady := false
    graphAssertionId := none
    graphPlanHash := none
    kgExtracted := false }

def updateProcessingState (existing : MemoryItem) (tier : MemoryTier) (promotionAudit : Option Entries) : ProcessingState :=
  if tier = .longTerm then .processed else processingStateForPromotion promotionAudit existing.processingState

/-- The fields an update replaces, before the ledger fields and the payload's own. -/
def updatedFields (existing : MemoryItem) (patch : DurableMemoryPatch) (evidence : List MemoryEvidence)
    (commitId : String) (sequence : Int) (promotionAudit : Option Entries) (updatedAt : DateTime)
    (expiresAt : Option DateTime) : MemoryItem :=
  let content := resolvedUpdateContent existing patch
  let tier := patch.targetTier.getD existing.tier
  { existing with
    tier
    status := resolvedUpdateStatus existing patch
    processingState := updateProcessingState existing tier promotionAudit
    content
    normalizedContentKey := normalizedMemoryContentKey p content
    evidence := resolvedEvidence existing evidence
    updatedAt
    expiresAt
    ledgerCommitId := some commitId
    ledgerSequence := some sequence
    version := existing.version + 1
    itemRevision := existing.itemRevision + 1
    contentHash :=
      if patch.memoryText.any (!blank ·) then
        some (memoryContentHash p patch.memoryText ((resolvedEvidence existing evidence).map (·.evidenceId)))
      else existing.contentHash
    promotion := if promotionAudit.isSome then promotionAudit else existing.promotion
    subjectEntityId := if patch.subjectEntityId.isSome then patch.subjectEntityId else existing.subjectEntityId
    predicate := if patch.predicate.isSome then patch.predicate else existing.predicate
    arguments := if patch.arguments.isEmpty then existing.arguments else patch.arguments
    visibility := patch.targetVisibility.getD existing.visibility
    userAsserted := patch.targetUserAsserted.getD existing.userAsserted }

def updateExpiry (existing : MemoryItem) (tier : MemoryTier) : Except String (Option DateTime) :=
  if tier = .shortTerm then
    match existing.expiresAt with
    | some t => .ok (some t)
    | none => some <$> defaultShortTermExpiry existing.capturedAt
  else .ok none

def updateTime (existing : MemoryItem) (reading : Int) : Except String DateTime := do
  let latest ← (now reading).max existing.capturedAt
  latest.max existing.updatedAt

/-- A copy with some fields replaced; no validator runs. -/
def applyUpdateMemoryItem (existing : MemoryItem) (patch : DurableMemoryPatch) (evidence : List MemoryEvidence)
    (commitId : String) (sequence : Int) (promotionAudit : Option Entries) (extra : ItemUpdates) (reading : Int) :
    Except String MemoryItem := do
  let updatedAt ← updateTime existing reading
  let tier := patch.targetTier.getD existing.tier
  let expiresAt ← updateExpiry existing tier
  assertLegalState tier (resolvedUpdateStatus existing patch) (updateProcessingState existing tier promotionAudit)
  let updated := updatedFields p existing patch evidence commitId sequence promotionAudit updatedAt expiresAt
  let extended := extra.apply (patch.ledgerUpdates updated)
  return if patch.clearGraphAssertion then extended.clearGraphAssertion else extended

/-! ## The guards -/

/-- `first or second`. -/
def textOr (first second : Option String) : Option String := if given first then first else second

def argumentsOr (first second : Entries) : Entries := if first.isEmpty then second else first

def evidenceIds (evidence : List MemoryEvidence) : List String := evidence.map (·.evidenceId)

def sorted (texts : List String) : List String := texts.insertionSort (· ≤ ·)

def nonnegativeInt : Value → Option Int
  | .int n => if 0 ≤ n then some n else none
  | _ => none

def nonblankText : Value → Option String
  | .str s => if blank s then none else some s
  | _ => none

/-- The evidence ids a receipt lists, trimmed and sorted; repeated ones make it invalid. -/
def receiptEvidence (raw : Value) : Option (List String) :=
  match textItems raw with
  | .ok ids =>
    let normalized := sorted (ids.map strip)
    if ids.isEmpty || ids.any blank || !decide normalized.Nodup then none else some normalized
  | .error _ => none

def validGraphEnrichmentReceipt (raw : Value) (op : MemoryOperation) (existing : MemoryItem)
    (control : MemoryControlState) (plan : PromotionGraphPlan) : Bool :=
  let version := "canonical_memory_graph_enrichment_receipt.v1"
  match raw with
  | .dict receipt =>
    (fetch receipt "schema_version").text == some version &&
      (match receiptEvidence (fetch receipt "evidence_ids"), nonblankText (fetch receipt "receipt_id"),
          nonblankText (fetch receipt "uid"), nonblankText (fetch receipt "memory_id"),
          nonblankText (fetch receipt "content_hash"), nonblankText (fetch receipt "plan_hash"),
          nonnegativeInt (fetch receipt "item_revision"), nonnegativeInt (fetch receipt "account_generation"),
          nonnegativeInt (fetch receipt "source_generation") with
        | some ids, some receiptId, some uid, some memoryId, some contentHash, some planHash, some revision,
          some accountGeneration, some sourceGeneration =>
          let expected := "ger_" ++ first32 (deterministicContractId p "canonical-memory-graph-enrichment-receipt"
            [("schema_version", .str version), ("uid", .str uid), ("memory_id", .str memoryId),
              ("item_revision", .int revision), ("content_hash", .str contentHash), ("evidence_ids", .list (ids.map .str)),
              ("account_generation", .int accountGeneration), ("source_generation", .int sourceGeneration),
              ("plan_hash", .str planHash)])
          receiptId == expected && uid == op.uid && memoryId == existing.memoryId && revision == existing.itemRevision &&
            some contentHash == existing.contentHash && ids == sorted (evidenceIds existing.evidence) &&
            accountGeneration == control.accountGeneration && sourceGeneration == control.sourceGeneration &&
            planHash == plan.planHash
        | _, _, _, _, _, _, _, _, _ => false)
  | _ => false

/-- `^[a-z][a-z0-9]*(?:_[a-z0-9]+)*$` on the whole text. -/
def graphPredicate (predicate : String) : Bool :=
  let letter (c : Char) : Bool := 'a' ≤ c && c ≤ 'z'
  let piece (cs : List Char) : Bool := !cs.isEmpty && cs.all (fun c => letter c || ('0' ≤ c && c ≤ '9'))
  predicate.toList.head?.any letter && (predicate.toList.splitOnP (· == '_')).all piece

def DurableMemoryPatch.leavesItem (patch : DurableMemoryPatch) : Bool :=
  patch.targetTier.isNone && patch.memoryText.isNone && patch.targetVisibility.isNone &&
    patch.targetUserAsserted.isNone && !patch.clearGraphAssertion

def parsedPlan (promotion : Option Entries) : Option PromotionGraphPlan :=
  match fetch (promotion.getD []) "graph_plan" with
  | .dict raw => (PromotionGraphPlan.parse p raw).toOption
  | _ => none

/-- A graph enrichment may attach one validated plan and nothing else. -/
def graphEnrichmentAllowed (op : MemoryOperation) (existing : MemoryItem) (control : MemoryControlState)
    (patch : DurableMemoryPatch) (payload : PatchPayload) (evidence : List MemoryEvidence) : Bool :=
  let promotion := existing.promotion.getD []
  let requiredReceiptValid := !(fetch promotion "required").truthy ||
    validRequiredProcessingReceipt p (existing.content.getD "") existing.itemRevision promotion
  let replan := existing.graphReady && (fetch promotion "graph_enrichment").truthy
  match parsedPlan p payload.promotionAudit with
  | none => false
  | some plan =>
    existing.activeLongTerm && existing.processingState == .processed && (!existing.graphReady || replan) &&
      validGraphEnrichmentReceipt p (fetch (payload.promotionAudit.getD []) "graph_enrichment_receipt") op existing control
        plan &&
      requiredReceiptValid && !restricted existing.sensitivityLabels && notRejected existing.promotion &&
      patch.leavesItem && payload.extraItemUpdates p == {} && payload.promotion.isNone &&
      patch.resultStatus == .active && patch.supersedes.isEmpty &&
      patch.subjectEntityId == some plan.subjectEntityId &&
      (replan || !given existing.subjectEntityId || existing.subjectEntityId == some plan.subjectEntityId) &&
      patch.predicate == some plan.predicate &&
      (replan || !given existing.predicate || existing.predicate == some plan.predicate) &&
      graphPredicate plan.predicate && sameDict patch.arguments plan.arguments &&
      (replan || existing.arguments.isEmpty || sameDict plan.arguments existing.arguments) &&
      sorted (evidenceIds evidence) == sorted (evidenceIds existing.evidence)

/-- What the patch proposes differs from what the item says. -/
def semanticChange (existing : MemoryItem) (patch : DurableMemoryPatch) (evidence : List MemoryEvidence) : Bool :=
  resolvedUpdateContent existing patch != existing.content ||
    evidenceIds (resolvedEvidence existing evidence) != evidenceIds existing.evidence ||
    textOr patch.subjectEntityId existing.subjectEntityId != existing.subjectEntityId ||
    textOr patch.predicate existing.predicate != existing.predicate ||
    !sameDict (argumentsOr patch.arguments existing.arguments) existing.arguments

def DurableMemoryPatch.explicitShortTermDemotion (patch : DurableMemoryPatch) : Bool :=
  patch.targetTier == some .shortTerm && patch.clearGraphAssertion

def transitioningToLongTerm (existing : MemoryItem) (patch : DurableMemoryPatch) : Bool :=
  existing.tier != .longTerm && patch.targetTier == some .longTerm

def checkPromotion (op : MemoryOperation) (existing : MemoryItem) (patch : DurableMemoryPatch)
    (payload : PatchPayload) (evidence : List MemoryEvidence) : Attempt Unit :=
  let admission := payload.promotionAudit.getD []
  let proposedContent := (resolvedUpdateContent existing patch).getD ""
  let proposedIds := evidenceIds (resolvedEvidence existing evidence)
  if (fetch admission "required").truthy &&
      !validRequiredProcessingReceipt p proposedContent existing.itemRevision admission then
    refuse .invalidPatch op (some "required durable memory is missing processing receipt")
  else if !validPromotionAdmission p existing.memoryId existing.itemRevision
      (memoryContentHash p (some proposedContent) proposedIds) proposedIds
      (textOr patch.subjectEntityId existing.subjectEntityId) (textOr patch.predicate existing.predicate)
      (argumentsOr patch.arguments existing.arguments) patch.supersedes admission ||
      op.operationType != .synthesis then
    refuse .invalidPatch op
      (some "Short-term to Long-term transition requires a current promotion admission and graph plan")
  else .ok ()

/-- The item an update applies to, when nothing refuses the update. -/
def existingForUpdate (control : MemoryControlState) (op : MemoryOperation) (patch : DurableMemoryPatch)
    (payload : PatchPayload) (evidence : List MemoryEvidence) (allowTriggerFeedbackArguments : Bool) :
    Attempt MemoryItem := do
  match payload.existingItem with
  | none => refuse .invalidPatch op (some "update patch requires authoritative existing_item")
  | some document =>
    let existing ← raising (document.read p)
    if !given patch.targetMemoryId || some existing.memoryId != patch.targetMemoryId then
      refuse .invalidPatch op (some "update patch target_memory_id mismatch")
    else if payload.expectedItemRevision.any (· != existing.itemRevision) then
      refuse .invalidPatch op (some "update patch expected_item_revision mismatch")
    else if payload.expectedContentHash.any (fun hash => some hash != existing.contentHash) then
      refuse .invalidPatch op (some "update patch expected_content_hash mismatch")
    else if op.operationType == .graphEnrichment &&
        !graphEnrichmentAllowed p op existing control patch payload evidence then
      refuse .invalidPatch op
        (some "graph enrichment must attach one validated plan without changing Long-term semantics")
    else if existing.activeLongTerm && semanticChange existing patch evidence && !patch.explicitShortTermDemotion &&
        op.operationType != .graphEnrichment && !allowTriggerFeedbackArguments then
      refuse .invalidPatch op
        (some "Long-term semantics are immutable; promote a new Short-term item and supersede this one")
    else
      if transitioningToLongTerm existing patch then checkPromotion p op existing patch payload evidence
      return existing

/-- The checks made before anything is computed. -/
def checkOperation (control : MemoryControlState) (op : MemoryOperation) (patch : DurableMemoryPatch)
    (payload : PatchPayload) (evidence : List MemoryEvidence) (clock : Clock) : Attempt Unit :=
  if patch.evidenceIds != op.evidenceIds then
    refuse .payloadMismatch op (some "patch evidence_ids do not match operation evidence_ids")
  else if patch.ofLedger && op.operationType != .ledgerMutation then
    refuse .invalidPatch op (some "knowledge ledger writes require ledger_mutation authority")
  else if operationDigestForPatch p patch op payload.mutationIdentity != op.logicalPayloadDigest then
    refuse .payloadMismatch op (some "patch digest does not match operation logical payload digest")
  else if op.status == .committed then refuse .idempotentSkip op none
  else if op.accountGeneration != control.accountGeneration || op.sourceGeneration != control.sourceGeneration then do
    let stale ← raising (staleOperation p op (now clock.operation))
    refuse .generationMismatch stale (some "operation generation does not match control state")
  else if given op.observedHeadCommitId && op.observedHeadCommitId != some control.headCommitId then
    refuse .retryableHeadMismatch
      { op with
        observedHeadCommitId := some control.headCommitId
        attemptCount := op.attemptCount + 1
        updatedAt := now clock.operation }
      (some "observed head does not match current head")
  else if op.operationType == .graphEnrichment && patch.decision != .update then
    refuse .invalidPatch op (some "graph enrichment requires an update decision")
  else if evidence.any (fun e => e.sourceState != .active) then
    refuse .sourceNotActive op (some "cannot apply memory patch from deleted/purged source evidence")
  else .ok ()

/-! ## The transaction -/

/-- The item the patch writes, and whether its assertion has to be made. -/
def writtenItem (c : Commit) (patch : DurableMemoryPatch) (payload : PatchPayload) (evidence : List MemoryEvidence)
    (allowTriggerFeedbackArguments : Bool) (clock : Clock) : Attempt (MemoryItem × Bool) := do
  let extra := payload.extraItemUpdates p
  if patch.decision = .update then
    let existing ← existingForUpdate p c.control c.operation patch payload evidence allowTriggerFeedbackArguments
    let item ← raising (applyUpdateMemoryItem p existing patch evidence c.commitId c.sequence payload.promotionAudit extra
      clock.item)
    return (item, transitioningToLongTerm existing patch || c.operation.operationType == .graphEnrichment)
  else
    let item ← raising (materializeMemoryItem p c.operation.uid patch evidence c.commitId c.sequence
      c.control.accountGeneration payload.promotion clock.item)
    if extra = {} then return (item, false)
    else
      let item ← raising ((extra.apply item).parse p)
      return (item, false)

def MemoryItem.withAssertion (m : MemoryItem) (assertion : MemoryGraphAssertion) (plan : PromotionGraphPlan) : MemoryItem :=
  { m with
    graphReady := true
    graphAssertionId := some assertion.assertionId
    graphPlanHash := some plan.planHash
    kgExtracted := true }

def refreshesGraphAssertion (patch : DurableMemoryPatch) (written : MemoryItem × Bool) : Bool :=
  written.2 || (written.1.activeLongTerm && written.1.graphReady && !patch.clearGraphAssertion)

def refreshGraphAssertion (c : Commit) (patch : DurableMemoryPatch) (written : MemoryItem × Bool) :
    Attempt (MemoryItem × List MemoryGraphAssertion) :=
  let item := written.1
  if refreshesGraphAssertion patch written then
    match fetch (item.promotion.getD []) "graph_plan" with
    | .dict raw =>
      match PromotionGraphPlan.parse p raw with
      | .error _ =>
        refuse .invalidPatch c.operation
          (some "active graph-backed Long-term update has an invalid stored graph plan")
      | .ok plan => do
        let assertion ← raising (buildMemoryGraphAssertion p c.operation.uid item.memoryId item.itemRevision
          (item.contentHash.getD "") (evidenceIds item.evidence) plan c.commitId c.sequence item.updatedAt)
        return (item.withAssertion assertion plan, [assertion])
    | _ =>
      refuse .invalidPatch c.operation (some "active graph-backed Long-term update requires its stored graph plan")
  else return (item, [])

/-- What supersedes a ledger row lasts from no earlier than either row's start. -/
def supersededAt (existing written : MemoryItem) (ofLedger : Bool) (reading : Int) : Except String DateTime := do
  let at_ ← (now reading).max existing.updatedAt
  if ofLedger then
    let at_ ← at_.max (written.validFrom.getD written.capturedAt)
    at_.max (existing.validFrom.getD existing.capturedAt)
  else return at_

def MemoryItem.supersede (existing : MemoryItem) (c : Commit) (memoryId : String) (ofLedger : Bool) (at_ : DateTime) :
    MemoryItem :=
  { existing with
    canonicalMemoryId := some memoryId
    status := .superseded
    supersededBy := some memoryId
    updatedAt := at_
    validTo := if ofLedger then some at_ else existing.validTo
    ledgerCommitId := some c.commitId
    ledgerSequence := some c.sequence
    version := existing.version + 1
    itemRevision := existing.itemRevision + 1
    graphReady := false
    graphAssertionId := none
    graphPlanHash := none
    kgExtracted := false }

def supersedeOne (c : Commit) (patch : DurableMemoryPatch) (written : MemoryItem) (clock : Clock)
    (items : List (String × MemoryItem)) (target : String × Nat) : Attempt MemoryItem :=
  match Dict.get items target.1 with
  | none => .error (.raised "KeyError")
  | some existing =>
    if existing.status ≠ .active then
      refuse .targetNotActive c.operation (some ("superseded target is not active: " ++ target.1))
    else if patch.ofLedger && existing.ledgerSchemaVersion != some knowledgeLedger then
      refuse .invalidPatch c.operation (some "knowledge ledger amendment may supersede only ledger rows")
    else if patch.ofLedger && (existing.kind != patch.kind.getD .fact ||
        existing.subjectScope != patch.subjectScope.getD .primaryUser ||
        existing.subjectEntityId != patch.subjectEntityId) then
      refuse .invalidPatch c.operation (some "knowledge ledger amendment must preserve kind and subject identity")
    else do
      let at_ ← raising (supersededAt existing written patch.ofLedger (clock.superseded target.2))
      return existing.supersede c written.memoryId patch.ofLedger at_

def supersedeAll (c : Commit) (patch : DurableMemoryPatch) (payload : PatchPayload) (written : MemoryItem)
    (clock : Clock) : Attempt (List MemoryItem) :=
  if patch.supersedes.isEmpty then .ok []
  else
    match payload.supersededItems with
    | none => refuse .invalidPatch c.operation (some "superseding promotion requires authoritative superseded_items")
    | some documents => do
      let read ← raising (documents.mapM (ItemDocument.read p))
      let items := read.foldl (fun d m => Dict.put d m.memoryId m) []
      if !(Dict.keys items).all patch.supersedes.contains || !patch.supersedes.all (Dict.keys items).contains then
        refuse .invalidPatch c.operation (some "superseded_items do not match patch supersedes")
      else patch.supersedes.zipIdx.mapM (supersedeOne c patch written clock items)

def commitResult (c : Commit) (next : MemoryControlState) (items : List MemoryItem)
    (assertions : List MemoryGraphAssertion) (events : List MemoryOutboxEvent) (clock : Clock) : Except String ApplyResult := do
  let committed ← c.operation.markCommitted p c.commitId next.commitSequence (items.map (·.memoryId))
    (events.map (·.eventId)) (now clock.operation)
  return ⟨.committed, next, committed, items, assertions, events, none⟩

def applyCommit (c : Commit) (next : MemoryControlState) (patch : DurableMemoryPatch) (payload : PatchPayload)
    (evidence : List MemoryEvidence) (allowTriggerFeedbackArguments : Bool) (clock : Clock) : Attempt ApplyResult := do
  if patch.decision = .skipDuplicate then
    let events ← raising (c.barrierOutboxEvents p clock)
    raising (commitResult p c next [] [] events clock)
  else
    let written ← writtenItem p c patch payload evidence allowTriggerFeedbackArguments clock
    let (item, assertions) ← refreshGraphAssertion p c patch written
    let superseded ← supersedeAll p c patch payload item clock
    let events ← raising (c.itemEvents p clock (item :: superseded))
    raising (commitResult p c next (item :: superseded) assertions events.flatten clock)

def applyAttempt (control : MemoryControlState) (op : MemoryOperation) (payload : PatchPayload)
    (allowTriggerFeedbackArguments : Bool) (clock : Clock) : Attempt ApplyResult := do
  let evidence ← raising payload.resolvedEvidence
  match payload.patch with
  | .illTyped _ => refuse .invalidPatch op (some "ValidationError")
  | .typed patch =>
    match patch.validate p with
    | .error _ => refuse .invalidPatch op (some "ValidationError")
    | .ok () =>
      checkOperation p control op patch payload evidence clock
      let commitId := control.nextCommitId p op.operationId
      let next ← raising (control.advanceHead commitId (now clock.control))
      applyCommit p ⟨control, op, commitId, next.commitSequence⟩ next patch payload evidence
        allowTriggerFeedbackArguments clock

/-- An exception is an error; a refusal is a result. -/
def applyLongTermPatchTransaction (control : MemoryControlState) (op : MemoryOperation) (payload : PatchPayload)
    (allowTriggerFeedbackArguments : Bool) (clock : Clock) : Except String ApplyResult :=
  match applyAttempt p control op payload allowTriggerFeedbackArguments clock with
  | .ok result => .ok result
  | .error (.refused refusal) => .ok (refusal.result control)
  | .error (.raised error) => .error error

end OmiLocal.Memory
