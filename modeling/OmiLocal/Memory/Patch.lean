import OmiLocal.Memory.Promotion

/-!
# Durable memory patches

The payload of one application: the patch, the documents it is applied to and
the keys taken out before the patch is read. An absent key is `none`; a ledger
field that was given counts as given whatever its value.
-/
namespace OmiLocal.Memory

open Lib Lib.Text Lib.Values

inductive LifecycleState where
  | working
  | active
  | contextOnly
  | review
  | superseded
  | rejected
  | hidden
deriving DecidableEq

def LifecycleState.value : LifecycleState → String
  | .working => "working"
  | .active => "active"
  | .contextOnly => "context_only"
  | .review => "review"
  | .superseded => "superseded"
  | .rejected => "rejected"
  | .hidden => "hidden"

inductive DurablePatchDecision where
  | add
  | update
  | merge
  | addEvidence
  | keepBoth
  | skipDuplicate
  | contextOnly
  | reject
  | review
deriving DecidableEq

def DurablePatchDecision.value : DurablePatchDecision → String
  | .add => "add"
  | .update => "update"
  | .merge => "merge"
  | .addEvidence => "add_evidence"
  | .keepBoth => "keep_both"
  | .skipDuplicate => "skip_duplicate"
  | .contextOnly => "context_only"
  | .reject => "reject"
  | .review => "review"

structure DurableMemoryPatch where
  patchId : String
  idempotencyKey : String
  decision : DurablePatchDecision
  resultStatus : LifecycleState
  evidenceIds : List String
  evidenceRefs : List Value
  targetMemoryId : Option String
  newMemoryId : Option String
  memoryText : Option String
  predicate : Option String
  arguments : Entries
  supersedes : List String
  subjectEntityId : Option String
  initialTier : MemoryTier
  targetTier : Option MemoryTier
  targetVisibility : Option String
  targetUserAsserted : Option Bool
  clearGraphAssertion : Bool
  visibility : String
  userAsserted : Bool
  ledgerSchemaVersion : Option (Option String)
  kind : Option MemoryKind
  subjectScope : Option MemorySubjectScope
  slot : Option (Option String)
  body : Option (Option String)
  validFrom : Option (Option DateTime)
  validTo : Option (Option DateTime)
  curationWeight : Option Int
  triggerCondition : Option Entries
  intentBacked : Option Bool
  writeReason : Option (Option LedgerWriteReason)

def DurableMemoryPatch.ofLedger (patch : DurableMemoryPatch) : Bool :=
  patch.ledgerSchemaVersion.join == some knowledgeLedger

def DurableMemoryPatch.decisionChecks (patch : DurableMemoryPatch) : List (Bool × String) :=
  [(patch.validFrom.join.any (!·.aware) || patch.validTo.join.any (!·.aware), "Input should have timezone info"),
    (patch.targetVisibility.any (fun v => !(["private", "public", "shared"].contains v)),
      "target_visibility must be private, public, or shared"),
    (patch.initialTier == .longTerm && !patch.ofLedger,
      "Long-term memory cannot be created directly; promote an existing Short-term item"),
    ([DurablePatchDecision.merge, .update, .addEvidence, .skipDuplicate].contains patch.decision &&
      !given patch.targetMemoryId, "target_memory_id is required for merge/update/add_evidence/skip_duplicate decisions"),
    (patch.decision == .add && !given patch.memoryText && !given patch.newMemoryId,
      "add decisions require memory_text or new_memory_id"),
    ((patch.resultStatus == .active || patch.resultStatus == .review) && patch.evidenceIds.isEmpty &&
      patch.evidenceRefs.isEmpty, "active/review patches require exact supporting evidence ids or refs")]

variable (p : Platform)

def DurableMemoryPatch.ledgerChecks (patch : DurableMemoryPatch) : List (Bool × String) :=
  let kind := patch.kind.getD .fact
  let body := patch.body.join
  let condition := patch.triggerCondition.getD []
  if patch.ofLedger then
    [(patch.decision == .add && patch.initialTier != .longTerm,
        "knowledge ledger rows use the long_term compatibility projection"),
      (patch.decision == .update && patch.targetTier.any (· != .longTerm),
        "knowledge ledger updates may not enter the short_term lifecycle"),
      (patch.writeReason.join.isNone || (!patch.intentBacked.getD false && patch.writeReason.join != some .legacyMigration),
        "knowledge ledger rows require an intent-backed write reason"),
      (decide (maxLedgerContentCharacters < (patch.memoryText.getD "").length),
        "knowledge ledger content exceeds the ledger limit"),
      (decide (maxLedgerSlotCharacters < (patch.slot.join.getD "").length),
        "knowledge ledger slot exceeds the ledger limit"),
      (kind == .document && blank (body.getD ""), "ledger documents require a non-empty body"),
      (kind == .document && decide (maxLedgerPlaybookBodyCharacters < (body.getD "").length),
        "ledger document body exceeds the ledger limit"),
      (kind != .document && body.isSome, "ledger body is only valid for document rows"),
      (kind != .fact && patch.slot.join.isSome, "only fact ledger rows may define a slot"),
      (kind == .trigger && condition.isEmpty, "trigger ledger rows require trigger_condition"),
      (kind != .trigger && !condition.isEmpty, "trigger_condition is only valid for trigger ledger rows"),
      (decide (maxLedgerTriggerConditionKeys < condition.length), "ledger trigger condition exceeds the ledger key limit"),
      (decide (maxLedgerTriggerConditionCharacters < (p.dumps (.dict condition)).length),
        "ledger trigger condition exceeds the serialized limit")]
  else []

/-- `DurableMemoryPatch(**raw)` once the fields have their types. -/
def DurableMemoryPatch.validate (patch : DurableMemoryPatch) : Except String Unit :=
  raiseFirst (patch.decisionChecks ++ patch.ledgerChecks p)

/-- The document of an item: one built before, one to be read, or one whose fields are ill-typed. -/
inductive ItemDocument where
  | item (item : MemoryItem)
  | raw (fields : MemoryItem)
  | illTyped (error : String)

def ItemDocument.read : ItemDocument → Except String MemoryItem
  | .item m => .ok m
  | .raw fields => fields.parse p
  | .illTyped error => .error error

inductive RawTimestamp where
  | text (s : String)
  | datetime (t : DateTime)

/-- The keys that go into the item as they are. -/
structure ItemUpdates where
  corroborationCount : Option Int := none
  lastCorroboratedAt : Option (Option DateTime) := none
  capturedAt : Option DateTime := none
  updatedAt : Option DateTime := none
  expiresAt : Option (Option DateTime) := none
  supersededBy : Option (Option String) := none
  kgExtracted : Option Bool := none
  confidence : Option (Option ℚ) := none
  sensitivityLabels : Option (List String) := none
  captureDeviceIds : Option (List String) := none
  primaryCaptureDevice : Option (Option String) := none
deriving DecidableEq

inductive RawPatch where
  | typed (patch : DurableMemoryPatch)
  | illTyped (evidenceIds : List String)

def RawPatch.evidenceIds : RawPatch → List String
  | .typed patch => patch.evidenceIds
  | .illTyped evidenceIds => evidenceIds

/-- `mutationIdentity` is the payload's own projection onto the keys that the
base digest leaves out. -/
structure PatchPayload where
  patch : RawPatch
  mutationIdentity : Entries
  existingItem : Option ItemDocument
  supersededItems : Option (List ItemDocument)
  promotionAudit : Option Entries
  promotion : Option Entries
  expectedItemRevision : Option Int
  expectedContentHash : Option String
  evidence : List MemoryEvidence
  corroborationCount : Option Int
  lastCorroboratedAt : Option (Option RawTimestamp)
  capturedAt : Option RawTimestamp
  updatedAt : Option RawTimestamp
  expiresAt : Option (Option RawTimestamp)
  supersededBy : Option (Option String)
  kgExtracted : Option Bool
  confidence : Option Value
  sensitivityLabels : Option (List String)
  captureDeviceIds : Option (List String)
  primaryCaptureDevice : Option (Option String)

def coerceIsoTimestamp (value : String) : Option DateTime :=
  p.fromisoformat (String.ofList (value.toList.flatMap fun c => if c = 'Z' then "+00:00".toList else [c]))

def RawTimestamp.coerce : RawTimestamp → Option DateTime
  | .text value => coerceIsoTimestamp p value
  | .datetime t => some t

/-- A malformed timestamp drops its key, a missing value stays. -/
def coerceOptional : Option (Option RawTimestamp) → Option (Option DateTime)
  | none => none
  | some none => some none
  | some (some raw) => (raw.coerce p).map some

def PatchPayload.extraItemUpdates (payload : PatchPayload) : ItemUpdates where
  corroborationCount := payload.corroborationCount
  lastCorroboratedAt := coerceOptional p payload.lastCorroboratedAt
  capturedAt := payload.capturedAt.bind (RawTimestamp.coerce p)
  updatedAt := payload.updatedAt.bind (RawTimestamp.coerce p)
  expiresAt := coerceOptional p payload.expiresAt
  supersededBy := payload.supersededBy
  kgExtracted := payload.kgExtracted
  confidence :=
    match payload.confidence with
    | none => none
    | some .none => some none
    | some value => value.number.map some
  sensitivityLabels := payload.sensitivityLabels
  captureDeviceIds := payload.captureDeviceIds
  primaryCaptureDevice := payload.primaryCaptureDevice

def ItemUpdates.apply (extra : ItemUpdates) (m : MemoryItem) : MemoryItem :=
  { m with
    corroborationCount := extra.corroborationCount.getD m.corroborationCount
    lastCorroboratedAt := extra.lastCorroboratedAt.getD m.lastCorroboratedAt
    capturedAt := extra.capturedAt.getD m.capturedAt
    updatedAt := extra.updatedAt.getD m.updatedAt
    expiresAt := extra.expiresAt.getD m.expiresAt
    supersededBy := extra.supersededBy.getD m.supersededBy
    kgExtracted := extra.kgExtracted.getD m.kgExtracted
    confidence := extra.confidence.getD m.confidence
    sensitivityLabels := extra.sensitivityLabels.getD m.sensitivityLabels
    captureDeviceIds := extra.captureDeviceIds.getD m.captureDeviceIds
    primaryCaptureDevice := extra.primaryCaptureDevice.getD m.primaryCaptureDevice }

theorem sourced_unknown (evidenceId : String) :
    SourceState.active = .active → given (some ("source_for_" ++ evidenceId)) = true ∧ given (some "unknown") = true := by
  intro _
  refine ⟨?_, by decide⟩
  have : "source_for_" ++ evidenceId ≠ "" := by simp [← String.toList_inj]
  simp [given, this]

def unknownEvidence (evidenceId : String) : Except String MemoryEvidence :=
  if named : blank evidenceId = false then
    .ok
      { evidenceId
        sourceType := "unknown"
        sourceId := some ("source_for_" ++ evidenceId)
        sourceVersion := some "unknown"
        sourceState := .active
        clientDeviceId := none
        named := ⟨named, by decide⟩
        sourced := sourced_unknown evidenceId }
  else .error "required evidence fields must not be whitespace"

/-- The evidence of the payload, or preserved evidence of unknown sources. -/
def PatchPayload.resolvedEvidence (payload : PatchPayload) : Except String (List MemoryEvidence) :=
  if payload.evidence.isEmpty then payload.patch.evidenceIds.mapM unknownEvidence else .ok payload.evidence

end OmiLocal.Memory
