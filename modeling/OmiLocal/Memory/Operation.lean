import OmiLocal.Memory.Patch

/-!
# Memory operations

The journal entry of one application. Its identity and its payload digest are
recomputed whenever the entry is built.
-/
namespace OmiLocal.Memory

open Lib Lib.Text Lib.Values

inductive MemoryOperationType where
  | sourceCandidate
  | sourceReplacement
  | synthesis
  | longTermApply
  | userMutation
  | archiveTransition
  | projectionSync
  | vectorSync
  | graphEnrichment
  | deletion
  | ledgerMutation
deriving DecidableEq

def MemoryOperationType.value : MemoryOperationType → String
  | .sourceCandidate => "source_candidate"
  | .sourceReplacement => "source_replacement"
  | .synthesis => "synthesis"
  | .longTermApply => "long_term_apply"
  | .userMutation => "user_mutation"
  | .archiveTransition => "archive_transition"
  | .projectionSync => "projection_sync"
  | .vectorSync => "vector_sync"
  | .graphEnrichment => "graph_enrichment"
  | .deletion => "deletion"
  | .ledgerMutation => "ledger_mutation"

inductive MemoryOperationStatus where
  | pending
  | committed
  | skippedIdempotent
  | retryableFailure
  | permanentFailure
  | staleGeneration
deriving DecidableEq

def MemoryOperationStatus.value : MemoryOperationStatus → String
  | .pending => "pending"
  | .committed => "committed"
  | .skippedIdempotent => "skipped_idempotent"
  | .retryableFailure => "retryable_failure"
  | .permanentFailure => "permanent_failure"
  | .staleGeneration => "stale_generation"

def MemoryOperationStatus.terminal : MemoryOperationStatus → Bool
  | .committed => true
  | .skippedIdempotent => true
  | .permanentFailure => true
  | .staleGeneration => true
  | _ => false

structure OperationLogicalPayload where
  decision : String
  memoryText : Option String
  targetMemoryId : Option String
  resultStatus : Option String
  supersedes : List String
  subjectEntityId : Option String
  predicate : Option String
  arguments : Entries
  targetTier : Option String
  targetVisibility : Option String
  targetUserAsserted : Option Bool
  clearGraphAssertion : Option Bool
  mutationMetadata : Option Entries
  metadata : Entries

structure MemoryOperation where
  operationId : String
  uid : String
  operationType : MemoryOperationType
  status : MemoryOperationStatus
  sourcePacketId : Option String
  targetMemoryId : Option String
  evidenceIds : List String
  logicalPayload : OperationLogicalPayload
  logicalPayloadDigest : String
  accountGeneration : Int
  sourceGeneration : Int
  observedHeadCommitId : Option String
  committedHeadCommitId : Option String
  committedSequence : Option Int
  committedMemoryItemIds : List String
  committedOutboxEventIds : List String
  attemptCount : Int
  errorCode : Option String
  createdAt : DateTime
  updatedAt : DateTime

/-- An entry of a dump without missing values. -/
def present (key : String) (value : Option Value) : Entries := (value.map (fun v => (key, v))).toList

def OperationLogicalPayload.canonical (payload : OperationLogicalPayload) : Entries :=
  [("decision", .str payload.decision)] ++ present "memory_text" (payload.memoryText.map .str) ++
    present "target_memory_id" (payload.targetMemoryId.map .str) ++
    present "result_status" (payload.resultStatus.map .str) ++
    [("supersedes", .list (payload.supersedes.map .str))] ++
    present "subject_entity_id" (payload.subjectEntityId.map .str) ++
    present "predicate" (payload.predicate.map .str) ++ [("arguments", .dict payload.arguments)] ++
    present "target_tier" (payload.targetTier.map .str) ++
    present "target_visibility" (payload.targetVisibility.map .str) ++
    present "target_user_asserted" (payload.targetUserAsserted.map .bool) ++
    present "clear_graph_assertion" (payload.clearGraphAssertion.map .bool) ++
    present "mutation_metadata" (payload.mutationMetadata.map .dict) ++ [("metadata", .dict payload.metadata)]

def optionalText (text : Option String) : Value :=
  match text with
  | none => .none
  | some s => .str s

variable (p : Platform)

def logicalPayloadDigest (payload : OperationLogicalPayload) : String :=
  deterministicContractId p "memory-operation-logical-payload" payload.canonical

/-- The observed head is no part of the identity. -/
def MemoryOperation.buildOperationId (op : MemoryOperation) : String :=
  "op_" ++ first32 (deterministicContractId p "memory-operation"
    [("uid", .str op.uid), ("operation_type", .str op.operationType.value),
      ("source_packet_id", optionalText op.sourcePacketId), ("target_memory_id", optionalText op.targetMemoryId),
      ("evidence_ids", .list ((op.evidenceIds.insertionSort (· ≤ ·)).map .str)),
      ("logical_payload", .dict op.logicalPayload.canonical), ("account_generation", .int op.accountGeneration),
      ("source_generation", .int op.sourceGeneration)])

def MemoryOperation.checks (op : MemoryOperation) : List (Bool × String) :=
  [(blank op.operationId || blank op.uid, "required operation fields must not be blank"),
    (op.committedHeadCommitId.any blank || op.errorCode.any blank, "optional operation fields must not be blank"),
    (decide (op.accountGeneration < 0 ∨ op.sourceGeneration < 0 ∨ op.attemptCount < 0),
      "generation and attempt counts must be nonnegative"),
    (op.committedSequence.any (fun n => decide (n < 0)), "committed_sequence must be nonnegative"),
    (!op.createdAt.aware || !op.updatedAt.aware, "operation timestamps must be timezone-aware"),
    (decide (op.updatedAt.micros < op.createdAt.micros), "updated_at must be >= created_at"),
    (op.operationId != op.buildOperationId p, "operation_id does not match server-computed logical identity"),
    (op.logicalPayloadDigest != OmiLocal.Memory.logicalPayloadDigest p op.logicalPayload,
      "logical_payload_digest does not match canonical logical payload"),
    (op.status == .committed && !given op.committedHeadCommitId, "committed operations require committed_head_commit_id"),
    (op.status == .committed && op.committedSequence.isNone, "committed operations require committed_sequence"),
    ((op.status == .retryableFailure || op.status == .permanentFailure) && !given op.errorCode,
      "failure operations require error_code")]

/-- The constructor. -/
def MemoryOperation.parse (op : MemoryOperation) : Except String MemoryOperation := do
  raiseFirst (op.checks p)
  return op

/-- The operation that `MemoryOperation.new` makes, before the constructor has checked it. -/
def MemoryOperation.fresh (uid : String) (operationType : MemoryOperationType)
    (sourcePacketId targetMemoryId : Option String) (evidenceIds : List String) (logicalPayload : OperationLogicalPayload)
    (accountGeneration sourceGeneration : Int) (observedHeadCommitId : Option String) (at_ : DateTime) : MemoryOperation :=
  let op : MemoryOperation :=
    { operationId := ""
      uid
      operationType
      status := .pending
      sourcePacketId
      targetMemoryId
      evidenceIds
      logicalPayload
      logicalPayloadDigest := OmiLocal.Memory.logicalPayloadDigest p logicalPayload
      accountGeneration
      sourceGeneration
      observedHeadCommitId
      committedHeadCommitId := none
      committedSequence := none
      committedMemoryItemIds := []
      committedOutboxEventIds := []
      attemptCount := 0
      errorCode := none
      createdAt := at_
      updatedAt := at_ }
  { op with operationId := op.buildOperationId p }

def MemoryOperation.markCommitted (op : MemoryOperation) (committedHeadCommitId : String) (committedSequence : Int)
    (committedMemoryItemIds committedOutboxEventIds : List String) (now : DateTime) : Except String MemoryOperation :=
  if op.status.terminal then .error ("cannot transition terminal operation from " ++ op.status.value)
  else
    MemoryOperation.parse p
      { op with
        committedHeadCommitId := some committedHeadCommitId
        committedSequence := some committedSequence
        committedMemoryItemIds
        committedOutboxEventIds
        errorCode := none
        status := .committed
        updatedAt := now }

def staleOperation (op : MemoryOperation) (now : DateTime) : Except String MemoryOperation :=
  MemoryOperation.parse p { op with status := .staleGeneration, updatedAt := now }

/-- The digest of the payload the operation would have for this patch. -/
def operationDigestForPatch (patch : DurableMemoryPatch) (op : MemoryOperation) (mutationIdentity : Entries) : String :=
  let recorded := op.logicalPayload
  logicalPayloadDigest p
    { decision := patch.decision.value
      memoryText := patch.memoryText
      targetMemoryId := patch.targetMemoryId
      resultStatus := some patch.resultStatus.value
      supersedes := patch.supersedes
      subjectEntityId := if recorded.subjectEntityId.isSome then patch.subjectEntityId else none
      predicate := if recorded.predicate.isSome then patch.predicate else none
      arguments := patch.arguments
      targetTier := if recorded.targetTier.isSome then patch.targetTier.map MemoryTier.value else none
      targetVisibility := if recorded.targetVisibility.isSome then patch.targetVisibility else none
      targetUserAsserted := if recorded.targetUserAsserted.isSome then patch.targetUserAsserted else none
      clearGraphAssertion := if recorded.clearGraphAssertion.isSome then some patch.clearGraphAssertion else none
      mutationMetadata := if recorded.mutationMetadata.isSome then some mutationIdentity else none
      metadata := [] }

variable {p}

theorem MemoryOperation.parse_eq {op made : MemoryOperation} (done : op.parse p = .ok made) : made = op := by
  obtain ⟨_, -, done⟩ := Fallible.bind_ok done
  cases done
  rfl

theorem MemoryOperation.parse_self {op : MemoryOperation} (ok : ∀ check ∈ op.checks p, check.1 = false) :
    op.parse p = .ok op := by
  unfold MemoryOperation.parse
  rw [raiseFirst_ok.mpr ok]
  rfl

theorem MemoryOperation.markCommitted_ok {op made : MemoryOperation} {commitId : String} {sequence : Int}
    {items events : List String} {now : DateTime} (done : op.markCommitted p commitId sequence items events now = .ok made) :
    op.status ≠ .committed ∧ made.status = .committed ∧ made.operationId = op.operationId ∧
      made.committedHeadCommitId = some commitId ∧ made.committedSequence = some sequence ∧
      made.committedMemoryItemIds = items ∧ made.committedOutboxEventIds = events := by
  unfold MemoryOperation.markCommitted at done
  split at done
  · cases done
  · rename_i open_
    rw [MemoryOperation.parse_eq done]
    refine ⟨?_, rfl, rfl, rfl, rfl, rfl, rfl⟩
    intro committed
    rw [committed] at open_
    exact open_ rfl

theorem blank_operationId (op : MemoryOperation) : blank (op.buildOperationId p) = false := by
  unfold MemoryOperation.buildOperationId
  rw [blank_append]
  rfl

/-- An open operation with its own identity and digest can be committed. -/
theorem MemoryOperation.markCommitted_total {op : MemoryOperation} {commitId : String} {sequence : Int} {now : DateTime}
    (open_ : op.status.terminal = false) (owner : blank op.uid = false)
    (counters : 0 ≤ op.accountGeneration ∧ 0 ≤ op.sourceGeneration ∧ 0 ≤ op.attemptCount)
    (identity : op.operationId = op.buildOperationId p)
    (digest : op.logicalPayloadDigest = OmiLocal.Memory.logicalPayloadDigest p op.logicalPayload)
    (named : blank commitId = false) (counted : 0 ≤ sequence) (aware : op.createdAt.aware = true ∧ now.aware = true)
    (later : op.createdAt.micros ≤ now.micros) (items events : List String) :
    ∃ committed, op.markCommitted p commitId sequence items events now = .ok committed := by
  have known : given (some commitId) = true := by
    have : commitId ≠ "" := by
      rintro rfl
      cases named
    simp [given, this]
  have id : blank op.operationId = false := identity ▸ blank_operationId op
  unfold MemoryOperation.markCommitted
  rw [if_neg (by rw [open_]; exact Bool.false_ne_true)]
  refine ⟨_, MemoryOperation.parse_self ?_⟩
  -- The identity is computed from fields that the commit leaves alone.
  have kept : ∀ made : MemoryOperation, made.operationId = op.operationId →
      made.buildOperationId p = op.buildOperationId p → (made.operationId != made.buildOperationId p) = false := by
    intro made sameId sameBuild
    rw [sameId, sameBuild, identity, bne_self_eq_false]
  simp only [MemoryOperation.checks, List.forall_mem_cons]
  refine ⟨by rw [id, owner]; rfl, by simp [named], ?_, by simp [counted], by simp [aware], by simp [later],
    kept _ rfl rfl, by simp [digest], by simp [known], rfl, rfl, List.forall_mem_nil _⟩
  simpa using counters

end OmiLocal.Memory
