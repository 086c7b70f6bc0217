import OmiLocal.Lib.Dict
import OmiLocal.Lib.Transition
import Mathlib.Algebra.BigOperators.Pi
import Mathlib.Data.Rat.Defs
import Mathlib.Algebra.BigOperators.Fin
import Mathlib.Data.Fintype.BigOperators

/-!
# Finalization jobs

The transactions of `conversation_finalization_jobs` on the documents they share: one
job for each conversation and revision, the conversation it is bound to, and the
projection shards that count jobs. A transaction reads and writes as one step, and the
conversation may change in any other way in between. Times are microseconds.
-/
namespace OmiLocal.Finalization
open Lib

abbrev Instant := Int

def seconds (n : Int) : Int := n * 1000000

/-- `document_id_from_seed`, the first four bytes of a job id's SHA-256, and the value of
`LISTEN_FINALIZATION_RECONCILE_STALE_SECONDS` where it is an integer. -/
structure Platform where
  documentIdFromSeed : String → String
  digest : String → Nat
  reconcileStaleSeconds : Option Int

inductive JobStatus where
  | queued
  | leased
  | completed
  | deadLetter
  | blockedByok
  deriving DecidableEq, Repr

def JobStatus.terminal : JobStatus → Bool
  | .completed | .deadLetter => true
  | _ => false

inductive FanoutStatus where
  | pending
  | leased
  | completed
  | fenced
  deriving DecidableEq, Repr

inductive TerminalOutcome where
  | success
  | stale
  | failure
  deriving DecidableEq, Repr

inductive FinalizationOutcome where
  | success
  | fenced
  | byokSessionAbandoned
  deriving DecidableEq, Repr

inductive ConversationStatus where
  | inProgress
  | processing
  | merging
  | completed
  | failed
  deriving DecidableEq, Repr

/-- A receipt of the current schema version. -/
structure MeetingReceipt where
  eligible : Bool
  reason : String
  durationS : ℚ
  dedupSpeechS : ℚ
  createdAt : Instant
  updatedAt : Instant
  reconcileAfterAt : Instant
  intentId : Option String
  intentPersistedAt : Option Instant
  materializedAt : Option Instant
  deriving DecidableEq

structure Job where
  uid : String
  conversationId : String
  finalizationRevision : Int
  status : JobStatus
  requiresByok : Bool
  fanoutKey : Option String
  fanoutStatus : Option FanoutStatus
  fanoutLeaseEpoch : Option Int := none
  dispatchGeneration : Option Int
  leaseEpoch : Option Int := none
  attemptCount : Int
  taskRetryCount : Int
  projectionGeneration : Option String := none
  projectionShard : Option Int := none
  createdAt : Option Instant
  updatedAt : Option Instant
  dispatchRequestedAt : Option Instant := none
  reconcileAfterAt : Option Instant := none
  leaseExpiresAt : Option Instant := none
  terminalOutcome : Option TerminalOutcome := none
  finalizationOutcome : Option FinalizationOutcome := none
  lastFailureCode : Option String := none
  receipt : Option MeetingReceipt := none
  deriving DecidableEq

/-- `hasContent` is `raw_conversation_has_content`, `hasPhotos` that a photo document exists. -/
structure Conversation where
  status : ConversationStatus
  discarded : Bool
  deferred : Bool
  hasContent : Bool
  hasPhotos : Bool
  finalizationJobId : Option String
  finalizationRevision : Option Int
  finalizationStatus : Option JobStatus
  meeting : Option (Bool × String × ℚ × ℚ)
  deriving DecidableEq

/-! ## Projection -/

inductive Counter where
  | accepted
  | queued
  | leased
  | blockedByok
  | completed
  | deadLetter
  | success
  | failure
  | stale
  deriving DecidableEq, Repr

abbrev finalizationProjectionShardCount : Nat := 16

def finalizationProjectionGeneration : String := "terminal-outcomes-v1"

def projectionShard (p : Platform) (jobId : String) : Int := (p.digest jobId % finalizationProjectionShardCount : Nat)

/-- The deltas of one call, by name. -/
def deltas (changes : List (Counter × Int)) (counter : Counter) : Int :=
  ((changes.filter fun c => c.1 = counter).map Prod.snd).sum

/-- `_projection_ref_for_job`. -/
def Job.projectionRef (job : Job) : Option (Fin finalizationProjectionShardCount) :=
  match job.projectionGeneration, job.projectionShard with
  | some generation, some shard =>
      if h : generation = finalizationProjectionGeneration ∧ 0 ≤ shard ∧ shard < finalizationProjectionShardCount then
        some ⟨shard.toNat, by omega⟩
      else none
  | _, _ => none

structure Store where
  conversations : List ((String × String) × Conversation)
  jobs : List (String × Job)
  shards : Fin finalizationProjectionShardCount → Counter → Int

namespace Store

def empty (conversations : List ((String × String) × Conversation)) : Store := ⟨conversations, [], fun _ _ => 0⟩

def job (s : Store) (id : String) : Option Job := Dict.get s.jobs id

def conversation (s : Store) (uid conversationId : String) : Option Conversation :=
  Dict.get s.conversations (uid, conversationId)

def setJob (s : Store) (id : String) (job : Job) : Store := { s with jobs := Dict.put s.jobs id job }

def setConversation (s : Store) (uid conversationId : String) (c : Conversation) : Store :=
  { s with conversations := Dict.put s.conversations (uid, conversationId) c }

/-- `_record_projection_delta`. -/
def recordProjectionDelta (s : Store) (job : Job) (changes : List (Counter × Int)) : Store :=
  match job.projectionRef with
  | none => s
  | some shard => { s with shards := Function.update s.shards shard (s.shards shard + deltas changes) }

end Store

/-! ## Guards and updates of a job -/

namespace Job

/-- `int(job.get('dispatch_generation') or 1)`. -/
def generation (job : Job) : Int := if job.dispatchGeneration.getD 0 = 0 then 1 else job.dispatchGeneration.getD 0

def epoch (job : Job) : Int := job.leaseEpoch.getD 0

def isCurrentLease (job : Job) (dispatchGeneration leaseEpoch : Int) : Bool :=
  decide (job.status = .leased) && decide (job.generation = dispatchGeneration) && decide (job.epoch = leaseEpoch)

/-- `isinstance(lease_expires_at, datetime) and lease_expires_at > now`. -/
def leaseHeld (job : Job) (now : Instant) : Bool := job.leaseExpiresAt.any fun expiry => decide (now < expiry)

def lastActivityAt (job : Job) : Option Instant := job.updatedAt <|> job.createdAt

/-- `_fanout_key`. -/
def fanoutKeyOrDefault (job : Job) : String :=
  match job.fanoutKey with
  | some key =>
      if key = "" then
        s!"conversation:{job.conversationId}:finalization:{if job.finalizationRevision = 0 then 1 else job.finalizationRevision}"
      else key
  | none =>
      s!"conversation:{job.conversationId}:finalization:{if job.finalizationRevision = 0 then 1 else job.finalizationRevision}"

def resume (job : Job) (now : Instant) : Job :=
  { job with status := .queued, updatedAt := some now, reconcileAfterAt := none }

def lease (job : Job) (leaseSeconds : Int) (now : Instant) : Job :=
  { job with
    status := .leased
    leaseExpiresAt := some (now + seconds leaseSeconds)
    leaseEpoch := some (job.epoch + 1)
    reconcileAfterAt := if job.requiresByok then none else some (now + seconds leaseSeconds)
    updatedAt := some now
    attemptCount := job.attemptCount + 1 }

def complete (job : Job) (now : Instant) : Job :=
  { job with
    status := .completed
    terminalOutcome := some .success
    updatedAt := some now
    leaseExpiresAt := some now
    reconcileAfterAt := none
    lastFailureCode := none }

/-- `_fenced_finalization_update`. -/
def fence (job : Job) (now : Instant) : Job :=
  { job with
    status := .completed
    updatedAt := some now
    leaseExpiresAt := some now
    reconcileAfterAt := none
    lastFailureCode := none
    finalizationOutcome := some .fenced
    terminalOutcome := some .stale
    fanoutStatus := some .fenced }

def leaseFanout (job : Job) (leaseEpoch : Int) (now : Instant) : Job :=
  { job with
    fanoutKey := some job.fanoutKeyOrDefault
    fanoutStatus := some .leased
    fanoutLeaseEpoch := some leaseEpoch
    updatedAt := some now }

def completeFanout (job : Job) (now : Instant) : Job :=
  { job with fanoutStatus := some .completed, updatedAt := some now }

def retry (job : Job) (failureCode : String) (staleAfter : Int) (now : Instant) : Job :=
  { job with
    status := .queued
    updatedAt := some now
    leaseExpiresAt := some now
    reconcileAfterAt := if job.requiresByok then none else some (now + staleAfter)
    lastFailureCode := some failureCode }

def bury (job : Job) (retryCount : Int) (now : Instant) : Job :=
  { job with
    status := .deadLetter
    updatedAt := some now
    terminalOutcome := some .failure
    leaseExpiresAt := some now
    reconcileAfterAt := none
    taskRetryCount := retryCount
    lastFailureCode := some "final_attempt_failed" }

def replay (job : Job) (staleAfter : Int) (now : Instant) : Job :=
  { job with
    status := .queued
    dispatchGeneration := some (job.generation + 1)
    dispatchRequestedAt := some now
    updatedAt := some now
    leaseExpiresAt := some now
    reconcileAfterAt := some (now + staleAfter) }

def abandon (job : Job) (now : Instant) : Job :=
  { job with
    status := .deadLetter
    updatedAt := some now
    terminalOutcome := some .failure
    finalizationOutcome := some .byokSessionAbandoned
    leaseExpiresAt := some now
    reconcileAfterAt := none
    fanoutStatus := some .fenced
    lastFailureCode := some "byok_session_abandoned" }

end Job

/-! ## Results -/

inductive IntentStatus where
  | missing
  | deferred
  | noContent
  | refused (reason : String)
  | job (status : JobStatus)
  deriving DecidableEq

structure FinalizationIntent where
  jobId : Option String
  status : IntentStatus
  dispatchGeneration : Option Int
  requiresByok : Bool
  fanoutKey : Option String
  created : Bool
  deriving DecidableEq

structure FinalizationAdmission where
  accepted : Bool
  terminal : Bool
  reason : String
  fanoutKey : Option String

inductive ClaimStatus where
  | missing
  | identityMismatch
  | fenced
  | terminal (status : JobStatus)
  | blockedByok
  | staleGeneration
  | leased
  | notActionable
  | claimed
  deriving DecidableEq

structure FinalizationClaim where
  status : ClaimStatus
  leaseEpoch : Option Int := none
  attemptCount : Int := 0
  createdAt : Option Instant := none
  deriving DecidableEq

inductive FanoutClaimStatus where
  | missing
  | completed
  | leaseConflict
  | fenced
  | claimed
  deriving DecidableEq

structure FinalizationFanoutClaim where
  status : FanoutClaimStatus
  fanoutKey : Option String
  deriving DecidableEq

inductive ConversationOutcome where
  | none
  | missing
  | unbound
  | alreadyTerminal
  | deferred
  | closed
  deriving DecidableEq

inductive AbandonmentStatus where
  | missing
  | fenced
  | abandoned
  deriving DecidableEq

structure ByokAbandonment where
  status : AbandonmentStatus
  conversationOutcome : ConversationOutcome := .none
  deriving DecidableEq

inductive ReceiptResult where
  | missing
  | identityMismatch
  | recorded (jobId : String) (receipt : MeetingReceipt)
  deriving DecidableEq

def intentFromJob (jobId : String) (job : Job) (created : Bool) : FinalizationIntent :=
  ⟨some jobId, .job job.status, some job.generation, job.requiresByok, job.fanoutKey, created⟩

def noFinalizationIntent (status : IntentStatus) : FinalizationIntent := ⟨none, status, none, false, none, false⟩

end OmiLocal.Finalization
