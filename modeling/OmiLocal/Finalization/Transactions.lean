import OmiLocal.Finalization.Jobs

/-!
# The finalization transactions

Each transaction on its own, then the runs of any of them by any callers. The public
functions always pass the projection collection and the conversation reference.
-/
namespace OmiLocal.Finalization
open Lib Lib.Transition

variable (p : Platform)

/-- `get_finalization_reconcile_stale_after`. -/
def reconcileStaleAfter : Int := seconds (max 30 (p.reconcileStaleSeconds.getD 300))

def jobId (uid conversationId : String) (revision : Int) : String :=
  p.documentIdFromSeed s!"listen-finalization:{uid}:{conversationId}:{revision}"

def Conversation.revision (c : Conversation) : Int := c.finalizationRevision.getD 0

/-- The job that the conversation names, if its document exists. -/
def Store.existingJob (s : Store) (c : Conversation) : Option (String × Job) :=
  match c.finalizationJobId with
  | some id => if id = "" then none else (s.job id).map fun job => (id, job)
  | none => none

def newJob (uid conversationId : String) (revision : Int) (requiresByok : Bool) (fanoutKey : String) (now : Instant) :
    Job where
  uid := uid
  conversationId := conversationId
  finalizationRevision := revision
  status := if requiresByok then .blockedByok else .queued
  requiresByok := requiresByok
  fanoutKey := some fanoutKey
  fanoutStatus := some .pending
  dispatchGeneration := some 1
  attemptCount := 0
  taskRetryCount := 0
  projectionGeneration := some finalizationProjectionGeneration
  projectionShard := some (projectionShard p (jobId p uid conversationId revision))
  createdAt := some now
  updatedAt := some now
  dispatchRequestedAt := some now
  reconcileAfterAt := if requiresByok then none else some (now + reconcileStaleAfter p)

/-- What a caller of `create_or_get_finalization_intent` gives. -/
structure IntentRequest where
  uid : String
  conversationId : String
  requiresByok : Bool
  admission : Conversation → FinalizationAdmission
  extraUpdates : Conversation → Conversation

def createOrGetFinalizationIntent (s : Store) (r : IntentRequest) (now : Instant) : FinalizationIntent × Store :=
  match s.conversation r.uid r.conversationId with
  | none => (noFinalizationIntent .missing, s)
  | some c =>
      if c.deferred then (noFinalizationIntent .deferred, s)
      else if (c.hasContent || c.hasPhotos) = false then (noFinalizationIntent .noContent, s)
      else if (r.admission c).terminal then (noFinalizationIntent (.refused (r.admission c).reason), s)
      else
        match s.existingJob c with
        | some (id, job) => (intentFromJob id job false, s)
        | none =>
            let fanoutKey := (r.admission c).fanoutKey.getD ""
            if (r.admission c).accepted = false ∨ fanoutKey = "" then
              (noFinalizationIntent (.refused (r.admission c).reason), s)
            else
              let revision := c.revision + 1
              let id := jobId p r.uid r.conversationId revision
              match s.job id with
              | some job =>
                  (intentFromJob id job false,
                    s.setConversation r.uid r.conversationId
                      { c with
                        status := .processing
                        finalizationJobId := some id
                        finalizationRevision := some revision
                        finalizationStatus := some job.status })
              | none =>
                  let job := newJob p r.uid r.conversationId revision r.requiresByok fanoutKey now
                  let counted := (s.setJob id job).recordProjectionDelta job
                    [(.accepted, 1), (if r.requiresByok then .blockedByok else .queued, 1)]
                  (intentFromJob id job true,
                    counted.setConversation r.uid r.conversationId
                      { r.extraUpdates c with
                        status := .processing
                        finalizationJobId := some id
                        finalizationRevision := some revision
                        finalizationStatus := some job.status })

def resumeBlockedByokJob (s : Store) (id : String) (now : Instant) : FinalizationIntent × Store :=
  match s.job id with
  | none => (noFinalizationIntent .missing, s)
  | some job =>
      if job.status = .blockedByok ∧ job.requiresByok then
        (intentFromJob id { job with status := .queued } false,
          (s.setJob id (job.resume now)).recordProjectionDelta job [(.blockedByok, -1), (.queued, 1)])
      else (intentFromJob id job false, s)

/-- What a caller of `claim_finalization_job` gives. -/
structure ClaimRequest where
  dispatchGeneration : Int
  allowByok : Bool
  leaseSeconds : Int
  expectedUid : Option String
  expectedConversationId : Option String

/-- The guards of a claim, in their order. -/
def Job.claimRefusal (job : Job) (r : ClaimRequest) (now : Instant) : Option ClaimStatus :=
  if r.expectedUid.any (· ≠ job.uid) then some .identityMismatch
  else if r.expectedConversationId.any (· ≠ job.conversationId) then some .identityMismatch
  else if job.status = .completed ∧ job.finalizationOutcome = some .fenced then some .fenced
  else if job.status.terminal then some (.terminal job.status)
  else if job.requiresByok ∧ r.allowByok = false then some .blockedByok
  else if job.status = .blockedByok then some .blockedByok
  else if job.generation ≠ r.dispatchGeneration then some .staleGeneration
  else if job.status = .leased ∧ job.leaseHeld now then some .leased
  else if job.status ≠ .queued ∧ job.status ≠ .leased then some .notActionable
  else none

def claimFinalizationJob (s : Store) (id : String) (r : ClaimRequest) (now : Instant) : FinalizationClaim × Store :=
  match s.job id with
  | none => (⟨.missing, none, 0, none⟩, s)
  | some job =>
      match job.claimRefusal r now with
      | some status => (⟨status, none, 0, none⟩, s)
      | none =>
          let leased := s.setJob id (job.lease r.leaseSeconds now)
          (⟨.claimed, some (job.epoch + 1), job.attemptCount + 1, job.createdAt⟩,
            if job.status = .queued then leased.recordProjectionDelta job [(.queued, -1), (.leased, 1)] else leased)

/-- The pair that a worker presents. -/
structure Lease where
  dispatchGeneration : Int
  leaseEpoch : Int
  deriving DecidableEq

def markFinalizationCompleted (s : Store) (id : String) (l : Lease) (now : Instant) : Bool × Store :=
  match s.job id with
  | none => (false, s)
  | some job =>
      if job.status = .completed then (decide (job.epoch = l.leaseEpoch), s)
      else if job.isCurrentLease l.dispatchGeneration l.leaseEpoch = false then (false, s)
      else if job.fanoutStatus ≠ some .completed then (false, s)
      else
        (true, (s.setJob id (job.complete now)).recordProjectionDelta job
          [(.leased, -1), (.completed, 1), (.success, 1)])

/-- The writes of `_fenced_finalization_update`, with their deltas. -/
def Store.fenceJob (s : Store) (id : String) (job : Job) (now : Instant) : Store :=
  (s.setJob id (job.fence now)).recordProjectionDelta job [(.leased, -1), (.completed, 1), (.stale, 1)]

def markFinalizationFenced (s : Store) (id : String) (l : Lease) (now : Instant) : Bool × Store :=
  match s.job id with
  | none => (false, s)
  | some job =>
      if job.status = .completed then
        (decide (job.finalizationOutcome = some .fenced) && decide (job.epoch = l.leaseEpoch), s)
      else if job.isCurrentLease l.dispatchGeneration l.leaseEpoch = false then (false, s)
      else if job.fanoutStatus ≠ none ∧ job.fanoutStatus ≠ some .pending then (false, s)
      else (true, s.fenceJob id job now)

def conversationAdmitsFanout (c : Conversation) (job : Job) (id : String) : Bool :=
  if c.discarded ∨ c.status ≠ .completed then false
  else if c.finalizationJobId ≠ some id then false
  else decide (c.revision = job.finalizationRevision)

def claimFinalizationFanout (s : Store) (id : String) (l : Lease) (now : Instant) : FinalizationFanoutClaim × Store :=
  match s.job id with
  | none => (⟨.missing, none⟩, s)
  | some job =>
      let key := some job.fanoutKeyOrDefault
      if job.fanoutStatus = some .completed then (⟨.completed, key⟩, s)
      else if job.isCurrentLease l.dispatchGeneration l.leaseEpoch = false then (⟨.leaseConflict, key⟩, s)
      else if job.uid = "" ∨ job.conversationId = "" then (⟨.fenced, key⟩, s.fenceJob id job now)
      else if (s.conversation job.uid job.conversationId).any (conversationAdmitsFanout · job id) then
        (⟨.claimed, key⟩, s.setJob id (job.leaseFanout l.leaseEpoch now))
      else (⟨.fenced, key⟩, s.fenceJob id job now)

def markFinalizationFanoutCompleted (s : Store) (id : String) (l : Lease) (now : Instant) : Bool × Store :=
  match s.job id with
  | none => (false, s)
  | some job =>
      if job.fanoutStatus = some .completed then (decide (job.fanoutLeaseEpoch.getD 0 = l.leaseEpoch), s)
      else if job.isCurrentLease l.dispatchGeneration l.leaseEpoch = false then (false, s)
      else (true, s.setJob id (job.completeFanout now))

def markFinalizationRetryable (s : Store) (id : String) (l : Lease) (failureCode : String) (now : Instant) :
    Bool × Store :=
  match s.job id with
  | none => (false, s)
  | some job =>
      if job.isCurrentLease l.dispatchGeneration l.leaseEpoch = false then (false, s)
      else
        (true, (s.setJob id (job.retry failureCode (reconcileStaleAfter p) now)).recordProjectionDelta job
          [(.leased, -1), (.queued, 1)])

/-- The conversation that a job is bound to, where its document can be named. -/
def Store.boundConversation (s : Store) (job : Job) : Option Conversation :=
  if job.uid ≠ "" ∧ job.conversationId ≠ "" then s.conversation job.uid job.conversationId else none

def markFinalizationDeadLetter (s : Store) (id : String) (l : Lease) (retryCount : Int) (now : Instant) : Bool × Store :=
  match s.job id with
  | none => (false, s)
  | some job =>
      if job.isCurrentLease l.dispatchGeneration l.leaseEpoch = false then (false, s)
      else
        let buried := (s.setJob id (job.bury retryCount now)).recordProjectionDelta job
          [(.leased, -1), (.deadLetter, 1), (.failure, 1)]
        match s.boundConversation job with
        | none => (true, buried)
        | some c =>
            if c.status = .processing ∧ c.discarded = false ∧ c.finalizationJobId = some id ∧
                c.finalizationRevision = some job.finalizationRevision then
              (true, buried.setConversation job.uid job.conversationId
                { c with status := .failed, discarded := true, finalizationStatus := some .deadLetter })
            else (true, buried)

/-- What a caller of `record_meeting_receipt` gives. -/
structure ReceiptRequest where
  uid : String
  conversationId : String
  finalizationJobId : Option String
  eligible : Bool
  reason : String
  durationS : ℚ
  dedupSpeechS : ℚ

def meetingReceiptReconcileAfter : Int := seconds 600

def newReceipt (r : ReceiptRequest) (now : Instant) : MeetingReceipt where
  eligible := r.eligible
  reason := r.reason
  durationS := r.durationS
  dedupSpeechS := r.dedupSpeechS
  createdAt := now
  updatedAt := now
  reconcileAfterAt := now + meetingReceiptReconcileAfter
  intentId := none
  intentPersistedAt := none
  materializedAt := none

/-- The job that a receipt without one creates. -/
def receiptJob (r : ReceiptRequest) (revision : Int) (receipt : MeetingReceipt) (now : Instant) : Job where
  uid := r.uid
  conversationId := r.conversationId
  finalizationRevision := revision
  status := .completed
  requiresByok := false
  fanoutKey := some s!"conversation:{r.conversationId}:finalization"
  fanoutStatus := some .completed
  finalizationOutcome := some .success
  terminalOutcome := some .success
  dispatchGeneration := some 1
  attemptCount := 1
  taskRetryCount := 0
  createdAt := some now
  updatedAt := some now
  receipt := some receipt

def nonempty (id : Option String) : Option String := id.filter (· ≠ "")

def recordMeetingReceipt (s : Store) (r : ReceiptRequest) (now : Instant) : ReceiptResult × Store :=
  match s.conversation r.uid r.conversationId with
  | none => (.missing, s)
  | some c =>
      let existing := nonempty c.finalizationJobId
      let id := (nonempty r.finalizationJobId <|> existing).getD (jobId p r.uid r.conversationId (c.revision + 1))
      let bind (receipt : MeetingReceipt) : Conversation :=
        { c with
          finalizationJobId := some id
          meeting := some (receipt.eligible, receipt.reason, receipt.durationS, receipt.dedupSpeechS)
          finalizationRevision := if existing = none then some (c.revision + 1) else c.finalizationRevision
          finalizationStatus := if existing = none then some .completed else c.finalizationStatus }
      match s.job id with
      | some job =>
          if job.uid ≠ r.uid ∨ job.conversationId ≠ r.conversationId then (.identityMismatch, s)
          else
            match job.receipt with
            | some receipt => (.recorded id receipt, s.setConversation r.uid r.conversationId (bind receipt))
            | none =>
                let receipt := newReceipt r now
                (.recorded id receipt,
                  (s.setJob id { job with receipt := some receipt }).setConversation r.uid r.conversationId (bind receipt))
      | none =>
          let receipt := newReceipt r now
          (.recorded id receipt,
            (s.setJob id (receiptJob r (c.revision + 1) receipt now)).setConversation r.uid r.conversationId (bind receipt))

def claimFinalizationReplay (s : Store) (id : String) (staleAfter : Int) (now : Instant) : FinalizationIntent × Store :=
  match s.job id with
  | none => (noFinalizationIntent .missing, s)
  | some job =>
      if job.status = .blockedByok ∨ job.status.terminal then (intentFromJob id job false, s)
      else if job.status = .leased ∧ job.leaseHeld now then (intentFromJob id job false, s)
      else if job.status = .queued ∧ job.dispatchRequestedAt.any (now - staleAfter < ·) then
        (intentFromJob id job false, s)
      else
        let replayed := s.setJob id (job.replay staleAfter now)
        (intentFromJob id (job.replay staleAfter now) false,
          if job.status = .leased then replayed.recordProjectionDelta job [(.leased, -1), (.queued, 1)] else replayed)

/-- `get_finalization_replay_candidates`: the query's page, then the test of the status. -/
def getFinalizationReplayCandidates (s : Store) (limit : Int) (now : Instant) : List String :=
  let due := s.jobs.filter fun e => e.2.reconcileAfterAt.any (· ≤ now)
  let page := (due.mergeSort fun a b => decide (a.2.reconcileAfterAt.getD 0 ≤ b.2.reconcileAfterAt.getD 0)).take
    (max 1 (min limit 100)).toNat
  (page.filter fun e => e.2.status = .queued ∨ e.2.status = .leased).map Prod.fst

/-- What a caller of `abandon_byok_finalization_job` gives. -/
structure AbandonRequest where
  expectedStatus : JobStatus
  expected : Lease
  abandonedAfter : Int

/-- The guards of an abandonment, in their order. -/
def Job.abandonFenced (job : Job) (r : AbandonRequest) (now : Instant) : Bool :=
  if job.requiresByok = false then true
  else if job.status ≠ .queued ∧ job.status ≠ .leased ∨ job.status ≠ r.expectedStatus then true
  else if job.generation ≠ r.expected.dispatchGeneration then true
  else if job.epoch ≠ r.expected.leaseEpoch then true
  else if job.status = .leased ∧ job.leaseHeld now then true
  else
    match job.lastActivityAt with
    | none => true
    | some lastActivity => decide (now - r.abandonedAfter < lastActivity)

def abandonByokFinalizationJob (s : Store) (id : String) (r : AbandonRequest) (now : Instant) : ByokAbandonment × Store :=
  match s.job id with
  | none => (⟨.missing, .none⟩, s)
  | some job =>
      if job.abandonFenced r now then (⟨.fenced, .none⟩, s)
      else
        let abandoned := (s.setJob id (job.abandon now)).recordProjectionDelta job
          [(.queued, if job.status = .queued then -1 else 0), (.leased, if job.status = .leased then -1 else 0),
            (.deadLetter, 1), (.failure, 1)]
        match s.boundConversation job with
        | none => (⟨.abandoned, .missing⟩, abandoned)
        | some c =>
            if c.finalizationJobId ≠ some id ∨ c.finalizationRevision ≠ some job.finalizationRevision then
              (⟨.abandoned, .unbound⟩, abandoned)
            else if c.status ≠ .processing ∨ c.discarded then (⟨.abandoned, .alreadyTerminal⟩, abandoned)
            else if c.deferred then (⟨.abandoned, .deferred⟩, abandoned)
            else
              (⟨.abandoned, .closed⟩, abandoned.setConversation job.uid job.conversationId
                { c with status := .completed, finalizationStatus := some .deadLetter })

end OmiLocal.Finalization
