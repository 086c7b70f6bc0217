import Mathlib.Algebra.Order.Ring.Rat
import OmiLocal.Lib.Dict

/-!
# Sync jobs in Redis

Every job is one JSON document under its key, beside the run lock and its epoch
counter. A call into the module is a sequence of Redis steps, each a GET, a SET or
one Lua script, and other calls may run between any two of them; `Pending` is a
call between its steps. Clock readings are inputs. Lists and objects inside a job
keep their text, since nothing here looks into them.
-/
namespace OmiLocal.Sync

open Lib

inductive Field where
  | null
  | bool (b : Bool)
  | num (q : ℚ)
  | str (s : String)
  | nested (text : String)
deriving DecidableEq

abbrev Job := List (String × Field)

namespace Field

def truthy : Field → Bool
  | .null => false
  | .bool b => b
  | .num q => decide (q ≠ 0)
  | .str s => decide (s ≠ "")
  | .nested text => decide (text ≠ "[]" ∧ text ≠ "\x7b\x7d")

/-- `isinstance(value, (int, float))`, where a Boolean counts as a number. -/
def number : Field → Option ℚ
  | .num q => some q
  | .bool b => some (if b then 1 else 0)
  | _ => none

end Field

namespace Job

/-- `job.get(key)`. -/
def value (job : Job) (key : String) : Field := (Dict.get job key).getD .null

/-- `job.update(payload)`. -/
def update (job payload : Job) : Job := payload.foldl (fun d e => Dict.put d e.1 e.2) job

def hasStatus (job : Job) (statuses : List String) : Bool :=
  match job.value "status" with
  | .str status => statuses.contains status
  | _ => false

end Job

def terminalStatuses : List String := ["completed", "partial_failure", "failed"]
def staleThresholdSeconds : ℚ := 600
def queuedDispatchStaleSeconds : ℚ := 1800
def mutationMaxRetries : Nat := 3

def isSyncJobStale (job : Job) (now : ℚ) : Bool :=
  let threshold : Option ℚ :=
    if job.value "status" = .str "processing" then some staleThresholdSeconds
    else if job.value "status" = .str "queued" ∧ job.value "dispatch_mode" = .str "cloud_tasks" ∧
        job.value "started_at" = .null ∧ job.value "attempt" = .null then
      some queuedDispatchStaleSeconds
    else none
  let updatedAt := if (job.value "updated_at").truthy then job.value "updated_at" else job.value "created_at"
  match threshold, updatedAt.number with
  | some bound, some last => decide (bound < now - last)
  | _, _ => false

/-! ### What is stored -/

/-- The text under the job key: a document written with or without blanks after its
separators, JSON that is no object, or text that is no JSON. -/
inductive RawJob where
  | document (compact : Bool) (job : Job)
  | noObject (text : String)
  | noJson (text : String)
deriving DecidableEq

def RawJob.loads : RawJob → Option Job
  | .document _ job => some job
  | _ => none

structure Redis where
  job : Option RawJob
  lock : Option String
  epoch : Nat
deriving DecidableEq

/-! ### The scripts -/

inductive ScriptReply where
  | missingOwner
  | staleOwner
  | missingJob
  | conflict (raw : RawJob)
  | applied (raw : RawJob)

/-- `_LEGACY_JOB_MUTATION_SCRIPT`. -/
def legacyMutationScript (redis : Redis) (expected next : RawJob) : Redis × ScriptReply :=
  match redis.job with
  | none => (redis, .missingJob)
  | some raw =>
    if raw ≠ expected then (redis, .conflict raw) else ({ redis with job := some next }, .applied next)

/-- `_FENCED_JOB_MUTATION_SCRIPT`. -/
def fencedMutationScript (redis : Redis) (token : String) (expected next : RawJob) : Redis × ScriptReply :=
  match redis.lock with
  | none => (redis, .missingOwner)
  | some owner => if owner ≠ token then (redis, .staleOwner) else legacyMutationScript redis expected next

/-- `_ACQUIRE_LOCK_WITH_EPOCH_SCRIPT`. -/
def acquireLockWithEpochScript (redis : Redis) (uuid : String) : Redis :=
  match redis.lock with
  | some _ => redis
  | none => { redis with lock := some (toString (redis.epoch + 1) ++ ":" ++ uuid), epoch := redis.epoch + 1 }

/-- `SET NX` of a plain token. -/
def acquireLock (redis : Redis) (token : String) : Redis :=
  match redis.lock with
  | some _ => redis
  | none => { redis with lock := some token }

/-- `_RELEASE_LOCK_SCRIPT`. -/
def releaseLockScript (redis : Redis) (token : String) : Redis :=
  if redis.lock = some token then { redis with lock := none } else redis

/-! ### Calls -/

inductive Outcome where
  | applied
  | conflict
  | missingOwner
  | staleOwner
  | missingJob
  | invalidJob
  | invalidState
deriving DecidableEq

structure Mutation where
  outcome : Outcome
  job : Option Job
  rawJob : Option RawJob
deriving DecidableEq

/-- `_decode_legacy_job_mutation` and `_decode_fenced_mutation`. -/
def decodeMutation : ScriptReply → Mutation
  | .missingOwner => ⟨.missingOwner, none, none⟩
  | .staleOwner => ⟨.staleOwner, none, none⟩
  | .missingJob => ⟨.missingJob, none, none⟩
  | .conflict raw =>
    match raw.loads with
    | none => ⟨.invalidJob, none, none⟩
    | some job => ⟨.conflict, some job, some raw⟩
  | .applied raw =>
    match raw.loads with
    | none => ⟨.invalidJob, none, none⟩
    | some job => ⟨.applied, some job, some raw⟩

structure Fence where
  token : String
  payload : Job
  allowedCurrentStatuses : Option (List String)
deriving DecidableEq

/-- A call between two of its Redis steps, with what it has read so far. -/
inductive Pending where
  | get
  | heal (job : Job)
  | update (updates : Job)
  | legacySwap (payload : Job) (raw : RawJob) (job : Job) (retries : Nat)
  | fenced (fence : Fence)
  | fencedProbe (fence : Fence)
  | fencedSwap (fence : Fence) (raw : RawJob) (job : Job) (retries : Nat)
  | returnedJob (job : Option Job)
  | returnedMutation (mutation : Mutation)
deriving DecidableEq

/-- The loop head of `update_sync_job`: the terminal guard, then the next swap. -/
def legacyAttempt (payload : Job) (raw : RawJob) (job : Job) : Nat → Pending
  | 0 => .returnedJob none
  | retries + 1 =>
    if job.hasStatus terminalStatuses then .returnedJob none else .legacySwap payload raw job retries

def Fence.admits (fence : Fence) (job : Job) : Bool :=
  !job.hasStatus terminalStatuses &&
    match fence.allowedCurrentStatuses with
    | none => true
    | some allowed => job.hasStatus allowed

def fencedAttempt (fence : Fence) (raw : RawJob) (job : Job) (last : Mutation) : Nat → Pending
  | 0 => .returnedMutation last
  | retries + 1 =>
    if fence.admits job then .fencedSwap fence raw job retries
    else .returnedMutation ⟨.invalidState, some job, some raw⟩

def healed (job : Job) (now : ℚ) : Job :=
  job.update [("status", .str "failed"), ("error", .str "Job timed out (background worker likely died)"),
    ("completed_at", .num now)]

/-- `get_sync_job` after its GET. -/
def afterGet (stored : Option RawJob) (now : ℚ) : Pending :=
  match stored with
  | none => .returnedJob none
  | some (.noJson _) => .returnedJob none
  | some (.noObject _) => .returnedJob (some [])
  | some (.document _ job) => if isSyncJobStale job now then .heal job else .returnedJob (some job)

/-- `update_sync_job` after its GET. -/
def afterUpdateGet (updates : Job) (stored : Option RawJob) (now : ℚ) : Pending :=
  match stored with
  | none => .returnedJob none
  | some raw =>
    match raw.loads with
    | none => .returnedJob none
    | some job => legacyAttempt (updates.update [("updated_at", .num now)]) raw job mutationMaxRetries

/-- `fenced_update_sync_job` after its GET. -/
def afterFencedGet (fence : Fence) : Option RawJob → Pending
  | none => .fencedProbe fence
  | some raw =>
    match raw.loads with
    | none => .returnedMutation ⟨.invalidJob, none, none⟩
    | some job => fencedAttempt fence raw job ⟨.conflict, none, none⟩ mutationMaxRetries

def afterLegacySwap (payload : Job) (retries : Nat) (mutation : Mutation) : Pending :=
  match mutation.outcome, mutation.rawJob, mutation.job with
  | .applied, _, job => .returnedJob job
  | .conflict, some raw, some job => legacyAttempt payload raw job retries
  | _, _, _ => .returnedJob none

/-- After a fenced script; `retries` is what is left of the loop. -/
def afterFencedSwap (fence : Fence) (retries : Nat) (mutation : Mutation) : Pending :=
  match mutation.outcome, mutation.rawJob, mutation.job with
  | .conflict, some raw, some job => fencedAttempt fence raw job mutation retries
  | _, _, _ => .returnedMutation mutation

/-- The next Redis step of a call. A returned call has none. -/
def Pending.step (redis : Redis) (now : ℚ) : Pending → Option (Redis × Pending)
  | .get => some (redis, afterGet redis.job now)
  | .heal job =>
    let written := healed job now
    some ({ redis with job := some (.document false written) }, .returnedJob (some written))
  | .update updates => some (redis, afterUpdateGet updates redis.job now)
  | .legacySwap payload raw job retries =>
    let result := legacyMutationScript redis raw (.document true (job.update payload))
    some (result.1, afterLegacySwap payload retries (decodeMutation result.2))
  | .fenced fence => some (redis, afterFencedGet fence redis.job)
  | .fencedProbe fence =>
    let result := fencedMutationScript redis fence.token (.noJson "") (.noJson "")
    some (result.1, afterFencedSwap fence mutationMaxRetries (decodeMutation result.2))
  | .fencedSwap fence raw job retries =>
    let result := fencedMutationScript redis fence.token raw (.document true (job.update fence.payload))
    some (result.1, afterFencedSwap fence retries (decodeMutation result.2))
  | .returnedJob _ => none
  | .returnedMutation _ => none

/-! ### Entry points -/

def getSyncJob : Pending := .get

def updateSyncJob (updates : Job) : Pending := .update updates

/-- `now` is the argument or the clock at the call. -/
def fencedUpdateSyncJob (token : String) (updates : Job) (now : ℚ) (allowed : Option (List String)) : Pending :=
  .fenced ⟨token, updates.update [("updated_at", .num now)], allowed⟩

/-- The result of a run: the counts that decide the status, and the whole document. -/
structure SyncResult where
  totalSegments : Int
  failedSegments : Int
  firstError : Option String
  document : String

def finalStatus (result : SyncResult) : String :=
  if 0 < result.totalSegments ∧ result.totalSegments ≤ result.failedSegments then "failed"
  else if 0 < result.failedSegments then "partial_failure"
  else "completed"

def finalError (result : SyncResult) : Field :=
  if finalStatus result = "failed" then
    match result.firstError with
    | some error =>
      .str ("All " ++ toString result.totalSegments ++ " segments failed. First error: " ++ error)
    | none => .str ("All " ++ toString result.totalSegments ++ " segments failed processing")
  else .null

def syncJobFinalizationUpdates (result : SyncResult) (completedAt : ℚ) : Job :=
  [("status", .str (finalStatus result)), ("completed_at", .num completedAt), ("result", .nested result.document),
    ("successful_segments", .num (max 0 (result.totalSegments - result.failedSegments) : Int)),
    ("failed_segments", .num result.failedSegments), ("processed_segments", .num result.totalSegments),
    ("error", finalError result)]

def failureUpdates (error : String) (reasonCode : Option String) (retryAfter : Option Int) (completedAt : ℚ) : Job :=
  [("status", .str "failed"), ("completed_at", .num completedAt), ("error", .str error),
    ("reason_code", (reasonCode.map Field.str).getD .null), ("retry_after", (retryAfter.map (.num ·)).getD .null)]

def retryUpdates (attempt : Int) (error : String) : Job :=
  [("status", .str "queued"), ("attempt", .num attempt), ("last_error", .str error)]

def processingUpdates (startedAt : ℚ) : Job := [("status", .str "processing"), ("started_at", .num startedAt)]

def finalizeSyncJob (result : SyncResult) (now : ℚ) : Pending := updateSyncJob (syncJobFinalizationUpdates result now)

def markJobFailed (error : String) (reasonCode : Option String) (retryAfter : Option Int) (now : ℚ) : Pending :=
  updateSyncJob (failureUpdates error reasonCode retryAfter now)

def markJobQueuedForRetry (attempt : Int) (error : String) : Pending := updateSyncJob (retryUpdates attempt error)

def markJobProcessing (now : ℚ) : Pending := updateSyncJob (processingUpdates now)

def fencedFinalizeSyncJob (token : String) (result : SyncResult) (now : ℚ) : Pending :=
  fencedUpdateSyncJob token (syncJobFinalizationUpdates result now) now (some ["processing"])

def fencedFinalizeSyncJobFromDurableLedger (token : String) (result : SyncResult) (now : ℚ) : Pending :=
  fencedUpdateSyncJob token (syncJobFinalizationUpdates result now) now (some ["queued", "processing"])

def fencedMarkJobFailed (token error : String) (reasonCode : Option String) (retryAfter : Option Int) (now : ℚ) : Pending :=
  fencedUpdateSyncJob token (failureUpdates error reasonCode retryAfter now) now (some ["queued", "processing"])

def fencedMarkJobQueuedForRetry (token : String) (attempt : Int) (error : String) (now : ℚ) : Pending :=
  fencedUpdateSyncJob token (retryUpdates attempt error) now (some ["queued", "processing"])

def fencedMarkJobProcessing (token : String) (now : ℚ) : Pending :=
  fencedUpdateSyncJob token (processingUpdates now) now (some ["queued", "processing"])

end OmiLocal.Sync
