import Mathlib.Algebra.Order.Ring.Rat
import Mathlib.Logic.Function.Basic
import OmiLocal.Lib.Json

/-!
# The sync content ledger

One Firestore document per content, changed by transactions only. A missing
document is one without fields. Fields have the types the ledger writes, except
those whose type the code looks at: a result may be any value and a lease epoch
may be no integer. `mergeValue` is a merging write: it goes into maps.
-/
namespace OmiLocal.Sync

open Lib.Json

def claimStaleSeconds : ℚ := 2 * 24 * 60 * 60
def ledgerRetentionSeconds : ℚ := 45 * 24 * 60 * 60

/-- The side effects, each with its own time and value field. -/
inductive SideEffect where
  | speechMs
  | usage
  | dgMs
deriving DecidableEq

/-- A value that is no integer may still compare equal to one. -/
inductive StoredEpoch where
  | int (n : Int)
  | other (like : Option Int)
deriving DecidableEq

def StoredEpoch.like : StoredEpoch → Option Int
  | .int n => some n
  | .other like => like

inductive ClaimStatus where
  | processing
  | completed
  | retryable
  | other (text : String)
deriving DecidableEq

structure Document where
  status : Option ClaimStatus
  jobId : Option String
  lane : Option String
  updatedAt : Option ℚ
  expiresAt : Option ℚ
  runToken : Option String
  runEpoch : Option StoredEpoch
  result : Option Value
  partialResult : Option Value
  processedSegmentIds : List String
  markedAt : SideEffect → Option ℚ
  markedValue : SideEffect → Option Int

def Document.missing : Document :=
  ⟨none, none, none, none, none, none, none, none, none, [], fun _ => none, fun _ => none⟩

mutual
def mergeValue : Option Value → Value → Value
  | some (.obj old), .obj (first :: rest) => .obj (mergeFields old (first :: rest))
  | _, new => new

def mergeFields (old : List (String × Value)) : List (String × Value) → List (String × Value)
  | [] => old
  | (key, new) :: rest => mergeFields (setField key (mergeValue (field key old) new) old) rest
end

/-- Whether a completion counts; `none` where testing the outcome raises. -/
def isValidCompletedSyncContentResult : Option Value → Option Bool
  | some (.obj fields) =>
    match field "failed_segments" fields, field "total_segments" fields, field "errors" fields with
    | some (.int 0), some (.int total), some (.arr []) =>
      if total < 0 then some false
      else
        match field "outcome" fields with
        | none => some (decide (0 < total))
        | some .null => some (decide (0 < total))
        | some (.str outcome) => some (["success", "expected_silence"].contains outcome)
        | some (.arr _) => none
        | some (.obj _) => none
        | some _ => some false
    | _, _, _ => some false
  | _ => some false

/-- Who calls: a job, with the run token and epoch it presents. -/
structure Caller where
  jobId : String
  runToken : Option String
  runEpoch : Option Int
deriving DecidableEq

def ledgerOwnerMatches (existing : Document) (caller : Caller) : Bool :=
  if existing.status ≠ some .processing ∨ existing.jobId ≠ some caller.jobId then false
  else
    match caller.runToken with
    | none => existing.runToken.isNone && existing.runEpoch.isNone
    | some token =>
      existing.runToken == some token &&
        match existing.runEpoch, caller.runEpoch with
        | none, none => true
        | some stored, some epoch => stored.like == some epoch
        | _, _ => false

def processingClaim (jobId lane : String) (now : ℚ) (clearInvalidCompletion : Bool) (existing : Document) : Document :=
  let claimed := { existing with
    status := some .processing
    jobId := some jobId
    lane := some lane
    updatedAt := some now
    expiresAt := some (now + ledgerRetentionSeconds)
    runToken := none
    runEpoch := none }
  if clearInvalidCompletion then { claimed with result := none, partialResult := none, processedSegmentIds := [] }
  else claimed

inductive Reply where
  | completed (result : Option Value)
  | owned
  | busy
  | bound
  | lost
  | changed
  | refused
  | raised

def claimTransaction (jobId lane : String) (now : ℚ) (existing : Document) : Document × Reply :=
  if existing.status = some .completed then
    match isValidCompletedSyncContentResult existing.result with
    | none => (existing, .raised)
    | some true => (existing, .completed existing.result)
    | some false => (processingClaim jobId lane now true existing, .owned)
  else if existing.jobId = some jobId then (existing, .owned)
  else if existing.status = some .retryable then (processingClaim jobId lane now false existing, .owned)
  else
    match existing.updatedAt with
    | some updatedAt =>
      if now - updatedAt < claimStaleSeconds then (existing, .busy)
      else (processingClaim jobId lane now false existing, .owned)
    | none => (processingClaim jobId lane now false existing, .owned)

def bindTo (token : String) (epoch : Int) (existing : Document) : Document :=
  { existing with runToken := some token, runEpoch := some (.int epoch) }

def bindRunTokenTransaction (jobId token : String) (epoch : Int) (now : ℚ) (existing : Document) : Document × Reply :=
  if existing.status = some .completed then
    match isValidCompletedSyncContentResult existing.result with
    | none => (existing, .raised)
    | some true => (existing, .completed existing.result)
    | some false =>
      if existing.jobId ≠ some jobId then (existing, .lost)
      else
        let lane := match existing.lane with
          | none => "legacy"
          | some lane => if lane = "" then "legacy" else lane
        (bindTo token epoch (processingClaim jobId lane now true existing), .bound)
  else if existing.status ≠ some .processing ∨ existing.jobId ≠ some jobId then (existing, .lost)
  else
    match existing.runEpoch with
    | none => ({ bindTo token epoch existing with updatedAt := some now }, .bound)
    | some (.other _) => (existing, .lost)
    | some (.int stored) =>
      if epoch < stored then (existing, .lost)
      else if stored = epoch then
        if existing.runToken = some token then (existing, .bound) else (existing, .lost)
      else ({ bindTo token epoch existing with updatedAt := some now }, .bound)

def sideEffectTransaction (caller : Caller) (tag : SideEffect) (value : Int) (now : ℚ) (existing : Document) :
    Document × Reply :=
  if (existing.markedAt tag).isSome then (existing, .refused)
  else if ledgerOwnerMatches existing caller then
    ({ existing with
        markedAt := Function.update existing.markedAt tag (some now)
        markedValue := Function.update existing.markedValue tag (some value)
        updatedAt := some now }, .changed)
  else (existing, .refused)

def checkpointPartialResultTransaction (caller : Caller) (fields : List (String × Value)) (now : ℚ)
    (existing : Document) : Document × Reply :=
  if ledgerOwnerMatches existing caller then
    ({ existing with
        partialResult := some (mergeValue existing.partialResult (.obj fields))
        updatedAt := some now }, .changed)
  else (existing, .refused)

def processedSegmentTransaction (caller : Caller) (segmentId : String) (now : ℚ) (existing : Document) :
    Document × Reply :=
  if segmentId ∈ existing.processedSegmentIds then (existing, .refused)
  else if ledgerOwnerMatches existing caller then
    ({ existing with
        processedSegmentIds := existing.processedSegmentIds ++ [segmentId]
        updatedAt := some now }, .changed)
  else (existing, .refused)

def markCompletedTransaction (caller : Caller) (result : Value) (now : ℚ) (existing : Document) : Document × Reply :=
  match isValidCompletedSyncContentResult (some result) with
  | none => (existing, .raised)
  | some false => (existing, .refused)
  | some true =>
    if ledgerOwnerMatches existing caller then
      ({ existing with
          status := some .completed
          result := some (mergeValue existing.result result)
          updatedAt := some now
          expiresAt := some (now + ledgerRetentionSeconds) }, .changed)
    else (existing, .refused)

def released (now : ℚ) (existing : Document) : Document :=
  { existing with
    status := some .retryable
    jobId := none
    runToken := none
    runEpoch := none
    updatedAt := some now
    expiresAt := some (now + ledgerRetentionSeconds) }

def releaseClaimTransaction (caller : Caller) (now : ℚ) (existing : Document) : Document × Reply :=
  if existing.status = some .completed ∨ ledgerOwnerMatches existing caller = false then (existing, .refused)
  else (released now existing, .changed)

def releaseClaimAfterJobRetiredTransaction (jobId : String) (now : ℚ) (existing : Document) : Document × Reply :=
  if existing.status ≠ some .processing ∨ existing.jobId ≠ some jobId then (existing, .refused)
  else (released now existing, .changed)

inductive Transaction where
  | claim (jobId lane : String) (now : ℚ)
  | bind (jobId token : String) (epoch : Int) (now : ℚ)
  | sideEffect (caller : Caller) (tag : SideEffect) (value : Int) (now : ℚ)
  | checkpoint (caller : Caller) (fields : List (String × Value)) (now : ℚ)
  | processedSegment (caller : Caller) (segmentId : String) (now : ℚ)
  | complete (caller : Caller) (result : Value) (now : ℚ)
  | release (caller : Caller) (now : ℚ)
  | releaseAfterJobRetired (jobId : String) (now : ℚ)

def Transaction.run : Transaction → Document → Document × Reply
  | .claim jobId lane now => claimTransaction jobId lane now
  | .bind jobId token epoch now => bindRunTokenTransaction jobId token epoch now
  | .sideEffect caller tag value now => sideEffectTransaction caller tag value now
  | .checkpoint caller fields now => checkpointPartialResultTransaction caller fields now
  | .processedSegment caller segmentId now => processedSegmentTransaction caller segmentId now
  | .complete caller result now => markCompletedTransaction caller result now
  | .release caller now => releaseClaimTransaction caller now
  | .releaseAfterJobRetired jobId now => releaseClaimAfterJobRetiredTransaction jobId now

end OmiLocal.Sync
