import OmiLocal.Sync.JobStore
import OmiLocal.Sync.Ledger

/-!
# The workers of one sync job

Each acquisition of the run lock makes a worker, which keeps the token it was given and may go
on calling with it long after the lock has lapsed or moved on. Redis holds the lock, its epoch
counter, the job and its processed segments; the ledger entry of the content learns of a worker
only by its bind. Workers count from 0 in the order of their acquisitions.
-/
namespace OmiLocal.Sync
open Lib Lib.Json

/-- `int` of the part before the colon; an issued token starts with the digits of its epoch. -/
def getSyncJobRunLockEpoch (token : String) : Int :=
  let text := token.toList.takeWhile fun c => decide (c ≠ ':')
  if ':' ∈ token.toList ∧ text ≠ [] ∧ text.all Char.isDigit then Nat.ofDigitChars 10 text 0 else 0

/-- `_FENCED_ADD_PROCESSED_SEGMENT_SCRIPT`: the set of segments if it applied. -/
def fencedAddProcessedSegmentScript (redis : Redis) (segments : List String) (token path : String) :
    Option (List String) :=
  match redis.lock with
  | none => none
  | some owner => if owner ≠ token then none else some (segments.insert path)

/-- `_RENEW_LOCK_SCRIPT`: whether the expiry was put off. -/
def renewLockScript (redis : Redis) (token : String) : Bool := decide (redis.lock = some token)

/-- The ledger's mutations by a worker. -/
inductive LedgerMutation where
  | sideEffect (tag : SideEffect) (value : Int)
  | checkpoint (fields : List (String × Value))
  | processedSegment (segmentId : String)
  | complete (result : Value)
  | release

def LedgerMutation.transaction (caller : Caller) (now : ℚ) : LedgerMutation → Transaction
  | .sideEffect tag value => .sideEffect caller tag value now
  | .checkpoint fields => .checkpoint caller fields now
  | .processedSegment segmentId => .processedSegment caller segmentId now
  | .complete result => .complete caller result now
  | .release => .release caller now

/-- What worked, and for which worker. A claim is `reclaimed` where it takes the entry anew. -/
inductive Success where
  | bound (worker : Nat)
  | changed (worker : Nat)
  | written (worker : Nat)
  | segment (worker : Nat)
  | reclaimed
deriving DecidableEq

namespace Success

def worker : Success → Option Nat
  | .bound worker => some worker
  | .changed worker => some worker
  | .written worker => some worker
  | .segment worker => some worker
  | .reclaimed => none

/-- A write to the job or to its segments. -/
def inRedis : Success → Bool
  | .written _ => true
  | .segment _ => true
  | _ => false

end Success

structure Fleet where
  redis : Redis
  segments : List String
  ledger : Document
  tokens : List String
  calls : List (Nat × Pending)
  log : List Success

namespace Fleet

inductive Action where
  | acquire (uuid : String)
  | renew (worker : Nat)
  | release (worker : Nat)
  | expire
  | bind (worker : Nat) (now : ℚ)
  | mutate (worker : Nat) (mutation : LedgerMutation) (now : ℚ)
  | claim (lane : String) (now : ℚ)
  | updateJob (worker : Nat) (updates : Job) (now : ℚ) (allowed : Option (List String))
  | step (call : Nat) (now : ℚ)
  | addSegment (worker : Nat) (path : String)

def acquire (s : Fleet) (uuid : String) : Fleet :=
  match s.redis.lock with
  | some _ => s
  | none =>
    let redis := acquireLockWithEpochScript s.redis uuid
    { s with redis := redis, tokens := s.tokens ++ redis.lock.toList }

def callerOf (job token : String) : Caller := ⟨job, some token, some (getSyncJobRunLockEpoch token)⟩

/-- The transaction runs, and its reply decides what is noted. -/
def transact (s : Fleet) (x : Transaction) (noted : Reply → List Success) : Fleet :=
  { s with ledger := (x.run s.ledger).1, log := s.log ++ noted (x.run s.ledger).2 }

def bound (worker : Nat) : Reply → List Success
  | .bound => [.bound worker]
  | _ => []

def changed (worker : Nat) : Reply → List Success
  | .changed => [.changed worker]
  | _ => []

/-- A claim takes the entry anew unless the job has it and is at work on it. -/
def reclaimed (job : String) (before : Document) : Reply → List Success
  | .owned => if before.status ≠ some .completed ∧ before.jobId = some job then [] else [.reclaimed]
  | _ => []

def applied : Pending → Bool
  | .returnedMutation mutation => decide (mutation.outcome = .applied)
  | _ => false

def stepCall (s : Fleet) (call : Nat) (now : ℚ) : Option Fleet := do
  let (worker, pending) ← s.calls[call]?
  let result ← pending.step s.redis now
  pure { s with
    redis := result.1
    calls := s.calls.set call (worker, result.2)
    log := s.log ++ if result.1 ≠ s.redis ∨ applied result.2 then [.written worker] else [] }

def act (job : String) (s : Fleet) : Action → Option Fleet
  | .acquire uuid => some (s.acquire uuid)
  | .renew worker => (s.tokens[worker]?).map fun _ => s
  | .release worker => (s.tokens[worker]?).map fun token => { s with redis := releaseLockScript s.redis token }
  | .expire => some { s with redis := { s.redis with lock := none } }
  | .bind worker now =>
    (s.tokens[worker]?).map fun token =>
      s.transact (.bind job token (getSyncJobRunLockEpoch token) now) (bound worker)
  | .mutate worker mutation now =>
    (s.tokens[worker]?).map fun token =>
      s.transact (mutation.transaction (callerOf job token) now) (changed worker)
  | .claim lane now => some (s.transact (.claim job lane now) (reclaimed job s.ledger))
  | .updateJob worker updates now allowed =>
    (s.tokens[worker]?).map fun token =>
      { s with calls := s.calls ++ [(worker, fencedUpdateSyncJob token updates now allowed)] }
  | .step call now => s.stepCall call now
  | .addSegment worker path =>
    (s.tokens[worker]?).map fun token =>
      match fencedAddProcessedSegmentScript s.redis s.segments token path with
      | none => s
      | some segments => { s with segments := segments, log := s.log ++ [.segment worker] }

def Step (job : String) (s : Fleet) (a : Action) (t : Fleet) : Prop := s.act job a = some t

/-- No worker yet; the job, its segments and the counter may be any, and so may a ledger entry
without a result that no completion has written. -/
structure Initial (s : Fleet) : Prop where
  free : s.redis.lock = none
  tokens : s.tokens = []
  calls : s.calls = []
  log : s.log = []
  recorded : s.ledger.status ≠ some .completed → s.ledger.result = none

end Fleet
end OmiLocal.Sync
