import OmiLocal.Wals.PhoneWal
import OmiLocal.Lib.Dict
import OmiLocal.Lib.Transition

/-!
# Draining recordings to the server

`_syncAll` and `syncWal` between their awaits, one call after the other, while recordings are
captured, stamped and flushed. Each `Wal` object has a number of its own. `List.sort` of Dart
is not stable: an action carries the sorted order. It also says which files are not on the
disk, and what the upload gate answers.
-/
namespace OmiLocal.Wals.Phone
open Lib

def liveCaptureMaxAgeSeconds : Int := 6 * 60 * 60

def syncUploadBatchLimit : Nat := 5

def isLiveCaptureWal (w : Wal) (nowSeconds : Int) : Bool :=
  w.conversationId.isSome && decide (nowSeconds - w.timerStart ≤ liveCaptureMaxAgeSeconds)

abbrev Tracked := List (Nat × Wal)

def canClaimLiveCapture (batch pendingForConversation : Tracked) (nowSeconds : Int) : Bool :=
  match batch with
  | [] => false
  | first :: _ => isLiveCaptureWal first.2 nowSeconds && decide (pendingForConversation.length ≤ batch.length)

def walLocationBatchKey (w : Wal) : Option String :=
  w.geolocation.map fun g => g.time.getD "null" ++ "|" ++ g.latitude ++ "|" ++ g.longitude

/-- `nextSyncUploadBatch` after the sort. -/
def nextSyncUploadBatch (ordered : Tracked) : Tracked :=
  match ordered with
  | [] => []
  | first :: _ =>
      (ordered.filter fun e => decide (e.2.conversationId = first.2.conversationId) &&
        decide (walLocationBatchKey e.2 = walLocationBatchKey first.2)).take syncUploadBatchLimit

/-- The locals of `_syncAll` that its loop reads. -/
structure Drain where
  liveCaptureOnly : Bool
  attemptedWalIds : List String
  unclaimableConversationIds : List String
  deriving DecidableEq

inductive Running where
  | idle
  | drain (d : Drain)
  | uploadingBatch (d : Drain) (batchWals : List Nat) (claimLiveCapture : Bool)
  | uploadingWal (walToSync : Nat) (claimLiveCapture : Bool)
  deriving DecidableEq

/-- A call of the upload gate. The last two are recorded for the statements: `_wals` at that moment, and the
recordings that the server had by then accepted in unclaimed batches. -/
structure Upload where
  conversationId : Option String
  claimLiveCapture : Bool
  files : List Nat
  tracked : Tracked
  uploadedUnclaimed : List Nat
  deriving DecidableEq

structure LocalWalSync where
  wals : Tracked
  nextObject : Nat
  nowSeconds : Int
  isCancelled : Bool
  running : Running
  uploads : List Upload
  uploadedUnclaimed : List Nat
  deriving DecidableEq

inductive UploadResult where
  | completed
  | queued (jobId : String)
  | rateLimited
  | quarantined
  | recoveryWindowExceeded
  | failed

inductive Action where
  | captured (wal : Wal)
  | flush
  | stampConversationId (sessionStartSeconds : Int) (conversationId : String)
  | cancelSync
  | wait (seconds : Nat)
  | syncAll (liveCaptureOnly isLimited : Bool)
  | nextBatch (ordered : Tracked) (absent : List Nat)
  | syncWal (wal : Nat) (absent : List Nat)
  | answered (result : UploadResult)

namespace LocalWalSync

def change (s : LocalWalSync) (objects : List Nat) (f : Wal → Wal) : LocalWalSync :=
  { s with wals := s.wals.map fun e => if e.1 ∈ objects then (e.1, f e.2) else e }

def flush (s : LocalWalSync) : LocalWalSync := { s with wals := s.wals.map fun e => (e.1, e.2.flushed) }

def stampConversationId (s : LocalWalSync) (sessionStartSeconds : Int) (conversationId : String) : LocalWalSync :=
  { s with wals := s.wals.map fun e =>
      if e.2.status = .miss ∧ sessionStartSeconds ≤ e.2.timerStart ∧ e.2.timerStart ≤ s.nowSeconds ∧
          e.2.conversationId = none then
        (e.1, { e.2 with conversationId := some conversationId })
      else e }

/-- `_syncAll` up to its loop. -/
def beginSyncAll (s : LocalWalSync) (liveCaptureOnly isLimited : Bool) : LocalWalSync :=
  let s : LocalWalSync := { s.flush with isCancelled := false }
  let wals : Tracked := s.wals.filter fun e => e.2.status == .miss && e.2.storage == .disk &&
    (!liveCaptureOnly || isLiveCaptureWal e.2 s.nowSeconds)
  if wals = [] then s
  else if isLimited then s
  else { s with running := .drain ⟨liveCaptureOnly, [], []⟩ }

/-- The recordings a drain may still take. -/
def candidates (s : LocalWalSync) (d : Drain) : Tracked :=
  s.wals.filter fun e => e.2.status == .miss && e.2.storage == .disk && decide (e.2.id ∉ d.attemptedWalIds)

def pending (s : LocalWalSync) (d : Drain) : Tracked :=
  (s.candidates d).filter fun e => !d.liveCaptureOnly || isLiveCaptureWal e.2 s.nowSeconds

def batchConversationId (batch : Tracked) : Option String :=
  match batch with
  | [] => none
  | first :: _ => first.2.conversationId

def claimsLiveCapture (s : LocalWalSync) (d : Drain) (batch : Tracked) : Bool :=
  let conversationId := batchConversationId batch
  conversationId.all (fun id => decide (id ∉ d.unclaimableConversationIds)) &&
    canClaimLiveCapture batch ((s.candidates d).filter fun e => decide (e.2.conversationId = conversationId))
      s.nowSeconds

/-- The drain after it has chosen the batch. -/
def attempted (s : LocalWalSync) (d : Drain) (batch : Tracked) : Drain :=
  { d with
    attemptedWalIds := d.attemptedWalIds ++ batch.map fun e => e.2.id
    unclaimableConversationIds :=
      if s.claimsLiveCapture d batch then d.unclaimableConversationIds
      else d.unclaimableConversationIds ++ (batchConversationId batch).toList }

/-- The files of a batch that are there. -/
def batchWals (batch : Tracked) (absent : List Nat) : Tracked :=
  batch.filter fun e => e.2.filePath.isSome && decide (e.1 ∉ absent)

/-- The others are marked. -/
def markAbsent (s : LocalWalSync) (batch : Tracked) (absent : List Nat) : LocalWalSync :=
  s.change ((batch.filter fun e => !(e.2.filePath.isSome && decide (e.1 ∉ absent))).map Prod.fst) Wal.markCorrupted

def send (s : LocalWalSync) (running : Running) (conversationId : Option String) (claimLiveCapture : Bool)
    (files : List Nat) : LocalWalSync :=
  { s with
    running := running
    uploads := s.uploads ++ [⟨conversationId, claimLiveCapture, files, s.wals, s.uploadedUnclaimed⟩] }

/-- One turn of the loop of `_syncAll`, up to the upload. -/
def sendBatch (s : LocalWalSync) (d : Drain) (batch : Tracked) (absent : List Nat) : LocalWalSync :=
  if s.isCancelled then { s with running := .idle }
  else
    let usable := batchWals batch absent
    let next := s.markAbsent batch absent
    let d' := s.attempted d batch
    if usable = [] then { next with running := .drain d' }
    else
      next.send (.uploadingBatch d' (usable.map Prod.fst) (s.claimsLiveCapture d batch)) (batchConversationId usable)
        (s.claimsLiveCapture d batch) (usable.map Prod.fst)

def nextBatch (s : LocalWalSync) (d : Drain) (ordered : Tracked) (absent : List Nat) : Option LocalWalSync :=
  if s.pending d = [] then some { s with running := .idle }
  else if ordered.Perm (s.pending d) ∧ ordered.Pairwise (fun a b => b.2.timerStart ≤ a.2.timerStart) then
    some (s.sendBatch d (nextSyncUploadBatch ordered) absent)
  else none

/-- The claim of `syncWal`. -/
def claimsWal (s : LocalWalSync) (object : Nat) (walToSync : Wal) : Bool :=
  canClaimLiveCapture [(object, walToSync)]
    (s.wals.filter fun e => e.2.status == .miss && decide (e.2.conversationId = walToSync.conversationId)) s.nowSeconds

def syncWal (s : LocalWalSync) (object : Nat) (absent : List Nat) : LocalWalSync :=
  let s := s.flush
  match Dict.get s.wals object with
  | none => s
  | some walToSync =>
      if walToSync.filePath.isSome && decide (object ∉ absent) then
        s.send (.uploadingWal object (s.claimsWal object walToSync)) walToSync.conversationId
          (s.claimsWal object walToSync) [object]
      else s.change [object] Wal.markCorrupted

/-- `_retireOutsideRecoveryWindow`. -/
def retireOutsideRecoveryWindow (s : LocalWalSync) (rejectedBatch : List Nat) : LocalWalSync :=
  match ((s.wals.filter fun e => decide (e.1 ∈ rejectedBatch)).map fun e => e.2.timerStart).min? with
  | none => s
  | some provenTooOld =>
      { s with wals := s.wals.map fun e =>
          if e.2.status = .miss ∧ e.2.storage = .disk ∧ e.2.timerStart ≤ provenTooOld then
            (e.1, e.2.markOutsideRecoveryWindow)
          else e }

/-- The recordings of an upload that the server took. -/
def accept (s : LocalWalSync) (files : List Nat) (claimLiveCapture : Bool) (f : Wal → Wal) : LocalWalSync :=
  { s.change files f with
    uploadedUnclaimed := if claimLiveCapture then s.uploadedUnclaimed else s.uploadedUnclaimed ++ files }

/-- The answer to an upload; `next` is what a drain goes on with. -/
def answered (s : LocalWalSync) (files : List Nat) (claimLiveCapture : Bool) (next : Running) :
    UploadResult → LocalWalSync
  | .completed => { s.accept files claimLiveCapture (fun w => { w with status := .synced }) with running := next }
  | .queued jobId =>
      { s.accept files claimLiveCapture
          (fun w => { w with status := .uploaded, jobId := some jobId, uploadedAt := s.nowSeconds }) with
        running := next }
  | .rateLimited | .quarantined => { s with running := .idle }
  | .recoveryWindowExceeded => { s.retireOutsideRecoveryWindow files with running := next }
  | .failed => { s with running := next }

end LocalWalSync

open LocalWalSync

def act (s : LocalWalSync) : Action → Option LocalWalSync
  | .captured wal =>
      some { s with wals := s.wals ++ [(s.nextObject, wal)], nextObject := s.nextObject + 1 }
  | .flush => some s.flush
  | .stampConversationId sessionStartSeconds conversationId =>
      some (s.stampConversationId sessionStartSeconds conversationId)
  | .cancelSync => some { s with isCancelled := true }
  | .wait seconds => some { s with nowSeconds := s.nowSeconds + seconds }
  | .syncAll liveCaptureOnly isLimited =>
      if s.running = .idle then some (s.beginSyncAll liveCaptureOnly isLimited) else none
  | .nextBatch ordered absent =>
      match s.running with
      | .drain d => s.nextBatch d ordered absent
      | _ => none
  | .syncWal wal absent => if s.running = .idle then some (s.syncWal wal absent) else none
  | .answered result =>
      match s.running with
      | .uploadingBatch d batchWals claimLiveCapture =>
          some (s.answered batchWals claimLiveCapture (.drain d) result)
      | .uploadingWal walToSync claimLiveCapture => some (s.answered [walToSync] claimLiveCapture .idle result)
      | _ => none

/-! ## The condition -/

/-- Whenever a conversation is claimed, none of its recordings is overlooked: in a drain each one that is not
corrupted is a candidate, in `syncWal` it is `miss`, as is the one that is sent. -/
def Action.Steady (s : LocalWalSync) : Action → Prop
  | .nextBatch ordered _ => ∀ d, s.running = .drain d → s.claimsLiveCapture d (nextSyncUploadBatch ordered) = true →
      ∀ e ∈ s.wals, e.2.conversationId = batchConversationId (nextSyncUploadBatch ordered) →
        e.2.status = .corrupted ∨ e ∈ s.candidates d
  | .syncWal object _ => ∀ walToSync, Dict.get s.flush.wals object = some walToSync →
      s.flush.claimsWal object walToSync = true → walToSync.status = .miss ∧
        ∀ e ∈ s.wals, e.2.conversationId = walToSync.conversationId → e.2.status = .corrupted ∨ e.2.status = .miss
  | _ => True

/-- No upload yet, and any recordings. -/
def Fresh (s : LocalWalSync) : Prop :=
  (Dict.keys s.wals).Nodup ∧ (∀ k ∈ Dict.keys s.wals, k < s.nextObject) ∧ s.running = .idle ∧ s.uploads = [] ∧
    s.uploadedUnclaimed = []

abbrev ReachedSteady : LocalWalSync → Prop :=
  Transition.Reachable Fresh fun s a t => a.Steady s ∧ act s a = some t

/-- A claimed upload holds every recording then stamped with its conversation that is not corrupted, and none of
these was uploaded before in an unclaimed batch. -/
def Upload.CoversConversation (u : Upload) : Prop :=
  u.claimLiveCapture = true → ∀ c, u.conversationId = some c → ∀ e ∈ u.tracked, e.2.conversationId = some c →
    e.2.status ≠ .corrupted → e.1 ∈ u.files ∧ e.1 ∉ u.uploadedUnclaimed

end OmiLocal.Wals.Phone
