import OmiLocal.Lib.Transition
import Mathlib.Data.List.Perm.Basic

/-!
# Deleting files on the device

`StorageSyncImpl` beside the device whose files it deletes by number. The device
keeps its files in order and renumbers them after each delete; the app keeps one
`Wal` object for each file it has listed and renumbers these itself, in three
places. Objects are shared by reference, so the model has a heap of them. The
operations come one after the other, while the device may append files at any
time. `List.sort` of Dart is not stable: an action carries the sorted order.
-/
namespace OmiLocal.Wals
open Lib.Transition

inductive WalStatus where
  | inProgress
  | miss
  | uploaded
  | synced
  | corrupted
  | outsideRecoveryWindow
  deriving DecidableEq

inductive WalStorage where
  | mem
  | disk
  | sdcard
  | flashPage
  deriving DecidableEq

/-- A file on the device. `key` tells files apart, whatever their number is. -/
structure DeviceFile where
  key : Nat
  timestamp : Nat
  sizeBytes : Nat
  deriving DecidableEq

/-- The fields of a `Wal` that the operations read. The last three are recorded for the statements: the file it was
built from; that `syncAll` has deleted this file or, while it did not list this object, a file below it; and that its
last transfer was not complete. -/
structure Wal where
  device : String
  timerStart : Nat
  status : WalStatus
  storage : WalStorage
  fileNum : Int
  origin : Option Nat
  outdated : Bool
  unfinished : Bool
  deriving DecidableEq

def Wal.id (w : Wal) : String := w.device ++ "_" ++ toString w.timerStart

inductive Caller where
  | syncAll
  | deleteWal (id : String)
  | deleteAllSyncedWals
  | deleteAllPendingWals
  deriving DecidableEq

/-- What stays in `_wals` at the end of the operation. -/
def Caller.keeps : Caller → Wal → Bool
  | .syncAll, _ => true
  | .deleteWal id, w => w.id != id
  | .deleteAllSyncedWals, w => w.status != .synced
  | .deleteAllPendingWals, w => w.status != .miss

/-- One `deleteStorageFile` call: the file its `Wal` was built from, the file that had the number, the outcome. -/
structure Sent where
  caller : Caller
  origin : Option Nat
  hit : Option Nat
  done : Bool
  deriving DecidableEq

/-- The operation that is running. -/
inductive Task where
  | sync (wals : List Nat) (i : Nat) (transferred : Bool)
  | delete (caller : Caller) (deletedIds : List String) (targets : List Nat)
  deriving DecidableEq

structure StorageSync where
  files : List DeviceFile
  nextKey : Nat
  objects : List Wal
  wals : List Nat
  task : Option Task
  downloaded : List Nat
  sent : List Sent
  deriving DecidableEq

def emptyStorage : StorageSync := ⟨[], 0, [], [], none, [], []⟩

/-! ## The device -/

def fileAt (files : List DeviceFile) (n : Int) : Option DeviceFile := if 0 ≤ n then files[n.toNat]? else none

/-- A successful delete: the files above move down by one. -/
def removeAt (files : List DeviceFile) (n : Int) : List DeviceFile := if 0 ≤ n then files.eraseIdx n.toNat else files

/-! ## Operations -/

inductive Transfer where
  | throws
  | incomplete
  | complete

/-- The outcome of a delete; `unsent` stands for a missing connection. -/
inductive Delete where
  | unsent
  | throws
  | returned (ok : Bool)

inductive StorageAction where
  | append (timestamp sizeBytes : Nat)
  | foreign (wal : Wal)
  | refreshFails
  | refreshEmpty
  | refresh (fps frameLength : Nat) (order : List Nat)
  | syncAll (order : List Nat)
  | stopSync
  | transfer (outcome : Transfer)
  | deleteTransferred (outcome : Delete)
  | deleteWal (ref : Nat) (connected : Bool)
  | deleteAllSyncedWals (connected : Bool) (order : List Nat)
  | deleteAllPendingWals (connected : Bool) (order : List Nat)
  | deleteNext (outcome : Delete)
  | finishDelete

/-- `(file.sizeBytes / frameLen) ~/ fps`. -/
def seconds (fps frameLength sizeBytes : Nat) : Nat :=
  if 0 < fps ∧ 0 < frameLength then sizeBytes / frameLength / fps else 0

/-- The objects that `refreshWalsFromDevice` builds from a listing. -/
def listed (deviceId : String) (fps frameLength : Nat) (files : List DeviceFile) : List Wal :=
  files.zipIdx.filterMap fun (file, index) =>
    if file.sizeBytes = 0 ∨ seconds fps frameLength file.sizeBytes < 10 then none
    else some ⟨deviceId, file.timestamp, .miss, .sdcard, index, some file.key, false, false⟩

namespace StorageSync

def select (s : StorageSync) (p : Wal → Bool) : List Nat := s.wals.filter fun ref => (s.objects[ref]?).any p

def timerStart (objects : List Wal) (ref : Nat) : Nat := (objects[ref]?.map Wal.timerStart).getD 0

def fileNum (objects : List Wal) (ref : Nat) : Int := (objects[ref]?.map Wal.fileNum).getD 0

def change (s : StorageSync) (ref : Nat) (f : Wal → Wal) : StorageSync := { s with objects := s.objects.modify ref f }

/-- `fileNum -= 1` for the objects above the deleted number that the loop reaches. -/
def renumber (s : StorageSync) (n : Int) (reached : Nat → Wal → Bool) : StorageSync :=
  { s with objects := s.objects.mapIdx fun ref w =>
      if reached ref w && decide (n < w.fileNum) then { w with fileNum := w.fileNum - 1 } else w }

/-- Recorded when `syncAll` has deleted a file: its object stays in the list, and the loop does not reach every
object above it. -/
def outdate (s : StorageSync) (n : Int) (deleted : Nat) (reached : Nat → Bool) : StorageSync :=
  { s with objects := s.objects.mapIdx fun ref w =>
      if ref = deleted ∨ (reached ref = false ∧ n < w.fileNum) then { w with outdated := true } else w }

/-- The command goes out for the object's number. -/
def send (s : StorageSync) (caller : Caller) (w : Wal) (ok : Bool) : StorageSync :=
  { s with
    files := if ok then removeAt s.files w.fileNum else s.files
    sent := s.sent ++ [⟨caller, w.origin, (fileAt s.files w.fileNum).map DeviceFile.key, ok⟩] }

/-- After a successful delete in `_deleteWalsOnDevice`. -/
def shiftListed (s : StorageSync) (deletedIds : List String) (n : Int) : StorageSync :=
  s.renumber n fun ref w => decide (ref ∈ s.wals) && decide (w.id ∉ deletedIds)

/-- After a delete in `syncAll`, whatever it returned. -/
def shiftSynced (s : StorageSync) (wals : List Nat) (i : Nat) (n : Int) : StorageSync :=
  s.renumber n fun ref _ => decide (ref ∈ wals.eraseIdx i)

/-- One turn of the loop of `_deleteWalsOnDevice`; an exception is handled like `false`. -/
def deleteTarget (s : StorageSync) (caller : Caller) (deletedIds : List String) (rest : List Nat) (w : Wal) (ok : Bool) :
    StorageSync :=
  let next := { s with task := some (.delete caller deletedIds rest) }
  if ok then (next.send caller w true).shiftListed deletedIds w.fileNum else next.send caller w false

/-- The delete after a complete transfer, when `deleteStorageFile` returns. -/
def deleteSynced (s : StorageSync) (wals : List Nat) (i ref : Nat) (w : Wal) (ok : Bool) : StorageSync :=
  let next := { s with task := some (.sync wals (i + 1) false) }
  if ok then
    ((next.send .syncAll w true).outdate w.fileNum ref fun other => decide (other ∈ wals.eraseIdx i)).shiftSynced wals i
      w.fileNum
  else (next.send .syncAll w false).shiftSynced wals i w.fileNum

/-- `_deleteWalsOnDevice` up to its loop. -/
def startDelete (s : StorageSync) (caller : Caller) (refs : List Nat) (connected : Bool) (order : List Nat) :
    Option StorageSync :=
  let targets := refs.filter fun ref => (s.objects[ref]?).any fun w => decide (0 ≤ w.fileNum)
  if s.task = none ∧ order.Perm (if connected then targets else []) ∧
      order.Pairwise (fun a b => fileNum s.objects b ≤ fileNum s.objects a) then
    some { s with task := some (.delete caller (order.filterMap fun ref => (s.objects[ref]?).map Wal.id) order) }
  else none

/-- Keep what the finished operation does not drop. -/
def drop (s : StorageSync) (caller : Caller) : StorageSync :=
  { s with wals := s.select caller.keeps, task := none }

end StorageSync

open StorageSync

def act (deviceId : String) (s : StorageSync) : StorageAction → Option StorageSync
  | .append timestamp sizeBytes =>
      some { s with files := s.files ++ [⟨s.nextKey, timestamp, sizeBytes⟩], nextKey := s.nextKey + 1 }
  | .foreign wal =>
      let other := { wal with origin := none, outdated := false, unfinished := false }
      some { s with objects := s.objects ++ [other] }
  | .refreshFails => some s
  | .refreshEmpty => if s.task = none then some { s with wals := [] } else none
  | .refresh fps frameLength order =>
      let built := listed deviceId fps frameLength s.files
      let objects := s.objects ++ built
      if s.task = none ∧ order.Perm (List.range' s.objects.length built.length) ∧
          order.Pairwise (fun a b => timerStart objects a ≤ timerStart objects b) then
        some { s with objects := objects, wals := order }
      else none
  | .syncAll order =>
      if s.task = none ∧ order.Perm (s.select fun w => w.status == .miss && w.storage == .sdcard) ∧
          order.Pairwise (fun a b => timerStart s.objects a ≤ timerStart s.objects b) then
        some { s with task := if order = [] then none else some (.sync order 0 false) }
      else none
  | .stopSync =>
      match s.task with
      | some (.sync _ _ false) => some { s with task := none }
      | _ => none
  | .transfer outcome =>
      match s.task with
      | some (.sync wals i false) =>
          match wals[i]? with
          | none => none
          | some ref =>
              match s.objects[ref]? with
              | none => none
              | some w =>
                  match outcome with
                  | .throws => some { s with task := none }
                  | .incomplete =>
                      some { s.change ref fun w => { w with status := .synced, unfinished := true } with task := none }
                  | .complete =>
                      some { s.change ref fun w => { w with status := .synced, unfinished := false } with
                        task := some (.sync wals i true)
                        downloaded := s.downloaded ++ ((fileAt s.files w.fileNum).map DeviceFile.key).toList }
      | _ => none
  | .deleteTransferred outcome =>
      match s.task with
      | some (.sync wals i true) =>
          match wals[i]? with
          | none => none
          | some ref =>
              match s.objects[ref]? with
              | none => none
              | some w =>
                  let next := { s with task := some (.sync wals (i + 1) false) }
                  if w.fileNum < 0 then some next
                  else
                    match outcome with
                    | .unsent => some next
                    | .throws => some (next.send .syncAll w false)
                    | .returned ok => some (s.deleteSynced wals i ref w ok)
      | _ => none
  | .deleteWal ref connected =>
      match s.objects[ref]? with
      | none => none
      | some w =>
          let order := if connected ∧ 0 ≤ w.fileNum then [ref] else []
          s.startDelete (.deleteWal w.id) [ref] connected order
  | .deleteAllSyncedWals connected order =>
      s.startDelete .deleteAllSyncedWals (s.select fun w => w.status == .synced) connected order
  | .deleteAllPendingWals connected order =>
      s.startDelete .deleteAllPendingWals (s.select fun w => w.status == .miss) connected order
  | .deleteNext outcome =>
      match s.task with
      | some (.delete caller deletedIds (ref :: rest)) =>
          match s.objects[ref]? with
          | none => none
          | some w =>
              match outcome with
              | .unsent => none
              | .throws => some (s.deleteTarget caller deletedIds rest w false)
              | .returned ok => some (s.deleteTarget caller deletedIds rest w ok)
      | _ => none
  | .finishDelete =>
      match s.task with
      | some (.delete caller _ []) => some (s.drop caller)
      | _ => none

/-! ## The condition -/

/-- No object that stays in the list has the id of one with status `st`, unless its number is not above any of
theirs: the loop skips it by its id. -/
def Apart (s : StorageSync) (st : WalStatus) : Prop :=
  ∀ ref ∈ s.wals, ∀ w, s.objects[ref]? = some w → w.outdated = false → w.status ≠ st →
    (∃ other ∈ s.wals, ∃ v, s.objects[other]? = some v ∧ v.status = st ∧ v.id = w.id) →
    ∀ target ∈ s.wals, ∀ v, s.objects[target]? = some v → v.status = st → w.fileNum ≤ v.fileNum

/-- What a step must respect so that no number goes wrong. -/
def Careful (s : StorageSync) : StorageAction → Prop
  | .deleteTransferred (.returned false) => ∀ wals i ref w, s.task = some (.sync wals i true) → wals[i]? = some ref →
      s.objects[ref]? = some w → ∀ other ∈ wals.eraseIdx i, ∀ v, s.objects[other]? = some v → v.outdated = false →
      v.fileNum ≤ w.fileNum
  | .deleteWal ref true => ref ∈ s.wals ∧ ∀ w, s.objects[ref]? = some w → w.outdated = false
  | .deleteAllSyncedWals true _ => (∀ ref ∈ s.wals, ∀ w, s.objects[ref]? = some w → w.status = .synced →
      w.outdated = false ∧ w.unfinished = false) ∧ Apart s .synced
  | .deleteAllPendingWals true _ => Apart s .miss
  | _ => True

def storageStep (deviceId : String) (s : StorageSync) (a : StorageAction) (t : StorageSync) : Prop :=
  act deviceId s a = some t

def carefulStep (deviceId : String) (s : StorageSync) (a : StorageAction) (t : StorageSync) : Prop :=
  act deviceId s a = some t ∧ Careful s a

end OmiLocal.Wals
