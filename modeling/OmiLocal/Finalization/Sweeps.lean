import OmiLocal.Finalization.Jobs
import OmiLocal.Lib.Keyset
import OmiLocal.Lib.Loop
import OmiLocal.Lib.Window

/-!
# Recovery sweeps

Stale conversations, meetings without a receipt and abandoned jobs are looked for
page by page, a bounded number of rows at a time. A call says which rows to recover
and where the next call goes on. What it looks at is a window of the rows behind its
cursor; it may say too early that it has come to the end.
-/
namespace OmiLocal.Finalization
open Lib Lib.Loop Lib.Window

/-! ## Documents -/

/-- A value in a document. A double that is not a finite number is `none`. -/
inductive Field where
  | null
  | bool (b : Bool)
  | int (n : Int)
  | double (q : Option ℚ)
  | text (s : String)
  | timestamp (at_ : Instant)
  | bytes (data : List UInt8)
  | reference (path : String)
  | geoPoint (latitude longitude : ℚ)
  | array (items : List Field)
  | map (entries : List (String × Field))

abbrev Fields := List (String × Field)

def Field.truthy : Field → Bool
  | .null => false
  | .bool b => b
  | .int n => n != 0
  | .double q => q != some 0
  | .text s => s != ""
  | .bytes data => !data.isEmpty
  | .array items => !items.isEmpty
  | .map entries => !entries.isEmpty
  | .timestamp _ | .reference _ | .geoPoint _ _ => true

/-- Nothing but the text itself is equal to a text, or written like a status. -/
def Field.reads (word : String) : Field → Bool
  | .text s => s == word
  | _ => false

def Field.instant : Field → Option Instant
  | .timestamp at_ => some at_
  | _ => none

def Fields.truthy (data : Fields) (key : String) : Bool := (Dict.get data key).any Field.truthy

def Fields.reads (data : Fields) (key word : String) : Bool := (Dict.get data key).any (Field.reads word)

def Fields.instant (data : Fields) (key : String) : Option Instant := (Dict.get data key).bind Field.instant

/-- A snapshot that a query returns. -/
structure Row where
  path : String
  id : String
  data : Fields

def conversationsCollection : String := "conversations"
def finalizationJobsCollection : String := "conversation_finalization_jobs"

def uidFromConversationPath (path : String) : Option String :=
  match path.toList.splitOn '/' with
  | [users, uid, collection, _] =>
      if users = "users".toList ∧ collection = conversationsCollection.toList then some (String.ofList uid) else none
  | _ => none

/-! ## What is recovered -/

structure OrphanCandidate where
  uid : String
  conversationId : String
  processingAdmittedAt : Option Instant
  legacy : Bool

def orphanCandidate (cutoff : Instant) (row : Row) : Option OrphanCandidate := do
  let uid ← uidFromConversationPath row.path
  if Fields.truthy row.data "deferred" || Fields.truthy row.data "finalization_job_id" then none
  else
    match Fields.instant row.data "processing_admitted_at" with
    | some admittedAt => if cutoff < admittedAt then none else some ⟨uid, row.id, some admittedAt, false⟩
    | none => some ⟨uid, row.id, none, true⟩

structure MeetingCandidate where
  uid : String
  conversationId : String
  conversation : Fields

/-- `external_data or {}` is a mapping with this role. -/
def Field.isMeeting : Field → Bool
  | .map entries => Fields.reads entries "conversation_role" "meeting"
  | _ => false

def meetingCandidate (row : Row) : Option MeetingCandidate := do
  let uid ← uidFromConversationPath row.path
  if !Fields.reads row.data "source" "desktop" || !(Dict.get row.data "external_data").any Field.isMeeting ||
      Fields.truthy row.data "meeting_treatment_reason" then none
  else some ⟨uid, row.id, Dict.put row.data "id" (.text row.id)⟩

def jobLastActivityAt (job : Fields) : Option Instant :=
  (Fields.instant job "updated_at").or (Fields.instant job "created_at")

def byokCandidate (now cutoff : Instant) (row : Row) : Option Fields :=
  if !Fields.reads row.data "status" "queued" && !Fields.reads row.data "status" "leased" then none
  else if Fields.reads row.data "status" "leased" && (Fields.instant row.data "lease_expires_at").any (now < ·) then none
  else
    match jobLastActivityAt row.data with
    | none => none
    | some lastActivity =>
        if cutoff < lastActivity then none
        else some (Dict.put (Dict.put row.data "job_id" (.text row.id)) "last_activity_at" (.timestamp lastActivity))

def byokPath (row : Row) : String := if row.path = "" then finalizationJobsCollection ++ "/" ++ row.id else row.path

/-! ## The scan -/

/-- What a query matches, in its order, and the documents that exist. -/
structure Collection (κ : Type) [LinearOrder κ] where
  rows : List Row
  place : Row → κ
  document : String → Option Row
  ordered : rows.Pairwise fun a b => place a < place b
  kept : ∀ row ∈ rows, row.path ≠ "" ∧ document row.path = some row

variable {κ : Type} [LinearOrder κ] {C : Type}

/-- `resume_after_path` as the snapshot to start after. -/
def Collection.cursorSnapshot (c : Collection κ) (resumeAfterPath : Option String) : Option Row :=
  resumeAfterPath.bind fun path => if path = "" then none else c.document path

/-- What the query returns behind a snapshot. -/
def Collection.startAfter (c : Collection κ) (cursor : Option Row) : List Row :=
  Keyset.behind c.place c.rows (cursor.map c.place)

/-- The rows behind a cursor. -/
def Collection.rowsAfter (c : Collection κ) (resumeAfterPath : Option String) : List Row :=
  c.startAfter (c.cursorSnapshot resumeAfterPath)

/-- `examined` is kept for the record only: the rows whose turn has come. -/
structure Scan (C : Type) where
  collected : List C
  scanned : Nat
  lastPath : Option String
  exhausted : Bool
  cursorSnapshot : Option Row
  examined : List Row

structure SweepResult (C : Type) where
  candidates : List C
  resumeAfterPath : Option String
  exhausted : Bool
  examined : List Row

def pageSize (limit : Nat) : Nat := max 1 (min limit 100)

section Code

variable (candidate : Row → Option C) (path : Row → String) (limit maxScan : Nat)

/-- The loop over the rows of a page, with its two ways out. -/
def examinePage : List Row → Scan C → Scan C
  | [], s => s
  | row :: rest, s =>
      let s := { s with scanned := s.scanned + 1 }
      if maxScan < s.scanned then s
      else
        let s := { s with lastPath := some (path row), examined := s.examined ++ [row] }
        match candidate row with
        | none => examinePage rest s
        | some found =>
            let s := { s with collected := s.collected ++ [found] }
            if limit ≤ s.collected.length then s else examinePage rest s

/-- One pass of the loop over the pages. -/
def passPage (c : Collection κ) (s : Scan C) : Option (Turn (Scan C) (Scan C)) :=
  if s.collected.length < limit ∧ s.scanned < maxScan then
    let page := (c.startAfter s.cursorSnapshot).take (pageSize limit)
    if page.isEmpty then some (.leave { s with exhausted := true })
    else
      let s := examinePage candidate path limit maxScan page s
      if maxScan < s.scanned then some (.leave s)
      else if page.length < pageSize limit then some (.leave { s with exhausted := true })
      else some (.again { s with cursorSnapshot := page.getLast? })
  else some (.leave s)

def startScan (c : Collection κ) (resumeAfterPath : Option String) : Scan C where
  collected := []
  scanned := 0
  lastPath := none
  exhausted := false
  cursorSnapshot := c.cursorSnapshot resumeAfterPath
  examined := []

/-- The three sweeps. Each pass examines a row, so `max_scan + 1` passes are enough. -/
def sweepRows (c : Collection κ) (resumeAfterPath : Option String) : Option (SweepResult C) :=
  (run (passPage candidate path limit maxScan c) (maxScan + 1) (startScan c resumeAfterPath)).map fun s =>
    { candidates := s.collected
      resumeAfterPath := if s.exhausted then none else s.lastPath
      exhausted := s.exhausted
      examined := s.examined }

end Code

def getStaleProcessingOrphanCandidates (c : Collection κ) (staleAfter : Instant) (limit maxScan : Nat) (now : Instant)
    (resumeAfterPath : Option String) : Option (SweepResult OrphanCandidate) :=
  sweepRows (orphanCandidate (now - staleAfter)) Row.path limit maxScan c resumeAfterPath

def getMeetingReceiptBackfillCandidates (c : Collection κ) (limit maxScan : Nat) (resumeAfterPath : Option String) :
    Option (SweepResult MeetingCandidate) :=
  sweepRows meetingCandidate Row.path limit maxScan c resumeAfterPath

def getAbandonedByokJobCandidates (c : Collection κ) (abandonedAfter : Instant) (limit maxScan : Nat) (now : Instant)
    (resumeAfterPath : Option String) : Option (SweepResult Fields) :=
  sweepRows (byokCandidate now (now - abandonedAfter)) byokPath limit maxScan c resumeAfterPath

/-! ## The kept cursor -/

structure SweepCursor where
  resumeAfterPath : Option String
  generation : Int
  updatedAt : Instant

/-- The path and the generation that a reader must hold to advance the cursor. -/
def getStaleProcessingSweepCursor (document : Option SweepCursor) : Option String × Int :=
  match document with
  | none => (none, 0)
  | some data => (data.resumeAfterPath, data.generation)

/-- Whether the cursor was advanced, and the document after it. -/
def advanceStaleProcessingSweepCursorTxn (document : Option SweepCursor) (expectedGeneration : Int)
    (newResumeAfterPath : Option String) (now : Instant) : Bool × Option SweepCursor :=
  let currentGeneration := (getStaleProcessingSweepCursor document).2
  if currentGeneration ≠ expectedGeneration then (false, document)
  else (true, some ⟨newResumeAfterPath, currentGeneration + 1, now⟩)

end OmiLocal.Finalization
