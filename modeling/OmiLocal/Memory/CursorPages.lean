import OmiLocal.Memory.CursorStreams
import OmiLocal.Memory.LineageViews

/-!
# Cursor pages

`MemoryService.read_page` merges the canonical scan with the two historical ones
and writes the three positions into the cursor. The cursor is given as the state
that its signed text holds. Budgets and counters are left out, and each row keeps
its origin beside it.
-/
namespace OmiLocal.Memory

open Lib Lib.Text Lib.Values

/-! ## The canonical stream -/

structure CanonicalCursorStream where
  emittedKeyset : Option StreamKeyset
  stream : CursorStream MemoryDB

/-- A row at or before the last one that was emitted. -/
def alreadyEmitted (emitted : Option StreamKeyset) (memory : MemoryDB) : Bool :=
  emitted.any fun keyset => decide (memoryCursorSortKey memory ≤ keysetSortKey keyset)

def CanonicalCursorStream.peek (read : ScanReader MemoryDB) (passes : Nat) (c : CanonicalCursorStream) :
    Reading (Option MemoryDB × CanonicalCursorStream) := do
  let (memory, stream) ← c.stream.peek read (alreadyEmitted c.emittedKeyset) passes
  return (memory, { c with stream })

def CanonicalCursorStream.consume (c : CanonicalCursorStream) : Except String CanonicalCursorStream := do
  let stream ← c.stream.consume
  return ⟨c.stream.peeked.map fun p => memoryKeyset p.1, stream⟩

/-! ## The historical streams -/

/-- A record of a chunk, with its status in the batch that was read for the chunk. -/
abbrev HistoricalRecord := MemoryDB × Option MemoryItemStatus

def suppressedHistorical (record : HistoricalRecord) : Bool := (historicalSuppressionReason record.2).isSome

structure HistoricalCursorStream where
  consumedKeyset : Option StreamKeyset
  updated : CursorStream HistoricalRecord
  created : CursorStream HistoricalRecord
  peekSource : Option OrderField

structure Readers where
  canonical : ScanReader MemoryDB
  updated : ScanReader HistoricalRecord
  created : ScanReader HistoricalRecord

section Historical
variable (readers : Readers) (passes : Nat)

def peekHistorical (updatedMemory createdMemory : Option MemoryDB) : Option (OrderField × MemoryDB) :=
  match updatedMemory, createdMemory with
  | none, none => none
  | some updated, none => some (.updatedAt, updated)
  | none, some created => some (.createdAt, created)
  | some updated, some created =>
      if memoryCursorSortKey updated ≤ memoryCursorSortKey created then some (.updatedAt, updated) else some (.createdAt, created)

def HistoricalCursorStream.peek (h : HistoricalCursorStream) : Reading (Option MemoryDB × HistoricalCursorStream) := do
  let (updatedMemory, updated) ← h.updated.peek readers.updated suppressedHistorical passes
  let (createdMemory, created) ← h.created.peek readers.created suppressedHistorical passes
  let taken := peekHistorical (updatedMemory.map Prod.fst) (createdMemory.map Prod.fst)
  return (taken.map Prod.snd, { h with updated := updated, created := created, peekSource := taken.map Prod.fst })

def HistoricalCursorStream.consume (h : HistoricalCursorStream) : Reading HistoricalCursorStream :=
  match h.peekSource with
  | none => throw "historical cursor stream consume without peek"
  | some .updatedAt => do
      let (memory, updated) ← h.updated.peek readers.updated suppressedHistorical passes
      return { h with
        consumedKeyset := (memory.map fun p => memoryKeyset p.1).or h.consumedKeyset
        updated := ← updated.consume
        peekSource := none }
  | some .createdAt => do
      let (memory, created) ← h.created.peek readers.created suppressedHistorical passes
      return { h with
        consumedKeyset := (memory.map fun p => memoryKeyset p.1).or h.consumedKeyset
        created := ← created.consume
        peekSource := none }

end Historical

/-! ## The merge -/

inductive Origin where
  | canonical
  | historical
deriving DecidableEq

/-- A row of a page. -/
structure Row where
  origin : Origin
  memory : MemoryDB
deriving DecidableEq

structure PageState where
  canonical : CanonicalCursorStream
  historical : HistoricalCursorStream

def nextRow (canonicalMemory historicalMemory : Option MemoryDB) : Option Row :=
  match canonicalMemory, historicalMemory with
  | none, none => none
  | some canonical, none => some ⟨.canonical, canonical⟩
  | none, some historical => some ⟨.historical, historical⟩
  | some canonical, some historical =>
      if memoryCursorSortKey canonical ≤ memoryCursorSortKey historical then some ⟨.canonical, canonical⟩
      else some ⟨.historical, historical⟩

/-- The loop of `read_page` for as many rows as there is room. -/
def mergePage (readers : Readers) (passes : Nat) : Nat → PageState → Reading (List Row × PageState)
  | 0, s => return ([], s)
  | room + 1, s => do
      let (canonicalMemory, canonical) ← s.canonical.peek readers.canonical passes
      let (historicalMemory, historical) ← s.historical.peek readers passes
      match nextRow canonicalMemory historicalMemory with
      | none => return ([], ⟨canonical, historical⟩)
      | some ⟨.canonical, memory⟩ =>
          let canonical ← canonical.consume
          let (rows, s) ← mergePage readers passes room ⟨canonical, historical⟩
          return (⟨.canonical, memory⟩ :: rows, s)
      | some ⟨.historical, memory⟩ =>
          let historical ← historical.consume readers passes
          let (rows, s) ← mergePage readers passes room ⟨canonical, historical⟩
          return (⟨.historical, memory⟩ :: rows, s)

/-! ## The cursor -/

structure UniversalListCursorState where
  includeArchive : Bool
  includePendingProcessing : Bool
  deviceScope : String
  clientDeviceId : Option String
  canonical : Option StreamKeyset
  canonicalScan : Option StreamKeyset
  historical : Option StreamKeyset
  historicalUpdatedScan : Option StreamKeyset
  historicalCreatedScan : Option StreamKeyset
  canonicalExhausted : Bool
  historicalUpdatedExhausted : Bool
  historicalCreatedExhausted : Bool
deriving DecidableEq

def ListRequest.deviceScope (request : ListRequest) : String := (request.deviceScopeRequest.map (·.deviceScope)).getD "all"

def ListRequest.clientDeviceId (request : ListRequest) : Option String := request.deviceScopeRequest.bind (·.clientDeviceId)

/-- The state of the first page. -/
def UniversalListCursorState.first (request : ListRequest) : UniversalListCursorState :=
  ⟨request.includeArchive, request.includePendingProcessing, request.deviceScope, request.clientDeviceId, none, none, none, none,
    none, false, false, false⟩

/-- `_parse_keyset` -/
def parsesKeyset (keyset : Option StreamKeyset) : Bool := keyset.all fun k => decide (0 ≤ k.updatedAtUs) && !blank k.memoryId

/-- `decode_universal_list_cursor`, apart from the signature and the expiry. -/
def UniversalListCursorState.decode (state : UniversalListCursorState) (request : ListRequest) :
    Except String UniversalListCursorState :=
  if !(parsesKeyset state.canonical && parsesKeyset state.canonicalScan && parsesKeyset state.historical &&
      parsesKeyset state.historicalUpdatedScan && parsesKeyset state.historicalCreatedScan) then
    throw "malformed_cursor"
  else if state.includeArchive ≠ request.includeArchive then throw "include_archive_mismatch"
  else if state.includePendingProcessing ≠ request.includePendingProcessing then throw "include_pending_processing_mismatch"
  else if state.deviceScope ≠ request.deviceScope then throw "device_scope_mismatch"
  else if state.clientDeviceId.filter (· ≠ "") ≠ request.clientDeviceId.filter (· ≠ "") then throw "device_scope_mismatch"
  else return state

/-- The state a page starts from. -/
def openCursor (request : ListRequest) : Option UniversalListCursorState → Except String UniversalListCursorState
  | none => .ok (.first request)
  | some token =>
      match token.decode request with
      | .error reason => .error ("invalid_or_stale_cursor:" ++ reason)
      | .ok state => .ok state

/-! ## The page -/

section Page
variable (timestamp : DateTime → ℚ) (decode : Entries → Option MemoryFields)

/-- The canonical stream asks for its chunks without `include_archive`. -/
def canonicalReader (account : Account) (request : ListRequest) : ScanReader MemoryDB := fun startAfter =>
  match readCanonicalScanPage timestamp account.items { request with includeArchive := false } memoryListScanChunkSize startAfter with
  | .error _ => throw "Canonical memory unavailable"
  | .ok (slots, exhausted) =>
      return (slots.map fun slot => (slot.1.map fun item => truncateLockedMemoryPreview (memoryItemToMemorydb item), slot.2),
        exhausted)

def historicalReader (orderField : OrderField) (account : Account) (request : ListRequest) : ScanReader HistoricalRecord :=
  fun startAfter => do
    let (slots, exhausted) ←
      orderField.readScanPage decode account.documents request.deviceScopeRequest memoryListScanChunkSize startAfter
    let visibleIds := slots.filterMap fun slot => slot.1.map (·.id)
    let statuses := if visibleIds.isEmpty then [] else account.canonicalStatuses visibleIds
    return (slots.map fun slot =>
      (slot.1.map fun memory => (truncateLockedMemoryPreview memory, Dict.get statuses memory.id), slot.2), exhausted)

def readers (account : Account) (request : ListRequest) : Readers :=
  ⟨canonicalReader timestamp account request, historicalReader decode .updatedAt account request,
    historicalReader decode .createdAt account request⟩

/-- `exhausted and peek() is None` -/
def CursorStream.exhaustedNow {β : Type} (read : ScanReader β) (skip : β → Bool) (passes : Nat) (s : CursorStream β) :
    Reading Bool := do
  if s.exhausted then
    let (row, _) ← s.peek read skip passes
    return row.isNone
  else return false

def PageState.start (state : UniversalListCursorState) : PageState :=
  { canonical := ⟨state.canonical, .start state.canonicalScan state.canonicalExhausted⟩
    historical := ⟨state.historical, .start state.historicalUpdatedScan state.historicalUpdatedExhausted,
      .start state.historicalCreatedScan state.historicalCreatedExhausted, none⟩ }

def maxPageSize : Int := 500

def boundedPageLimit (limit : Int) : Nat := (max 1 (min (if limit = 0 then 100 else limit) maxPageSize)).toNat

/-- `canonical.peek() is not None or historical.peek() is not None`, and the streams after it. -/
def PageState.hasMore (rs : Readers) (passes : Nat) (s : PageState) : Reading (Bool × PageState) := do
  let (canonicalMemory, canonical) ← s.canonical.peek rs.canonical passes
  if canonicalMemory.isSome then return (true, { s with canonical := canonical })
  else
    let (historicalMemory, historical) ← s.historical.peek rs passes
    return (historicalMemory.isSome, ⟨canonical, historical⟩)

def PageState.nextState (rs : Readers) (passes : Nat) (request : ListRequest) (s : PageState) :
    Reading UniversalListCursorState := do
  let canonicalExhausted ← s.canonical.stream.exhaustedNow rs.canonical (alreadyEmitted s.canonical.emittedKeyset) passes
  let updatedExhausted ← s.historical.updated.exhaustedNow rs.updated suppressedHistorical passes
  let createdExhausted ← s.historical.created.exhaustedNow rs.created suppressedHistorical passes
  return {
    includeArchive := request.includeArchive
    includePendingProcessing := request.includePendingProcessing
    deviceScope := request.deviceScope
    clientDeviceId := request.clientDeviceId
    canonical := s.canonical.emittedKeyset
    canonicalScan := s.canonical.stream.scanKeyset
    historical := s.historical.consumedKeyset
    historicalUpdatedScan := s.historical.updated.scanKeyset
    historicalCreatedScan := s.historical.created.scanKeyset
    canonicalExhausted := canonicalExhausted
    historicalUpdatedExhausted := updatedExhausted
    historicalCreatedExhausted := createdExhausted }

/-- `MemoryService.read_page`: the rows of the page and the cursor of the next one. -/
def readPage (account : Account) (request : ListRequest) (passes : Nat) (limit : Int) (cursor : Option UniversalListCursorState) :
    Reading (List Row × Option UniversalListCursorState) := do
  let state ← openCursor request cursor
  let rs := readers timestamp decode account request
  let (page, s) ← mergePage rs passes (boundedPageLimit limit) (.start state)
  let (hasMore, s) ← s.hasMore rs passes
  if hasMore then return (page, some (← s.nextState rs passes request)) else return (page, none)

end Page
end OmiLocal.Memory
