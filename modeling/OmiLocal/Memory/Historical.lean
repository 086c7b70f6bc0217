import OmiLocal.Memory.Lineage

/-!
# Historical documents

The documents from before the canonical items, and the two scans that read them:
one in the order of `updated_at`, one in the order of `created_at`, where the
rows that have an `updated_at` are left to the first. Decryption and the checks
of the response model on a document's other fields are a parameter. Times are in
microseconds.
-/
namespace OmiLocal.Memory

open Lib Lib.Text Lib.Values

/-- A row of the response, as far as the listings look at it. -/
structure MemoryDB where
  id : String
  content : String
  createdAt : Int
  updatedAt : Int
  isLocked : Bool
  visibility : String
  memoryTier : MemoryTier
  captureDeviceIds : List String
  evidence : List (Option String)
deriving DecidableEq

def truncateLockedPreviewText (content : String) : String :=
  if 70 < content.length then String.ofList (content.toList.take 70) ++ "..." else content

def truncateLockedMemoryPreview (memory : MemoryDB) : MemoryDB :=
  if !memory.isLocked || memory.content = "" then memory
  else { memory with content := truncateLockedPreviewText memory.content }

def memoryItemToMemorydb (item : MemoryItem) : MemoryDB :=
  { id := item.memoryId
    content := item.content.getD ""
    createdAt := item.capturedAt.micros
    updatedAt := item.updatedAt.micros
    isLocked := (fetch (item.promotion.getD []) "is_locked").truthy
    visibility := item.visibility
    memoryTier := item.tier
    captureDeviceIds := item.captureDeviceIds
    evidence := item.evidence.map (·.clientDeviceId) }

/-- A document of the historical collection. `id` is its key, `storedId` what it holds under that name. -/
structure HistoricalDocument where
  id : String
  storedId : Option String
  updatedAt : Option Int
  createdAt : Option Int
  userReview : Option Bool
  invalidAt : Option Int
  visibility : Option String
  captureDeviceIds : List String
  payload : Entries

/-- What the other fields of a document hold once they are decrypted and checked. -/
structure MemoryFields where
  content : String
  isLocked : Bool
  evidence : List (Option String)

section Adapter
variable (decode : Entries → Option MemoryFields)

/-- `_historical_memory`: nothing when the response model refuses the document. -/
def historicalMemory (raw : HistoricalDocument) : Option MemoryDB := do
  let createdAt ← raw.createdAt
  let fields ← decode raw.payload
  return {
    id := raw.id
    content := if fields.isLocked then truncateLockedPreviewText fields.content else fields.content
    createdAt := createdAt
    updatedAt := raw.updatedAt.getD createdAt
    isLocked := fields.isLocked
    visibility := raw.visibility.getD "public"
    memoryTier := .longTerm
    captureDeviceIds := raw.captureDeviceIds
    evidence := fields.evidence }

def knownVisibilities : List String := ["private", "public", "shared"]

/-- `_adapt` of a document under its key. -/
def adapt (raw : HistoricalDocument) : Option MemoryDB := do
  if blank raw.id then none
  let memory ← historicalMemory decode raw
  if knownVisibilities.contains memory.visibility then return memory else none

/-- A record without provenance matches every device. -/
def matchesDevice (memory : MemoryDB) : Option DeviceScopeRequest → Bool
  | none => true
  | some request =>
      if request.deviceScope = "all" then true
      else
        match request.clientDeviceId with
        | none => false
        | some clientDeviceId =>
            let knownDevices := memory.captureDeviceIds ++ memory.evidence.reduceOption
            if clientDeviceId = "" then false else knownDevices.isEmpty || knownDevices.contains clientDeviceId

/-! ## The scans -/

def historicalScanPageMax : Nat := 500

inductive OrderField where
  | updatedAt
  | createdAt
deriving DecidableEq

def OrderField.of : OrderField → HistoricalDocument → Option Int
  | .updatedAt => (·.updatedAt)
  | .createdAt => (·.createdAt)

/-- Newest first, then by id; a document without the field is on no page. -/
def OrderField.position (orderField : OrderField) (raw : HistoricalDocument) : ℤ ×ₗ String :=
  toLex (-(orderField.of raw).getD 0, raw.id)

def OrderField.documents (orderField : OrderField) (documents : List HistoricalDocument) : List HistoricalDocument :=
  Keyset.sortedBy orderField.position (documents.filter fun raw => (orderField.of raw).isSome)

/-- `_historical_scan_page` -/
def historicalScanPage (orderField : OrderField) (documents : List HistoricalDocument) (limit : Nat)
    (startAfter : Option ScanCursor) : Except String (List (HistoricalDocument × ScanCursor) × Bool) := do
  let boundedLimit := max 1 (min (if limit = 0 then 100 else limit) historicalScanPageMax)
  if startAfter.any fun cursor => blank cursor.2 then throw "historical scan cursor memory_id must not be blank"
  let snapshots :=
    (Keyset.behind orderField.position (orderField.documents documents) (startAfter.map cursorPosition)).take boundedLimit
  let rows := (snapshots.filter fun raw => !blank raw.id).map fun raw => (raw, ((orderField.of raw).getD 0, raw.id))
  return (rows, decide (snapshots.length < boundedLimit))

/-- A row of the scan: a readable document, or nothing. -/
def adaptScanPayload (deviceScopeRequest : Option DeviceScopeRequest) (dropUpdatedAtPresent : Bool) (raw : HistoricalDocument) :
    Option MemoryDB :=
  if dropUpdatedAtPresent && raw.updatedAt.isSome then none
  else if raw.userReview == some false || raw.invalidAt.isSome then none
  else (adapt decode raw).filter (matchesDevice · deviceScopeRequest)

/-- `read_updated_scan_page` and `read_created_scan_page` -/
def OrderField.readScanPage (orderField : OrderField) (documents : List HistoricalDocument)
    (deviceScopeRequest : Option DeviceScopeRequest) (limit : Nat) (startAfter : Option ScanCursor) :
    Except String (List (Option MemoryDB × ScanCursor) × Bool) := do
  let boundedLimit := max 1 (min (if limit = 0 then 100 else limit) historicalScanPageMax)
  match historicalScanPage orderField documents boundedLimit startAfter with
  | .error _ => throw "Historical memory unavailable"
  | .ok (rows, exhausted) =>
      return (rows.map fun row => (adaptScanPayload decode deviceScopeRequest (orderField == .createdAt) row.1, row.2), exhausted)

end Adapter

/-! ## An account -/

structure Account where
  items : List MemoryItem
  documents : List HistoricalDocument
  overrides : List (String × MemoryItemStatus)

/-- The status of the canonical item, or of the override when there is no item. -/
def Account.canonicalStatus (account : Account) (memoryId : String) : Option MemoryItemStatus :=
  ((account.items.find? (·.memoryId == memoryId)).map (·.status)).or (Dict.get account.overrides memoryId)

def Account.canonicalStatuses (account : Account) (memoryIds : List String) : List (String × MemoryItemStatus) :=
  (memoryIds.filter (· ≠ "")).dedup.filterMap fun memoryId => (account.canonicalStatus memoryId).map (memoryId, ·)

def historicalSuppressionReason (status : Option MemoryItemStatus) : Option String :=
  match status with
  | some .active => some "canonical_identity"
  | some .tombstoned | some .hidden | some .superseded => some "canonical_state"
  | none => none

theorem suppressionReason_none {status : Option MemoryItemStatus} : historicalSuppressionReason status = none ↔ status = none := by
  cases status with
  | none => exact ⟨fun _ => rfl, fun _ => rfl⟩
  | some status =>
      constructor
      · intro kept
        cases status <;> cases kept
      · intro missing
        cases missing

theorem mem_canonicalStatuses {account : Account} {memoryIds : List String} {e : String × MemoryItemStatus} :
    e ∈ account.canonicalStatuses memoryIds ↔ e.1 ∈ memoryIds ∧ e.1 ≠ "" ∧ account.canonicalStatus e.1 = some e.2 := by
  unfold Account.canonicalStatuses
  simp only [List.mem_filterMap, List.mem_dedup, List.mem_filter, Option.map_eq_some_iff, ne_eq, decide_not,
    Bool.not_eq_true', decide_eq_false_iff_not]
  constructor
  · rintro ⟨id, ⟨listed, named⟩, status, found, rfl⟩
    exact ⟨listed, named, found⟩
  · rintro ⟨listed, named, found⟩
    exact ⟨e.1, ⟨listed, named⟩, e.2, found, rfl⟩

theorem keys_canonicalStatuses (account : Account) (memoryIds : List String) :
    (Dict.keys (account.canonicalStatuses memoryIds)).Nodup := by
  unfold Account.canonicalStatuses
  generalize distinct : (memoryIds.filter (· ≠ "")).dedup = ids
  have nodup : ids.Nodup := distinct ▸ List.nodup_dedup _
  clear distinct
  induction ids with
  | nil => exact List.nodup_nil
  | cons id rest ih =>
      obtain ⟨new, nodup⟩ := List.nodup_cons.mp nodup
      cases found : account.canonicalStatus id with
      | none =>
          rw [List.filterMap_cons_none (by rw [found]; rfl)]
          exact ih nodup
      | some status =>
          rw [List.filterMap_cons_some (by rw [found]; rfl)]
          refine List.nodup_cons.mpr ⟨fun again => new ?_, ih nodup⟩
          obtain ⟨e, member, same⟩ := List.mem_map.mp again
          obtain ⟨other, listed, named⟩ := List.mem_filterMap.mp member
          obtain ⟨_, -, rfl⟩ := Option.map_eq_some_iff.mp named
          obtain rfl : other = id := same
          exact listed

/-- The batch has the status of each id it was asked for. -/
theorem get_canonicalStatuses (account : Account) {memoryIds : List String} {memoryId : String} (listed : memoryId ∈ memoryIds)
    (named : memoryId ≠ "") : Dict.get (account.canonicalStatuses memoryIds) memoryId = account.canonicalStatus memoryId := by
  cases found : account.canonicalStatus memoryId with
  | some status =>
      exact Dict.get_of_mem (keys_canonicalStatuses account memoryIds) (mem_canonicalStatuses.mpr ⟨listed, named, found⟩)
  | none =>
      cases here : Dict.get (account.canonicalStatuses memoryIds) memoryId with
      | none => rfl
      | some status =>
          obtain ⟨-, -, known⟩ := mem_canonicalStatuses.mp (Dict.get_eq_some here)
          rw [found] at known
          cases known

end OmiLocal.Memory
