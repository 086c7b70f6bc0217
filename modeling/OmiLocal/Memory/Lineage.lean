import Mathlib.Data.List.MinMax
import OmiLocal.Memory.Visibility

/-!
# Lineages

Items point at the item that replaced them. A list shows one row of each such
lineage: `read_canonical_memories` groups all visible items by the root of their
chain, and the scan decides each row by the chain that leaves it. The stored
documents are given as the items they are read as; a document id has no `/`, so
a pointer with one leads to no document, or to no valid path.
-/
namespace OmiLocal.Memory

open Lib Lib.Text Lib.Values

/-- `(item.canonical_memory_id or item.superseded_by or "").strip()` -/
def outbound (item : MemoryItem) : String :=
  strip (if given item.canonicalMemoryId then item.canonicalMemoryId.getD "" else item.supersededBy.getD "")

def byId (items : List MemoryItem) : List (String × MemoryItem) := items.foldl (fun d item => Dict.put d item.memoryId item) []

/-- `min(xs)` of a list that is not empty. -/
def least (xs : List String) : String := xs.min?.getD ""

/-- Each pass adds an id of `itemsById` to the path, so as much fuel as there are items is enough. -/
def canonicalLineageRootFrom (itemsById : List (String × MemoryItem)) : Nat → List String → MemoryItem → String
  | 0, _, current => current.memoryId
  | fuel + 1, path, current =>
      if current.memoryId ∈ path then least (path.drop (path.idxOf current.memoryId))
      else
        let path := path ++ [current.memoryId]
        let canonicalMemoryId := outbound current
        if canonicalMemoryId = "" ∨ canonicalMemoryId = current.memoryId then current.memoryId
        else
          match Dict.get itemsById canonicalMemoryId with
          | none => canonicalMemoryId
          | some target => canonicalLineageRootFrom itemsById fuel path target

def canonicalLineageRoot (itemsById : List (String × MemoryItem)) (item : MemoryItem) : String :=
  canonicalLineageRootFrom itemsById (itemsById.length + 2) [] item

/-! ## One row of each lineage -/

section Listing
variable (timestamp : DateTime → ℚ)

/-- `canonical_lineage_survivor_sort_key` -/
def survivorKey (lineageRoot : String) (item : MemoryItem) : ℕ ×ₗ ℕ ×ₗ ℚ ×ₗ String :=
  toLex (if item.tier = .longTerm then 0 else 1,
    toLex (if item.memoryId = lineageRoot then 0 else 1, toLex (-timestamp item.updatedAt, item.memoryId)))

/-- The entries of each lineage, with their positions. -/
def groupedByRoot (itemsById : List (String × MemoryItem)) (candidates : List MemoryItem) : List (String × List (Nat × MemoryItem)) :=
  Dict.groups (fun entry => canonicalLineageRoot itemsById entry.2) (candidates.zipIdx.map Prod.swap)

/-- The survivor of one lineage and the position of its first row. -/
def selectSurvivor (survivorsById : List (String × MemoryItem)) (group : String × List (Nat × MemoryItem)) :
    Option (Nat × MemoryItem) := do
  let lineageCandidates := byId (group.2.map Prod.snd)
  let lineageCandidates :=
    match Dict.get survivorsById group.1 with
    | none => lineageCandidates
    | some canonicalItem =>
        if (Dict.get lineageCandidates canonicalItem.memoryId).isSome then lineageCandidates
        else Dict.put lineageCandidates canonicalItem.memoryId canonicalItem
  let survivor ← (lineageCandidates.map Prod.snd).argmin (survivorKey timestamp group.1)
  let position ← (group.2.map Prod.fst).min?
  return (position, survivor)

def collapseCanonicalLineages (items lineageContext survivorContext : List MemoryItem) : List MemoryItem :=
  let grouped := groupedByRoot (byId lineageContext) items
  let selected := grouped.filterMap (selectSurvivor timestamp (byId survivorContext))
  (Keyset.sortedBy (fun e => (toLex (e.1, e.2.memoryId) : ℕ ×ₗ String)) selected).map Prod.snd

/-! ## The listing of all items -/

/-- The visible items of `read_canonical_memories`, newest first. -/
def canonicalVisibleItems (items : List MemoryItem) (request : ListRequest) : Except String (List MemoryItem) := do
  let policy := MemoryAccessPolicy.forOmiChat request.includeArchive
  let visible ← filterCanonicalDefaultVisibleItems timestamp items policy request.now
  let visibleById := byId visible
  let visibleById :=
    if request.includeArchive then
      items.foldl (fun d item =>
        if (isArchiveAccessEligible item policy).allowed then
          if (Dict.get d item.memoryId).isSome then d else Dict.put d item.memoryId item
        else d) visibleById
    else visibleById
  if request.includePendingProcessing then
    let visibleById := items.foldl (fun d item => if pendingSubmission item then Dict.put d item.memoryId item else d) visibleById
    return request.inScope (sortedItems timestamp (visibleById.map Prod.snd))
  else
    return request.inScope ((sortedItems timestamp (visibleById.map Prod.snd)).filter (·.processingState == .processed))

def canonicalScanLineageMaxHops : Nat := 12

/-- A document path has an even number of segments, so a pointer with an odd number of slashes raises. -/
def documentPath (memoryId : String) : Bool := memoryId.toList.count '/' % 2 == 0

/-- `_read_canonical_memory_item_for_lineage`: an error, no document, or the item. -/
def readCanonicalMemoryItemForLineage (items : List MemoryItem) (memoryId : String) : Except String (Option MemoryItem) :=
  if documentPath memoryId then .ok (items.find? (·.memoryId == memoryId))
  else .error "A document must have an even number of path elements"

/-- The loop over at most `hops` pointers: the items it has read, and what it takes for the root. -/
def scanLineage (items : List MemoryItem) : Nat → List MemoryItem → MemoryItem → List MemoryItem × String
  | 0, closure, current => (closure, current.memoryId)
  | hops + 1, closure, current =>
      let nextId := outbound current
      let path := closure.map (·.memoryId)
      if nextId = "" ∨ nextId = current.memoryId then (closure, current.memoryId)
      else if nextId ∈ path then (closure, least (path.drop (path.idxOf nextId)))
      else
        match readCanonicalMemoryItemForLineage items nextId with
        | .error _ => (closure, current.memoryId)
        | .ok none => (closure, nextId)
        | .ok (some target) => scanLineage items hops (closure ++ [target]) target

/-- `_canonical_scan_lineage_suppressed` -/
def canonicalScanLineageSuppressed (items : List MemoryItem) (request : ListRequest) (item : MemoryItem) : Except String Bool := do
  let first := outbound item
  if first = "" ∨ first = item.memoryId then return false
  let (closure, lineageRoot) := scanLineage items canonicalScanLineageMaxHops [item] item
  let visibleCandidates ← closure.filterM fun candidate =>
    if candidate.memoryId = item.memoryId then return false else canonicalScanItemVisible timestamp candidate request
  return visibleCandidates.any fun candidate =>
    decide (survivorKey timestamp lineageRoot candidate < survivorKey timestamp lineageRoot item)

/-! ## The scan -/

abbrev ScanCursor := Int × String

/-- The order of the scan: newest first, then by id. -/
def scanPosition (item : MemoryItem) : ℤ ×ₗ String := toLex (-item.updatedAt.micros, item.memoryId)

def canonicalScanPageMax : Nat := 500

def cursorPosition (cursor : ScanCursor) : ℤ ×ₗ String := toLex (-cursor.1, cursor.2)

/-- The documents strictly behind the cursor, newest first and then by id. -/
def scanDocuments (items : List MemoryItem) (startAfter : Option ScanCursor) : List MemoryItem :=
  Keyset.behind scanPosition (Keyset.sortedBy scanPosition items) (startAfter.map cursorPosition)

/-- A row of the scan: the item, or nothing where the row is filtered, and its cursor. -/
def scanSlot (items : List MemoryItem) (request : ListRequest) (item : MemoryItem) :
    Except String (Option MemoryItem × ScanCursor) := do
  let scanCursor := (item.updatedAt.micros, item.memoryId)
  if !(← canonicalScanItemVisible timestamp item request) then return (none, scanCursor)
  if ← canonicalScanLineageSuppressed timestamp items request item then return (none, scanCursor)
  return (some item, scanCursor)

/-- `read_canonical_scan_page`: its slots, and whether the scan is exhausted. -/
def readCanonicalScanPage (items : List MemoryItem) (request : ListRequest) (limit : Nat) (startAfter : Option ScanCursor) :
    Except String (List (Option MemoryItem × ScanCursor) × Bool) := do
  let boundedLimit := max 1 (min (if limit = 0 then 100 else limit) canonicalScanPageMax)
  let snapshots := (scanDocuments items startAfter).take boundedLimit
  let slots ← snapshots.mapM (scanSlot timestamp items request)
  return (slots, decide (snapshots.length < boundedLimit))

end Listing
end OmiLocal.Memory
