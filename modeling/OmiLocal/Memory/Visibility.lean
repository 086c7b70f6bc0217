import Mathlib.Data.Prod.Lex
import Mathlib.Data.String.Basic
import OmiLocal.Lib.Dict
import OmiLocal.Lib.Keyset
import OmiLocal.Memory.Item

/-!
# What a list shows

The access policy, the short-term lifecycle and the device filter, and the two
places that put them together: once for a set of items, once for a single row of
a scan. The time of the read is an aware one, in microseconds. The audit
metadata, the log lines and the counters are left out.
-/
namespace OmiLocal.Memory

open Lib Lib.Text Lib.Values

inductive MemoryConsumer where
  | omiChat
  | agent
  | thirdParty
  | developerApi
  | mcp
  | adminDebug
  | eval
  | unknown
deriving DecidableEq

structure AccessDecision where
  allowed : Bool
  reason : String
deriving DecidableEq, Inhabited

structure MemoryAccessPolicy where
  consumer : MemoryConsumer
  appHasDefaultMemoryGrant : Bool
  archiveCapability : Bool
deriving DecidableEq

def MemoryAccessPolicy.forOmiChat (archiveCapability : Bool) : MemoryAccessPolicy := ⟨.omiChat, true, archiveCapability⟩

/-- The sooner of the stored expiry and the live policy. -/
def effectiveShortTermExpiry (item : MemoryItem) : Except String Int := do
  let policyExpiry ← defaultShortTermExpiry item.capturedAt
  match item.expiresAt with
  | none => return policyExpiry.micros
  | some stored => if stored.aware then return min stored.micros policyExpiry.micros else throw "timestamps must be timezone-aware"

def hasRestrictedSensitivity (item : MemoryItem) : Bool := item.sensitivityLabels.any (restrictedSensitivityLabels.contains ·)

def basePolicyChecks (item : MemoryItem) (policy : MemoryAccessPolicy) : Option AccessDecision :=
  if item.status ≠ .active then some ⟨false, "not_active"⟩
  else if item.processingState = .blocked then some ⟨false, "processing_blocked"⟩
  else if item.sourceState = .tombstoned ∨ item.sourceState = .purged then some ⟨false, "source_not_active"⟩
  else if policy.consumer = .unknown then some ⟨false, "unknown_consumer"⟩
  else if hasRestrictedSensitivity item then some ⟨false, "restricted_sensitivity"⟩
  else if ["private", "public", "shared"].contains item.visibility = false then some ⟨false, "unknown_visibility"⟩
  else none

def isDefaultAccessEligible (item : MemoryItem) (policy : MemoryAccessPolicy) (now : Int) : Except String AccessDecision :=
  match basePolicyChecks item policy with
  | some refused => .ok refused
  | none =>
      if item.tier = .archive then .ok ⟨false, "archive_requires_explicit_query"⟩
      else if [MemoryConsumer.thirdParty, .developerApi, .mcp].contains policy.consumer ∧ ¬policy.appHasDefaultMemoryGrant then
        .ok ⟨false, "missing_default_memory_grant"⟩
      else do
        if item.tier = .shortTerm then
          if (← effectiveShortTermExpiry item) ≤ now then
            -- Time alone is no lifecycle decision.
            return ⟨true, "short_term_expired_pending_adjudication"⟩
        return ⟨true, "default_memory_allowed"⟩

def isArchiveAccessEligible (item : MemoryItem) (policy : MemoryAccessPolicy) : AccessDecision :=
  match basePolicyChecks item policy with
  | some refused => refused
  | none =>
      if item.tier ≠ .archive then ⟨false, "not_archive"⟩
      else if ¬policy.archiveCapability then ⟨false, "missing_archive_capability"⟩
      else ⟨true, "archive_explicit_allowed"⟩

/-! ## Short-term items -/

structure ShortTermLifecycleDecision where
  defaultAccessAllowed : Bool
  decisionReason : String
deriving DecidableEq

def l2ProcessedRequiresDisposition : String := "short_term_l2_processed_requires_explicit_lifecycle_disposition"

/-- `evaluate_short_term_lifecycle` of a short-term item, without a disposition. -/
def evaluateShortTermLifecycle (item : MemoryItem) (now : Int) : Except String ShortTermLifecycleDecision := do
  let expiryAt ← effectiveShortTermExpiry item
  if item.sourceState = .tombstoned ∨ item.sourceState = .purged then return ⟨false, "source_tombstoned"⟩
  else if item.status ≠ .active then return ⟨false, "short_term_not_active"⟩
  else if item.processingState = .processed then return ⟨false, l2ProcessedRequiresDisposition⟩
  else if expiryAt ≤ now then return ⟨false, "short_term_expired_requires_lifecycle_decision"⟩
  else return ⟨true, "short_term_fresh"⟩

structure ProductMemoryItemDecision where
  allowed : Bool
  reason : String
  lifecycleReason : Option String
deriving DecidableEq, Inhabited

def decisionFromAccess (access : AccessDecision) : ProductMemoryItemDecision := ⟨access.allowed, access.reason, none⟩

def decisionFromLifecycle (access : AccessDecision) (lifecycle : ShortTermLifecycleDecision) : ProductMemoryItemDecision :=
  if ¬lifecycle.defaultAccessAllowed then ⟨false, lifecycle.decisionReason, some lifecycle.decisionReason⟩
  else ⟨access.allowed, access.reason, some lifecycle.decisionReason⟩

def productDecision (item : MemoryItem) (policy : MemoryAccessPolicy) (now : Int) : Except String ProductMemoryItemDecision := do
  let access ← isDefaultAccessEligible item policy now
  if item.tier = .shortTerm then return decisionFromLifecycle access (← evaluateShortTermLifecycle item now)
  else return decisionFromAccess access

structure DefaultProductMemoryReadReport where
  visibleItems : List MemoryItem
  decisions : List (String × ProductMemoryItemDecision)

def filterDefaultProductMemoryItems (items : List MemoryItem) (policy : MemoryAccessPolicy) (now : Int) :
    Except String DefaultProductMemoryReadReport := do
  let decided ← items.mapM fun item => do return (item, ← productDecision item policy now)
  return ⟨(decided.filter (·.2.allowed)).map Prod.fst, decided.foldl (fun d e => Dict.put d e.1.memoryId e.2) []⟩

/-! ## The default filter -/

/-- `promotion.get("user_review") is False`. -/
def rejectedByUser (item : MemoryItem) : Bool :=
  match fetch (item.promotion.getD []) "user_review" with
  | .bool false => true
  | _ => false

/-- Processed short-term items await a disposition but stay visible. -/
def awaitsDisposition (item : MemoryItem) (decision : ProductMemoryItemDecision) (access : AccessDecision) : Bool :=
  decision.lifecycleReason == some l2ProcessedRequiresDisposition && item.tier == .shortTerm && item.status == .active &&
    item.processingState == .processed && access.allowed

section Listing
variable (timestamp : DateTime → ℚ)

/-- Newest first: `(-item.updated_at.timestamp(), item.memory_id)`. -/
def newestFirst (item : MemoryItem) : ℚ ×ₗ String := toLex (-timestamp item.updatedAt, item.memoryId)

def sortedItems (items : List MemoryItem) : List MemoryItem := Keyset.sortedBy (newestFirst timestamp) items

def filterCanonicalDefaultVisibleItems (items : List MemoryItem) (policy : MemoryAccessPolicy) (now : Int) :
    Except String (List MemoryItem) := do
  let report ← filterDefaultProductMemoryItems items policy now
  let processed := report.visibleItems.filter (·.processingState == .processed)
  let visibleById := processed.foldl (fun d item => Dict.put d item.memoryId item) []
  let visibleById ← items.foldlM (fun d item => do
    if (Dict.get d item.memoryId).isSome then return d
    match Dict.get report.decisions item.memoryId with
    | none => return d
    | some decision =>
        if awaitsDisposition item decision (← isDefaultAccessEligible item policy now) then
          return Dict.put d item.memoryId item
        else return d) visibleById
  let visibleById := items.foldl (fun d item => if rejectedByUser item then Dict.erase d item.memoryId else d) visibleById
  return sortedItems timestamp (visibleById.map Prod.snd)

/-! ## Devices -/

def memoryMatchesDevice (item : MemoryItem) (clientDeviceId : String) : Bool :=
  let target := strip clientDeviceId
  if target = "" then true
  else item.primaryCaptureDevice == some target || item.captureDeviceIds.contains target ||
    item.evidence.any (·.clientDeviceId == some target)

def filterItemsByDeviceScope (items : List MemoryItem) (deviceScope : String) (clientDeviceId : Option String) :
    List MemoryItem :=
  if deviceScope = "all" then items
  else if deviceScope ≠ "current" ∧ deviceScope ≠ "explicit" then items
  else
    -- Without a device the scoped list is empty, not everything.
    let scopedDeviceId := strip (clientDeviceId.getD "")
    if scopedDeviceId = "" then [] else items.filter (memoryMatchesDevice · scopedDeviceId)

structure DeviceScopeRequest where
  deviceScope : String
  clientDeviceId : Option String
deriving DecidableEq

/-- What the request asks for, apart from its page. -/
structure ListRequest where
  deviceScopeRequest : Option DeviceScopeRequest
  includePendingProcessing : Bool
  includeArchive : Bool
  now : Int
deriving DecidableEq

def ListRequest.inScope (request : ListRequest) (items : List MemoryItem) : List MemoryItem :=
  match request.deviceScopeRequest with
  | none => filterItemsByDeviceScope items "all" none
  | some scope =>
      filterItemsByDeviceScope items
        (if ["current", "all", "explicit"].contains scope.deviceScope then scope.deviceScope else "all") scope.clientDeviceId

/-- A submission that is shown while it is processed. -/
def pendingSubmission (item : MemoryItem) : Bool :=
  item.tier == .shortTerm && item.status == .active && item.processingState == .pending && item.sourceState == .active &&
    (match fetch (item.promotion.getD []) "required" with | .bool true => true | _ => false) && !rejectedByUser item

/-! ## A single row -/

/-- `_canonical_scan_item_visible` -/
def canonicalScanItemVisible (item : MemoryItem) (request : ListRequest) : Except String Bool := do
  let policy := MemoryAccessPolicy.forOmiChat request.includeArchive
  let defaultVisible ← filterCanonicalDefaultVisibleItems timestamp [item] policy request.now
  let visible := !defaultVisible.isEmpty || (request.includeArchive && (isArchiveAccessEligible item policy).allowed)
  let visible :=
    if request.includePendingProcessing then visible || pendingSubmission item
    else visible && item.processingState == .processed
  return visible && !(request.inScope [item]).isEmpty

end Listing
end OmiLocal.Memory
