import Mathlib.Data.List.Dedup
import Mathlib.Data.List.Sort
import OmiLocal.Lib.Fallible
import OmiLocal.Lib.Text
import OmiLocal.Lib.Values

/-!
# Memory items

The stored document of one memory and what its constructor checks. Fields have
the types the class declares; what pydantic makes of ill-typed documents is left
to the reader of raw documents. Text functions, the JSON writer, SHA-256 and the
timestamp parser are the platform's.
-/
namespace OmiLocal.Memory

open Lib.Text Lib.Values

/-- A datetime is naive or aware; only datetimes of one kind compare. -/
structure DateTime where
  micros : Int
  aware : Bool
deriving DecidableEq

structure Platform where
  nfkc : String → String
  casefold : String → String
  lower : String → String
  /-- `json.dumps(value, sort_keys=True, separators=(",", ":"))` -/
  dumps : Value → String
  sha256 : String → String
  fromisoformat : String → Option DateTime
  /-- What pydantic reads into an integer field. -/
  readInt : Value → Option Int
  /-- What lower-casing has written has no other lower case. -/
  lower_lower : ∀ s t : String, (∀ c ∈ t.toList, c ∈ (lower s).toList ∨ c = '_') → lower t = t

def raiseFirst (checks : List (Bool × String)) : Except String Unit :=
  match checks.find? Prod.fst with
  | some check => .error check.2
  | none => .ok ()

theorem raiseFirst_ok {checks : List (Bool × String)} :
    raiseFirst checks = .ok () ↔ ∀ check ∈ checks, check.1 = false := by
  unfold raiseFirst
  cases found : checks.find? Prod.fst with
  | some check =>
      constructor
      · intro h
        cases h
      · intro none
        have := List.find?_some found
        rw [none check (List.mem_of_find?_eq_some found)] at this
        cases this
  | none => simpa using List.find?_eq_none.mp found

/-- `not value or not value.strip()`. -/
def blank (s : String) : Bool := s.toList.all isSpace

theorem blank_append (s t : String) : blank (s ++ t) = (blank s && blank t) := by
  unfold blank
  rw [String.toList_append, List.all_append]

def first32 (s : String) : String := String.ofList (s.toList.take 32)

/-- An optional text that is neither missing nor empty. -/
def given (s : Option String) : Bool := s.any (· != "")

def DateTime.lt (a b : DateTime) : Except String Bool :=
  if a.aware = b.aware then .ok (decide (a.micros < b.micros))
  else .error "can't compare offset-naive and offset-aware datetimes"

/-- `max`, which keeps the first of two equal values. -/
def DateTime.max (a b : DateTime) : Except String DateTime := do
  let later ← a.lt b
  return if later then b else a

def datetimeMax : Int := 253402300799999999

def defaultShortTermTtl : Int := 48 * 60 * 60 * 1000000

def defaultShortTermExpiry (capturedAt : DateTime) : Except String DateTime :=
  if !capturedAt.aware then .error "timestamps must be timezone-aware"
  else if datetimeMax < capturedAt.micros + defaultShortTermTtl then .error "date value out of range"
  else .ok ⟨capturedAt.micros + defaultShortTermTtl, true⟩

def restrictedSensitivityLabels : List String :=
  ["credential", "secret", "financial", "health", "intimate", "minor", "minors", "workplace_confidential",
    "identity_authentication"]

inductive MemoryTier where
  | shortTerm
  | longTerm
  | archive
deriving DecidableEq

def MemoryTier.value : MemoryTier → String
  | .shortTerm => "short_term"
  | .longTerm => "long_term"
  | .archive => "archive"

inductive MemoryKind where
  | fact
  | document
  | trigger
deriving DecidableEq

inductive MemorySubjectScope where
  | primaryUser
  | userOwnedProject
  | userRelationship
  | thirdParty
deriving DecidableEq

inductive LedgerWriteReason where
  | directUserStatement
  | explicitRemember
  | agentReusableConclusion
  | recurringWorkflow
  | standingTrigger
  | onboarding
  | dailyReconciliation
  | legacyMigration
deriving DecidableEq

inductive MemoryItemStatus where
  | active
  | superseded
  | hidden
  | tombstoned
deriving DecidableEq

inductive ProcessingState where
  | pending
  | processed
  | blocked
deriving DecidableEq

inductive SourceState where
  | active
  | missing
  | tombstoned
  | purged
deriving DecidableEq

def maxLedgerContentCharacters : Nat := 4000
def maxLedgerPlaybookBodyCharacters : Nat := 24000
def maxLedgerSlotCharacters : Nat := 64
def maxLedgerTriggerConditionKeys : Nat := 13
def maxLedgerTriggerConditionCharacters : Nat := 8000

def knowledgeLedger : String := "knowledge_ledger.v1"

/-- The evidence class raises on a record without these properties. -/
structure MemoryEvidence where
  evidenceId : String
  sourceType : String
  sourceId : Option String
  sourceVersion : Option String
  sourceState : SourceState
  clientDeviceId : Option String
  named : blank evidenceId = false ∧ blank sourceType = false
  sourced : sourceState = .active → given sourceId = true ∧ given sourceVersion = true
deriving DecidableEq

structure MemoryItem where
  memoryId : String
  uid : String
  canonicalMemoryId : Option String
  version : Int
  tier : MemoryTier
  status : MemoryItemStatus
  processingState : ProcessingState
  content : Option String
  normalizedContentKey : Option String
  evidence : List MemoryEvidence
  sourceState : SourceState
  sensitivityLabels : List String
  visibility : String
  userAsserted : Bool
  capturedAt : DateTime
  updatedAt : DateTime
  expiresAt : Option DateTime
  ledgerCommitId : Option String
  ledgerSequence : Option Int
  itemRevision : Int
  sourceCommitId : Option String
  sourceCommitSequence : Option Int
  contentHash : Option String
  accountGeneration : Int
  promotion : Option Entries
  captureDeviceIds : List String
  primaryCaptureDevice : Option String
  corroborationCount : Int
  lastCorroboratedAt : Option DateTime
  confidence : Option ℚ
  supersededBy : Option String
  subjectEntityId : Option String
  predicate : Option String
  arguments : Entries
  kgExtracted : Bool
  graphReady : Bool
  graphAssertionId : Option String
  graphPlanHash : Option String
  ledgerSchemaVersion : Option String
  kind : MemoryKind
  subjectScope : MemorySubjectScope
  slot : Option String
  body : Option String
  validFrom : Option DateTime
  validTo : Option DateTime
  curationWeight : Int
  triggerCondition : Entries
  intentBacked : Bool
  writeReason : Option LedgerWriteReason

variable (p : Platform)

def normalizedMemoryContentKey (content : Option String) : Option String :=
  content.bind fun text =>
    let normalized := join ' ' (words (p.casefold (p.nfkc text)).toList)
    if normalized.isEmpty then none else some (p.sha256 (String.ofList normalized))

def sortedSet (texts : List String) : List String := texts.dedup.insertionSort (· ≤ ·)

def normalizeSensitivity (labels : List String) : List String :=
  sortedSet ((labels.filter (fun label => !blank label)).map (fun label => p.lower (strip label)))

def normalizeSlot (slot : String) : Option String :=
  let letters := (p.lower (strip slot)).toList.map (fun c => if c = '-' then '_' else c)
  let normalized := join '_' (words letters)
  if normalized.isEmpty then none else some (String.ofList normalized)

def MemoryItem.normalized (m : MemoryItem) : MemoryItem :=
  { m with
    sensitivityLabels := normalizeSensitivity p m.sensitivityLabels
    slot := m.slot.bind (normalizeSlot p)
    normalizedContentKey := normalizedMemoryContentKey p m.content }

def MemoryItem.fieldChecks (m : MemoryItem) : List (Bool × String) :=
  [(blank m.memoryId || blank m.uid || blank m.visibility, "required fields must not be blank"),
    (decide (m.version < 1), "version must be positive"),
    (!m.capturedAt.aware || !m.updatedAt.aware || m.expiresAt.any (!·.aware) || m.validFrom.any (!·.aware) ||
      m.validTo.any (!·.aware), "timestamps must be timezone-aware"),
    (decide (m.curationWeight < -100 ∨ 100 < m.curationWeight), "curation_weight must be between -100 and 100"),
    (decide (maxLedgerTriggerConditionCharacters < (p.dumps (.dict m.triggerCondition)).length),
      "ledger trigger condition exceeds the serialized limit")]

def MemoryItem.activeLongTerm (m : MemoryItem) : Bool := m.tier == .longTerm && m.status == .active

def admitted (promotion : Option Entries) : Bool := !(fetch (promotion.getD []) "admission_receipt").isNone

/-- The model validator, which runs on the normalized fields. -/
def MemoryItem.tierChecks (m : MemoryItem) : List (Bool × String) :=
  [(decide (m.updatedAt.micros < m.capturedAt.micros), "updated_at must be >= captured_at"),
    (m.status == .active && blank (m.content.getD ""), "active memory requires content"),
    (m.tier == .shortTerm && m.expiresAt.isNone, "short_term memory requires expires_at"),
    (m.tier == .shortTerm && m.expiresAt.any (fun t => decide (t.micros ≤ m.capturedAt.micros)),
      "short_term expires_at must be after captured_at"),
    (m.activeLongTerm && !given m.ledgerCommitId, "active long_term memory requires ledger_commit_id"),
    (m.activeLongTerm && m.ledgerSequence.isNone, "active long_term memory requires ledger_sequence"),
    (m.activeLongTerm && m.processingState != .processed,
      "active long_term memory requires processing_state=processed"),
    (m.activeLongTerm && admitted m.promotion && !(m.graphReady && given m.graphAssertionId && given m.graphPlanHash),
      "admitted long_term memory requires an atomic graph assertion"),
    (m.sourceState == .active && !m.userAsserted && !m.evidence.any (fun e => e.sourceState == .active),
      "active source memory requires at least one active evidence record"),
    (m.validTo.any (fun t => decide (t.micros < (m.validFrom.getD m.capturedAt).micros)),
      "valid_to must be >= valid_from"),
    (m.kind != .fact && m.slot.isSome, "only fact ledger rows may define a slot"),
    (m.kind == .trigger && m.triggerCondition.isEmpty, "trigger ledger rows require trigger_condition"),
    (m.kind != .trigger && !m.triggerCondition.isEmpty, "trigger_condition is only valid for trigger ledger rows")]

def MemoryItem.ledgerChecks (m : MemoryItem) : List (Bool × String) :=
  if m.ledgerSchemaVersion = some knowledgeLedger then
    [(decide (maxLedgerContentCharacters < (m.content.getD "").length), "knowledge ledger content exceeds the ledger limit"),
      (decide (maxLedgerSlotCharacters < (m.slot.getD "").length), "knowledge ledger slot exceeds the ledger limit"),
      (m.kind == .document && blank (m.body.getD ""), "ledger documents require a non-empty body"),
      (m.kind == .document && decide (maxLedgerPlaybookBodyCharacters < (m.body.getD "").length),
        "ledger document body exceeds the ledger limit"),
      (m.kind != .document && m.body.isSome, "ledger body is only valid for document rows"),
      (decide (maxLedgerTriggerConditionKeys < m.triggerCondition.length),
        "ledger trigger condition exceeds the ledger key limit"),
      (m.writeReason.isNone || (!m.intentBacked && m.writeReason != some .legacyMigration),
        "knowledge ledger rows require an intent-backed write reason")]
  else []

/-- The constructor: the document as it is kept, or the first error. -/
def MemoryItem.parse (m : MemoryItem) : Except String MemoryItem := do
  raiseFirst (m.fieldChecks p)
  raiseFirst ((m.normalized p).tierChecks ++ (m.normalized p).ledgerChecks)
  return m.normalized p

/-! ## What the constructor accepts -/

structure MemoryItem.FieldsOk (m : MemoryItem) : Prop where
  named : blank m.memoryId = false ∧ blank m.uid = false ∧ blank m.visibility = false
  version : 1 ≤ m.version
  aware : m.capturedAt.aware = true ∧ m.updatedAt.aware = true ∧ ∀ t ∈ m.expiresAt, t.aware = true
  span_aware : (∀ t ∈ m.validFrom, t.aware = true) ∧ ∀ t ∈ m.validTo, t.aware = true
  weight : -100 ≤ m.curationWeight ∧ m.curationWeight ≤ 100
  condition_size : (p.dumps (.dict m.triggerCondition)).length ≤ maxLedgerTriggerConditionCharacters

structure MemoryItem.TierOk (m : MemoryItem) : Prop where
  ordered : m.capturedAt.micros ≤ m.updatedAt.micros
  content : m.status = .active → blank (m.content.getD "") = false
  expiry : m.tier = .shortTerm → m.expiresAt.isSome = true ∧ ∀ t ∈ m.expiresAt, m.capturedAt.micros < t.micros
  head : m.activeLongTerm = true →
    given m.ledgerCommitId = true ∧ m.ledgerSequence.isSome = true ∧ m.processingState = .processed
  admission : m.activeLongTerm = true → admitted m.promotion = true →
    m.graphReady = true ∧ given m.graphAssertionId = true ∧ given m.graphPlanHash = true
  sourced : m.sourceState = .active → m.userAsserted = false → ∃ e ∈ m.evidence, e.sourceState = .active
  span : ∀ t ∈ m.validTo, (m.validFrom.getD m.capturedAt).micros ≤ t.micros
  slot : m.kind ≠ .fact → m.slot = none
  trigger : m.kind = .trigger ↔ m.triggerCondition ≠ []

structure MemoryItem.LimitsOk (m : MemoryItem) : Prop where
  content : (m.content.getD "").length ≤ maxLedgerContentCharacters
  slot : (m.slot.getD "").length ≤ maxLedgerSlotCharacters
  document : m.kind = .document → blank (m.body.getD "") = false ∧
    (m.body.getD "").length ≤ maxLedgerPlaybookBodyCharacters
  body : m.kind ≠ .document → m.body = none
  keys : m.triggerCondition.length ≤ maxLedgerTriggerConditionKeys
  reason : m.writeReason.isSome = true ∧ (m.intentBacked = false → m.writeReason = some .legacyMigration)

/-- The item can be read back from its document. -/
structure MemoryItem.Valid (m : MemoryItem) : Prop where
  fields : m.FieldsOk p
  tier : (m.normalized p).TierOk
  limits : m.ledgerSchemaVersion = some knowledgeLedger → (m.normalized p).LimitsOk

variable {p}

theorem any_false {α : Type} {f : α → Bool} {o : Option α} : o.any f = false ↔ ∀ t ∈ o, f t = false := by
  cases o <;> simp

theorem MemoryItem.fieldChecks_ok (m : MemoryItem) : (∀ check ∈ m.fieldChecks p, check.1 = false) ↔ m.FieldsOk p := by
  simp only [MemoryItem.fieldChecks, List.forall_mem_cons, Bool.or_eq_false_iff, any_false, Bool.not_eq_false',
    decide_eq_false_iff_not, not_or, not_lt]
  constructor
  · rintro ⟨⟨⟨id, uid⟩, visibility⟩, version, ⟨⟨⟨⟨captured, updated⟩, expires⟩, start⟩, stop⟩, weight, size, -⟩
    exact ⟨⟨id, uid, visibility⟩, version, ⟨captured, updated, expires⟩, ⟨start, stop⟩, weight, size⟩
  · intro ok
    exact ⟨⟨⟨ok.named.1, ok.named.2.1⟩, ok.named.2.2⟩, ok.version,
      ⟨⟨⟨⟨ok.aware.1, ok.aware.2.1⟩, ok.aware.2.2⟩, ok.span_aware.1⟩, ok.span_aware.2⟩, ok.weight, ok.condition_size,
      List.forall_mem_nil _⟩

theorem MemoryItem.tierChecks_ok (m : MemoryItem) : (∀ check ∈ m.tierChecks, check.1 = false) ↔ m.TierOk := by
  simp only [MemoryItem.tierChecks, List.forall_mem_cons]
  simp [any_false]
  constructor
  · rintro ⟨ordered, content, expires, later, commit, sequence, processed, admission, sourced, span, slot, some, only⟩
    refine ⟨ordered, content, fun short => ⟨expires short, later short⟩,
      fun active => ⟨commit active, sequence active, processed active⟩, ?_, sourced, span, slot, some, ?_⟩
    · intro active receipt
      exact ⟨(admission active receipt).1.1, (admission active receipt).1.2, (admission active receipt).2⟩
    · intro conditioned
      by_contra other
      exact conditioned (only other)
  · intro ok
    refine ⟨ok.ordered, ok.content, fun short => (ok.expiry short).1, fun short => (ok.expiry short).2,
      fun active => (ok.head active).1, fun active => (ok.head active).2.1, fun active => (ok.head active).2.2, ?_,
      ok.sourced, ok.span, ok.slot, ok.trigger.mp, ?_⟩
    · intro active receipt
      obtain ⟨ready, assertion, plan⟩ := ok.admission active receipt
      exact ⟨⟨ready, assertion⟩, plan⟩
    · intro other
      by_contra conditioned
      exact other (ok.trigger.mpr conditioned)

theorem MemoryItem.ledgerChecks_ok (m : MemoryItem) :
    (∀ check ∈ m.ledgerChecks, check.1 = false) ↔ (m.ledgerSchemaVersion = some knowledgeLedger → m.LimitsOk) := by
  unfold MemoryItem.ledgerChecks
  split
  · rename_i same
    simp only [List.forall_mem_cons]
    simp [same]
    constructor
    · rintro ⟨content, slot, blank, length, body, keys, some, reason⟩
      exact ⟨content, slot, fun document => ⟨blank document, length document⟩, body, keys, some, reason⟩
    · intro ok
      exact ⟨ok.content, ok.slot, fun document => (ok.document document).1, fun document => (ok.document document).2,
        ok.body, ok.keys, ok.reason⟩
  · rename_i other
    simp [other]

theorem MemoryItem.parse_ok (m n : MemoryItem) : m.parse p = .ok n ↔ m.Valid p ∧ n = m.normalized p := by
  have checked : m.Valid p ↔ raiseFirst (m.fieldChecks p) = .ok () ∧
      raiseFirst ((m.normalized p).tierChecks ++ (m.normalized p).ledgerChecks) = .ok () := by
    rw [raiseFirst_ok, raiseFirst_ok, List.forall_mem_append, fieldChecks_ok, tierChecks_ok, ledgerChecks_ok]
    exact ⟨fun v => ⟨v.fields, v.tier, v.limits⟩, fun ⟨fields, tier, limits⟩ => ⟨fields, tier, limits⟩⟩
  constructor
  · intro done
    obtain ⟨_, fields, done⟩ := Lib.Fallible.bind_ok done
    obtain ⟨_, rest, done⟩ := Lib.Fallible.bind_ok done
    cases done
    exact ⟨checked.mpr ⟨fields, rest⟩, rfl⟩
  · rintro ⟨v, rfl⟩
    obtain ⟨fields, rest⟩ := checked.mp v
    unfold MemoryItem.parse
    rw [fields]
    change (raiseFirst _ >>= fun _ => _) = _
    rw [rest]
    rfl

/-- Slots are kept in their normal form. -/
theorem normalizeSlot_normal {slot normal : String} (done : normalizeSlot p slot = some normal) :
    normalizeSlot p normal = some normal := by
  unfold normalizeSlot at done
  extract_lets letters normalized at done
  split at done
  · cases done
  · rename_i word
    cases done
    -- Every character is an underscore or was written by lower-casing, and none is a space or a hyphen.
    have from_ : ∀ c ∈ normalized, isSpace c = false ∧ c ≠ '-' ∧ (c ∈ (p.lower (strip slot)).toList ∨ c = '_') := by
      intro c member
      rcases mem_join member with rfl | ⟨w, inside, here⟩
      · exact ⟨by decide, by decide, .inr rfl⟩
      · obtain ⟨solid, letter⟩ := not_of_mem_splitOnP (List.mem_of_mem_filter inside) here
        obtain ⟨d, known, rfl⟩ := List.mem_map.mp letter
        refine ⟨solid, ?_, ?_⟩
        · split
          · decide
          · assumption
        · split
          · exact .inr rfl
          · exact .inl known
    have solid : ∀ c ∈ normalized, isSpace c = false := fun c member => (from_ c member).1
    have lowered : p.lower (String.ofList normalized) = String.ofList normalized := by
      apply p.lower_lower (strip slot)
      intro c member
      rw [String.toList_ofList] at member
      exact (from_ c member).2.2
    have same : normalized.map (fun c => if c = '-' then '_' else c) = normalized := by
      refine (List.map_congr_left fun c member => ?_).trans (List.map_id normalized)
      exact if_neg (from_ c member).2.1
    have some : normalized ≠ [] := fun empty => word (List.isEmpty_iff.mpr empty)
    have whole : strip (String.ofList normalized) = String.ofList normalized := by
      rw [strip, String.toList_ofList, stripChars_of_solid solid]
    unfold normalizeSlot
    rw [whole, lowered, String.toList_ofList, same]
    dsimp only
    rw [words_of_solid solid some, join_singleton, if_neg word]

theorem bind_normalizeSlot (slot : Option String) :
    (slot.bind (normalizeSlot p)).bind (normalizeSlot p) = slot.bind (normalizeSlot p) := by
  cases normal : slot.bind (normalizeSlot p) with
  | none => rfl
  | some s =>
      obtain ⟨written, -, done⟩ := Option.bind_eq_some_iff.mp normal
      exact normalizeSlot_normal done

/-- What the constructor keeps, it accepts again. -/
theorem MemoryItem.Valid.normalized {m : MemoryItem} (v : m.Valid p) : (m.normalized p).Valid p := by
  have slot : ((m.normalized p).normalized p).slot = (m.normalized p).slot := bind_normalizeSlot m.slot
  refine ⟨⟨v.fields.named, v.fields.version, v.fields.aware, v.fields.span_aware, v.fields.weight,
    v.fields.condition_size⟩, ?_, ?_⟩
  · have t := v.tier
    exact ⟨t.ordered, t.content, t.expiry, t.head, t.admission, t.sourced, t.span, fun kind => slot.trans (t.slot kind),
      t.trigger⟩
  · intro ledger
    have l := v.limits ledger
    refine ⟨l.content, ?_, l.document, l.body, l.keys, l.reason⟩
    rw [slot]
    exact l.slot

end OmiLocal.Memory
