import OmiLocal.Memory.Item

/-!
# Promotion contracts

The graph plan of a promotion, the receipt that admits one revision of a memory,
the assertion written with the memory, and the receipt of required processing.
A plan or a receipt is read from a dictionary of the promotion record.
-/
namespace OmiLocal.Memory

open Lib Lib.Text Lib.Values

def promotionGraphSubjectMaxLength : Nat := 200
def promotionGraphPredicateMaxLength : Nat := 64
def promotionGraphArgumentMaxCount : Nat := 16
def promotionGraphArgumentKeyMaxLength : Nat := 64
def promotionGraphArgumentsMaxJsonBytes : Nat := 8 * 1024
def promotionGraphArgumentsMaxDepth : Nat := 8

inductive PlanVersion where
  | v1
  | v2
deriving DecidableEq

def PlanVersion.text : PlanVersion → String
  | .v1 => "canonical_memory_graph_plan.v1"
  | .v2 => "canonical_memory_graph_plan.v2"

structure GraphRelationEndpoint where
  entityId : String
  label : String
  nodeType : String
deriving DecidableEq

structure PromotionGraphPlan where
  schemaVersion : PlanVersion
  subjectEntityId : String
  predicate : String
  arguments : Entries
  subject : Option GraphRelationEndpoint
  object : Option GraphRelationEndpoint
  qualifiers : Entries
  planHash : String

structure PromotionAdmissionReceipt where
  memoryId : String
  sourceItemRevision : Int
  outputContentHash : String
  evidenceIds : List String
  graphPlanHash : String
  supersedes : List String
deriving DecidableEq

/-- The authoritative assertion of one memory, with the plan it was made from. -/
structure MemoryGraphAssertion where
  assertionId : String
  uid : String
  memoryId : String
  itemRevision : Int
  contentHash : String
  evidenceIds : List String
  plan : PromotionGraphPlan
  commitId : String
  commitSequence : Int
  createdAt : DateTime

mutual
def validateJsonValue (depth : Nat) : Value → Except String Unit
  | .list items =>
    if promotionGraphArgumentsMaxDepth < depth then
      .error "promotion graph arguments exceed maximum JSON nesting depth of 8"
    else validateItems (depth + 1) items
  | .dict entries =>
    if promotionGraphArgumentsMaxDepth < depth then
      .error "promotion graph arguments exceed maximum JSON nesting depth of 8"
    else validateEntries (depth + 1) entries
  | _ => .ok ()

def validateItems (depth : Nat) : List Value → Except String Unit
  | [] => .ok ()
  | item :: rest => do
    validateJsonValue depth item
    validateItems depth rest

def validateEntries (depth : Nat) : Entries → Except String Unit
  | [] => .ok ()
  | (key, item) :: rest => do
    if promotionGraphArgumentKeyMaxLength < key.length then
      throw "promotion graph argument keys must be at most 64 characters"
    validateJsonValue depth item
    validateEntries depth rest
end

/-- Keys are sorted before they are trimmed. -/
def normalizedArguments (arguments : Entries) : Except String Entries :=
  (arguments.insertionSort (fun a b => a.1 ≤ b.1)).foldlM (fun normalized entry =>
    let key := strip entry.1
    if key = "" then .error "promotion graph argument keys must not be blank"
    else if key ∈ Dict.keys normalized then
      .error "promotion graph argument keys must be unique after trimming"
    else .ok (normalized ++ [(key, entry.2)])) []

/-- A required text is trimmed and may not be blank. -/
def strippedText (error : String) (value : String) : Except String String :=
  if strip value = "" then .error error else .ok (strip value)

def textField (raw : Entries) (key : String) : Except String String :=
  match fetch raw key with
  | .str s => .ok s
  | _ => .error "Input should be a valid string"

/-- A field that must have one value where it is present. -/
def literalField (raw : Entries) (key literal : String) : Except String Unit :=
  match Dict.get raw key with
  | none => .ok ()
  | some value => if value.text = some literal then .ok () else .error ("Input should be " ++ literal)

def textItems (value : Value) : Except String (List String) :=
  match value with
  | .list items => items.mapM fun item =>
      match item with
      | .str s => .ok s
      | _ => .error "Input should be a valid string"
  | _ => .error "Input should be a valid list"

variable (p : Platform)

def deterministicContractId (purpose : String) (payload : Entries) : String :=
  p.sha256 (purpose ++ "|" ++ p.dumps (.dict payload))

def validateAndNormalizeArguments (arguments : Entries) (requireNonempty : Bool) : Except String Entries := do
  if promotionGraphArgumentMaxCount < arguments.length then
    throw "promotion graph plan supports at most 16 arguments"
  validateJsonValue 0 (.dict arguments)
  let normalized ← normalizedArguments arguments
  if requireNonempty && normalized.isEmpty then
    throw "promotion graph plan requires at least one argument"
  if promotionGraphArgumentsMaxJsonBytes < (p.dumps (.dict normalized)).length then
    throw "promotion graph arguments JSON payload must be at most 8192 bytes"
  return normalized

def canonicalGraphEntityId (label : String) : Except String String :=
  let normalized := p.casefold (String.ofList (join ' ' (words label.toList)))
  if normalized = "" then .error "canonical graph entity label must not be blank"
  else if normalized = "user" then .ok "user"
  else if normalized.toList.take 4 = "ent_".toList then .ok normalized
  else
    .ok ("ent_" ++ String.ofList
      ((deterministicContractId p "canonical-graph-entity" [("label", .str normalized)]).toList.take 20))

def GraphRelationEndpoint.parse (raw : Value) : Except String (Option GraphRelationEndpoint) :=
  match raw with
  | .none => .ok none
  | .dict entries => do
    let entityId ← if (Dict.get entries "entity_id").isNone then .ok "" else textField entries "entity_id"
    let label ← textField entries "label"
    let nodeType ← textField entries "node_type"
    if nodeType ∉ ["person", "place", "organization", "thing", "concept"] then
      throw "Input should be 'person', 'place', 'organization', 'thing' or 'concept'"
    let normalized := String.ofList (join ' ' (words label.toList))
    if normalized = "" then throw "graph relation endpoint label and node_type must not be blank"
    if promotionGraphSubjectMaxLength < normalized.length then
      throw "graph relation endpoint fields exceed the maximum length"
    let expected ← canonicalGraphEntityId p normalized
    if entityId ≠ "" ∧ entityId ≠ expected then
      throw "graph relation endpoint id must be derived from its label"
    return some ⟨expected, normalized, nodeType⟩
  | _ => .error "Input should be a valid dictionary"

def GraphRelationEndpoint.dump (endpoint : Option GraphRelationEndpoint) : Value :=
  match endpoint with
  | none => .none
  | some e => .dict [("entity_id", .str e.entityId), ("label", .str e.label), ("node_type", .str e.nodeType)]

def PromotionGraphPlan.hashPayload (plan : PromotionGraphPlan) : Entries :=
  [("schema_version", .str plan.schemaVersion.text), ("subject_entity_id", .str plan.subjectEntityId),
    ("predicate", .str plan.predicate), ("arguments", .dict plan.arguments)] ++
  match plan.schemaVersion with
  | .v1 => []
  | .v2 =>
    [("subject", GraphRelationEndpoint.dump plan.subject), ("object", GraphRelationEndpoint.dump plan.object),
      ("qualifiers", .dict plan.qualifiers)]

/-- The arguments of a plan, which a v2 plan takes from its qualifiers. -/
def PromotionGraphPlan.relationArguments (plan : PromotionGraphPlan) : Except String Entries :=
  match plan.schemaVersion with
  | .v1 =>
    if plan.arguments.isEmpty then .error "promotion graph plan requires at least one argument" else .ok plan.arguments
  | .v2 =>
    match plan.subject, plan.object with
    | some subject, some object =>
      if subject.entityId ≠ plan.subjectEntityId then
        .error "v2 graph relation subject must match subject_entity_id"
      else if subject.entityId = object.entityId then
        .error "v2 graph relation plans must not contain self-loops"
      else if !plan.arguments.isEmpty && !sameDict plan.arguments plan.qualifiers then
        .error "v2 graph relation arguments must match qualifiers"
      else .ok plan.qualifiers
    | _, _ => .error "v2 graph relation plans require typed subject and object endpoints"

/-- The validators of a plan, which also write its hash. -/
def PromotionGraphPlan.validate (plan : PromotionGraphPlan) : Except String PromotionGraphPlan := do
  let subjectEntityId ← strippedText "promotion graph subject and predicate must not be blank" plan.subjectEntityId
  if promotionGraphSubjectMaxLength < subjectEntityId.length then
    throw "promotion graph subject_entity_id must be at most 200 characters"
  let predicate ← strippedText "promotion graph subject and predicate must not be blank" plan.predicate
  if promotionGraphPredicateMaxLength < predicate.length then
    throw "promotion graph predicate must be at most 64 characters"
  let arguments ← validateAndNormalizeArguments p plan.arguments false
  let qualifiers ← validateAndNormalizeArguments p plan.qualifiers false
  let trimmed : PromotionGraphPlan := { plan with subjectEntityId, predicate, arguments, qualifiers }
  let related ← trimmed.relationArguments
  let settled : PromotionGraphPlan := { trimmed with arguments := related }
  let expected := deterministicContractId p "canonical-promotion-graph-plan" settled.hashPayload
  if plan.planHash ≠ "" ∧ plan.planHash ≠ expected then throw "promotion graph plan hash mismatch"
  return { settled with planHash := expected }

def argumentsField (raw : Entries) (key : String) : Except String Entries :=
  match Dict.get raw key with
  | none => .ok []
  | some (.dict entries) => .ok entries
  | some _ => .error "promotion graph arguments must be a JSON object"

/-- `PromotionGraphPlan(**raw)`. -/
def PromotionGraphPlan.parse (raw : Entries) : Except String PromotionGraphPlan := do
  let schemaVersion ←
    match Dict.get raw "schema_version" with
    | none => .ok PlanVersion.v1
    | some value =>
      if value.text = some PlanVersion.v1.text then .ok PlanVersion.v1
      else if value.text = some PlanVersion.v2.text then .ok PlanVersion.v2
      else .error "Input should be 'canonical_memory_graph_plan.v1' or 'canonical_memory_graph_plan.v2'"
  let subjectEntityId ← textField raw "subject_entity_id"
  let predicate ← textField raw "predicate"
  let arguments ← argumentsField raw "arguments"
  let subject ← GraphRelationEndpoint.parse p (fetch raw "subject")
  let object ← GraphRelationEndpoint.parse p (fetch raw "object")
  let qualifiers ← argumentsField raw "qualifiers"
  let planHash ← if (Dict.get raw "plan_hash").isNone then .ok "" else textField raw "plan_hash"
  PromotionGraphPlan.validate p
    { schemaVersion, subjectEntityId, predicate, arguments, subject, object, qualifiers, planHash }

def PromotionAdmissionReceipt.identityPayload (receipt : PromotionAdmissionReceipt) : Entries :=
  [("receipt_version", .str "canonical_memory_promotion_admission.v1"), ("planner_id", .str "canonical_batched_promotion"),
    ("planner_version", .str "v2"), ("decision", .str "durable"), ("memory_id", .str receipt.memoryId),
    ("source_item_revision", .int receipt.sourceItemRevision), ("output_content_hash", .str receipt.outputContentHash),
    ("evidence_ids", .list (receipt.evidenceIds.map .str)), ("graph_plan_hash", .str receipt.graphPlanHash),
    ("supersedes", .list (receipt.supersedes.map .str))]

/-- `sorted({item.strip() for item in value if item and item.strip()})`. -/
def strippedSet (texts : List String) : List String :=
  sortedSet ((texts.filter (fun text => !blank text)).map strip)

/-- `PromotionAdmissionReceipt(**raw)`. -/
def PromotionAdmissionReceipt.parse (raw : Entries) : Except String PromotionAdmissionReceipt := do
  literalField raw "receipt_version" "canonical_memory_promotion_admission.v1"
  literalField raw "planner_id" "canonical_batched_promotion"
  literalField raw "planner_version" "v2"
  literalField raw "decision" "durable"
  let memoryId ← textField raw "memory_id" >>= strippedText "promotion admission fields must not be blank"
  let sourceItemRevision ←
    match p.readInt (fetch raw "source_item_revision") with
    | some n => if n < 1 then .error "source_item_revision must be positive" else .ok n
    | none => .error "Input should be a valid integer"
  let outputContentHash ← textField raw "output_content_hash" >>= strippedText "promotion admission fields must not be blank"
  let evidenceIds ← textItems (fetch raw "evidence_ids")
  if (strippedSet evidenceIds).isEmpty then throw "promotion admission requires evidence"
  let graphPlanHash ← textField raw "graph_plan_hash" >>= strippedText "promotion admission fields must not be blank"
  let supersedes ← if (Dict.get raw "supersedes").isNone then .ok [] else textItems (fetch raw "supersedes")
  let receiptId ← if (Dict.get raw "receipt_id").isNone then .ok "" else textField raw "receipt_id"
  let receipt : PromotionAdmissionReceipt :=
    ⟨memoryId, sourceItemRevision, outputContentHash, strippedSet evidenceIds, graphPlanHash, strippedSet supersedes⟩
  let expected := "padm_" ++ first32 (deterministicContractId p "canonical-promotion-admission" receipt.identityPayload)
  if receiptId ≠ "" ∧ receiptId ≠ expected then throw "promotion admission receipt id mismatch"
  return receipt

/-- The whole proof of a promotion; any error makes it invalid. -/
def validPromotionAdmission (memoryId : String) (sourceItemRevision : Int) (outputContentHash : String)
    (evidenceIds : List String) (subjectEntityId predicate : Option String) (arguments : Entries)
    (supersedes : List String) (promotion : Entries) : Bool :=
  match fetch promotion "graph_plan", fetch promotion "admission_receipt" with
  | .dict rawPlan, .dict rawReceipt =>
    match PromotionGraphPlan.parse p rawPlan, PromotionAdmissionReceipt.parse p rawReceipt,
      validateAndNormalizeArguments p arguments true with
    | .ok graphPlan, .ok receipt, .ok normalized =>
      receipt.memoryId == memoryId && receipt.sourceItemRevision == sourceItemRevision &&
        receipt.outputContentHash == outputContentHash && receipt.evidenceIds == sortedSet evidenceIds &&
        receipt.graphPlanHash == graphPlan.planHash && graphPlan.subjectEntityId == subjectEntityId.getD "" &&
        graphPlan.predicate == predicate.getD "" && sameDict graphPlan.arguments normalized &&
        receipt.supersedes == sortedSet supersedes && !receipt.supersedes.contains memoryId
    | _, _, _ => false
  | _, _ => false

/-- The assertion's own validators check its plan a second time. -/
def buildMemoryGraphAssertion (uid memoryId : String) (itemRevision : Int) (contentHash : String)
    (evidenceIds : List String) (graphPlan : PromotionGraphPlan) (commitId : String) (commitSequence : Int)
    (createdAt : DateTime) : Except String MemoryGraphAssertion := do
  let blankError := "graph assertion fields must not be blank"
  let assertionId := "mga_" ++ first32 (deterministicContractId p "canonical-memory-graph-assertion"
    [("uid", .str uid), ("memory_id", .str memoryId), ("item_revision", .int itemRevision),
      ("content_hash", .str contentHash), ("graph_plan_hash", .str graphPlan.planHash)])
  let assertionId ← strippedText blankError assertionId
  let uid ← strippedText blankError uid
  let memoryId ← strippedText blankError memoryId
  let contentHash ← strippedText blankError contentHash
  let subjectEntityId ← strippedText blankError graphPlan.subjectEntityId
  let predicate ← strippedText blankError graphPlan.predicate
  let planHash ← strippedText blankError graphPlan.planHash
  let commitId ← strippedText blankError commitId
  if itemRevision < 1 ∨ commitSequence < 1 then throw "graph assertion counters must be positive"
  let evidenceIds := strippedSet (sortedSet evidenceIds)
  if evidenceIds.isEmpty then throw "graph assertion requires evidence"
  if !createdAt.aware then throw "Input should have timezone info"
  let plan ← PromotionGraphPlan.validate p { graphPlan with subjectEntityId, predicate, planHash }
  return ⟨assertionId, uid, memoryId, itemRevision, contentHash, evidenceIds, plan, commitId, commitSequence, createdAt⟩

def requiredProcessingReceiptVersion : String := "canonical_memory_processing_receipt.v1"
def requiredProcessorId : String := "canonical_required_memory"
def requiredProcessorVersion : String := "v1"

/-- Whether the processing receipt is bound to this content. -/
def validRequiredProcessingReceipt (content : String) (itemRevision : Int) (promotion : Entries) : Bool :=
  match fetch promotion "processing_receipt", fetch promotion "submission" with
  | .dict receipt, .dict submission =>
    (fetch receipt "receipt_version").text == some requiredProcessingReceiptVersion &&
      (fetch receipt "processor_id").text == some requiredProcessorId &&
      (fetch receipt "processor_version").text == some requiredProcessorVersion &&
      (fetch promotion "processor_id").text == some requiredProcessorId &&
      (fetch promotion "processor_version").text == some requiredProcessorVersion &&
      (fetch receipt "decision").text == some "durable_required" &&
      (fetch submission "submission_id").truthy &&
      (fetch receipt "source_submission_id").same (fetch submission "submission_id") &&
      (fetch receipt "input_hash").same (fetch submission "content_hash") &&
      (fetch receipt "output_hash").text == some (p.sha256 content) &&
      (match (fetch receipt "input_item_revision").integer, (fetch receipt "output_item_revision").integer with
        | some input, some output => decide (input + 1 = output ∧ output ≤ itemRevision)
        | _, _ => false)
  | _, _ => false

end OmiLocal.Memory
