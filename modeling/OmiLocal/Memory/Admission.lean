import OmiLocal.Lib.Canonical
import OmiLocal.Memory.Committed

/-!
# What a promotion receipt admits

A receipt is built from a graph plan and the data of an item, stored with the
plan in the promotion record and read again when the item is promoted. Reading a
plan or a receipt that was written changes nothing but the order of arguments.
-/
namespace OmiLocal.Memory

open Lib Lib.Text Lib.Values

/-- What the standard library documents: `sort_keys`, 64 hexadecimal digits, and integers read as they are. -/
structure Platform.Documented (p : Platform) : Prop where
  sortKeys : ∀ v w : Value, v.sorted = w.sorted → p.dumps v = p.dumps w
  hexdigest : ∀ text : String, strip (p.sha256 text) = p.sha256 text ∧ p.sha256 text ≠ ""
  readInt : ∀ n : Int, p.readInt (.int n) = some n

variable (p : Platform)

/-- `graph_plan.model_dump(mode="json")`. -/
def PromotionGraphPlan.dump (plan : PromotionGraphPlan) : Entries :=
  [("schema_version", .str plan.schemaVersion.text), ("subject_entity_id", .str plan.subjectEntityId),
    ("predicate", .str plan.predicate), ("arguments", .dict plan.arguments),
    ("subject", GraphRelationEndpoint.dump plan.subject), ("object", GraphRelationEndpoint.dump plan.object),
    ("qualifiers", .dict plan.qualifiers), ("plan_hash", .str plan.planHash)]

def PromotionAdmissionReceipt.receiptId (receipt : PromotionAdmissionReceipt) : String :=
  "padm_" ++ first32 (deterministicContractId p "canonical-promotion-admission" receipt.identityPayload)

/-- `receipt.model_dump(mode="json")`. -/
def PromotionAdmissionReceipt.dump (receipt : PromotionAdmissionReceipt) : Entries :=
  [("receipt_version", .str "canonical_memory_promotion_admission.v1"), ("receipt_id", .str (receipt.receiptId p)),
    ("planner_id", .str "canonical_batched_promotion"), ("planner_version", .str "v2"), ("decision", .str "durable"),
    ("memory_id", .str receipt.memoryId), ("source_item_revision", .int receipt.sourceItemRevision),
    ("output_content_hash", .str receipt.outputContentHash), ("evidence_ids", .list (receipt.evidenceIds.map .str)),
    ("graph_plan_hash", .str receipt.graphPlanHash), ("supersedes", .list (receipt.supersedes.map .str))]

def buildPromotionAdmissionReceipt (memoryId : String) (sourceItemRevision : Int) (outputContentHash : String)
    (evidenceIds : List String) (graphPlan : PromotionGraphPlan) (supersedes : List String) :
    Except String PromotionAdmissionReceipt :=
  PromotionAdmissionReceipt.parse p
    [("memory_id", .str memoryId), ("source_item_revision", .int sourceItemRevision),
      ("output_content_hash", .str outputContentHash), ("evidence_ids", .list (evidenceIds.map .str)),
      ("graph_plan_hash", .str graphPlan.planHash), ("supersedes", .list (supersedes.map .str))]

variable {p}

/-! ## Arguments -/

/-- Arguments as `_validate_and_normalize_arguments` returns them. -/
structure NormalArguments (p : Platform) (arguments : Entries) : Prop where
  count : ¬promotionGraphArgumentMaxCount < arguments.length
  json : validateJsonValue 0 (.dict arguments) = .ok ()
  trimmed : ∀ e ∈ arguments, strip e.1 = e.1 ∧ e.1 ≠ ""
  proper : (Value.dict arguments).Proper
  size : ¬promotionGraphArgumentsMaxJsonBytes < (p.dumps (.dict arguments)).length

theorem validateEntries_ok (depth : Nat) (entries : Entries) : validateEntries depth entries = .ok () ↔
    ∀ e ∈ entries, ¬promotionGraphArgumentKeyMaxLength < e.1.length ∧ validateJsonValue depth e.2 = .ok () := by
  induction entries with
  | nil => simp [validateEntries]
  | cons e rest ih =>
      obtain ⟨key, item⟩ := e
      rw [List.forall_mem_cons, ← ih, validateEntries]
      constructor
      · intro done
        obtain ⟨short, done⟩ := Fallible.unless_ok done
        obtain ⟨_, valid, done⟩ := Fallible.bind_ok done
        exact ⟨⟨short, valid⟩, done⟩
      · rintro ⟨⟨short, valid⟩, done⟩
        exact Fallible.ok_unless short (Fallible.ok_bind valid done)

theorem validate_dict_ok (entries : Entries) : validateJsonValue 0 (.dict entries) = .ok () ↔
    ∀ e ∈ entries, ¬promotionGraphArgumentKeyMaxLength < e.1.length ∧ validateJsonValue 1 e.2 = .ok () := by
  rw [validateJsonValue, if_neg (by decide), validateEntries_ok]

/-- The loop trims one key after the other and stops at a blank or repeated one. -/
theorem normalizedArguments_loop {entries done out : Entries} (distinct : (Dict.keys done).Nodup) :
    entries.foldlM (fun normalized entry =>
      let key := strip entry.1
      if key = "" then .error "promotion graph argument keys must not be blank"
      else if key ∈ Dict.keys normalized then .error "promotion graph argument keys must be unique after trimming"
      else .ok (normalized ++ [(key, entry.2)])) done = (.ok out : Except String Entries) ↔
    (∀ e ∈ entries, strip e.1 ≠ "") ∧ (Dict.keys done ++ entries.map fun e => strip e.1).Nodup ∧
      out = done ++ entries.map fun e => (strip e.1, e.2) := by
  induction entries generalizing done with
  | nil =>
      simp only [List.foldlM_nil, List.map_nil, List.append_nil, List.not_mem_nil, false_imp_iff, implies_true, true_and]
      refine ⟨fun same => ?_, fun same => ?_⟩
      · cases same
        exact ⟨distinct, rfl⟩
      · rw [same.2]
        rfl
  | cons e rest ih =>
      have keys : Dict.keys (done ++ [(strip e.1, e.2)]) = Dict.keys done ++ [strip e.1] := List.map_append
      have whole : Dict.keys done ++ (e :: rest).map (fun e => strip e.1) =
          Dict.keys (done ++ [(strip e.1, e.2)]) ++ rest.map fun e => strip e.1 := by
        rw [keys, List.append_assoc]
        rfl
      rw [List.foldlM_cons, List.forall_mem_cons, whole]
      dsimp only
      by_cases empty : strip e.1 = ""
      · rw [if_pos empty]
        refine ⟨fun same => (by cases same), fun h => absurd empty h.1.1⟩
      · rw [if_neg empty]
        by_cases repeated : strip e.1 ∈ Dict.keys done
        · rw [if_pos repeated]
          refine ⟨fun same => (by cases same), fun h => ?_⟩
          have apart := (List.nodup_append.mp h.2.1).1
          rw [keys] at apart
          exact absurd rfl ((List.nodup_append.mp apart).2.2 _ repeated _ (List.mem_singleton.mpr rfl))
        · rw [if_neg repeated]
          have longer : (Dict.keys (done ++ [(strip e.1, e.2)])).Nodup := by
            rw [keys]
            refine List.nodup_append.mpr ⟨distinct, List.nodup_singleton _, fun a member b single same => ?_⟩
            exact repeated ((same.trans (List.mem_singleton.mp single)) ▸ member)
          refine (ih longer).trans ?_
          rw [List.append_assoc]
          exact ⟨fun h => ⟨⟨empty, h.1⟩, h.2⟩, fun h => ⟨h.1.2, h.2⟩⟩

/-- The arguments in the order of their keys, which are trimmed then. -/
def trimmedArguments (arguments : Entries) : Entries :=
  (arguments.insertionSort fun a b => a.1 ≤ b.1).map fun e => (strip e.1, e.2)

theorem normalizedArguments_ok (arguments out : Entries) : normalizedArguments arguments = .ok out ↔
    (∀ e ∈ arguments, strip e.1 ≠ "") ∧ (arguments.map fun e => strip e.1).Nodup ∧ out = trimmedArguments arguments := by
  have perm := List.perm_insertionSort (fun a b : String × Value => a.1 ≤ b.1) arguments
  have nothing : (Dict.keys ([] : Entries)).Nodup := List.nodup_nil
  unfold normalizedArguments
  rw [normalizedArguments_loop nothing, (perm.map _).nodup_iff.symm]
  exact and_congr_left fun _ => ⟨fun h e member => h e (perm.mem_iff.mpr member), fun h e member => h e (perm.mem_iff.mp member)⟩

theorem validateAndNormalizeArguments_ok (arguments out : Entries) (requireNonempty : Bool) :
    validateAndNormalizeArguments p arguments requireNonempty = .ok out ↔
      ¬promotionGraphArgumentMaxCount < arguments.length ∧ validateJsonValue 0 (.dict arguments) = .ok () ∧
      normalizedArguments arguments = .ok out ∧ ¬(requireNonempty && out.isEmpty) = true ∧
      ¬promotionGraphArgumentsMaxJsonBytes < (p.dumps (.dict out)).length := by
  unfold validateAndNormalizeArguments
  constructor
  · intro done
    obtain ⟨few, done⟩ := Fallible.unless_ok done
    obtain ⟨_, json, done⟩ := Fallible.bind_ok done
    obtain ⟨normalized, trimmed, done⟩ := Fallible.bind_ok done
    obtain ⟨filled, done⟩ := Fallible.unless_ok done
    obtain ⟨small, done⟩ := Fallible.unless_ok done
    cases done
    exact ⟨few, json, trimmed, filled, small⟩
  · rintro ⟨few, json, trimmed, filled, small⟩
    exact Fallible.ok_unless few (Fallible.ok_bind json (Fallible.ok_bind trimmed (Fallible.ok_unless filled
      (Fallible.ok_unless small rfl))))

/-- What comes out is normal. -/
theorem normal_of_validate {arguments out : Entries} {requireNonempty : Bool} (proper : (Value.dict arguments).Proper)
    (done : validateAndNormalizeArguments p arguments requireNonempty = .ok out) : NormalArguments p out := by
  obtain ⟨few, json, trimmed, -, small⟩ := (validateAndNormalizeArguments_ok _ _ _).mp done
  obtain ⟨filled, distinct, rfl⟩ := (normalizedArguments_ok _ _).mp trimmed
  have perm := List.perm_insertionSort (fun a b : String × Value => a.1 ≤ b.1) arguments
  have from_ : ∀ e ∈ trimmedArguments arguments, ∃ old ∈ arguments, e = (strip old.1, old.2) := by
    intro e member
    obtain ⟨old, inside, rfl⟩ := List.mem_map.mp member
    exact ⟨old, perm.mem_iff.mp inside, rfl⟩
  refine ⟨?_, (validate_dict_ok _).mpr fun e member => ?_, fun e member => ?_, ⟨?_, (properEntries_iff _).mpr ?_⟩, small⟩
  · rw [trimmedArguments, List.length_map, List.length_insertionSort]
    exact few
  · obtain ⟨old, inside, rfl⟩ := from_ e member
    obtain ⟨short, valid⟩ := (validate_dict_ok _).mp json old inside
    have := length_strip_le old.1
    exact ⟨by dsimp only; omega, valid⟩
  · obtain ⟨old, inside, rfl⟩ := from_ e member
    exact ⟨strip_strip old.1, filled old inside⟩
  · have keys : Dict.keys (trimmedArguments arguments) =
        (arguments.insertionSort fun a b => a.1 ≤ b.1).map fun e => strip e.1 := by
      rw [Dict.keys, trimmedArguments, List.map_map]
      rfl
    rw [keys]
    exact (perm.map _).nodup_iff.mpr distinct
  · intro e member
    obtain ⟨old, inside, rfl⟩ := from_ e member
    exact (properEntries_iff _).mp proper.2 old inside

theorem NormalArguments.trimmedArguments {arguments : Entries} (normal : NormalArguments p arguments) :
    Memory.trimmedArguments arguments = arguments.insertionSort fun a b => a.1 ≤ b.1 := by
  unfold Memory.trimmedArguments
  conv_rhs => rw [← List.map_id (arguments.insertionSort _)]
  refine List.map_congr_left fun e member => ?_
  rw [(normal.trimmed e ((List.mem_insertionSort _).mp member)).1]
  rfl

/-- Normal arguments are only put in order. -/
theorem NormalArguments.again (documented : p.Documented) {arguments : Entries} (normal : NormalArguments p arguments)
    {requireNonempty : Bool} (filled : requireNonempty = true → arguments ≠ []) :
    validateAndNormalizeArguments p arguments requireNonempty = .ok (arguments.insertionSort fun a b => a.1 ≤ b.1) := by
  have perm := List.perm_insertionSort (fun a b : String × Value => a.1 ≤ b.1) arguments
  refine (validateAndNormalizeArguments_ok _ _ _).mpr ⟨normal.count, normal.json, ?_, ?_, ?_⟩
  · refine (normalizedArguments_ok _ _).mpr ⟨fun e member => ?_, ?_, normal.trimmedArguments.symm⟩
    · rw [(normal.trimmed e member).1]
      exact (normal.trimmed e member).2
    · rw [List.map_congr_left fun e member => (normal.trimmed e member).1]
      exact normal.proper.1
  · intro empty
    obtain ⟨needed, none⟩ := Bool.and_eq_true_iff.mp empty
    rw [List.isEmpty_iff, ← List.length_eq_zero_iff, List.length_insertionSort, List.length_eq_zero_iff] at none
    exact filled needed none
  · rw [documented.sortKeys _ _ (sorted_dict_perm normal.proper.1 perm.symm).symm]
    exact normal.size

/-! ## Plans -/

/-- `" ".join(value.split())`. -/
def joinedWords (text : String) : String := String.ofList (join ' ' (words text.toList))

theorem joinedWords_joinedWords (text : String) : joinedWords (joinedWords text) = joinedWords text := by
  unfold joinedWords
  rw [String.toList_ofList, words_join_words]

structure GraphRelationEndpoint.Valid (p : Platform) (e : GraphRelationEndpoint) : Prop where
  label : joinedWords e.label = e.label ∧ e.label ≠ ""
  short : ¬promotionGraphSubjectMaxLength < e.label.length
  nodeType : e.nodeType ∈ ["person", "place", "organization", "thing", "concept"]
  entityId : canonicalGraphEntityId p e.label = .ok e.entityId

theorem GraphRelationEndpoint.parse_ok {raw : Value} {e : GraphRelationEndpoint}
    (done : GraphRelationEndpoint.parse p raw = .ok (some e)) : e.Valid p := by
  unfold GraphRelationEndpoint.parse at done
  split at done
  · cases done
  · obtain ⟨given_, _, done⟩ := Fallible.choice_ok done
    obtain ⟨label, _, done⟩ := Fallible.bind_ok done
    obtain ⟨nodeType, _, done⟩ := Fallible.bind_ok done
    obtain ⟨known, done⟩ := Fallible.unless_ok done
    obtain ⟨some_, done⟩ := Fallible.unless_ok done
    obtain ⟨short, done⟩ := Fallible.unless_ok done
    obtain ⟨expected, derived, done⟩ := Fallible.bind_ok done
    obtain ⟨_, done⟩ := Fallible.unless_ok done
    cases done
    exact ⟨⟨joinedWords_joinedWords label, some_⟩, short, not_not.mp known, derived⟩
  · cases done

theorem GraphRelationEndpoint.parse_dump {e : GraphRelationEndpoint} (valid : e.Valid p) :
    GraphRelationEndpoint.parse p (GraphRelationEndpoint.dump (some e)) = .ok (some e) := by
  have label : String.ofList (join ' ' (words e.label.toList)) = e.label := valid.label.1
  refine Fallible.ok_bind (a := e.entityId) rfl (Fallible.ok_bind (a := e.label) rfl
    (Fallible.ok_bind (a := e.nodeType) rfl (Fallible.ok_unless (not_not.mpr valid.nodeType) ?_)))
  dsimp only
  rw [label]
  exact Fallible.ok_unless valid.label.2 (Fallible.ok_unless valid.short (Fallible.ok_bind valid.entityId
    (Fallible.ok_unless (fun wrong => wrong.2 rfl) rfl)))

theorem GraphRelationEndpoint.parse_dump_option {endpoint : Option GraphRelationEndpoint}
    (valid : ∀ e, endpoint = some e → e.Valid p) :
    GraphRelationEndpoint.parse p (GraphRelationEndpoint.dump endpoint) = .ok endpoint := by
  cases endpoint with
  | none => rfl
  | some e => exact GraphRelationEndpoint.parse_dump (valid e rfl)

/-- A text as `strip` leaves it, and not empty. -/
def Trimmed (text : String) : Prop := strip text = text ∧ text ≠ ""

theorem strippedText_ok (error value text : String) :
    strippedText error value = .ok text ↔ strip value ≠ "" ∧ text = strip value := by
  unfold strippedText
  split
  · rename_i empty
    exact ⟨fun same => (by cases same), fun h => absurd empty h.1⟩
  · rename_i some_
    refine ⟨fun same => ?_, fun h => by rw [h.2]⟩
    cases same
    exact ⟨some_, rfl⟩

theorem ok_strippedText (error value text : String) :
    ((Except.ok value : Except String String) >>= strippedText error) = .ok text ↔ strip value ≠ "" ∧ text = strip value := by
  change Except.bind (Except.ok value) (strippedText error) = .ok text ↔ _
  unfold Except.bind
  exact strippedText_ok error value text

theorem Trimmed.again {text : String} (trimmed : Trimmed text) (error : String) :
    strippedText error text = .ok text :=
  (strippedText_ok _ _ _).mpr ⟨by rw [trimmed.1]; exact trimmed.2, trimmed.1.symm⟩

theorem trimmed_of_ok {error value text : String} (done : strippedText error value = .ok text) : Trimmed text := by
  obtain ⟨some_, rfl⟩ := (strippedText_ok _ _ _).mp done
  exact ⟨strip_strip value, some_⟩

/-- What the validators of a plan establish. -/
structure PromotionGraphPlan.Valid (p : Platform) (plan : PromotionGraphPlan) : Prop where
  subjectEntityId : Trimmed plan.subjectEntityId ∧ ¬promotionGraphSubjectMaxLength < plan.subjectEntityId.length
  predicate : Trimmed plan.predicate ∧ ¬promotionGraphPredicateMaxLength < plan.predicate.length
  arguments : NormalArguments p plan.arguments
  qualifiers : NormalArguments p plan.qualifiers
  subject : ∀ e, plan.subject = some e → e.Valid p
  object : ∀ e, plan.object = some e → e.Valid p
  related : plan.relationArguments = .ok plan.arguments
  planHash : plan.planHash = deterministicContractId p "canonical-promotion-graph-plan" plan.hashPayload

theorem fetch_proper {raw : Entries} (proper : (Value.dict raw).Proper) (key : String) : (fetch raw key).Proper := by
  unfold fetch
  cases found : Dict.get raw key with
  | none => trivial
  | some v => exact (properEntries_iff raw).mp proper.2 (key, v) (Dict.get_eq_some found)

theorem argumentsField_proper {raw arguments : Entries} {key : String} (proper : (Value.dict raw).Proper)
    (done : argumentsField raw key = .ok arguments) : (Value.dict arguments).Proper := by
  unfold argumentsField at done
  split at done
  · cases done
    exact ⟨List.nodup_nil, trivial⟩
  · rename_i entries found
    cases done
    have here := fetch_proper proper key
    rw [fetch, found] at here
    exact here
  · cases done

/-- The arguments of a v1 plan stay, those of a v2 plan become the qualifiers, and a second look changes nothing. -/
theorem PromotionGraphPlan.relationArguments_ok {plan : PromotionGraphPlan} {related : Entries}
    (proper : (Value.dict plan.qualifiers).Proper) (done : plan.relationArguments = .ok related) :
    (related = plan.arguments ∨ related = plan.qualifiers) ∧
      ({ plan with arguments := related }).relationArguments = .ok related := by
  unfold PromotionGraphPlan.relationArguments at done ⊢
  cases version : plan.schemaVersion with
  | v1 =>
      simp only [version] at done ⊢
      split at done
      · cases done
      · rename_i some_
        cases done
        exact ⟨.inl rfl, if_neg some_⟩
  | v2 =>
      simp only [version] at done ⊢
      split at done
      · rename_i subject object first second
        split at done
        · cases done
        · rename_i matches_
          split at done
          · cases done
          · rename_i apart
            split at done
            · cases done
            · cases done
              refine ⟨.inr rfl, ?_⟩
              rw [if_neg matches_, if_neg apart, sameDict_refl proper, Bool.not_true, Bool.and_false,
                if_neg Bool.false_ne_true]
      · cases done

theorem PromotionGraphPlan.validate_ok {plan out : PromotionGraphPlan} (arguments : (Value.dict plan.arguments).Proper)
    (qualifiers : (Value.dict plan.qualifiers).Proper) (subject : ∀ e, plan.subject = some e → e.Valid p)
    (object : ∀ e, plan.object = some e → e.Valid p) (done : PromotionGraphPlan.validate p plan = .ok out) :
    out.Valid p := by
  unfold PromotionGraphPlan.validate at done
  obtain ⟨subjectId, named, done⟩ := Fallible.bind_ok done
  obtain ⟨subjectShort, done⟩ := Fallible.unless_ok done
  obtain ⟨predicate, predicated, done⟩ := Fallible.bind_ok done
  obtain ⟨predicateShort, done⟩ := Fallible.unless_ok done
  obtain ⟨trimmed, normal, done⟩ := Fallible.bind_ok done
  obtain ⟨trimmedQualifiers, normalQualifiers, done⟩ := Fallible.bind_ok done
  obtain ⟨related, relation, done⟩ := Fallible.bind_ok done
  obtain ⟨_, done⟩ := Fallible.unless_ok done
  cases done
  have first := normal_of_validate arguments normal
  have second := normal_of_validate qualifiers normalQualifiers
  obtain ⟨one, relation⟩ := PromotionGraphPlan.relationArguments_ok second.proper relation
  refine ⟨⟨trimmed_of_ok named, subjectShort⟩, ⟨trimmed_of_ok predicated, predicateShort⟩, ?_, second, subject, object,
    relation, rfl⟩
  rcases one with rfl | rfl
  · exact first
  · exact second

variable (p) in
/-- The fields of a plan, once its version is read. -/
def PromotionGraphPlan.parseFields (raw : Entries) (schemaVersion : PlanVersion) : Except String PromotionGraphPlan := do
  let subjectEntityId ← textField raw "subject_entity_id"
  let predicate ← textField raw "predicate"
  let arguments ← argumentsField raw "arguments"
  let subject ← GraphRelationEndpoint.parse p (fetch raw "subject")
  let object ← GraphRelationEndpoint.parse p (fetch raw "object")
  let qualifiers ← argumentsField raw "qualifiers"
  let planHash ← if (Dict.get raw "plan_hash").isNone then .ok "" else textField raw "plan_hash"
  PromotionGraphPlan.validate p
    { schemaVersion, subjectEntityId, predicate, arguments, subject, object, qualifiers, planHash }

theorem PromotionGraphPlan.parse_ok {raw : Entries} {plan : PromotionGraphPlan}
    (done : PromotionGraphPlan.parse p raw = .ok plan) : ∃ version, PromotionGraphPlan.parseFields p raw version = .ok plan := by
  unfold PromotionGraphPlan.parse at done
  cases found : Dict.get raw "schema_version" with
  | none =>
      rw [found] at done
      exact ⟨.v1, done⟩
  | some value =>
      rw [found] at done
      dsimp only at done
      by_cases first : value.text = some PlanVersion.v1.text
      · rw [if_pos first] at done
        exact ⟨.v1, done⟩
      · by_cases second : value.text = some PlanVersion.v2.text
        · rw [if_neg first, if_pos second] at done
          exact ⟨.v2, done⟩
        · rw [if_neg first, if_neg second] at done
          cases done

theorem PromotionGraphPlan.parse_version {raw : Entries} {version : PlanVersion}
    (found : Dict.get raw "schema_version" = some (.str version.text)) :
    PromotionGraphPlan.parse p raw = PromotionGraphPlan.parseFields p raw version := by
  unfold PromotionGraphPlan.parse
  rw [found]
  cases version with
  | v1 => exact if_pos rfl
  | v2 => exact (if_neg (by decide)).trans (if_pos rfl)

theorem PromotionGraphPlan.valid_of_parse {raw : Entries} {plan : PromotionGraphPlan}
    (proper : (Value.dict raw).Proper) (done : PromotionGraphPlan.parse p raw = .ok plan) : plan.Valid p := by
  obtain ⟨version, done⟩ := PromotionGraphPlan.parse_ok done
  unfold PromotionGraphPlan.parseFields at done
  obtain ⟨subjectId, _, done⟩ := Fallible.bind_ok done
  obtain ⟨predicate, _, done⟩ := Fallible.bind_ok done
  obtain ⟨arguments, ofArguments, done⟩ := Fallible.bind_ok done
  obtain ⟨subject, ofSubject, done⟩ := Fallible.bind_ok done
  obtain ⟨object, ofObject, done⟩ := Fallible.bind_ok done
  obtain ⟨qualifiers, ofQualifiers, done⟩ := Fallible.bind_ok done
  obtain ⟨planHash, _, done⟩ := Fallible.choice_ok done
  refine PromotionGraphPlan.validate_ok (argumentsField_proper proper ofArguments)
    (argumentsField_proper proper ofQualifiers) (fun e (same : subject = some e) => ?_) (fun e (same : object = some e) => ?_)
    done
  · exact GraphRelationEndpoint.parse_ok (same ▸ ofSubject)
  · exact GraphRelationEndpoint.parse_ok (same ▸ ofObject)

/-- The plan with its arguments in order. -/
def PromotionGraphPlan.inOrder (plan : PromotionGraphPlan) : PromotionGraphPlan :=
  { plan with
    arguments := plan.arguments.insertionSort fun a b => a.1 ≤ b.1
    qualifiers := plan.qualifiers.insertionSort fun a b => a.1 ≤ b.1 }

theorem NormalArguments.sorted {arguments : Entries} (normal : NormalArguments p arguments) :
    (Value.dict (arguments.insertionSort fun a b => a.1 ≤ b.1)).sorted = (Value.dict arguments).sorted :=
  (sorted_dict_perm normal.proper.1 (List.perm_insertionSort _ arguments).symm).symm

/-- The hash does not see the order of the arguments. -/
theorem PromotionGraphPlan.Valid.hash_inOrder (documented : p.Documented) {plan : PromotionGraphPlan}
    (valid : plan.Valid p) :
    deterministicContractId p "canonical-promotion-graph-plan" plan.inOrder.hashPayload = plan.planHash := by
  have entries : sortedEntries plan.inOrder.hashPayload = sortedEntries plan.hashPayload := by
    have first := valid.arguments.sorted
    have second := valid.qualifiers.sorted
    unfold PromotionGraphPlan.hashPayload PromotionGraphPlan.inOrder
    cases version : plan.schemaVersion with
    | v1 => simp only [sortedEntries, first, List.append_nil]
    | v2 => simp only [sortedEntries, first, second, List.cons_append, List.nil_append]
  have text : p.dumps (.dict plan.inOrder.hashPayload) = p.dumps (.dict plan.hashPayload) :=
    documented.sortKeys _ _ (by rw [Value.sorted, Value.sorted, entries])
  rw [valid.planHash, deterministicContractId, deterministicContractId, text]

theorem PromotionGraphPlan.Valid.relation_inOrder {plan : PromotionGraphPlan} (valid : plan.Valid p) :
    plan.inOrder.relationArguments = .ok plan.inOrder.arguments := by
  have related := valid.related
  have proper : (Value.dict plan.inOrder.qualifiers).Proper := proper_insertionSort valid.qualifiers.proper
  unfold PromotionGraphPlan.relationArguments at related ⊢
  cases version : plan.schemaVersion with
  | v1 =>
      simp only [version] at related
      simp only [PromotionGraphPlan.inOrder, version]
      split at related
      · cases related
      · rename_i some_
        rw [if_neg]
        rw [List.isEmpty_iff] at some_ ⊢
        rw [← List.length_eq_zero_iff, List.length_insertionSort, List.length_eq_zero_iff]
        exact some_
  | v2 =>
      simp only [version] at related
      simp only [PromotionGraphPlan.inOrder, version]
      split at related
      · split at related
        · cases related
        · rename_i matches_
          split at related
          · cases related
          · rename_i apart
            split at related
            · cases related
            · have same : plan.qualifiers = plan.arguments := Except.ok.inj related
              have itself := sameDict_refl proper
              unfold PromotionGraphPlan.inOrder at itself
              rw [if_neg matches_, if_neg apart, ← same, itself, Bool.not_true, Bool.and_false,
                if_neg Bool.false_ne_true]
      · cases related

/-- A plan that was written is read again, with its hash. -/
theorem PromotionGraphPlan.Valid.parse_dump (documented : p.Documented) {plan : PromotionGraphPlan}
    (valid : plan.Valid p) : PromotionGraphPlan.parse p plan.dump = .ok plan.inOrder := by
  have validated : PromotionGraphPlan.validate p plan = .ok plan.inOrder := by
    refine Fallible.ok_bind (valid.subjectEntityId.1.again _) (Fallible.ok_unless valid.subjectEntityId.2
      (Fallible.ok_bind (valid.predicate.1.again _) (Fallible.ok_unless valid.predicate.2
        (Fallible.ok_bind (valid.arguments.again documented fun h => (by cases h))
          (Fallible.ok_bind (valid.qualifiers.again documented fun h => (by cases h))
            (Fallible.ok_bind valid.relation_inOrder (Fallible.ok_unless ?_ ?_)))))))
    · exact fun wrong => wrong.2 (valid.hash_inOrder documented).symm
    · exact congrArg (fun hash => Except.ok { plan.inOrder with planHash := hash }) (valid.hash_inOrder documented)
  have read : PromotionGraphPlan.parse p plan.dump = PromotionGraphPlan.parseFields p plan.dump plan.schemaVersion :=
    PromotionGraphPlan.parse_version rfl
  have subjectEntityId : textField plan.dump "subject_entity_id" = .ok plan.subjectEntityId := rfl
  have predicate : textField plan.dump "predicate" = .ok plan.predicate := rfl
  have arguments : argumentsField plan.dump "arguments" = .ok plan.arguments := rfl
  have subject : GraphRelationEndpoint.parse p (fetch plan.dump "subject") = .ok plan.subject :=
    GraphRelationEndpoint.parse_dump_option valid.subject
  have object : GraphRelationEndpoint.parse p (fetch plan.dump "object") = .ok plan.object :=
    GraphRelationEndpoint.parse_dump_option valid.object
  have qualifiers : argumentsField plan.dump "qualifiers" = .ok plan.qualifiers := rfl
  have planHash : (if (Dict.get plan.dump "plan_hash").isNone then .ok "" else textField plan.dump "plan_hash") =
      .ok plan.planHash := rfl
  rw [read, PromotionGraphPlan.parseFields, subjectEntityId, predicate, arguments, subject, object, qualifiers]
  refine Fallible.ok_bind rfl (Fallible.ok_bind rfl (Fallible.ok_bind rfl (Fallible.ok_bind rfl (Fallible.ok_bind rfl
    (Fallible.ok_bind rfl ?_)))))
  exact Fallible.ok_choice planHash validated

/-! ## Receipts -/

theorem mem_sortedSet {texts : List String} {text : String} : text ∈ sortedSet texts ↔ text ∈ texts := by
  unfold sortedSet
  rw [List.mem_insertionSort, List.mem_dedup]

theorem sortedSet_inj {texts others : List String} : sortedSet texts = sortedSet others ↔ ∀ text, text ∈ texts ↔ text ∈ others := by
  constructor
  · intro same text
    rw [← mem_sortedSet, same, mem_sortedSet]
  · intro members
    have perm : texts.dedup.Perm others.dedup :=
      (List.perm_ext_iff_of_nodup texts.nodup_dedup others.nodup_dedup).mpr fun text => by
        rw [List.mem_dedup, List.mem_dedup, members]
    refine List.Perm.eq_of_pairwise (fun a b _ _ => le_antisymm) (List.pairwise_insertionSort _ _)
      (List.pairwise_insertionSort _ _) ?_
    exact (List.perm_insertionSort _ _).trans (perm.trans (List.perm_insertionSort _ _).symm)

theorem blank_eq_false {text : String} : blank text = false ↔ strip text ≠ "" := by
  rw [ne_eq, strip_eq_empty, ← List.all_eq_true, Bool.not_eq_true]
  rfl

theorem mem_stripped {texts : List String} {text : String} :
    text ∈ (texts.filter fun text => !blank text).map strip ↔ ∃ old ∈ texts, strip old ≠ "" ∧ text = strip old := by
  simp only [List.mem_map, List.mem_filter, Bool.not_eq_true', blank_eq_false]
  exact ⟨fun ⟨old, ⟨member, some_⟩, same⟩ => ⟨old, member, some_, same.symm⟩,
    fun ⟨old, member, some_, same⟩ => ⟨old, ⟨member, some_⟩, same.symm⟩⟩

theorem mem_strippedSet {texts : List String} {text : String} :
    text ∈ strippedSet texts ↔ ∃ old ∈ texts, strip old ≠ "" ∧ text = strip old := by
  unfold strippedSet
  rw [mem_sortedSet, mem_stripped]

/-- The stripped set is the set exactly when there was nothing to strip. -/
theorem strippedSet_eq_iff {texts : List String} : strippedSet texts = sortedSet texts ↔ ∀ text ∈ texts, Trimmed text := by
  constructor
  · intro same text member
    obtain ⟨old, -, some_, rfl⟩ := mem_strippedSet.mp (same ▸ mem_sortedSet.mpr member)
    exact ⟨strip_strip old, some_⟩
  · intro trimmed
    refine sortedSet_inj.mpr fun text => mem_stripped.trans ⟨?_, fun member => ?_⟩
    · rintro ⟨old, member, -, rfl⟩
      rw [(trimmed old member).1]
      exact member
    · have := trimmed text member
      exact ⟨text, member, this.1.symm ▸ this.2, this.1.symm⟩

theorem strippedSet_strippedSet (texts : List String) : strippedSet (strippedSet texts) = strippedSet texts := by
  have trimmed : ∀ text ∈ strippedSet texts, Trimmed text := by
    intro text member
    obtain ⟨old, -, some_, rfl⟩ := mem_strippedSet.mp member
    exact ⟨strip_strip old, some_⟩
  rw [strippedSet_eq_iff.mpr trimmed]
  exact sortedSet_inj.mpr fun _ => mem_sortedSet

theorem textItems_texts (texts : List String) : textItems (.list (texts.map .str)) = .ok texts := by
  change (texts.map Value.str).mapM _ = _
  induction texts with
  | nil => rfl
  | cons text rest ih =>
      rw [List.map_cons, List.mapM_cons]
      exact Fallible.ok_bind (a := text) rfl (Fallible.ok_bind ih rfl)

/-- The fields that a receipt is read from. -/
structure ReceiptFields (p : Platform) (raw : Entries) (receiptId : String) (read : PromotionAdmissionReceipt) : Prop where
  literals : literalField raw "receipt_version" "canonical_memory_promotion_admission.v1" = .ok () ∧
    literalField raw "planner_id" "canonical_batched_promotion" = .ok () ∧
    literalField raw "planner_version" "v2" = .ok () ∧ literalField raw "decision" "durable" = .ok ()
  memoryId : textField raw "memory_id" = .ok read.memoryId
  revision : p.readInt (fetch raw "source_item_revision") = some read.sourceItemRevision
  contentHash : textField raw "output_content_hash" = .ok read.outputContentHash
  evidenceIds : textItems (fetch raw "evidence_ids") = .ok read.evidenceIds
  planHash : textField raw "graph_plan_hash" = .ok read.graphPlanHash
  supersedes : (if (Dict.get raw "supersedes").isNone then .ok [] else textItems (fetch raw "supersedes")) =
    .ok read.supersedes
  receiptId : (if (Dict.get raw "receipt_id").isNone then .ok "" else textField raw "receipt_id") = .ok receiptId

/-- The receipt as its validators leave it. -/
def PromotionAdmissionReceipt.stripped (read : PromotionAdmissionReceipt) : PromotionAdmissionReceipt :=
  ⟨strip read.memoryId, read.sourceItemRevision, strip read.outputContentHash, strippedSet read.evidenceIds,
    strip read.graphPlanHash, strippedSet read.supersedes⟩

theorem PromotionAdmissionReceipt.parse_ok {raw : Entries} {receiptId : String} {read receipt : PromotionAdmissionReceipt}
    (fields : ReceiptFields p raw receiptId read) : PromotionAdmissionReceipt.parse p raw = .ok receipt ↔
      strip read.memoryId ≠ "" ∧ ¬read.sourceItemRevision < 1 ∧ strip read.outputContentHash ≠ "" ∧
      strippedSet read.evidenceIds ≠ [] ∧ strip read.graphPlanHash ≠ "" ∧
      ¬(receiptId ≠ "" ∧ receiptId ≠ read.stripped.receiptId p) ∧ receipt = read.stripped := by
  unfold PromotionAdmissionReceipt.parse
  rw [fields.literals.1, fields.literals.2.1, fields.literals.2.2.1, fields.literals.2.2.2, fields.memoryId,
    fields.revision, fields.contentHash, fields.evidenceIds, fields.planHash]
  constructor
  · intro done
    obtain ⟨_, _, done⟩ := Fallible.bind_ok done
    obtain ⟨_, _, done⟩ := Fallible.bind_ok done
    obtain ⟨_, _, done⟩ := Fallible.bind_ok done
    obtain ⟨_, _, done⟩ := Fallible.bind_ok done
    obtain ⟨memoryId, named, done⟩ := Fallible.bind_ok done
    obtain ⟨nameSome, rfl⟩ := (ok_strippedText _ read.memoryId _).mp named
    obtain ⟨revision, counted, done⟩ := Fallible.choice_ok done
    obtain ⟨contentHash, hashed, done⟩ := Fallible.bind_ok done
    obtain ⟨hashSome, rfl⟩ := (ok_strippedText _ read.outputContentHash _).mp hashed
    obtain ⟨evidence, listed, done⟩ := Fallible.bind_ok done
    cases listed
    obtain ⟨evidenceSome, done⟩ := Fallible.unless_ok done
    obtain ⟨planHash, planned, done⟩ := Fallible.bind_ok done
    obtain ⟨planSome, rfl⟩ := (ok_strippedText _ read.graphPlanHash _).mp planned
    obtain ⟨supersedes, replaced, done⟩ := Fallible.choice_ok done
    rw [fields.supersedes] at replaced
    cases replaced
    obtain ⟨id, identified, done⟩ := Fallible.choice_ok done
    rw [fields.receiptId] at identified
    cases identified
    obtain ⟨same, done⟩ := Fallible.unless_ok done
    split at counted
    · cases counted
    · rename_i positive
      cases counted
      cases done
      exact ⟨nameSome, positive, hashSome, fun none => evidenceSome (List.isEmpty_iff.mpr none), planSome, same, rfl⟩
  · rintro ⟨nameSome, positive, hashSome, evidenceSome, planSome, same, rfl⟩
    have trim {text : String} (some_ : strip text ≠ "") : ((Except.ok text : Except String String) >>=
        strippedText "promotion admission fields must not be blank") = .ok (strip text) :=
      (ok_strippedText _ text _).mpr ⟨some_, rfl⟩
    have filled : ¬(strippedSet read.evidenceIds).isEmpty = true := fun none => evidenceSome (List.isEmpty_iff.mp none)
    refine Fallible.ok_bind rfl (Fallible.ok_bind rfl (Fallible.ok_bind rfl (Fallible.ok_bind rfl
      (Fallible.ok_bind (trim nameSome) ?_))))
    dsimp only
    rw [if_neg positive]
    refine Fallible.ok_bind (a := read.sourceItemRevision) rfl ?_
    refine Fallible.ok_bind (trim hashSome) (Fallible.ok_bind (a := read.evidenceIds) rfl (Fallible.ok_unless filled
      (Fallible.ok_bind (trim planSome) ?_)))
    exact Fallible.ok_choice fields.supersedes (Fallible.ok_choice fields.receiptId (Fallible.ok_unless same rfl))

theorem PromotionAdmissionReceipt.stripped_stripped (read : PromotionAdmissionReceipt) :
    read.stripped.stripped = read.stripped := by
  unfold PromotionAdmissionReceipt.stripped
  simp only [strip_strip, strippedSet_strippedSet]

theorem dump_fields (documented : p.Documented) (receipt : PromotionAdmissionReceipt) :
    ReceiptFields p (receipt.dump p) (receipt.receiptId p) receipt where
  literals := ⟨rfl, rfl, rfl, rfl⟩
  memoryId := rfl
  revision := documented.readInt _
  contentHash := rfl
  evidenceIds := textItems_texts _
  planHash := rfl
  supersedes := textItems_texts _
  receiptId := rfl

/-! ## Admission -/

/-- What a receipt is built from besides the plan. -/
structure ItemData where
  memoryId : String
  sourceItemRevision : Int
  outputContentHash : String
  evidenceIds : List String
  supersedes : List String

variable (p) in
def ItemData.receipt (item : ItemData) (plan : PromotionGraphPlan) : Except String PromotionAdmissionReceipt :=
  buildPromotionAdmissionReceipt p item.memoryId item.sourceItemRevision item.outputContentHash item.evidenceIds plan
    item.supersedes

variable (p) in
def ItemData.admitted (item : ItemData) (subjectEntityId predicate : Option String) (arguments promotion : Entries) : Bool :=
  validPromotionAdmission p item.memoryId item.sourceItemRevision item.outputContentHash item.evidenceIds subjectEntityId
    predicate arguments item.supersedes promotion

/-- No blank text and no white space around one. -/
structure ItemData.Plain (item : ItemData) : Prop where
  memoryId : strip item.memoryId = item.memoryId
  outputContentHash : strip item.outputContentHash = item.outputContentHash
  evidenceIds : ∀ id ∈ item.evidenceIds, Trimmed id
  supersedes : ∀ id ∈ item.supersedes, Trimmed id

/-- The arguments of the constructor. -/
def ItemData.unread (item : ItemData) (plan : PromotionGraphPlan) : PromotionAdmissionReceipt :=
  ⟨item.memoryId, item.sourceItemRevision, item.outputContentHash, item.evidenceIds, plan.planHash, item.supersedes⟩

theorem build_fields (documented : p.Documented) (item : ItemData) (plan : PromotionGraphPlan) : ReceiptFields p
    [("memory_id", .str item.memoryId), ("source_item_revision", .int item.sourceItemRevision),
      ("output_content_hash", .str item.outputContentHash), ("evidence_ids", .list (item.evidenceIds.map .str)),
      ("graph_plan_hash", .str plan.planHash), ("supersedes", .list (item.supersedes.map .str))] "" (item.unread plan) where
  literals := ⟨rfl, rfl, rfl, rfl⟩
  memoryId := rfl
  revision := documented.readInt _
  contentHash := rfl
  evidenceIds := textItems_texts _
  planHash := rfl
  supersedes := textItems_texts _
  receiptId := rfl

theorem PromotionGraphPlan.Valid.trimmed_hash (documented : p.Documented) {plan : PromotionGraphPlan} (valid : plan.Valid p) :
    Trimmed plan.planHash := by
  rw [valid.planHash]
  exact documented.hexdigest _

/-- A receipt is built for every item with a name, a content and evidence. -/
theorem ItemData.receipt_total (documented : p.Documented) {item : ItemData} {plan : PromotionGraphPlan}
    (valid : plan.Valid p) (named : strip item.memoryId ≠ "") (positive : 1 ≤ item.sourceItemRevision)
    (content : strip item.outputContentHash ≠ "") (evidence : strippedSet item.evidenceIds ≠ []) :
    item.receipt p plan = .ok (item.unread plan).stripped := by
  obtain ⟨digest, some_⟩ := valid.trimmed_hash documented
  refine (PromotionAdmissionReceipt.parse_ok (build_fields documented item plan)).mpr
    ⟨named, by change ¬item.sourceItemRevision < 1; omega, content, evidence, ?_, fun wrong => wrong.1 rfl, rfl⟩
  change strip plan.planHash ≠ ""
  rw [digest]
  exact some_

theorem ItemData.receipt_ok (documented : p.Documented) {item : ItemData} {plan : PromotionGraphPlan}
    (valid : plan.Valid p) {receipt : PromotionAdmissionReceipt} (built : item.receipt p plan = .ok receipt) :
    PromotionAdmissionReceipt.parse p (receipt.dump p) = .ok receipt ∧ receipt.graphPlanHash = plan.planHash ∧
      receipt.memoryId = strip item.memoryId ∧ receipt.sourceItemRevision = item.sourceItemRevision ∧
      receipt.outputContentHash = strip item.outputContentHash ∧ receipt.evidenceIds = strippedSet item.evidenceIds ∧
      receipt.supersedes = strippedSet item.supersedes := by
  obtain ⟨nameSome, positive, hashSome, evidenceSome, planSome, -, rfl⟩ :=
    (PromotionAdmissionReceipt.parse_ok (build_fields documented item plan)).mp built
  have digest : strip plan.planHash = plan.planHash := (valid.trimmed_hash documented).1
  refine ⟨(PromotionAdmissionReceipt.parse_ok (dump_fields documented (item.unread plan).stripped)).mpr ?_, digest, rfl, rfl,
    rfl, rfl, rfl⟩
  rw [(item.unread plan).stripped_stripped]
  refine ⟨?_, positive, ?_, ?_, ?_, fun wrong => wrong.2 rfl, rfl⟩
  · exact (strip_strip item.memoryId).symm ▸ nameSome
  · exact (strip_strip item.outputContentHash).symm ▸ hashSome
  · exact (strippedSet_strippedSet item.evidenceIds).symm ▸ evidenceSome
  · exact (strip_strip plan.planHash).symm ▸ planSome

/-- What a receipt admits, whatever plan is stored with it. -/
theorem ItemData.admitted_iff {promotion rawReceipt : Entries} {receipt : PromotionAdmissionReceipt}
    (stored : fetch promotion "admission_receipt" = .dict rawReceipt)
    (parsed : PromotionAdmissionReceipt.parse p rawReceipt = .ok receipt) (item : ItemData)
    (subjectEntityId predicate : Option String) (arguments : Entries) :
    item.admitted p subjectEntityId predicate arguments promotion = true ↔
      ∃ raw plan normalized, fetch promotion "graph_plan" = .dict raw ∧ PromotionGraphPlan.parse p raw = .ok plan ∧
        validateAndNormalizeArguments p arguments true = .ok normalized ∧ receipt.memoryId = item.memoryId ∧
        receipt.sourceItemRevision = item.sourceItemRevision ∧ receipt.outputContentHash = item.outputContentHash ∧
        receipt.evidenceIds = sortedSet item.evidenceIds ∧ receipt.graphPlanHash = plan.planHash ∧
        plan.subjectEntityId = subjectEntityId.getD "" ∧ plan.predicate = predicate.getD "" ∧
        sameDict plan.arguments normalized = true ∧ receipt.supersedes = sortedSet item.supersedes ∧
        item.memoryId ∉ receipt.supersedes := by
  unfold ItemData.admitted validPromotionAdmission
  rw [stored]
  constructor
  · intro valid
    split at valid
    · rename_i raw raw' planned received
      cases received
      rw [parsed] at valid
      split at valid
      · rename_i plan receipt' normalized planRead receiptRead argumentsRead
        cases receiptRead
        simp only [Bool.and_eq_true, beq_iff_eq, Bool.not_eq_true', List.contains_eq_mem, decide_eq_false_iff_not] at valid
        obtain ⟨⟨⟨⟨⟨⟨⟨⟨⟨memoryId, revision⟩, hash⟩, evidence⟩, planHash⟩, subject⟩, predicated⟩, same⟩, supersedes⟩, other⟩ :=
          valid
        exact ⟨raw, plan, normalized, planned, planRead, argumentsRead, memoryId, revision, hash, evidence, planHash,
          subject, predicated, same, supersedes, other⟩
      · cases valid
    · cases valid
  · rintro ⟨raw, plan, normalized, planned, planRead, argumentsRead, memoryId, revision, hash, evidence, planHash, subject,
      predicated, same, supersedes, other⟩
    rw [planned]
    dsimp only
    rw [planRead, parsed, argumentsRead]
    simp only [Bool.and_eq_true, beq_iff_eq, Bool.not_eq_true', List.contains_eq_mem, decide_eq_false_iff_not]
    exact ⟨⟨⟨⟨⟨⟨⟨⟨⟨memoryId, revision⟩, hash⟩, evidence⟩, planHash⟩, subject⟩, predicated⟩, same⟩, supersedes⟩, other⟩

variable (p) in
/-- The record that the promotion of the item stores. -/
def promotionRecord (plan : PromotionGraphPlan) (receipt : PromotionAdmissionReceipt) : Entries :=
  [("graph_plan", .dict plan.dump), ("admission_receipt", .dict (receipt.dump p))]

variable (p) in
/-- No plan in the record has this plan's hash for something else. -/
def NoCollision (plan : PromotionGraphPlan) (promotion : Entries) : Prop :=
  ∀ raw other, fetch promotion "graph_plan" = .dict raw → PromotionGraphPlan.parse p raw = .ok other →
    other.planHash = plan.planHash → sameDict plan.hashPayload other.hashPayload = true

/-- The data that were admitted: ids as sets, arguments by `==` once they are normalised. -/
structure SameAdmission (p : Platform) (plan : PromotionGraphPlan) (item other : ItemData)
    (subjectEntityId predicate : Option String) (arguments : Entries) : Prop where
  memoryId : other.memoryId = item.memoryId
  sourceItemRevision : other.sourceItemRevision = item.sourceItemRevision
  outputContentHash : other.outputContentHash = item.outputContentHash
  evidenceIds : ∀ id, id ∈ other.evidenceIds ↔ id ∈ item.evidenceIds
  subjectEntityId : subjectEntityId = some plan.subjectEntityId
  predicate : predicate = some plan.predicate
  arguments : ∃ normalized, validateAndNormalizeArguments p arguments true = .ok normalized ∧
    sameDict plan.arguments normalized = true
  supersedes : ∀ id, id ∈ other.supersedes ↔ id ∈ item.supersedes

structure VerifiesExactly (p : Platform) (item : ItemData) (plan : PromotionGraphPlan)
    (receipt : PromotionAdmissionReceipt) : Prop where
  accepts : item.admitted p (some plan.subjectEntityId) (some plan.predicate) plan.arguments
    (promotionRecord p plan receipt) = true
  rejects : ∀ (promotion : Entries) (other : ItemData) (subjectEntityId predicate : Option String) (arguments : Entries),
    fetch promotion "admission_receipt" = .dict (receipt.dump p) → NoCollision p plan promotion →
    other.admitted p subjectEntityId predicate arguments promotion = true →
    SameAdmission p plan item other subjectEntityId predicate arguments

section Exactness

variable {item : ItemData} {plan : PromotionGraphPlan} {receipt : PromotionAdmissionReceipt}

/-- What the verifier does not normalise has to be normal already. -/
theorem plain_of_accepts (documented : p.Documented) (valid : plan.Valid p) (built : item.receipt p plan = .ok receipt)
    (accepted : item.admitted p (some plan.subjectEntityId) (some plan.predicate) plan.arguments
      (promotionRecord p plan receipt) = true) : item.Plain ∧ plan.arguments ≠ [] := by
  obtain ⟨parsed, -, memoryId, -, hash, evidence, supersedes⟩ := ItemData.receipt_ok documented valid built
  obtain ⟨raw, other, normalized, -, -, read, name, -, content, listed, -, -, -, -, replaced, -⟩ :=
    (ItemData.admitted_iff rfl parsed item _ _ _).mp accepted
  refine ⟨⟨?_, ?_, strippedSet_eq_iff.mp (evidence ▸ listed), strippedSet_eq_iff.mp (supersedes ▸ replaced)⟩, ?_⟩
  · rw [← memoryId, name]
  · rw [← hash, content]
  · intro none
    obtain ⟨-, -, trimmed, filled, -⟩ := (validateAndNormalizeArguments_ok _ _ _).mp read
    obtain ⟨-, -, rfl⟩ := (normalizedArguments_ok _ _).mp trimmed
    rw [none] at filled
    exact filled rfl

theorem accepts_of_plain (documented : p.Documented) (valid : plan.Valid p) (built : item.receipt p plan = .ok receipt)
    (separate : item.memoryId ∉ item.supersedes) (plain : item.Plain) (filled : plan.arguments ≠ []) :
    item.admitted p (some plan.subjectEntityId) (some plan.predicate) plan.arguments (promotionRecord p plan receipt) =
      true := by
  obtain ⟨parsed, planHash, memoryId, revision, hash, evidence, supersedes⟩ := ItemData.receipt_ok documented valid built
  have replaced : receipt.supersedes = sortedSet item.supersedes :=
    supersedes.trans (strippedSet_eq_iff.mpr plain.supersedes)
  refine (ItemData.admitted_iff rfl parsed item _ _ _).mpr ⟨plan.dump, plan.inOrder, plan.inOrder.arguments, rfl,
    valid.parse_dump documented, valid.arguments.again documented fun _ => filled, memoryId.trans plain.memoryId, revision,
    hash.trans plain.outputContentHash, evidence.trans (strippedSet_eq_iff.mpr plain.evidenceIds), planHash, rfl, rfl, ?_,
    replaced, ?_⟩
  · exact sameDict_refl (proper_insertionSort valid.arguments.proper)
  · rw [replaced, mem_sortedSet]
    exact separate

theorem eq_some_of_getD {given_ : Option String} {text : String} (same : given_.getD "" = text) (some_ : text ≠ "") :
    given_ = some text := by
  cases given_ with
  | none => exact absurd same.symm some_
  | some t => exact congrArg some same

/-- Equal payloads speak of the same relation. -/
theorem hashPayload_same {other : PromotionGraphPlan} (same : sameDict plan.hashPayload other.hashPayload = true) :
    other.subjectEntityId = plan.subjectEntityId ∧ other.predicate = plan.predicate ∧
      sameDict plan.arguments other.arguments = true := by
  obtain ⟨-, fields⟩ := (sameDict_iff _ _).mp same
  have member {e : String × Value} (inside : e ∈ [("schema_version", Value.str plan.schemaVersion.text),
      ("subject_entity_id", .str plan.subjectEntityId), ("predicate", .str plan.predicate),
      ("arguments", .dict plan.arguments)]) : e ∈ plan.hashPayload := List.mem_append_left _ inside
  obtain ⟨subject, first, sameSubject⟩ := fields ("subject_entity_id", .str plan.subjectEntityId) (member (by simp))
  obtain ⟨predicate, second, samePredicate⟩ := fields ("predicate", .str plan.predicate) (member (by simp))
  obtain ⟨arguments, third, sameArguments⟩ := fields ("arguments", .dict plan.arguments) (member (by simp))
  have subjectIs : some (Value.str other.subjectEntityId) = some subject := first
  have predicateIs : some (Value.str other.predicate) = some predicate := second
  have argumentsIs : some (Value.dict other.arguments) = some arguments := third
  cases subjectIs
  cases predicateIs
  cases argumentsIs
  refine ⟨?_, ?_, sameArguments⟩
  · simpa [Value.same, Value.text] using sameSubject
  · simpa [Value.same, Value.text] using samePredicate

theorem rejects_of_plain (documented : p.Documented) (valid : plan.Valid p) (built : item.receipt p plan = .ok receipt)
    (plain : item.Plain) {promotion : Entries} {other : ItemData} {subjectEntityId predicate : Option String}
    {arguments : Entries} (stored : fetch promotion "admission_receipt" = .dict (receipt.dump p))
    (apart : NoCollision p plan promotion)
    (accepted : other.admitted p subjectEntityId predicate arguments promotion = true) :
    SameAdmission p plan item other subjectEntityId predicate arguments := by
  obtain ⟨parsed, planHash, memoryId, revision, hash, evidence, supersedes⟩ := ItemData.receipt_ok documented valid built
  obtain ⟨raw, found, normalized, planned, planRead, read, name, counted, content, listed, planned', subject, predicated,
    same, replaced, -⟩ := (ItemData.admitted_iff stored parsed other _ _ _).mp accepted
  obtain ⟨sameSubject, samePredicate, sameArguments⟩ :=
    hashPayload_same (apart raw found planned planRead (planned'.symm.trans planHash))
  refine ⟨?_, counted.symm.trans revision, ?_, ?_, ?_, ?_, ⟨normalized, read, sameDict_trans sameArguments same⟩, ?_⟩
  · rw [← name, memoryId, plain.memoryId]
  · rw [← content, hash, plain.outputContentHash]
  · exact sortedSet_inj.mp (listed.symm.trans (evidence.trans (strippedSet_eq_iff.mpr plain.evidenceIds)))
  · exact eq_some_of_getD (subject.symm.trans sameSubject) valid.subjectEntityId.1.2
  · exact eq_some_of_getD (predicated.symm.trans samePredicate) valid.predicate.1.2
  · exact sortedSet_inj.mp (replaced.symm.trans (supersedes.trans (strippedSet_eq_iff.mpr plain.supersedes)))

end Exactness

/-- A receipt verifies exactly what it admits if nothing had to be stripped and there is an argument. -/
theorem receipt_verifies_iff (documented : p.Documented) {raw : Entries} {plan : PromotionGraphPlan}
    (proper : (Value.dict raw).Proper) (parsed : PromotionGraphPlan.parse p raw = .ok plan) {item : ItemData}
    {receipt : PromotionAdmissionReceipt} (separate : item.memoryId ∉ item.supersedes)
    (built : item.receipt p plan = .ok receipt) :
    VerifiesExactly p item plan receipt ↔ item.Plain ∧ plan.arguments ≠ [] := by
  have valid := PromotionGraphPlan.valid_of_parse proper parsed
  constructor
  · intro verifies
    exact plain_of_accepts documented valid built verifies.accepts
  · rintro ⟨plain, filled⟩
    refine ⟨accepts_of_plain documented valid built separate plain filled, ?_⟩
    intro promotion other subjectEntityId predicate arguments stored apart accepted
    exact rejects_of_plain documented valid built plain stored apart accepted

/-! ## Sample plans -/

mutual
/-- Compact JSON of values without floats whose texts need no escape. -/
def Value.written : Value → String
  | .none => "null"
  | .bool b => if b then "true" else "false"
  | .int n => toString n
  | .float _ => "0.0"
  | .str s => "\"" ++ s ++ "\""
  | .list items => "[" ++ writtenItems items ++ "]"
  | .dict entries => "\x7b" ++ writtenEntries entries ++ "\x7d"

def writtenItems : List Value → String
  | [] => ""
  | [v] => Value.written v
  | v :: rest => Value.written v ++ "," ++ writtenItems rest

def writtenEntries : Entries → String
  | [] => ""
  | [(key, v)] => "\"" ++ key ++ "\":" ++ Value.written v
  | (key, v) :: rest => "\"" ++ key ++ "\":" ++ Value.written v ++ "," ++ writtenEntries rest
end

def hexDigit (n : Nat) : Char := if n < 10 then Char.ofNat (48 + n) else Char.ofNat (87 + n)

/-- Some 64 digits, of which four depend on the text. -/
def sampleDigest (text : String) : String :=
  let code := text.toByteArray.data.toList.foldl (fun sum byte => (sum * 31 + byte.toNat) % 65521) 7
  String.ofList ((List.range 4).map (fun k => hexDigit (code / 16 ^ k % 16)) ++ List.replicate 60 '0')

/-- The sample's text functions with sorted keys and a digest that tells texts apart. -/
def textPlatform : Platform := { samplePlatform with dumps := fun v => Value.written v.sorted, sha256 := sampleDigest }

theorem hexDigit_solid {n : Nat} (small : n < 16) : isSpace (hexDigit n) = false := by
  have each : ∀ n < 16, isSpace (hexDigit n) = false := by decide
  exact each n small

theorem textPlatform_documented : textPlatform.Documented where
  sortKeys := fun v w same => congrArg Value.written same
  hexdigest := fun text => by
    have solid : ∀ c ∈ (sampleDigest text).toList, isSpace c = false := by
      intro c member
      rw [sampleDigest, String.toList_ofList, List.mem_append, List.mem_map, List.mem_replicate] at member
      rcases member with ⟨k, -, rfl⟩ | ⟨-, rfl⟩
      · exact hexDigit_solid (Nat.mod_lt _ (by decide))
      · decide
    constructor
    · change strip (sampleDigest text) = sampleDigest text
      rw [strip, stripChars_of_solid solid, String.ofList_toList]
    · intro empty
      have long : (sampleDigest text).toList.length = 64 := by
        rw [sampleDigest, String.toList_ofList, List.length_append, List.length_map, List.length_range,
          List.length_replicate]
      rw [show sampleDigest text = "" from empty] at long
      cases long
  readInt := fun _ => rfl

/-- "The user likes", with the hash of what the plan says. -/
def likesPlan (schemaVersion : PlanVersion) (arguments : Entries) (subject object : Option GraphRelationEndpoint) :
    PromotionGraphPlan :=
  let plan : PromotionGraphPlan := ⟨schemaVersion, "user", "likes", arguments, subject, object, [], ""⟩
  { plan with planHash := deterministicContractId textPlatform "canonical-promotion-graph-plan" plan.hashPayload }

/-- A v1 plan with one argument. -/
def teaPlan : PromotionGraphPlan := likesPlan .v1 [("object", .str "tea")] none none

/-- A v2 plan, whose endpoints say it all. -/
def relationPlan : PromotionGraphPlan :=
  likesPlan .v2 [] (some ⟨"user", "user", "person"⟩) (some ⟨"ent_tea", "ent_tea", "thing"⟩)

/-- The texts of the samples, in lower case and without white space. -/
def sampleWords : List String := ["user", "likes", "object", "ent_tea", "m", "hash", "e1"]

theorem sample_texts : (∀ word ∈ sampleWords, (strip word = word ∧ word ≠ "") ∧ joinedWords word = word ∧
      asciiLower word = word) ∧
    ∀ arguments ∈ [[], [("object", Value.str "tea")]],
      ¬promotionGraphArgumentsMaxJsonBytes < (Value.written (Value.dict arguments).sorted).length := by
  decide +kernel

theorem trimmed_of_sample {word : String} (member : word ∈ sampleWords) : Trimmed word := (sample_texts.1 word member).1

theorem joinedWords_of_sample {word : String} (member : word ∈ sampleWords) : joinedWords word = word :=
  (sample_texts.1 word member).2.1

theorem casefold_of_sample {word : String} (member : word ∈ sampleWords) :
    textPlatform.casefold (joinedWords word) = word := by
  rw [joinedWords_of_sample member]
  exact (sample_texts.1 word member).2.2

theorem normal_nil : NormalArguments textPlatform [] where
  count := by decide
  json := rfl
  trimmed := fun _ member => absurd member List.not_mem_nil
  proper := ⟨List.nodup_nil, trivial⟩
  size := sample_texts.2 _ List.mem_cons_self

theorem normal_tea : NormalArguments textPlatform [("object", .str "tea")] where
  count := by decide
  json := rfl
  trimmed := fun e member => by
    rw [List.mem_singleton.mp member]
    exact trimmed_of_sample (by decide)
  proper := ⟨List.nodup_singleton _, trivial, trivial⟩
  size := sample_texts.2 _ (List.mem_cons_of_mem _ List.mem_cons_self)

theorem user_named : Trimmed "user" ∧ ¬promotionGraphSubjectMaxLength < "user".length :=
  ⟨trimmed_of_sample (by decide), by decide⟩

theorem likes_named : Trimmed "likes" ∧ ¬promotionGraphPredicateMaxLength < "likes".length :=
  ⟨trimmed_of_sample (by decide), by decide⟩

theorem likesPlan_hash (schemaVersion : PlanVersion) (arguments : Entries) (subject object : Option GraphRelationEndpoint) :
    (likesPlan schemaVersion arguments subject object).planHash = deterministicContractId textPlatform
      "canonical-promotion-graph-plan" (likesPlan schemaVersion arguments subject object).hashPayload := rfl

theorem teaPlan_valid : teaPlan.Valid textPlatform where
  subjectEntityId := user_named
  predicate := likes_named
  arguments := normal_tea
  qualifiers := normal_nil
  subject := fun e found => absurd found.symm (Option.some_ne_none e)
  object := fun e found => absurd found.symm (Option.some_ne_none e)
  related := rfl
  planHash := likesPlan_hash _ _ _ _

theorem sample_endpoint {label nodeType : String} (solid : joinedWords label = label ∧ label ≠ "")
    (short : ¬promotionGraphSubjectMaxLength < label.length)
    (known : nodeType ∈ ["person", "place", "organization", "thing", "concept"])
    (derived : canonicalGraphEntityId textPlatform label = .ok label) :
    (⟨label, label, nodeType⟩ : GraphRelationEndpoint).Valid textPlatform := ⟨solid, short, known, derived⟩

theorem user_entity : canonicalGraphEntityId textPlatform "user" = .ok "user" := by
  have normalized : textPlatform.casefold (String.ofList (join ' ' (words "user".toList))) = "user" :=
    casefold_of_sample (by decide)
  unfold canonicalGraphEntityId
  rw [normalized]
  exact (if_neg (by decide)).trans (if_pos rfl)

theorem tea_entity : canonicalGraphEntityId textPlatform "ent_tea" = .ok "ent_tea" := by
  have normalized : textPlatform.casefold (String.ofList (join ' ' (words "ent_tea".toList))) = "ent_tea" :=
    casefold_of_sample (by decide)
  unfold canonicalGraphEntityId
  rw [normalized]
  exact (if_neg (by decide)).trans ((if_neg (by decide)).trans (if_pos (by decide)))

theorem relationPlan_valid : relationPlan.Valid textPlatform where
  subjectEntityId := user_named
  predicate := likes_named
  arguments := normal_nil
  qualifiers := normal_nil
  subject := fun e found => by
    cases found
    exact sample_endpoint ⟨joinedWords_of_sample (by decide), by decide⟩ (by decide) (by decide) user_entity
  object := fun e found => by
    cases found
    exact sample_endpoint ⟨joinedWords_of_sample (by decide), by decide⟩ (by decide) (by decide) tea_entity
  related := rfl
  planHash := likesPlan_hash _ _ _ _

def sampleItemData : ItemData := ⟨"m", 1, "hash", ["e1"], []⟩

theorem sampleItemData_plain : sampleItemData.Plain where
  memoryId := (trimmed_of_sample (by decide)).1
  outputContentHash := (trimmed_of_sample (by decide)).1
  evidenceIds := fun id member => by
    rw [List.mem_singleton.mp member]
    exact trimmed_of_sample (by decide)
  supersedes := fun id member => absurd member List.not_mem_nil

theorem sample_receipt {plan : PromotionGraphPlan} (valid : plan.Valid textPlatform) :
    sampleItemData.receipt textPlatform plan = .ok (sampleItemData.unread plan).stripped := by
  have named {word : String} (member : word ∈ sampleWords) : strip word ≠ "" := by
    rw [(trimmed_of_sample member).1]
    exact (trimmed_of_sample member).2
  refine ItemData.receipt_total textPlatform_documented valid (named (by decide)) (by decide) (named (by decide)) ?_
  refine List.ne_nil_of_mem (mem_strippedSet.mpr ⟨"e1", List.mem_singleton_self _, named (by decide), rfl⟩)

theorem dump_proper (plan : PromotionGraphPlan) (arguments : (Value.dict plan.arguments).Proper)
    (qualifiers : (Value.dict plan.qualifiers).Proper) : (Value.dict plan.dump).Proper := by
  have endpoint (e : Option GraphRelationEndpoint) : (GraphRelationEndpoint.dump e).Proper := by
    cases e with
    | none => trivial
    | some e => exact ⟨by simp [Dict.keys], trivial, trivial, trivial, trivial⟩
  exact ⟨by simp [Dict.keys, PromotionGraphPlan.dump], trivial, trivial, trivial, arguments, endpoint _, endpoint _,
    qualifiers, trivial, trivial⟩

theorem receipt_verifies_iff_tea : VerifiesExactly textPlatform sampleItemData teaPlan (sampleItemData.unread teaPlan).stripped := by
  have some_ : teaPlan.arguments ≠ [] := List.cons_ne_nil _ _
  exact (receipt_verifies_iff textPlatform_documented (dump_proper teaPlan normal_tea.proper normal_nil.proper)
    (teaPlan_valid.parse_dump textPlatform_documented) List.not_mem_nil (sample_receipt teaPlan_valid)).mpr
    ⟨sampleItemData_plain, some_⟩

/-- A v2 plan without qualifiers is valid, and no receipt for it is ever accepted. -/
theorem relation_unverifiable : ¬ ∀ (p : Platform) (raw : Entries) (plan : PromotionGraphPlan) (item : ItemData)
    (receipt : PromotionAdmissionReceipt), p.Documented → (Value.dict raw).Proper →
    PromotionGraphPlan.parse p raw = .ok plan → item.memoryId ∉ item.supersedes → item.receipt p plan = .ok receipt →
    VerifiesExactly p item plan receipt := by
  intro claimed
  have verifies := claimed textPlatform relationPlan.dump relationPlan.inOrder sampleItemData
    (sampleItemData.unread relationPlan).stripped textPlatform_documented
    (dump_proper relationPlan normal_nil.proper normal_nil.proper) (relationPlan_valid.parse_dump textPlatform_documented)
    List.not_mem_nil (sample_receipt relationPlan_valid)
  exact (plain_of_accepts textPlatform_documented relationPlan_valid (sample_receipt relationPlan_valid)
    verifies.accepts).2 rfl

end OmiLocal.Memory
