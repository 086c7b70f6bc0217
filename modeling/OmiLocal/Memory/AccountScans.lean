import OmiLocal.Memory.PageSpec

/-!
# The scans of an account

The rows of the three scans, told from the account: a canonical item is a row of
one of them, a historical document is shown by the scan of its own order field
only. Ids tell the rows apart.
-/
namespace OmiLocal.Memory

open Lib Lib.Text Lib.Values Lib.Fallible

variable {timestamp : DateTime → ℚ} {decode : Entries → Option MemoryFields} {account : Account} {request : ListRequest} {p : Platform}

/-- What the listing is told about an account. -/
structure Account.Sound (p : Platform) (account : Account) : Prop where
  items_distinct : Distinct account.items
  items_valid : ∀ item ∈ account.items, item.Valid p
  items_dated : ∀ item ∈ account.items, 0 ≤ item.updatedAt.micros
  documents_distinct : (account.documents.map (·.id)).Nodup
  documents_dated : ∀ raw ∈ account.documents, (∀ t ∈ raw.updatedAt, 0 ≤ t) ∧ (raw.updatedAt = none → raw.createdAt.isSome)

/-- What the scans need: no creation before 1970, no blank id, an expiry that is a date, and no archived item to ask for. -/
structure Account.Plain (request : ListRequest) (account : Account) : Prop where
  created : ∀ raw ∈ account.documents, ∀ t ∈ raw.createdAt, 0 ≤ t
  named : ∀ raw ∈ account.documents, blank raw.id = false
  captured : ∀ item ∈ account.items, item.tier = .shortTerm → item.capturedAt.micros + defaultShortTermTtl ≤ datetimeMax
  unarchived : request.includeArchive = true → ∀ item ∈ account.items, item.tier ≠ .archive

theorem Account.Plain.range (sound : account.Sound p) (plain : account.Plain request) : ∀ item ∈ account.items, InRange item := by
  intro item inside short
  obtain ⟨captured, -, expires⟩ := (sound.items_valid item inside).fields.aware
  have policy : defaultShortTermExpiry item.capturedAt = .ok ⟨item.capturedAt.micros + defaultShortTermTtl, true⟩ := by
    unfold defaultShortTermExpiry
    rw [captured, if_neg (by simp), if_neg (not_lt.mpr (plain.captured item inside short))]
  unfold effectiveShortTermExpiry
  rw [policy]
  cases stored : item.expiresAt with
  | none => exact ⟨_, rfl⟩
  | some t =>
      refine ⟨min t.micros (item.capturedAt.micros + defaultShortTermTtl), ?_⟩
      change (if t.aware = true then _ else _) = _
      rw [if_pos (expires t stored)]
      rfl

/-! ## Archived items -/

/-- The request as the canonical stream passes it on. -/
def ListRequest.streamed (request : ListRequest) : ListRequest := { request with includeArchive := false }

theorem itemVisible_streamed {item : MemoryItem} (plain : request.includeArchive = true → item.tier ≠ .archive) :
    itemVisible request.streamed item = itemVisible request item := by
  cases asked : request.includeArchive with
  | false =>
      have same : request.streamed = request := by
        unfold ListRequest.streamed
        rw [← asked]
      rw [same]
  | true =>
      have refused (archive : Bool) : (isArchiveAccessEligible item (MemoryAccessPolicy.forOmiChat archive)).allowed = false := by
        unfold isArchiveAccessEligible
        split
        · rename_i refused checked
          unfold basePolicyChecks at checked
          repeat (split at checked; · cases checked; rfl)
          cases checked
        · rw [if_pos (plain asked)]
      have default_ (archive : Bool) : defaultVisible item (MemoryAccessPolicy.forOmiChat archive) request.now =
          defaultVisible item (MemoryAccessPolicy.forOmiChat false) request.now := rfl
      unfold itemVisible ListRequest.streamed
      simp only [refused, Bool.and_false, Bool.or_false]
      rw [default_ request.includeArchive]
      rfl

theorem slotOf_streamed {item : MemoryItem} (inside : item ∈ account.items)
    (plain : request.includeArchive = true → ∀ i ∈ account.items, i.tier ≠ .archive) :
    slotOf timestamp account.items request.streamed item = slotOf timestamp account.items request item := by
  have visible : ∀ i ∈ account.items, itemVisible request.streamed i = itemVisible request i :=
    fun i member => itemVisible_streamed fun asked => plain asked i member
  have same : suppressed timestamp account.items request.streamed item = suppressed timestamp account.items request item := by
    unfold suppressed
    split
    · rfl
    · have alone : ∀ c ∈ [item], c ∈ account.items := fun c member => List.mem_singleton.mp member ▸ inside
      have known := scanLineage_inside canonicalScanLineageMaxHops item alone
      dsimp only
      rw [List.filter_congr fun c member => by rw [visible c (known c member)]]
  unfold slotOf
  rw [visible item inside, same]

/-- A visible item is active. -/
theorem itemVisible_active {item : MemoryItem} (shown : itemVisible request item = true) : item.status = .active := by
  have access {policy : MemoryAccessPolicy} {now : Int} {decision : AccessDecision}
      (decided : isDefaultAccessEligible item policy now = .ok decision) (allowed : decision.allowed = true) :
      item.status = .active := by
    by_contra inactive
    unfold isDefaultAccessEligible basePolicyChecks at decided
    rw [if_pos inactive] at decided
    obtain rfl := Except.ok.inj decided
    cases allowed
  have archive {policy : MemoryAccessPolicy} (allowed : (isArchiveAccessEligible item policy).allowed = true) :
      item.status = .active := by
    by_contra inactive
    unfold isArchiveAccessEligible basePolicyChecks at allowed
    rw [if_pos inactive] at allowed
    cases allowed
  have product {policy : MemoryAccessPolicy} {now : Int} {decision : ProductMemoryItemDecision}
      (decided : productDecision item policy now = .ok decision) (allowed : decision.allowed = true) : item.status = .active := by
    obtain ⟨first, accessed, decided⟩ := bind_ok decided
    refine access accessed ?_
    split at decided
    · obtain ⟨lifecycle, -, decided⟩ := bind_ok decided
      obtain rfl := Except.ok.inj decided
      unfold decisionFromLifecycle at allowed
      split at allowed
      · cases allowed
      · exact allowed
    · obtain rfl := Except.ok.inj decided
      exact allowed
  have default_ {policy : MemoryAccessPolicy} {now : Int} (visible : defaultVisible item policy now = true) :
      item.status = .active := by
    unfold defaultVisible at visible
    split at visible
    · rename_i decision first decided accessed
      simp only [Bool.and_eq_true, Bool.or_eq_true] at visible
      rcases visible.1.2 with allowed | waits
      · exact product decided allowed
      · unfold awaitsDisposition at waits
        simp only [Bool.and_eq_true] at waits
        exact access accessed waits.2
    · cases visible
  have listed : (defaultVisible item (MemoryAccessPolicy.forOmiChat request.includeArchive) request.now ||
      (request.includeArchive && (isArchiveAccessEligible item (MemoryAccessPolicy.forOmiChat request.includeArchive)).allowed)) =
        true → item.status = .active := by
    intro visible
    rcases Bool.or_eq_true_iff.mp visible with visible | archived
    · exact default_ visible
    · exact archive (Bool.and_eq_true_iff.mp archived).2
  unfold itemVisible at shown
  dsimp only at shown
  have shown := (Bool.and_eq_true_iff.mp shown).1
  split at shown
  · rcases Bool.or_eq_true_iff.mp shown with visible | pending
    · exact listed visible
    · unfold pendingSubmission at pending
      simp only [Bool.and_eq_true, beq_iff_eq] at pending
      exact pending.1.1.1.1.2
  · exact listed (Bool.and_eq_true_iff.mp shown).1

/-! ## The rows of the scans -/

def canonicalRow (timestamp : DateTime → ℚ) (items : List MemoryItem) (request : ListRequest) (item : MemoryItem) :
    StreamKeyset × Option MemoryDB :=
  (⟨item.updatedAt.micros, item.memoryId⟩,
    (slotOf timestamp items request item).1.map fun item => truncateLockedMemoryPreview (memoryItemToMemorydb item))

def historicalRow (decode : Entries → Option MemoryFields) (orderField : OrderField) (account : Account) (request : ListRequest)
    (raw : HistoricalDocument) : StreamKeyset × Option HistoricalRecord :=
  (⟨(orderField.of raw).getD 0, raw.id⟩,
    (adaptScanPayload decode request.deviceScopeRequest (orderField == .createdAt) raw).map fun memory =>
      (truncateLockedMemoryPreview memory, account.canonicalStatus memory.id))

def Account.scans (timestamp : DateTime → ℚ) (decode : Entries → Option MemoryFields) (account : Account) (request : ListRequest) :
    Scans :=
  { canonical := (Keyset.sortedBy scanPosition account.items).map (canonicalRow timestamp account.items request.streamed)
    updated := (OrderField.documents .updatedAt account.documents).map (historicalRow decode .updatedAt account request)
    created := (OrderField.documents .createdAt account.documents).map (historicalRow decode .createdAt account request) }

theorem mem_documents {orderField : OrderField} {documents : List HistoricalDocument} {raw : HistoricalDocument} :
    raw ∈ orderField.documents documents ↔ raw ∈ documents ∧ (orderField.of raw).isSome := by
  unfold OrderField.documents
  rw [(Keyset.sortedBy_perm _ _).mem_iff, List.mem_filter]

theorem ids_documents {orderField : OrderField} {documents : List HistoricalDocument} (distinct : (documents.map (·.id)).Nodup) :
    ((orderField.documents documents).map (·.id)).Nodup := by
  unfold OrderField.documents
  rw [((Keyset.sortedBy_perm _ _).map _).nodup_iff]
  exact distinct.sublist (List.filter_sublist.map _)

theorem sorted_scan {orderField : OrderField} {documents : List HistoricalDocument} (distinct : (documents.map (·.id)).Nodup) :
    (orderField.documents documents).Pairwise fun a b => orderField.position a < orderField.position b := by
  unfold OrderField.documents
  refine Keyset.sortedBy_strict _ (List.Nodup.of_map (fun k : ℤ ×ₗ String => (ofLex k).2) ?_)
  rw [List.map_map]
  exact distinct.sublist (List.filter_sublist.map _)

/-- The rows behind a key are those of the elements behind it. -/
theorem behind_map {α β : Type} {position : α → ℤ ×ₗ String} {row : α → StreamKeyset × Option β} (xs : List α)
    (same : ∀ a, rowKey (row a) = position a) (after : Option (ℤ ×ₗ String)) :
    Keyset.behind rowKey (xs.map row) after = (Keyset.behind position xs after).map row := by
  unfold Keyset.behind
  rw [List.filter_map]
  exact congrArg (List.map row) (List.filter_congr fun a _ => by simp [same])

theorem adaptScanPayload_some {scope : Option DeviceScopeRequest} {drop : Bool} {raw : HistoricalDocument} {memory : MemoryDB}
    (read : adaptScanPayload decode scope drop raw = some memory) :
    memory.id = raw.id ∧ blank raw.id = false ∧ (drop = true → raw.updatedAt = none) ∧
      ∃ created, raw.createdAt = some created ∧ memory.updatedAt = raw.updatedAt.getD created := by
  unfold adaptScanPayload at read
  split at read
  · cases read
  · rename_i kept
    split at read
    · cases read
    · obtain ⟨adapted, -⟩ := Option.filter_eq_some_iff.mp read
      unfold adapt at adapted
      split at adapted
      · cases adapted
      · rename_i named
        obtain ⟨found, made, chosen⟩ := Option.bind_eq_some_iff.mp adapted
        have same : found = memory := by
          split at chosen
          · exact Option.some.inj chosen
          · cases chosen
        obtain rfl := same
        obtain ⟨created, there, made⟩ := Option.bind_eq_some_iff.mp made
        obtain ⟨fields, -, made⟩ := Option.bind_eq_some_iff.mp made
        obtain rfl := Option.some.inj made
        refine ⟨rfl, by simpa using named, fun dropped => ?_, created, there, rfl⟩
        simpa [dropped] using kept

theorem memoryKeyset_preview (memory : MemoryDB) : memoryKeyset (truncateLockedMemoryPreview memory) = memoryKeyset memory := by
  unfold truncateLockedMemoryPreview
  split <;> rfl

theorem canonicalRow_key {item : MemoryItem} (dated : 0 ≤ item.updatedAt.micros) :
    ∀ memory ∈ (canonicalRow timestamp account.items request item).2,
      memoryKeyset memory = (canonicalRow timestamp account.items request item).1 := by
  intro memory here
  obtain ⟨shown, slot, rfl⟩ := Option.map_eq_some_iff.mp here
  unfold slotOf at slot
  dsimp only at slot
  split at slot
  · obtain rfl := Option.some.inj slot
    rw [memoryKeyset_preview]
    unfold memoryKeyset memoryItemToMemorydb
    rw [max_eq_right dated]
    rfl
  · cases slot

theorem canonical_reads (sound : account.Sound p) (plain : account.Plain request) :
    Reads (canonicalReader timestamp account request) (account.scans timestamp decode request).canonical := by
  have inside : ∀ {item}, item ∈ Keyset.sortedBy scanPosition account.items → item ∈ account.items :=
    fun member => (Keyset.sortedBy_perm _ _).mem_iff.mp member
  refine ⟨List.pairwise_map.mpr (sorted_documents sound.items_distinct), ?_, fun after good => ?_⟩
  · intro row member
    obtain ⟨item, here, rfl⟩ := List.mem_map.mp member
    exact ⟨sound.items_dated item (inside here), (sound.items_valid item (inside here)).fields.named.1⟩
  · have cursor : (after.map streamKeysetToScanCursor).map cursorPosition = after.map keysetSortKey := by
      rw [Option.map_map]
      exact Option.map_congr fun k here => cursorPosition_of_good (good k here)
    have documents : scanDocuments account.items (after.map streamKeysetToScanCursor) =
        Keyset.behind scanPosition (Keyset.sortedBy scanPosition account.items) (after.map keysetSortKey) := by
      unfold scanDocuments
      rw [cursor]
    have rows : Keyset.behind rowKey (account.scans timestamp decode request).canonical (after.map keysetSortKey) =
        (scanDocuments account.items (after.map streamKeysetToScanCursor)).map
          (canonicalRow timestamp account.items request.streamed) := by
      rw [documents]
      exact behind_map _ (fun _ => rfl) _
    have page : readCanonicalScanPage timestamp account.items request.streamed memoryListScanChunkSize
        (after.map streamKeysetToScanCursor) =
        .ok (((scanDocuments account.items (after.map streamKeysetToScanCursor)).take 50).map
          (slotOf timestamp account.items request.streamed),
          decide (((scanDocuments account.items (after.map streamKeysetToScanCursor)).take 50).length < 50)) :=
      ok_bind (mapM_map fun _ member =>
        scanSlot_ok (Account.Plain.range sound plain) (mem_scanDocuments (List.mem_of_mem_take member))) rfl
    refine ⟨((scanDocuments account.items (after.map streamKeysetToScanCursor)).take 50).map fun item =>
      ((slotOf timestamp account.items request.streamed item).1.map fun item =>
        truncateLockedMemoryPreview (memoryItemToMemorydb item), (item.updatedAt.micros, item.memoryId)), ?_, ?_⟩
    · unfold ListRequest.streamed at page
      unfold canonicalReader
      rw [page]
      dsimp only
      rw [List.map_map]
      refine congrArg Except.ok (Prod.ext rfl ?_)
      dsimp only
      rw [rows, List.length_map, List.length_take]
      refine decide_eq_decide.mpr ?_
      unfold memoryListScanChunkSize
      omega
    · rw [rows, List.map_map, ← List.map_take]
      refine List.map_congr_left fun item member => Prod.ext ?_ rfl
      have dated := sound.items_dated item (mem_scanDocuments (List.mem_of_mem_take member))
      exact congrArg (StreamKeyset.mk · item.memoryId) (max_eq_right dated)

theorem historicalRow_key {orderField : OrderField} {raw : HistoricalDocument} (dated : ∀ t ∈ orderField.of raw, 0 ≤ t)
    (present : (orderField.of raw).isSome) :
    ∀ record ∈ (historicalRow decode orderField account request raw).2,
      memoryKeyset record.1 = (historicalRow decode orderField account request raw).1 := by
  intro record here
  obtain ⟨memory, read, rfl⟩ := Option.map_eq_some_iff.mp here
  obtain ⟨own, -, absent, created, there, updated⟩ := adaptScanPayload_some read
  obtain ⟨t, order⟩ := Option.isSome_iff_exists.mp present
  have time : memory.updatedAt = t := by
    rw [updated]
    cases orderField with
    | updatedAt =>
        have order : raw.updatedAt = some t := order
        rw [order]
        rfl
    | createdAt =>
        have order : raw.createdAt = some t := order
        rw [absent rfl]
        exact Option.some.inj (there.symm.trans order)
  rw [memoryKeyset_preview]
  unfold memoryKeyset historicalRow
  rw [own, time, max_eq_right (dated t order), order]
  rfl

theorem not_blank {s : String} (named : blank s = false) : s ≠ "" := by
  rintro rfl
  revert named
  decide

theorem historical_reads {orderField : OrderField} (distinct : (account.documents.map (·.id)).Nodup)
    (named : ∀ raw ∈ account.documents, blank raw.id = false)
    (dated : ∀ raw ∈ account.documents, ∀ t ∈ orderField.of raw, 0 ≤ t) :
    Reads (historicalReader decode orderField account request)
      ((orderField.documents account.documents).map (historicalRow decode orderField account request)) := by
  have positive : ∀ raw ∈ orderField.documents account.documents, 0 ≤ (orderField.of raw).getD 0 := by
    intro raw member
    obtain ⟨inside, present⟩ := mem_documents.mp member
    obtain ⟨t, order⟩ := Option.isSome_iff_exists.mp present
    rw [order]
    exact dated raw inside t order
  refine ⟨List.pairwise_map.mpr (sorted_scan distinct), ?_, fun after good => ?_⟩
  · intro row member
    obtain ⟨raw, here, rfl⟩ := List.mem_map.mp member
    exact ⟨positive raw here, named raw (mem_documents.mp here).1⟩
  · have cursor : (after.map streamKeysetToScanCursor).map cursorPosition = after.map keysetSortKey := by
      rw [Option.map_map]
      exact Option.map_congr fun k here => cursorPosition_of_good (good k here)
    have start : ((after.map streamKeysetToScanCursor).any fun cursor => blank cursor.2) = false := by
      cases after with
      | none => rfl
      | some k => exact (good k rfl).named
    generalize documents : Keyset.behind orderField.position (orderField.documents account.documents) (after.map keysetSortKey) =
      behind
    have member : ∀ raw ∈ behind.take 50, raw ∈ orderField.documents account.documents := fun raw here =>
      (Keyset.mem_behind.mp (documents ▸ List.mem_of_mem_take here)).1
    have rows : Keyset.behind rowKey ((orderField.documents account.documents).map
        (historicalRow decode orderField account request)) (after.map keysetSortKey) =
        behind.map (historicalRow decode orderField account request) := by
      rw [← documents]
      exact behind_map _ (fun _ => rfl) _
    have kept : (behind.take 50).filter (fun raw => !blank raw.id) = behind.take 50 :=
      List.filter_eq_self.mpr fun raw here => by rw [named raw (mem_documents.mp (member raw here)).1]; rfl
    have page : historicalScanPage orderField account.documents 50 (after.map streamKeysetToScanCursor) =
        .ok ((behind.take 50).map fun raw => (raw, ((orderField.of raw).getD 0, raw.id)),
          decide ((behind.take 50).length < 50)) := by
      unfold historicalScanPage
      rw [start, cursor, documents]
      dsimp only
      rw [if_neg Bool.false_ne_true]
      change Except.ok _ = _
      rw [show max 1 (min (if (50 : Nat) = 0 then 100 else 50) historicalScanPageMax) = 50 from rfl, kept]
    have scanned : orderField.readScanPage decode account.documents request.deviceScopeRequest memoryListScanChunkSize
        (after.map streamKeysetToScanCursor) =
        .ok ((behind.take 50).map fun raw => (adaptScanPayload decode request.deviceScopeRequest (orderField == .createdAt) raw,
          ((orderField.of raw).getD 0, raw.id)), decide ((behind.take 50).length < 50)) := by
      unfold OrderField.readScanPage
      dsimp only
      rw [show max 1 (min (if memoryListScanChunkSize = 0 then 100 else memoryListScanChunkSize) historicalScanPageMax) = 50 from rfl,
        page]
      dsimp only
      rw [List.map_map]
      rfl
    refine ⟨(behind.take 50).map fun raw =>
      ((adaptScanPayload decode request.deviceScopeRequest (orderField == .createdAt) raw).map fun memory =>
        (truncateLockedMemoryPreview memory, account.canonicalStatus memory.id), ((orderField.of raw).getD 0, raw.id)), ?_, ?_⟩
    · unfold historicalReader
      rw [scanned]
      change Except.ok _ = _
      refine congrArg Except.ok (Prod.ext ?_ ?_)
      · dsimp only
        rw [List.map_map]
        refine List.map_congr_left fun raw here => Prod.ext ?_ rfl
        -- The batch was asked for the id of each record of the chunk.
        refine Option.map_congr fun memory read => Prod.ext rfl ?_
        dsimp only
        have listed : memory.id ∈ ((behind.take 50).map fun raw =>
            (adaptScanPayload decode request.deviceScopeRequest (orderField == .createdAt) raw,
              ((orderField.of raw).getD 0, raw.id))).filterMap fun slot => slot.1.map (·.id) := by
          refine List.mem_filterMap.mpr ⟨_, List.mem_map_of_mem here, ?_⟩
          dsimp only at read ⊢
          rw [read]
          rfl
        obtain ⟨own, solid, -⟩ := adaptScanPayload_some read
        rw [if_neg]
        · exact get_canonicalStatuses account listed (own ▸ not_blank solid)
        · intro empty
          rw [List.isEmpty_iff.mp empty] at listed
          exact absurd listed List.not_mem_nil
      · dsimp only
        rw [rows, List.length_map, List.length_take]
        refine decide_eq_decide.mpr ?_
        unfold memoryListScanChunkSize
        omega
    · rw [rows, List.map_map, ← List.map_take]
      refine List.map_congr_left fun raw here => Prod.ext ?_ rfl
      exact congrArg (StreamKeyset.mk · raw.id) (max_eq_right (positive raw (member raw here)))

/-- The readers of a sound account return its scans. -/
theorem Account.serves (timestamp : DateTime → ℚ) (decode : Entries → Option MemoryFields) (sound : account.Sound p)
    (plain : account.Plain request) : (account.scans timestamp decode request).Serves (readers timestamp decode account request) := by
  have updated : ∀ raw ∈ account.documents, ∀ t ∈ OrderField.updatedAt.of raw, 0 ≤ t := fun raw inside =>
    (sound.documents_dated raw inside).1
  refine ⟨canonical_reads sound plain, historical_reads sound.documents_distinct plain.named updated,
    historical_reads sound.documents_distinct plain.named plain.created, ?_, ?_, ?_⟩
  · intro row member
    obtain ⟨item, here, rfl⟩ := List.mem_map.mp member
    exact canonicalRow_key (sound.items_dated item ((Keyset.sortedBy_perm _ _).mem_iff.mp here))
  · intro row member
    obtain ⟨raw, here, rfl⟩ := List.mem_map.mp member
    obtain ⟨inside, present⟩ := mem_documents.mp here
    exact historicalRow_key (updated raw inside) present
  · intro row member
    obtain ⟨raw, here, rfl⟩ := List.mem_map.mp member
    obtain ⟨inside, present⟩ := mem_documents.mp here
    exact historicalRow_key (plain.created raw inside) present

/-! ## What is left, by stored rows -/

inductive StoredRow where
  | canonical (item : MemoryItem)
  | historical (raw : HistoricalDocument)

def StoredRow.origin : StoredRow → Origin
  | .canonical _ => .canonical
  | .historical _ => .historical

def StoredRow.id : StoredRow → String
  | .canonical item => item.memoryId
  | .historical raw => raw.id

/-- The key under which its scan has the row. -/
def StoredRow.keyset : StoredRow → StreamKeyset
  | .canonical item => ⟨item.updatedAt.micros, item.memoryId⟩
  | .historical raw => ⟨(raw.updatedAt.or raw.createdAt).getD 0, raw.id⟩

/-- The row is stored and eligible, and this is how it is shown: an item that the scan does not filter, or a document that
is readable and has no canonical status. -/
def Account.Shows (timestamp : DateTime → ℚ) (decode : Entries → Option MemoryFields) (account : Account) (request : ListRequest) :
    StoredRow → Row → Prop
  | .canonical item, row =>
      item ∈ account.items ∧ (∃ scanCursor, scanSlot timestamp account.items request item = .ok (some item, scanCursor)) ∧
        row = ⟨.canonical, truncateLockedMemoryPreview (memoryItemToMemorydb item)⟩
  | .historical raw, row =>
      raw ∈ account.documents ∧ account.canonicalStatus raw.id = none ∧
        ∃ memory, adaptScanPayload decode request.deviceScopeRequest false raw = some memory ∧
          row = ⟨.historical, truncateLockedMemoryPreview memory⟩

/-- The position of the row's scan is still before the row. -/
def StoredRow.Ahead (state : UniversalListCursorState) : StoredRow → Prop
  | .canonical item => state.canonicalExhausted = false ∧
      ∀ k ∈ state.canonicalScan, keysetSortKey k < keysetSortKey (StoredRow.canonical item).keyset
  | .historical raw =>
      if raw.updatedAt.isSome then state.historicalUpdatedExhausted = false ∧
        ∀ k ∈ state.historicalUpdatedScan, keysetSortKey k < keysetSortKey (StoredRow.historical raw).keyset
      else state.historicalCreatedExhausted = false ∧
        ∀ k ∈ state.historicalCreatedScan, keysetSortKey k < keysetSortKey (StoredRow.historical raw).keyset

theorem ahead_updated {state : UniversalListCursorState} {raw : HistoricalDocument} {t : Int} (order : raw.updatedAt = some t) :
    (StoredRow.historical raw).Ahead state ↔ state.historicalUpdatedExhausted = false ∧
      ∀ k ∈ state.historicalUpdatedScan, keysetSortKey k < keysetSortKey ⟨t, raw.id⟩ := by
  simp only [StoredRow.Ahead, StoredRow.keyset, order, Option.isSome_some, if_true, Option.some_or, Option.getD_some]

theorem ahead_created {state : UniversalListCursorState} {raw : HistoricalDocument} (order : raw.updatedAt = none) :
    (StoredRow.historical raw).Ahead state ↔ state.historicalCreatedExhausted = false ∧
      ∀ k ∈ state.historicalCreatedScan, keysetSortKey k < keysetSortKey ⟨raw.createdAt.getD 0, raw.id⟩ := by
  simp only [StoredRow.Ahead, StoredRow.keyset, order, Option.isSome_none, Bool.false_eq_true, if_false, Option.none_or]

/-- A row is shown under its own key. -/
theorem Shows.key (sound : account.Sound p) (plain : account.Plain request) {w : StoredRow} {row : Row}
    (shows : account.Shows timestamp decode request w row) :
    memoryKeyset row.memory = w.keyset ∧ row.origin = w.origin ∧ row.memory.id = w.id := by
  cases w with
  | canonical item =>
      obtain ⟨inside, -, rfl⟩ := shows
      refine ⟨?_, rfl, congrArg StreamKeyset.memoryId (memoryKeyset_preview (memoryItemToMemorydb item))⟩
      rw [memoryKeyset_preview]
      exact congrArg (StreamKeyset.mk · item.memoryId) (max_eq_right (sound.items_dated item inside))
  | historical raw =>
      obtain ⟨inside, -, memory, read, rfl⟩ := shows
      obtain ⟨own, -, -, created, there, updated⟩ := adaptScanPayload_some read
      have dated : 0 ≤ memory.updatedAt := by
        rw [updated]
        cases order : raw.updatedAt with
        | none => exact plain.created raw inside created there
        | some t => exact (sound.documents_dated raw inside).1 t order
      have same : memoryKeyset memory = (StoredRow.historical raw).keyset := by
        refine StreamKeyset.mk.injEq .. ▸ ⟨?_, own⟩
        rw [max_eq_right dated, updated, there]
        cases raw.updatedAt <;> rfl
      exact ⟨(memoryKeyset_preview memory).trans same, rfl,
        congrArg StreamKeyset.memoryId ((memoryKeyset_preview memory).trans same)⟩

theorem adaptScanPayload_drop {scope : Option DeviceScopeRequest} {raw : HistoricalDocument} {memory : MemoryDB} :
    adaptScanPayload decode scope true raw = some memory ↔
      raw.updatedAt = none ∧ adaptScanPayload decode scope false raw = some memory := by
  unfold adaptScanPayload
  cases raw.updatedAt with
  | none => simp
  | some t => simp

theorem suppressedHistorical_none {record : HistoricalRecord} : suppressedHistorical record = false ↔ record.2 = none := by
  unfold suppressedHistorical
  rw [Option.isSome_eq_false_iff, Option.isNone_iff_eq_none, suppressionReason_none]

theorem mem_canonical_pending (sound : account.Sound p) (plain : account.Plain request) {state : UniversalListCursorState}
    {row : Row} :
    row ∈ ((PageState.start state).canonical.pending (account.scans timestamp decode request).canonical).map (Row.mk .canonical) ↔
      ∃ item, account.Shows timestamp decode request (.canonical item) row ∧ (StoredRow.canonical item).Ahead state := by
  have range := Account.Plain.range sound plain
  have stored : ∀ {item}, item ∈ Keyset.sortedBy scanPosition account.items ↔ item ∈ account.items :=
    (Keyset.sortedBy_perm _ _).mem_iff
  have slot {item : MemoryItem} (inside : item ∈ account.items) :
      (∃ scanCursor, scanSlot timestamp account.items request item = .ok (some item, scanCursor)) ↔
        (slotOf timestamp account.items request.streamed item).1 = some item := by
    rw [slotOf_streamed inside plain.unarchived, scanSlot_ok range inside]
    constructor
    · rintro ⟨c, same⟩
      exact congrArg Prod.fst (Except.ok.inj same)
    · exact fun same => ⟨_, congrArg Except.ok (Prod.ext same rfl)⟩
  have only {item other : MemoryItem} (kept : (slotOf timestamp account.items request.streamed item).1 = some other) :
      item = other := by
    unfold slotOf at kept
    dsimp only at kept
    split at kept
    · exact Option.some.inj kept
    · cases kept
  rw [List.mem_map]
  constructor
  · rintro ⟨memory, left, rfl⟩
    obtain ⟨r, rest, here⟩ := List.mem_filterMap.mp left
    obtain ⟨open_, member, behind⟩ := mem_rest.mp rest
    obtain ⟨item, listed, rfl⟩ := List.mem_map.mp member
    obtain ⟨other, kept, rfl⟩ := Option.map_eq_some_iff.mp here
    obtain rfl := only kept
    exact ⟨item, ⟨stored.mp listed, (slot (stored.mp listed)).mpr kept, rfl⟩, open_, behind⟩
  · rintro ⟨item, ⟨inside, kept, rfl⟩, open_, behind⟩
    refine ⟨_, List.mem_filterMap.mpr ⟨canonicalRow timestamp account.items request.streamed item, mem_rest.mpr ⟨open_,
      List.mem_map_of_mem (stored.mpr inside), behind⟩, ?_⟩, rfl⟩
    exact Option.map_eq_some_iff.mpr ⟨item, (slot inside).mp kept, rfl⟩

theorem mem_recordsLeft {rows : ScanRows HistoricalRecord} {s : CursorStream HistoricalRecord} {memory : MemoryDB} :
    memory ∈ recordsLeft rows s ↔ s.exhausted = false ∧
      ∃ k, (k, some (memory, none)) ∈ rows ∧ ∀ k' ∈ s.scanKeyset, keysetSortKey k' < keysetSortKey k := by
  unfold recordsLeft
  rw [List.mem_map]
  constructor
  · rintro ⟨⟨memory, status⟩, left, rfl⟩
    obtain ⟨kept, k, rest⟩ := mem_shown.mp left
    obtain rfl : status = none := suppressedHistorical_none.mp kept
    obtain ⟨open_, member, behind⟩ := mem_rest.mp rest
    exact ⟨open_, k, member, behind⟩
  · rintro ⟨open_, k, member, behind⟩
    exact ⟨(memory, none), mem_shown.mpr ⟨suppressedHistorical_none.mpr rfl, k, mem_rest.mpr ⟨open_, member, behind⟩⟩, rfl⟩

theorem mem_historicalRows {orderField : OrderField} {memory : MemoryDB} {k : StreamKeyset} :
    (k, some (memory, none)) ∈ (orderField.documents account.documents).map (historicalRow decode orderField account request) ↔
      ∃ raw ∈ account.documents, (orderField.of raw).isSome ∧ k = ⟨(orderField.of raw).getD 0, raw.id⟩ ∧
        account.canonicalStatus raw.id = none ∧ ∃ found,
          adaptScanPayload decode request.deviceScopeRequest (orderField == .createdAt) raw = some found ∧
            memory = truncateLockedMemoryPreview found := by
  rw [List.mem_map]
  constructor
  · rintro ⟨raw, listed, same⟩
    obtain ⟨inside, present⟩ := mem_documents.mp listed
    obtain ⟨found, read, here⟩ := Option.map_eq_some_iff.mp (congrArg Prod.snd same)
    have own := (adaptScanPayload_some read).1
    refine ⟨raw, inside, present, (congrArg Prod.fst same).symm, ?_, found, read, (congrArg Prod.fst here).symm⟩
    exact own ▸ congrArg Prod.snd here
  · rintro ⟨raw, inside, present, rfl, missing, found, read, rfl⟩
    refine ⟨raw, mem_documents.mpr ⟨inside, present⟩, Prod.ext rfl (Option.map_eq_some_iff.mpr ⟨found, read, ?_⟩)⟩
    rw [(adaptScanPayload_some read).1, missing]

theorem mem_historical_pending (state : UniversalListCursorState) {row : Row} :
    row ∈ ((PageState.start state).historical.pending (account.scans timestamp decode request)).map (Row.mk .historical) ↔
      ∃ raw, account.Shows timestamp decode request (.historical raw) row ∧ (StoredRow.historical raw).Ahead state := by
  rw [List.mem_map]
  unfold HistoricalCursorStream.pending
  constructor
  · rintro ⟨memory, left, rfl⟩
    rcases List.mem_merge.mp left with left | left
    · obtain ⟨open_, k, member, behind⟩ := mem_recordsLeft.mp left
      obtain ⟨raw, inside, present, rfl, missing, found, read, rfl⟩ := mem_historicalRows.mp member
      obtain ⟨t, order⟩ := Option.isSome_iff_exists.mp present
      rw [order] at behind
      exact ⟨raw, ⟨inside, missing, found, read, rfl⟩, (ahead_updated order).mpr ⟨open_, behind⟩⟩
    · obtain ⟨open_, k, member, behind⟩ := mem_recordsLeft.mp left
      obtain ⟨raw, inside, present, rfl, missing, found, read, rfl⟩ := mem_historicalRows.mp member
      obtain ⟨absent, read⟩ := adaptScanPayload_drop.mp read
      exact ⟨raw, ⟨inside, missing, found, read, rfl⟩, (ahead_created absent).mpr ⟨open_, behind⟩⟩
  · rintro ⟨raw, ⟨inside, missing, found, read, rfl⟩, ahead⟩
    refine ⟨_, List.mem_merge.mpr ?_, rfl⟩
    cases order : raw.updatedAt with
    | some t =>
        obtain ⟨open_, behind⟩ := (ahead_updated order).mp ahead
        have time : OrderField.of .updatedAt raw = some t := order
        refine .inl (mem_recordsLeft.mpr ⟨open_, ⟨(OrderField.of .updatedAt raw).getD 0, raw.id⟩, mem_historicalRows.mpr
          ⟨raw, inside, by rw [time]; rfl, rfl, missing, found, read, rfl⟩, ?_⟩)
        rwa [time]
    | none =>
        obtain ⟨open_, behind⟩ := (ahead_created order).mp ahead
        obtain ⟨-, -, -, created, there, -⟩ := adaptScanPayload_some read
        have time : OrderField.of .createdAt raw = some created := there
        exact .inr (mem_recordsLeft.mpr ⟨open_, ⟨(OrderField.of .createdAt raw).getD 0, raw.id⟩, mem_historicalRows.mpr
          ⟨raw, inside, by rw [time]; rfl, rfl, missing, found, adaptScanPayload_drop.mpr ⟨order, read⟩, rfl⟩, behind⟩)

/-- What is left of a listing: the eligible rows that their scans have not reached. -/
theorem mem_pending (sound : account.Sound p) (plain : account.Plain request) (state : UniversalListCursorState) {row : Row} :
    row ∈ state.pending (account.scans timestamp decode request) ↔
      ∃ w : StoredRow, account.Shows timestamp decode request w row ∧ w.Ahead state := by
  unfold UniversalListCursorState.pending PageState.pending
  rw [List.mem_merge, mem_canonical_pending sound plain, mem_historical_pending]
  constructor
  · rintro (⟨item, shows, ahead⟩ | ⟨raw, shows, ahead⟩)
    · exact ⟨_, shows, ahead⟩
    · exact ⟨_, shows, ahead⟩
  · rintro ⟨w, shows, ahead⟩
    cases w with
    | canonical item => exact .inl ⟨item, shows, ahead⟩
    | historical raw => exact .inr ⟨raw, shows, ahead⟩

end OmiLocal.Memory
