import OmiLocal.Memory.Lineage

/-!
# Visible items

The filter of a set of items and the predicate of a single row show the same
items, as long as every time can be computed.
-/
namespace OmiLocal.Memory

open Lib Lib.Fallible

variable {timestamp : DateTime → ℚ} {items : List MemoryItem} {request : ListRequest}

/-- An account's items have distinct ids. -/
def Distinct (items : List MemoryItem) : Prop := (items.map (·.memoryId)).Nodup

theorem Distinct.eq (distinct : Distinct items) {x y : MemoryItem} (first : x ∈ items) (second : y ∈ items)
    (same : x.memoryId = y.memoryId) : x = y := List.inj_on_of_nodup_map distinct first second same

/-! ## Dictionaries of items -/

/-- The dictionary has the items that satisfy `p`, under their ids. -/
structure Lists (items : List MemoryItem) (p : MemoryItem → Prop) (d : List (String × MemoryItem)) : Prop where
  distinct : (Dict.keys d).Nodup
  mem : ∀ e, e ∈ d ↔ e.2 ∈ items ∧ p e.2 ∧ e.1 = e.2.memoryId

section Dictionaries
variable {p q : MemoryItem → Prop} {d : List (String × MemoryItem)}

theorem lists_nil : Lists items (fun _ => False) [] :=
  ⟨List.nodup_nil, fun _ => ⟨fun member => absurd member List.not_mem_nil, fun h => h.2.1.elim⟩⟩

theorem Lists.congr (lists : Lists items p d) (same : ∀ i ∈ items, p i ↔ q i) : Lists items q d := by
  refine ⟨lists.distinct, fun e => (lists.mem e).trans ?_⟩
  constructor
  · rintro ⟨inside, holds, key⟩
    exact ⟨inside, (same e.2 inside).mp holds, key⟩
  · rintro ⟨inside, holds, key⟩
    exact ⟨inside, (same e.2 inside).mpr holds, key⟩

theorem Lists.put (lists : Lists items p d) (unique : Distinct items) {i : MemoryItem} (inside : i ∈ items) :
    Lists items (fun j => p j ∨ j = i) (Dict.put d i.memoryId i) := by
  refine ⟨Dict.nodup_put lists.distinct _ _, fun e => ?_⟩
  rw [Dict.mem_put]
  constructor
  · rintro (⟨member, -⟩ | rfl)
    · obtain ⟨first, holds, key⟩ := (lists.mem e).mp member
      exact ⟨first, .inl holds, key⟩
    · exact ⟨inside, .inr rfl, rfl⟩
  · rintro ⟨first, holds | same, key⟩
    · by_cases here : e.1 = i.memoryId
      · have same : e.2 = i := unique.eq first inside (key.symm.trans here)
        exact .inr (Prod.ext here same)
      · exact .inl ⟨(lists.mem e).mpr ⟨first, holds, key⟩, here⟩
    · exact .inr (Prod.ext (key.trans (congrArg _ same)) same)

theorem Lists.setDefault (lists : Lists items p d) (unique : Distinct items) {i : MemoryItem} (inside : i ∈ items) :
    Lists items (fun j => p j ∨ j = i) (if (Dict.get d i.memoryId).isSome then d else Dict.put d i.memoryId i) := by
  split
  · rename_i known
    obtain ⟨j, found⟩ := Option.isSome_iff_exists.mp known
    obtain ⟨first, holds, key⟩ := (lists.mem _).mp (Dict.get_eq_some found)
    obtain rfl : i = j := unique.eq inside first key
    exact lists.congr fun j _ => ⟨.inl, fun h => h.elim id fun same => same ▸ holds⟩
  · exact lists.put unique inside

/-- A loop whose steps add single items adds all of them. -/
theorem Lists.loop (step : List (String × MemoryItem) → MemoryItem → List (String × MemoryItem))
    (adds : ∀ (p : MemoryItem → Prop) (d : List (String × MemoryItem)) (i : MemoryItem), Lists items p d → i ∈ items →
      Lists items (fun j => p j ∨ (q j ∧ j = i)) (step d i))
    {xs : List MemoryItem} (inside : ∀ i ∈ xs, i ∈ items) (lists : Lists items p d) :
    Lists items (fun j => p j ∨ (q j ∧ j ∈ xs)) (xs.foldl step d) := by
  induction xs generalizing p d with
  | nil => exact lists.congr fun j _ => ⟨.inl, fun h => h.elim id fun other => absurd other.2 List.not_mem_nil⟩
  | cons i xs ih =>
      have rest := ih (fun j member => inside j (List.mem_cons_of_mem _ member)) (adds p d i lists (inside i List.mem_cons_self))
      refine rest.congr fun j _ => ?_
      rw [List.mem_cons]
      tauto

theorem Lists.puts (lists : Lists items p d) (unique : Distinct items) {xs : List MemoryItem} (inside : ∀ i ∈ xs, i ∈ items) :
    Lists items (fun j => p j ∨ j ∈ xs) (xs.foldl (fun d i => Dict.put d i.memoryId i) d) := by
  have all := Lists.loop (q := fun _ => True) (fun d i => Dict.put d i.memoryId i)
    (fun p d i lists inside => (lists.put unique inside).congr fun j _ => by tauto) inside lists
  exact all.congr fun j _ => by tauto

theorem lists_byId (unique : Distinct items) {xs : List MemoryItem} (inside : ∀ i ∈ xs, i ∈ items) :
    Lists items (· ∈ xs) (byId xs) := (lists_nil.puts unique inside).congr fun j _ => by tauto

theorem Lists.get (lists : Lists items p d) {i : MemoryItem} (inside : i ∈ items) (holds : p i) :
    Dict.get d i.memoryId = some i := Dict.get_of_mem lists.distinct ((lists.mem _).mpr ⟨inside, holds, rfl⟩)

theorem Lists.of_get (lists : Lists items p d) {key : String} {i : MemoryItem} (found : Dict.get d key = some i) :
    i ∈ items ∧ p i ∧ key = i.memoryId := (lists.mem _).mp (Dict.get_eq_some found)

theorem Lists.erase (lists : Lists items p d) (unique : Distinct items) {i : MemoryItem} (inside : i ∈ items) :
    Lists items (fun j => p j ∧ j ≠ i) (Dict.erase d i.memoryId) := by
  refine ⟨Dict.nodup_erase lists.distinct _, fun e => ?_⟩
  unfold Dict.erase
  rw [List.mem_filter, lists.mem, decide_eq_true_iff]
  constructor
  · rintro ⟨⟨first, holds, key⟩, other⟩
    exact ⟨first, ⟨holds, fun same => other (key.trans (congrArg _ same))⟩, key⟩
  · rintro ⟨first, ⟨holds, other⟩, key⟩
    exact ⟨⟨first, holds, key⟩, fun same => other (unique.eq first inside (key.symm.trans same))⟩

theorem Lists.erases (unique : Distinct items) (r : MemoryItem → Bool) {xs : List MemoryItem} (inside : ∀ i ∈ xs, i ∈ items)
    (lists : Lists items p d) :
    Lists items (fun j => p j ∧ ¬(r j = true ∧ j ∈ xs))
      (xs.foldl (fun d i => if r i then Dict.erase d i.memoryId else d) d) := by
  induction xs generalizing p d with
  | nil => exact lists.congr fun j _ => by simp
  | cons i xs ih =>
      have rest := fun j member => inside j (List.mem_cons_of_mem _ member)
      rw [List.foldl_cons]
      by_cases gone : r i = true
      · rw [if_pos gone]
        refine (ih rest (lists.erase unique (inside i List.mem_cons_self))).congr fun j _ => ?_
        rw [List.mem_cons]
        constructor
        · rintro ⟨⟨holds, other⟩, kept⟩
          exact ⟨holds, fun both => kept ⟨both.1, both.2.resolve_left other⟩⟩
        · rintro ⟨holds, kept⟩
          exact ⟨⟨holds, fun same => kept ⟨same ▸ gone, .inl same⟩⟩, fun both => kept ⟨both.1, .inr both.2⟩⟩
      · rw [if_neg gone]
        refine (ih rest lists).congr fun j _ => ?_
        rw [List.mem_cons]
        constructor
        · rintro ⟨holds, kept⟩
          exact ⟨holds, fun both => both.2.elim (fun same => gone (same ▸ both.1)) fun later => kept ⟨both.1, later⟩⟩
        · rintro ⟨holds, kept⟩
          exact ⟨holds, fun both => kept ⟨both.1, .inr both.2⟩⟩

end Dictionaries

/-! ## Sorting -/

theorem mem_sortedItems (timestamp : DateTime → ℚ) {xs : List MemoryItem} {i : MemoryItem} :
    i ∈ sortedItems timestamp xs ↔ i ∈ xs := (Keyset.sortedBy_perm _ xs).mem_iff

/-- The values of a dictionary of items, sorted. -/
theorem Lists.listing (timestamp : DateTime → ℚ) {p : MemoryItem → Prop} {d : List (String × MemoryItem)} (lists : Lists items p d) :
    (sortedItems timestamp (d.map Prod.snd)).Pairwise (fun a b => newestFirst timestamp a ≤ newestFirst timestamp b) ∧
      (sortedItems timestamp (d.map Prod.snd)).Nodup ∧
        ∀ i, i ∈ sortedItems timestamp (d.map Prod.snd) ↔ i ∈ items ∧ p i := by
  have ids : (d.map Prod.snd).map (·.memoryId) = Dict.keys d := by
    rw [List.map_map]
    exact List.map_congr_left fun e member => ((lists.mem e).mp member).2.2.symm
  refine ⟨Keyset.sortedBy_sorted _ _, (Keyset.sortedBy_perm _ _).nodup_iff.mpr ?_, fun i => ?_⟩
  · exact List.Nodup.of_map (·.memoryId) (ids ▸ lists.distinct)
  · rw [mem_sortedItems timestamp, List.mem_map]
    constructor
    · rintro ⟨e, member, rfl⟩
      obtain ⟨inside, holds, -⟩ := (lists.mem e).mp member
      exact ⟨inside, holds⟩
    · rintro ⟨inside, holds⟩
      exact ⟨(i.memoryId, i), (lists.mem _).mpr ⟨inside, holds, rfl⟩, rfl⟩

/-- A sorted list of items is known by its members. -/
theorem sorted_unique {xs ys : List MemoryItem} (first : xs.Pairwise fun a b => newestFirst timestamp a ≤ newestFirst timestamp b)
    (second : ys.Pairwise fun a b => newestFirst timestamp a ≤ newestFirst timestamp b) (unique : Distinct items)
    (inside : ∀ i ∈ xs, i ∈ items) (nodup : xs.Nodup) (nodup' : ys.Nodup) (same : ∀ i, i ∈ xs ↔ i ∈ ys) : xs = ys := by
  have perm : xs.Perm ys := (List.perm_ext_iff_of_nodup nodup nodup').mpr same
  refine perm.eq_of_pairwise (fun a b left right le ge => ?_) first second
  have equal := le_antisymm le ge
  have ids : a.memoryId = b.memoryId := congrArg (fun k => (ofLex k).2) equal
  exact unique.eq (inside a left) (inside b ((same b).mpr right)) ids

/-! ## The default filter -/

/-- The expiry of the item can be computed. -/
def InRange (item : MemoryItem) : Prop := item.tier = .shortTerm → ∃ t, effectiveShortTermExpiry item = .ok t

/-- What the default filter decides on one item. -/
def defaultVisible (item : MemoryItem) (policy : MemoryAccessPolicy) (now : Int) : Bool :=
  match productDecision item policy now, isDefaultAccessEligible item policy now with
  | .ok decision, .ok access =>
      item.processingState == .processed && (decision.allowed || awaitsDisposition item decision access) && !rejectedByUser item
  | _, _ => false

theorem InRange.access {item : MemoryItem} (range : InRange item) (policy : MemoryAccessPolicy) (now : Int) :
    ∃ access, isDefaultAccessEligible item policy now = .ok access := by
  unfold isDefaultAccessEligible
  split
  · exact ⟨_, rfl⟩
  · split
    · exact ⟨_, rfl⟩
    · split
      · exact ⟨_, rfl⟩
      · by_cases short : item.tier = .shortTerm
        · obtain ⟨t, expiry⟩ := range short
          rw [if_pos short, expiry]
          by_cases past : t ≤ now
          · exact ⟨_, if_pos past⟩
          · exact ⟨_, if_neg past⟩
        · rw [if_neg short]
          exact ⟨_, rfl⟩

theorem InRange.decision {item : MemoryItem} (range : InRange item) (policy : MemoryAccessPolicy) (now : Int) :
    ∃ decision, productDecision item policy now = .ok decision := by
  obtain ⟨access, allowed⟩ := range.access policy now
  unfold productDecision
  rw [allowed]
  by_cases short : item.tier = .shortTerm
  · obtain ⟨t, expiry⟩ := range short
    have lifecycle : ∃ lifecycle, evaluateShortTermLifecycle item now = .ok lifecycle := by
      unfold evaluateShortTermLifecycle
      rw [expiry]
      dsimp only [bind, Except.bind]
      split
      · exact ⟨_, rfl⟩
      · split
        · exact ⟨_, rfl⟩
        · split
          · exact ⟨_, rfl⟩
          · split <;> exact ⟨_, rfl⟩
    obtain ⟨lifecycle, evaluated⟩ := lifecycle
    refine ⟨decisionFromLifecycle access lifecycle, ?_⟩
    change (if _ then _ else _) = _
    rw [if_pos short, evaluated]
    rfl
  · refine ⟨decisionFromAccess access, ?_⟩
    change (if _ then _ else _) = _
    rw [if_neg short]
    rfl

theorem InRange.filter (timestamp : DateTime → ℚ) (policy : MemoryAccessPolicy) (now : Int) (unique : Distinct items)
    (range : ∀ i ∈ items, InRange i) :
    ∃ visible, filterCanonicalDefaultVisibleItems timestamp items policy now = .ok visible ∧
      visible.Pairwise (fun a b => newestFirst timestamp a ≤ newestFirst timestamp b) ∧ visible.Nodup ∧
        ∀ i, i ∈ visible ↔ i ∈ items ∧ defaultVisible i policy now = true := by
  choose! decision decided using fun i member => (range i member).decision policy now
  choose! access allowed using fun i member => (range i member).access policy now
  have report : filterDefaultProductMemoryItems items policy now =
      .ok ⟨items.filter fun i => (decision i).allowed, items.foldl (fun d i => Dict.put d i.memoryId (decision i)) []⟩ := by
    have each : items.mapM (fun item => do return (item, ← productDecision item policy now)) =
        .ok (items.map fun i => (i, decision i)) := mapM_map fun i member => by rw [decided i member]; rfl
    unfold filterDefaultProductMemoryItems
    rw [each]
    change Except.ok _ = _
    rw [List.filter_map, List.map_map, List.foldl_map]
    congr 2
    exact List.map_id _
  have processed : Lists items (· ∈ (items.filter fun i => (decision i).allowed).filter (·.processingState == .processed))
      (((items.filter fun i => (decision i).allowed).filter (·.processingState == .processed)).foldl
        (fun d i => Dict.put d i.memoryId i) []) :=
    lists_byId unique fun i member => List.mem_of_mem_filter (List.mem_of_mem_filter member)
  -- The second loop adds the items that only await a disposition.
  have waiting := Lists.loop (q := fun i => awaitsDisposition i (decision i) (access i) = true)
    (fun d i => if awaitsDisposition i (decision i) (access i) then
      if (Dict.get d i.memoryId).isSome then d else Dict.put d i.memoryId i else d)
    (fun p d i lists inside => by
      by_cases waits : awaitsDisposition i (decision i) (access i)
      · rw [if_pos waits]
        exact (lists.setDefault unique inside).congr fun j _ =>
          or_congr_right ⟨fun same => ⟨same ▸ waits, same⟩, And.right⟩
      · rw [if_neg waits]
        exact lists.congr fun j _ => ⟨.inl, fun h => h.elim id fun both => absurd (both.2 ▸ both.1) waits⟩)
    (fun _ member => member) processed
  have kept := waiting.erases unique rejectedByUser fun _ member => member
  obtain ⟨sorted, nodup, mem⟩ := kept.listing timestamp
  refine ⟨_, ?_, sorted, nodup, fun i => (mem i).trans ?_⟩
  · refine ok_bind report (ok_bind (foldlM_foldl (fun i member d => ?_) _) rfl)
    dsimp only
    rw [Dict.get_puts unique member]
    by_cases known : (Dict.get d i.memoryId).isSome
    · rw [if_pos known, if_pos known, ite_self]
      rfl
    · rw [if_neg known, if_neg known, allowed i member]
      by_cases waits : awaitsDisposition i (decision i) (access i)
      · rw [if_pos waits]
        exact if_pos waits
      · rw [if_neg waits]
        exact if_neg waits
  · refine and_congr_right fun inside => ?_
    unfold defaultVisible
    rw [decided i inside, allowed i inside, List.mem_filter, List.mem_filter]
    have processed : awaitsDisposition i (decision i) (access i) = true → (i.processingState == .processed) = true := by
      unfold awaitsDisposition
      simp only [Bool.and_eq_true]
      exact fun waits => waits.1.2
    simp only [Bool.and_eq_true, Bool.or_eq_true, Bool.not_eq_true', inside, true_and, and_true]
    constructor
    · rintro ⟨⟨allowed, here⟩ | waits, kept⟩
      · exact ⟨⟨here, .inl allowed⟩, by simpa using kept⟩
      · exact ⟨⟨processed waits, .inr waits⟩, by simpa using kept⟩
    · rintro ⟨⟨here, allowed | waits⟩, kept⟩
      · exact ⟨.inl ⟨allowed, here⟩, by simpa using kept⟩
      · exact ⟨.inr waits, by simpa using kept⟩

/-! ## The two visibilities -/

def ListRequest.scoped (request : ListRequest) (item : MemoryItem) : Bool := !(request.inScope [item]).isEmpty

theorem filterItemsByDeviceScope_filter (items : List MemoryItem) (deviceScope : String) (clientDeviceId : Option String) :
    filterItemsByDeviceScope items deviceScope clientDeviceId =
      items.filter fun i => !(filterItemsByDeviceScope [i] deviceScope clientDeviceId).isEmpty := by
  unfold filterItemsByDeviceScope
  split
  · exact (List.filter_eq_self.mpr fun _ _ => rfl).symm
  · split
    · exact (List.filter_eq_self.mpr fun _ _ => rfl).symm
    · simp only
      split
      · exact (List.filter_eq_nil_iff.mpr fun _ _ => by simp).symm
      · refine List.filter_congr fun i _ => ?_
        cases matches_ : memoryMatchesDevice i (Lib.Text.strip (clientDeviceId.getD "")) <;> simp [matches_]

theorem ListRequest.inScope_filter (request : ListRequest) (items : List MemoryItem) :
    request.inScope items = items.filter request.scoped := by
  unfold ListRequest.scoped ListRequest.inScope
  split <;> exact filterItemsByDeviceScope_filter items _ _

/-- What a list shows of one item, apart from its lineage. -/
def itemVisible (request : ListRequest) (item : MemoryItem) : Bool :=
  let policy := MemoryAccessPolicy.forOmiChat request.includeArchive
  let visible := defaultVisible item policy request.now || (request.includeArchive && (isArchiveAccessEligible item policy).allowed)
  (if request.includePendingProcessing then visible || pendingSubmission item
    else visible && item.processingState == .processed) && request.scoped item

theorem InRange.scanItemVisible {item : MemoryItem} (range : InRange item) :
    canonicalScanItemVisible timestamp item request = .ok (itemVisible request item) := by
  have unique : Distinct [item] := List.nodup_singleton _
  obtain ⟨visible, filtered, -, -, mem⟩ := InRange.filter timestamp
    (MemoryAccessPolicy.forOmiChat request.includeArchive) request.now unique (fun i member => List.mem_singleton.mp member ▸ range)
  have some_ : (!visible.isEmpty) = defaultVisible item (MemoryAccessPolicy.forOmiChat request.includeArchive) request.now := by
    cases visible with
    | nil =>
        refine Eq.symm (Bool.eq_false_iff.mpr fun shown => ?_)
        exact absurd ((mem item).mpr ⟨List.mem_singleton_self _, shown⟩) List.not_mem_nil
    | cons i visible =>
        obtain ⟨only, shown⟩ := (mem i).mp List.mem_cons_self
        rw [← List.mem_singleton.mp only, shown]
        rfl
  refine ok_bind filtered ?_
  rw [some_]
  rfl

/-- The listing before its lineages are collapsed. -/
theorem InRange.visibleItems (timestamp : DateTime → ℚ) (request : ListRequest) (unique : Distinct items)
    (range : ∀ i ∈ items, InRange i) :
    ∃ visible, canonicalVisibleItems timestamp items request = .ok visible ∧
      visible.Pairwise (fun a b => newestFirst timestamp a ≤ newestFirst timestamp b) ∧ visible.Nodup ∧
        ∀ i, i ∈ visible ↔ i ∈ items ∧ itemVisible request i = true := by
  obtain ⟨shown, filtered, -, -, mem⟩ :=
    InRange.filter timestamp (MemoryAccessPolicy.forOmiChat request.includeArchive) request.now unique range
  have default_ : Lists items (fun i => defaultVisible i (MemoryAccessPolicy.forOmiChat request.includeArchive) request.now = true)
      (byId shown) :=
    (lists_byId unique fun i member => ((mem i).mp member).1).congr fun i inside => (mem i).trans (and_iff_right inside)
  have archived : Lists items (fun i =>
      (defaultVisible i (MemoryAccessPolicy.forOmiChat request.includeArchive) request.now ||
        (request.includeArchive && (isArchiveAccessEligible i (MemoryAccessPolicy.forOmiChat request.includeArchive)).allowed)) = true)
      (if request.includeArchive then
        items.foldl (fun d item =>
          if (isArchiveAccessEligible item (MemoryAccessPolicy.forOmiChat request.includeArchive)).allowed then
            if (Dict.get d item.memoryId).isSome then d else Dict.put d item.memoryId item
          else d) (byId shown)
      else byId shown) := by
    split
    · rename_i archive
      refine (Lists.loop (q := fun i =>
        (isArchiveAccessEligible i (MemoryAccessPolicy.forOmiChat request.includeArchive)).allowed = true)
        _ (fun p d i lists inside => ?_) (fun _ member => member) default_).congr fun i inside => ?_
      · by_cases allowed : (isArchiveAccessEligible i (MemoryAccessPolicy.forOmiChat request.includeArchive)).allowed
        · rw [if_pos allowed]
          exact (lists.setDefault unique inside).congr fun j _ =>
            or_congr_right ⟨fun same => ⟨same ▸ allowed, same⟩, And.right⟩
        · rw [if_neg allowed]
          exact lists.congr fun j _ => ⟨.inl, fun h => h.elim id fun both => absurd (both.2 ▸ both.1) allowed⟩
      · simp only [archive, inside, Bool.or_eq_true, Bool.true_and, and_true]
    · rename_i plain
      exact default_.congr fun i _ => by simp [plain]
  by_cases pending : request.includePendingProcessing = true
  · have submitted := Lists.loop (q := fun i => pendingSubmission i = true)
      (fun d item => if pendingSubmission item then Dict.put d item.memoryId item else d)
      (fun p d i lists inside => by
        by_cases waits : pendingSubmission i = true
        · rw [if_pos waits]
          exact (lists.put unique inside).congr fun j _ => or_congr_right ⟨fun same => ⟨same ▸ waits, same⟩, And.right⟩
        · rw [if_neg waits]
          exact lists.congr fun j _ => ⟨.inl, fun h => h.elim id fun both => absurd (both.2 ▸ both.1) waits⟩)
      (fun _ member => member) archived
    obtain ⟨sorted, nodup, mem⟩ := submitted.listing timestamp
    refine ⟨_, ok_bind filtered (if_pos pending), ?_, ?_, fun i => ?_⟩
    · rw [ListRequest.inScope_filter]
      exact sorted.filter _
    · rw [ListRequest.inScope_filter]
      exact nodup.filter _
    · rw [ListRequest.inScope_filter, List.mem_filter, mem]
      unfold itemVisible
      simp only
      rw [if_pos pending]
      simp only [Bool.and_eq_true, Bool.or_eq_true]
      tauto
  · obtain ⟨sorted, nodup, mem⟩ := archived.listing timestamp
    refine ⟨_, ok_bind filtered (if_neg pending), ?_, ?_, fun i => ?_⟩
    · rw [ListRequest.inScope_filter]
      exact (sorted.filter _).filter _
    · rw [ListRequest.inScope_filter]
      exact (nodup.filter _).filter _
    · rw [ListRequest.inScope_filter, List.mem_filter, List.mem_filter, mem]
      unfold itemVisible
      simp only
      rw [if_neg pending]
      simp only [Bool.and_eq_true, and_assoc]

end OmiLocal.Memory
