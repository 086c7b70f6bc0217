import OmiLocal.Lib.Chains
import OmiLocal.Memory.Committed
import OmiLocal.Memory.Listing

/-!
# One row of a lineage

A lineage is told by the place where its chains stay, so all items on a chain
have one root. The listing of all items keeps the first row of each lineage. The
scan knows only the chain that leaves a row.
-/
namespace OmiLocal.Memory

open Lib Lib.Chains Lib.Fallible

variable {timestamp : DateTime → ℚ} {items visible : List MemoryItem} {request : ListRequest}

/-! ## Roots -/

/-- The document an id points at, for an item that points away from itself. -/
def follow (items : List MemoryItem) (memoryId : String) : Option String := do
  let item ← items.find? (·.memoryId == memoryId)
  if outbound item = "" ∨ outbound item = item.memoryId then none else some (outbound item)

theorem find_of_mem (unique : Distinct items) {item : MemoryItem} (inside : item ∈ items) :
    items.find? (·.memoryId == item.memoryId) = some item := by
  cases found : items.find? (·.memoryId == item.memoryId) with
  | none => exact absurd (List.find?_eq_none.mp found item inside) (by simp)
  | some other =>
      have same : other.memoryId = item.memoryId := by simpa using List.find?_some found
      rw [unique.eq (List.mem_of_find?_eq_some found) inside same]

theorem follow_of_mem (unique : Distinct items) {item : MemoryItem} (inside : item ∈ items) :
    follow items item.memoryId =
      if outbound item = "" ∨ outbound item = item.memoryId then none else some (outbound item) := by
  unfold follow
  rw [find_of_mem unique inside]
  rfl

theorem follow_missing {memoryId : String} (missing : ∀ item ∈ items, item.memoryId ≠ memoryId) : follow items memoryId = none := by
  unfold follow
  rw [List.find?_eq_none.mpr fun item inside => by simpa using missing item inside]
  rfl

theorem get_byId (unique : Distinct items) {key : String} {item : MemoryItem} :
    Dict.get (byId items) key = some item ↔ item ∈ items ∧ item.memoryId = key := by
  have lists := lists_byId unique fun _ member => member
  constructor
  · intro found
    obtain ⟨inside, -, same⟩ := lists.of_get found
    exact ⟨inside, same.symm⟩
  · rintro ⟨inside, rfl⟩
    exact lists.get inside inside

theorem least_spec {xs : List String} (some_ : xs ≠ []) : IsLeast {z | z ∈ xs} (least xs) := by
  unfold least
  cases found : xs.min? with
  | none => exact absurd (List.min?_eq_none_iff.mp found) some_
  | some m =>
      obtain ⟨member, below⟩ := List.min?_eq_some_iff.mp found
      exact ⟨member, below⟩

/-- A path whose next element is on it has gone around a cycle. -/
theorem least_cycle {next : String → Option String} {x y : String} {path : List String} (route : Path next x path y)
    (again : y ∈ path) : IsLeast (limit next x) (least (path.drop (path.idxOf y))) := by
  rw [limit_cycle route again]
  refine least_spec fun empty => ?_
  have found : path.idxOf y < path.length := List.idxOf_lt_length_iff.mpr again
  exact absurd (List.drop_eq_nil_iff.mp empty) (not_le.mpr found)

theorem least_end {next : String → Option String} {x y : String} {path : List String} (route : Path next x path y)
    (ends : next y = none) : IsLeast (limit next x) y := by
  rw [limit_leads route.leads, limit_end ends]
  exact isLeast_singleton

/-- The root is the least id of the place where the chain stays. -/
theorem canonicalLineageRootFrom_spec (unique : Distinct items) {fuel : Nat} {path : List String} {start : String}
    {current : MemoryItem} (route : Path (follow items) start path current.memoryId) (inside : current ∈ items)
    (nodup : path.Nodup) (known : ∀ z ∈ path, z ∈ Dict.keys (byId items))
    (enough : (byId items).length + 1 ≤ fuel + path.length) :
    IsLeast (limit (follow items) start) (canonicalLineageRootFrom (byId items) fuel path current) := by
  induction fuel generalizing path current with
  | zero =>
      have short : path.length ≤ (Dict.keys (byId items)).length := (List.subperm_of_subset nodup known).length_le
      rw [Dict.keys, List.length_map] at short
      omega
  | succ fuel ih =>
      have here := follow_of_mem unique inside
      unfold canonicalLineageRootFrom
      split
      · rename_i again
        exact least_cycle route again
      · rename_i new
        simp only
        split
        · rename_i ends
          rw [if_pos ends] at here
          exact least_end route here
        · rename_i points
          rw [if_neg points] at here
          have route := route.snoc here
          split
          · rename_i missing
            refine least_end route (follow_missing fun item member same => ?_)
            rw [(get_byId unique).mpr ⟨member, same⟩] at missing
            cases missing
          · rename_i target found
            obtain ⟨member, same⟩ := (get_byId unique).mp found
            refine ih (same ▸ route) member ?_ (fun z on => ?_) (by rw [List.length_append, List.length_singleton]; omega)
            · exact List.nodup_append.mpr ⟨nodup, List.nodup_singleton _, fun a first b second => by
                rw [List.mem_singleton.mp second]
                exact fun equal => new (equal ▸ first)⟩
            · rcases List.mem_append.mp on with old | last
              · exact known z old
              · rw [List.mem_singleton.mp last]
                exact Dict.mem_keys_of_mem (Dict.get_eq_some ((get_byId unique).mpr ⟨inside, rfl⟩))

theorem canonicalLineageRoot_spec (unique : Distinct items) {item : MemoryItem} (inside : item ∈ items) :
    IsLeast (limit (follow items) item.memoryId) (canonicalLineageRoot (byId items) item) :=
  canonicalLineageRootFrom_spec unique rfl inside List.nodup_nil (fun _ on => absurd on List.not_mem_nil) (by simp)

/-- The item with the root's id is of the lineage. -/
theorem root_self (unique : Distinct items) {x y : MemoryItem} (first : x ∈ items) (second : y ∈ items)
    (named : y.memoryId = canonicalLineageRoot (byId items) x) :
    canonicalLineageRoot (byId items) y = canonicalLineageRoot (byId items) x := by
  have root := least_self (canonicalLineageRoot_spec unique first)
  rw [← named] at root
  exact named ▸ (canonicalLineageRoot_spec unique second).unique root

/-! ## The row of a lineage in the listing -/

abbrev rootOf (items : List MemoryItem) (item : MemoryItem) : String := canonicalLineageRoot (byId items) item

/-- The first visible row of its lineage. -/
def Survives (timestamp : DateTime → ℚ) (items visible : List MemoryItem) (x : MemoryItem) : Prop :=
  x ∈ visible ∧ ∀ y ∈ visible, rootOf items y = rootOf items x →
    survivorKey timestamp (rootOf items x) x ≤ survivorKey timestamp (rootOf items x) y

theorem survivorKey_inj {lineageRoot : String} {x y : MemoryItem}
    (same : survivorKey timestamp lineageRoot x = survivorKey timestamp lineageRoot y) : x.memoryId = y.memoryId :=
  congrArg (fun k => (ofLex (ofLex (ofLex k).2).2).2) same

/-- A lineage has one survivor. -/
theorem Survives.unique (unique : Distinct items) (inside : ∀ i ∈ visible, i ∈ items) {x y : MemoryItem}
    (first : Survives timestamp items visible x) (second : Survives timestamp items visible y)
    (same : rootOf items x = rootOf items y) : x = y := by
  have le := first.2 y second.1 same.symm
  have ge := second.2 x first.1 same
  rw [same] at le
  exact unique.eq (inside x first.1) (inside y second.1) (survivorKey_inj (le_antisymm le ge))

theorem mem_entries (items : List MemoryItem) {r : String} {x : MemoryItem} :
    x ∈ ((visible.zipIdx.map Prod.swap).filter fun e => decide (rootOf items e.2 = r)).map Prod.snd ↔
      x ∈ visible ∧ rootOf items x = r := by
  simp only [List.mem_map, List.mem_filter, decide_eq_true_iff]
  constructor
  · rintro ⟨e, ⟨⟨f, member, rfl⟩, same⟩, rfl⟩
    exact ⟨List.fst_mem_of_mem_zipIdx member, same⟩
  · rintro ⟨member, same⟩
    obtain ⟨i, here⟩ := List.mem_iff_getElem?.mp member
    exact ⟨(i, x), ⟨⟨(x, i), List.mk_mem_zipIdx_iff_getElem?.mpr here, rfl⟩, same⟩, rfl⟩

/-- Every item of the survivors is behind a visible one of its lineage. -/
def Covers (timestamp : DateTime → ℚ) (items visible survivors : List MemoryItem) : Prop :=
  ∀ x ∈ survivors, x ∈ items ∧ ∃ y ∈ visible, rootOf items y = rootOf items x ∧
    survivorKey timestamp (rootOf items x) y ≤ survivorKey timestamp (rootOf items x) x

theorem covers_self (timestamp : DateTime → ℚ) (inside : ∀ i ∈ visible, i ∈ items) : Covers timestamp items visible visible :=
  fun x shown => ⟨inside x shown, x, shown, rfl, le_rfl⟩

/-- The first position of a row of a lineage. -/
def FirstPosition (items visible : List MemoryItem) (root : String) (k : Nat) : Prop :=
  IsLeast {k | ∃ x, visible[k]? = some x ∧ rootOf items x = root} k

theorem mem_positions (items : List MemoryItem) {r : String} {k : Nat} :
    k ∈ ((visible.zipIdx.map Prod.swap).filter fun e => decide (rootOf items e.2 = r)).map Prod.fst ↔
      ∃ x, visible[k]? = some x ∧ rootOf items x = r := by
  simp only [List.mem_map, List.mem_filter, decide_eq_true_iff]
  constructor
  · rintro ⟨e, ⟨⟨f, member, rfl⟩, same⟩, rfl⟩
    exact ⟨f.1, List.mk_mem_zipIdx_iff_getElem?.mp member, same⟩
  · rintro ⟨x, here, same⟩
    exact ⟨(k, x), ⟨⟨(x, k), List.mk_mem_zipIdx_iff_getElem?.mpr here, rfl⟩, same⟩, rfl⟩

theorem selectSurvivor_spec (timestamp : DateTime → ℚ) (unique : Distinct items) (inside : ∀ i ∈ visible, i ∈ items)
    {survivors : List MemoryItem} (covers : Covers timestamp items visible survivors)
    {group : String × List (Nat × MemoryItem)} (grouped : group ∈ groupedByRoot (byId items) visible) :
    ∃ e, selectSurvivor timestamp (byId survivors) group = some e ∧ Survives timestamp items visible e.2 ∧
      rootOf items e.2 = group.1 ∧ FirstPosition items visible group.1 e.1 := by
  obtain ⟨entries, some_⟩ := (Dict.mem_groups (e := group)).2.mp grouped
  have members : ∀ {x}, x ∈ group.2.map Prod.snd ↔ x ∈ visible ∧ rootOf items x = group.1 := by
    intro x
    rw [entries]
    exact mem_entries items
  have candidates : Lists items (· ∈ group.2.map Prod.snd) (byId (group.2.map Prod.snd)) :=
    lists_byId unique fun x member => inside x (members.mp member).1
  obtain ⟨entry, member⟩ := List.exists_mem_of_ne_nil _ some_
  have first : entry.2 ∈ visible ∧ rootOf items entry.2 = group.1 := members.mp (List.mem_map_of_mem member)
  have values : ∀ x, x ∈ (byId (group.2.map Prod.snd)).map Prod.snd ↔ x ∈ visible ∧ rootOf items x = group.1 := by
    intro x
    rw [← mem_sortedItems timestamp, (candidates.listing timestamp).2.2]
    exact ⟨fun h => members.mp h.2, fun h => ⟨inside x h.1, members.mpr h⟩⟩
  obtain ⟨survivor, chosen⟩ : ∃ survivor,
      ((byId (group.2.map Prod.snd)).map Prod.snd).argmin (survivorKey timestamp group.1) = some survivor := by
    refine Option.ne_none_iff_exists'.mp fun none => ?_
    have empty := List.argmin_eq_none.mp none
    have listed := (values entry.2).mpr first
    rw [empty] at listed
    exact absurd listed List.not_mem_nil
  obtain ⟨position, at_⟩ : ∃ position, (group.2.map Prod.fst).min? = some position := by
    refine Option.ne_none_iff_exists'.mp fun none => ?_
    exact some_ (List.map_eq_nil_iff.mp (List.min?_eq_none_iff.mp none))
  obtain ⟨shown, own⟩ := (values survivor).mp (List.argmin_mem chosen)
  have below : ∀ y ∈ visible, rootOf items y = group.1 →
      survivorKey timestamp group.1 survivor ≤ survivorKey timestamp group.1 y :=
    fun y visible_ same => List.le_of_mem_argmin ((values y).mpr ⟨visible_, same⟩) chosen
  refine ⟨(position, survivor), ?_, ⟨shown, fun y visible_ same => own.symm ▸ below y visible_ (same.trans own)⟩, own, ?_⟩
  · refine Option.bind_eq_some_iff.mpr ⟨survivor, ?_, Option.bind_eq_some_iff.mpr ⟨position, at_, rfl⟩⟩
    -- The item with the root's id is one of the candidates, or behind one of them.
    cases found : Dict.get (byId survivors) group.1 with
    | none => exact chosen
    | some canonicalItem =>
        obtain ⟨here, listed, named⟩ := (lists_byId unique fun x member => (covers x member).1).of_get found
        have root : rootOf items canonicalItem = group.1 := by
          rw [← first.2]
          exact root_self unique (inside _ first.1) here (named.symm.trans first.2.symm)
        obtain ⟨-, y, visible_, same, before⟩ := covers canonicalItem listed
        rw [root] at same before
        dsimp only
        split
        · exact chosen
        · rename_i unknown
          have new : canonicalItem.memoryId ∉ Dict.keys (byId (group.2.map Prod.snd)) := fun known => by
            obtain ⟨i, member⟩ := Dict.mem_keys.mp known
            rw [Dict.get_of_mem candidates.distinct member] at unknown
            exact unknown rfl
          rw [Dict.put_new new, List.map_append, List.map_singleton, List.argmin_concat, chosen]
          exact if_neg (not_lt.mpr ((below y visible_ same).trans before))
  · obtain ⟨listed, lowest⟩ := List.min?_eq_some_iff.mp at_
    rw [entries] at listed lowest
    exact ⟨(mem_positions items).mp listed, fun k here => lowest k ((mem_positions items).mpr here)⟩

theorem collapse_selected (timestamp : DateTime → ℚ) (unique : Distinct items) (inside : ∀ i ∈ visible, i ∈ items)
    {survivors : List MemoryItem} (covers : Covers timestamp items visible survivors) :
    ∃ selected : List (Nat × MemoryItem), collapseCanonicalLineages timestamp visible items survivors =
        (Keyset.sortedBy (fun e => (toLex (e.1, e.2.memoryId) : ℕ ×ₗ String)) selected).map Prod.snd ∧
      selected.map (rootOf items ·.2) = Dict.keys (groupedByRoot (byId items) visible) ∧
        ∀ e ∈ selected, Survives timestamp items visible e.2 ∧ FirstPosition items visible (rootOf items e.2) e.1 := by
  have spec := fun group (member : group ∈ groupedByRoot (byId items) visible) =>
    selectSurvivor_spec timestamp unique inside covers member
  refine ⟨_, rfl, ?_, fun e member => ?_⟩
  · generalize groupedByRoot (byId items) visible = grouped at spec
    induction grouped with
    | nil => rfl
    | cons group grouped ih =>
        obtain ⟨e, chosen, -, own, -⟩ := spec group List.mem_cons_self
        rw [List.filterMap_cons_some chosen, List.map_cons, own, ih fun g member => spec g (List.mem_cons_of_mem _ member)]
        rfl
  · obtain ⟨group, member, chosen⟩ := List.mem_filterMap.mp member
    obtain ⟨e', chosen', survives, own, first⟩ := spec group member
    obtain rfl : e = e' := Option.some.inj (chosen.symm.trans chosen')
    exact ⟨survives, own.symm ▸ first⟩

theorem root_grouped {x : MemoryItem} (shown : x ∈ visible) :
    rootOf items x ∈ Dict.keys (groupedByRoot (byId items) visible) := by
  have grouped : (rootOf items x, ((visible.zipIdx.map Prod.swap).filter fun e => decide (rootOf items e.2 = rootOf items x))) ∈
      groupedByRoot (byId items) visible := by
    refine (Dict.mem_groups).2.mpr ⟨rfl, fun empty => ?_⟩
    have member := (mem_entries items).mpr ⟨shown, rfl⟩
    simp only at empty
    rw [empty] at member
    exact absurd member List.not_mem_nil
  exact Dict.mem_keys_of_mem grouped

/-- The listing has one row of each lineage with a visible row: the first of its visible rows. -/
theorem collapse_spec (timestamp : DateTime → ℚ) (unique : Distinct items) (inside : ∀ i ∈ visible, i ∈ items)
    {survivors : List MemoryItem} (covers : Covers timestamp items visible survivors) :
    ((collapseCanonicalLineages timestamp visible items survivors).map (rootOf items)).Nodup ∧
      (∀ i ∈ visible, ∃ x ∈ collapseCanonicalLineages timestamp visible items survivors, rootOf items x = rootOf items i) ∧
        ∀ x, x ∈ collapseCanonicalLineages timestamp visible items survivors ↔ Survives timestamp items visible x := by
  obtain ⟨selected, sorted, roots, spec⟩ := collapse_selected timestamp unique inside covers
  have perm : (collapseCanonicalLineages timestamp visible items survivors).Perm (selected.map Prod.snd) :=
    sorted ▸ (Keyset.sortedBy_perm _ _).map Prod.snd
  have survive : ∀ e ∈ selected, Survives timestamp items visible e.2 := fun e member => (spec e member).1
  have all : selected.map (rootOf items ·.2) = (selected.map Prod.snd).map (rootOf items) := by rw [List.map_map]; rfl
  have found : ∀ i ∈ visible, ∃ e ∈ selected, rootOf items e.2 = rootOf items i := by
    intro i shown
    have listed : rootOf items i ∈ selected.map (rootOf items ·.2) := roots ▸ root_grouped shown
    exact List.mem_map.mp listed
  refine ⟨?_, fun i shown => ?_, fun x => ?_⟩
  · rw [(perm.map _).nodup_iff, ← all, roots]
    exact (Dict.mem_groups (e := ("", []))).1
  · obtain ⟨e, here, same⟩ := found i shown
    exact ⟨e.2, perm.mem_iff.mpr (List.mem_map_of_mem here), same⟩
  · rw [perm.mem_iff]
    constructor
    · intro member
      obtain ⟨e, listed, rfl⟩ := List.mem_map.mp member
      exact survive e listed
    · intro survives
      obtain ⟨e, here, same⟩ := found x survives.1
      have equal : e.2 = x := (survive e here).unique unique inside survives same
      exact equal ▸ List.mem_map_of_mem here

/-! ## The chain that leaves a row -/

/-- The chain from the item comes to its end, or back, after at most twelve pointers, which can all be document ids. -/
def Closes (items : List MemoryItem) (item : MemoryItem) : Prop :=
  ∃ path y, Path (follow items) item.memoryId path y ∧ path.length ≤ canonicalScanLineageMaxHops ∧
    (follow items y = none ∨ y ∈ path) ∧ ∀ z ∈ y :: path, documentPath z = true

/-- The items that the loop reads are the account's. -/
theorem scanLineage_inside (hops : Nat) {closure : List MemoryItem} (current : MemoryItem) (inside : ∀ c ∈ closure, c ∈ items) :
    ∀ c ∈ (scanLineage items hops closure current).1, c ∈ items := by
  induction hops generalizing closure current with
  | zero => exact inside
  | succ hops ih =>
      unfold scanLineage readCanonicalMemoryItemForLineage
      simp only
      split
      · exact inside
      · split
        · exact inside
        · split
          · exact inside
          · exact inside
          · rename_i target read
            refine ih target fun c member => ?_
            rcases List.mem_append.mp member with old | last
            · exact inside c old
            · rw [List.mem_singleton.mp last]
              split at read
              · exact List.mem_of_find?_eq_some (Except.ok.inj read)
              · cases read

/-- Whether a row of the scan is dropped for its lineage. -/
def suppressed (timestamp : DateTime → ℚ) (items : List MemoryItem) (request : ListRequest) (item : MemoryItem) : Bool :=
  if outbound item = "" ∨ outbound item = item.memoryId then false
  else
    let walk := scanLineage items canonicalScanLineageMaxHops [item] item
    (walk.1.filter fun c => decide (c.memoryId ≠ item.memoryId) && itemVisible request c).any fun c =>
      decide (survivorKey timestamp walk.2 c < survivorKey timestamp walk.2 item)

theorem scanLineageSuppressed_ok (range : ∀ i ∈ items, InRange i) {item : MemoryItem} (inside : item ∈ items) :
    canonicalScanLineageSuppressed timestamp items request item = .ok (suppressed timestamp items request item) := by
  unfold canonicalScanLineageSuppressed suppressed
  simp only
  split
  · rfl
  · have alone : ∀ c ∈ [item], c ∈ items := fun c member => List.mem_singleton.mp member ▸ inside
    have known := scanLineage_inside canonicalScanLineageMaxHops item alone
    refine ok_bind (filterM_filter fun c member => ?_) rfl
    split
    · rename_i own
      simp [own]
      rfl
    · rename_i other
      rw [(range c (known c member)).scanItemVisible]
      simp [other]

def slotOf (timestamp : DateTime → ℚ) (items : List MemoryItem) (request : ListRequest) (item : MemoryItem) :
    Option MemoryItem × ScanCursor :=
  (if itemVisible request item && !suppressed timestamp items request item then some item else none,
    (item.updatedAt.micros, item.memoryId))

theorem scanSlot_ok (range : ∀ i ∈ items, InRange i) {item : MemoryItem} (inside : item ∈ items) :
    scanSlot timestamp items request item = .ok (slotOf timestamp items request item) := by
  unfold scanSlot slotOf
  refine ok_bind (range item inside).scanItemVisible ?_
  cases shown : itemVisible request item with
  | false => rfl
  | true =>
      refine ok_bind (scanLineageSuppressed_ok range inside) ?_
      cases dropped : suppressed timestamp items request item <;> rfl

theorem sorted_documents (unique : Distinct items) :
    (Keyset.sortedBy scanPosition items).Pairwise fun a b => scanPosition a < scanPosition b := by
  refine Keyset.sortedBy_strict _ (List.Nodup.of_map (fun k : ℤ ×ₗ String => (ofLex k).2) ?_)
  rw [List.map_map]
  exact unique

theorem mem_scanDocuments {startAfter : Option ScanCursor} {item : MemoryItem} (member : item ∈ scanDocuments items startAfter) :
    item ∈ items := (Keyset.sortedBy_perm _ _).mem_iff.mp (Keyset.mem_behind.mp member).1

def sampleRow (memoryId : String) (target : Option String) (status : MemoryItemStatus) (updatedAt : Int) : MemoryItem :=
  { sampleItem memoryId with canonicalMemoryId := target, status := status, updatedAt := ⟨updatedAt, true⟩ }

def sampleRequest : ListRequest := ⟨none, false, false, 10⟩

def seconds (t : DateTime) : ℚ := t.micros / 1000000

/-- An alias and the row it points at. -/
def aliasRows : List MemoryItem := [sampleRow "a" (some "r") .active 3, sampleRow "r" none .active 1]

end OmiLocal.Memory
