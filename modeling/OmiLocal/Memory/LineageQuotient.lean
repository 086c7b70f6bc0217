import Mathlib.Data.List.Pairwise
import OmiLocal.Memory.LineageViews

/-!
# Lineages as a quotient

Two items have one root exactly when pointers connect them, over items or over a
missing document. Collapsing keeps the least candidate of each connected class, in
the order in which the classes first appear, and changes nothing the second time.
-/
namespace OmiLocal.Memory

open Lib Lib.Chains

variable {timestamp : DateTime → ℚ} {items candidates : List MemoryItem}

/-- Pointers connect the items. -/
abbrev Joined (items : List MemoryItem) (x y : MemoryItem) : Prop := Connected (follow items) x.memoryId y.memoryId

theorem root_eq_iff (unique : Distinct items) {x y : MemoryItem} (first : x ∈ items) (second : y ∈ items) :
    canonicalLineageRoot (byId items) x = canonicalLineageRoot (byId items) y ↔ Joined items x y := by
  have rootX := canonicalLineageRoot_spec unique first
  have rootY := canonicalLineageRoot_spec unique second
  rw [Joined, connected_iff_limit rootX.1]
  constructor
  · intro same
    rw [limit_leads rootX.1.1, limit_leads rootY.1.1, same]
  · intro same
    exact (same ▸ rootX).unique rootY

/-- The walk to the root ends: more passes than there are items change nothing. -/
theorem root_of_fuel (unique : Distinct items) {item : MemoryItem} (inside : item ∈ items) {fuel : Nat}
    (enough : items.length + 1 ≤ fuel) :
    canonicalLineageRootFrom (byId items) fuel [] item = canonicalLineageRoot (byId items) item := by
  have known := (lists_byId unique fun _ member => member).distinct
  have ids : Dict.keys (byId items) ⊆ items.map (·.memoryId) := by
    intro key member
    obtain ⟨i, listed⟩ := Dict.mem_keys.mp member
    obtain ⟨here, -, same⟩ := ((lists_byId unique fun _ member => member).mem (key, i)).mp listed
    exact List.mem_map.mpr ⟨i, here, same.symm⟩
  have size := (List.subperm_of_subset known ids).length_le
  rw [Dict.keys, List.length_map, List.length_map] at size
  have root : IsLeast (limit (follow items) item.memoryId) (canonicalLineageRootFrom (byId items) fuel [] item) :=
    canonicalLineageRootFrom_spec unique rfl inside List.nodup_nil (fun _ on => absurd on List.not_mem_nil)
      (by rw [List.length_nil]; omega)
  exact root.unique (canonicalLineageRoot_spec unique inside)

/-- One item of each connected class, the least, in the order of the classes. -/
structure Collapsed (timestamp : DateTime → ℚ) (items candidates result : List MemoryItem) : Prop where
  apart : result.Pairwise fun a b => ¬Joined items a b
  each : ∀ c ∈ candidates, ∃ x ∈ result, Joined items c x
  least : ∀ x ∈ result, x ∈ candidates ∧ ∀ c ∈ candidates, Joined items c x →
    survivorKey timestamp (canonicalLineageRoot (byId items) x) x ≤
      survivorKey timestamp (canonicalLineageRoot (byId items) x) c
  ordered : result.Pairwise fun a b => ∃ (k : Nat) (c : MemoryItem), candidates[k]? = some c ∧ Joined items c a ∧
    ∀ (j : Nat) (d : MemoryItem), candidates[j]? = some d → Joined items d b → k < j

theorem le_of_toLex {k j : ℕ} {x y : String} (order : (toLex (k, x) : ℕ ×ₗ String) ≤ toLex (j, y)) : k ≤ j := by
  rcases Prod.Lex.toLex_le_toLex.mp order with less | ⟨same, -⟩
  · exact less.le
  · exact same.le

theorem collapse_collapsed (timestamp : DateTime → ℚ) (unique : Distinct items) (inside : ∀ i ∈ candidates, i ∈ items)
    {survivors : List MemoryItem} (covers : Covers timestamp items candidates survivors) :
    Collapsed timestamp items candidates (collapseCanonicalLineages timestamp candidates items survivors) := by
  obtain ⟨selected, sorted, -, spec⟩ := collapse_selected timestamp unique inside covers
  obtain ⟨roots, found, survive⟩ := collapse_spec timestamp unique inside covers
  have listed : ∀ x ∈ collapseCanonicalLineages timestamp candidates items survivors, x ∈ candidates :=
    fun x member => ((survive x).mp member).1
  have joined : ∀ {x y}, x ∈ candidates → y ∈ candidates → (Joined items x y ↔ rootOf items x = rootOf items y) :=
    fun first second => (root_eq_iff unique (inside _ first) (inside _ second)).symm
  constructor
  · refine (List.pairwise_map.mp roots).imp_of_mem fun {a b} first second other connected => other ?_
    exact (joined (listed a first) (listed b second)).mp connected
  · intro c member
    obtain ⟨x, here, same⟩ := found c member
    exact ⟨x, here, (joined member (listed x here)).mpr same.symm⟩
  · intro x member
    obtain ⟨shown, below⟩ := (survive x).mp member
    exact ⟨shown, fun c other connected => below c other ((joined other shown).mp connected)⟩
  · have order := Keyset.sortedBy_sorted (fun e : ℕ × MemoryItem => (toLex (e.1, e.2.memoryId) : ℕ ×ₗ String)) selected
    have kept := fun e => (Keyset.sortedBy_perm (fun e : ℕ × MemoryItem => (toLex (e.1, e.2.memoryId) : ℕ ×ₗ String))
      selected).mem_iff (a := e)
    rw [sorted] at roots ⊢
    generalize Keyset.sortedBy (fun e : ℕ × MemoryItem => (toLex (e.1, e.2.memoryId) : ℕ ×ₗ String)) selected = rows at *
    have apart : rows.Pairwise fun a b => rootOf items a.2 ≠ rootOf items b.2 := by
      rw [List.map_map] at roots
      exact List.pairwise_map.mp roots
    rw [List.pairwise_map]
    refine (apart.and order).imp_of_mem fun {a b} first second both => ?_
    have spec_a := spec a ((kept a).mp first)
    have spec_b := spec b ((kept b).mp second)
    obtain ⟨c, at_, own⟩ := spec_a.2.1
    obtain ⟨d, at', own'⟩ := spec_b.2.1
    have position : a.1 < b.1 := by
      refine lt_of_le_of_ne (le_of_toLex both.2) fun same => both.1 ?_
      rw [same, at'] at at_
      cases at_
      exact own.symm.trans own'
    refine ⟨a.1, c, at_, (joined (List.mem_of_getElem? at_) spec_a.1.1).mpr own, fun j e here connected => ?_⟩
    exact position.trans_le (spec_b.2.2 ⟨e, here, (joined (List.mem_of_getElem? here) spec_b.1.1).mp connected⟩)

/-! ## Collapsing again -/

theorem eq_of_joined {rows : List MemoryItem} (apart : rows.Pairwise fun a b => ¬Joined items a b) {x y : MemoryItem}
    (first : x ∈ rows) (second : y ∈ rows) (joined : Joined items x y) : x = y := by
  have symmetric : Std.Symm fun a b => ¬Joined items a b := ⟨fun _ _ other back => other (back.symm _ _)⟩
  by_contra other
  exact apart.forall first second other joined

theorem nodup_of_apart {rows : List MemoryItem} (apart : rows.Pairwise fun a b => ¬Joined items a b) : rows.Nodup :=
  apart.imp fun {a b} other same => other (by rw [Joined, same]; exact .refl _)

/-- The first item comes before the second. -/
def Before (rows : List MemoryItem) (a b : MemoryItem) : Prop :=
  ∃ k : Nat, rows[k]? = some a ∧ ∀ j : Nat, rows[j]? = some b → k < j

theorem before_of_nodup {rows : List MemoryItem} (nodup : rows.Nodup) : rows.Pairwise (Before rows) := by
  rw [List.pairwise_iff_getElem]
  intro k j short long order
  refine ⟨k, List.getElem?_eq_getElem short, fun i here => ?_⟩
  obtain ⟨inside, same⟩ := List.getElem?_eq_some_iff.mp here
  rwa [(nodup.getElem_inj_iff).mp same]

/-- In a list without two joined items each class comes first where its item is. -/
theorem Collapsed.before {rows result : List MemoryItem} (h : Collapsed timestamp items rows result)
    (apart : rows.Pairwise fun a b => ¬Joined items a b) : result.Pairwise (Before rows) := by
  refine h.ordered.imp_of_mem fun {a b} first _ order => ?_
  obtain ⟨k, c, at_, joined, earlier⟩ := order
  have same : c = a := eq_of_joined apart (List.mem_of_getElem? at_) (h.least a first).1 joined
  exact ⟨k, same ▸ at_, fun j here => earlier j b here (.refl _)⟩

/-- A list without two joined items is its own collapse. -/
theorem Collapsed.eq_of_apart {rows result : List MemoryItem} (h : Collapsed timestamp items rows result)
    (apart : rows.Pairwise fun a b => ¬Joined items a b) : result = rows := by
  have perm : result.Perm rows := by
    refine (List.perm_ext_iff_of_nodup (nodup_of_apart h.apart) (nodup_of_apart apart)).mpr fun x => ?_
    refine ⟨fun member => (h.least x member).1, fun member => ?_⟩
    obtain ⟨y, here, joined⟩ := h.each x member
    rwa [eq_of_joined apart member (h.least y here).1 joined]
  refine perm.eq_of_pairwise (fun a b _ _ first second => ?_) (h.before apart) (before_of_nodup (nodup_of_apart apart))
  obtain ⟨k, atA, beforeB⟩ := first
  obtain ⟨j, atB, beforeA⟩ := second
  exact absurd (beforeB j atB) (beforeA k atA).asymm

/-- Survivors among the candidates are behind the row that was kept of their class. -/
theorem Collapsed.covers {result survivors : List MemoryItem} (h : Collapsed timestamp items candidates result)
    (unique : Distinct items) (inside : ∀ i ∈ candidates, i ∈ items) (among : ∀ x ∈ survivors, x ∈ candidates) :
    Covers timestamp items result survivors := by
  intro x member
  obtain ⟨y, here, joined⟩ := h.each x (among x member)
  obtain ⟨shown, below⟩ := h.least y here
  have same : rootOf items x = rootOf items y := (root_eq_iff unique (inside x (among x member)) (inside y shown)).mpr joined
  refine ⟨inside x (among x member), y, here, same.symm, ?_⟩
  rw [same]
  exact below x (among x member) joined

/-- Roots name the connected classes, and collapsing takes the least candidate of each class. -/
theorem lineage_quotient (timestamp : DateTime → ℚ) (items : List MemoryItem) (unique : Distinct items) :
    (∀ item ∈ items, ∀ fuel, items.length + 1 ≤ fuel →
      canonicalLineageRootFrom (byId items) fuel [] item = canonicalLineageRoot (byId items) item) ∧
    (∀ x ∈ items, ∀ y ∈ items, canonicalLineageRoot (byId items) x = canonicalLineageRoot (byId items) y ↔
      Joined items x y) ∧
    ∀ candidates : List MemoryItem, Distinct candidates → (∀ i ∈ candidates, i ∈ items) →
      Collapsed timestamp items candidates (collapseCanonicalLineages timestamp candidates items candidates) ∧
      ∀ survivors : List MemoryItem, (∀ x ∈ survivors, x ∈ candidates) →
        collapseCanonicalLineages timestamp (collapseCanonicalLineages timestamp candidates items candidates) items survivors =
          collapseCanonicalLineages timestamp candidates items candidates := by
  refine ⟨fun item inside fuel enough => root_of_fuel unique inside enough,
    fun x first y second => root_eq_iff unique first second, fun candidates _ inside => ?_⟩
  have collapsed := collapse_collapsed timestamp unique inside (covers_self timestamp inside)
  refine ⟨collapsed, fun survivors among => ?_⟩
  have kept : ∀ i ∈ collapseCanonicalLineages timestamp candidates items candidates, i ∈ items :=
    fun i member => inside i (collapsed.least i member).1
  exact (collapse_collapsed timestamp unique kept (collapsed.covers unique inside among)).eq_of_apart collapsed.apart

theorem lineage_quotient_alias : (canonicalLineageRoot (byId aliasRows) (sampleRow "a" (some "r") .active 3) =
      canonicalLineageRoot (byId aliasRows) (sampleRow "r" none .active 1) ↔
    Joined aliasRows (sampleRow "a" (some "r") .active 3) (sampleRow "r" none .active 1)) ∧
    Collapsed seconds aliasRows aliasRows (collapseCanonicalLineages seconds aliasRows aliasRows aliasRows) := by
  have distinct : Distinct aliasRows := by
    unfold Distinct
    decide
  obtain ⟨-, joined, collapsed⟩ := lineage_quotient seconds aliasRows distinct
  exact ⟨joined _ List.mem_cons_self _ (List.mem_cons_of_mem _ List.mem_cons_self),
    (collapsed aliasRows distinct fun _ member => member).1⟩

end OmiLocal.Memory
