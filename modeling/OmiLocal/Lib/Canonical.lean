import Mathlib.Data.List.Sort
import Mathlib.Data.String.Basic
import OmiLocal.Lib.Values

/-!
# Values up to the order of their keys

`==` on values is reflexive where the dictionaries have distinct keys, and
transitive. A writer that sorts the keys sees a value as `Value.sorted`, which
does not depend on the order of the entries.
-/
namespace Lib.Values
open Lib

/-- Induction over a value: a list over its items, a dictionary over its values. -/
theorem Value.induct {P : Value → Prop} (none : P .none) (bool : ∀ b, P (.bool b)) (int : ∀ n, P (.int n))
    (float : ∀ q, P (.float q)) (str : ∀ s, P (.str s)) (list : ∀ items, (∀ v ∈ items, P v) → P (.list items))
    (dict : ∀ entries, (∀ e ∈ entries, P e.2) → P (.dict entries)) (v : Value) : P v :=
  @Value.rec P (fun items => ∀ v ∈ items, P v) (fun entries => ∀ e ∈ entries, P e.2) (fun e => P e.2) none bool int float
    str list dict (fun _ member => absurd member List.not_mem_nil)
    (fun _ _ first rest => List.forall_mem_cons.mpr ⟨first, rest⟩) (fun _ member => absurd member List.not_mem_nil)
    (fun _ _ first rest => List.forall_mem_cons.mpr ⟨first, rest⟩) (fun _ _ value => value) v

mutual
/-- The keys of every dictionary in order, as `sort_keys` writes them. -/
def Value.sorted : Value → Value
  | .list items => .list (sortedItems items)
  | .dict entries => .dict ((sortedEntries entries).insertionSort fun a b => a.1 ≤ b.1)
  | .none => .none
  | .bool b => .bool b
  | .int n => .int n
  | .float q => .float q
  | .str s => .str s

def sortedItems : List Value → List Value
  | [] => []
  | v :: rest => v.sorted :: sortedItems rest

def sortedEntries : Entries → Entries
  | [] => []
  | (key, v) :: rest => (key, v.sorted) :: sortedEntries rest
end

mutual
/-- Every dictionary in the value has distinct keys. -/
def Value.Proper : Value → Prop
  | .list items => ProperItems items
  | .dict entries => (Dict.keys entries).Nodup ∧ ProperEntries entries
  | .none => True
  | .bool _ => True
  | .int _ => True
  | .float _ => True
  | .str _ => True

def ProperItems : List Value → Prop
  | [] => True
  | v :: rest => v.Proper ∧ ProperItems rest

def ProperEntries : Entries → Prop
  | [] => True
  | (_, v) :: rest => v.Proper ∧ ProperEntries rest
end

theorem properItems_iff (items : List Value) : ProperItems items ↔ ∀ v ∈ items, v.Proper := by
  induction items with
  | nil => simp [ProperItems]
  | cons v rest ih => rw [ProperItems, ih, List.forall_mem_cons]

theorem properEntries_iff (entries : Entries) : ProperEntries entries ↔ ∀ e ∈ entries, e.2.Proper := by
  induction entries with
  | nil => simp [ProperEntries]
  | cons e rest ih => rw [ProperEntries, ih, List.forall_mem_cons]

/-! ## Equality -/

theorem sameItems_iff (items others : List Value) :
    sameItems items others = true ↔ List.Forall₂ (fun v w => v.same w = true) items others := by
  induction items generalizing others with
  | nil => cases others <;> simp [sameItems]
  | cons v rest ih => cases others <;> simp [sameItems, ih]

theorem sameEntries_iff (entries others : Entries) :
    sameEntries entries others = true ↔ ∀ e ∈ entries, ∃ w, Dict.get others e.1 = some w ∧ e.2.same w = true := by
  induction entries with
  | nil => simp [sameEntries]
  | cons e rest ih =>
      rw [sameEntries, Bool.and_eq_true, ih, List.forall_mem_cons]
      cases found : Dict.get others e.1 with
      | none => simp
      | some w => simp

theorem same_of_number {v : Value} {q : ℚ} (number : v.number = some q) (w : Value) :
    v.same w = (w.number == some q) := by
  cases v with
  | bool b => rw [← number]; rfl
  | int n => rw [← number]; rfl
  | float r => rw [← number]; rfl
  | none => cases number
  | str s => cases number
  | list items => cases number
  | dict entries => cases number

theorem same_trans_number {v w u : Value} {q : ℚ} (number : v.number = some q) (first : v.same w = true)
    (second : w.same u = true) : v.same u = true := by
  rw [same_of_number number, beq_iff_eq] at first
  rw [same_of_number first] at second
  rw [same_of_number number]
  exact second

theorem sameDict_iff (entries others : Entries) : sameDict entries others = true ↔
    entries.length = others.length ∧ ∀ e ∈ entries, ∃ w, Dict.get others e.1 = some w ∧ e.2.same w = true := by
  rw [sameDict, Bool.and_eq_true, beq_iff_eq, sameEntries_iff]

theorem Value.same_trans {v w u : Value} (first : v.same w = true) (second : w.same u = true) : v.same u = true := by
  induction v using Value.induct generalizing w u with
  | none =>
      cases w with
      | none => exact second
      | _ => cases first
  | bool b => exact same_trans_number rfl first second
  | int n => exact same_trans_number rfl first second
  | float q => exact same_trans_number rfl first second
  | str s =>
      cases w with
      | str t =>
          have same : t = s := by simpa [Value.same, Value.text] using first
          exact same ▸ second
      | _ => simp [Value.same, Value.text] at first
  | list items ih =>
      cases w with
      | list others =>
          cases u with
          | list thirds =>
              simp only [Value.same, sameItems_iff] at first second ⊢
              induction first generalizing thirds with
              | nil => exact second
              | cons here _ rest =>
                  cases second with
                  | cons there later =>
                      obtain ⟨head, tail⟩ := List.forall_mem_cons.mp ih
                      exact .cons (head here there) (rest tail _ later)
          | _ => simp [Value.same] at second
      | _ => simp [Value.same] at first
  | dict entries ih =>
      cases w with
      | dict others =>
          cases u with
          | dict thirds =>
              change sameDict entries others = true at first
              change sameDict others thirds = true at second
              change sameDict entries thirds = true
              rw [sameDict_iff] at first second ⊢
              refine ⟨first.1.trans second.1, fun e member => ?_⟩
              obtain ⟨x, found, same⟩ := first.2 e member
              obtain ⟨y, there, also⟩ := second.2 (e.1, x) (Dict.get_eq_some found)
              exact ⟨y, there, ih e member same also⟩
          | _ => simp [Value.same] at second
      | _ => simp [Value.same] at first

theorem sameDict_trans {entries others thirds : Entries} (first : sameDict entries others = true)
    (second : sameDict others thirds = true) : sameDict entries thirds = true :=
  Value.same_trans (v := .dict entries) (w := .dict others) (u := .dict thirds) first second

theorem Value.same_refl {v : Value} (proper : v.Proper) : v.same v = true := by
  induction v using Value.induct with
  | none => rfl
  | bool b => simp [Value.same, Value.number]
  | int n => simp [Value.same, Value.number]
  | float q => simp [Value.same, Value.number]
  | str s => simp [Value.same, Value.text]
  | list items ih =>
      have each := (properItems_iff items).mp proper
      rw [Value.same, sameItems_iff, List.forall₂_same]
      exact fun v member => ih v member (each v member)
  | dict entries ih =>
      obtain ⟨distinct, each⟩ := proper
      change sameDict entries entries = true
      rw [sameDict_iff]
      refine ⟨rfl, fun e member => ⟨e.2, Dict.get_of_mem distinct member, ih e member ?_⟩⟩
      exact (properEntries_iff entries).mp each e member

theorem sameDict_refl {entries : Entries} (proper : (Value.dict entries).Proper) : sameDict entries entries = true :=
  Value.same_refl proper

/-! ## Order -/

theorem sortedEntries_eq_map (entries : Entries) : sortedEntries entries = entries.map fun e => (e.1, e.2.sorted) := by
  induction entries with
  | nil => rfl
  | cons e rest ih => rw [sortedEntries, ih, List.map_cons]

theorem keys_sortedEntries (entries : Entries) : Dict.keys (sortedEntries entries) = Dict.keys entries := by
  rw [sortedEntries_eq_map, Dict.keys, Dict.keys, List.map_map]
  rfl

/-- Entries with distinct keys have one order. -/
theorem insertionSort_eq_of_perm {entries others : Entries} (distinct : (Dict.keys entries).Nodup)
    (perm : entries.Perm others) :
    entries.insertionSort (fun a b => a.1 ≤ b.1) = others.insertionSort (fun a b => a.1 ≤ b.1) := by
  refine List.Perm.eq_of_pairwise ?_ (List.pairwise_insertionSort _ entries) (List.pairwise_insertionSort _ others) ?_
  · intro a b first second below above
    have key : a.1 = b.1 := le_antisymm below above
    have inside : b ∈ entries := perm.mem_iff.mpr ((List.mem_insertionSort _).mp second)
    exact List.inj_on_of_nodup_map distinct ((List.mem_insertionSort _).mp first) inside key
  · exact (List.perm_insertionSort _ entries).trans (perm.trans (List.perm_insertionSort _ others).symm)

theorem proper_insertionSort {entries : Entries} (proper : (Value.dict entries).Proper) :
    (Value.dict (entries.insertionSort fun a b => a.1 ≤ b.1)).Proper := by
  have perm := List.perm_insertionSort (fun a b : String × Value => a.1 ≤ b.1) entries
  refine ⟨(perm.map Prod.fst).nodup_iff.mpr proper.1, (properEntries_iff _).mpr fun e member => ?_⟩
  exact (properEntries_iff _).mp proper.2 e (perm.mem_iff.mp member)

theorem sorted_dict_perm {entries others : Entries} (distinct : (Dict.keys entries).Nodup) (perm : entries.Perm others) :
    (Value.dict entries).sorted = (Value.dict others).sorted := by
  have mapped : (sortedEntries entries).Perm (sortedEntries others) := by
    rw [sortedEntries_eq_map, sortedEntries_eq_map]
    exact perm.map _
  rw [Value.sorted, Value.sorted, insertionSort_eq_of_perm (by rw [keys_sortedEntries]; exact distinct) mapped]

end Lib.Values
