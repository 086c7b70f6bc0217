import Mathlib.Data.List.Basic
import Mathlib.Data.List.Induction
import Mathlib.Data.List.Nodup
import Mathlib.Algebra.BigOperators.Group.List.Basic
import Mathlib.Tactic.Abel

/-!
# Dictionaries in insertion order

A dictionary is its list of entries. Assignment keeps the place of an existing
key and puts a new key last; a loop over the dictionary follows that order.
-/
namespace Lib.Dict

universe u v
variable {κ : Type u} {β : Type v}

def keys (d : List (κ × β)) : List κ := d.map Prod.fst

theorem mem_keys {d : List (κ × β)} {k : κ} : k ∈ keys d ↔ ∃ b, (k, b) ∈ d := by
  simp [keys]

theorem mem_keys_of_mem {d : List (κ × β)} {k : κ} {b : β} (member : (k, b) ∈ d) : k ∈ keys d :=
  mem_keys.mpr ⟨b, member⟩

theorem eq_of_mem {d : List (κ × β)} (distinct : (keys d).Nodup) {k : κ} {b c : β} (first : (k, b) ∈ d)
    (second : (k, c) ∈ d) : b = c :=
  congrArg Prod.snd (List.inj_on_of_nodup_map distinct first second rfl)

variable [DecidableEq κ]

def get (d : List (κ × β)) (k : κ) : Option β := (d.find? fun e => decide (e.1 = k)).map Prod.snd

/-- The update of an existing entry. -/
def change (d : List (κ × β)) (k : κ) (b : β) : List (κ × β) := d.map fun e => if e.1 = k then (k, b) else e

def put (d : List (κ × β)) (k : κ) (b : β) : List (κ × β) := if k ∈ keys d then change d k b else d ++ [(k, b)]

theorem keys_change (d : List (κ × β)) (k : κ) (b : β) : keys (change d k b) = keys d := by
  unfold keys change
  rw [List.map_map]
  apply List.map_congr_left
  intro e _
  simp only [Function.comp_apply]
  split
  · rename_i same
    exact same.symm
  · rfl

theorem mem_change {d : List (κ × β)} {k : κ} {b : β} {e : κ × β} :
    e ∈ change d k b ↔ (e ∈ d ∧ e.1 ≠ k) ∨ (e = (k, b) ∧ k ∈ keys d) := by
  simp only [change, List.mem_map]
  constructor
  · rintro ⟨f, member, rfl⟩
    split
    · rename_i same
      exact .inr ⟨rfl, same ▸ mem_keys_of_mem member⟩
    · rename_i other
      exact .inl ⟨member, other⟩
  · rintro (⟨member, other⟩ | ⟨rfl, known⟩)
    · exact ⟨e, member, if_neg other⟩
    · obtain ⟨c, member⟩ := mem_keys.mp known
      exact ⟨(k, c), member, if_pos rfl⟩

theorem put_new {d : List (κ × β)} {k : κ} (absent : k ∉ keys d) (b : β) : put d k b = d ++ [(k, b)] := if_neg absent

theorem mem_put {d : List (κ × β)} {k : κ} {b : β} {e : κ × β} :
    e ∈ put d k b ↔ (e ∈ d ∧ e.1 ≠ k) ∨ e = (k, b) := by
  unfold put
  split
  · rename_i known
    rw [mem_change]
    simp [known]
  · rename_i absent
    rw [List.mem_append, List.mem_singleton]
    constructor
    · rintro (member | rfl)
      · exact .inl ⟨member, fun same => absent (same ▸ mem_keys_of_mem member)⟩
      · exact .inr rfl
    · rintro (⟨member, -⟩ | rfl)
      · exact .inl member
      · exact .inr rfl

theorem get_eq_some {d : List (κ × β)} {k : κ} {b : β} (found : get d k = some b) : (k, b) ∈ d := by
  obtain ⟨e, here, rfl⟩ := Option.map_eq_some_iff.mp found
  have same : e.1 = k := by simpa using List.find?_some here
  rw [← same]
  exact List.mem_of_find?_eq_some here

theorem get_of_forall {d : List (κ × β)} {k : κ} {b : β} (member : (k, b) ∈ d) (only : ∀ c, (k, c) ∈ d → c = b) :
    get d k = some b := by
  cases found : get d k with
  | none =>
      have := List.find?_eq_none.mp (Option.map_eq_none_iff.mp found) (k, b) member
      simp at this
  | some c => rw [only c (get_eq_some found)]

theorem get_of_mem {d : List (κ × β)} (distinct : (keys d).Nodup) {k : κ} {b : β} (member : (k, b) ∈ d) :
    get d k = some b :=
  get_of_forall member fun _ other => eq_of_mem distinct other member

theorem nodup_put {d : List (κ × β)} (distinct : (keys d).Nodup) (k : κ) (b : β) : (keys (put d k b)).Nodup := by
  unfold put
  split
  · rw [keys_change]
    exact distinct
  · rename_i absent
    have last : keys (d ++ [(k, b)]) = keys d ++ [k] := List.map_append
    rw [last]
    refine List.nodup_append.mpr ⟨distinct, List.nodup_singleton k, ?_⟩
    intro a member b single
    rw [List.mem_singleton.mp single]
    rintro rfl
    exact absent member

@[simp] theorem get_put_self (d : List (κ × β)) (k : κ) (b : β) : get (put d k b) k = some b := by
  apply get_of_forall
  · exact mem_put.mpr (.inr rfl)
  · intro c member
    rcases mem_put.mp member with ⟨_, other⟩ | same
    · exact absurd rfl other
    · exact congrArg Prod.snd same

theorem get_change_other (d : List (κ × β)) {j k : κ} (other : j ≠ k) (b : β) : get (change d k b) j = get d j := by
  unfold get change
  induction d with
  | nil => rfl
  | cons e rest ih =>
      rw [List.map_cons, List.find?_cons, List.find?_cons]
      by_cases here : e.1 = k
      · rw [if_pos here]
        simp only [here, Ne.symm other, decide_false]
        exact ih
      · rw [if_neg here]
        by_cases found : e.1 = j
        · simp [found]
        · simp only [found, decide_false]
          exact ih

theorem get_put_other (d : List (κ × β)) {j k : κ} (other : j ≠ k) (b : β) : get (put d k b) j = get d j := by
  unfold put
  split
  · rw [get_change_other d other]
  · simp [get, List.find?_append, Ne.symm other]

theorem get_puts_other {α : Type*} {key : α → κ} {value : α → β} {xs : List α} {k : κ} (absent : k ∉ xs.map key)
    (d : List (κ × β)) : get (xs.foldl (fun d x => put d (key x) (value x)) d) k = get d k := by
  induction xs generalizing d with
  | nil => rfl
  | cons x xs ih =>
      rw [List.map_cons, List.mem_cons, not_or] at absent
      rw [List.foldl_cons, ih absent.2, get_put_other d absent.1]

/-- A loop of assignments under distinct keys. -/
theorem get_puts {α : Type*} {key : α → κ} {value : α → β} {xs : List α} (distinct : (xs.map key).Nodup) {x : α}
    (member : x ∈ xs) (d : List (κ × β)) :
    get (xs.foldl (fun d x => put d (key x) (value x)) d) (key x) = some (value x) := by
  induction xs generalizing d with
  | nil => cases member
  | cons y xs ih =>
      obtain ⟨apart, distinct⟩ := List.nodup_cons.mp distinct
      rcases List.mem_cons.mp member with rfl | later
      · rw [List.foldl_cons, get_puts_other apart, get_put_self]
      · exact ih distinct later _

theorem get_of_not_mem {d : List (κ × β)} {k : κ} (absent : k ∉ keys d) : get d k = none := by
  cases found : get d k with
  | none => rfl
  | some b => exact absurd (mem_keys_of_mem (get_eq_some found)) absent

/-! ## Groups -/

/-- A loop of `d.setdefault(key(x), []).append(x)`. -/
def groups {α : Type*} (key : α → κ) (xs : List α) : List (κ × List α) :=
  xs.foldl (fun d x => put d (key x) ((get d (key x)).getD [] ++ [x])) []

theorem groups_snoc {α : Type*} (key : α → κ) (xs : List α) (x : α) :
    groups key (xs ++ [x]) = put (groups key xs) (key x) ((get (groups key xs) (key x)).getD [] ++ [x]) := by
  unfold groups
  rw [List.foldl_append]
  rfl

/-- Each group holds the elements with its key, in their order, and is not empty. -/
theorem mem_groups {α : Type*} {key : α → κ} {xs : List α} {e : κ × List α} :
    (keys (groups key xs)).Nodup ∧ (e ∈ groups key xs ↔ e.2 = xs.filter (fun x => decide (key x = e.1)) ∧ e.2 ≠ []) := by
  induction xs using List.reverseRecOn generalizing e with
  | nil =>
      refine ⟨List.nodup_nil, ⟨fun member => absurd member List.not_mem_nil, fun h => absurd h.1 h.2⟩⟩
  | append_singleton xs x ih =>
      have distinct : (keys (groups key xs)).Nodup := (ih (e := e)).1
      have here : (get (groups key xs) (key x)).getD [] = xs.filter fun y => decide (key y = key x) := by
        by_cases known : key x ∈ keys (groups key xs)
        · obtain ⟨ys, member⟩ := mem_keys.mp known
          rw [get_of_mem distinct member]
          exact (ih.2.mp member).1
        · rw [get_of_not_mem known]
          by_contra some_
          exact known (mem_keys_of_mem (ih.2.mpr ⟨rfl, Ne.symm some_⟩))
      rw [groups_snoc, here]
      refine ⟨nodup_put distinct _ _, ?_⟩
      rw [mem_put, ih.2, List.filter_append]
      constructor
      · rintro (⟨⟨same, some_⟩, other⟩ | rfl)
        · rw [List.filter_cons_of_neg (by simpa using Ne.symm other), List.filter_nil, List.append_nil]
          exact ⟨same, some_⟩
        · rw [List.filter_cons_of_pos (by simp), List.filter_nil]
          exact ⟨rfl, by simp⟩
      · rintro ⟨same, some_⟩
        by_cases own : e.1 = key x
        · rw [List.filter_cons_of_pos (by simp [own]), List.filter_nil] at same
          exact .inr (Prod.ext own (by rw [same, own]))
        · rw [List.filter_cons_of_neg (by simpa using Ne.symm own), List.filter_nil, List.append_nil] at same
          exact .inl ⟨⟨same, some_⟩, own⟩

/-- `del d[k]`. -/
def erase (d : List (κ × β)) (k : κ) : List (κ × β) := d.filter fun e => decide (e.1 ≠ k)

theorem not_mem_keys_erase (d : List (κ × β)) (k : κ) : k ∉ keys (erase d k) := by
  intro inside
  obtain ⟨b, member⟩ := mem_keys.mp inside
  exact of_decide_eq_true (List.mem_filter.mp member).2 rfl

theorem keys_erase_sublist (d : List (κ × β)) (k : κ) : (keys (erase d k)).Sublist (keys d) :=
  List.filter_sublist.map Prod.fst

theorem nodup_erase {d : List (κ × β)} (distinct : (keys d).Nodup) (k : κ) : (keys (erase d k)).Nodup :=
  distinct.sublist (keys_erase_sublist d k)

@[simp] theorem get_erase_self (d : List (κ × β)) (k : κ) : get (erase d k) k = none :=
  get_of_not_mem (not_mem_keys_erase d k)

theorem get_erase_other (d : List (κ × β)) {j k : κ} (other : j ≠ k) : get (erase d k) j = get d j := by
  unfold get erase
  induction d with
  | nil => rfl
  | cons e rest ih =>
      by_cases same : e.1 = k
      · have unlike : e.1 ≠ j := fun h => other (h.symm.trans same)
        rw [List.filter_cons_of_neg (by simp [same]), List.find?_cons_of_neg (by simp [unlike])]
        exact ih
      · rw [List.filter_cons_of_pos (by simp [same])]
        by_cases found : e.1 = j
        · rw [List.find?_cons_of_pos (by simp [found]), List.find?_cons_of_pos (by simp [found])]
        · rw [List.find?_cons_of_neg (by simp [found]), List.find?_cons_of_neg (by simp [found])]
          exact ih

theorem erase_put_self (d : List (κ × β)) (k : κ) (b : β) : erase (put d k b) k = erase d k := by
  unfold erase put
  split
  · unfold change
    rw [List.filter_map]
    have untouched : (d.filter ((fun e => decide (e.1 ≠ k)) ∘ fun e => if e.1 = k then (k, b) else e)) =
        d.filter fun e => decide (e.1 ≠ k) := by
      refine List.filter_congr fun e _ => ?_
      rw [Function.comp_apply]
      split
      · rename_i same
        simp [same]
      · rfl
    rw [untouched]
    conv_rhs => rw [← List.map_id (d.filter fun e => decide (e.1 ≠ k))]
    refine List.map_congr_left fun e member => if_neg ?_
    exact of_decide_eq_true (List.mem_filter.mp member).2
  · simp [List.filter_append]

theorem get_append_of_some {d : List (κ × β)} {k : κ} {b : β} (found : get d k = some b) (more : List (κ × β)) :
    get (d ++ more) k = some b := by
  unfold get at *
  obtain ⟨e, here, same⟩ := Option.map_eq_some_iff.mp found
  rw [List.find?_append, here, Option.some_or, Option.map_some, same]

section Total
universe w
variable {M : Type w} [AddCommMonoid M] (f : β → M)

/-- The sum of a quantity over the values. -/
def total (d : List (κ × β)) : M := (d.map fun e => f e.2).sum

theorem total_put_new {d : List (κ × β)} {k : κ} (absent : k ∉ keys d) (b : β) :
    total f (put d k b) = total f d + f b := by
  rw [put_new absent, total, List.map_append, List.sum_append]
  simp [total]

/-- Replacing a value replaces its share of the sum. -/
theorem total_put {d : List (κ × β)} (distinct : (keys d).Nodup) {k : κ} {b : β} (member : (k, b) ∈ d) (c : β) :
    total f (put d k c) + f b = total f d + f c := by
  rw [put, if_pos (mem_keys_of_mem member)]
  unfold total change
  induction d with
  | nil => cases member
  | cons e rest ih =>
      have apart : e.1 ∉ keys rest := (List.nodup_cons.mp distinct).1
      rw [List.map_cons, List.map_cons, List.map_cons, List.sum_cons, List.sum_cons]
      rcases List.mem_cons.mp member with rfl | later
      · have others : rest.map (fun e => if e.1 = k then (k, c) else e) = rest := by
          conv_rhs => rw [← List.map_id rest]
          refine List.map_congr_left fun e inside => if_neg ?_
          rintro rfl
          exact apart (mem_keys_of_mem inside)
        rw [others, if_pos rfl]
        abel
      · have other : e.1 ≠ k := by
          rintro rfl
          exact apart (mem_keys_of_mem later)
        rw [if_neg other, add_assoc, ih (List.nodup_cons.mp distinct).2 later, add_assoc]

/-- Removing a key removes its share of the sum. -/
theorem total_erase {d : List (κ × β)} (distinct : (keys d).Nodup) {k : κ} {b : β} (member : (k, b) ∈ d) :
    total f (erase d k) + f b = total f d := by
  unfold total erase
  induction d with
  | nil => cases member
  | cons e rest ih =>
      have apart : e.1 ∉ keys rest := (List.nodup_cons.mp distinct).1
      rcases List.mem_cons.mp member with rfl | later
      · have others : (rest.filter fun e => decide (e.1 ≠ k)) = rest := by
          refine List.filter_eq_self.mpr fun e inside => decide_eq_true ?_
          rintro rfl
          exact apart (mem_keys_of_mem inside)
        rw [List.filter_cons_of_neg (by simp), others, List.map_cons, List.sum_cons, add_comm]
      · have other : e.1 ≠ k := by
          rintro rfl
          exact apart (mem_keys_of_mem later)
        rw [List.filter_cons_of_pos (by simp [other]), List.map_cons, List.map_cons, List.sum_cons, List.sum_cons,
          add_assoc, ih (List.nodup_cons.mp distinct).2 later]

end Total
end Lib.Dict
