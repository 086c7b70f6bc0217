import Mathlib.Data.Set.Basic
import Mathlib.Logic.Relation
import Mathlib.Order.Bounds.Basic

/-!
# Chains of pointers

A partial map taken again and again either ends or enters a cycle. The elements
where it stays are the same for all elements of one chain, so the least of them
names the chain.
-/
namespace Lib.Chains

universe u
variable {α : Type u} {next : α → Option α}

/-- `y` is reached from `x` by following pointers. -/
def Leads (next : α → Option α) : α → α → Prop := Relation.ReflTransGen fun x y => next x = some y

/-- The chain through `x` stays at `x`: it ends there, or comes back. -/
def Returns (next : α → Option α) (x : α) : Prop := next x = none ∨ ∃ y, next x = some y ∧ Leads next y x

/-- Where the chain from `x` stays. -/
def limit (next : α → Option α) (x : α) : Set α := {y | Leads next x y ∧ Returns next y}

theorem limit_next {x y : α} (step : next x = some y) : limit next x = limit next y := by
  ext z
  constructor
  · rintro ⟨leads, returns⟩
    rcases Relation.ReflTransGen.cases_head leads with rfl | ⟨w, first, rest⟩
    · rcases returns with ends | ⟨w, again, back⟩
      · rw [step] at ends
        cases ends
      · obtain rfl : y = w := Option.some.inj (step.symm.trans again)
        exact ⟨back, .inr ⟨y, step, back⟩⟩
    · obtain rfl : y = w := Option.some.inj (step.symm.trans first)
      exact ⟨rest, returns⟩
  · rintro ⟨leads, returns⟩
    exact ⟨Relation.ReflTransGen.head step leads, returns⟩

theorem limit_leads {x y : α} (leads : Leads next x y) : limit next x = limit next y := by
  induction leads with
  | refl => rfl
  | tail _ step ih => rw [ih, limit_next step]

theorem limit_end {x : α} (ends : next x = none) : limit next x = {x} := by
  ext z
  constructor
  · rintro ⟨leads, -⟩
    rcases Relation.ReflTransGen.cases_head leads with rfl | ⟨w, first, -⟩
    · rfl
    · rw [ends] at first
      cases first
  · rintro rfl
    exact ⟨.refl, .inl ends⟩

/-- The name of a chain is one of its own names. -/
theorem least_self [LinearOrder α] {x r : α} (least : IsLeast (limit next x) r) : IsLeast (limit next r) r := by
  rw [← limit_leads least.1.1]
  exact least

/-- The elements that pointers connect, in whatever direction. -/
def Connected (next : α → Option α) : α → α → Prop := Relation.EqvGen fun x y => next x = some y

theorem Leads.connected {x y : α} (leads : Leads next x y) : Connected next x y := by
  induction leads with
  | refl => exact .refl x
  | tail _ step ih => exact ih.trans _ _ _ (.rel _ _ step)

theorem Connected.limit {x y : α} (connected : Connected next x y) : limit next x = limit next y := by
  induction connected with
  | rel x y step => exact limit_next step
  | refl x => rfl
  | symm x y _ ih => exact ih.symm
  | trans x y z _ _ first second => exact first.trans second

/-- Chains that stay at a common element are connected, and no others are. -/
theorem connected_iff_limit {x y z : α} (stays : z ∈ Chains.limit next x) :
    Connected next x y ↔ Chains.limit next x = Chains.limit next y := by
  constructor
  · exact Connected.limit
  · intro same
    have other : z ∈ Chains.limit next y := same ▸ stays
    exact (Leads.connected stays.1).trans _ _ _ (Leads.connected other.1).symm

/-! ## Paths -/

/-- `path` lists the elements from `x` up to, and without, `y`. -/
def Path (next : α → Option α) : α → List α → α → Prop
  | x, [], y => x = y
  | x, z :: path, y => x = z ∧ ∃ w, next z = some w ∧ Path next w path y

theorem Path.snoc {x y z : α} {path : List α} (route : Path next x path y) (step : next y = some z) :
    Path next x (path ++ [y]) z := by
  induction path generalizing x with
  | nil =>
      obtain rfl : x = y := route
      exact ⟨rfl, z, step, rfl⟩
  | cons v path ih =>
      obtain ⟨same, w, first, rest⟩ := route
      exact ⟨same, w, first, ih rest⟩

theorem Path.leads {x y : α} {path : List α} (route : Path next x path y) : Leads next x y := by
  induction path generalizing x with
  | nil =>
      obtain rfl : x = y := route
      exact .refl
  | cons v path ih =>
      obtain ⟨rfl, w, first, rest⟩ := route
      exact .head first (ih rest)

theorem Path.back {x y : α} {front back : List α} (route : Path next x (front ++ back) y) :
    ∃ m, Path next x front m ∧ Path next m back y := by
  induction front generalizing x with
  | nil => exact ⟨x, rfl, route⟩
  | cons v front ih =>
      obtain ⟨same, w, first, rest⟩ := route
      obtain ⟨m, before, after⟩ := ih rest
      exact ⟨m, ⟨same, w, first, before⟩, after⟩

theorem Path.mem {x y z : α} {path : List α} (route : Path next x path y) (member : z ∈ path) :
    Leads next x z ∧ ∃ w, next z = some w ∧ Leads next w y := by
  induction path generalizing x with
  | nil => cases member
  | cons v path ih =>
      obtain ⟨rfl, w, first, rest⟩ := route
      rcases List.mem_cons.mp member with rfl | later
      · exact ⟨.refl, w, first, rest.leads⟩
      · exact ⟨.head first (ih rest later).1, (ih rest later).2⟩

/-- A step from an element of a path stays on it or comes to its end. -/
theorem Path.step {x y z w : α} {path : List α} (route : Path next x path y) (member : z ∈ path) (step : next z = some w) :
    w ∈ path ∨ w = y := by
  induction path generalizing x with
  | nil => cases member
  | cons v path ih =>
      obtain ⟨rfl, u, first, rest⟩ := route
      rcases List.mem_cons.mp member with rfl | later
      · obtain rfl : w = u := Option.some.inj (step.symm.trans first)
        cases path with
        | nil => exact .inr rest
        | cons t path => exact .inl (List.mem_cons_of_mem _ (rest.1 ▸ List.mem_cons_self))
      · exact (ih rest later).imp_left (List.mem_cons_of_mem _)

variable [DecidableEq α]

/-- A path that comes back to one of its elements stays on the elements from there on. -/
theorem limit_cycle {x y : α} {path : List α} (route : Path next x path y) (again : y ∈ path) :
    limit next x = {z | z ∈ path.drop (path.idxOf y)} := by
  have split_ : path = path.take (path.idxOf y) ++ path.drop (path.idxOf y) := (List.take_append_drop _ _).symm
  have found : path.idxOf y < path.length := List.idxOf_lt_length_iff.mpr again
  have head : path.drop (path.idxOf y) = y :: path.drop (path.idxOf y + 1) := by
    rw [List.drop_eq_getElem_cons found, List.getElem_idxOf found]
  rw [limit_leads route.leads]
  rw [split_] at route
  obtain ⟨m, -, circle⟩ := route.back
  rw [head] at circle ⊢
  obtain rfl : m = y := circle.1
  ext z
  constructor
  · rintro ⟨leads, -⟩
    induction leads with
    | refl => exact List.mem_cons_self
    | tail _ step ih =>
        rcases circle.step ih step with inside | rfl
        · exact inside
        · exact List.mem_cons_self
  · intro member
    obtain ⟨leads, w, step, back⟩ := circle.mem member
    exact ⟨leads, .inr ⟨w, step, back.trans leads⟩⟩

end Lib.Chains
