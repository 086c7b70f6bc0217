import Mathlib.Algebra.Order.Ring.Rat
import Mathlib.Tactic.Linarith
import OmiLocal.Lib.Matching

/-!
# The maximum assignment

`maximum_assignment`, the shortest augmenting path method with potentials, on
rational scores. Rows and columns count from 1 as in the source, column 0
holds the row that is being placed, and each row has a dummy column of weight
0 behind the real ones. An absent minimum is the source's `math.inf`.
-/
namespace OmiLocal.Speakers

/-- The matrix of the source: a row's weights on the real columns, then zeros. -/
structure Scores where
  rows : Nat
  real : Nat
  weight : Nat → Nat → ℚ

namespace Scores

def columns (m : Scores) : Nat := m.real + m.rows

def cost (m : Scores) (row column : Nat) : ℚ := if column ≤ m.real then - m.weight row column else 0

end Scores

def update {α : Type} (f : Nat → α) (i : Nat) (x : α) : Nat → α := fun j => if j = i then x else f j

def below (x : ℚ) : Option ℚ → Bool
  | none => true
  | some y => decide (x < y)

structure Search where
  u : Nat → ℚ
  v : Nat → ℚ
  minimum : Nat → Option ℚ
  used : Nat → Bool
  previous : Nat → Nat
  column : Nat

/-- The variables of the scan over the candidates. -/
structure Scan where
  minimum : Nat → Option ℚ
  previous : Nat → Nat
  delta : Option ℚ
  nextColumn : Nat

def scanCandidate (m : Scores) (s : Search) (current : Nat) (scan : Scan) (candidate : Nat) : Scan :=
  if s.used candidate then scan
  else
    let cost := m.cost current candidate - s.u current - s.v candidate
    let scan := if below cost (scan.minimum candidate) then
        { scan with minimum := update scan.minimum candidate (some cost),
                    previous := update scan.previous candidate s.column }
      else scan
    match scan.minimum candidate with
    | none => scan
    | some x => if below x scan.delta then { scan with delta := some x, nextColumn := candidate } else scan

/-- One pass of `while True`, up to its test. -/
def advance (m : Scores) (owner : Nat → Nat) (s : Search) : Search :=
  let s := { s with used := update s.used s.column true }
  let scan := (List.range' 1 m.columns).foldl (scanCandidate m s (owner s.column))
    ⟨s.minimum, s.previous, none, 0⟩
  let delta := scan.delta.getD 0
  { u := fun row => s.u row + delta * (List.range (m.columns + 1)).countP (fun c => s.used c && owner c == row)
    v := fun c => if s.used c then s.v c - delta else s.v c
    minimum := fun c => if s.used c then scan.minimum c else (scan.minimum c).map (· - delta)
    used := s.used
    previous := scan.previous
    column := scan.nextColumn }

def search (m : Scores) (owner : Nat → Nat) : Nat → Search → Search
  | 0, s => s
  | fuel + 1, s =>
      let s := advance m owner s
      if owner s.column = 0 then s else search m owner fuel s

/-- The loop `while column`. -/
def augment (previous : Nat → Nat) : Nat → Nat → (Nat → Nat) → Nat → Nat
  | 0, _, owner => owner
  | fuel + 1, column, owner =>
      if column = 0 then owner
      else augment previous fuel (previous column) (update owner column (owner (previous column)))

structure Assignment where
  u : Nat → ℚ
  v : Nat → ℚ
  owner : Nat → Nat
  previous : Nat → Nat

def place (m : Scores) (a : Assignment) (row : Nat) : Assignment :=
  let owner := update a.owner 0 row
  let found := search m owner (m.columns + 1) ⟨a.u, a.v, fun _ => none, fun _ => false, a.previous, 0⟩
  { u := found.u, v := found.v, previous := found.previous
    owner := augment found.previous (m.columns + 2) found.column owner }

def assign (m : Scores) : Assignment :=
  (List.range' 1 m.rows).foldl (place m) ⟨fun _ => 0, fun _ => 0, fun _ => 0, fun _ => 0⟩

/-- Entry of the source's matrix, with its indices from 0. -/
def entry (scores : List (List ℚ)) (row column : Nat) : ℚ := (scores.getD row []).getD column 0

def scoresOf (scores : List (List ℚ)) : Scores where
  rows := scores.length
  real := (scores.headD []).length
  weight := fun row column => entry scores (row - 1) (column - 1)

/-- The returned dictionary, row by row of its columns. -/
def maximumAssignment (scores : List (List ℚ)) : List (Nat × Nat) :=
  if scores = [] ∨ scores.headD [] = [] then []
  else
    let m := scoresOf scores
    let owner := (assign m).owner
    (List.range' 1 m.real).filterMap fun column =>
      if owner column ≠ 0 ∧ 0 < m.weight (owner column) column then some (owner column - 1, column - 1) else none

/-! ## The scan -/

def lower (x : ℚ) : Option ℚ → ℚ
  | none => x
  | some y => if x < y then x else y

theorem lower_le (x : ℚ) (y : Option ℚ) : lower x y ≤ x := by
  cases y with
  | none => exact le_refl x
  | some y =>
      by_cases h : x < y
      · exact (if_pos h).le
      · exact (if_neg h).le.trans (not_lt.mp h)

theorem lower_le_some (x y : ℚ) : lower x (some y) ≤ y := by
  by_cases h : x < y
  · exact (if_pos h).le.trans h.le
  · exact (if_neg h).le

/-- What is left of a cost once the potentials are paid. -/
def slack (m : Scores) (u v : Nat → ℚ) (row column : Nat) : ℚ := m.cost row column - u row - v column

structure Scanned (m : Scores) (s : Search) (current : Nat) (candidates : List Nat) (scan : Scan) : Prop where
  other : ∀ j, (j ∉ candidates ∨ s.used j = true) →
    scan.minimum j = s.minimum j ∧ scan.previous j = s.previous j
  seen : ∀ j ∈ candidates, s.used j = false →
    scan.minimum j = some (lower (slack m s.u s.v current j) (s.minimum j)) ∧
      scan.previous j = if below (slack m s.u s.v current j) (s.minimum j) then s.column else s.previous j
  least : (∀ j ∈ candidates, s.used j = true) ∧ scan.delta = none ∨
    scan.nextColumn ∈ candidates ∧ s.used scan.nextColumn = false ∧ ∃ d, scan.delta = some d ∧
      scan.minimum scan.nextColumn = some d ∧
      ∀ k ∈ candidates, s.used k = false → ∀ y, scan.minimum k = some y → d ≤ y

@[simp] theorem update_same {α : Type} (f : Nat → α) (i : Nat) (x : α) : update f i x i = x := if_pos rfl

theorem update_other {α : Type} (f : Nat → α) {i j : Nat} (x : α) (ne : j ≠ i) : update f i x j = f j := if_neg ne

/-- A candidate that is looked at gets its own minimum and leaves the others. -/
theorem scanCandidate_unused {m : Scores} {s : Search} {current candidate : Nat} {scan : Scan}
    (unused : s.used candidate = false) :
    (∀ j, j ≠ candidate → (scanCandidate m s current scan candidate).minimum j = scan.minimum j ∧
      (scanCandidate m s current scan candidate).previous j = scan.previous j) ∧
    (scanCandidate m s current scan candidate).minimum candidate =
      some (lower (slack m s.u s.v current candidate) (scan.minimum candidate)) ∧
    (scanCandidate m s current scan candidate).previous candidate =
      (if below (slack m s.u s.v current candidate) (scan.minimum candidate) then s.column
        else scan.previous candidate) ∧
    ∃ x, x = lower (slack m s.u s.v current candidate) (scan.minimum candidate) ∧
      (scanCandidate m s current scan candidate).delta = (if below x scan.delta then some x else scan.delta) ∧
      (scanCandidate m s current scan candidate).nextColumn =
        (if below x scan.delta then candidate else scan.nextColumn) := by
  unfold scanCandidate
  rw [if_neg (by rw [unused]; decide)]
  dsimp only
  rw [show m.cost current candidate - s.u current - s.v candidate = slack m s.u s.v current candidate from rfl]
  by_cases smaller : below (slack m s.u s.v current candidate) (scan.minimum candidate) = true
  · have low : lower (slack m s.u s.v current candidate) (scan.minimum candidate) =
        slack m s.u s.v current candidate := by
      cases h : scan.minimum candidate with
      | none => rfl
      | some y =>
          rw [h] at smaller
          exact if_pos (of_decide_eq_true smaller)
    rw [if_pos smaller, if_pos smaller]
    dsimp only
    rw [update_same]
    dsimp only
    refine ⟨?_, ?_, ?_, _, rfl, ?_, ?_⟩
    · intro j ne
      split <;> exact ⟨update_other _ _ ne, update_other _ _ ne⟩
    · rw [low]
      split <;> exact update_same _ _ _
    · split <;> exact update_same _ _ _
    · rw [low]
      split <;> rfl
    · rw [low]
      split <;> rfl
  · rw [if_neg smaller, if_neg smaller]
    cases h : scan.minimum candidate with
    | none =>
        rw [h] at smaller
        exact absurd rfl smaller
    | some y =>
        have low : lower (slack m s.u s.v current candidate) (some y) = y := by
          rw [h] at smaller
          exact if_neg (by simpa [below] using smaller)
        dsimp only
        refine ⟨?_, ?_, ?_, _, rfl, ?_, ?_⟩
        · intro j _
          split <;> exact ⟨rfl, rfl⟩
        · rw [low]
          split <;> exact h
        · split <;> rfl
        · rw [low]
          split <;> rfl
        · rw [low]
          split <;> rfl

theorem scan_spec (m : Scores) (s : Search) (current : Nat) (candidates : List Nat) (nodup : candidates.Nodup) :
    Scanned m s current candidates
      (candidates.foldl (scanCandidate m s current) ⟨s.minimum, s.previous, none, 0⟩) := by
  induction candidates using List.reverseRecOn with
  | nil => exact ⟨fun _ _ => ⟨rfl, rfl⟩, fun _ h => (by cases h), .inl ⟨fun _ h => (by cases h), rfl⟩⟩
  | append_singleton front c ih =>
      obtain ⟨nodupFront, -, apart⟩ := List.nodup_append.mp nodup
      have new : c ∉ front := fun h => apart c h c (by simp) rfl
      have before := ih nodupFront
      rw [List.foldl_append, List.foldl_cons, List.foldl_nil]
      generalize front.foldl (scanCandidate m s current) ⟨s.minimum, s.previous, none, 0⟩ = scan at before
      by_cases used : s.used c = true
      · have same : scanCandidate m s current scan c = scan := by
          unfold scanCandidate
          rw [if_pos used]
        rw [same]
        refine ⟨?_, ?_, ?_⟩
        · rintro j (outside | taken)
          · exact before.other j (.inl fun h => outside (List.mem_append_left _ h))
          · exact before.other j (.inr taken)
        · intro j member unused
          rcases List.mem_append.mp member with old | last
          · exact before.seen j old unused
          · rw [List.mem_singleton.mp last, used] at unused
            cases unused
        · rcases before.least with ⟨all, none⟩ | ⟨inside, unused, d, delta, minimum, least⟩
          · refine .inl ⟨fun j member => ?_, none⟩
            rcases List.mem_append.mp member with old | last
            · exact all j old
            · rw [List.mem_singleton.mp last, used]
          · refine .inr ⟨List.mem_append_left _ inside, unused, d, delta, minimum, fun k member unused y h => ?_⟩
            rcases List.mem_append.mp member with old | last
            · exact least k old unused y h
            · rw [List.mem_singleton.mp last, used] at unused
              cases unused
      · have unused : s.used c = false := by simpa using used
        obtain ⟨kept, minimum, previous, x, low, delta, next⟩ :=
          scanCandidate_unused (m := m) unused
        obtain ⟨oldMinimum, oldPrevious⟩ := before.other c (.inl new)
        rw [oldMinimum] at minimum previous low
        rw [oldPrevious] at previous
        refine ⟨?_, ?_, ?_⟩
        · intro j outside
          have ne : j ≠ c := by
            rintro rfl
            rcases outside with outside | taken
            · exact outside (by simp)
            · rw [unused] at taken
              cases taken
          rw [(kept j ne).1, (kept j ne).2]
          exact before.other j (outside.imp (fun h k => h (List.mem_append_left _ k)) id)
        · intro j member free
          rcases List.mem_append.mp member with old | last
          · have ne : j ≠ c := fun h => new (h ▸ old)
            rw [(kept j ne).1, (kept j ne).2]
            exact before.seen j old free
          · rw [List.mem_singleton.mp last]
            exact ⟨minimum, previous⟩
        · right
          have mins : ∀ k ∈ front, s.used k = false →
              (scanCandidate m s current scan c).minimum k = scan.minimum k :=
            fun k old _ => (kept k fun h => new (h ▸ old)).1
          rw [← low] at minimum
          by_cases better : below x scan.delta = true
          · rw [if_pos better] at delta next
            refine ⟨by rw [next]; simp, by rw [next]; exact unused, x, delta, by rw [next]; exact minimum, ?_⟩
            intro k member free y h
            rcases List.mem_append.mp member with old | last
            · rw [mins k old free] at h
              rcases before.least with ⟨all, -⟩ | ⟨-, -, d, was, -, least⟩
              · rw [all k old] at free
                cases free
              · rw [was] at better
                exact (of_decide_eq_true better).le.trans (least k old free y h)
            · rw [List.mem_singleton.mp last, minimum] at h
              cases h
              exact le_refl x
          · rw [if_neg better] at delta next
            rcases before.least with ⟨-, none⟩ | ⟨inside, chosen, d, was, at_, least⟩
            · rw [none] at better
              exact absurd rfl better
            · refine ⟨by rw [next]; exact List.mem_append_left _ inside, by rw [next]; exact chosen, d,
                by rw [delta]; exact was, by rw [next, mins _ inside chosen]; exact at_, ?_⟩
              intro k member free y h
              rcases List.mem_append.mp member with old | last
              · rw [mins k old free] at h
                exact least k old free y h
              · rw [List.mem_singleton.mp last, minimum] at h
                cases h
                rw [was] at better
                simpa [below] using better

end OmiLocal.Speakers
