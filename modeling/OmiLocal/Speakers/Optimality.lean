import Mathlib.Tactic.Ring
import OmiLocal.Speakers.Assignment

/-!
# The assignment is a maximum

Every pass of the search keeps feasible potentials, tight owned columns and a
path of used columns back to column 0; augmenting along it places one more row.
With all rows placed, the potentials certify the assignment.
-/
namespace OmiLocal.Speakers

variable {m : Scores}

/-- `rows` tells for which rows the potentials are feasible so far. -/
structure Potentials (m : Scores) (owner : Nat → Nat) (rows : Nat → Prop) (u v : Nat → ℚ) : Prop where
  feasible : ∀ r, rows r → ∀ j, 1 ≤ j → j ≤ m.columns → 0 ≤ slack m u v r j
  tight : ∀ j, 1 ≤ j → j ≤ m.columns → owner j ≠ 0 → slack m u v (owner j) j = 0
  nonpos : ∀ j, 1 ≤ j → j ≤ m.columns → v j ≤ 0
  free : ∀ j, 1 ≤ j → j ≤ m.columns → owner j = 0 → v j = 0

/-- Columns 0 to the last hold each row up to `row` once; column 0 holds `row` itself. -/
structure Owners (m : Scores) (row : Nat) (owner : Nat → Nat) : Prop where
  first : owner 0 = row
  positive : 1 ≤ row
  bound : row ≤ m.rows
  injective : ∀ j k, j ≤ m.columns → k ≤ m.columns → owner j ≠ 0 → owner j = owner k → j = k
  below : ∀ j, j ≤ m.columns → owner j ≤ row
  cover : ∀ r, 1 ≤ r → r ≤ row → ∃ j, j ≤ m.columns ∧ owner j = r

/-- The search has used the columns of `path`, in this order, and stands before `column`. -/
structure Frontier (m : Scores) (row : Nat) (owner : Nat → Nat) (path : List Nat) (s : Search) : Prop where
  nodup : path.Nodup
  used : ∀ j, s.used j = true ↔ j ∈ path
  inside : ∀ c ∈ path, c ≤ m.columns ∧ owner c ≠ 0
  fresh : s.column ∉ path
  column : s.column ≤ m.columns
  start : path = [] ∧ s.column = 0 ∨ 0 ∈ path ∧ 1 ≤ s.column
  potentials : Potentials m owner (fun r => 1 ≤ r ∧ r < row ∨ r = row ∧ path ≠ []) s.u s.v
  untouched : path = [] → ∀ j, s.minimum j = none
  minima : path ≠ [] → ∀ j, 1 ≤ j → j ≤ m.columns → j ∉ path → s.previous j ∈ path ∧
    ∃ x, s.minimum j = some x ∧ 0 ≤ x ∧ x = slack m s.u s.v (owner (s.previous j)) j ∧
      ∀ c ∈ path, x ≤ slack m s.u s.v (owner c) j
  reached : path ≠ [] → s.minimum s.column = some 0
  chain : ∀ c ∈ path, c ≠ 0 → s.previous c ∈ path ∧ path.idxOf (s.previous c) < path.idxOf c ∧
    slack m s.u s.v (owner (s.previous c)) c = 0

theorem Frontier.length_lt {row : Nat} {owner : Nat → Nat} (owners : Owners m row owner) {path : List Nat}
    (nodup : path.Nodup) (inside : ∀ c ∈ path, c ≤ m.columns ∧ owner c ≠ 0) : path.length ≤ row := by
  have distinct : (path.map owner).Nodup := by
    refine (List.nodup_map_iff_inj_on nodup).mpr fun j hj k hk same => ?_
    exact owners.injective j k (inside j hj).1 (inside k hk).1 (inside j hj).2 same
  have subset : path.map owner ⊆ List.range' 1 row := by
    intro r member
    obtain ⟨c, here, rfl⟩ := List.mem_map.mp member
    rw [List.mem_range'_1]
    have := owners.below c (inside c here).1
    have := (inside c here).2
    omega
  have := (List.subperm_of_subset distinct subset).length_le
  simpa using this

/-- More columns than rows: some real or dummy column is still unused. -/
theorem exists_unused {row : Nat} {owner : Nat → Nat} (owners : Owners m row owner) {path : List Nat}
    (nodup : path.Nodup) (inside : ∀ c ∈ path, c ≤ m.columns ∧ owner c ≠ 0) (zero : 0 ∈ path) :
    ∃ j ∈ List.range' 1 m.columns, j ∉ path := by
  by_contra all
  push Not at all
  have subset : List.range (m.columns + 1) ⊆ path := by
    intro j member
    rw [List.mem_range] at member
    by_cases first : j = 0
    · rw [first]
      exact zero
    · exact all j (List.mem_range'_1.mpr (by omega))
  have := (List.subperm_of_subset List.nodup_range subset).length_le
  have short := Frontier.length_lt owners nodup inside
  have := owners.bound
  simp only [List.length_range, Scores.columns] at *
  omega

/-! ## One pass -/

/-- How often the owner of a used column is met in the loop over the columns. -/
theorem countP_owner {row : Nat} {owner : Nat → Nat} (owners : Owners m row owner) {used : Nat → Bool}
    {path : List Nat} (same : ∀ j, used j = true ↔ j ∈ path) (inside : ∀ c ∈ path, c ≤ m.columns ∧ owner c ≠ 0)
    (r : Nat) :
    (List.range (m.columns + 1)).countP (fun c => used c && owner c == r) =
      if ∃ c ∈ path, owner c = r then 1 else 0 := by
  split
  · rename_i found
    obtain ⟨c, member, rfl⟩ := found
    have only : ∀ d ∈ List.range (m.columns + 1), (used d && owner d == owner c) = true ↔ (d == c) = true := by
      intro d range
      rw [List.mem_range] at range
      simp only [Bool.and_eq_true, beq_iff_eq, same]
      constructor
      · rintro ⟨here, equal⟩
        exact owners.injective d c (inside d here).1 (inside c member).1 (inside d here).2 equal
      · rintro rfl
        exact ⟨member, rfl⟩
    rw [List.countP_congr only]
    have once := List.count_eq_one_of_mem (List.nodup_range (n := m.columns + 1))
      (List.mem_range.mpr (Nat.lt_succ_of_le (inside c member).1))
    exact once
  · rename_i none
    rw [List.countP_eq_zero]
    intro d _ both
    simp only [Bool.and_eq_true, beq_iff_eq, same] at both
    exact none ⟨d, both.1, both.2⟩

/-- All that a pass changes, with `delta` the least minimum of the unused columns. -/
structure Advanced (m : Scores) (owner : Nat → Nat) (path : List Nat) (s t : Search) (delta : ℚ) : Prop where
  u : ∀ r, t.u r = if ∃ c ∈ path, owner c = r then s.u r + delta else s.u r
  v : ∀ c, t.v c = if c ∈ path then s.v c - delta else s.v c
  used : ∀ j, t.used j = true ↔ j ∈ path
  previous : ∀ j ∈ path, t.previous j = s.previous j
  minima : ∀ j, 1 ≤ j → j ≤ m.columns → j ∉ path →
    t.minimum j = some (lower (slack m s.u s.v (owner s.column) j) (s.minimum j) - delta) ∧
    delta ≤ lower (slack m s.u s.v (owner s.column) j) (s.minimum j) ∧
    t.previous j = if below (slack m s.u s.v (owner s.column) j) (s.minimum j) then s.column else s.previous j
  column : 1 ≤ t.column ∧ t.column ≤ m.columns ∧ t.column ∉ path
  chosen : lower (slack m s.u s.v (owner s.column) t.column) (s.minimum t.column) = delta

theorem advance_spec {row : Nat} {owner : Nat → Nat} (owners : Owners m row owner) {path : List Nat} {s : Search}
    (nodup : (path ++ [s.column]).Nodup) (used : ∀ j, s.used j = true ↔ j ∈ path)
    (inside : ∀ c ∈ path ++ [s.column], c ≤ m.columns ∧ owner c ≠ 0) (zero : 0 ∈ path ++ [s.column]) :
    ∃ delta, Advanced m owner (path ++ [s.column]) s (advance m owner s) delta := by
  have marked : ∀ j, update s.used s.column true j = true ↔ j ∈ path ++ [s.column] := by
    intro j
    by_cases here : j = s.column
    · rw [here, update_same]
      simp
    · rw [update_other _ _ here, used]
      simp [here]
  have unmarked : ∀ j, update s.used s.column true j = false ↔ j ∉ path ++ [s.column] := by
    intro j
    rw [← marked, Bool.not_eq_true]
  have scanned := scan_spec m { s with used := update s.used s.column true } (owner s.column)
    (List.range' 1 m.columns) List.nodup_range'
  obtain ⟨free, range, outside⟩ := exists_unused owners nodup inside zero
  unfold advance
  dsimp only
  generalize (List.range' 1 m.columns).foldl (scanCandidate m { s with used := update s.used s.column true }
    (owner s.column)) ⟨s.minimum, s.previous, none, 0⟩ = scan at scanned
  rcases scanned.least with ⟨all, -⟩ | ⟨next, unused, d, delta, minimum, least⟩
  · exact absurd ((marked free).mp (all free range)) outside
  · dsimp only at unused least
    have seen : ∀ j, 1 ≤ j → j ≤ m.columns → j ∉ path ++ [s.column] → _ := fun j low high out =>
      scanned.seen j (List.mem_range'_1.mpr (by omega)) ((unmarked j).mpr out)
    refine ⟨d, ?_, ?_, marked, ?_, ?_, ?_, ?_⟩
    · intro r
      dsimp only
      rw [delta, countP_owner owners marked inside r, Option.getD_some]
      split <;> simp
    · intro c
      dsimp only
      rw [delta, Option.getD_some]
      by_cases here : c ∈ path ++ [s.column]
      · rw [if_pos ((marked c).mpr here), if_pos here]
      · rw [if_neg (fun h => here ((marked c).mp h)), if_neg here]
    · intro j member
      exact (scanned.other j (.inr ((marked j).mpr member))).2
    · intro j low high out
      obtain ⟨min, prev⟩ := seen j low high out
      dsimp only at min prev ⊢
      rw [if_neg (fun h => out ((marked j).mp h)), min, delta]
      refine ⟨rfl, ?_, prev⟩
      exact least j (List.mem_range'_1.mpr (by omega)) ((unmarked j).mpr out) _ min
    · dsimp only
      rw [List.mem_range'_1] at next
      exact ⟨next.1, by omega, (unmarked _).mp unused⟩
    · have bounds := List.mem_range'_1.mp next
      obtain ⟨min, -⟩ := seen scan.nextColumn bounds.1 (by omega) ((unmarked _).mp unused)
      dsimp only at min ⊢
      rw [minimum] at min
      exact (Option.some.inj min).symm

section Pass

variable {row : Nat} {owner : Nat → Nat} {path : List Nat} {s t : Search} {delta : ℚ}

theorem Advanced.slack_eq (advanced : Advanced m owner path s t delta) (r j : Nat) :
    slack m t.u t.v r j = slack m s.u s.v r j - (if ∃ c ∈ path, owner c = r then delta else 0) +
      (if j ∈ path then delta else 0) := by
  unfold slack
  rw [advanced.u r, advanced.v j]
  split <;> split <;> ring

theorem Advanced.slack_inside (advanced : Advanced m owner path s t delta) {c j : Nat} (owned : c ∈ path)
    (here : j ∈ path) : slack m t.u t.v (owner c) j = slack m s.u s.v (owner c) j := by
  rw [advanced.slack_eq, if_pos ⟨c, owned, rfl⟩, if_pos here]
  ring

theorem Advanced.slack_outside (advanced : Advanced m owner path s t delta) {c j : Nat} (owned : c ∈ path)
    (out : j ∉ path) : slack m t.u t.v (owner c) j = slack m s.u s.v (owner c) j - delta := by
  rw [advanced.slack_eq, if_pos ⟨c, owned, rfl⟩, if_neg out]
  ring

/-- A column that no used one reaches yet has a minimum below the slack of every used row. -/
theorem Frontier.lower_le (frontier : Frontier m row owner path s) {j : Nat} (low : 1 ≤ j) (high : j ≤ m.columns)
    (out : j ∉ path ++ [s.column]) {c : Nat} (member : c ∈ path ++ [s.column]) :
    lower (slack m s.u s.v (owner s.column) j) (s.minimum j) ≤ slack m s.u s.v (owner c) j := by
  rcases List.mem_append.mp member with old | last
  · obtain ⟨-, x, minimum, -, -, least⟩ := frontier.minima (List.ne_nil_of_mem old) j low high
      fun h => out (List.mem_append_left _ h)
    rw [minimum]
    exact (lower_le_some _ x).trans (least c old)
  · rw [List.mem_singleton.mp last]
    exact Speakers.lower_le _ _

theorem Frontier.zero_mem (frontier : Frontier m row owner path s) : 0 ∈ path ++ [s.column] := by
  rcases frontier.start with ⟨-, first⟩ | ⟨zero, -⟩
  · rw [first]
    simp
  · exact List.mem_append_left _ zero

/-- Past the first pass the potentials only move in one direction. -/
theorem Frontier.delta_nonneg (owners : Owners m row owner) (frontier : Frontier m row owner path s)
    (held : owner s.column ≠ 0) (advanced : Advanced m owner (path ++ [s.column]) s t delta) {j : Nat}
    (low : 1 ≤ j) (here : j ∈ path ++ [s.column]) : path ≠ [] ∧ 0 ≤ delta := by
  have later : path ≠ [] := by
    rintro rfl
    rcases frontier.start with ⟨-, first⟩ | ⟨zero, -⟩
    · rw [first] at here
      simp at here
      omega
    · cases zero
  obtain ⟨least, most, out⟩ := advanced.column
  obtain ⟨-, x, minimum, nonneg, -, -⟩ := frontier.minima later t.column least most
    fun h => out (List.mem_append_left _ h)
  have rowOk := owners.below s.column frontier.column
  have feasible := frontier.potentials.feasible (owner s.column)
    (by rcases Nat.lt_or_eq_of_le rowOk with less | same
        · exact .inl ⟨by omega, less⟩
        · exact .inr ⟨same, later⟩) t.column least most
  refine ⟨later, ?_⟩
  rw [← advanced.chosen, minimum]
  dsimp only [lower]
  split
  · exact feasible
  · exact nonneg

theorem Potentials.advance (owners : Owners m row owner) (frontier : Frontier m row owner path s)
    (held : owner s.column ≠ 0) (inside : ∀ c ∈ path ++ [s.column], c ≤ m.columns ∧ owner c ≠ 0)
    (advanced : Advanced m owner (path ++ [s.column]) s t delta) :
    Potentials m owner (fun r => 1 ≤ r ∧ r < row ∨ r = row ∧ path ++ [s.column] ≠ []) t.u t.v := by
  have before := frontier.potentials
  refine ⟨?_, ?_, ?_, ?_⟩
  · intro r allowed j low high
    rw [advanced.slack_eq]
    by_cases here : j ∈ path ++ [s.column]
    · obtain ⟨later, nonneg⟩ := frontier.delta_nonneg owners held advanced low here
      have old := before.feasible r (allowed.imp id fun h => ⟨h.1, later⟩) j low high
      rw [if_pos here]
      split <;> linarith
    · rw [if_neg here]
      split
      · rename_i owned
        obtain ⟨c, member, rfl⟩ := owned
        have := frontier.lower_le low high here member
        have := (advanced.minima j low high here).2.1
        linarith
      · rename_i unowned
        have other : r ≠ row := by
          rintro rfl
          exact unowned ⟨0, frontier.zero_mem, owners.first⟩
        have old := before.feasible r (.inl (allowed.resolve_right fun h => other h.1)) j low high
        linarith
  · intro j low high owned
    have old := before.tight j low high owned
    by_cases here : j ∈ path ++ [s.column]
    · rw [advanced.slack_inside here here, old]
    · have unmet : ¬ ∃ c ∈ path ++ [s.column], owner c = owner j := by
        rintro ⟨c, member, same⟩
        exact here (owners.injective c j (inside c member).1 high (inside c member).2 same ▸ member)
      rw [advanced.slack_eq, if_neg unmet, if_neg here, old]
      ring
  · intro j low high
    have old := before.nonpos j low high
    rw [advanced.v j]
    split
    · rename_i here
      have := (frontier.delta_nonneg owners held advanced low here).2
      linarith
    · exact old
  · intro j low high unowned
    rw [advanced.v j, if_neg fun here => (inside j here).2 unowned]
    exact before.free j low high unowned

/-- The columns met so far lead back to column 0 over tight pairs. -/
theorem Frontier.back (frontier : Frontier m row owner path s) {c : Nat} (member : c ∈ path ++ [s.column])
    (positive : c ≠ 0) : s.previous c ∈ path ∧
      (path ++ [s.column]).idxOf (s.previous c) < (path ++ [s.column]).idxOf c ∧
      slack m s.u s.v (owner (s.previous c)) c = 0 := by
  rcases List.mem_append.mp member with old | last
  · obtain ⟨back, earlier, zero⟩ := frontier.chain c old positive
    refine ⟨back, ?_, zero⟩
    rw [List.idxOf_append_of_mem back, List.idxOf_append_of_mem old]
    exact earlier
  · rw [List.mem_singleton.mp last] at positive ⊢
    have started := frontier.start.resolve_left fun h => positive h.2
    have later := List.ne_nil_of_mem started.1
    obtain ⟨back, x, minimum, -, same, -⟩ :=
      frontier.minima later s.column started.2 frontier.column frontier.fresh
    refine ⟨back, ?_, ?_⟩
    · rw [List.idxOf_append_of_mem back, List.idxOf_append_of_notMem frontier.fresh]
      have := List.idxOf_lt_length_of_mem back
      omega
    · rw [frontier.reached later] at minimum
      rw [← same, ← Option.some.inj minimum]

theorem frontier_advance (owners : Owners m row owner) (frontier : Frontier m row owner path s)
    (held : owner s.column ≠ 0) : Frontier m row owner (path ++ [s.column]) (advance m owner s) := by
  have nodup : (path ++ [s.column]).Nodup := by
    rw [List.nodup_append]
    refine ⟨frontier.nodup, List.nodup_singleton _, fun a ha b hb same => frontier.fresh ?_⟩
    rw [← List.mem_singleton.mp hb, ← same]
    exact ha
  have inside : ∀ c ∈ path ++ [s.column], c ≤ m.columns ∧ owner c ≠ 0 := by
    intro c member
    rcases List.mem_append.mp member with old | last
    · exact frontier.inside c old
    · rw [List.mem_singleton.mp last]
      exact ⟨frontier.column, held⟩
  have zero := frontier.zero_mem
  obtain ⟨delta, advanced⟩ := advance_spec owners nodup frontier.used inside zero
  generalize advance m owner s = t at advanced
  obtain ⟨least, most, out⟩ := advanced.column
  refine ⟨nodup, advanced.used, inside, out, most, .inr ⟨zero, least⟩,
    Potentials.advance owners frontier held inside advanced, ?_, ?_, ?_, ?_⟩
  · intro empty
    rw [empty] at zero
    cases zero
  · intro _ j low high outside
    obtain ⟨minimum, bound, previous⟩ := advanced.minima j low high outside
    have source : t.previous j ∈ path ++ [s.column] ∧ slack m s.u s.v (owner (t.previous j)) j =
        lower (slack m s.u s.v (owner s.column) j) (s.minimum j) := by
      by_cases smaller : below (slack m s.u s.v (owner s.column) j) (s.minimum j) = true
      · rw [if_pos smaller] at previous
        rw [previous]
        refine ⟨by simp, ?_⟩
        cases h : s.minimum j with
        | none => rfl
        | some y =>
            rw [h] at smaller
            exact (if_pos (of_decide_eq_true smaller)).symm
      · rw [if_neg smaller] at previous
        rw [previous]
        have later : path ≠ [] := fun empty => smaller (by rw [frontier.untouched empty j]; rfl)
        obtain ⟨member, x, was, -, same, -⟩ := frontier.minima later j low high
          fun h => outside (List.mem_append_left _ h)
        refine ⟨List.mem_append_left _ member, ?_⟩
        rw [was] at smaller ⊢
        rw [← same]
        exact (if_neg (by simpa [below] using smaller)).symm
    refine ⟨source.1, _, minimum, by linarith, ?_, ?_⟩
    · rw [advanced.slack_outside source.1 outside, source.2]
    · intro c member
      rw [advanced.slack_outside member outside]
      have := frontier.lower_le low high outside member
      linarith
  · intro _
    rw [(advanced.minima t.column least most out).1, advanced.chosen, sub_self]
  · intro c member positive
    have step := frontier.back member positive
    rw [advanced.previous c member]
    have back := List.mem_append_left [s.column] step.1
    refine ⟨back, step.2.1, ?_⟩
    rw [advanced.slack_inside back member]
    exact step.2.2

/-- The search ends before a column that no row owns. -/
theorem search_spec (owners : Owners m row owner) (fuel : Nat) (frontier : Frontier m row owner path s)
    (held : owner s.column ≠ 0) (enough : row < fuel + path.length) :
    ∃ path', path' ≠ [] ∧ Frontier m row owner path' (search m owner fuel s) ∧
      owner (search m owner fuel s).column = 0 := by
  induction fuel generalizing path s with
  | zero =>
      have := Frontier.length_lt owners frontier.nodup frontier.inside
      omega
  | succ fuel ih =>
      have next := frontier_advance owners frontier held
      unfold search
      dsimp only
      split
      · rename_i free
        exact ⟨_, by simp, next, free⟩
      · rename_i taken
        exact ih next taken (by rw [List.length_append, List.length_singleton]; omega)

/-! ## Augmenting -/

/-- The owners while `hole` waits for its row: all is in place but there. -/
structure Hole (m : Scores) (row : Nat) (owner : Nat → Nat) (path : List Nat) (s : Search) (hole : Nat)
    (o : Nat → Nat) : Prop where
  member : hole ∈ path ++ [s.column]
  kept : ∀ c, (path ++ [s.column]).idxOf c < (path ++ [s.column]).idxOf hole → o c = owner c
  injective : ∀ j k, j ≤ m.columns → k ≤ m.columns → j ≠ hole → k ≠ hole → o j ≠ 0 → o j = o k → j = k
  below : ∀ j, j ≤ m.columns → o j ≤ row
  cover : ∀ r, 1 ≤ r → r ≤ row → ∃ j, j ≤ m.columns ∧ j ≠ hole ∧ o j = r
  tight : ∀ j, 1 ≤ j → j ≤ m.columns → j ≠ hole → o j ≠ 0 → slack m s.u s.v (o j) j = 0
  free : ∀ j, 1 ≤ j → j ≤ m.columns → j ≠ hole → o j = 0 → s.v j = 0

theorem Hole.start (owners : Owners m row owner) (frontier : Frontier m row owner path s)
    (free : owner s.column = 0) : Hole m row owner path s s.column owner := by
  refine ⟨by simp, fun _ _ => rfl, ?_, owners.below, ?_, ?_, ?_⟩
  · intro j k hj hk _ _ owned same
    exact owners.injective j k hj hk owned same
  · intro r low high
    obtain ⟨j, bound, here⟩ := owners.cover r low high
    refine ⟨j, bound, ?_, here⟩
    rintro rfl
    omega
  · intro j low high _ owned
    exact frontier.potentials.tight j low high owned
  · intro j low high _ unowned
    exact frontier.potentials.free j low high unowned

theorem Hole.step (frontier : Frontier m row owner path s) {hole : Nat} {o : Nat → Nat}
    (before : Hole m row owner path s hole o) (positive : hole ≠ 0) :
    Hole m row owner path s (s.previous hole) (update o hole (o (s.previous hole))) := by
  obtain ⟨back, earlier, zero⟩ := frontier.back before.member positive
  have same := before.kept _ earlier
  have apart : s.previous hole ≠ hole := by
    intro h
    rw [h] at earlier
    exact lt_irrefl _ earlier
  have range := (frontier.inside _ back).1
  refine ⟨List.mem_append_left _ back, ?_, ?_, ?_, ?_, ?_, ?_⟩
  · intro c less
    rw [update_other o _ (by rintro rfl; omega)]
    exact before.kept c (less.trans earlier)
  · intro j k hj hk jNot kNot owned equal
    by_cases first : j = hole <;> by_cases second : k = hole
    · rw [first, second]
    · rw [first] at owned equal
      rw [update_same] at owned equal
      rw [update_other _ _ second] at equal
      exact absurd (before.injective _ k range hk apart second owned equal).symm kNot
    · rw [second, update_same, update_other _ _ first] at equal
      rw [update_other _ _ first] at owned
      exact absurd (before.injective j _ hj range first apart owned equal) jNot
    · rw [update_other _ _ first] at owned equal
      rw [update_other _ _ second] at equal
      exact before.injective j k hj hk first second owned equal
  · intro j hj
    by_cases here : j = hole
    · rw [here, update_same]
      exact before.below _ range
    · rw [update_other _ _ here]
      exact before.below j hj
  · intro r low high
    obtain ⟨j, bound, out, here⟩ := before.cover r low high
    by_cases moved : j = s.previous hole
    · refine ⟨hole, ?_, fun h => apart h.symm, ?_⟩
      · rcases List.mem_append.mp before.member with old | last
        · exact (frontier.inside _ old).1
        · rw [List.mem_singleton.mp last]
          exact frontier.column
      · rw [update_same, ← moved]
        exact here
    · exact ⟨j, bound, moved, by rw [update_other _ _ out]; exact here⟩
  · intro j low high out owned
    by_cases here : j = hole
    · rw [here, update_same, same]
      exact zero
    · rw [update_other _ _ here] at owned ⊢
      exact before.tight j low high here owned
  · intro j low high out unowned
    by_cases here : j = hole
    · rw [here, update_same, same] at unowned
      exact absurd unowned (frontier.inside _ back).2
    · rw [update_other _ _ here] at unowned
      exact before.free j low high here unowned

theorem augment_spec (frontier : Frontier m row owner path s) (fuel : Nat) {hole : Nat} {o : Nat → Nat}
    (before : Hole m row owner path s hole o) (enough : (path ++ [s.column]).idxOf hole < fuel) :
    Hole m row owner path s 0 (augment s.previous fuel hole o) := by
  induction fuel generalizing hole o with
  | zero => omega
  | succ fuel ih =>
      unfold augment
      split
      · rename_i zero
        rw [← zero]
        exact before
      · rename_i positive
        have earlier := (frontier.back before.member positive).2.1
        exact ih (before.step frontier positive) (by omega)

end Pass

/-! ## All rows -/

/-- The rows up to `row` have a column each, with potentials that certify it. -/
structure Placed (m : Scores) (row : Nat) (owner : Nat → Nat) (u v : Nat → ℚ) : Prop where
  injective : ∀ j k, 1 ≤ j → j ≤ m.columns → 1 ≤ k → k ≤ m.columns → owner j ≠ 0 → owner j = owner k → j = k
  below : ∀ j, 1 ≤ j → j ≤ m.columns → owner j ≤ row
  cover : ∀ r, 1 ≤ r → r ≤ row → ∃ j, 1 ≤ j ∧ j ≤ m.columns ∧ owner j = r
  potentials : Potentials m owner (fun r => 1 ≤ r ∧ r ≤ row) u v

theorem Placed.owners {row : Nat} {owner : Nat → Nat} {u v : Nat → ℚ} (placed : Placed m row owner u v)
    (more : row + 1 ≤ m.rows) : Owners m (row + 1) (update owner 0 (row + 1)) := by
  have later : ∀ j, j ≠ 0 → update owner 0 (row + 1) j = owner j := fun j h => update_other owner _ h
  refine ⟨update_same _ _ _, by omega, more, ?_, ?_, ?_⟩
  · intro j k hj hk owned same
    by_cases first : j = 0 <;> by_cases second : k = 0
    · rw [first, second]
    · rw [first, update_same, later k second] at same
      have := placed.below k (by omega) hk
      omega
    · rw [second, update_same, later j first] at same
      have := placed.below j (by omega) hj
      omega
    · rw [later j first] at owned same
      rw [later k second] at same
      exact placed.injective j k (by omega) hj (by omega) hk owned same
  · intro j hj
    by_cases first : j = 0
    · rw [first, update_same]
    · rw [later j first]
      have := placed.below j (by omega) hj
      omega
  · intro r low high
    by_cases last : r = row + 1
    · exact ⟨0, Nat.zero_le _, by rw [last, update_same]⟩
    · obtain ⟨j, positive, bound, here⟩ := placed.cover r low (by omega)
      exact ⟨j, bound, by rw [later j (by omega)]; exact here⟩

theorem Placed.frontier {row : Nat} {owner : Nat → Nat} {u v : Nat → ℚ} (placed : Placed m row owner u v)
    (previous : Nat → Nat) :
    Frontier m (row + 1) (update owner 0 (row + 1)) []
      ⟨u, v, fun _ => none, fun _ => false, previous, 0⟩ := by
  have before := placed.potentials
  have later : ∀ j, 1 ≤ j → update owner 0 (row + 1) j = owner j := fun j h => update_other owner _ (by omega)
  refine ⟨List.nodup_nil, fun _ => by simp, fun _ h => (by cases h), fun h => (by cases h), Nat.zero_le _,
    .inl ⟨rfl, rfl⟩, ⟨?_, ?_, before.nonpos, ?_⟩, fun _ _ => rfl, fun h => absurd rfl h, fun h => absurd rfl h,
    fun _ h => (by cases h)⟩
  · rintro r (⟨low, high⟩ | ⟨-, never⟩)
    · exact before.feasible r ⟨low, by omega⟩
    · exact absurd rfl never
  · intro j low high owned
    rw [later j low] at owned ⊢
    exact before.tight j low high owned
  · intro j low high unowned
    rw [later j low] at unowned
    exact before.free j low high unowned

theorem place_spec {row : Nat} {a : Assignment} (placed : Placed m row a.owner a.u a.v) (more : row + 1 ≤ m.rows) :
    Placed m (row + 1) (place m a (row + 1)).owner (place m a (row + 1)).u (place m a (row + 1)).v := by
  have owners := placed.owners more
  have first : update a.owner 0 (row + 1) 0 ≠ 0 := by
    rw [update_same]
    omega
  obtain ⟨path, nonempty, frontier, free⟩ := search_spec owners (m.columns + 1)
    (placed.frontier a.previous) first (by simp only [List.length_nil, Scores.columns]; omega)
  unfold place
  dsimp only
  generalize search m _ _ _ = s at frontier free
  have short := Frontier.length_lt owners frontier.nodup frontier.inside
  have done := augment_spec frontier (m.columns + 2) (Hole.start owners frontier free) (by
    have := List.idxOf_lt_length_of_mem (List.mem_append_right path (List.mem_singleton_self s.column))
    simp only [List.length_append, List.length_singleton, Scores.columns] at *
    omega)
  refine ⟨?_, fun j _ high => done.below j high, ?_, ?_, ?_, frontier.potentials.nonpos, ?_⟩
  · intro j k jLow jHigh kLow kHigh owned same
    exact done.injective j k jHigh kHigh (by omega) (by omega) owned same
  · intro r low high
    obtain ⟨j, bound, out, here⟩ := done.cover r low high
    exact ⟨j, by omega, bound, here⟩
  · intro r ⟨low, high⟩
    refine frontier.potentials.feasible r ?_
    rcases Nat.lt_or_eq_of_le high with less | same
    · exact .inl ⟨low, less⟩
    · exact .inr ⟨same, nonempty⟩
  · intro j low high owned
    exact done.tight j low high (by omega) owned
  · intro j low high unowned
    exact done.free j low high (by omega) unowned

theorem assign_spec (m : Scores) : Placed m m.rows (assign m).owner (assign m).u (assign m).v := by
  have run : ∀ n ≤ m.rows, ∀ a, a = (List.range' 1 n).foldl (place m) ⟨fun _ => 0, fun _ => 0, fun _ => 0, fun _ => 0⟩ →
      Placed m n a.owner a.u a.v := by
    intro n
    induction n with
    | zero =>
        rintro - a rfl
        refine ⟨fun _ _ _ _ _ _ h => absurd rfl h, fun _ _ _ => le_refl 0, fun r low high => by omega, ?_⟩
        exact ⟨fun r h => by omega, fun _ _ _ h => absurd rfl h, fun _ _ _ => le_refl _, fun _ _ _ _ => rfl⟩
    | succ n ih =>
        rintro more a rfl
        rw [List.range'_concat, List.foldl_append]
        have := place_spec (ih (by omega) _ rfl) more
        simpa [Nat.add_comm] using this
  exact run m.rows (le_refl _) _ rfl

/-! ## The result -/

/-- A one-to-one assignment of rows to columns with positive scores and the greatest total. -/
structure MaximumMatching (scores : List (List ℚ)) (pairs : List (Nat × Nat)) : Prop where
  rows : (pairs.map Prod.fst).Nodup
  columns : (pairs.map Prod.snd).Nodup
  inside : ∀ p ∈ pairs, p.1 < scores.length ∧ p.2 < (scores.headD []).length
  positive : ∀ p ∈ pairs, 0 < entry scores p.1 p.2
  greatest : ∀ other : List (Nat × Nat), (other.map Prod.fst).Nodup → (other.map Prod.snd).Nodup →
    (∀ p ∈ other, p.1 < scores.length ∧ p.2 < (scores.headD []).length) →
    (other.map fun p => entry scores p.1 p.2).sum ≤ (pairs.map fun p => entry scores p.1 p.2).sum

theorem sum_filterMap {α β : Type} (f : α → Option β) (g : β → ℚ) (l : List α) :
    ((l.filterMap f).map g).sum = (l.map fun x => (f x).elim 0 g).sum := by
  induction l with
  | nil => rfl
  | cons x l ih =>
      rw [List.filterMap_cons]
      cases h : f x with
      | none => simp [h, ih]
      | some y => simp [h, ih]

/-- The columns of a partial assignment, with a row's dummy column where it has none. -/
theorem exists_total {n real : Nat} {other : List (Nat × Nat)} (rows : (other.map Prod.fst).Nodup)
    (columns : (other.map Prod.snd).Nodup) (inside : ∀ p ∈ other, p.1 < n ∧ p.2 < real) :
    ∃ b : Fin n → Fin (real + n), Function.Injective b ∧ (∀ p ∈ other, ∀ i : Fin n, i = p.1 → b i = p.2) ∧
      ∀ i : Fin n, (i : Nat) ∉ other.map Prod.fst → real ≤ b i := by
  classical
  have same : ∀ p ∈ other, ∀ q ∈ other, p.1 = q.1 ∨ p.2 = q.2 → p = q := by
    intro p hp q hq h
    rcases h with h | h
    · exact List.inj_on_of_nodup_map rows hp hq h
    · exact List.inj_on_of_nodup_map columns hp hq h
  let b : Fin n → Fin (real + n) := fun i =>
    if h : ∃ c, (i.val, c) ∈ other then ⟨h.choose, by have := (inside _ h.choose_spec).2; dsimp at this; omega⟩
    else ⟨real + i, by omega⟩
  have some : ∀ p ∈ other, ∀ i : Fin n, i = p.1 → (b i : Nat) = p.2 := by
    intro p member i here
    have found : ∃ c, (i.val, c) ∈ other := ⟨p.2, here ▸ member⟩
    have := same _ found.choose_spec p member (.inl here)
    simp only [b, dif_pos found]
    exact congrArg Prod.snd this
  have none : ∀ i : Fin n, (i : Nat) ∉ other.map Prod.fst → (b i : Nat) = real + i := by
    intro i absent
    have missing : ¬ ∃ c, (i.val, c) ∈ other := by
      rintro ⟨c, member⟩
      exact absent (List.mem_map.mpr ⟨_, member, rfl⟩)
    simp only [b, dif_neg missing]
  refine ⟨b, ?_, some, fun i absent => by rw [none i absent]; omega⟩
  intro i k equal
  by_cases first : (i : Nat) ∈ other.map Prod.fst <;> by_cases second : (k : Nat) ∈ other.map Prod.fst
  · obtain ⟨p, hp, pi⟩ := List.mem_map.mp first
    obtain ⟨q, hq, qk⟩ := List.mem_map.mp second
    have columnEq : p.2 = q.2 := by rw [← some p hp i pi.symm, ← some q hq k qk.symm, equal]
    have := same p hp q hq (.inr columnEq)
    exact Fin.ext (by rw [← pi, ← qk, this])
  · obtain ⟨p, hp, pi⟩ := List.mem_map.mp first
    have bound := (inside p hp).2
    have := some p hp i pi.symm
    rw [equal, none k second] at this
    omega
  · obtain ⟨q, hq, qk⟩ := List.mem_map.mp second
    have bound := (inside q hq).2
    have := some q hq k qk.symm
    rw [← equal, none i first] at this
    omega
  · have left := none i first
    rw [equal, none k second] at left
    exact Fin.ext (by omega)

/-- The potentials of the placed rows bound every partial assignment. -/
theorem Placed.greatest {owner : Nat → Nat} {u v : Nat → ℚ} (placed : Placed m m.rows owner u v)
    {other : List (Nat × Nat)} (rows : (other.map Prod.fst).Nodup) (columns : (other.map Prod.snd).Nodup)
    (inside : ∀ p ∈ other, p.1 < m.rows ∧ p.2 < m.real) :
    (other.map fun p => m.weight (p.1 + 1) (p.2 + 1)).sum ≤
      ((List.range' 1 m.real).map fun c =>
        if owner c ≠ 0 ∧ 0 < m.weight (owner c) c then m.weight (owner c) c else 0).sum := by
  classical
  set gain : Nat → ℚ := fun c => if owner c ≠ 0 ∧ 0 < m.weight (owner c) c then m.weight (owner c) c else 0
    with gainIs
  have gainNonneg : ∀ c, 0 ≤ gain c := by
    intro c
    simp only [gainIs]
    split
    · rename_i h
      exact h.2.le
    · exact le_refl 0
  obtain ⟨b, bInjective, bSome, bNone⟩ := exists_total rows columns inside
  have covered : ∀ i : Fin m.rows, ∃ c : Fin m.columns, owner (c + 1) = i + 1 := by
    intro i
    obtain ⟨c, low, high, here⟩ := placed.cover (i + 1) (by omega) (by omega)
    exact ⟨⟨c - 1, by omega⟩, by rw [← here]; congr 1; simp only; omega⟩
  choose a aOwner using covered
  have aInjective : Function.Injective a := by
    intro i k same
    have := (aOwner i).symm.trans ((congrArg (fun c : Fin m.columns => owner (c + 1)) same).trans (aOwner k))
    exact Fin.ext (by omega)
  have optimal := Lib.Matching.cost_le_of_potentials (ι := Fin m.rows) (κ := Fin m.columns)
    (c := fun i c => m.cost (i + 1) (c + 1)) (u := fun i => u (i + 1)) (v := fun c => v (c + 1))
    (a := a) (b := b) ?_ ?_ aInjective bInjective ?_ ?_
  · have other_eq : (other.map fun p => m.weight (p.1 + 1) (p.2 + 1)).sum =
        ∑ i : Fin m.rows, - m.cost (i + 1) (b i + 1) := by
      set paid : Fin m.rows → ℚ := fun i => - m.cost (i + 1) (b i + 1) with paidIs
      let index : Nat → Option (Fin m.rows) := fun r => if h : r < m.rows then some ⟨r, h⟩ else none
      have asRows : other.map (fun p => m.weight (p.1 + 1) (p.2 + 1)) =
          (other.map Prod.fst).map fun r => (index r).elim 0 paid := by
        rw [List.map_map]
        refine List.map_congr_left fun p member => ?_
        obtain ⟨low, high⟩ := inside p member
        simp only [Function.comp, index, dif_pos low, Option.elim_some, paidIs, Scores.cost]
        rw [bSome p member ⟨p.1, low⟩ rfl, if_pos (by omega), neg_neg]
      rw [asRows, ← List.sum_toFinset _ rows]
      have toRange : ∑ i : Fin m.rows, paid i = ∑ r ∈ Finset.range m.rows, (index r).elim 0 paid := by
        rw [← Fin.sum_univ_eq_sum_range fun r => (index r).elim 0 paid]
        refine Finset.sum_congr rfl fun i _ => ?_
        simp [index]
      rw [toRange]
      refine Finset.sum_subset ?_ ?_
      · intro r member
        obtain ⟨p, here, rfl⟩ := List.mem_map.mp (List.mem_toFinset.mp member)
        exact Finset.mem_range.mpr (inside p here).1
      · intro r range absent
        have low := Finset.mem_range.mp range
        have := bNone ⟨r, low⟩ (fun h => absent (List.mem_toFinset.mpr h))
        simp only [index, dif_pos low, Option.elim_some, paidIs, Scores.cost]
        rw [if_neg (by omega), neg_zero]
    have real_le : ∑ i : Fin m.rows, - m.cost (i + 1) (a i + 1) ≤
        ∑ c : Fin m.columns, if (c : Nat) < m.real then gain (c + 1) else 0 := by
      have drop := Lib.Matching.sum_le_sum_injective (b := a)
        (v := fun c : Fin m.columns => - (if (c : Nat) < m.real then gain (c + 1) else 0))
        (fun c => by
          rw [neg_nonpos]
          split
          · exact gainNonneg _
          · exact le_refl 0) aInjective
      rw [Finset.sum_neg_distrib, Finset.sum_neg_distrib, neg_le_neg_iff] at drop
      refine le_trans (Finset.sum_le_sum fun i _ => ?_) drop
      simp only [Scores.cost]
      by_cases low : (a i : Nat) < m.real
      · rw [if_pos (by omega), if_pos low, neg_neg]
        simp only [gainIs, aOwner i]
        split
        · exact le_refl _
        · rename_i none
          exact not_lt.mp fun h => none ⟨by omega, h⟩
      · rw [if_neg (by omega), if_neg low, neg_zero]
    have real_eq : ∑ c : Fin m.columns, (if (c : Nat) < m.real then gain (c + 1) else 0) =
        ((List.range' 1 m.real).map gain).sum := by
      rw [Fin.sum_univ_eq_sum_range fun c => if c < m.real then gain (c + 1) else 0, ← Finset.sum_filter]
      have : (Finset.range m.columns).filter (· < m.real) = Finset.range m.real := by
        ext c
        simp only [Finset.mem_filter, Finset.mem_range, Scores.columns]
        omega
      rw [this, List.range'_eq_map_range, List.map_map, Finset.sum, Finset.range_val, Multiset.range,
        Multiset.map_coe, Multiset.sum_coe]
      refine congrArg List.sum (List.map_congr_left fun c _ => ?_)
      simp [Nat.add_comm]
    rw [other_eq]
    simp only [Finset.sum_neg_distrib] at real_le ⊢
    rw [← real_eq]
    linarith
  · intro i c
    have := placed.potentials.feasible (i + 1) ⟨by omega, by omega⟩ (c + 1) (by omega) (by omega)
    unfold slack at this
    linarith
  · intro c
    exact placed.potentials.nonpos (c + 1) (by omega) (by omega)
  · intro i
    have := placed.potentials.tight (a i + 1) (by omega) (by omega) (by rw [aOwner i]; omega)
    rw [aOwner i] at this
    unfold slack at this
    linarith
  · intro c unowned
    refine placed.potentials.free (c + 1) (by omega) (by omega) ?_
    by_contra owned
    have bound := placed.below (c + 1) (by omega) (by omega)
    have here := aOwner ⟨owner (c + 1) - 1, by omega⟩
    simp only [Nat.sub_add_cancel (Nat.one_le_iff_ne_zero.mpr owned)] at here
    have := placed.injective _ (c + 1) (by omega) (by omega) (by omega) (by omega) (by rw [here]; exact owned) here
    exact unowned ⟨owner (c + 1) - 1, by omega⟩ (Fin.ext (by omega))

theorem maximumAssignment_spec (scores : List (List ℚ)) :
    MaximumMatching scores (maximumAssignment scores) := by
  unfold maximumAssignment
  split
  · rename_i empty
    refine ⟨List.nodup_nil, List.nodup_nil, fun _ h => (by cases h), fun _ h => (by cases h), ?_⟩
    intro other _ _ inside
    cases other with
    | nil => exact le_refl _
    | cons p rest =>
        obtain ⟨low, high⟩ := inside p List.mem_cons_self
        rcases empty with rfl | none
        · exact absurd low (Nat.not_lt_zero _)
        · rw [none] at high
          exact absurd high (Nat.not_lt_zero _)
  · have placed := assign_spec (scoresOf scores)
    dsimp only
    generalize (assign (scoresOf scores)).owner = owner at placed ⊢
    generalize mIs : scoresOf scores = m at placed ⊢
    have rowsIs : m.rows = scores.length := by rw [← mIs]; rfl
    have realIs : m.real = (scores.headD []).length := by rw [← mIs]; rfl
    have weightIs : ∀ r c, m.weight r c = entry scores (r - 1) (c - 1) := by
      intro r c
      rw [← mIs]
      rfl
    set pick : Nat → Option (Nat × Nat) := fun column =>
      if owner column ≠ 0 ∧ 0 < m.weight (owner column) column then some (owner column - 1, column - 1) else none
      with pickIs
    have picked : ∀ c p, pick c = some p → (owner c ≠ 0 ∧ 0 < m.weight (owner c) c) ∧
        p = (owner c - 1, c - 1) := by
      intro c p h
      simp only [pickIs] at h
      split at h
      · rename_i both
        exact ⟨both, (Option.some.inj h).symm⟩
      · cases h
    have apart : (List.range' 1 m.real).Pairwise fun c d => ∀ p, pick c = some p → ∀ q, pick d = some q →
        p.1 ≠ q.1 ∧ p.2 ≠ q.2 := by
      refine List.Pairwise.imp_of_mem ?_ (List.nodup_range' (s := 1) (n := m.real))
      intro c d hc hd ne p hp q hq
      rw [List.mem_range'_1] at hc hd
      obtain ⟨⟨cOwned, -⟩, rfl⟩ := picked c p hp
      obtain ⟨⟨dOwned, -⟩, rfl⟩ := picked d q hq
      refine ⟨fun same => ne ?_, fun same => ne ?_⟩
      · dsimp only at same
        have columns : m.columns = m.real + m.rows := rfl
        exact placed.injective c d hc.1 (by omega) hd.1 (by omega) cOwned (by omega)
      · dsimp only at same
        omega
    refine ⟨?_, ?_, ?_, ?_, ?_⟩
    · rw [List.Nodup, List.pairwise_map, List.pairwise_filterMap]
      exact apart.imp fun h p hp q hq => (h p hp q hq).1
    · rw [List.Nodup, List.pairwise_map, List.pairwise_filterMap]
      exact apart.imp fun h p hp q hq => (h p hp q hq).2
    · intro p member
      obtain ⟨c, range, here⟩ := List.mem_filterMap.mp member
      obtain ⟨⟨owned, -⟩, rfl⟩ := picked c p here
      rw [List.mem_range'_1] at range
      have columns : m.columns = m.real + m.rows := rfl
      have := placed.below c range.1 (by omega)
      dsimp only
      omega
    · intro p member
      obtain ⟨c, range, here⟩ := List.mem_filterMap.mp member
      obtain ⟨⟨-, positive⟩, rfl⟩ := picked c p here
      rw [weightIs] at positive
      exact positive
    · intro other rows columns inside
      rw [← rowsIs, ← realIs] at inside
      have greatest := placed.greatest rows columns inside
      simp only [weightIs, Nat.add_sub_cancel] at greatest
      rw [sum_filterMap]
      refine greatest.trans_eq (congrArg List.sum (List.map_congr_left fun c _ => ?_))
      simp only [pickIs, weightIs]
      split <;> rfl

/-- A positive score with nothing positive beside it in its row and column is assigned. -/
theorem MaximumMatching.mem_of_lone {scores : List (List ℚ)} {pairs : List (Nat × Nat)}
    (matching : MaximumMatching scores pairs) {row column : Nat} (rowOk : row < scores.length)
    (columnOk : column < (scores.headD []).length) (positive : 0 < entry scores row column)
    (loneRow : ∀ c, c < (scores.headD []).length → c ≠ column → entry scores row c ≤ 0)
    (loneColumn : ∀ r, r < scores.length → r ≠ row → entry scores r column ≤ 0) : (row, column) ∈ pairs := by
  by_contra absent
  have rowFree : row ∉ pairs.map Prod.fst := by
    intro member
    obtain ⟨⟨r, c⟩, here, rfl⟩ := List.mem_map.mp member
    have ne : c ≠ column := by
      rintro rfl
      exact absent here
    exact absurd (matching.positive _ here) (not_lt.mpr (loneRow c (matching.inside _ here).2 ne))
  have columnFree : column ∉ pairs.map Prod.snd := by
    intro member
    obtain ⟨⟨r, c⟩, here, rfl⟩ := List.mem_map.mp member
    have ne : r ≠ row := by
      rintro rfl
      exact absent here
    exact absurd (matching.positive _ here) (not_lt.mpr (loneColumn r (matching.inside _ here).1 ne))
  have more := matching.greatest ((row, column) :: pairs) (List.nodup_cons.mpr ⟨rowFree, matching.rows⟩)
    (List.nodup_cons.mpr ⟨columnFree, matching.columns⟩) (by
      intro p member
      rcases List.mem_cons.mp member with rfl | old
      · exact ⟨rowOk, columnOk⟩
      · exact matching.inside p old)
  rw [List.map_cons, List.sum_cons] at more
  linarith

end OmiLocal.Speakers
