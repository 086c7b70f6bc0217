import OmiLocal.Speakers.Optimality

/-!
# The loops of the assignment end

The loops of `maximum_assignment` without a bound on their passes. A search that uses a new
column in each pass runs out of owned ones, and the way back along `previous` passes through
columns that were used ever earlier.
-/
namespace OmiLocal.Speakers

/-- `while True`, from before its first pass to its `break`. -/
inductive SearchLoop (m : Scores) (owner : Nat → Nat) : Search → Search → Prop
  | broke {s : Search} : owner (advance m owner s).column = 0 → SearchLoop m owner s (advance m owner s)
  | again {s t : Search} : owner (advance m owner s).column ≠ 0 → SearchLoop m owner (advance m owner s) t →
      SearchLoop m owner s t

/-- `while column`. -/
inductive AugmentLoop (previous : Nat → Nat) : Nat → (Nat → Nat) → (Nat → Nat) → Prop
  | done {owner : Nat → Nat} : AugmentLoop previous 0 owner owner
  | again {column : Nat} {owner final : Nat → Nat} : column ≠ 0 →
      AugmentLoop previous (previous column) (update owner column (owner (previous column))) final →
      AugmentLoop previous column owner final

/-- `for row in range(1, rows + 1)`, with the rows that are still to come. -/
inductive RowLoop (m : Scores) : List Nat → Assignment → Assignment → Prop
  | done {a : Assignment} : RowLoop m [] a a
  | again {row : Nat} {rows : List Nat} {a b : Assignment} {found : Search} {owner : Nat → Nat} :
      SearchLoop m (update a.owner 0 row) ⟨a.u, a.v, fun _ => none, fun _ => false, a.previous, 0⟩ found →
      AugmentLoop found.previous found.column (update a.owner 0 row) owner →
      RowLoop m rows ⟨found.u, found.v, owner, found.previous⟩ b → RowLoop m (row :: rows) a b

/-- The call returns these pairs, however long its loops take. -/
inductive Returns (scores : List (List ℚ)) : List (Nat × Nat) → Prop
  | empty : scores = [] ∨ scores.headD [] = [] → Returns scores []
  | matched {final : Assignment} : ¬ (scores = [] ∨ scores.headD [] = []) →
      RowLoop (scoresOf scores) (List.range' 1 (scoresOf scores).rows)
        ⟨fun _ => 0, fun _ => 0, fun _ => 0, fun _ => 0⟩ final →
      Returns scores ((List.range' 1 (scoresOf scores).real).filterMap fun column =>
        if final.owner column ≠ 0 ∧ 0 < (scoresOf scores).weight (final.owner column) column then
          some (final.owner column - 1, column - 1) else none)

variable {m : Scores} {row : Nat} {owner : Nat → Nat} {path : List Nat} {s : Search}

theorem search_ends (owners : Owners m row owner) (fuel : Nat) (frontier : Frontier m row owner path s)
    (held : owner s.column ≠ 0) (enough : row < fuel + path.length) :
    SearchLoop m owner s (search m owner fuel s) := by
  induction fuel generalizing path s with
  | zero =>
      have := Frontier.length_lt owners frontier.nodup frontier.inside
      omega
  | succ fuel ih =>
      have next := frontier_advance owners frontier held
      unfold search
      dsimp only
      split
      · rename_i free
        exact .broke free
      · rename_i taken
        exact .again taken (ih next taken (by rw [List.length_append, List.length_singleton]; omega))

theorem augment_ends (frontier : Frontier m row owner path s) (fuel : Nat) {hole : Nat} {o : Nat → Nat}
    (before : Hole m row owner path s hole o) (enough : (path ++ [s.column]).idxOf hole < fuel) :
    AugmentLoop s.previous hole o (augment s.previous fuel hole o) := by
  induction fuel generalizing hole o with
  | zero => omega
  | succ fuel ih =>
      unfold augment
      split
      · rename_i zero
        rw [zero]
        exact .done
      · rename_i positive
        have earlier := (frontier.back before.member positive).2.1
        exact .again positive (ih (before.step frontier positive) (by omega))

/-- Both loops for one more row end in the state that `place` computes. -/
theorem place_ends {a : Assignment} (placed : Placed m row a.owner a.u a.v) (more : row + 1 ≤ m.rows) :
    ∃ found : Search,
      SearchLoop m (update a.owner 0 (row + 1)) ⟨a.u, a.v, fun _ => none, fun _ => false, a.previous, 0⟩ found ∧
      AugmentLoop found.previous found.column (update a.owner 0 (row + 1)) (place m a (row + 1)).owner ∧
      place m a (row + 1) = ⟨found.u, found.v, (place m a (row + 1)).owner, found.previous⟩ := by
  have owners := placed.owners more
  have first : update a.owner 0 (row + 1) 0 ≠ 0 := by
    rw [update_same]
    omega
  have enough : row + 1 < m.columns + 1 + ([] : List Nat).length := by
    simp only [List.length_nil, Scores.columns]
    omega
  have start := placed.frontier a.previous
  have ended := search_ends owners (m.columns + 1) start first enough
  obtain ⟨path, -, frontier, free⟩ := search_spec owners (m.columns + 1) start first enough
  refine ⟨_, ended, ?_, rfl⟩
  have short := Frontier.length_lt owners frontier.nodup frontier.inside
  refine augment_ends frontier (m.columns + 2) (Hole.start owners frontier free) ?_
  have := List.idxOf_lt_length_of_mem (List.mem_append_right path (List.mem_singleton_self
    (search m (update a.owner 0 (row + 1)) (m.columns + 1)
      ⟨a.u, a.v, fun _ => none, fun _ => false, a.previous, 0⟩).column))
  simp only [List.length_append, List.length_singleton, Scores.columns] at *
  omega

theorem rows_end (count : Nat) {a : Assignment} (placed : Placed m row a.owner a.u a.v) (more : row + count ≤ m.rows) :
    RowLoop m (List.range' (row + 1) count) a ((List.range' (row + 1) count).foldl (place m) a) := by
  induction count generalizing row a with
  | zero => exact .done
  | succ count ih =>
      obtain ⟨found, searched, augmented, same⟩ := place_ends placed (by omega)
      have rest := ih (place_spec placed (by omega)) (by omega)
      rw [List.range'_succ, List.foldl_cons]
      refine .again searched augmented ?_
      rw [← same]
      exact rest

theorem placed_none (m : Scores) : Placed m 0 (fun _ => 0) (fun _ => 0) (fun _ => 0) := by
  refine ⟨fun _ _ _ _ _ _ h => absurd rfl h, fun _ _ _ => le_refl 0, fun r low high => by omega, ?_⟩
  exact ⟨fun r h => by omega, fun _ _ _ h => absurd rfl h, fun _ _ _ => le_refl _, fun _ _ _ _ => rfl⟩

theorem returns_maximumAssignment (scores : List (List ℚ)) : Returns scores (maximumAssignment scores) := by
  unfold maximumAssignment
  split
  · rename_i empty
    exact .empty empty
  · rename_i full
    refine .matched full ?_
    exact rows_end (a := ⟨fun _ => 0, fun _ => 0, fun _ => 0, fun _ => 0⟩) (scoresOf scores).rows
      (placed_none (scoresOf scores)) (by omega)

/-- The call returns, and what it returns is a one-to-one assignment with positive scores whose
total no other one-to-one assignment exceeds. -/
theorem maximum_assignment_returns_optimum (scores : List (List ℚ)) :
    Returns scores (maximumAssignment scores) ∧ MaximumMatching scores (maximumAssignment scores) :=
  ⟨returns_maximumAssignment scores, maximumAssignment_spec scores⟩

example : maximumAssignment [[9, 8], [8, 0], [0, 0]] = [(1, 0), (0, 1)] := by decide +kernel

end OmiLocal.Speakers
