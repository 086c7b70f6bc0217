import OmiLocal.Finalization.Sweeps

/-!
# What sweeps cover

A call looks at a window of the rows behind its cursor and returns what is to be
recovered of it. It says that nothing is left when the last page is not full, and it
is right unless it has its candidates before the end of that page.
-/
namespace OmiLocal.Finalization
open Lib Lib.Loop Lib.Window

variable {κ : Type} [LinearOrder κ] {C : Type} {candidate : Row → Option C} {path : Row → String} {limit maxScan : Nat}
  {c : Collection κ}

/-! ## One page -/

/-- The part of a page that is looked at. -/
def pageWindow (candidate : Row → Option C) (limit maxScan : Nat) (s : Scan C) (page : List Row) : List Row :=
  front candidate (limit - s.collected.length) (maxScan - s.scanned) page

structure Examined (candidate : Row → Option C) (path : Row → String) (limit maxScan : Nat) (page : List Row)
    (s t : Scan C) : Prop where
  collected : t.collected = s.collected ++ candidates candidate (pageWindow candidate limit maxScan s page)
  examined : t.examined = s.examined ++ pageWindow candidate limit maxScan s page
  lastPath : t.lastPath = (((pageWindow candidate limit maxScan s page).getLast?).map path).or s.lastPath
  exhausted : t.exhausted = s.exhausted
  scanned : (maxScan < t.scanned ∧ t.collected.length < limit ∧
      (pageWindow candidate limit maxScan s page).length = maxScan - s.scanned) ∨
    (t.scanned = s.scanned + (pageWindow candidate limit maxScan s page).length ∧ t.scanned ≤ maxScan ∧
      (pageWindow candidate limit maxScan s page = page ∨ limit ≤ t.collected.length))

/-- A row that was looked at, and what the rest of the page makes of the state after it. -/
theorem Examined.cons {row : Row} {rest : List Row} {s next t : Scan C}
    (h : Examined candidate path limit maxScan rest next t) (within : s.scanned < maxScan)
    (window : pageWindow candidate limit maxScan s (row :: rest) = row :: pageWindow candidate limit maxScan next rest)
    (collected : next.collected = s.collected ++ candidates candidate [row]) (scanned : next.scanned = s.scanned + 1)
    (lastPath : next.lastPath = some (path row)) (examined : next.examined = s.examined ++ [row])
    (exhausted : next.exhausted = s.exhausted) : Examined candidate path limit maxScan (row :: rest) s t := by
  constructor
  · rw [h.collected, collected, window, List.append_assoc, ← candidates_append, List.singleton_append]
  · rw [h.examined, examined, window, List.append_assoc, List.singleton_append]
  · rw [h.lastPath, lastPath, window, List.getLast?_cons]
    cases (pageWindow candidate limit maxScan next rest).getLast? <;> rfl
  · rw [h.exhausted, exhausted]
  · rw [window, List.length_cons]
    rcases h.scanned with ⟨far, few, full⟩ | ⟨count, near, stop⟩
    · exact .inl ⟨far, few, by omega⟩
    · exact .inr ⟨by omega, near, stop.imp (congrArg (row :: ·)) id⟩

theorem examinePage_spec (candidate : Row → Option C) (path : Row → String) {s : Scan C} (going : s.collected.length < limit) (within : s.scanned ≤ maxScan) (page : List Row) :
    Examined candidate path limit maxScan page s (examinePage candidate path limit maxScan page s) := by
  induction page generalizing s with
  | nil =>
      have nothing : pageWindow candidate limit maxScan s [] = [] := front_nil
      exact ⟨by rw [nothing, candidates_nil, List.append_nil]; rfl, by rw [nothing, List.append_nil]; rfl,
        by rw [nothing]; rfl, rfl, .inr ⟨by rw [nothing]; rfl, within, .inl nothing⟩⟩
  | cons row rest ih =>
      obtain ⟨room, limited⟩ : ∃ room, limit - s.collected.length = room + 1 := ⟨limit - s.collected.length - 1, by omega⟩
      rcases Nat.eq_or_lt_of_le within with last | more
      · have nothing : pageWindow candidate limit maxScan s (row :: rest) = [] := by
          unfold pageWindow
          rw [last, Nat.sub_self, front_zero_right]
        have stops : examinePage candidate path limit maxScan (row :: rest) s = { s with scanned := s.scanned + 1 } :=
          if_pos (last ▸ Nat.lt_succ_self _)
        rw [stops]
        exact ⟨by rw [nothing, candidates_nil, List.append_nil], by rw [nothing, List.append_nil], by rw [nothing]; rfl, rfl,
          .inl ⟨by dsimp only; omega, going, by rw [nothing, last, Nat.sub_self]; rfl⟩⟩
      · have window : pageWindow candidate limit maxScan s (row :: rest) = row :: front candidate
            (if (candidate row).isSome then room else room + 1) (maxScan - (s.scanned + 1)) rest := by
          unfold pageWindow
          rw [limited, show maxScan - s.scanned = maxScan - (s.scanned + 1) + 1 by omega, front_cons]
        have turn : ¬maxScan < s.scanned + 1 := by omega
        unfold examinePage
        dsimp only
        rw [if_neg turn]
        cases verdict : candidate row with
        | none =>
            have seen : candidates candidate [row] = [] := List.filterMap_cons_none verdict
            have tail := ih (s := ⟨s.collected, s.scanned + 1, some (path row), s.exhausted, s.cursorSnapshot,
              s.examined ++ [row]⟩) going more
            refine tail.cons more ?_ ?_ rfl rfl rfl rfl
            · rw [window, verdict, if_neg (by simp), ← limited]
              rfl
            · rw [seen, List.append_nil]
        | some found =>
            have seen : candidates candidate [row] = [found] := List.filterMap_cons_some verdict
            have longer : (s.collected ++ [found]).length = s.collected.length + 1 := List.length_append
            rw [verdict, Option.isSome_some, if_pos rfl] at window
            dsimp only
            split
            · rename_i full
              have room_zero : room = 0 := by omega
              rw [room_zero, front_zero_left] at window
              exact ⟨by rw [window, seen], by rw [window], by rw [window]; rfl, rfl,
                .inr ⟨by rw [window]; rfl, by dsimp only; omega, .inr full⟩⟩
            · rename_i below
              have tail := ih (s := ⟨s.collected ++ [found], s.scanned + 1, some (path row), s.exhausted, s.cursorSnapshot,
                s.examined ++ [row]⟩) (Nat.lt_of_not_le below) more
              refine tail.cons more ?_ ?_ rfl rfl rfl rfl
              · rw [window, pageWindow, longer, show limit - (s.collected.length + 1) = room by omega]
              · rw [seen]

/-! ## The loop over the pages -/

/-- The `limit`-th candidate comes before the end of a last page that is not full. -/
def CutShort (candidate : Row → Option C) (limit maxScan : Nat) (rows : List Row) : Prop :=
  ∃ before row after, rows = before ++ row :: after ∧ after ≠ [] ∧ before.length < maxScan ∧ (candidate row).isSome ∧
    (candidates candidate before).length + 1 = limit ∧
    rows.length < (before.length / pageSize limit + 1) * pageSize limit

theorem cutShort_iff {rows : List Row} (some_ : 1 ≤ limit) : CutShort candidate limit maxScan rows ↔
    front candidate limit maxScan rows ≠ rows ∧
      (candidates candidate (front candidate limit maxScan rows)).length = limit ∧
      rows.length < (((front candidate limit maxScan rows).length - 1) / pageSize limit + 1) * pageSize limit := by
  constructor
  · rintro ⟨before, row, after, rfl, left, soon, accepted, count, page⟩
    rw [front_reaches accepted count soon]
    have size : (before ++ [row]).length - 1 = before.length := by simp
    refine ⟨fun whole => left ?_, ?_, size ▸ page⟩
    · exact (List.cons.inj (List.append_cancel_left whole)).2.symm
    · rw [candidates_append, List.length_append, length_candidates_cons, if_pos accepted]
      exact count
  · rintro ⟨cut, reached, page⟩
    obtain ⟨before, row, seen, accepted, count, soon⟩ := front_reached some_ reached
    obtain ⟨after, whole⟩ := (stopped candidate limit maxScan rows).isPrefix
    have size : (before ++ [row]).length - 1 = before.length := by simp
    rw [seen] at cut whole page
    refine ⟨before, row, after, ?_, ?_, soon, accepted, count, size ▸ page⟩
    · rw [← whole, List.append_assoc, List.singleton_append]
    · rintro rfl
      exact cut (whole ▸ (List.append_nil _).symm)

/-- The state before a pass: whole pages were looked at, unless there are enough candidates. -/
structure Going (candidate : Row → Option C) (path : Row → String) (limit maxScan : Nat) (c : Collection κ)
    (rows : List Row) (s : Scan C) : Prop where
  examined : s.examined = rows.take s.scanned
  known : s.scanned ≤ rows.length
  within : s.scanned ≤ maxScan
  collected : s.collected = candidates candidate s.examined
  lastPath : s.lastPath = s.examined.getLast?.map path
  exhausted : s.exhausted = false
  window : front candidate limit maxScan rows = s.examined ++
    front candidate (limit - s.collected.length) (maxScan - s.scanned) (rows.drop s.scanned)
  few : s.collected.length ≤ limit
  behind : s.collected.length < limit → c.startAfter s.cursorSnapshot = rows.drop s.scanned ∧ pageSize limit ∣ s.scanned
  full : s.collected.length = limit → ((s.scanned - 1) / pageSize limit + 1) * pageSize limit ≤ rows.length

structure Ended (candidate : Row → Option C) (path : Row → String) (limit maxScan : Nat) (rows : List Row) (t : Scan C) :
    Prop where
  examined : t.examined = front candidate limit maxScan rows
  collected : t.collected = candidates candidate t.examined
  lastPath : t.lastPath = t.examined.getLast?.map path
  moved : t.exhausted = false → t.examined ≠ []
  cut : t.exhausted = true ∧ t.examined ≠ rows ↔ CutShort candidate limit maxScan rows

section Pass

variable {rows : List Row} {s t : Scan C}

theorem pageSize_pos (limit : Nat) : 0 < pageSize limit := Nat.lt_of_lt_of_le Nat.one_pos (Nat.le_max_left _ _)

theorem Going.length (g : Going candidate path limit maxScan c rows s) : s.examined.length = s.scanned := by
  rw [g.examined, List.length_take, Nat.min_eq_left g.known]

/-- What a page does to the state before it. -/
theorem Going.afterPage {page : List Row} (g : Going candidate path limit maxScan c rows s)
    (e : Examined candidate path limit maxScan page s t) :
    t.collected = candidates candidate t.examined ∧ t.lastPath = t.examined.getLast?.map path := by
  constructor
  · rw [e.collected, e.examined, g.collected, candidates_append]
  · rw [e.lastPath, e.examined, g.lastPath, List.getLast?_append]
    cases (pageWindow candidate limit maxScan s page).getLast? <;> rfl

/-- How far the window goes when a page is looked at. -/
theorem Going.afterWindow {page : List Row} (g : Going candidate path limit maxScan c rows s) (more : List Row)
    (ahead : rows.drop s.scanned = page ++ more) (e : Examined candidate path limit maxScan page s t) :
    (pageWindow candidate limit maxScan s page ≠ page ∧ front candidate limit maxScan rows = t.examined) ∨
    (pageWindow candidate limit maxScan s page = page ∧ front candidate limit maxScan rows = t.examined ++
      front candidate (limit - t.collected.length) (maxScan - (s.scanned + page.length)) more) := by
  by_cases whole : pageWindow candidate limit maxScan s page = page
  · refine .inr ⟨whole, ?_⟩
    rw [g.window, ahead, front_append_whole whole, e.examined, whole, e.collected, whole, List.length_append,
      List.append_assoc, Nat.sub_sub, Nat.sub_sub]
  · refine .inl ⟨whole, ?_⟩
    rw [g.window, ahead, front_append_cut whole, e.examined]
    rfl

theorem page_end {size first k : Nat} (aligned : size ∣ first) (some_ : 0 < k) (inside : k ≤ size) :
    ((first + k - 1) / size + 1) * size = first + size := by
  obtain ⟨q, rfl⟩ := aligned
  have place : (size * q + (k - 1)) / size = q := by
    rw [Nat.mul_add_div (by omega), Nat.div_eq_of_lt (by omega), Nat.add_zero]
  rw [Nat.add_sub_assoc some_, place, Nat.add_mul, Nat.one_mul, Nat.mul_comm]

/-- A page that brings the last candidate is not empty. -/
theorem Examined.window_pos {page : List Row} (e : Examined candidate path limit maxScan page s t)
    (before : s.collected.length < limit) (after : limit ≤ t.collected.length) :
    0 < (pageWindow candidate limit maxScan s page).length := by
  rw [List.length_pos_iff]
  intro nothing
  rw [e.collected, nothing, candidates_nil, List.append_nil] at after
  omega

theorem Going.leave (g : Going candidate path limit maxScan c rows s) (some_ : 1 ≤ limit) (scans : 1 ≤ maxScan)
    (stop : ¬(s.collected.length < limit ∧ s.scanned < maxScan)) : Ended candidate path limit maxScan rows s := by
  have seen : front candidate limit maxScan rows = s.examined := by
    rw [g.window]
    by_cases room : s.collected.length < limit
    · rw [show maxScan - s.scanned = 0 by omega, front_zero_right, List.append_nil]
    · rw [show limit - s.collected.length = 0 by omega, front_zero_left, List.append_nil]
  refine ⟨seen.symm, g.collected, g.lastPath, fun _ nothing => ?_, ?_⟩
  · have size := g.length
    have none := g.collected
    rw [nothing] at size none
    rw [none, candidates_nil, ← size] at stop
    exact stop ⟨some_, scans⟩
  · rw [g.exhausted, cutShort_iff some_]
    constructor
    · rintro ⟨open_, -⟩
      cases open_
    · rintro ⟨-, reached, page⟩
      rw [seen, ← g.collected] at reached
      rw [seen, g.length] at page
      exact absurd (g.full reached) (Nat.not_le_of_lt page)

theorem Going.leaveEmpty (g : Going candidate path limit maxScan c rows s) (some_ : 1 ≤ limit)
    (nothing : rows.drop s.scanned = []) : Ended candidate path limit maxScan rows { s with exhausted := true } := by
  have all : s.examined = rows := by
    rw [g.examined, List.take_of_length_le (List.drop_eq_nil_iff.mp nothing)]
  have seen : front candidate limit maxScan rows = s.examined := by
    rw [g.window, nothing, front_nil, List.append_nil]
  refine ⟨seen.symm, g.collected, g.lastPath, fun open_ => absurd open_.symm Bool.false_ne_true, ?_⟩
  rw [cutShort_iff some_, seen]
  exact ⟨fun h => absurd all h.2, fun h => absurd all h.1⟩

theorem Going.leaveFar {page more : List Row} (g : Going candidate path limit maxScan c rows s) (some_ : 1 ≤ limit)
    (scans : 1 ≤ maxScan) (ahead : rows.drop s.scanned = page ++ more)
    (e : Examined candidate path limit maxScan page s t) (far : maxScan < t.scanned) :
    Ended candidate path limit maxScan rows t := by
  obtain ⟨-, room, full⟩ := e.scanned.resolve_right fun near => absurd near.2.1 (Nat.not_le_of_lt far)
  have seen : front candidate limit maxScan rows = t.examined := by
    rcases g.afterWindow more ahead e with ⟨-, seen⟩ | ⟨whole, seen⟩
    · exact seen
    · rw [whole] at full
      rw [seen, show maxScan - (s.scanned + page.length) = 0 by omega, front_zero_right, List.append_nil]
  obtain ⟨collected, lastPath⟩ := g.afterPage e
  refine ⟨seen.symm, collected, lastPath, fun _ nothing => ?_, ?_⟩
  · have size := congrArg List.length e.examined
    rw [nothing, List.length_append, g.length, full, List.length_nil] at size
    have within := g.within
    omega
  · rw [e.exhausted, g.exhausted, cutShort_iff some_]
    constructor
    · rintro ⟨open_, -⟩
      cases open_
    · rintro ⟨-, reached, -⟩
      rw [seen, ← collected] at reached
      exact absurd reached (Nat.ne_of_lt room)

theorem Going.leavePartial {page : List Row} (g : Going candidate path limit maxScan c rows s) (some_ : 1 ≤ limit)
    (room : s.collected.length < limit) (ahead : rows.drop s.scanned = page)
    (e : Examined candidate path limit maxScan page s t) (near : ¬maxScan < t.scanned) (small : page.length < pageSize limit) :
    Ended candidate path limit maxScan rows { t with exhausted := true } := by
  obtain ⟨-, -, stop⟩ := e.scanned.resolve_left fun far => near far.1
  have whole : rows = s.examined ++ page := by rw [g.examined, ← ahead, List.take_append_drop]
  have seen : front candidate limit maxScan rows = t.examined := by
    rcases g.afterWindow [] (by rw [ahead, List.append_nil]) e with ⟨-, seen⟩ | ⟨-, seen⟩
    · exact seen
    · rw [seen, front_nil, List.append_nil]
  obtain ⟨collected, lastPath⟩ := g.afterPage e
  refine ⟨seen.symm, collected, lastPath, fun open_ => absurd open_.symm Bool.false_ne_true, ?_⟩
  rw [cutShort_iff some_, seen]
  constructor
  · rintro ⟨-, cut⟩
    have enough : limit ≤ t.collected.length := stop.resolve_left fun same => cut (by rw [e.examined, same, ← whole])
    have few := (stopped candidate limit maxScan rows).few
    rw [seen, ← collected] at few
    refine ⟨cut, collected ▸ Nat.le_antisymm few enough, ?_⟩
    have inside := ((stopped candidate (limit - s.collected.length) (maxScan - s.scanned) page).isPrefix).length_le
    rw [e.examined, List.length_append, g.length, page_end (g.behind room).2 (e.window_pos room enough)
      (inside.trans small.le), whole, List.length_append, g.length]
    omega
  · rintro ⟨cut, -, -⟩
    exact ⟨rfl, cut⟩

theorem Going.again {page more : List Row} (g : Going candidate path limit maxScan c rows s)
    (room : s.collected.length < limit) (ahead : rows.drop s.scanned = page ++ more)
    (paged : (c.startAfter s.cursorSnapshot).take (pageSize limit) = page)
    (e : Examined candidate path limit maxScan page s t) (near : ¬maxScan < t.scanned) (size : page.length = pageSize limit) :
    Going candidate path limit maxScan c rows { t with cursorSnapshot := page.getLast? } ∧ s.scanned < t.scanned := by
  obtain ⟨count, within, stop⟩ := e.scanned.resolve_left fun far => near far.1
  obtain ⟨collected, lastPath⟩ := g.afterPage e
  obtain ⟨behind, aligned⟩ := g.behind room
  have first : pageWindow candidate limit maxScan s page <+: page := (stopped _ _ _ page).isPrefix
  have rowsLength : rows.length = s.scanned + (page.length + more.length) := by
    rw [← List.length_append, ← ahead, List.length_drop, Nat.add_sub_cancel' g.known]
  have advanced : 0 < (pageWindow candidate limit maxScan s page).length := by
    rcases stop with whole | enough
    · rw [whole, size]
      exact pageSize_pos limit
    · exact e.window_pos room enough
  have ended := page_end aligned advanced (size ▸ first.length_le)
  refine ⟨⟨?_, ?_, within, collected, lastPath, e.exhausted.trans g.exhausted, ?_, ?_, fun below => ?_, fun reached => ?_⟩, ?_⟩
  · have seen : (page ++ more).take (pageWindow candidate limit maxScan s page).length =
        pageWindow candidate limit maxScan s page :=
      (List.prefix_iff_eq_take.mp (first.trans (List.prefix_append page more))).symm
    show t.examined = rows.take t.scanned
    rw [count, List.take_add, ahead, seen, e.examined, g.examined]
  · have inside := first.length_le
    show t.scanned ≤ rows.length
    omega
  · show front candidate limit maxScan rows = t.examined ++
      front candidate (limit - t.collected.length) (maxScan - t.scanned) (rows.drop t.scanned)
    rcases g.afterWindow more ahead e with ⟨cut, seen⟩ | ⟨whole, seen⟩
    · rw [seen, Nat.sub_eq_zero_of_le (stop.resolve_left cut), front_zero_left, List.append_nil]
    · have rest : rows.drop t.scanned = more := by
        rw [count, whole, ← List.drop_drop, ahead, List.drop_left]
      rw [seen, rest, count, whole]
  · have few := (stopped candidate limit maxScan rows).few
    rcases g.afterWindow more ahead e with ⟨-, seen⟩ | ⟨-, seen⟩ <;> rw [seen] at few
    · exact collected ▸ few
    · rw [candidates_append, List.length_append, ← collected] at few
      exact Nat.le_of_add_right_le few
  · have whole := stop.resolve_right (Nat.not_le_of_lt below)
    obtain ⟨x, last⟩ : ∃ x, page.getLast? = some x :=
      ⟨_, List.getLast?_eq_some_getLast (List.ne_nil_of_length_pos (size ▸ pageSize_pos limit))⟩
    constructor
    · show c.startAfter page.getLast? = rows.drop t.scanned
      rw [last, count, whole, size, ← List.drop_drop, ← behind]
      exact Keyset.behind_page c.ordered (paged ▸ last)
    · show pageSize limit ∣ t.scanned
      rw [count, whole, size]
      exact (Nat.dvd_add_right aligned).mpr dvd_rfl
  · show ((t.scanned - 1) / pageSize limit + 1) * pageSize limit ≤ rows.length
    rw [count, ended]
    omega
  · omega

/-- A pass ends the scan or moves it on. -/
theorem passPage_spec (some_ : 1 ≤ limit) (scans : 1 ≤ maxScan) (g : Going candidate path limit maxScan c rows s) :
    (∃ t, passPage candidate path limit maxScan c s = some (.leave t) ∧ Ended candidate path limit maxScan rows t) ∨
    ∃ t, passPage candidate path limit maxScan c s = some (.again t) ∧ Going candidate path limit maxScan c rows t ∧
      maxScan - t.scanned < maxScan - s.scanned := by
  unfold passPage
  by_cases going : s.collected.length < limit ∧ s.scanned < maxScan
  · rw [if_pos going]
    dsimp only
    generalize paged : (c.startAfter s.cursorSnapshot).take (pageSize limit) = page
    have cut : (rows.drop s.scanned).take (pageSize limit) = page := (g.behind going.1).1 ▸ paged
    have ahead : rows.drop s.scanned = page ++ (rows.drop s.scanned).drop (pageSize limit) := by
      rw [← cut, List.take_append_drop]
    have e := examinePage_spec candidate path going.1 g.within page
    by_cases empty : page = []
    · rw [empty, List.isEmpty_nil, if_pos rfl]
      refine .inl ⟨_, rfl, g.leaveEmpty some_ ?_⟩
      exact (List.take_eq_nil_iff.mp (cut.trans empty)).resolve_left (pageSize_pos limit).ne'
    · rw [if_neg (by rwa [List.isEmpty_iff])]
      by_cases far : maxScan < (examinePage candidate path limit maxScan page s).scanned
      · rw [if_pos far]
        exact .inl ⟨_, rfl, g.leaveFar some_ scans ahead e far⟩
      · rw [if_neg far]
        by_cases small : page.length < pageSize limit
        · rw [if_pos small]
          refine .inl ⟨_, rfl, g.leavePartial some_ going.1 ?_ e far small⟩
          rw [← cut, List.length_take] at small
          rw [← cut, List.take_of_length_le (by omega)]
        · rw [if_neg small]
          have full : page.length = pageSize limit :=
            Nat.le_antisymm (cut ▸ List.length_take_le _ _) (Nat.le_of_not_lt small)
          obtain ⟨later, moved⟩ := g.again going.1 ahead paged e far full
          exact .inr ⟨_, rfl, later, by dsimp only; omega⟩
  · rw [if_neg going]
    exact .inl ⟨_, rfl, g.leave some_ scans going⟩

theorem start_going (some_ : 1 ≤ limit) (resumeAfterPath : Option String) :
    Going candidate path limit maxScan c (c.rowsAfter resumeAfterPath) (startScan c resumeAfterPath) :=
  ⟨rfl, Nat.zero_le _, Nat.zero_le _, rfl, rfl, rfl, rfl, Nat.zero_le _, fun _ => ⟨rfl, Nat.dvd_zero _⟩,
    fun none => absurd none (Nat.ne_of_lt some_)⟩

theorem sweepRows_ended (candidate : Row → Option C) (path : Row → String) (c : Collection κ) (some_ : 1 ≤ limit) (scans : 1 ≤ maxScan) (resumeAfterPath : Option String) :
    ∃ t, sweepRows candidate path limit maxScan c resumeAfterPath =
        some ⟨t.collected, if t.exhausted then none else t.lastPath, t.exhausted, t.examined⟩ ∧
      Ended candidate path limit maxScan (c.rowsAfter resumeAfterPath) t := by
  obtain ⟨t, done, ended⟩ := run_of_measure (Going candidate path limit maxScan c (c.rowsAfter resumeAfterPath))
    (fun s => maxScan - s.scanned) (fun s g => passPage_spec some_ scans g) (start_going some_ resumeAfterPath)
    (show maxScan - 0 < maxScan + 1 by omega)
  refine ⟨t, ?_, ended⟩
  unfold sweepRows
  rw [done, Option.map_some]

end Pass

/-! ## Calls -/

/-- What a call should say about the rows behind its cursor. -/
structure CallCorrect (candidate : Row → Option C) (path : Row → String) (rows : List Row) (r : SweepResult C) : Prop where
  run : r.examined <+: rows
  candidates : r.candidates = Window.candidates candidate r.examined
  complete : r.exhausted = true → r.examined = rows
  resume : r.exhausted = false → ∃ row, r.examined.getLast? = some row ∧ r.resumeAfterPath = some (path row)

/-- What a call says, and when it is wrong. -/
structure CallSpec (candidate : Row → Option C) (path : Row → String) (limit maxScan : Nat) (rows : List Row)
    (r : SweepResult C) : Prop where
  run : r.examined <+: rows
  candidates : r.candidates = Window.candidates candidate r.examined
  cut : r.exhausted = true ∧ r.examined ≠ rows ↔ CutShort candidate limit maxScan rows
  resume : r.exhausted = false → ∃ row, r.examined.getLast? = some row ∧ r.resumeAfterPath = some (path row)

theorem CallSpec.correct_iff {rows : List Row} {r : SweepResult C} (h : CallSpec candidate path limit maxScan rows r) :
    CallCorrect candidate path rows r ↔ ¬CutShort candidate limit maxScan rows := by
  rw [← h.cut]
  constructor
  · rintro correct ⟨finished, missed⟩
    exact missed (correct.complete finished)
  · intro fine
    exact ⟨h.run, h.candidates, fun finished => of_not_not fun missed => fine ⟨finished, missed⟩, h.resume⟩

theorem sweepRows_spec (some_ : 1 ≤ limit) (scans : 1 ≤ maxScan) (resumeAfterPath : Option String) :
    ∃ r, sweepRows candidate path limit maxScan c resumeAfterPath = some r ∧
      CallSpec candidate path limit maxScan (c.rowsAfter resumeAfterPath) r := by
  obtain ⟨t, done, ended⟩ := sweepRows_ended candidate path c some_ scans resumeAfterPath
  refine ⟨_, done, ended.examined ▸ (stopped _ _ _ _).isPrefix, ended.collected, ended.cut, fun open_ => ?_⟩
  obtain ⟨row, last⟩ : ∃ row, t.examined.getLast? = some row :=
    ⟨_, List.getLast?_eq_some_getLast (ended.moved open_)⟩
  refine ⟨row, last, ?_⟩
  change (if t.exhausted then none else t.lastPath) = some (path row)
  rw [if_neg (by rw [show t.exhausted = false from open_]; exact Bool.false_ne_true), ended.lastPath, last, Option.map_some]

/-! ## Repeated calls -/

structure SweepCall (C : Type) where
  now : Instant
  resumeAfterPath : Option String
  result : SweepResult C

/-- Calls that each go on where the one before stopped, until one says that nothing is left. -/
inductive Sweep (f : Instant → Option String → Option (SweepResult C)) : Option String → List (SweepCall C) → Prop where
  | last {now cursor r} (done : f now cursor = some r) (finished : r.exhausted = true) : Sweep f cursor [⟨now, cursor, r⟩]
  | next {now cursor r calls} (done : f now cursor = some r) (more : r.exhausted = false)
      (later : Sweep f r.resumeAfterPath calls) : Sweep f cursor (⟨now, cursor, r⟩ :: calls)

/-- Every call is right, and together they look at every row exactly once. -/
structure CoversOnce (c : Collection κ) (candidate : Instant → Row → Option C) (path : Row → String) (cursor : Option String)
    (calls : List (SweepCall C)) : Prop where
  correct : ∀ call ∈ calls, CallCorrect (candidate call.now) path (c.rowsAfter call.resumeAfterPath) call.result
  covers : calls.flatMap (·.result.examined) = c.rowsAfter cursor
  once : (calls.flatMap (·.result.examined)).Nodup

theorem Collection.mem_rows {row : Row} {cursor : Option String} (inside : row ∈ c.rowsAfter cursor) : row ∈ c.rows :=
  (Keyset.mem_behind.mp inside).1

/-- The next call starts right behind the last row of this one. -/
theorem Collection.rowsAfter_last {front back : List Row} {row : Row} {cursor : Option String}
    (split_ : c.rowsAfter cursor = front ++ row :: back) : c.rowsAfter (some row.path) = back := by
  have behind : row ∈ c.rowsAfter cursor := by
    rw [split_]
    exact List.mem_append_right _ List.mem_cons_self
  have resolved : c.cursorSnapshot (some row.path) = some row := by
    obtain ⟨named, kept⟩ := c.kept row (Collection.mem_rows behind)
    exact (if_neg named).trans kept
  unfold Collection.rowsAfter Collection.startAfter
  rw [resolved]
  exact Keyset.behind_next c.ordered split_

theorem Collection.nodup_rowsAfter (c : Collection κ) (cursor : Option String) : (c.rowsAfter cursor).Nodup :=
  (Keyset.behind_sorted c.ordered _).imp fun less same => absurd (congrArg c.place same) less.ne

section Repeated

variable {eligible : Instant → Row → Option C} {f : Instant → Option String → Option (SweepResult C)}

/-- One of the sweeps, with what it looks for at an instant. -/
structure IsSweep (c : Collection κ) (limit maxScan : Nat) (eligible : Instant → Row → Option C) (path : Row → String)
    (f : Instant → Option String → Option (SweepResult C)) : Prop where
  limit_pos : 1 ≤ limit
  maxScan_pos : 1 ≤ maxScan
  code : ∀ now cursor, f now cursor = sweepRows (eligible now) path limit maxScan c cursor
  named : ∀ row ∈ c.rows, path row = row.path

theorem IsSweep.returns (h : IsSweep c limit maxScan eligible path f) (now : Instant) (cursor : Option String) :
    ∃ r, f now cursor = some r ∧ CallSpec (eligible now) path limit maxScan (c.rowsAfter cursor) r :=
  h.code now cursor ▸ sweepRows_spec h.limit_pos h.maxScan_pos cursor

theorem IsSweep.spec (h : IsSweep c limit maxScan eligible path f) {now : Instant} {cursor : Option String}
    {r : SweepResult C} (done : f now cursor = some r) :
    CallSpec (eligible now) path limit maxScan (c.rowsAfter cursor) r := by
  obtain ⟨r', done', spec⟩ := h.returns now cursor
  cases done.symm.trans done'
  exact spec

/-- What a call leaves is what the next one starts with. -/
theorem IsSweep.continues (h : IsSweep c limit maxScan eligible path f) {now : Instant} {cursor : Option String}
    {r : SweepResult C} (done : f now cursor = some r) (more : r.exhausted = false) :
    c.rowsAfter cursor = r.examined ++ c.rowsAfter r.resumeAfterPath ∧ r.examined ≠ [] := by
  obtain ⟨row, last, resume⟩ := (h.spec done).resume more
  obtain ⟨back, whole⟩ := (h.spec done).run
  obtain ⟨before, seen⟩ := List.getLast?_eq_some_iff.mp last
  have split_ : c.rowsAfter cursor = before ++ row :: back := by
    rw [← whole, seen, List.append_assoc, List.singleton_append]
  have inside : row ∈ c.rows := Collection.mem_rows ((h.spec done).run.subset (List.mem_of_getLast? last))
  rw [resume, h.named row inside, Collection.rowsAfter_last split_]
  exact ⟨whole.symm, seen ▸ List.append_ne_nil_of_right_ne_nil _ (List.cons_ne_nil _ _)⟩

/-- Calls look at a front of the rows, which is all of them where no call is cut short. -/
theorem IsSweep.covers_iff (h : IsSweep c limit maxScan eligible path f) {cursor : Option String} {calls : List (SweepCall C)}
    (sweep : Sweep f cursor calls) : calls.flatMap (·.result.examined) = c.rowsAfter cursor ↔
      ∀ call ∈ calls, ¬CutShort (eligible call.now) limit maxScan (c.rowsAfter call.resumeAfterPath) := by
  induction sweep with
  | last done finished =>
      have cut := (h.spec done).cut
      rw [List.flatMap_singleton, List.forall_mem_singleton, ← cut, finished]
      simp
  | next done more later ih =>
      obtain ⟨whole, -⟩ := h.continues done more
      have uncut := (not_congr (h.spec done).cut).mp fun early => absurd early.1 (more ▸ Bool.false_ne_true)
      rw [List.flatMap_cons, List.forall_mem_cons, ← ih]
      nth_rewrite 1 [whole]
      rw [List.append_right_inj]
      exact ⟨fun rest => ⟨uncut, rest⟩, And.right⟩

theorem IsSweep.sweep_iff (h : IsSweep c limit maxScan eligible path f) {cursor : Option String} {calls : List (SweepCall C)}
    (sweep : Sweep f cursor calls) : CoversOnce c eligible path cursor calls ↔
      ∀ call ∈ calls, ¬CutShort (eligible call.now) limit maxScan (c.rowsAfter call.resumeAfterPath) := by
  constructor
  · exact fun covered => (h.covers_iff sweep).mp covered.covers
  · intro uncut
    have covers := (h.covers_iff sweep).mpr uncut
    refine ⟨fun call member => ?_, covers, covers ▸ c.nodup_rowsAfter cursor⟩
    have made : f call.now call.resumeAfterPath = some call.result := by
      clear covers uncut
      induction sweep with
      | last done finished =>
          rw [List.mem_singleton.mp member]
          exact done
      | next done more later ih =>
          rcases List.mem_cons.mp member with rfl | rest
          · exact done
          · exact ih rest
    exact (h.spec made).correct_iff.mpr (uncut call member)

/-- Repeated calls come to an end, whenever they are made. -/
theorem IsSweep.ends (h : IsSweep c limit maxScan eligible path f) (clock : Nat → Instant) (cursor : Option String) :
    ∃ calls, Sweep f cursor calls ∧ ∀ k call, calls[k]? = some call → call.now = clock k := by
  generalize size : (c.rowsAfter cursor).length = n
  induction n using Nat.strong_induction_on generalizing clock cursor with
  | h n ih =>
      obtain ⟨r, done, -⟩ := h.returns (clock 0) cursor
      cases finished : r.exhausted with
      | true =>
          refine ⟨_, .last done finished, fun k call at_ => ?_⟩
          cases k with
          | zero =>
              cases at_
              rfl
          | succ k => cases at_
      | false =>
          obtain ⟨whole, some_⟩ := h.continues done finished
          have less : (c.rowsAfter r.resumeAfterPath).length < n := by
            rw [← size, whole, List.length_append]
            have := List.length_pos_iff.mpr some_
            omega
          obtain ⟨calls, later, clocked⟩ := ih _ less (fun k => clock (k + 1)) r.resumeAfterPath rfl
          refine ⟨_, .next done finished later, fun k call at_ => ?_⟩
          cases k with
          | zero =>
              cases at_
              rfl
          | succ k => exact clocked k call at_

end Repeated

/-- When a sweep skips no row. -/
structure SkipsNoRow (c : Collection κ) (limit maxScan : Nat) (eligible : Instant → Row → Option C) (path : Row → String)
    (f : Instant → Option String → Option (SweepResult C)) : Prop where
  returns : ∀ now cursor, ∃ r, f now cursor = some r
  call : ∀ now cursor r, f now cursor = some r → (CallCorrect (eligible now) path (c.rowsAfter cursor) r ↔
    ¬CutShort (eligible now) limit maxScan (c.rowsAfter cursor))
  ends : ∀ (clock : Nat → Instant) cursor, ∃ calls, Sweep f cursor calls ∧
    ∀ k call, calls[k]? = some call → call.now = clock k
  sweep : ∀ cursor calls, Sweep f cursor calls → (CoversOnce c eligible path cursor calls ↔
    ∀ call ∈ calls, ¬CutShort (eligible call.now) limit maxScan (c.rowsAfter call.resumeAfterPath))

theorem IsSweep.skipsNoRow {eligible : Instant → Row → Option C} {f : Instant → Option String → Option (SweepResult C)}
    (h : IsSweep c limit maxScan eligible path f) : SkipsNoRow c limit maxScan eligible path f where
  returns := fun now cursor => (h.returns now cursor).imp fun _ => And.left
  call := fun _ _ _ done => (h.spec done).correct_iff
  ends := h.ends
  sweep := fun _ _ => h.sweep_iff

theorem byokPath_named {row : Row} (named : row.path ≠ "") : byokPath row = row.path := if_neg named

/-- The sweeps skip no row exactly where no call has its candidates before the end of a last page that is not full. -/
theorem sweeps_skip_no_row_iff (c : Collection κ) (staleAfter abandonedAfter : Instant) (some_ : 1 ≤ limit)
    (scans : 1 ≤ maxScan) :
    SkipsNoRow c limit maxScan (fun now => orphanCandidate (now - staleAfter)) Row.path
      (getStaleProcessingOrphanCandidates c staleAfter limit maxScan) ∧
    SkipsNoRow c limit maxScan (fun _ => meetingCandidate) Row.path
      (fun _ => getMeetingReceiptBackfillCandidates c limit maxScan) ∧
    SkipsNoRow c limit maxScan (fun now => byokCandidate now (now - abandonedAfter)) byokPath
      (getAbandonedByokJobCandidates c abandonedAfter limit maxScan) :=
  ⟨IsSweep.skipsNoRow ⟨some_, scans, fun _ _ => rfl, fun _ _ => rfl⟩,
    IsSweep.skipsNoRow ⟨some_, scans, fun _ _ => rfl, fun _ _ => rfl⟩,
    IsSweep.skipsNoRow ⟨some_, scans, fun _ _ => rfl, fun row inside => byokPath_named (c.kept row inside).1⟩⟩

/-! ## One cursor for several readers -/

/-- `readers` is what was read by whoever has not advanced the cursor yet, `passes` the calls of those who have. -/
structure Recovery (C : Type) where
  document : Option SweepCursor
  readers : List (Option String × Int)
  passes : List (SweepCall C)

inductive RecoveryAction where
  | read
  | readFails
  | finish (reader : Nat) (now : Instant)

def SweepCall.nextCursor (call : SweepCall C) : Option String :=
  if call.result.exhausted then none else call.result.resumeAfterPath

/-- A reader sweeps from the cursor it has read, or from the top, and then advances the cursor. -/
def Recovery.act (f : Instant → Option String → Option (SweepResult C)) (s : Recovery C) :
    RecoveryAction → Option (Recovery C)
  | .read => some { s with readers := s.readers ++ [getStaleProcessingSweepCursor s.document] }
  | .readFails => some { s with readers := s.readers ++ [(none, 0)] }
  | .finish k now =>
      s.readers[k]?.bind fun reader =>
        (f now reader.1).map fun result =>
          let call : SweepCall C := ⟨now, reader.1, result⟩
          let (advanced, document) := advanceStaleProcessingSweepCursorTxn s.document reader.2 call.nextCursor now
          ⟨document, s.readers.eraseIdx k, if advanced then s.passes ++ [call] else s.passes⟩

def Recovery.start : Recovery C := ⟨none, [], []⟩

/-- Where the call after these starts. -/
def nextCursor (passes : List (SweepCall C)) : Option String := passes.getLast?.bind SweepCall.nextCursor

/-- Each call starts where the one before it stopped. -/
def Chained (passes : List (SweepCall C)) : Prop :=
  ∀ before call after, passes = before ++ call :: after → call.resumeAfterPath = nextCursor before

structure Recovery.Consistent (f : Instant → Option String → Option (SweepResult C)) (s : Recovery C) : Prop where
  document : getStaleProcessingSweepCursor s.document = (nextCursor s.passes, (s.passes.length : Int))
  readers : ∀ reader ∈ s.readers, reader.2 ≤ s.passes.length ∧
    (reader.2 = s.passes.length → reader.1 = nextCursor s.passes)
  chained : Chained s.passes
  made : ∀ call ∈ s.passes, f call.now call.resumeAfterPath = some call.result

section Recovery

variable {f : Instant → Option String → Option (SweepResult C)} {s t : Recovery C}

theorem Chained.snoc {passes : List (SweepCall C)} {call : SweepCall C} (chained : Chained passes)
    (starts : call.resumeAfterPath = nextCursor passes) : Chained (passes ++ [call]) := by
  intro before other after split_
  rcases List.eq_nil_or_concat after with rfl | ⟨rest, last, rfl⟩
  · obtain ⟨rfl, same⟩ := List.append_inj' split_ rfl
    cases same
    exact starts
  · rw [List.concat_eq_append, ← List.cons_append, ← List.append_assoc] at split_
    exact chained before other rest (List.append_inj' split_ rfl).1

theorem nextCursor_snoc (passes : List (SweepCall C)) (call : SweepCall C) :
    nextCursor (passes ++ [call]) = call.nextCursor := by
  unfold nextCursor
  rw [List.getLast?_concat, Option.bind_some]

theorem Recovery.Consistent.act (h : s.Consistent f) {a : RecoveryAction} (step : s.act f a = some t) : t.Consistent f := by
  cases a with
  | read =>
      cases step
      refine ⟨h.document, fun reader member => ?_, h.chained, h.made⟩
      rcases List.mem_append.mp member with old | new
      · exact h.readers reader old
      · rw [List.mem_singleton.mp new, h.document]
        exact ⟨le_rfl, fun _ => rfl⟩
  | readFails =>
      cases step
      refine ⟨h.document, fun reader member => ?_, h.chained, h.made⟩
      rcases List.mem_append.mp member with old | new
      · exact h.readers reader old
      · rw [List.mem_singleton.mp new]
        refine ⟨Int.natCast_nonneg _, fun none => ?_⟩
        rw [List.length_eq_zero_iff.mp (Int.natCast_eq_zero.mp none.symm)]
        rfl
  | finish k now =>
      obtain ⟨reader, found, step⟩ := Option.bind_eq_some_iff.mp step
      obtain ⟨result, made, rfl⟩ := Option.map_eq_some_iff.mp step
      obtain ⟨old, starts⟩ := h.readers reader (List.mem_of_getElem? found)
      unfold advanceStaleProcessingSweepCursorTxn
      rw [h.document]
      dsimp only
      by_cases stale : (s.passes.length : Int) ≠ reader.2
      · rw [if_pos stale]
        exact ⟨h.document, fun other member => h.readers other (List.mem_of_mem_eraseIdx member), h.chained, h.made⟩
      · rw [if_neg stale]
        have current := of_not_not stale
        have longer (call : SweepCall C) : ((s.passes ++ [call]).length : Int) = s.passes.length + 1 := by
          rw [List.length_append, List.length_singleton, Int.natCast_add, Int.natCast_one]
        refine ⟨?_, fun other member => ?_, h.chained.snoc (starts current.symm), ?_⟩
        · dsimp only
          rw [if_pos rfl, nextCursor_snoc, longer]
          rfl
        · have known := (h.readers other (List.mem_of_mem_eraseIdx member)).1
          dsimp only
          rw [if_pos rfl, longer]
          exact ⟨by omega, fun same => by omega⟩
        · exact List.forall_mem_append.mpr ⟨h.made, List.forall_mem_singleton.mpr made⟩

theorem Recovery.consistent (reached : Transition.Reachable (· = Recovery.start) (fun s a t => s.act f a = some t) s) :
    s.Consistent f := by
  refine reached.invariant ?_ fun _ _ _ h step => h.act step
  rintro _ rfl
  refine ⟨rfl, fun _ member => absurd member List.not_mem_nil, fun before call after empty => ?_,
    fun _ member => absurd member List.not_mem_nil⟩
  exact absurd empty.symm (List.append_ne_nil_of_right_ne_nil _ (List.cons_ne_nil _ _))

/-- Passes up to one that says that nothing is left are one sweep. -/
theorem Recovery.Consistent.sweep (h : s.Consistent f) {before front after : List (SweepCall C)} {last : SweepCall C}
    (passes : s.passes = before ++ (front ++ [last] ++ after)) (finished : last.result.exhausted = true)
    (more : ∀ call ∈ front, call.result.exhausted = false) : Sweep f (nextCursor before) (front ++ [last]) := by
  induction front generalizing before with
  | nil =>
      have starts := h.chained before last after passes
      have made := h.made last (by rw [passes]; simp)
      exact starts ▸ .last made finished
  | cons call rest ih =>
      have starts := h.chained before call (rest ++ [last] ++ after) passes
      have made := h.made call (by rw [passes]; simp)
      have open_ := more call List.mem_cons_self
      have later := @ih (before ++ [call]) (by rw [passes]; simp) fun other member =>
        more other (List.mem_cons_of_mem _ member)
      rw [nextCursor_snoc, SweepCall.nextCursor, open_] at later
      exact starts ▸ .next made open_ later

/-- However the readers of a cursor interleave, what they look at between two turns of the cursor is one sweep. -/
theorem recovery_covers_iff {c : Collection κ} {eligible : Instant → Row → Option C}
    (h : IsSweep c limit maxScan eligible path f)
    (reached : Transition.Reachable (· = Recovery.start) (fun s a t => s.act f a = some t) s)
    {before front after : List (SweepCall C)} {last : SweepCall C}
    (passes : s.passes = before ++ (front ++ [last] ++ after)) (finished : last.result.exhausted = true)
    (more : ∀ call ∈ front, call.result.exhausted = false) :
    CoversOnce c eligible path (nextCursor before) (front ++ [last]) ↔ ∀ call ∈ front ++ [last],
      ¬CutShort (eligible call.now) limit maxScan (c.rowsAfter call.resumeAfterPath) :=
  h.sweep_iff ((Recovery.consistent reached).sweep passes finished more)

end Recovery

/-! ## A sample collection -/

def sampleRow (id path : String) (deferred : Bool) : Row :=
  ⟨path, id, [("status", .text "processing"), ("deferred", .bool deferred)]⟩

/-- Five stale conversations, of which the third is deferred. -/
def sampleRows : List Row :=
  [sampleRow "1" "users/u/conversations/1" false, sampleRow "2" "users/u/conversations/2" false,
    sampleRow "3" "users/u/conversations/3" true, sampleRow "4" "users/u/conversations/4" false,
    sampleRow "5" "users/u/conversations/5" false]

def sampleCollection : Collection Nat where
  rows := sampleRows
  place := fun row => (row.path.toList.map Char.toNat).sum
  document := fun path => sampleRows.find? fun row => decide (row.path = path)
  ordered := by decide +kernel
  kept := fun row inside => by
    simp only [sampleRows, List.mem_cons, List.not_mem_nil, or_false] at inside
    rcases inside with rfl | rfl | rfl | rfl | rfl <;> exact ⟨by decide, rfl⟩

/-- With a limit that is not reached the first call looks at all of them. -/
theorem sweeps_skip_no_row_sample : ∃ r, getStaleProcessingOrphanCandidates sampleCollection 900 100 2000 10000 none = some r ∧
    CallCorrect (orphanCandidate 9100) Row.path sampleRows r := by
  have sweeps := (@sweeps_skip_no_row_iff ℕ _ 100 2000 sampleCollection 900 0 (by decide) (by decide)).1
  obtain ⟨r, done⟩ := sweeps.returns 10000 none
  refine ⟨r, done, (sweeps.call 10000 none r done).mpr ?_⟩
  rintro ⟨before, row, after, whole, -, -, -, count, -⟩
  change (candidates (orphanCandidate 9100) before).length + 1 = 100 at count
  have few : (candidates (orphanCandidate 9100) before).length ≤ before.length := List.length_filterMap_le _ _
  have size := congrArg List.length whole
  rw [List.length_append, List.length_cons, show sampleCollection.rowsAfter none = sampleRows from rfl] at size
  change 5 = _ at size
  omega

/-- With a limit of three the second page is left at its first row, and the sweep says that nothing is left. -/
theorem fifth_row_skipped : ∃ r, getStaleProcessingOrphanCandidates sampleCollection 900 3 2000 10000 none = some r ∧
    r.exhausted = true ∧ r.examined.map Row.id = ["1", "2", "3", "4"] ∧
    ¬CallCorrect (orphanCandidate 9100) Row.path (sampleCollection.rowsAfter none) r := by
  have said : (getStaleProcessingOrphanCandidates sampleCollection 900 3 2000 10000 none).map
      (fun r => (r.exhausted, r.examined.map Row.id)) = some (true, ["1", "2", "3", "4"]) := by decide +kernel
  obtain ⟨r, done, same⟩ := Option.map_eq_some_iff.mp said
  obtain ⟨finished, seen⟩ := Prod.mk.inj same
  refine ⟨r, done, finished, seen, fun correct => ?_⟩
  rw [correct.complete finished] at seen
  exact absurd seen (by decide)

end OmiLocal.Finalization
