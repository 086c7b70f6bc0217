import OmiLocal.Memory.CursorPages

/-!
# What a page holds

The rows that the three streams have left, merged by their keys, are what the
listing still has to show. A page takes the front of them, and the cursor keeps
the rest.
-/
namespace OmiLocal.Memory

open Lib

/-- The rows of the three scans. -/
structure Scans where
  canonical : ScanRows MemoryDB
  updated : ScanRows HistoricalRecord
  created : ScanRows HistoricalRecord

/-- The readers return these rows, and a row is shown under its own key. -/
structure Scans.Serves (x : Scans) (rs : Readers) : Prop where
  canonical : Reads rs.canonical x.canonical
  updated : Reads rs.updated x.updated
  created : Reads rs.created x.created
  canonical_key : ∀ row ∈ x.canonical, ∀ memory ∈ row.2, memoryKeyset memory = row.1
  updated_key : ∀ row ∈ x.updated, ∀ record ∈ row.2, memoryKeyset record.1 = row.1
  created_key : ∀ row ∈ x.created, ∀ record ∈ row.2, memoryKeyset record.1 = row.1

/-- Enough passes for each loop of a stream. -/
structure Scans.Within (x : Scans) (passes : Nat) : Prop where
  canonical : x.canonical.length < passes
  updated : x.updated.length < passes
  created : x.created.length < passes

def memoryLe (a b : MemoryDB) : Bool := decide (memoryCursorSortKey a ≤ memoryCursorSortKey b)

def rowLe (a b : Row) : Bool := memoryLe a.memory b.memory

variable {x : Scans} {rs : Readers} {passes : Nat}

theorem enough_rest {β : Type} {rows : ScanRows β} (enough : rows.length < passes) (s : CursorStream β) :
    (s.rest rows).length < passes := (rest_sublist rows s).length_le.trans_lt enough

/-! ## The canonical stream -/

def CanonicalCursorStream.pending (rows : ScanRows MemoryDB) (c : CanonicalCursorStream) : List MemoryDB :=
  (c.stream.rest rows).filterMap Prod.snd

/-- The last row that was emitted is not behind the position. -/
structure CanonicalReady (rows : ScanRows MemoryDB) (c : CanonicalCursorStream) : Prop where
  synced : Synced rows (alreadyEmitted c.emittedKeyset) c.stream
  emitted : ∀ k ∈ c.emittedKeyset, k.Good ∧ ∃ k' ∈ c.stream.scanKeyset, keysetSortKey k ≤ keysetSortKey k'

theorem not_alreadyEmitted {rows : ScanRows MemoryDB} (keyed : ∀ row ∈ rows, ∀ memory ∈ row.2, memoryKeyset memory = row.1)
    {c : CanonicalCursorStream} (ready : CanonicalReady rows c) {k : StreamKeyset} {memory : MemoryDB}
    (left : (k, some memory) ∈ c.stream.rest rows) : alreadyEmitted c.emittedKeyset memory = false := by
  obtain ⟨-, inside, behind⟩ := mem_rest.mp left
  have own : memoryKeyset memory = k := keyed _ inside memory rfl
  unfold alreadyEmitted
  cases last : c.emittedKeyset with
  | none => rfl
  | some e =>
      obtain ⟨-, k', there, le⟩ := ready.emitted e last
      have after : keysetSortKey e < memoryCursorSortKey memory := by
        unfold memoryCursorSortKey
        rw [own]
        exact lt_of_le_of_lt le (behind k' there)
      exact decide_eq_false (not_le.mpr after)

/-- No row that is left is taken for one that was emitted. -/
theorem CanonicalReady.shown {rows : ScanRows MemoryDB} (keyed : ∀ row ∈ rows, ∀ memory ∈ row.2, memoryKeyset memory = row.1)
    {c : CanonicalCursorStream} (ready : CanonicalReady rows c) :
    shown (alreadyEmitted c.emittedKeyset) (c.stream.rest rows) = c.pending rows := by
  unfold CanonicalCursorStream.pending Memory.shown
  refine List.filterMap_congr fun row left => ?_
  obtain ⟨k, v⟩ := row
  cases v with
  | none => rfl
  | some memory => exact Option.filter_eq_some_iff.mpr ⟨rfl, by rw [not_alreadyEmitted keyed ready left]; rfl⟩

theorem CanonicalReady.peek (serves : x.Serves rs) (within : x.Within passes) {c : CanonicalCursorStream}
    (ready : CanonicalReady x.canonical c) :
    ∃ c', c.peek rs.canonical passes = pure ((c.pending x.canonical).head?, c') ∧ CanonicalReady x.canonical c' ∧
      c'.pending x.canonical = c.pending x.canonical ∧ c'.stream.peeked.map Prod.fst = (c.pending x.canonical).head? := by
  obtain ⟨t, peeked, onward, first⟩ := ready.synced.peek serves.canonical (enough_rest within.canonical c.stream)
  have emitted : ∀ k ∈ c.emittedKeyset, k.Good ∧ ∃ k' ∈ t.scanKeyset, keysetSortKey k ≤ keysetSortKey k' := by
    intro k here
    obtain ⟨good, k', there, le⟩ := ready.emitted k here
    obtain ⟨k'', further, le'⟩ := onward.later k' there
    exact ⟨good, k'', further, le.trans le'⟩
  have next : CanonicalReady x.canonical { c with stream := t } := ⟨onward.synced, emitted⟩
  have same := onward.shown
  rw [ready.shown serves.canonical_key] at peeked first same
  refine ⟨{ c with stream := t }, ?_, next, (next.shown serves.canonical_key).symm.trans same, first⟩
  unfold CanonicalCursorStream.peek
  rw [peeked, pure_bind]

theorem CanonicalReady.consume (serves : x.Serves rs) {c : CanonicalCursorStream} (ready : CanonicalReady x.canonical c)
    {memory : MemoryDB} (peeked : c.stream.peeked.map Prod.fst = some memory) :
    ∃ c', c.consume = .ok c' ∧ CanonicalReady x.canonical c' ∧ c.pending x.canonical = memory :: c'.pending x.canonical := by
  obtain ⟨t, k, consumed, synced, left, suffix, scan, member⟩ := ready.synced.consume serves.canonical peeked
  obtain ⟨p, here, rfl⟩ := Option.map_eq_some_iff.mp peeked
  have inside := (mem_rest.mp member).2.1
  have own : memoryKeyset p.1 = k := serves.canonical_key _ inside p.1 rfl
  have unpeeked : t.peeked = none := by
    unfold CursorStream.consume at consumed
    rw [here] at consumed
    obtain rfl := Except.ok.inj consumed
    exact (advance_scan _ _).2
  have next : CanonicalReady x.canonical ⟨some (memoryKeyset p.1), t⟩ := by
    refine ⟨⟨synced.front, synced.whole, synced.scan, fun q there => ?_⟩, fun k' there => ?_⟩
    · rw [unpeeked] at there
      cases there
    · obtain rfl := Option.some.inj there
      exact ⟨own ▸ serves.canonical.good _ inside, k, scan, by rw [own]⟩
  refine ⟨_, ?_, next, ?_⟩
  · unfold CanonicalCursorStream.consume
    rw [consumed, here]
    rfl
  · -- The check that passes none of the rows left before passes none of those left after.
    rw [← ready.shown serves.canonical_key, left]
    refine congrArg (p.1 :: ·) ?_
    unfold CanonicalCursorStream.pending Memory.shown
    refine List.filterMap_congr fun row there => ?_
    obtain ⟨k', v⟩ := row
    cases v with
    | none => rfl
    | some other =>
        refine Option.filter_eq_some_iff.mpr ⟨rfl, ?_⟩
        rw [not_alreadyEmitted serves.canonical_key ready (suffix.mem there)]
        rfl

/-! ## The historical streams -/

/-- What a historical stream still shows. -/
def recordsLeft (rows : ScanRows HistoricalRecord) (s : CursorStream HistoricalRecord) : List MemoryDB :=
  (shown suppressedHistorical (s.rest rows)).map Prod.fst

def HistoricalCursorStream.pending (x : Scans) (h : HistoricalCursorStream) : List MemoryDB :=
  List.merge (recordsLeft x.updated h.updated) (recordsLeft x.created h.created) memoryLe

structure HistoricalReady (x : Scans) (h : HistoricalCursorStream) : Prop where
  updated : Synced x.updated suppressedHistorical h.updated
  created : Synced x.created suppressedHistorical h.created
  consumed : ∀ k ∈ h.consumedKeyset, k.Good

/-- The source that was looked at holds its first row, which comes before that of the other. -/
structure SourceReady (x : Scans) (h : HistoricalCursorStream) : Prop where
  updated : h.peekSource = some .updatedAt → ∃ p, h.updated.peeked.map Prod.fst = some p ∧
    ∀ other ∈ (recordsLeft x.created h.created).head?, memoryLe p.1 other = true
  created : h.peekSource = some .createdAt → ∃ p, h.created.peeked.map Prod.fst = some p ∧
    ∀ other ∈ (recordsLeft x.updated h.updated).head?, memoryLe other p.1 = false

/-- The choice between two sorted sources is the head of their merge. -/
theorem peekHistorical_merge (us cs : List MemoryDB) :
    (peekHistorical us.head? cs.head?).map Prod.snd = (List.merge us cs memoryLe).head? := by
  cases us with
  | nil => cases cs <;> simp [peekHistorical]
  | cons u us =>
      cases cs with
      | nil => simp [peekHistorical]
      | cons c cs =>
          unfold peekHistorical
          rw [List.cons_merge_cons]
          by_cases first : memoryCursorSortKey u ≤ memoryCursorSortKey c <;> simp [memoryLe, first]

theorem HistoricalReady.peek (serves : x.Serves rs) (within : x.Within passes) {h : HistoricalCursorStream}
    (ready : HistoricalReady x h) :
    ∃ h', h.peek rs passes = pure ((h.pending x).head?, h') ∧ HistoricalReady x h' ∧ SourceReady x h' ∧
      h'.pending x = h.pending x ∧ ((h.pending x).head?.isSome → h'.peekSource.isSome) := by
  obtain ⟨u, peekedU, onwardU, firstU⟩ := ready.updated.peek serves.updated (enough_rest within.updated h.updated)
  obtain ⟨c, peekedC, onwardC, firstC⟩ := ready.created.peek serves.created (enough_rest within.created h.created)
  have leftU : recordsLeft x.updated u = recordsLeft x.updated h.updated := congrArg (List.map Prod.fst) onwardU.shown
  have leftC : recordsLeft x.created c = recordsLeft x.created h.created := congrArg (List.map Prod.fst) onwardC.shown
  have headU : ((shown suppressedHistorical (h.updated.rest x.updated)).head?).map Prod.fst =
      (recordsLeft x.updated h.updated).head? := List.head?_map.symm
  have headC : ((shown suppressedHistorical (h.created.rest x.created)).head?).map Prod.fst =
      (recordsLeft x.created h.created).head? := List.head?_map.symm
  have choice := peekHistorical_merge (recordsLeft x.updated h.updated) (recordsLeft x.created h.created)
  refine ⟨{ h with updated := u, created := c, peekSource :=
      (peekHistorical (recordsLeft x.updated h.updated).head? (recordsLeft x.created h.created).head?).map Prod.fst },
    ?_, ⟨onwardU.synced, onwardC.synced, ready.consumed⟩, ⟨?_, ?_⟩, ?_, ?_⟩
  · unfold HistoricalCursorStream.peek
    rw [peekedU, pure_bind]
    dsimp only
    rw [peekedC, pure_bind]
    dsimp only
    rw [headU, headC, choice]
    rfl
  · intro source
    dsimp only at source ⊢
    rw [firstU, leftC]
    rw [← headU] at source
    cases first : (shown suppressedHistorical (h.updated.rest x.updated)).head? with
    | none =>
        rw [first] at source
        cases other : (recordsLeft x.created h.created).head? <;> rw [other] at source <;> cases source
    | some p =>
        refine ⟨p, rfl, fun other here => ?_⟩
        rw [first, here] at source
        simp only [Option.map_some, peekHistorical] at source
        split at source
        · rename_i le
          exact decide_eq_true le
        · cases source
  · intro source
    dsimp only at source ⊢
    rw [firstC, leftU]
    rw [← headC] at source
    cases first : (shown suppressedHistorical (h.created.rest x.created)).head? with
    | none =>
        rw [first] at source
        cases other : (recordsLeft x.updated h.updated).head? <;> rw [other] at source <;> cases source
    | some p =>
        refine ⟨p, rfl, fun other here => ?_⟩
        rw [first, here] at source
        simp only [Option.map_some, peekHistorical] at source
        split at source
        · cases source
        · rename_i gt
          exact decide_eq_false gt
  · unfold HistoricalCursorStream.pending
    rw [leftU, leftC]
  · intro some_
    unfold HistoricalCursorStream.pending at some_
    rw [← choice] at some_
    dsimp only
    rw [Option.isSome_map] at some_ ⊢
    exact some_

theorem recordsLeft_cons {rows : ScanRows HistoricalRecord} {s t : CursorStream HistoricalRecord} {p : HistoricalRecord}
    (left : shown suppressedHistorical (s.rest rows) = p :: shown suppressedHistorical (t.rest rows)) :
    recordsLeft rows s = p.1 :: recordsLeft rows t := congrArg (List.map Prod.fst) left

theorem HistoricalReady.consume (serves : x.Serves rs) {h : HistoricalCursorStream} (ready : HistoricalReady x h)
    (source : SourceReady x h) (some_ : h.peekSource.isSome) :
    ∃ h' memory, h.consume rs passes = pure h' ∧ HistoricalReady x h' ∧ h.pending x = memory :: h'.pending x := by
  have again {read : ScanReader HistoricalRecord} {s : CursorStream HistoricalRecord} {p : HistoricalRecord}
      (peeked : s.peeked.map Prod.fst = some p) : s.peek read suppressedHistorical passes = pure (some p, s) := by
    obtain ⟨q, here, rfl⟩ := Option.map_eq_some_iff.mp peeked
    unfold CursorStream.peek
    rw [here]
  have good {rows : ScanRows HistoricalRecord} {read : ScanReader HistoricalRecord} {s : CursorStream HistoricalRecord}
      {p : HistoricalRecord} {k : StreamKeyset} (reads : Reads read rows)
      (keyed : ∀ row ∈ rows, ∀ record ∈ row.2, memoryKeyset record.1 = row.1) (left : (k, some p) ∈ s.rest rows) :
      ∀ k' ∈ some (memoryKeyset p.1), k'.Good := by
    have inside := (mem_rest.mp left).2.1
    rintro k' same
    obtain rfl : memoryKeyset p.1 = k' := Option.some.inj same
    exact keyed _ inside p rfl ▸ reads.good _ inside
  obtain ⟨field, here⟩ := Option.isSome_iff_exists.mp some_
  unfold HistoricalCursorStream.consume HistoricalCursorStream.pending
  rw [here]
  cases field with
  | updatedAt =>
      obtain ⟨p, peeked, first⟩ := source.updated here
      obtain ⟨t, k, consumed, synced, left, -, -, member⟩ := ready.updated.consume serves.updated peeked
      refine ⟨{ h with consumedKeyset := some (memoryKeyset p.1), updated := t, peekSource := none }, p.1, ?_,
        ⟨synced, ready.created, good serves.updated serves.updated_key member⟩, ?_⟩
      · dsimp only
        rw [again peeked, pure_bind]
        dsimp only
        rw [consumed, lift_ok, pure_bind]
        rfl
      · rw [recordsLeft_cons left]
        exact Keyset.merge_left first
  | createdAt =>
      obtain ⟨p, peeked, first⟩ := source.created here
      obtain ⟨t, k, consumed, synced, left, -, -, member⟩ := ready.created.consume serves.created peeked
      refine ⟨{ h with consumedKeyset := some (memoryKeyset p.1), created := t, peekSource := none }, p.1, ?_,
        ⟨ready.updated, synced, good serves.created serves.created_key member⟩, ?_⟩
      · dsimp only
        rw [again peeked, pure_bind]
        dsimp only
        rw [consumed, lift_ok, pure_bind]
        rfl
      · rw [recordsLeft_cons left]
        exact Keyset.merge_right first

/-! ## The page -/

def PageState.pending (x : Scans) (s : PageState) : List Row :=
  List.merge ((s.canonical.pending x.canonical).map (Row.mk .canonical)) ((s.historical.pending x).map (Row.mk .historical)) rowLe

structure PageReady (x : Scans) (s : PageState) : Prop where
  canonical : CanonicalReady x.canonical s.canonical
  historical : HistoricalReady x s.historical

theorem nextRow_merge (cs hs : List MemoryDB) :
    nextRow cs.head? hs.head? = (List.merge (cs.map (Row.mk .canonical)) (hs.map (Row.mk .historical)) rowLe).head? := by
  cases cs with
  | nil => cases hs <;> simp [nextRow]
  | cons c cs =>
      cases hs with
      | nil => simp [nextRow]
      | cons h hs =>
          rw [List.map_cons, List.map_cons, List.cons_merge_cons]
          by_cases first : memoryCursorSortKey c ≤ memoryCursorSortKey h <;> simp [nextRow, rowLe, memoryLe, first]

/-- What the choice of a row says about the two heads. -/
theorem nextRow_canonical {c h : Option MemoryDB} {memory : MemoryDB} (chosen : nextRow c h = some ⟨.canonical, memory⟩) :
    c = some memory ∧ ∀ other ∈ h, memoryLe memory other = true := by
  unfold nextRow at chosen
  split at chosen
  · cases chosen
  · cases chosen
    exact ⟨rfl, fun _ none => by cases none⟩
  · cases chosen
  · split at chosen
    · rename_i le
      cases chosen
      refine ⟨rfl, fun other here => ?_⟩
      obtain rfl := Option.some.inj here
      exact decide_eq_true le
    · cases chosen

theorem nextRow_historical {c h : Option MemoryDB} {memory : MemoryDB} (chosen : nextRow c h = some ⟨.historical, memory⟩) :
    h = some memory ∧ ∀ other ∈ c, memoryLe other memory = false := by
  unfold nextRow at chosen
  split at chosen
  · cases chosen
  · cases chosen
  · cases chosen
    exact ⟨rfl, fun _ none => by cases none⟩
  · split at chosen
    · cases chosen
    · rename_i gt
      cases chosen
      refine ⟨rfl, fun other here => ?_⟩
      obtain rfl := Option.some.inj here
      exact decide_eq_false gt

theorem nextRow_none {c h : Option MemoryDB} (none_ : nextRow c h = none) : c = none ∧ h = none := by
  unfold nextRow at none_
  split at none_
  · exact ⟨rfl, rfl⟩
  · cases none_
  · cases none_
  · split at none_ <;> cases none_

/-- The page is the front of what is left. -/
theorem PageReady.mergePage (serves : x.Serves rs) (within : x.Within passes) {s : PageState} (ready : PageReady x s) (room : Nat) :
    ∃ t, mergePage rs passes room s = pure ((s.pending x).take room, t) ∧ PageReady x t ∧
      t.pending x = (s.pending x).drop room := by
  induction room generalizing s with
  | zero => exact ⟨s, rfl, ready, rfl⟩
  | succ room ih =>
      obtain ⟨c, peekedC, readyC, pendingC, heldC⟩ := ready.canonical.peek serves within
      obtain ⟨h, peekedH, readyH, source, pendingH, held⟩ := ready.historical.peek serves within
      have pending : PageState.pending x ⟨c, h⟩ = s.pending x := by
        unfold PageState.pending
        rw [pendingC, pendingH]
      have head := nextRow_merge (s.canonical.pending x.canonical) (s.historical.pending x)
      change _ = (s.pending x).head? at head
      unfold Memory.mergePage
      rw [peekedC, pure_bind]
      dsimp only
      rw [peekedH, pure_bind]
      dsimp only
      split
      · rename_i none_
        rw [head] at none_
        have empty := List.head?_eq_none_iff.mp none_
        rw [empty, List.take_nil, List.drop_nil]
        exact ⟨⟨c, h⟩, rfl, ⟨readyC, readyH⟩, pending.trans empty⟩
      · rename_i memory chosen
        obtain ⟨first, before⟩ := nextRow_canonical chosen
        obtain ⟨c', consumed, readyC', left⟩ := readyC.consume serves (heldC.trans first)
        have whole : s.pending x = ⟨.canonical, memory⟩ :: PageState.pending x ⟨c', h⟩ := by
          rw [← pending]
          unfold PageState.pending
          rw [left, List.map_cons]
          refine Keyset.merge_left fun y here => ?_
          rw [List.head?_map, pendingH] at here
          obtain ⟨other, there, rfl⟩ := Option.map_eq_some_iff.mp here
          exact before other there
        obtain ⟨t, merged, readyT, rest⟩ := ih (s := ⟨c', h⟩) ⟨readyC', readyH⟩
        refine ⟨t, ?_, readyT, ?_⟩
        · rw [consumed, lift_ok, pure_bind, merged, pure_bind, whole, List.take_succ_cons]
        · rw [rest, whole, List.drop_succ_cons]
      · rename_i memory chosen
        obtain ⟨first, before⟩ := nextRow_historical chosen
        obtain ⟨h', memory', consumed, readyH', left⟩ := readyH.consume serves source (held (by rw [first]; rfl))
        obtain rfl : memory' = memory := by
          rw [← pendingH, left] at first
          exact Option.some.inj first
        have whole : s.pending x = ⟨.historical, memory'⟩ :: PageState.pending x ⟨c, h'⟩ := by
          rw [← pending]
          unfold PageState.pending
          rw [left, List.map_cons]
          refine Keyset.merge_right fun y here => ?_
          rw [List.head?_map, pendingC] at here
          obtain ⟨other, there, rfl⟩ := Option.map_eq_some_iff.mp here
          exact before other there
        obtain ⟨t, merged, readyT, rest⟩ := ih (s := ⟨c, h'⟩) ⟨readyC, readyH'⟩
        refine ⟨t, ?_, readyT, ?_⟩
        · rw [consumed, pure_bind, merged, pure_bind, whole, List.take_succ_cons]
        · rw [rest, whole, List.drop_succ_cons]

theorem PageReady.hasMore (serves : x.Serves rs) (within : x.Within passes) {s : PageState} (ready : PageReady x s) :
    ∃ t, s.hasMore rs passes = pure (!(s.pending x).isEmpty, t) ∧ PageReady x t ∧ t.pending x = s.pending x := by
  obtain ⟨c, peekedC, readyC, pendingC, -⟩ := ready.canonical.peek serves within
  obtain ⟨h, peekedH, readyH, -, pendingH, -⟩ := ready.historical.peek serves within
  have head := nextRow_merge (s.canonical.pending x.canonical) (s.historical.pending x)
  change _ = (s.pending x).head? at head
  unfold PageState.hasMore
  rw [peekedC, pure_bind]
  dsimp only
  cases first : (s.canonical.pending x.canonical).head? with
  | some memory =>
      have more : (s.pending x).isEmpty = false := by
        rw [first] at head
        cases empty : s.pending x with
        | cons row rows => rfl
        | nil =>
            rw [empty] at head
            cases (nextRow_none head).1
      refine ⟨{ s with canonical := c }, by rw [more]; rfl, ⟨readyC, ready.historical⟩, ?_⟩
      unfold PageState.pending
      rw [pendingC]
  | none =>
      refine ⟨⟨c, h⟩, ?_, ⟨readyC, readyH⟩, ?_⟩
      · rw [if_neg (by simp), peekedH, pure_bind]
        have same : (s.historical.pending x).head?.isSome = !(s.pending x).isEmpty := by
          rw [first] at head
          cases other : (s.historical.pending x).head? with
          | none =>
              rw [other] at head
              rw [List.head?_eq_none_iff.mp head.symm]
              rfl
          | some memory =>
              rw [other] at head
              cases empty : s.pending x with
              | cons row rows => rfl
              | nil =>
                  rw [empty] at head
                  cases head
        rw [← same]
      · unfold PageState.pending
        rw [pendingC, pendingH]

/-! ## From one page to the next -/

theorem Synced.exhaustedNow {β : Type} {rows : ScanRows β} {read : ScanReader β} {skip : β → Bool} {s : CursorStream β}
    (reads : Reads read rows) (synced : Synced rows skip s) (enough : rows.length < passes) :
    s.exhaustedNow read skip passes = pure s.exhausted := by
  unfold CursorStream.exhaustedNow
  split
  · rename_i ended
    have empty : s.rest rows = [] := if_pos ended
    obtain ⟨t, peeked, -⟩ := synced.peek reads (enough_rest enough s)
    rw [peeked, pure_bind, empty, ended]
    rfl
  · rename_i open_
    rw [Bool.not_eq_true] at open_
    rw [open_]

/-- The positions of a cursor can be written and read again, and its flags are the request's. -/
structure UniversalListCursorState.Sound (state : UniversalListCursorState) (request : ListRequest) : Prop where
  canonical : ∀ k ∈ state.canonical, k.Good ∧ ∃ k' ∈ state.canonicalScan, keysetSortKey k ≤ keysetSortKey k'
  canonicalScan : ∀ k ∈ state.canonicalScan, k.Good
  historical : ∀ k ∈ state.historical, k.Good
  updatedScan : ∀ k ∈ state.historicalUpdatedScan, k.Good
  createdScan : ∀ k ∈ state.historicalCreatedScan, k.Good
  includeArchive : state.includeArchive = request.includeArchive
  includePendingProcessing : state.includePendingProcessing = request.includePendingProcessing
  deviceScope : state.deviceScope = request.deviceScope
  clientDeviceId : state.clientDeviceId = request.clientDeviceId

theorem sound_first (request : ListRequest) : (UniversalListCursorState.first request).Sound request := by
  refine ⟨?_, ?_, ?_, ?_, ?_, rfl, rfl, rfl, rfl⟩ <;> exact fun _ none => by cases none

theorem parsesKeyset_of_good {keyset : Option StreamKeyset} (good : ∀ k ∈ keyset, k.Good) : parsesKeyset keyset = true := by
  cases keyset with
  | none => rfl
  | some k =>
      obtain ⟨dated, named⟩ := good k rfl
      simp [parsesKeyset, dated, named]

theorem UniversalListCursorState.Sound.decode {state : UniversalListCursorState} {request : ListRequest} (sound : state.Sound request) :
    state.decode request = .ok state := by
  unfold UniversalListCursorState.decode
  rw [parsesKeyset_of_good fun k here => (sound.canonical k here).1, parsesKeyset_of_good sound.canonicalScan,
    parsesKeyset_of_good sound.historical, parsesKeyset_of_good sound.updatedScan, parsesKeyset_of_good sound.createdScan,
    sound.includeArchive, sound.includePendingProcessing, sound.deviceScope, sound.clientDeviceId]
  simp
  rfl

def UniversalListCursorState.pending (x : Scans) (state : UniversalListCursorState) : List Row := (PageState.start state).pending x

theorem UniversalListCursorState.Sound.ready (x : Scans) {state : UniversalListCursorState} {request : ListRequest}
    (sound : state.Sound request) : PageReady x (PageState.start state) :=
  ⟨⟨.start sound.canonicalScan _, sound.canonical⟩, ⟨.start sound.updatedScan _, .start sound.createdScan _, sound.historical⟩⟩

theorem PageReady.nextState (serves : x.Serves rs) (within : x.Within passes) {s : PageState} (ready : PageReady x s)
    (request : ListRequest) :
    ∃ state, s.nextState rs passes request = pure state ∧ state.Sound request ∧ state.pending x = s.pending x := by
  unfold PageState.nextState
  rw [ready.canonical.synced.exhaustedNow serves.canonical within.canonical, pure_bind,
    ready.historical.updated.exhaustedNow serves.updated within.updated, pure_bind,
    ready.historical.created.exhaustedNow serves.created within.created, pure_bind]
  exact ⟨_, rfl, ⟨ready.canonical.emitted, ready.canonical.synced.scan, ready.historical.consumed,
    ready.historical.updated.scan, ready.historical.created.scan, rfl, rfl, rfl, rfl⟩, rfl⟩

/-- A page returns, shows the front of what is left, and its cursor has the rest. -/
theorem readPage_spec {timestamp : DateTime → ℚ} {decode : Lib.Values.Entries → Option MemoryFields} {account : Account}
    {request : ListRequest} (serves : x.Serves (readers timestamp decode account request)) (within : x.Within passes) (limit : Int)
    {cursor : Option UniversalListCursorState} (sound : ∀ token ∈ cursor, token.Sound request) :
    ∃ next, readPage timestamp decode account request passes limit cursor =
        pure (((cursor.getD (.first request)).pending x).take (boundedPageLimit limit), next) ∧
      (next = none ↔ ((cursor.getD (.first request)).pending x).drop (boundedPageLimit limit) = []) ∧
      ∀ state ∈ next, state.Sound request ∧
        state.pending x = ((cursor.getD (.first request)).pending x).drop (boundedPageLimit limit) := by
  have opened : openCursor request cursor = .ok (cursor.getD (.first request)) := by
    unfold openCursor
    cases cursor with
    | none => rfl
    | some token =>
        dsimp only
        rw [(sound token rfl).decode]
        rfl
  have start : (cursor.getD (.first request)).Sound request := by
    cases cursor with
    | none => exact sound_first request
    | some token => exact sound token rfl
  generalize cursor.getD (.first request) = state at opened start ⊢
  obtain ⟨s, merged, ready, rest⟩ := (start.ready x).mergePage serves within (boundedPageLimit limit)
  obtain ⟨t, more, ready, same⟩ := ready.hasMore serves within
  change s.pending x = (state.pending x).drop _ at rest
  rw [rest] at more same
  unfold readPage
  rw [opened, lift_ok, pure_bind]
  dsimp only
  rw [merged, pure_bind]
  dsimp only
  rw [more, pure_bind]
  dsimp only
  cases left : ((state.pending x).drop (boundedPageLimit limit)).isEmpty with
  | true =>
      refine ⟨none, rfl, ⟨fun _ => List.isEmpty_iff.mp left, fun _ => rfl⟩, fun _ none => by cases none⟩
  | false =>
      obtain ⟨next, written, sound, pending⟩ := ready.nextState serves within request
      refine ⟨some next, ?_, ⟨fun none => (by cases none), fun empty => ?_⟩, fun token here => ?_⟩
      · rw [written]
        rfl
      · rw [empty] at left
        cases left
      · obtain rfl := Option.some.inj here
        exact ⟨sound, pending.trans same⟩

end OmiLocal.Memory
