import OmiLocal.Memory.Historical

/-!
# Peekable streams

A stream walks one scan in chunks behind its position. It passes over the rows
that are not shown, and it can look at the next row without taking it. What is
left of a stream is told by its position and its flag alone; the chunk it holds
is the front of that.
-/
namespace OmiLocal.Memory

open Lib Lib.Text

/-- The exact order key of a row. -/
structure StreamKeyset where
  updatedAtUs : Int
  memoryId : String
deriving DecidableEq

def keysetSortKey (keyset : StreamKeyset) : ℤ ×ₗ String := toLex (-keyset.updatedAtUs, keyset.memoryId)

def memoryKeyset (memory : MemoryDB) : StreamKeyset := ⟨max 0 memory.updatedAt, memory.id⟩

def memoryCursorSortKey (memory : MemoryDB) : ℤ ×ₗ String := keysetSortKey (memoryKeyset memory)

def scanCursorToStreamKeyset (scanCursor : ScanCursor) : StreamKeyset := ⟨max 0 scanCursor.1, scanCursor.2⟩

def streamKeysetToScanCursor (keyset : StreamKeyset) : ScanCursor := (max 0 keyset.updatedAtUs, keyset.memoryId)

def memoryListScanChunkSize : Nat := 50

/-- A page of a scan behind a cursor, and whether the scan ends with it. -/
abbrev ScanReader (β : Type) := Option ScanCursor → Except String (List (Option β × ScanCursor) × Bool)

/-- `none`: a loop is still running when its passes are used up. -/
abbrev Reading := ExceptT String Option

/-- `slots` are those from the slot index on; `peeked` is the row that was looked at, with its position. -/
structure CursorStream (β : Type) where
  scanKeyset : Option StreamKeyset
  exhausted : Bool
  peeked : Option (β × StreamKeyset)
  slots : List (Option β × StreamKeyset)
  slotsExhausted : Bool

variable {β : Type}

def CursorStream.start (scan : Option StreamKeyset) (exhausted : Bool) : CursorStream β := ⟨scan, exhausted, none, [], exhausted⟩

section Operations
variable (read : ScanReader β) (skip : β → Bool)

def CursorStream.ensureSlots (s : CursorStream β) : Except String (CursorStream β) :=
  if !s.slots.isEmpty || s.exhausted then return s
  else do
    let (rawSlots, streamExhausted) ← read (s.scanKeyset.map streamKeysetToScanCursor)
    let slots := rawSlots.map fun slot => (slot.1, scanCursorToStreamKeyset slot.2)
    return { s with slots := slots, slotsExhausted := streamExhausted, exhausted := slots.isEmpty }

def CursorStream.advanceRawSlot (s : CursorStream β) : CursorStream β :=
  if s.slots.tail.isEmpty then { s with slots := [], exhausted := s.slotsExhausted } else { s with slots := s.slots.tail }

/-- The loop of `peek`. The position moves past the rows that are not shown, too. -/
def CursorStream.skipFrom : Nat → CursorStream β → Reading (Option β × CursorStream β)
  | 0, _ => ExceptT.mk none
  | passes + 1, s => do
      let s ← s.ensureSlots read
      match s.slots with
      | [] => return (none, { s with exhausted := true })
      | (none, scan) :: _ => CursorStream.skipFrom passes { s with scanKeyset := some scan }.advanceRawSlot
      | (some row, scan) :: _ =>
          if skip row then CursorStream.skipFrom passes { s with scanKeyset := some scan }.advanceRawSlot
          else return (some row, { s with peeked := some (row, scan) })

def CursorStream.peek (passes : Nat) (s : CursorStream β) : Reading (Option β × CursorStream β) :=
  match s.peeked with
  | some (row, _) => return (some row, s)
  | none => s.skipFrom read skip passes

def CursorStream.consume (s : CursorStream β) : Except String (CursorStream β) :=
  match s.peeked with
  | none => .error "cursor stream consume without peek"
  | some (_, scan) => .ok { s with scanKeyset := some scan, peeked := none }.advanceRawSlot

end Operations

/-! ## What is left of a stream -/

/-- A position that the cursor and the scan keep as it is. -/
structure StreamKeyset.Good (keyset : StreamKeyset) : Prop where
  dated : 0 ≤ keyset.updatedAtUs
  named : blank keyset.memoryId = false

theorem cursorPosition_of_good {keyset : StreamKeyset} (good : keyset.Good) :
    cursorPosition (streamKeysetToScanCursor keyset) = keysetSortKey keyset := by
  unfold cursorPosition streamKeysetToScanCursor keysetSortKey
  rw [max_eq_right good.dated]

/-- The rows of a scan, each with its position and what is shown of it. -/
abbrev ScanRows (β : Type) := List (StreamKeyset × Option β)

def rowKey (row : StreamKeyset × Option β) : ℤ ×ₗ String := keysetSortKey row.1

/-- The reader returns the chunks of `rows`. -/
structure Reads (read : ScanReader β) (rows : ScanRows β) : Prop where
  sorted : rows.Pairwise fun a b => rowKey a < rowKey b
  good : ∀ row ∈ rows, row.1.Good
  ok : ∀ after : Option StreamKeyset, (∀ k ∈ after, k.Good) →
    ∃ slots, read (after.map streamKeysetToScanCursor) =
        .ok (slots, decide ((Keyset.behind rowKey rows (after.map keysetSortKey)).length < memoryListScanChunkSize)) ∧
      slots.map (fun slot => (scanCursorToStreamKeyset slot.2, slot.1)) =
        (Keyset.behind rowKey rows (after.map keysetSortKey)).take memoryListScanChunkSize

/-- The rows that the stream has not passed. -/
def CursorStream.rest (rows : ScanRows β) (s : CursorStream β) : ScanRows β :=
  if s.exhausted then [] else Keyset.behind rowKey rows (s.scanKeyset.map keysetSortKey)

/-- What is shown of some rows. -/
def shown (skip : β → Bool) (rows : ScanRows β) : List β := rows.filterMap fun row => row.2.filter (!skip ·)

/-- The chunk that the stream holds is the front of what is left. -/
structure Synced (rows : ScanRows β) (skip : β → Bool) (s : CursorStream β) : Prop where
  front : s.slots.map Prod.swap <+: s.rest rows
  whole : s.slots ≠ [] → s.slotsExhausted = true → s.slots.map Prod.swap = s.rest rows
  scan : ∀ k ∈ s.scanKeyset, k.Good
  peeked : ∀ p ∈ s.peeked, s.slots.head? = some (some p.1, p.2) ∧ skip p.1 = false

variable {rows : ScanRows β} {read : ScanReader β} {skip : β → Bool} {s : CursorStream β}

theorem Synced.start {scan : Option StreamKeyset} (good : ∀ k ∈ scan, k.Good) (exhausted : Bool) :
    Synced rows skip (CursorStream.start scan exhausted) :=
  ⟨List.nil_prefix, fun some_ => absurd rfl some_, good, fun _ gone => by cases gone⟩

theorem mem_rest {row : StreamKeyset × Option β} :
    row ∈ s.rest rows ↔ s.exhausted = false ∧ row ∈ rows ∧ ∀ k ∈ s.scanKeyset, keysetSortKey k < rowKey row := by
  unfold CursorStream.rest
  cases s.exhausted with
  | true => simp
  | false =>
      rw [if_neg (by simp), Keyset.mem_behind]
      simp

theorem rest_sublist (rows : ScanRows β) (s : CursorStream β) : (s.rest rows).Sublist rows := by
  unfold CursorStream.rest
  split
  · exact List.nil_sublist _
  · exact List.filter_sublist

theorem mem_shown {rest : ScanRows β} {b : β} : b ∈ shown skip rest ↔ skip b = false ∧ ∃ k, (k, some b) ∈ rest := by
  unfold shown
  rw [List.mem_filterMap]
  constructor
  · rintro ⟨⟨k, v⟩, member, kept⟩
    obtain ⟨rfl, here⟩ := Option.filter_eq_some_iff.mp kept
    exact ⟨by simpa using here, k, member⟩
  · rintro ⟨here, k, member⟩
    exact ⟨(k, some b), member, Option.filter_eq_some_iff.mpr ⟨rfl, by simpa using here⟩⟩

theorem shown_cons_pass {row : StreamKeyset × Option β} (passed : row.2.filter (!skip ·) = none) (rest : ScanRows β) :
    shown skip (row :: rest) = shown skip rest := List.filterMap_cons_none passed

theorem shown_cons_keep {k : StreamKeyset} {b : β} (kept : skip b = false) (rest : ScanRows β) :
    shown skip ((k, some b) :: rest) = b :: shown skip rest :=
  List.filterMap_cons_some (Option.filter_eq_some_iff.mpr ⟨rfl, by simp [kept]⟩)

/-! ## The operations -/

/-- A new chunk is fetched when the old one is used up. -/
theorem Synced.ensureSlots (reads : Reads read rows) (synced : Synced rows skip s) :
    ∃ t, s.ensureSlots read = .ok t ∧ Synced rows skip t ∧ t.scanKeyset = s.scanKeyset ∧ t.peeked = s.peeked ∧
      t.rest rows = s.rest rows ∧ (t.slots = [] → t.rest rows = []) := by
  unfold CursorStream.ensureSlots
  by_cases held : s.slots = []
  · cases ended : s.exhausted with
    | true =>
        refine ⟨s, by simp [pure, Except.pure], synced, rfl, rfl, rfl, fun _ => ?_⟩
        unfold CursorStream.rest
        rw [if_pos ended]
    | false =>
        have rest : s.rest rows = Keyset.behind rowKey rows (s.scanKeyset.map keysetSortKey) := by
          unfold CursorStream.rest
          rw [if_neg (by simp [ended])]
        obtain ⟨raw, returned, chunk⟩ := reads.ok s.scanKeyset synced.scan
        rw [← rest] at returned chunk
        have unpeeked : s.peeked = none := by
          by_contra some_
          obtain ⟨p, here⟩ := Option.ne_none_iff_exists'.mp some_
          have first := (synced.peeked p here).1
          rw [held] at first
          cases first
        have chunk : (raw.map fun slot => (slot.1, scanCursorToStreamKeyset slot.2)).map Prod.swap =
            (s.rest rows).take memoryListScanChunkSize := by
          rw [← chunk, List.map_map]
          rfl
        rw [if_neg (by simp [held]), returned]
        dsimp only [bind, Except.bind, pure, Except.pure]
        generalize (raw.map fun slot : Option β × ScanCursor => (slot.1, scanCursorToStreamKeyset slot.2)) = slots at chunk ⊢
        have emptied : slots = [] → s.rest rows = [] := by
          rintro rfl
          rcases List.take_eq_nil_iff.mp chunk.symm with zero | empty
          · cases zero
          · exact empty
        have same (last : Bool) :
            CursorStream.rest rows { s with slots := slots, slotsExhausted := last, exhausted := slots.isEmpty } = s.rest rows := by
          cases empty : slots.isEmpty with
          | true => exact (emptied (List.isEmpty_iff.mp empty)).symm
          | false => exact rest.symm
        refine ⟨_, rfl, ⟨?_, fun _ whole => ?_, synced.scan, fun p here => ?_⟩, rfl, rfl, same _, fun none => ?_⟩
        · rw [same]
          exact chunk ▸ List.take_prefix _ _
        · rw [same]
          exact chunk.trans (List.take_of_length_le (of_decide_eq_true whole).le)
        · rw [unpeeked] at here
          cases here
        · rw [same]
          exact emptied none
  · refine ⟨s, ?_, synced, rfl, rfl, rfl, fun none => absurd none held⟩
    rw [if_pos]
    · rfl
    · simp [held]

/-- The first slot is passed or taken. -/
theorem Synced.advance (reads : Reads read rows) (synced : Synced rows skip s) {slot : Option β × StreamKeyset}
    {tail : List (Option β × StreamKeyset)} (held : s.slots = slot :: tail) :
    Synced rows skip (CursorStream.advanceRawSlot { s with scanKeyset := some slot.2, peeked := none }) ∧
      s.rest rows = slot.swap :: (CursorStream.advanceRawSlot { s with scanKeyset := some slot.2, peeked := none }).rest rows := by
  obtain ⟨more, rest⟩ : ∃ more, s.rest rows = slot.swap :: more := by
    obtain ⟨back, same⟩ := synced.front
    rw [held] at same
    exact ⟨_, same.symm⟩
  have member : slot.swap ∈ s.rest rows := rest ▸ List.mem_cons_self
  have open_ : s.exhausted = false := (mem_rest.mp member).1
  have next : Keyset.behind rowKey rows (some (keysetSortKey slot.2)) = more := by
    unfold CursorStream.rest at rest
    rw [if_neg (by simp [open_])] at rest
    exact Keyset.behind_next reads.sorted (rest.trans (List.nil_append _).symm)
  have good : slot.2.Good := reads.good _ ((rest_sublist rows s).mem member)
  have front : tail.map Prod.swap <+: more := by
    have front := synced.front
    rw [held, rest] at front
    exact (List.cons_prefix_cons.mp front).2
  have whole : s.slotsExhausted = true → tail.map Prod.swap = more := by
    intro ended
    have whole := synced.whole (by simp [held]) ended
    rw [held, rest] at whole
    exact List.tail_eq_of_cons_eq whole
  have left : (CursorStream.advanceRawSlot { s with scanKeyset := some slot.2, peeked := none }).rest rows = more := by
    unfold CursorStream.advanceRawSlot CursorStream.rest
    rw [held, List.tail_cons]
    split
    · rename_i empty
      cases ended : s.slotsExhausted with
      | true =>
          have last := whole ended
          rw [List.isEmpty_iff.mp empty] at last
          exact last
      | false => exact next
    · change (if s.exhausted = true then _ else _) = _
      rw [if_neg (by simp [open_])]
      exact next
  refine ⟨⟨?_, ?_, ?_, ?_⟩, by rw [left, rest]⟩
  · rw [left]
    unfold CursorStream.advanceRawSlot
    rw [held, List.tail_cons]
    split
    · exact List.nil_prefix
    · exact front
  · rw [left]
    unfold CursorStream.advanceRawSlot
    rw [held, List.tail_cons]
    split
    · exact fun some_ => absurd rfl some_
    · exact fun _ ended => whole ended
  · intro k here
    have same : (CursorStream.advanceRawSlot { s with scanKeyset := some slot.2, peeked := none }).scanKeyset = some slot.2 := by
      unfold CursorStream.advanceRawSlot
      split <;> rfl
    rw [same] at here
    cases here
    exact good
  · intro p here
    have none : (CursorStream.advanceRawSlot { s with scanKeyset := some slot.2, peeked := none }).peeked = none := by
      unfold CursorStream.advanceRawSlot
      split <;> rfl
    rw [none] at here
    cases here

theorem advance_scan (s : CursorStream β) (k : StreamKeyset) :
    (CursorStream.advanceRawSlot { s with scanKeyset := some k, peeked := none }).scanKeyset = some k ∧
      (CursorStream.advanceRawSlot { s with scanKeyset := some k, peeked := none }).peeked = none := by
  unfold CursorStream.advanceRawSlot
  split <;> exact ⟨rfl, rfl⟩

/-- `t` comes from `s` without a row that is shown being passed. -/
structure Onward (rows : ScanRows β) (skip : β → Bool) (s t : CursorStream β) : Prop where
  synced : Synced rows skip t
  shown : shown skip (t.rest rows) = shown skip (s.rest rows)
  rest : t.rest rows <:+ s.rest rows
  later : ∀ k ∈ s.scanKeyset, ∃ k' ∈ t.scanKeyset, keysetSortKey k ≤ keysetSortKey k'

theorem Onward.refl (synced : Synced rows skip s) : Onward rows skip s s :=
  ⟨synced, rfl, List.suffix_rfl, fun k here => ⟨k, here, le_refl _⟩⟩

theorem Onward.trans {t u : CursorStream β} (first : Onward rows skip s t) (second : Onward rows skip t u) :
    Onward rows skip s u := by
  refine ⟨second.synced, second.shown.trans first.shown, second.rest.trans first.rest, fun k here => ?_⟩
  obtain ⟨k', there, le⟩ := first.later k here
  obtain ⟨k'', further, le'⟩ := second.later k' there
  exact ⟨k'', further, le.trans le'⟩

theorem Synced.pass (reads : Reads read rows) (synced : Synced rows skip s) {slot : Option β × StreamKeyset}
    {tail : List (Option β × StreamKeyset)} (held : s.slots = slot :: tail) (unpeeked : s.peeked = none)
    (passed : slot.1.filter (!skip ·) = none) :
    Onward rows skip s (CursorStream.advanceRawSlot { s with scanKeyset := some slot.2 }) ∧
      (CursorStream.advanceRawSlot { s with scanKeyset := some slot.2 }).peeked = none ∧
        ((CursorStream.advanceRawSlot { s with scanKeyset := some slot.2 }).rest rows).length < (s.rest rows).length := by
  have same : { s with scanKeyset := some slot.2, peeked := none } = { s with scanKeyset := some slot.2 } := by rw [unpeeked]
  obtain ⟨next, rest⟩ := synced.advance reads held
  obtain ⟨scan, none⟩ := advance_scan s slot.2
  rw [same] at next rest scan none
  refine ⟨⟨next, ?_, ?_, fun k here => ⟨slot.2, scan, ?_⟩⟩, none, ?_⟩
  · rw [rest]
    exact (shown_cons_pass passed _).symm
  · rw [rest]
    exact List.suffix_cons _ _
  · have first : slot.swap ∈ s.rest rows := rest ▸ List.mem_cons_self
    exact ((mem_rest.mp first).2.2 k here).le
  · rw [rest, List.length_cons]
    exact Nat.lt_succ_self _

theorem lift_ok {γ : Type} (x : γ) : (liftM (Except.ok x : Except String γ) : Reading γ) = pure x := rfl

/-- The loop stops at the first row that is shown. -/
theorem Synced.skipFrom (reads : Reads read rows) {passes : Nat} (synced : Synced rows skip s) (unpeeked : s.peeked = none)
    (enough : (s.rest rows).length < passes) :
    ∃ t, s.skipFrom read skip passes = pure ((shown skip (s.rest rows)).head?, t) ∧ Onward rows skip s t ∧
      t.peeked.map Prod.fst = (shown skip (s.rest rows)).head? := by
  induction passes generalizing s with
  | zero => exact absurd enough (Nat.not_lt_zero _)
  | succ passes ih =>
      obtain ⟨t, ensured, ready, scan, peeked, rest, ended⟩ := synced.ensureSlots reads
      have here : Onward rows skip s t := by
        refine ⟨ready, by rw [rest], rest ▸ List.suffix_rfl, fun k member => ⟨k, scan ▸ member, le_refl _⟩⟩
      have unpeeked : t.peeked = none := peeked.trans unpeeked
      have onward {u : CursorStream β} (kept : Onward rows skip t u) (none : u.peeked = none)
          (fewer : (u.rest rows).length < (t.rest rows).length) :
          ∃ v, u.skipFrom read skip passes = pure ((shown skip (s.rest rows)).head?, v) ∧ Onward rows skip s v ∧
            v.peeked.map Prod.fst = (shown skip (s.rest rows)).head? := by
        rw [← rest] at enough
        obtain ⟨v, found, more, last⟩ := ih kept.synced none (by omega)
        rw [kept.shown, rest] at found last
        exact ⟨v, found, here.trans (kept.trans more), last⟩
      unfold CursorStream.skipFrom
      rw [ensured, lift_ok, pure_bind]
      obtain ⟨scanKeyset, exhausted, looked, slots, slotsExhausted⟩ := t
      match slots with
      | [] =>
          have none := ended rfl
          rw [← rest, none]
          refine ⟨⟨scanKeyset, true, looked, [], slotsExhausted⟩, rfl, ⟨⟨List.nil_prefix, fun some_ => absurd rfl some_, ready.scan,
            ready.peeked⟩, ?_, List.nil_suffix, fun k member => ⟨k, scan ▸ member, le_refl _⟩⟩, by rw [unpeeked]; rfl⟩
          rw [← rest, none]
          rfl
      | (none, k) :: tail =>
          obtain ⟨kept, none, fewer⟩ := ready.pass reads rfl unpeeked rfl
          exact onward kept none fewer
      | (some b, k) :: tail =>
          dsimp only
          split
          · rename_i skipped
            obtain ⟨kept, none, fewer⟩ := ready.pass reads rfl unpeeked (by simp [skipped])
            exact onward kept none fewer
          · rename_i taken
            have taken : skip b = false := by simpa using taken
            have first : (shown skip (s.rest rows)).head? = some b := by
              obtain ⟨back, same⟩ := ready.front
              rw [← rest, ← same]
              exact congrArg List.head? (shown_cons_keep taken _)
            rw [first]
            refine ⟨_, rfl, here.trans ⟨⟨ready.front, ready.whole, ready.scan, ?_⟩, rfl, List.suffix_rfl, ?_⟩, rfl⟩
            · rintro p member
              obtain rfl : (b, k) = p := Option.some.inj member
              exact ⟨rfl, taken⟩
            · exact fun k member => ⟨k, member, le_refl _⟩

/-- A row that was looked at is the next one that is shown. -/
theorem Synced.peeked_first (synced : Synced rows skip s) {b : β} {k : StreamKeyset} (peeked : s.peeked = some (b, k)) :
    (shown skip (s.rest rows)).head? = some b := by
  obtain ⟨first, kept⟩ := synced.peeked _ peeked
  obtain ⟨tail, held⟩ := List.head?_eq_some_iff.mp first
  obtain ⟨back, same⟩ := synced.front
  rw [held] at same
  rw [← same]
  exact congrArg List.head? (shown_cons_keep kept _)

theorem Synced.peek (reads : Reads read rows) {passes : Nat} (synced : Synced rows skip s)
    (enough : (s.rest rows).length < passes) :
    ∃ t, s.peek read skip passes = pure ((shown skip (s.rest rows)).head?, t) ∧ Onward rows skip s t ∧
      t.peeked.map Prod.fst = (shown skip (s.rest rows)).head? := by
  unfold CursorStream.peek
  match here : s.peeked with
  | none => exact synced.skipFrom reads here enough
  | some (b, k) =>
      have first := synced.peeked_first here
      rw [first]
      exact ⟨s, rfl, .refl synced, by rw [here]; rfl⟩

/-- The row that was looked at is taken, and the position moves to it. -/
theorem Synced.consume (reads : Reads read rows) (synced : Synced rows skip s) {b : β} (peeked : s.peeked.map Prod.fst = some b) :
    ∃ t k, s.consume = .ok t ∧ Synced rows skip t ∧ shown skip (s.rest rows) = b :: shown skip (t.rest rows) ∧
      t.rest rows <:+ s.rest rows ∧ t.scanKeyset = some k ∧ (k, some b) ∈ s.rest rows := by
  obtain ⟨⟨b', k⟩, here, rfl⟩ := Option.map_eq_some_iff.mp peeked
  obtain ⟨first, kept⟩ := synced.peeked _ here
  obtain ⟨tail, held⟩ := List.head?_eq_some_iff.mp first
  obtain ⟨next, rest⟩ := synced.advance reads held
  refine ⟨_, k, ?_, next, ?_, ?_, (advance_scan s k).1, ?_⟩
  · unfold CursorStream.consume
    rw [here]
  · rw [rest]
    exact shown_cons_keep kept _
  · rw [rest]
    exact List.suffix_cons _ _
  · rw [rest]
    exact List.mem_cons_self

end OmiLocal.Memory
