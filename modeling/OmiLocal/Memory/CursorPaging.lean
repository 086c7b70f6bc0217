import OmiLocal.Lib.Transition
import OmiLocal.Memory.AccountScans

/-!
# Following the cursor

A client follows the cursor from page to page while others write to the account.
A row that nobody touches is ahead of its scan until the page that shows it.
-/
namespace OmiLocal.Memory

open Lib Lib.Values Lib.Transition

variable {timestamp : DateTime → ℚ} {decode : Entries → Option MemoryFields} {p : Platform} {request : ListRequest} {account : Account}

/-! ## What is left is in order -/

theorem memoryLe_trans (a b c : MemoryDB) (first : memoryLe a b = true) (second : memoryLe b c = true) : memoryLe a c = true :=
  decide_eq_true ((of_decide_eq_true first).trans (of_decide_eq_true second))

theorem memoryLe_total (a b : MemoryDB) : (memoryLe a b || memoryLe b a) = true := by
  rcases le_total (memoryCursorSortKey a) (memoryCursorSortKey b) with le | ge
  · exact Bool.or_eq_true_iff.mpr (.inl (decide_eq_true le))
  · exact Bool.or_eq_true_iff.mpr (.inr (decide_eq_true ge))

theorem canonical_sorted {x : Scans} {rs : Readers} (serves : x.Serves rs) (c : CanonicalCursorStream) :
    (c.pending x.canonical).Pairwise fun a b => memoryCursorSortKey a < memoryCursorSortKey b := by
  refine List.pairwise_filterMap.mpr ?_
  refine (serves.canonical.sorted.sublist (rest_sublist _ _)).imp_of_mem ?_
  rintro ⟨k, v⟩ ⟨k', v'⟩ first second less a rfl b rfl
  have left : memoryKeyset a = k := serves.canonical_key _ ((rest_sublist _ _).mem first) a rfl
  have right : memoryKeyset b = k' := serves.canonical_key _ ((rest_sublist _ _).mem second) b rfl
  unfold memoryCursorSortKey
  rw [left, right]
  exact less

theorem records_sorted {rows : ScanRows HistoricalRecord} {read : ScanReader HistoricalRecord} (reads : Reads read rows)
    (keyed : ∀ row ∈ rows, ∀ record ∈ row.2, memoryKeyset record.1 = row.1) (s : CursorStream HistoricalRecord) :
    (recordsLeft rows s).Pairwise fun a b => memoryCursorSortKey a < memoryCursorSortKey b := by
  refine List.pairwise_map.mpr (List.pairwise_filterMap.mpr ?_)
  refine (reads.sorted.sublist (rest_sublist _ _)).imp_of_mem ?_
  rintro ⟨k, v⟩ ⟨k', v'⟩ first second less a left b right
  have left : memoryKeyset a.1 = k :=
    keyed _ ((rest_sublist _ _).mem first) a (Option.filter_eq_some_iff.mp left).1
  have right : memoryKeyset b.1 = k' :=
    keyed _ ((rest_sublist _ _).mem second) b (Option.filter_eq_some_iff.mp right).1
  unfold memoryCursorSortKey
  rw [left, right]
  exact less

theorem pending_sorted {x : Scans} {rs : Readers} (serves : x.Serves rs) (s : PageState) :
    (s.pending x).Pairwise fun a b => memoryCursorSortKey a.memory ≤ memoryCursorSortKey b.memory := by
  have le {xs : List MemoryDB} (sorted : xs.Pairwise fun a b => memoryCursorSortKey a < memoryCursorSortKey b) :
      xs.Pairwise fun a b => memoryLe a b = true := sorted.imp fun less => decide_eq_true less.le
  have historical : (s.historical.pending x).Pairwise fun a b => memoryLe a b = true :=
    List.pairwise_merge memoryLe_trans memoryLe_total _ _ (le (records_sorted serves.updated serves.updated_key _))
      (le (records_sorted serves.created serves.created_key _))
  have merged : (s.pending x).Pairwise fun a b => rowLe a b = true :=
    List.pairwise_merge (fun a b c => memoryLe_trans a.memory b.memory c.memory) (fun a b => memoryLe_total a.memory b.memory) _ _
      (List.pairwise_map.mpr (le (canonical_sorted serves _))) (List.pairwise_map.mpr historical)
  exact merged.imp fun h => of_decide_eq_true h

/-! ## Rows are told apart by their ids -/

theorem Shows.status (sound : account.Sound p) (plain : account.Plain request) {w : StoredRow} {row : Row}
    (shows : account.Shows timestamp decode request w row) :
    account.canonicalStatus w.id = if w.origin = .canonical then some .active else none := by
  cases w with
  | historical raw => exact shows.2.1
  | canonical item =>
      obtain ⟨inside, ⟨c, kept⟩, -⟩ := shows
      rw [scanSlot_ok (Account.Plain.range sound plain) inside] at kept
      have slot := congrArg Prod.fst (Except.ok.inj kept)
      unfold slotOf at slot
      dsimp only at slot
      split at slot
      · rename_i visible
        have active := itemVisible_active (Bool.and_eq_true_iff.mp visible).1
        change ((account.items.find? (·.memoryId == item.memoryId)).map (·.status)).or _ = some .active
        rw [find_of_mem sound.items_distinct inside, ← active]
        rfl
      · cases slot

theorem Shows.inj (sound : account.Sound p) (plain : account.Plain request) {w w' : StoredRow} {row row' : Row}
    (first : account.Shows timestamp decode request w row) (second : account.Shows timestamp decode request w' row')
    (same : w.id = w'.id) : w = w' := by
  have status := Shows.status sound plain first
  rw [same, Shows.status sound plain second] at status
  cases w with
  | canonical item =>
      cases w' with
      | canonical item' => exact congrArg _ (sound.items_distinct.eq first.1 second.1 same)
      | historical raw' => cases status
  | historical raw =>
      cases w' with
      | canonical item' => cases status
      | historical raw' => exact congrArg _ (List.inj_on_of_nodup_map sound.documents_distinct first.1 second.1 same)

theorem Shows.row_unique {w : StoredRow} {row row' : Row} (first : account.Shows timestamp decode request w row)
    (second : account.Shows timestamp decode request w row') : row = row' := by
  cases w with
  | canonical item => exact first.2.2.trans second.2.2.symm
  | historical raw =>
      obtain ⟨-, -, memory, read, rfl⟩ := first
      obtain ⟨-, -, memory', read', rfl⟩ := second
      rw [Option.some.inj (read.symm.trans read')]

theorem Shows.eq (sound : account.Sound p) (plain : account.Plain request) {w w' : StoredRow} {row row' : Row}
    (first : account.Shows timestamp decode request w row) (second : account.Shows timestamp decode request w' row')
    (same : row.memory.id = row'.memory.id) : w = w' ∧ row = row' := by
  rw [(Shows.key sound plain first).2.2, (Shows.key sound plain second).2.2] at same
  obtain rfl := Shows.inj sound plain first second same
  exact ⟨rfl, Shows.row_unique first second⟩

theorem id_of_key {a b : MemoryDB} (same : memoryCursorSortKey a = memoryCursorSortKey b) : a.id = b.id :=
  congrArg (fun k : ℤ ×ₗ String => (ofLex k).2) same

theorem historical_distinct (sound : account.Sound p) (plain : account.Plain request) (state : UniversalListCursorState) :
    ((PageState.start state).historical.pending (account.scans timestamp decode request)).Pairwise
      fun a b => memoryCursorSortKey a ≠ memoryCursorSortKey b := by
  have serves := Account.serves timestamp decode sound plain
  unfold HistoricalCursorStream.pending
  rw [(List.merge_perm_append memoryLe).pairwise_iff fun h => Ne.symm h]
  refine List.pairwise_append.mpr ⟨(records_sorted serves.updated serves.updated_key _).imp ne_of_lt,
    (records_sorted serves.created serves.created_key _).imp ne_of_lt, fun a first b second same => ?_⟩
  obtain ⟨-, k, member, -⟩ := mem_recordsLeft.mp first
  obtain ⟨raw, inside, present, -, -, found, read, rfl⟩ := mem_historicalRows.mp member
  obtain ⟨-, k', member', -⟩ := mem_recordsLeft.mp second
  obtain ⟨raw', inside', -, -, -, found', read', rfl⟩ := mem_historicalRows.mp member'
  obtain ⟨absent, read'⟩ := adaptScanPayload_drop.mp read'
  have ids := id_of_key same
  have own (memory : MemoryDB) : (truncateLockedMemoryPreview memory).id = memory.id :=
    congrArg StreamKeyset.memoryId (memoryKeyset_preview memory)
  rw [own, own, (adaptScanPayload_some read).1, (adaptScanPayload_some read').1] at ids
  obtain rfl := List.inj_on_of_nodup_map sound.documents_distinct inside inside' ids
  have present : raw.updatedAt.isSome = true := present
  rw [absent] at present
  cases present

/-- What is left is in the order of the keys, which are distinct. -/
theorem pending_strict (sound : account.Sound p) (plain : account.Plain request) (state : UniversalListCursorState) :
    (state.pending (account.scans timestamp decode request)).Pairwise
      fun a b => memoryCursorSortKey a.memory < memoryCursorSortKey b.memory := by
  have serves := Account.serves timestamp decode sound plain
  have distinct : (state.pending (account.scans timestamp decode request)).Pairwise
      fun a b => memoryCursorSortKey a.memory ≠ memoryCursorSortKey b.memory := by
    unfold UniversalListCursorState.pending PageState.pending
    rw [(List.merge_perm_append rowLe).pairwise_iff fun h => Ne.symm h]
    refine List.pairwise_append.mpr ⟨List.pairwise_map.mpr ((canonical_sorted serves _).imp ne_of_lt),
      List.pairwise_map.mpr (historical_distinct sound plain state), fun a first b second same => ?_⟩
    obtain ⟨item, shows, -⟩ := (mem_canonical_pending sound plain).mp first
    obtain ⟨raw, shows', -⟩ := (mem_historical_pending state).mp second
    cases (Shows.eq sound plain shows shows' (id_of_key same)).1
  exact ((pending_sorted serves _).and distinct).imp fun h => lt_of_le_of_ne h.1 h.2

/-! ## A listing -/

structure Listing where
  account : Account
  cursor : Option UniversalListCursorState
  finished : Bool
  emitted : List Row

def Listing.start (account : Account) : Listing := ⟨account, none, false, []⟩

inductive PagingAction where
  | page (limit : Int) (passes : Nat)
  | write (account : Account)

/-- The rows of an account, counted once for each scan. -/
def Account.size (account : Account) : Nat := account.items.length + 2 * account.documents.length

/-- The client asks for the next page, or someone writes. The number of passes is no limit of the code's: each loop gets more
than there are rows, and as many as it is given. -/
def Listing.act (timestamp : DateTime → ℚ) (decode : Entries → Option MemoryFields) (request : ListRequest) (s : Listing) :
    PagingAction → Option Listing
  | .page limit passes =>
      if s.finished || decide (passes ≤ s.account.size) then none
      else
        match (readPage timestamp decode s.account request passes limit s.cursor).run with
        | some (.ok (rows, next)) =>
            some { s with cursor := next, finished := next.isNone, emitted := s.emitted ++ rows }
        | _ => none
  | .write account => some { s with account := account }

/-- The listings of runs whose accounts all satisfy `holds`. -/
abbrev Followed (timestamp : DateTime → ℚ) (decode : Entries → Option MemoryFields) (request : ListRequest) (holds : Account → Prop) :
    Listing → Prop :=
  Reachable (fun s => ∃ account, holds account ∧ s = Listing.start account) fun s a t =>
    s.act timestamp decode request a = some t ∧ holds t.account

def Listing.state (request : ListRequest) (s : Listing) : UniversalListCursorState := s.cursor.getD (.first request)

/-- What the listing still has to show of its account. -/
def Listing.left (timestamp : DateTime → ℚ) (decode : Entries → Option MemoryFields) (request : ListRequest) (s : Listing) : List Row :=
  if s.finished then [] else (s.state request).pending (s.account.scans timestamp decode request)

def Listing.Ahead (request : ListRequest) (s : Listing) (w : StoredRow) : Prop := s.finished = false ∧ w.Ahead (s.state request)

/-- The account, and the cursor that the client holds, can be read. -/
structure Readable (p : Platform) (request : ListRequest) (s : Listing) : Prop where
  sound : s.account.Sound p
  plain : s.account.Plain request
  cursor : ∀ token ∈ s.cursor, token.Sound request

variable {s t : Listing}

theorem Readable.mem_left (readable : Readable p request s) {row : Row} :
    row ∈ s.left timestamp decode request ↔
      ∃ w : StoredRow, s.account.Shows timestamp decode request w row ∧ s.Ahead request w := by
  unfold Listing.left Listing.Ahead
  cases s.finished with
  | true => simp
  | false => simp [mem_pending readable.sound readable.plain]

theorem Readable.left_strict (timestamp : DateTime → ℚ) (decode : Entries → Option MemoryFields) (readable : Readable p request s) :
    (s.left timestamp decode request).Pairwise fun a b => memoryCursorSortKey a.memory < memoryCursorSortKey b.memory := by
  unfold Listing.left
  split
  · exact .nil
  · exact pending_strict readable.sound readable.plain _

theorem Account.within (timestamp : DateTime → ℚ) (decode : Entries → Option MemoryFields) (account : Account) {passes : Nat} (enough : account.size < passes) :
    (account.scans timestamp decode request).Within passes := by
  have documents (orderField : OrderField) : (orderField.documents account.documents).length ≤ account.documents.length := by
    unfold OrderField.documents
    rw [(Keyset.sortedBy_perm _ _).length_eq]
    exact List.length_filter_le _ _
  have updated := documents .updatedAt
  have created := documents .createdAt
  unfold Account.size at enough
  unfold Account.scans
  refine ⟨?_, ?_, ?_⟩
  · rw [List.length_map, (Keyset.sortedBy_perm _ _).length_eq]
    omega
  · rw [List.length_map]
    omega
  · rw [List.length_map]
    omega

/-! ## One step -/

/-- A page returns, shows the front of what is left, and leaves the rest. -/
theorem Readable.page (timestamp : DateTime → ℚ) (decode : Entries → Option MemoryFields) (readable : Readable p request s) (open_ : s.finished = false) (limit : Int) {passes : Nat}
    (enough : s.account.size < passes) :
    ∃ t, s.act timestamp decode request (.page limit passes) = some t ∧ Readable p request t ∧ t.account = s.account ∧
      t.emitted = s.emitted ++ (s.left timestamp decode request).take (boundedPageLimit limit) ∧
        t.left timestamp decode request = (s.left timestamp decode request).drop (boundedPageLimit limit) ∧
          (t.finished = true ↔ (s.left timestamp decode request).drop (boundedPageLimit limit) = []) := by
  have serves := Account.serves timestamp decode readable.sound readable.plain
  obtain ⟨next, returned, last, onward⟩ := readPage_spec serves (s.account.within timestamp decode enough) limit readable.cursor
  have left : s.left timestamp decode request = (s.cursor.getD (.first request)).pending (s.account.scans timestamp decode request) :=
    if_neg (by rw [open_]; exact Bool.false_ne_true)
  rw [← left] at returned last onward
  refine ⟨{ s with cursor := next, finished := next.isNone, emitted := s.emitted ++ (s.left timestamp decode request).take _ },
    ?_, ⟨readable.sound, readable.plain, fun token here => (onward token here).1⟩, rfl, rfl, ?_, ?_⟩
  · unfold Listing.act
    dsimp only
    rw [open_, Bool.false_or, if_neg (by simp [enough]), returned]
    rfl
  · cases next with
    | none => exact (last.mp rfl).symm
    | some state => exact (onward state rfl).2
  · exact Option.isNone_iff_eq_none.trans last

theorem act_page {limit : Int} {passes : Nat} (done : s.act timestamp decode request (.page limit passes) = some t) :
    s.finished = false ∧ s.account.size < passes := by
  unfold Listing.act at done
  dsimp only at done
  split at done
  · cases done
  · rename_i running
    simpa using running

theorem act_page_account {limit : Int} {passes : Nat} (done : s.act timestamp decode request (.page limit passes) = some t) :
    t.account = s.account := by
  unfold Listing.act at done
  dsimp only at done
  split at done
  · cases done
  · split at done
    · obtain rfl := Option.some.inj done
      rfl
    · cases done

/-- A step keeps the listing readable as long as its account is. -/
theorem Readable.act (readable : Readable p request s) {a : PagingAction} (done : s.act timestamp decode request a = some t)
    (sound : t.account.Sound p) (plain : t.account.Plain request) : Readable p request t := by
  cases a with
  | write account =>
      obtain rfl := Option.some.inj done
      exact ⟨sound, plain, readable.cursor⟩
  | page limit passes =>
      obtain ⟨open_, enough⟩ := act_page done
      obtain ⟨t', done', readable', -⟩ := readable.page timestamp decode open_ limit enough
      obtain rfl := Option.some.inj (done.symm.trans done')
      exact readable'

theorem Followed.readable {holds : Account → Prop} (domain : ∀ account, holds account → account.Sound p ∧ account.Plain request)
    (followed : Followed timestamp decode request holds s) : Readable p request s ∧ holds s.account := by
  induction followed with
  | start initial =>
      obtain ⟨account, held, rfl⟩ := initial
      exact ⟨⟨(domain account held).1, (domain account held).2, fun _ none => by cases none⟩, held⟩
  | next _ step ih => exact ⟨ih.1.act step.1 (domain _ step.2).1 (domain _ step.2).2, step.2⟩

/-! ## A row that stays -/

/-- The row of `w` among those that were emitted. -/
def Listing.emittedOf (s : Listing) (w : StoredRow) : List Row :=
  s.emitted.filter fun row => decide (row.origin = w.origin ∧ row.memory.id = w.id)

/-- The row is emitted once its scan has reached it, and comes behind all rows that were emitted before. -/
structure Watched (request : ListRequest) (w : StoredRow) (row : Row) (s : Listing) : Prop where
  before : s.Ahead request w → s.emittedOf w = []
  after : ¬s.Ahead request w → s.emittedOf w = [row]
  order : s.Ahead request w → ∀ e ∈ s.emitted, memoryCursorSortKey e.memory ≤ memoryCursorSortKey row.memory

theorem watched_start (request : ListRequest) (w : StoredRow) (row : Row) (account : Account) :
    Watched request w row (Listing.start account) := by
  have ahead : (Listing.start account).Ahead request w := by
    refine ⟨rfl, ?_⟩
    cases w with
    | canonical item => exact ⟨rfl, fun k none => by cases none⟩
    | historical raw =>
        cases order : raw.updatedAt with
        | some t => exact (ahead_updated order).mpr ⟨rfl, fun k none => by cases none⟩
        | none => exact (ahead_created order).mpr ⟨rfl, fun k none => by cases none⟩
  exact ⟨fun _ => rfl, fun gone => absurd ahead gone, fun _ e none => absurd none List.not_mem_nil⟩

theorem Readable.ahead_iff (readable : Readable p request s) {w : StoredRow} {row : Row}
    (shows : s.account.Shows timestamp decode request w row) :
    s.Ahead request w ↔ row ∈ s.left timestamp decode request := by
  rw [readable.mem_left]
  constructor
  · exact fun ahead => ⟨w, shows, ahead⟩
  · rintro ⟨w', shows', ahead⟩
    obtain ⟨rfl, -⟩ := Shows.eq readable.sound readable.plain shows shows' rfl
    exact ahead

/-- Among the rows that are left, only the row itself has its origin and id. -/
theorem Readable.match_left (readable : Readable p request s) {w : StoredRow} {row : Row}
    (shows : s.account.Shows timestamp decode request w row) {e : Row} (left : e ∈ s.left timestamp decode request) :
    (e.origin = w.origin ∧ e.memory.id = w.id) ↔ e = row := by
  obtain ⟨w', shows', -⟩ := readable.mem_left.mp left
  obtain ⟨-, origin, id⟩ := Shows.key readable.sound readable.plain shows
  constructor
  · rintro ⟨-, same⟩
    exact (Shows.eq readable.sound readable.plain shows' shows (same.trans id.symm)).2
  · rintro rfl
    exact ⟨origin, id⟩

theorem Watched.page (readable : Readable p request s) {w : StoredRow} {row : Row}
    (shows : s.account.Shows timestamp decode request w row) (watched : Watched request w row s) {limit : Int} {passes : Nat}
    (done : s.act timestamp decode request (.page limit passes) = some t) : Watched request w row t := by
  obtain ⟨open_, enough⟩ := act_page done
  obtain ⟨t', done', readable', account, emitted, left, -⟩ := readable.page timestamp decode open_ limit enough
  obtain rfl := Option.some.inj (done.symm.trans done')
  have sorted := readable.left_strict timestamp decode
  have whole := List.take_append_drop (boundedPageLimit limit) (s.left timestamp decode request)
  have shows' : t.account.Shows timestamp decode request w row := account ▸ shows
  have now := readable.ahead_iff shows
  have later := readable'.ahead_iff shows'
  rw [left] at later
  have matched : ((s.left timestamp decode request).take (boundedPageLimit limit)).filter
      (fun e => decide (e.origin = w.origin ∧ e.memory.id = w.id)) =
        ((s.left timestamp decode request).take (boundedPageLimit limit)).filter fun e => decide (e = row) :=
    List.filter_congr fun e member => decide_eq_decide.mpr (readable.match_left shows (List.mem_of_mem_take member))
  have of : t.emittedOf w = s.emittedOf w ++
      ((s.left timestamp decode request).take (boundedPageLimit limit)).filter fun e => decide (e = row) := by
    unfold Listing.emittedOf
    rw [emitted, List.filter_append, matched]
  rw [← whole, List.pairwise_append] at sorted
  obtain ⟨front, -, across⟩ := sorted
  have nodup : ((s.left timestamp decode request).take (boundedPageLimit limit)).Nodup := front.imp fun less same =>
    absurd less (by rw [same]; exact lt_irrefl _)
  have absent (none : row ∉ (s.left timestamp decode request).take (boundedPageLimit limit)) :
      ((s.left timestamp decode request).take (boundedPageLimit limit)).filter (fun e => decide (e = row)) = [] :=
    List.filter_eq_nil_iff.mpr fun e member => by
      rw [decide_eq_true_iff]
      rintro rfl
      exact none member
  refine ⟨fun ahead => ?_, fun passed => ?_, fun ahead e member => ?_⟩
  · have behind := later.mp ahead
    rw [of, watched.before (now.mpr (List.mem_of_mem_drop behind)), absent, List.append_nil]
    exact fun here => lt_irrefl _ (across row here row behind)
  · have gone : row ∉ (s.left timestamp decode request).drop (boundedPageLimit limit) := fun behind => passed (later.mpr behind)
    by_cases ahead : s.Ahead request w
    · have here : row ∈ (s.left timestamp decode request).take (boundedPageLimit limit) := by
        have all := now.mp ahead
        rw [← whole] at all
        exact (List.mem_append.mp all).resolve_right gone
      rw [of, watched.before ahead, List.nil_append]
      have once : ((s.left timestamp decode request).take (boundedPageLimit limit)).filter (fun e => decide (e = row)) =
          ((s.left timestamp decode request).take (boundedPageLimit limit)).filter (· == row) :=
        List.filter_congr fun e _ => rfl
      rw [once, List.filter_beq, List.count_eq_one_of_mem nodup here]
      rfl
    · have none : row ∉ s.left timestamp decode request := fun all => ahead (now.mpr all)
      rw [of, watched.after ahead, absent fun here => none (List.mem_of_mem_take here), List.append_nil]
  · have behind := later.mp ahead
    rw [emitted] at member
    rcases List.mem_append.mp member with old | new
    · exact watched.order (now.mpr (List.mem_of_mem_drop behind)) e old
    · exact (across e new row behind).le

theorem Watched.act (readable : Readable p request s) {w : StoredRow} {row : Row}
    (shows : s.account.Shows timestamp decode request w row) (watched : Watched request w row s) {a : PagingAction}
    (done : s.act timestamp decode request a = some t) : Watched request w row t := by
  cases a with
  | write account =>
      obtain rfl := Option.some.inj done
      exact ⟨watched.before, watched.after, watched.order⟩
  | page limit passes => exact watched.page readable shows done

/-! ## The end of the listing -/

theorem boundedPageLimit_pos (limit : Int) : 0 < boundedPageLimit limit := by
  have one : (1 : Int) ≤ max 1 (min (if limit = 0 then 100 else limit) maxPageSize) := le_max_left _ _
  unfold boundedPageLimit
  omega

theorem shown_length {β : Type} (skip : β → Bool) (rows : ScanRows β) (s : CursorStream β) :
    (shown skip (s.rest rows)).length ≤ rows.length :=
  (List.length_filterMap_le _ _).trans (rest_sublist rows s).length_le

theorem left_length (s : Listing) : (s.left timestamp decode request).length ≤ s.account.size := by
  have documents (orderField : OrderField) : (orderField.documents s.account.documents).length ≤ s.account.documents.length := by
    unfold OrderField.documents
    rw [(Keyset.sortedBy_perm _ _).length_eq]
    exact List.length_filter_le _ _
  unfold Listing.left
  split
  · exact Nat.zero_le _
  · unfold UniversalListCursorState.pending PageState.pending HistoricalCursorStream.pending
    rw [List.length_merge, List.length_map, List.length_map, List.length_merge]
    have canonical : ((PageState.start (s.state request)).canonical.pending
        (s.account.scans timestamp decode request).canonical).length ≤ s.account.items.length := by
      refine ((List.length_filterMap_le _ _).trans (rest_sublist _ _).length_le).trans ?_
      unfold Account.scans
      rw [List.length_map, (Keyset.sortedBy_perm _ _).length_eq]
    have updated : (recordsLeft (s.account.scans timestamp decode request).updated
        (PageState.start (s.state request)).historical.updated).length ≤ s.account.documents.length := by
      unfold recordsLeft
      rw [List.length_map]
      refine (shown_length _ _ _).trans ?_
      unfold Account.scans
      rw [List.length_map]
      exact documents _
    have created : (recordsLeft (s.account.scans timestamp decode request).created
        (PageState.start (s.state request)).historical.created).length ≤ s.account.documents.length := by
      unfold recordsLeft
      rw [List.length_map]
      refine (shown_length _ _ _).trans ?_
      unfold Account.scans
      rw [List.length_map]
      exact documents _
    unfold Account.size
    omega

/-- Without further writes, the pages come to an end. -/
theorem Readable.ends (readable : Readable p request s) (open_ : s.finished = false) {pages : List (Int × Nat)}
    (enough : ∀ page ∈ pages, s.account.size < page.2) (many : (s.left timestamp decode request).length < pages.length) :
    ∃ n t, (pages.take n).foldlM (fun s page => s.act timestamp decode request (.page page.1 page.2)) s = some t ∧
      t.finished = true := by
  induction pages generalizing s with
  | nil => exact absurd many (Nat.not_lt_zero _)
  | cons page pages ih =>
      obtain ⟨t, done, readable', account, -, left, last⟩ := readable.page timestamp decode open_ page.1
        (enough page List.mem_cons_self)
      cases ended : t.finished with
      | true => exact ⟨1, t, by rw [List.take_succ_cons, List.take_zero, List.foldlM_cons, done]; rfl, ended⟩
      | false =>
          have more : (s.left timestamp decode request).drop (boundedPageLimit page.1) ≠ [] := by
            intro empty
            rw [last.mpr empty] at ended
            cases ended
          have positive := boundedPageLimit_pos page.1
          have some_ : 0 < (t.left timestamp decode request).length := by
            rw [left]
            exact List.length_pos_iff.mpr more
          rw [List.length_cons] at many
          rw [left, List.length_drop] at some_
          obtain ⟨n, u, followed, finished⟩ := ih readable' ended
            (fun q member => account ▸ enough q (List.mem_cons_of_mem _ member)) (by rw [left, List.length_drop]; omega)
          refine ⟨n + 1, u, ?_, finished⟩
          rw [List.take_succ_cons, List.foldlM_cons, done]
          exact followed

/-! ## Following the cursor to its end -/

/-- The watched rows among the emitted ones are in the order of their keys. -/
def Listing.InOrder (s : Listing) (watched : StoredRow → Row → Prop) : Prop :=
  s.emitted.Pairwise fun a b => (∃ w, watched w a) → (∃ w, watched w b) →
    memoryCursorSortKey a.memory < memoryCursorSortKey b.memory

theorem inOrder_page {watched : StoredRow → Row → Prop} (readable : Readable p request s)
    (shows : ∀ w row, watched w row → s.account.Shows timestamp decode request w row)
    (each : ∀ w row, watched w row → Watched request w row s) (order : s.InOrder watched) {limit : Int} {passes : Nat}
    (done : s.act timestamp decode request (.page limit passes) = some t) : t.InOrder watched := by
  obtain ⟨open_, enough⟩ := act_page done
  obtain ⟨t', done', -, -, emitted, -⟩ := readable.page timestamp decode open_ limit enough
  obtain rfl := Option.some.inj (done.symm.trans done')
  unfold Listing.InOrder
  rw [emitted]
  refine List.pairwise_append.mpr ⟨order, ?_, fun a old b new => ?_⟩
  · exact ((readable.left_strict timestamp decode).sublist (List.take_sublist _ _)).imp
      fun less _ _ => less
  · rintro ⟨w, first⟩ ⟨w', second⟩
    have ahead := (readable.ahead_iff (shows w' b second)).mpr (List.mem_of_mem_take new)
    refine lt_of_le_of_ne ((each w' b second).order ahead a old) fun same => ?_
    -- A row that was emitted before is not ahead.
    obtain ⟨rfl, rfl⟩ := Shows.eq readable.sound readable.plain (shows w a first) (shows w' b second) (id_of_key same)
    obtain ⟨-, origin, id⟩ := Shows.key readable.sound readable.plain (shows w a first)
    have here : a ∈ s.emittedOf w := List.mem_filter.mpr ⟨old, decide_eq_true ⟨origin, id⟩⟩
    rw [(each w a first).before ahead] at here
    exact absurd here List.not_mem_nil

/-- An id whose status stays is emitted from the side that its status names. -/
theorem origin_of_emitted {memoryId : String} {status : Option MemoryItemStatus} {holds : Account → Prop}
    (domain : ∀ account, holds account → account.Sound p ∧ account.Plain request)
    (fixed : ∀ account, holds account → account.canonicalStatus memoryId = status)
    (followed : Followed timestamp decode request holds s) :
    ∀ row ∈ s.emitted, row.memory.id = memoryId → status = if row.origin = .canonical then some .active else none := by
  induction followed with
  | start initial =>
      obtain ⟨account, -, rfl⟩ := initial
      exact fun row none => absurd none List.not_mem_nil
  | @next s t a before step ih =>
      obtain ⟨readable, held⟩ := Followed.readable domain before
      obtain ⟨done, -⟩ := step
      cases a with
      | write account =>
          obtain rfl := Option.some.inj done
          exact ih
      | page limit passes =>
          obtain ⟨open_, enough⟩ := act_page done
          obtain ⟨t', done', -, -, emitted, -⟩ := readable.page timestamp decode open_ limit enough
          obtain rfl := Option.some.inj (done.symm.trans done')
          intro row member named
          rw [emitted] at member
          rcases List.mem_append.mp member with old | new
          · exact ih row old named
          · obtain ⟨w, shows, -⟩ := readable.mem_left.mp (List.mem_of_mem_take new)
            obtain ⟨-, origin, id⟩ := Shows.key readable.sound readable.plain shows
            have known := Shows.status readable.sound readable.plain shows
            rw [← id, named, fixed _ held] at known
            rw [known, origin]

theorem followed_rows {watched : StoredRow → Row → Prop} {holds : Account → Prop}
    (domain : ∀ account, holds account → account.Sound p ∧ account.Plain request)
    (shows : ∀ account, holds account → ∀ w row, watched w row → account.Shows timestamp decode request w row)
    (followed : Followed timestamp decode request holds s) :
    (∀ w row, watched w row → Watched request w row s) ∧ s.InOrder watched := by
  induction followed with
  | start initial =>
      obtain ⟨account, -, rfl⟩ := initial
      exact ⟨fun w row _ => watched_start request w row account, .nil⟩
  | @next s t a before step ih =>
      obtain ⟨readable, held⟩ := Followed.readable domain before
      obtain ⟨each, order⟩ := ih
      obtain ⟨done, -⟩ := step
      refine ⟨fun w row here => (each w row here).act readable (shows _ held w row here) done, ?_⟩
      cases a with
      | write account =>
          obtain rfl := Option.some.inj done
          exact order
      | page limit passes => exact inOrder_page readable (shows _ held) each order done

/-- In accounts without the rows that the scans lose: without writes the cursor comes to its end; the rows that stay are
emitted in order and, by the end, exactly once; and no id whose status stays is emitted from both origins. -/
theorem cursor_pages_complete (timestamp : DateTime → ℚ) (decode : Entries → Option MemoryFields) (p : Platform)
    (request : ListRequest) :
    (∀ s, Followed timestamp decode request (fun account => account.Sound p ∧ account.Plain request) s → s.finished = false →
      ∀ pages : List (Int × Nat), (∀ page ∈ pages, s.account.size < page.2) → s.account.size < pages.length →
        ∃ n t, (pages.take n).foldlM (fun s page => s.act timestamp decode request (.page page.1 page.2)) s = some t ∧
          t.finished = true) ∧
    (∀ (watched : StoredRow → Row → Prop) (s : Listing), Followed timestamp decode request (fun account => (account.Sound p ∧
        account.Plain request) ∧ ∀ w row, watched w row → account.Shows timestamp decode request w row) s →
      s.InOrder watched ∧ (s.finished = true → ∀ w row, watched w row → s.emittedOf w = [row])) ∧
    ∀ (memoryId : String) (status : Option MemoryItemStatus) (s : Listing), Followed timestamp decode request (fun account =>
        (account.Sound p ∧ account.Plain request) ∧ account.canonicalStatus memoryId = status) s →
      ¬((∃ row ∈ s.emitted, row.memory.id = memoryId ∧ row.origin = .canonical) ∧
        ∃ row ∈ s.emitted, row.memory.id = memoryId ∧ row.origin = .historical) := by
  refine ⟨fun s followed open_ pages enough many => ?_, fun watched s followed => ?_, fun memoryId status s followed => ?_⟩
  · exact (followed.readable fun _ held => held).1.ends open_ enough ((left_length s).trans_lt many)
  · obtain ⟨each, order⟩ := followed_rows (fun _ held => held.1) (fun _ held => held.2) followed
    refine ⟨order, fun finished w row here => (each w row here).after fun ahead => ?_⟩
    exact Bool.noConfusion (finished.symm.trans ahead.1)
  · rintro ⟨⟨row, first, named, origin⟩, row', second, named', origin'⟩
    have one := origin_of_emitted (fun _ held => held.1) (fun _ held => held.2) followed row first named
    have other := origin_of_emitted (fun _ held => held.1) (fun _ held => held.2) followed row' second named'
    rw [one, origin, origin'] at other
    cases other

/-! ## Two rows that the scans lose -/

/-- An archived item, asked for with `include_archive`. -/
def archivedAccount : Account := ⟨[{ sampleItem "a" with tier := .archive, updatedAt := ⟨3, true⟩ }], [], []⟩

def archiveRequest : ListRequest := ⟨none, false, true, 10⟩

def oldDocument (id : String) (createdAt : Int) : HistoricalDocument := ⟨id, some id, none, some createdAt, none, none, none, [], []⟩

/-- Two documents created before 1970. -/
def oldAccount : Account := ⟨[], [oldDocument "a" (-1), oldDocument "b" (-2)], []⟩

def plainFields (_ : Entries) : Option MemoryFields := some ⟨"note", false, []⟩

def oldRow : Row := ⟨.historical, ⟨"a", "note", -1, -1, false, "public", .longTerm, [], []⟩⟩

/-- The archived item is not emitted at all; the older document is emitted on every page. -/
theorem row_omitted_and_row_repeated :
    (¬∀ (timestamp : DateTime → ℚ) (decode : Entries → Option MemoryFields) (p : Platform) (request : ListRequest)
      (watched : StoredRow → Row → Prop) (s : Listing), Followed timestamp decode request (fun account => account.Sound p ∧
        ∀ w row, watched w row → account.Shows timestamp decode request w row) s →
      s.finished = true → ∀ w row, watched w row → s.emittedOf w = [row]) ∧
    ¬∀ (timestamp : DateTime → ℚ) (decode : Entries → Option MemoryFields) (p : Platform) (request : ListRequest)
      (watched : StoredRow → Row → Prop) (s : Listing), request.includeArchive = false →
      Followed timestamp decode request (fun account => account.Sound p ∧
        ∀ w row, watched w row → account.Shows timestamp decode request w row) s → s.InOrder watched := by
  constructor
  · intro complete
    have parsed : ∀ i ∈ archivedAccount.items, (i.parse samplePlatform).toOption.isSome = true := by decide +kernel
    have sound : archivedAccount.Sound samplePlatform := by
      refine ⟨List.nodup_singleton _, fun i member => ?_, by decide, by decide, by decide⟩
      cases here : i.parse samplePlatform with
      | error e =>
          have done := parsed i member
          rw [here] at done
          cases done
      | ok m => exact ((MemoryItem.parse_ok i m).mp here).1
    obtain ⟨item, only⟩ : ∃ item, archivedAccount.items = [item] := ⟨_, rfl⟩
    have visible : ∀ i ∈ archivedAccount.items, (itemVisible archiveRequest i &&
        !suppressed seconds archivedAccount.items archiveRequest i) = true := by decide +kernel
    have inside : item ∈ archivedAccount.items := only ▸ List.mem_singleton_self item
    have shows : archivedAccount.Shows seconds plainFields archiveRequest (.canonical item)
        ⟨.canonical, truncateLockedMemoryPreview (memoryItemToMemorydb item)⟩ := by
      refine ⟨inside, ⟨_, (scanSlot_ok (fun i member => ?_) inside).trans
        (congrArg Except.ok (Prod.ext (if_pos (visible item inside)) rfl))⟩, rfl⟩
      have archived : ∀ i ∈ archivedAccount.items, i.tier ≠ .shortTerm := by decide
      exact fun short => absurd short (archived i member)
    have run : ((Listing.start archivedAccount).act seconds plainFields archiveRequest (.page 100 5)).map
        (fun t => (t.finished, t.emitted)) = some (true, []) := by decide +kernel
    obtain ⟨t, done, result⟩ := Option.map_eq_some_iff.mp run
    have held : ∀ w row, (w = .canonical item ∧ row = ⟨.canonical, truncateLockedMemoryPreview (memoryItemToMemorydb item)⟩) →
        archivedAccount.Shows seconds plainFields archiveRequest w row := fun w row here => here.1 ▸ here.2 ▸ shows
    have followed : Followed seconds plainFields archiveRequest (fun account => account.Sound samplePlatform ∧ ∀ w row,
        (w = .canonical item ∧ row = ⟨.canonical, truncateLockedMemoryPreview (memoryItemToMemorydb item)⟩) →
          account.Shows seconds plainFields archiveRequest w row) t := by
      refine .next (.start ⟨_, ⟨sound, held⟩, rfl⟩) ⟨done, ?_⟩
      have same : t.account = archivedAccount := act_page_account done
      rw [same]
      exact ⟨sound, held⟩
    have once := complete _ _ _ _ _ t followed (congrArg Prod.fst result) _ _ ⟨rfl, rfl⟩
    have none : t.emitted = [] := congrArg Prod.snd result
    unfold Listing.emittedOf at once
    rw [none] at once
    cases once
  · intro ordered
    have sound : oldAccount.Sound samplePlatform :=
      ⟨List.nodup_nil, fun i member => absurd member List.not_mem_nil, fun i member => absurd member List.not_mem_nil, by decide,
        by decide⟩
    have shows : oldAccount.Shows seconds plainFields sampleRequest (.historical (oldDocument "a" (-1))) oldRow := by
      refine ⟨List.mem_cons_self, rfl, oldRow.memory, by decide +kernel, by decide⟩
    have held : ∀ w row, (w = .historical (oldDocument "a" (-1)) ∧ row = oldRow) →
        oldAccount.Shows seconds plainFields sampleRequest w row := fun w row here => here.1 ▸ here.2 ▸ shows
    have run : ((Listing.start oldAccount).act seconds plainFields sampleRequest (.page 1 9) >>= fun s =>
        s.act seconds plainFields sampleRequest (.page 1 9)).map (·.emitted) = some [oldRow, oldRow] := by decide +kernel
    obtain ⟨t, done, result⟩ := Option.map_eq_some_iff.mp run
    obtain ⟨s, first, second⟩ := Option.bind_eq_some_iff.mp done
    have account : s.account = oldAccount := act_page_account first
    have followed : Followed seconds plainFields sampleRequest (fun account => account.Sound samplePlatform ∧ ∀ w row,
        (w = .historical (oldDocument "a" (-1)) ∧ row = oldRow) →
          account.Shows seconds plainFields sampleRequest w row) t := by
      refine .next (.next (.start ⟨_, ⟨sound, held⟩, rfl⟩) ⟨first, ?_⟩) ⟨second, ?_⟩
      · rw [account]
        exact ⟨sound, held⟩
      · rw [act_page_account second, account]
        exact ⟨sound, held⟩
    have order := ordered _ _ _ _ _ t rfl followed
    unfold Listing.InOrder at order
    rw [result] at order
    exact lt_irrefl _ ((List.pairwise_cons.mp order).1 oldRow List.mem_cons_self ⟨_, rfl, rfl⟩ ⟨_, rfl, rfl⟩)

end OmiLocal.Memory
