import OmiLocal.Wals.UploadDrain

/-!
# Claims of live captures

The server fixes one set of files for a conversation when it is claimed. A batch that passes
`canClaimLiveCapture` holds all candidates of its conversation, since it consists of such and
is as long as their list.
-/
namespace OmiLocal.Wals.Phone
open Lib LocalWalSync

def Running.files : Running → List Nat
  | .uploadingBatch _ batchWals _ => batchWals
  | .uploadingWal walToSync _ => [walToSync]
  | _ => []

structure Inv (s : LocalWalSync) : Prop where
  distinct : (Dict.keys s.wals).Nodup
  known : ∀ k ∈ Dict.keys s.wals, k < s.nextObject
  sending : ∀ k ∈ s.running.files, k < s.nextObject
  given : ∀ k ∈ s.uploadedUnclaimed, k < s.nextObject
  taken : ∀ e ∈ s.wals, e.1 ∈ s.uploadedUnclaimed → e.2.status ≠ .miss

theorem inv_fresh {s : LocalWalSync} (fresh : Fresh s) : Inv s := by
  obtain ⟨distinct, known, idle, -, nothing⟩ := fresh
  constructor
  · exact distinct
  · exact known
  · simp [idle, Running.files]
  · simp [nothing]
  · simp [nothing]

/-! ## Changes of the recordings -/

variable {s t : LocalWalSync}

/-- A change that keeps the objects and makes none of them `miss`. -/
structure Retouch (g : Nat × Wal → Nat × Wal) : Prop where
  object : ∀ e, (g e).1 = e.1
  miss : ∀ e, (g e).2.status = .miss → e.2.status = .miss

theorem Retouch.keys {g : Nat × Wal → Nat × Wal} (r : Retouch g) (wals : Tracked) :
    Dict.keys (wals.map g) = Dict.keys wals := by
  unfold Dict.keys
  rw [List.map_map]
  exact List.map_congr_left fun e _ => r.object e

theorem Inv.retouch {g : Nat × Wal → Nat × Wal} (inv : Inv s) (r : Retouch g) : Inv { s with wals := s.wals.map g } := by
  have keys := r.keys s.wals
  constructor
  · exact keys ▸ inv.distinct
  · exact keys ▸ inv.known
  · exact inv.sending
  · exact inv.given
  · intro e member inside
    obtain ⟨before, there, rfl⟩ := List.mem_map.mp member
    exact fun miss => inv.taken before there (r.object before ▸ inside) (r.miss before miss)

theorem retouch_ite {p : Nat × Wal → Prop} [DecidablePred p] {f : Wal → Wal}
    (f_miss : ∀ w, (f w).status = .miss → w.status = .miss) : Retouch fun e => if p e then (e.1, f e.2) else e := by
  constructor
  · intro e
    split <;> rfl
  · intro e
    split
    · exact f_miss e.2
    · exact id

theorem Inv.change (inv : Inv s) (objects : List Nat) {f : Wal → Wal}
    (f_miss : ∀ w, (f w).status = .miss → w.status = .miss) : Inv (s.change objects f) :=
  inv.retouch (retouch_ite (p := fun e => e.1 ∈ objects) f_miss)

theorem Inv.flush (inv : Inv s) : Inv s.flush :=
  inv.retouch ⟨fun _ => rfl, fun e miss => by rwa [Wal.flushed_status] at miss⟩

theorem Inv.stampConversationId (inv : Inv s) (sessionStartSeconds : Int) (conversationId : String) :
    Inv (s.stampConversationId sessionStartSeconds conversationId) :=
  inv.retouch (retouch_ite (f := fun w => { w with conversationId := some conversationId }) fun _ miss => miss)

theorem Inv.retireOutsideRecoveryWindow (inv : Inv s) (rejectedBatch : List Nat) :
    Inv (s.retireOutsideRecoveryWindow rejectedBatch) := by
  unfold LocalWalSync.retireOutsideRecoveryWindow
  split
  · exact inv
  · exact inv.retouch (retouch_ite (f := Wal.markOutsideRecoveryWindow) fun _ miss => by cases miss)

theorem Inv.goOn (inv : Inv s) (running : Running) (sending : ∀ k ∈ running.files, k < s.nextObject) :
    Inv { s with running := running } := by
  exact ⟨inv.distinct, inv.known, sending, inv.given, inv.taken⟩

theorem Inv.captured (inv : Inv s) (wal : Wal) :
    Inv { s with wals := s.wals ++ [(s.nextObject, wal)], nextObject := s.nextObject + 1 } := by
  have keys : Dict.keys (s.wals ++ [(s.nextObject, wal)]) = Dict.keys s.wals ++ [s.nextObject] := List.map_append
  have below {k : Nat} (small : k < s.nextObject) : k < s.nextObject + 1 := Nat.lt_succ_of_lt small
  constructor
  · rw [keys]
    refine List.nodup_append.mpr ⟨inv.distinct, List.nodup_singleton _, ?_⟩
    intro k old new last
    rw [List.mem_singleton.mp last]
    exact Nat.ne_of_lt (inv.known k old)
  · rw [keys]
    intro k member
    rcases List.mem_append.mp member with old | last
    · exact below (inv.known k old)
    · rw [List.mem_singleton.mp last]
      exact Nat.lt_succ_self _
  · exact fun k member => below (inv.sending k member)
  · exact fun k member => below (inv.given k member)
  · intro e member inside
    rcases List.mem_append.mp member with old | last
    · exact inv.taken e old inside
    · rw [List.mem_singleton.mp last] at inside
      exact absurd (inv.given _ inside) (Nat.lt_irrefl _)

/-! ## Answers -/

theorem Inv.accept (inv : Inv s) {files : List Nat} (known : ∀ k ∈ files, k < s.nextObject) (claimLiveCapture : Bool)
    {f : Wal → Wal} (done : ∀ w, (f w).status ≠ .miss) : Inv (s.accept files claimLiveCapture f) := by
  have changed := inv.change files (f := f) fun w miss => absurd miss (done w)
  have settled : ∀ e ∈ (s.change files f).wals, e.1 ∈ files → e.2.status ≠ .miss := by
    intro e member inside
    obtain ⟨before, _, rfl⟩ := List.mem_map.mp member
    by_cases sent : before.1 ∈ files
    · rw [if_pos sent]
      exact done _
    · rw [if_neg sent] at inside
      exact absurd inside sent
  unfold LocalWalSync.accept
  constructor
  · exact changed.distinct
  · exact changed.known
  · exact changed.sending
  · dsimp only
    split
    · exact inv.given
    · intro k member
      exact (List.mem_append.mp member).elim (inv.given k) (known k)
  · intro e member inside
    dsimp only at inside
    split at inside
    · exact changed.taken e member inside
    · rcases List.mem_append.mp inside with before | now
      · exact changed.taken e member before
      · exact settled e member now

theorem Inv.answered (inv : Inv s) {files : List Nat} (known : ∀ k ∈ files, k < s.nextObject) (claimLiveCapture : Bool)
    {next : Running} (free : next.files = []) (result : UploadResult) :
    Inv (s.answered files claimLiveCapture next result) := by
  have nothing {bound : Nat} : ∀ k ∈ next.files, k < bound := by simp [free]
  cases result with
  | completed => exact (inv.accept known claimLiveCapture fun _ => by simp).goOn next nothing
  | queued jobId => exact (inv.accept known claimLiveCapture fun _ => by simp).goOn next nothing
  | rateLimited => exact inv.goOn .idle (by simp [Running.files])
  | quarantined => exact inv.goOn .idle (by simp [Running.files])
  | recoveryWindowExceeded => exact (inv.retireOutsideRecoveryWindow files).goOn next nothing
  | failed => exact inv.goOn next nothing

/-! ## Uploads -/

theorem Inv.send (inv : Inv s) {running : Running} (sending : ∀ k ∈ running.files, k < s.nextObject)
    (conversationId : Option String) (claimLiveCapture : Bool) (files : List Nat) :
    Inv (s.send running conversationId claimLiveCapture files) :=
  ⟨inv.distinct, inv.known, sending, inv.given, inv.taken⟩

theorem candidates_sublist (d : Drain) : (s.candidates d).Sublist s.wals := List.filter_sublist

theorem candidate_miss {d : Drain} {e : Nat × Wal} (member : e ∈ s.candidates d) : e.2.status = .miss := by
  have passes := (List.mem_filter.mp member).2
  simp only [Bool.and_eq_true, beq_iff_eq] at passes
  exact passes.1.1

theorem Inv.nodup_wals (inv : Inv s) : s.wals.Nodup := List.Nodup.of_map Prod.fst inv.distinct

/-- A batch is drawn from the pending recordings, with one conversation. -/
structure Drawn (s : LocalWalSync) (d : Drain) (batch : Tracked) : Prop where
  nodup : batch.Nodup
  candidate : ∀ e ∈ batch, e ∈ s.candidates d
  conversation : ∀ e ∈ batch, e.2.conversationId = batchConversationId batch

theorem nextSyncUploadBatch_head (first : Nat × Wal) (rest : Tracked) :
    ∃ others, nextSyncUploadBatch (first :: rest) = first :: others := by
  unfold nextSyncUploadBatch
  dsimp only
  rw [List.filter_cons_of_pos (by simp)]
  exact ⟨_, List.take_succ_cons⟩

theorem Inv.drawn (inv : Inv s) {d : Drain} {ordered : Tracked} (sorted : ordered.Perm (s.pending d)) :
    Drawn s d (nextSyncUploadBatch ordered) := by
  have candidate : ∀ e ∈ ordered, e ∈ s.candidates d := fun e member =>
    (List.mem_filter.mp (sorted.mem_iff.mp member)).1
  have nodup : ordered.Nodup := by
    refine sorted.nodup_iff.mpr (List.Nodup.sublist ?_ inv.nodup_wals)
    exact List.filter_sublist.trans (candidates_sublist d)
  cases ordered with
  | nil => exact ⟨List.nodup_nil, by simp [nextSyncUploadBatch], by simp [nextSyncUploadBatch]⟩
  | cons first rest =>
      have inside : (nextSyncUploadBatch (first :: rest)).Sublist ((first :: rest).filter fun e =>
          decide (e.2.conversationId = first.2.conversationId) &&
            decide (walLocationBatchKey e.2 = walLocationBatchKey first.2)) := List.take_sublist ..
      obtain ⟨others, starts⟩ := nextSyncUploadBatch_head first rest
      constructor
      · exact nodup.sublist (inside.trans List.filter_sublist)
      · exact fun e member => candidate e (List.filter_sublist.subset (inside.subset member))
      · intro e member
        have passes := (List.mem_filter.mp (inside.subset member)).2
        simp only [Bool.and_eq_true, decide_eq_true_eq] at passes
        rw [starts]
        exact passes.1

theorem canClaimLiveCapture_length {batch all : Tracked} {nowSeconds : Int}
    (claims : canClaimLiveCapture batch all nowSeconds = true) : all.length ≤ batch.length := by
  unfold canClaimLiveCapture at claims
  split at claims
  · cases claims
  · simp only [Bool.and_eq_true, decide_eq_true_eq] at claims
    exact claims.2

/-- A claimed batch holds all that is pending for its conversation. -/
theorem mem_of_claimed {batch all : Tracked} {nowSeconds : Int} (claims : canClaimLiveCapture batch all nowSeconds = true)
    (nodup : batch.Nodup) (within : batch ⊆ all) {e : Nat × Wal} (member : e ∈ all) : e ∈ batch :=
  ((List.subperm_of_subset nodup within).perm_of_length_le (canClaimLiveCapture_length claims)).mem_iff.mpr member

theorem Drawn.whole {d : Drain} {batch : Tracked} (drawn : Drawn s d batch)
    (claims : s.claimsLiveCapture d batch = true) {e : Nat × Wal} (candidate : e ∈ s.candidates d)
    (same : e.2.conversationId = batchConversationId batch) : e ∈ batch := by
  have within : batch ⊆ (s.candidates d).filter fun e => decide (e.2.conversationId = batchConversationId batch) :=
    fun e member => List.mem_filter.mpr ⟨drawn.candidate e member, decide_eq_true (drawn.conversation e member)⟩
  exact mem_of_claimed (Bool.and_eq_true _ _ ▸ claims).2 drawn.nodup within
    (List.mem_filter.mpr ⟨candidate, decide_eq_true same⟩)

theorem Drawn.conversation_usable {d : Drain} {batch : Tracked} (drawn : Drawn s d batch) {absent : List Nat}
    (nonempty : batchWals batch absent ≠ []) :
    batchConversationId (batchWals batch absent) = batchConversationId batch := by
  have fewer : (batchWals batch absent).Sublist batch := List.filter_sublist
  cases usable : batchWals batch absent with
  | nil => exact absurd usable nonempty
  | cons first rest => exact drawn.conversation first (fewer.subset (usable ▸ List.mem_cons_self))

/-- The upload of a batch, after the absent files are marked. -/
def LocalWalSync.batchUpload (s : LocalWalSync) (d : Drain) (batch : Tracked) (absent : List Nat) : Upload :=
  ⟨batchConversationId (batchWals batch absent), s.claimsLiveCapture d batch, (batchWals batch absent).map Prod.fst,
    (s.markAbsent batch absent).wals, s.uploadedUnclaimed⟩

theorem Inv.covers_batch (inv : Inv s) {d : Drain} {batch : Tracked} (drawn : Drawn s d batch) (absent : List Nat)
    (nonempty : batchWals batch absent ≠ [])
    (whole : s.claimsLiveCapture d batch = true → ∀ e ∈ s.wals, e.2.conversationId = batchConversationId batch →
      e.2.status = .corrupted ∨ e ∈ s.candidates d) : (s.batchUpload d batch absent).CoversConversation := by
  intro claims c conversation e tracked stamped sound
  have named := (drawn.conversation_usable nonempty).symm.trans conversation
  obtain ⟨before, there, rfl⟩ := List.mem_map.mp tracked
  by_cases marked : before.1 ∈ (batch.filter fun e => !(e.2.filePath.isSome && decide (e.1 ∉ absent))).map Prod.fst
  · rw [if_pos marked] at sound
    exact absurd rfl sound
  · rw [if_neg marked] at stamped sound ⊢
    have same : before.2.conversationId = batchConversationId batch := stamped.trans named.symm
    have candidate := (whole claims before there same).resolve_left sound
    have chosen := drawn.whole claims candidate same
    have usable : before ∈ batchWals batch absent := by
      refine List.mem_filter.mpr ⟨chosen, ?_⟩
      by_contra unusable
      have absent : (!(before.2.filePath.isSome && decide (before.1 ∉ absent))) = true := by
        rw [Bool.not_eq_true']
        exact Bool.eq_false_iff.mpr unusable
      exact marked (List.mem_map.mpr ⟨before, List.mem_filter.mpr ⟨chosen, absent⟩, rfl⟩)
    exact ⟨List.mem_map_of_mem usable, fun early => inv.taken before there early (candidate_miss candidate)⟩

theorem Inv.markAbsent (inv : Inv s) (batch : Tracked) (absent : List Nat) : Inv (s.markAbsent batch absent) :=
  inv.change _ fun _ miss => by cases miss

theorem Inv.nextBatch (inv : Inv s) {d : Drain} {ordered : Tracked} {absent : List Nat}
    (next : s.nextBatch d ordered absent = some t) : Inv t := by
  unfold LocalWalSync.nextBatch at next
  split at next
  · cases next
    exact inv.goOn .idle (by simp [Running.files])
  · split at next
    · rename_i order
      cases next
      have drawn := inv.drawn order.1
      have marked := inv.markAbsent (nextSyncUploadBatch ordered) absent
      unfold sendBatch
      split
      · exact inv.goOn .idle (by simp [Running.files])
      · dsimp only
        split
        · exact marked.goOn _ (by simp [Running.files])
        · refine marked.send ?_ ..
          intro k member
          obtain ⟨e, sent, rfl⟩ := List.mem_map.mp member
          have tracked := (candidates_sublist d).subset (drawn.candidate e (List.filter_sublist.subset sent))
          exact inv.known _ (Dict.mem_keys_of_mem tracked)
    · cases next

/-- The upload of `syncWal`, after its flush. -/
def LocalWalSync.singleUpload (s : LocalWalSync) (object : Nat) (walToSync : Wal) : Upload :=
  ⟨walToSync.conversationId, s.flush.claimsWal object walToSync, [object], s.flush.wals, s.uploadedUnclaimed⟩

theorem Inv.covers_single (inv : Inv s) {object : Nat} {walToSync : Wal}
    (found : Dict.get s.flush.wals object = some walToSync)
    (whole : s.flush.claimsWal object walToSync = true → walToSync.status = .miss ∧
      ∀ e ∈ s.wals, e.2.conversationId = walToSync.conversationId → e.2.status = .corrupted ∨ e.2.status = .miss) :
    (s.singleUpload object walToSync).CoversConversation := by
  intro claims c conversation e tracked stamped sound
  obtain ⟨pending, others⟩ := whole claims
  have same : e.2.conversationId = walToSync.conversationId := stamped.trans conversation.symm
  have miss : e.2.status = .miss := by
    obtain ⟨before, listed, rfl⟩ := List.mem_map.mp tracked
    rw [Wal.flushed_conversationId] at same
    rw [Wal.flushed_status] at sound ⊢
    exact (others before listed same).resolve_left sound
  have within : [(object, walToSync)] ⊆ s.flush.wals.filter fun e =>
      e.2.status == .miss && decide (e.2.conversationId = walToSync.conversationId) := by
    intro e single
    rw [List.mem_singleton.mp single]
    exact List.mem_filter.mpr ⟨Dict.get_eq_some found, by simp [pending]⟩
  have checked : canClaimLiveCapture [(object, walToSync)] (s.flush.wals.filter fun e =>
      e.2.status == .miss && decide (e.2.conversationId = walToSync.conversationId)) s.flush.nowSeconds = true := claims
  have alone := mem_of_claimed checked (List.nodup_singleton _) within
    (List.mem_filter.mpr ⟨tracked, by simp [miss, same]⟩)
  exact ⟨by simp [singleUpload, List.mem_singleton.mp alone], fun early => inv.flush.taken e tracked early miss⟩

theorem Inv.syncWal (inv : Inv s) (object : Nat) (absent : List Nat) : Inv (s.syncWal object absent) := by
  have flushed := inv.flush
  unfold LocalWalSync.syncWal
  dsimp only
  split
  · exact flushed
  · rename_i walToSync found
    split
    · refine flushed.send ?_ ..
      intro k member
      rw [List.mem_singleton.mp member]
      exact flushed.known _ (Dict.mem_keys_of_mem (Dict.get_eq_some found))
    · exact flushed.change [object] fun _ miss => by cases miss

/-! ## Runs -/

theorem Inv.beginSyncAll (inv : Inv s) (liveCaptureOnly isLimited : Bool) :
    Inv (s.beginSyncAll liveCaptureOnly isLimited) := by
  have flushed : Inv { s.flush with isCancelled := false } :=
    have inv := inv.flush
    ⟨inv.distinct, inv.known, inv.sending, inv.given, inv.taken⟩
  unfold LocalWalSync.beginSyncAll
  dsimp only
  split
  · exact flushed
  · split
    · exact flushed
    · exact flushed.goOn _ (by simp [Running.files])

theorem Inv.act (inv : Inv s) {a : Action} (step : act s a = some t) : Inv t := by
  cases a with
  | captured wal =>
      cases step
      exact inv.captured wal
  | flush =>
      cases step
      exact inv.flush
  | stampConversationId sessionStartSeconds conversationId =>
      cases step
      exact inv.stampConversationId sessionStartSeconds conversationId
  | cancelSync =>
      cases step
      exact ⟨inv.distinct, inv.known, inv.sending, inv.given, inv.taken⟩
  | wait seconds =>
      cases step
      exact ⟨inv.distinct, inv.known, inv.sending, inv.given, inv.taken⟩
  | syncAll liveCaptureOnly isLimited =>
      simp only [Phone.act] at step
      split at step
      · cases step
        exact inv.beginSyncAll liveCaptureOnly isLimited
      · cases step
  | nextBatch ordered absent =>
      simp only [Phone.act] at step
      split at step
      · exact inv.nextBatch step
      · cases step
  | syncWal wal absent =>
      simp only [Phone.act] at step
      split at step
      · cases step
        exact inv.syncWal wal absent
      · cases step
  | answered result =>
      simp only [Phone.act] at step
      split at step
      · rename_i d batchWals claimLiveCapture running
        cases step
        exact inv.answered (fun k sent => inv.sending k (by rw [running]; exact sent)) claimLiveCapture rfl result
      · rename_i walToSync claimLiveCapture running
        cases step
        exact inv.answered (fun k sent => inv.sending k (by rw [running]; exact sent)) claimLiveCapture rfl result
      · cases step

/-- The upload that a step sends. -/
inductive Sends (s : LocalWalSync) : Action → Upload → Prop
  | batch {d : Drain} {ordered : Tracked} {absent : List Nat} (running : s.running = .drain d)
      (sorted : ordered.Perm (s.pending d)) (nonempty : batchWals (nextSyncUploadBatch ordered) absent ≠ []) :
      Sends s (.nextBatch ordered absent) (s.batchUpload d (nextSyncUploadBatch ordered) absent)
  | single {object : Nat} {absent : List Nat} {walToSync : Wal} (found : Dict.get s.flush.wals object = some walToSync) :
      Sends s (.syncWal object absent) (s.singleUpload object walToSync)

theorem uploads_answered (s : LocalWalSync) (files : List Nat) (claimLiveCapture : Bool) (next : Running)
    (result : UploadResult) : (s.answered files claimLiveCapture next result).uploads = s.uploads := by
  cases result with
  | recoveryWindowExceeded =>
      unfold answered retireOutsideRecoveryWindow
      dsimp only
      split <;> rfl
  | _ => rfl

theorem act_uploads {a : Action} (step : act s a = some t) :
    t.uploads = s.uploads ∨ ∃ u, Sends s a u ∧ t.uploads = s.uploads ++ [u] := by
  cases a with
  | captured wal =>
      cases step
      exact .inl rfl
  | flush =>
      cases step
      exact .inl rfl
  | stampConversationId sessionStartSeconds conversationId =>
      cases step
      exact .inl rfl
  | cancelSync =>
      cases step
      exact .inl rfl
  | wait seconds =>
      cases step
      exact .inl rfl
  | syncAll liveCaptureOnly isLimited =>
      simp only [act] at step
      split at step
      · cases step
        left
        unfold beginSyncAll
        dsimp only
        split
        · rfl
        · split <;> rfl
      · cases step
  | nextBatch ordered absent =>
      simp only [act] at step
      split at step
      · rename_i d running
        unfold nextBatch at step
        split at step
        · cases step
          exact .inl rfl
        · split at step
          · rename_i order
            cases step
            unfold sendBatch
            split
            · exact .inl rfl
            · dsimp only
              split
              · exact .inl rfl
              · rename_i nonempty
                exact .inr ⟨_, .batch running order.1 nonempty, rfl⟩
          · cases step
      · cases step
  | syncWal object absent =>
      simp only [act] at step
      split at step
      · cases step
        unfold syncWal
        dsimp only
        split
        · exact .inl rfl
        · rename_i walToSync found
          split
          · exact .inr ⟨_, .single found, rfl⟩
          · exact .inl rfl
      · cases step
  | answered result =>
      simp only [act] at step
      split at step
      · cases step
        exact .inl (uploads_answered ..)
      · cases step
        exact .inl (uploads_answered ..)
      · cases step

abbrev Reached : LocalWalSync → Prop := Transition.Reachable Fresh fun s a t => act s a = some t

theorem Reached.inv (reached : Reached s) : Inv s :=
  reached.invariant (fun _ => inv_fresh) fun _ _ _ kept step => kept.act step

theorem ReachedSteady.inv (reached : ReachedSteady s) : Inv s :=
  reached.invariant (fun _ => inv_fresh) fun _ _ _ kept step => kept.act step.2

theorem ReachedSteady.covered (reached : ReachedSteady s) : ∀ u ∈ s.uploads, u.CoversConversation := by
  induction reached with
  | start fresh =>
      obtain ⟨-, -, -, none, -⟩ := fresh
      simp [none]
  | next before step ih =>
      rcases act_uploads step.2 with same | ⟨u, sends, sent⟩
      · rw [same]
        exact ih
      · rw [sent]
        intro v member
        rcases List.mem_append.mp member with early | last
        · exact ih v early
        · rw [List.mem_singleton.mp last]
          have inv := ReachedSteady.inv before
          cases sends with
          | batch running sorted nonempty => exact inv.covers_batch (inv.drawn sorted) _ nonempty (step.1 _ running)
          | single found => exact inv.covers_single found (step.1 _ found)

def sampleWal (start : Nat) : Wal :=
  { timerStart := start
    codec := .opus
    seconds := 60
    device := "omi"
    status := .miss
    storage := .disk
    filePath := some "audio.bin"
    conversationId := some "c1" }

def sampleWals (wals : List Nat) : Tracked := wals.map fun start => (start, sampleWal start)

def sampleStart : LocalWalSync := ⟨sampleWals [0, 1, 2, 3, 4, 5], 6, 60, false, .idle, [], []⟩

/-- Six recordings of one conversation: the first batch holds five. The drain is cancelled during its upload. -/
def sampleActions : List Action :=
  [.syncAll false false, .nextBatch (sampleWals [5, 4, 3, 2, 1, 0]) [], .cancelSync, .answered (.queued "job-1"),
    .nextBatch (sampleWals [0]) [], .syncAll false false, .nextBatch (sampleWals [0]) []]

end OmiLocal.Wals.Phone
