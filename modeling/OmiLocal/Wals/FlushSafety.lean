import OmiLocal.Wals.PhoneFiles
import OmiLocal.Lib.Decimal
import Mathlib.Data.List.Range

/-!
# What the files of a session hold

Every frame goes to one recording in any run. The files are right in the runs whose steps are
steady: then file names are distinct, and the bytes of every running flush are those of the
recording as it is.
-/
namespace OmiLocal.Wals.Phone
open Lib Lib.Framing PhoneStorage

variable {x : Session} {s t : PhoneStorage}

/-! ## Frames -/

/-- The positions a recording holds, and the frames it has. -/
def Holds (removed : List WalFrame) (positions : List Nat) (data : List Bytes) : Prop :=
  positions.Pairwise (· < ·) ∧ positions.map (fun n => (removed[n]?).map WalFrame.payload) = data.map some

theorem Holds.later {removed : List WalFrame} {positions : List Nat} {data : List Bytes}
    (holds : Holds removed positions data) (early : ∀ n ∈ positions, n < removed.length) (more : List WalFrame) :
    Holds (removed ++ more) positions data := by
  refine ⟨holds.1, ?_⟩
  rw [← holds.2]
  refine List.map_congr_left fun n member => ?_
  rw [List.getElem?_append_left (early n member)]

theorem holds_new (removed more : List WalFrame) :
    Holds (removed ++ more) (List.range' removed.length more.length) (more.map WalFrame.payload) := by
  constructor
  · exact List.pairwise_lt_range'
  · apply List.ext_getElem?
    intro k
    rw [List.getElem?_map, List.getElem?_map, List.getElem?_map]
    by_cases inside : k < more.length
    · rw [List.getElem?_range' inside, Option.map_some, Nat.one_mul,
        List.getElem?_append_right (Nat.le_add_right _ _), Nat.add_sub_cancel_left, List.getElem?_eq_getElem inside]
      rfl
    · rw [List.getElem?_eq_none (by simpa using Nat.le_of_not_lt inside),
        List.getElem?_eq_none (Nat.le_of_not_lt inside)]
      rfl

theorem Holds.append {removed : List WalFrame} {first second : List Nat} {data more : List Bytes}
    (before : Holds removed first data) (after : Holds removed second more)
    (order : ∀ m ∈ first, ∀ n ∈ second, m < n) : Holds removed (first ++ second) (data ++ more) := by
  constructor
  · exact List.pairwise_append.mpr ⟨before.1, after.1, order⟩
  · rw [List.map_append, List.map_append, before.2, after.2]

theorem FramesHeldOnce.early (once : FramesHeldOnce s) {i : Nat} {positions : List Nat}
    (here : s.held[i]? = some positions) : ∀ n ∈ positions, n < s.removed.length := by
  intro n member
  have inside : n ∈ s.held.flatten := List.mem_flatten.mpr ⟨positions, List.mem_of_getElem? here, member⟩
  exact List.mem_range.mp (once.once.mem_iff.mp inside)

theorem flatten_modify_append {α : Type} {l : List (List α)} {i : Nat} (inside : i < l.length) (more : List α) :
    (l.modify i fun front => front ++ more).flatten.Perm (l.flatten ++ more) := by
  induction l generalizing i with
  | nil => cases inside
  | cons first rest ih =>
      cases i with
      | zero =>
          rw [List.modify_zero_cons, List.flatten_cons, List.flatten_cons, List.append_assoc, List.append_assoc]
          exact List.Perm.append_left _ List.perm_append_comm
      | succ i =>
          rw [List.modify_succ_cons, List.flatten_cons, List.flatten_cons, List.append_assoc]
          exact List.Perm.append_left _ (ih (Nat.lt_of_succ_lt_succ inside))

theorem length_take {high : Nat} (fits : high ≤ s.frames.length) : (s.frames.take high).length = high := by
  rw [List.length_take]
  exact Nat.min_eq_left fits

theorem range_removed {high : Nat} (fits : high ≤ s.frames.length) :
    List.range (s.removed ++ s.frames.take high).length = List.range s.removed.length ++ s.positions high := by
  rw [List.length_append, length_take fits, List.range_eq_range', List.range_eq_range', positions]
  exact (List.range'_append_1 (s := 0)).symm.trans (by rw [Nat.zero_add])

/-- The frames that leave go to the new recording. -/
theorem FramesHeldOnce.add (once : FramesHeldOnce s) {high : Nat} (fits : high ≤ s.frames.length) (timerStart : Int) :
    FramesHeldOnce ((s.add x timerStart high).remove high) := by
  have taken := holds_new s.removed (s.frames.take high)
  rw [length_take fits] at taken
  constructor
  · show (s.held ++ [s.positions high]).flatten.Perm _
    rw [List.flatten_append, List.flatten_singleton]
    exact (once.once.append_right _).trans (List.Perm.of_eq (range_removed fits).symm)
  · show (s.held ++ [_]).length = (s.wals ++ [_]).length
    rw [List.length_append, List.length_append, once.wals]
    rfl
  · intro i w positions there here
    change (s.wals ++ [_])[i]? = some w at there
    change (s.held ++ [_])[i]? = some positions at here
    by_cases old : i < s.wals.length
    · rw [List.getElem?_append_left old] at there
      rw [List.getElem?_append_left (once.wals ▸ old)] at here
      exact Holds.later (once.data i w positions there here) (once.early here) _
    · have last : i - s.wals.length = 0 := by
        have := (List.getElem?_eq_some_iff.mp there).1
        simp at this
        omega
      rw [List.getElem?_append_right (Nat.le_of_not_lt old), last] at there
      rw [List.getElem?_append_right (once.wals ▸ Nat.le_of_not_lt old), once.wals, last] at here
      cases there
      cases here
      exact taken

/-- The frames that leave go to the recording that is there. -/
theorem FramesHeldOnce.extend (once : FramesHeldOnce s) {high : Nat} (fits : high ≤ s.frames.length) {i : Nat}
    (inside : i < s.wals.length) : FramesHeldOnce ((s.extend i high).remove high) := by
  have taken := holds_new s.removed (s.frames.take high)
  rw [length_take fits] at taken
  constructor
  · exact ((flatten_modify_append (once.wals ▸ inside) _).trans (once.once.append_right _)).trans
      (List.Perm.of_eq (range_removed fits).symm)
  · show (s.held.modify _ _).length = (s.wals.modify _ _).length
    rw [List.length_modify, List.length_modify]
    exact once.wals
  · intro j w positions there here
    change (s.wals.modify i _)[j]? = some w at there
    change (s.held.modify i _)[j]? = some positions at here
    rw [List.getElem?_modify] at there here
    obtain ⟨old, found, rfl⟩ := Option.map_eq_some_iff.mp there
    obtain ⟨before, held, rfl⟩ := Option.map_eq_some_iff.mp here
    have kept := Holds.later (once.data j old before found held) (once.early held) (s.frames.take high)
    by_cases same : i = j
    · rw [if_pos same, if_pos same]
      refine Holds.append kept taken fun m early n late => ?_
      exact lt_of_lt_of_le (once.early held m early) (List.mem_range'_1.mp late).1
    · rw [if_neg same, if_neg same]
      exact kept

theorem walIdx_lt {timerStart : Int} {i : Nat} (found : s.walIdx x timerStart = some i) : i < s.wals.length :=
  (List.findIdx?_eq_some_iff_getElem.mp found).1

theorem FramesHeldOnce.loaded (loaded : Loaded x s) : FramesHeldOnce s := by
  obtain ⟨-, -, nothing, -⟩ := loaded.frames
  constructor
  · rw [loaded.held, nothing]
    simp
  · rw [loaded.held, List.length_map]
  · intro i w positions there here
    rw [loaded.held, List.getElem?_map, there] at here
    cases here
    rw [(loaded.device w (List.mem_of_getElem? there)).2.2]
    exact ⟨List.Pairwise.nil, rfl⟩

theorem FramesHeldOnce.set (once : FramesHeldOnce s) {i : Nat} {w : Wal} (here : s.wals[i]? = some w) {v : Wal}
    (same : v.data = w.data) : FramesHeldOnce { s with wals := s.wals.set i v } := by
  constructor
  · exact once.once
  · show _ = (s.wals.set i v).length
    rw [List.length_set]
    exact once.wals
  · intro j u positions there held
    change (s.wals.set i v)[j]? = some u at there
    rw [List.getElem?_set] at there
    split at there
    · rename_i equal
      split at there
      · cases there
        rw [same]
        exact once.data i w positions here (equal ▸ held)
      · cases there
    · exact once.data j u positions there held

/-- What a flush does after its await. -/
inductive Resumed (s : PhoneStorage) (k : Nat) : PhoneStorage → Prop
  | saved (here : s.flushes[k]? = some .saving) : Resumed s k { s with flushes := s.flushes.eraseIdx k }
  | path {i : Nat} {name : String} {w : Wal} (here : s.flushes[k]? = some (.wal i name .path))
      (tracked : s.wals[i]? = some w) :
      Resumed s k { s with flushes := s.flushes.set k (.wal i name (.opening (flushToDisk w.data))) }
  | opened {i : Nat} {name : String} {data : Bytes} (here : s.flushes[k]? = some (.wal i name (.opening data))) :
      Resumed s k { s with
        files := Dict.put s.files name []
        flushes := s.flushes.set k (.wal i name (.writing data)) }
  | written {i : Nat} {name : String} {data : Bytes} (here : s.flushes[k]? = some (.wal i name (.writing data))) :
      Resumed s k { s with
        files := Dict.put s.files name (overwrite ((Dict.get s.files name).getD []) data)
        flushes := s.flushes.set k (.wal i name (.closing data)) }
  | closed {i : Nat} {name : String} {data : Bytes} {w : Wal} (here : s.flushes[k]? = some (.wal i name (.closing data)))
      (tracked : s.wals[i]? = some w) :
      Resumed s k { s with
        wals := s.wals.set i { w with filePath := some w.getFileName, storage := .disk }
        flushes := s.flushes.set k
          (nextFlush (s.wals.set i { w with filePath := some w.getFileName, storage := .disk }) (i + 1)) }

theorem resume_cases {k : Nat} (step : s.resume k = some t) : Resumed s k t := by
  unfold PhoneStorage.resume at step
  cases here : s.flushes[k]? with
  | none => simp [here] at step
  | some f =>
      cases f with
      | saving =>
          simp only [here] at step
          cases step
          exact .saved here
      | wal i name stage =>
          cases tracked : s.wals[i]? with
          | none => simp [here, tracked] at step
          | some w =>
              simp only [here, tracked] at step
              cases stage with
              | path =>
                  cases step
                  exact .path here tracked
              | opening data =>
                  cases step
                  exact .opened here
              | writing data =>
                  cases step
                  exact .written here
              | closing data =>
                  cases step
                  exact .closed here tracked

theorem FramesHeldOnce.resume (once : FramesHeldOnce s) {k : Nat} (step : s.resume k = some t) : FramesHeldOnce t := by
  cases resume_cases step with
  | @closed i name data w here tracked =>
      have marked := once.set tracked (v := { w with filePath := some w.getFileName, storage := .disk }) rfl
      exact ⟨marked.once, marked.wals, marked.data⟩
  | _ => exact ⟨once.once, once.wals, once.data⟩

theorem pivot_le : s.pivot x ≤ s.frames.length := Nat.sub_le ..

theorem shouldStored_of_unlimited (unlimited : x.unlimitedLocalStorageEnabled = true) (frameSynced : List Bool) :
    x.shouldStored frameSynced = true := by
  simp [Session.shouldStored, unlimited]

theorem FramesHeldOnce.happen (unlimited : x.unlimitedLocalStorageEnabled = true) (once : FramesHeldOnce s) {e : Event}
    (step : happen x s e = some t) : FramesHeldOnce t := by
  cases e with
  | onFrameCaptured frame =>
      cases step
      exact ⟨once.once, once.wals, once.data⟩
  | markFrameSynced syncKey =>
      cases step
      unfold PhoneStorage.markFrameSynced
      split
      · exact once
      · exact ⟨once.once, once.wals, once.data⟩
  | chunk =>
      cases step
      unfold chunkFrames
      dsimp only
      split
      · exact once
      · rw [if_pos (shouldStored_of_unlimited unlimited _)]
        unfold store
        split
        · exact once.add pivot_le _
        · rename_i i found
          exact once.extend pivot_le (walIdx_lt found)
  | flush =>
      cases step
      exact ⟨once.once, once.wals, once.data⟩
  | finalizeCurrentSession =>
      cases step
      unfold PhoneStorage.finalizeCurrentSession
      dsimp only
      split
      · exact once
      · rw [if_pos (shouldStored_of_unlimited unlimited _)]
        have added := once.add (x := x) (le_refl s.frames.length) (s.finalStart x)
        exact ⟨added.once, added.wals, added.data⟩
  | resume k => exact once.resume step
  | wait seconds =>
      cases step
      exact ⟨once.once, once.wals, once.data⟩

/-! ## File names -/

theorem separator_not_mem (n : Int) : '_' ∉ (toString n).toList := fun member =>
  (Decimal.mem_toString member).elim (fun digit => absurd digit (by decide)) fun sign => absurd sign (by decide)

theorem getFileName_timerStart {v w : Wal} (same : v.getFileName = w.getFileName) : v.timerStart = w.timerStart := by
  have texts := congrArg String.toList same
  unfold Wal.getFileName at texts
  rw [String.toList_append, String.toList_append (s := _ ++ toString w.timerStart)] at texts
  have stripped := List.append_cancel_right texts
  rw [String.toList_append, String.toList_append (t := toString w.timerStart), String.toList_append,
    String.toList_append (t := "_")] at stripped
  have single : "_".toList = ['_'] := rfl
  rw [single, List.append_assoc, List.append_assoc] at stripped
  have starts := Decimal.after_last_inj (separator_not_mem _) (separator_not_mem _) stripped
  exact Decimal.toString_injective starts

/-! ## Files -/

structure FileInv (x : Session) (s : PhoneStorage) : Prop where
  device : ∀ w ∈ s.wals, w.device = x.device ∧ w.codec = x.codec
  names : (s.wals.map Wal.getFileName).Nodup
  restored : s.restored.length ≤ s.wals.length
  mem : ∀ (i : Nat) (w : Wal), s.wals[i]? = some w → w.storage = .mem → s.restored.getD i [] = []
  flushing : ∀ i name stage, .wal i name stage ∈ s.flushes → ∃ w, s.wals[i]? = some w ∧ name = w.getFileName ∧
    s.restored.getD i [] = [] ∧ ∀ data, stage.bytes = some data → data = flushToDisk w.data
  writing : ∀ i name data, .wal i name (.writing data) ∈ s.flushes →
    Dict.get s.files name = some [] ∨ Dict.get s.files name = some data
  path : ∀ (i : Nat) (w : Wal), s.wals[i]? = some w → w.storage = .disk → w.filePath = some w.getFileName
  written : ∀ (i : Nat) (w : Wal), s.wals[i]? = some w → (w.storage = .disk ∨ ∃ name data, .wal i name (.closing data) ∈ s.flushes) →
    (∀ name data, .wal i name (.writing data) ∉ s.flushes) →
    Dict.get s.files w.getFileName = some (flushToDisk (s.framesOf i w))

theorem FileInv.loaded (loaded : Loaded x s) : FileInv x s := by
  obtain ⟨-, -, -, none⟩ := loaded.frames
  constructor
  · exact fun w member => ⟨(loaded.device w member).1, (loaded.device w member).2.1⟩
  · exact loaded.names
  · exact loaded.restored.le
  · exact loaded.mem
  · simp [none]
  · simp [none]
  · exact fun i w here disk => (loaded.disk i w here disk).1
  · intro i w here done _
    have disk : w.storage = .disk := by simpa [none] using done
    rw [framesOf, (loaded.device w (List.mem_of_getElem? here)).2.2, List.append_nil]
    exact (loaded.disk i w here disk).2

theorem nodup_index {l : List Wal} (names : (l.map Wal.getFileName).Nodup) {i j : Nat} {v w : Wal}
    (first : l[i]? = some v) (second : l[j]? = some w) (same : v.getFileName = w.getFileName) : i = j := by
  obtain ⟨inside, rfl⟩ := List.getElem?_eq_some_iff.mp first
  obtain ⟨inside', rfl⟩ := List.getElem?_eq_some_iff.mp second
  have within : i < (l.map Wal.getFileName).length := by rwa [List.length_map]
  have within' : j < (l.map Wal.getFileName).length := by rwa [List.length_map]
  have equal : (l.map Wal.getFileName)[i] = (l.map Wal.getFileName)[j] := by
    rwa [List.getElem_map, List.getElem_map]
  exact (List.Nodup.getElem_inj_iff names).mp equal

/-- A new recording, whose start no other has. -/
theorem FileInv.add (inv : FileInv x s) {timerStart : Int} (new : ∀ w ∈ s.wals, w.timerStart ≠ timerStart) (high : Nat) :
    FileInv x (s.add x timerStart high) := by
  have old {i : Nat} {w : Wal} (here : s.wals[i]? = some w) :
      (s.wals ++ [x.newWal timerStart (s.chunk high) (s.frameSynced.take high)])[i]? = some w := by
    rw [List.getElem?_append_left (List.getElem?_eq_some_iff.mp here).1]
    exact here
  have cases {i : Nat} {w : Wal}
      (here : (s.wals ++ [x.newWal timerStart (s.chunk high) (s.frameSynced.take high)])[i]? = some w) :
      s.wals[i]? = some w ∨ i = s.wals.length ∧ w = x.newWal timerStart (s.chunk high) (s.frameSynced.take high) := by
    by_cases inside : i < s.wals.length
    · rw [List.getElem?_append_left inside] at here
      exact .inl here
    · have last : i = s.wals.length := by
        have := (List.getElem?_eq_some_iff.mp here).1
        simp at this
        omega
      subst last
      rw [List.getElem?_append_right (le_refl _), Nat.sub_self] at here
      cases here
      exact .inr ⟨rfl, rfl⟩
  constructor
  · intro w member
    rcases List.mem_append.mp member with there | last
    · exact inv.device w there
    · rw [List.mem_singleton.mp last]
      exact ⟨rfl, rfl⟩
  · show ((s.wals ++ [_]).map Wal.getFileName).Nodup
    rw [List.map_append]
    refine List.nodup_append.mpr ⟨inv.names, List.nodup_singleton _, ?_⟩
    intro name member name' single equal
    obtain ⟨w, there, rfl⟩ := List.mem_map.mp member
    rw [List.mem_singleton.mp single] at equal
    exact new w there (getFileName_timerStart equal)
  · show _ ≤ (s.wals ++ [_]).length
    rw [List.length_append]
    exact inv.restored.trans (Nat.le_add_right _ _)
  · intro i w here mem
    rcases cases here with there | ⟨rfl, -⟩
    · exact inv.mem i w there mem
    · exact List.getD_eq_default _ _ inv.restored
  · intro i name stage member
    obtain ⟨w, there, rest⟩ := inv.flushing i name stage member
    exact ⟨w, old there, rest⟩
  · exact inv.writing
  · intro i w here disk
    rcases cases here with there | ⟨-, rfl⟩
    · exact inv.path i w there disk
    · cases disk
  · intro i w here done quiet
    rcases cases here with there | ⟨rfl, rfl⟩
    · exact inv.written i w there done quiet
    · rcases done with disk | ⟨name, data, member⟩
      · cases disk
      · obtain ⟨w, there, -⟩ := inv.flushing _ name _ member
        exact absurd (List.getElem?_eq_some_iff.mp there).1 (Nat.lt_irrefl _)

/-! ### One recording changes -/

theorem modify_cases {l : List Wal} {f : Wal → Wal} {i j : Nat} {w : Wal} (here : (l.modify i f)[j]? = some w) :
    (i = j ∧ ∃ v, l[j]? = some v ∧ w = f v) ∨ (i ≠ j ∧ l[j]? = some w) := by
  rw [List.getElem?_modify] at here
  obtain ⟨v, there, rfl⟩ := Option.map_eq_some_iff.mp here
  by_cases same : i = j
  · exact .inl ⟨same, v, there, by rw [if_pos same]⟩
  · rw [if_neg same]
    exact .inr ⟨same, there⟩

theorem modify_same {l : List Wal} {i : Nat} {w : Wal} (here : l[i]? = some w) (f : Wal → Wal) :
    (l.modify i f)[i]? = some (f w) := by
  rw [List.getElem?_modify_eq, here]
  rfl

theorem modify_other {l : List Wal} {i j : Nat} {w : Wal} (other : i ≠ j) (here : l[j]? = some w) (f : Wal → Wal) :
    (l.modify i f)[j]? = some w := by
  rw [List.getElem?_modify_ne f l other]
  exact here

/-- The change keeps what the name is made of. -/
structure KeepsName (f : Wal → Wal) : Prop where
  name : ∀ w, (f w).getFileName = w.getFileName
  device : ∀ w, (f w).device = w.device ∧ (f w).codec = w.codec

theorem KeepsName.names {f : Wal → Wal} (keeps : KeepsName f) (l : List Wal) (i : Nat) :
    (l.modify i f).map Wal.getFileName = l.map Wal.getFileName := by
  apply List.ext_getElem?
  intro j
  rw [List.getElem?_map, List.getElem?_map, List.getElem?_modify]
  cases l[j]? with
  | none => rfl
  | some w =>
      by_cases same : i = j
      · simp [same, keeps.name]
      · simp [same]

theorem FileInv.device_modify (inv : FileInv x s) {f : Wal → Wal} (keeps : KeepsName f) (i : Nat) :
    ∀ w ∈ s.wals.modify i f, w.device = x.device ∧ w.codec = x.codec := by
  intro w member
  obtain ⟨j, here⟩ := List.mem_iff_getElem?.mp member
  rcases modify_cases here with ⟨-, v, there, rfl⟩ | ⟨-, there⟩
  · rw [(keeps.device v).1, (keeps.device v).2]
    exact inv.device v (List.mem_of_getElem? there)
  · exact inv.device w (List.mem_of_getElem? there)

/-- A recording of this session is extended while no flush has its bytes. -/
theorem FileInv.extend (inv : FileInv x s) {i : Nat} (own : s.restored.getD i [] = [])
    (free : ∀ name stage, .wal i name stage ∈ s.flushes → stage.bytes = none) (high : Nat) :
    FileInv x (s.extend i high) := by
  have keeps : KeepsName fun w => Session.extendWal w (s.chunk high) (s.frameSynced.take high) :=
    ⟨fun _ => rfl, fun _ => ⟨rfl, rfl⟩⟩
  constructor
  · exact inv.device_modify keeps i
  · exact (keeps.names s.wals i).symm ▸ inv.names
  · show _ ≤ (s.wals.modify i _).length
    rw [List.length_modify]
    exact inv.restored
  · intro j w here mem
    rcases modify_cases here with ⟨same, -⟩ | ⟨-, there⟩
    · exact same ▸ own
    · exact inv.mem j w there mem
  · intro j name stage member
    obtain ⟨v, there, named, empty, bytes⟩ := inv.flushing j name stage member
    by_cases same : i = j
    · subst same
      refine ⟨_, modify_same there _, named, empty, fun data has => ?_⟩
      rw [free name stage member] at has
      cases has
    · exact ⟨v, modify_other same there _, named, empty, bytes⟩
  · exact inv.writing
  · intro j w here disk
    rcases modify_cases here with ⟨-, v, -, rfl⟩ | ⟨-, there⟩
    · cases disk
    · exact inv.path j w there disk
  · intro j w here done quiet
    rcases modify_cases here with ⟨rfl, v, -, rfl⟩ | ⟨-, there⟩
    · rcases done with disk | ⟨name, data, member⟩
      · cases disk
      · cases free name (.closing data) member
    · exact inv.written j w there done quiet

/-! ### Flushes -/

theorem nextFlush_cases {wals : List Wal} {i j : Nat} {name : String} {stage : Stage}
    (next : nextFlush wals i = .wal j name stage) :
    stage = .path ∧ ∃ w, wals[j]? = some w ∧ w.storage = .mem ∧ name = w.getFileName := by
  unfold nextFlush at next
  split at next
  · rename_i w k found
    cases next
    have listed := List.mem_of_mem_drop (List.mem_of_find?_eq_some found)
    have mem : w.storage = .mem := by simpa using List.find?_some found
    exact ⟨rfl, w, List.mk_mem_zipIdx_iff_getElem?.mp listed, mem, rfl⟩
  · cases next

theorem nextFlush_bytes {wals : List Wal} {i j : Nat} {name : String} {stage : Stage}
    (next : .wal j name stage = nextFlush wals i) : stage.bytes = none := by
  rw [(nextFlush_cases next.symm).1]
  rfl

theorem FileInv.startFlush (inv : FileInv x s) : FileInv x s.startFlush := by
  have old {i : Nat} {name : String} {stage : Stage} {data : Bytes} (bytes : stage.bytes = some data)
      (member : .wal i name stage ∈ s.startFlush.flushes) : .wal i name stage ∈ s.flushes := by
    rcases List.mem_append.mp member with there | new
    · exact there
    · rw [nextFlush_bytes (List.mem_singleton.mp new)] at bytes
      cases bytes
  constructor
  · exact inv.device
  · exact inv.names
  · exact inv.restored
  · exact inv.mem
  · intro i name stage member
    rcases List.mem_append.mp member with there | new
    · exact inv.flushing i name stage there
    · obtain ⟨rfl, w, here, mem, named⟩ := nextFlush_cases (List.mem_singleton.mp new).symm
      exact ⟨w, here, named, inv.mem i w here mem, fun data has => by cases has⟩
  · exact fun i name data member => inv.writing i name data (old rfl member)
  · exact inv.path
  · intro i w here done quiet
    refine inv.written i w here ?_ fun name data member => quiet name data (List.mem_append_left _ member)
    rcases done with disk | ⟨name, data, member⟩
    · exact .inl disk
    · exact .inr ⟨name, data, old rfl member⟩

theorem mem_set_of_ne {l : List Flush} {k : Nat} {f g h : Flush} (here : l[k]? = some f) (member : g ∈ l)
    (other : g ≠ f) : g ∈ l.set k h := by
  obtain ⟨j, found⟩ := List.mem_iff_getElem?.mp member
  have apart : k ≠ j := by
    rintro rfl
    rw [here] at found
    exact other (Option.some.inj found).symm
  exact List.mem_of_getElem? ((List.getElem?_set_ne apart).trans found)

/-- A flush of another recording does not touch the file. -/
theorem FileInv.name_ne (inv : FileInv x s) {i j : Nat} {name : String} {stage : Stage} {w : Wal}
    (flush : .wal i name stage ∈ s.flushes) (here : s.wals[j]? = some w) (other : i ≠ j) : w.getFileName ≠ name := by
  obtain ⟨v, there, rfl, -⟩ := inv.flushing i name stage flush
  exact fun same => other (nodup_index inv.names there here same.symm)

theorem FileInv.resumePath (inv : FileInv x s) {k i : Nat} {name : String} {w : Wal}
    (here : s.flushes[k]? = some (.wal i name .path)) (tracked : s.wals[i]? = some w) :
    FileInv x { s with flushes := s.flushes.set k (.wal i name (.opening (flushToDisk w.data))) } := by
  have old {j : Nat} {name' : String} {stage : Stage}
      (member : .wal j name' stage ∈ s.flushes.set k (.wal i name (.opening (flushToDisk w.data)))) :
      .wal j name' stage ∈ s.flushes ∨ j = i ∧ name' = name ∧ stage = .opening (flushToDisk w.data) := by
    rcases List.mem_or_eq_of_mem_set member with there | new
    · exact .inl there
    · cases new
      exact .inr ⟨rfl, rfl, rfl⟩
  constructor
  · exact inv.device
  · exact inv.names
  · exact inv.restored
  · exact inv.mem
  · intro j name' stage member
    rcases old member with there | ⟨rfl, rfl, rfl⟩
    · exact inv.flushing j name' stage there
    · obtain ⟨v, there, named, empty, -⟩ := inv.flushing _ _ _ (List.mem_of_getElem? here)
      rw [tracked] at there
      cases there
      exact ⟨w, tracked, named, empty, fun data has => (Option.some.inj has).symm⟩
  · intro j name' data member
    rcases old member with there | ⟨-, -, other⟩
    · exact inv.writing j name' data there
    · cases other
  · exact inv.path
  · intro j v there done quiet
    refine inv.written j v there ?_ fun name' data member => quiet name' data (mem_set_of_ne here member (by simp))
    rcases done with disk | ⟨name', data, member⟩
    · exact .inl disk
    · rcases old member with before | ⟨-, -, other⟩
      · exact .inr ⟨name', data, before⟩
      · cases other

theorem FileInv.resumeOpening (inv : FileInv x s) {k i : Nat} {name : String} {data : Bytes}
    (here : s.flushes[k]? = some (.wal i name (.opening data))) :
    FileInv x { s with
      files := Dict.put s.files name []
      flushes := s.flushes.set k (.wal i name (.writing data)) } := by
  have flush := List.mem_of_getElem? here
  have inside : k < s.flushes.length := (List.getElem?_eq_some_iff.mp here).1
  constructor
  · exact inv.device
  · exact inv.names
  · exact inv.restored
  · exact inv.mem
  · intro j name' stage member
    rcases List.mem_or_eq_of_mem_set member with there | new
    · exact inv.flushing j name' stage there
    · cases new
      obtain ⟨v, there, named, empty, bytes⟩ := inv.flushing i name _ flush
      exact ⟨v, there, named, empty, bytes⟩
  · intro j name' data' member
    by_cases same : name' = name
    · left
      rw [same]
      exact Dict.get_put_self ..
    · rw [Dict.get_put_other _ same]
      rcases List.mem_or_eq_of_mem_set member with there | new
      · exact inv.writing j name' data' there
      · cases new
        exact absurd rfl same
  · exact inv.path
  · intro j v there done quiet
    by_cases same : i = j
    · exact absurd (List.mem_set inside _) (same ▸ quiet name data)
    · show Dict.get (Dict.put s.files name []) v.getFileName = _
      rw [Dict.get_put_other _ (inv.name_ne flush there same)]
      refine inv.written j v there ?_ fun name' data' member =>
        quiet name' data' (mem_set_of_ne here member (by simp))
      rcases done with disk | ⟨name', data', member⟩
      · exact .inl disk
      · rcases List.mem_or_eq_of_mem_set member with before | new
        · exact .inr ⟨name', data', before⟩
        · cases new

theorem overwrite_of {old : Option Bytes} {data : Bytes} (known : old = some [] ∨ old = some data) :
    overwrite (old.getD []) data = data := by
  rcases known with rfl | rfl
  · simp [overwrite]
  · simp [overwrite]

theorem FileInv.resumeWriting (inv : FileInv x s) {k i : Nat} {name : String} {data : Bytes}
    (here : s.flushes[k]? = some (.wal i name (.writing data))) :
    FileInv x { s with
      files := Dict.put s.files name (overwrite ((Dict.get s.files name).getD []) data)
      flushes := s.flushes.set k (.wal i name (.closing data)) } := by
  have flush := List.mem_of_getElem? here
  obtain ⟨w, tracked, named, empty, bytes⟩ := inv.flushing i name _ flush
  have content : data = flushToDisk w.data := bytes data rfl
  rw [overwrite_of (inv.writing i name data flush)]
  constructor
  · exact inv.device
  · exact inv.names
  · exact inv.restored
  · exact inv.mem
  · intro j name' stage member
    rcases List.mem_or_eq_of_mem_set member with there | new
    · exact inv.flushing j name' stage there
    · cases new
      exact ⟨w, tracked, named, empty, bytes⟩
  · intro j name' data' member
    rcases List.mem_or_eq_of_mem_set member with there | new
    · by_cases same : name' = name
      · obtain ⟨v, found, named', -, bytes'⟩ := inv.flushing j name' _ there
        have index : j = i := nodup_index inv.names found tracked (named'.symm.trans (same.trans named))
        rw [index, tracked] at found
        cases found
        right
        rw [same, bytes' data' rfl, ← content]
        exact Dict.get_put_self ..
      · rw [Dict.get_put_other _ same]
        exact inv.writing j name' data' there
    · cases new
  · exact inv.path
  · intro j v there done quiet
    by_cases same : i = j
    · rw [same.symm, tracked] at there
      cases there
      show Dict.get (Dict.put s.files name data) w.getFileName = some (flushToDisk (s.restored.getD j [] ++ w.data))
      rw [← same, empty, List.nil_append, ← content, ← named]
      exact Dict.get_put_self ..
    · show Dict.get (Dict.put s.files name data) v.getFileName = _
      rw [Dict.get_put_other _ (inv.name_ne flush there same)]
      refine inv.written j v there ?_ fun name' data' member =>
        quiet name' data' (mem_set_of_ne here member ?_)
      · rcases done with disk | ⟨name', data', member⟩
        · exact .inl disk
        · rcases List.mem_or_eq_of_mem_set member with before | new
          · exact .inr ⟨name', data', before⟩
          · cases new
            exact absurd rfl same
      · intro equal
        cases equal
        exact same rfl

theorem FileInv.resumeClosing (inv : FileInv x s) {k i : Nat} {name : String} {data : Bytes} {w : Wal}
    (here : s.flushes[k]? = some (.wal i name (.closing data))) (tracked : s.wals[i]? = some w) :
    FileInv x { s with
      wals := s.wals.set i { w with filePath := some w.getFileName, storage := .disk }
      flushes := s.flushes.set k
        (nextFlush (s.wals.set i { w with filePath := some w.getFileName, storage := .disk }) (i + 1)) } := by
  have flush := List.mem_of_getElem? here
  have keeps : KeepsName fun w => { w with filePath := some w.getFileName, storage := .disk } :=
    ⟨fun _ => rfl, fun _ => ⟨rfl, rfl⟩⟩
  have marks : s.wals.set i { w with filePath := some w.getFileName, storage := .disk } =
      s.wals.modify i fun w => { w with filePath := some w.getFileName, storage := .disk } := by
    rw [List.modify_eq_set_getElem?, tracked]
    rfl
  rw [marks]
  have old {j : Nat} {name' : String} {stage : Stage} {data' : Bytes} (has : stage.bytes = some data')
      {next : Nat} {wals : List Wal} (member : .wal j name' stage ∈ s.flushes.set k (nextFlush wals next)) :
      .wal j name' stage ∈ s.flushes := by
    rcases List.mem_or_eq_of_mem_set member with there | new
    · exact there
    · rw [nextFlush_bytes new] at has
      cases has
  have mem : ∀ (j : Nat) (v : Wal), (s.wals.modify i fun w =>
      { w with filePath := some w.getFileName, storage := .disk })[j]? = some v → v.storage = .mem →
      s.restored.getD j [] = [] := by
    intro j v there isMem
    rcases modify_cases there with ⟨-, u, -, rfl⟩ | ⟨-, there⟩
    · cases isMem
    · exact inv.mem j v there isMem
  constructor
  · exact inv.device_modify keeps i
  · exact (keeps.names s.wals i).symm ▸ inv.names
  · show _ ≤ (s.wals.modify i _).length
    rw [List.length_modify]
    exact inv.restored
  · exact mem
  · intro j name' stage member
    rcases List.mem_or_eq_of_mem_set member with there | new
    · obtain ⟨v, found, named, empty, bytes⟩ := inv.flushing j name' stage there
      by_cases same : i = j
      · subst same
        exact ⟨_, modify_same found _, named, empty, bytes⟩
      · exact ⟨v, modify_other same found _, named, empty, bytes⟩
    · obtain ⟨rfl, v, found, isMem, named⟩ := nextFlush_cases new.symm
      exact ⟨v, found, named, mem j v found isMem, fun data' has => by cases has⟩
  · exact fun j name' data' member => inv.writing j name' data' (old rfl member)
  · intro j v there disk
    rcases modify_cases there with ⟨-, u, -, rfl⟩ | ⟨-, there⟩
    · rfl
    · exact inv.path j v there disk
  · intro j v there done quiet
    have quiet : ∀ name' data', .wal j name' (.writing data') ∉ s.flushes := fun name' data' member =>
      quiet name' data' (mem_set_of_ne here member (by simp))
    rcases modify_cases there with ⟨rfl, u, found, rfl⟩ | ⟨-, there⟩
    · exact inv.written i u found (.inr ⟨name, data, flush⟩) quiet
    · refine inv.written j v there ?_ quiet
      rcases done with disk | ⟨name', data', member⟩
      · exact .inl disk
      · exact .inr ⟨name', data', old rfl member⟩

theorem FileInv.resume (inv : FileInv x s) {k : Nat} (step : s.resume k = some t) : FileInv x t := by
  cases resume_cases step with
  | saved here =>
      have old {f : Flush} (member : f ∈ s.flushes.eraseIdx k) : f ∈ s.flushes := List.mem_of_mem_eraseIdx member
      constructor
      · exact inv.device
      · exact inv.names
      · exact inv.restored
      · exact inv.mem
      · exact fun i name stage member => inv.flushing i name stage (old member)
      · exact fun i name data member => inv.writing i name data (old member)
      · exact inv.path
      · intro i w there done quiet
        refine inv.written i w there ?_ fun name data member => quiet name data ?_
        · rcases done with disk | ⟨name, data, member⟩
          · exact .inl disk
          · exact .inr ⟨name, data, old member⟩
        · obtain ⟨j, found⟩ := List.mem_iff_getElem?.mp member
          refine List.mem_eraseIdx_iff_getElem?.mpr ⟨j, ?_, found⟩
          rintro rfl
          rw [here] at found
          cases found
  | path here tracked => exact inv.resumePath here tracked
  | opened here => exact inv.resumeOpening here
  | written here => exact inv.resumeWriting here
  | closed here tracked => exact inv.resumeClosing here tracked

/-! ## Runs -/

theorem FileInv.remove (inv : FileInv x s) (high : Nat) : FileInv x (s.remove high) :=
  ⟨inv.device, inv.names, inv.restored, inv.mem, inv.flushing, inv.writing, inv.path, inv.written⟩

theorem FileInv.chunkFrames (inv : FileInv x s) (steady : Event.chunk.Steady x s) : FileInv x (s.chunkFrames x) := by
  unfold PhoneStorage.chunkFrames
  dsimp only
  split
  · exact inv
  · rename_i some_left
    split
    · refine FileInv.remove ?_ _
      unfold store
      split
      · rename_i none
        refine inv.add (fun w member same => ?_) _
        have other := List.findIdx?_eq_none_iff.mp none w member
        simp [same, inv.device w member] at other
      · rename_i i found
        obtain ⟨own, free⟩ := steady some_left i found
        exact inv.extend own free _
    · exact inv.remove _

theorem FileInv.finalizeCurrentSession (inv : FileInv x s) (steady : Event.finalizeCurrentSession.Steady x s) :
    FileInv x (s.finalizeCurrentSession x) := by
  unfold PhoneStorage.finalizeCurrentSession
  dsimp only
  split
  · exact inv
  · rename_i some_left
    have frames : s.frames ≠ [] := by
      rintro none
      exact some_left (by rw [none]; rfl)
    split
    · exact ((inv.add (steady frames) _).remove _).startFlush
    · exact (inv.remove _).startFlush

theorem FileInv.happen (inv : FileInv x s) {e : Event} (steady : e.Steady x s) (step : happen x s e = some t) :
    FileInv x t := by
  cases e with
  | onFrameCaptured frame =>
      cases step
      exact ⟨inv.device, inv.names, inv.restored, inv.mem, inv.flushing, inv.writing, inv.path, inv.written⟩
  | markFrameSynced syncKey =>
      cases step
      unfold PhoneStorage.markFrameSynced
      split
      · exact inv
      · exact ⟨inv.device, inv.names, inv.restored, inv.mem, inv.flushing, inv.writing, inv.path, inv.written⟩
  | chunk =>
      cases step
      exact inv.chunkFrames steady
  | flush =>
      cases step
      exact inv.startFlush
  | finalizeCurrentSession =>
      cases step
      exact inv.finalizeCurrentSession steady
  | resume k => exact inv.resume step
  | wait seconds =>
      cases step
      exact ⟨inv.device, inv.names, inv.restored, inv.mem, inv.flushing, inv.writing, inv.path, inv.written⟩

theorem decodes_flushToDisk {file : Option Bytes} {frames : List Bytes} (content : file = some (flushToDisk frames)) :
    Decodes file frames := by
  refine ⟨content, fun sizes => ?_⟩
  have stop : head le32 Sync.maxSyncFrameBytes [] = .short ∨ head le32 Sync.maxSyncFrameBytes [] = .torn :=
    .inl (head_nil (by decide))
  have read := scan_encodeAll (fun p member => fits_of_size (sizes p member)) stop (le_refl frames.length)
  rw [List.append_nil] at read
  rw [flushToDisk_eq]
  exact read

/-- In every run each frame that leaves the list is in one recording. In every run of steady steps no two recordings
share a file name, and while no flush is running each file on the disk is the frames of its recording. -/
theorem phone_files_hold_frames_once (x : Session) (s : PhoneStorage) :
    (x.unlimitedLocalStorageEnabled = true → Recorded x s → FramesHeldOnce s) ∧
      (RecordedSteady x s → (s.wals.map Wal.getFileName).Nodup ∧
        (s.flushes = [] → ∀ (i : Nat) (w : Wal), s.wals[i]? = some w → w.storage = .disk →
          Decodes (w.filePath.bind (Dict.get s.files)) (s.framesOf i w))) := by
  constructor
  · intro unlimited recorded
    exact recorded.invariant (fun _ => FramesHeldOnce.loaded) fun _ _ _ once step => once.happen unlimited step
  · intro recorded
    have inv : FileInv x s := recorded.invariant (fun _ => FileInv.loaded) fun _ _ _ inv step => inv.happen step.1 step.2
    refine ⟨inv.names, fun quiet i w here disk => ?_⟩
    rw [inv.path i w here disk]
    exact decodes_flushToDisk (inv.written i w here (.inl disk) (by simp [quiet]))

/-! ## A file that is overwritten -/

def sampleSession : Session := ⟨.opus, "omi", none, true⟩

def sampleStorage : PhoneStorage := ⟨[], [], [], [], [], 100, [], [], []⟩

/-- A frame is captured, the session is finalized and its flush ends; then once more in the same second. -/
def sampleEvents : List Event :=
  [.onFrameCaptured ⟨[1], [0]⟩, .finalizeCurrentSession, .resume 0, .resume 0, .resume 0, .resume 0, .resume 0,
    .onFrameCaptured ⟨[2], [1]⟩, .finalizeCurrentSession, .resume 0, .resume 0, .resume 0, .resume 0, .resume 0]

def sampleRecorded (frame : UInt8) : Wal :=
  { timerStart := 100
    codec := .opus
    seconds := 0
    device := "omi"
    status := .miss
    storage := .disk
    filePath := some "audio_omi_opus_16000_1_fs160_100.bin"
    data := [[frame]]
    totalFrames := 1
    syncedFrameOffset := 0 }

/-- Both recordings have one file, and it holds the frames of the second. -/
theorem finalized_twice :
    (sampleEvents.foldlM (happen sampleSession) sampleStorage).map (fun s => (s.wals, s.files, s.flushes)) =
        some ([sampleRecorded 1, sampleRecorded 2], [("audio_omi_opus_16000_1_fs160_100.bin", [1, 0, 0, 0, 2])], []) ∧
      Loaded sampleSession sampleStorage ∧ (sampleRecorded 1).getFileName = (sampleRecorded 2).getFileName ∧
      ¬Decodes (some [1, 0, 0, 0, 2]) (sampleRecorded 1).data := by
  refine ⟨by decide +kernel, ?_, rfl, ?_⟩
  · constructor <;> simp [sampleStorage]
  · rintro ⟨content, -⟩
    exact absurd content (by decide)

end OmiLocal.Wals.Phone
