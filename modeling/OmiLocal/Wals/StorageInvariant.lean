import OmiLocal.Wals.StorageSync

/-!
# Every delete hits its file

While the condition of `Careful` is respected, the number of every object that a
later step can use belongs to the file it was built from: a delete moves the
files above it down, and the app moves the same objects.
-/
namespace OmiLocal.Wals
open Lib.Transition StorageSync

/-! ## Where the numbers stay right -/

/-- The number belongs to the file. -/
def Points (files : List DeviceFile) (n : Int) (origin : Option Nat) : Prop :=
  ∃ f, fileAt files n = some f ∧ origin = some f.key

section Numbers

variable {files : List DeviceFile} {m n : Int} {origin other : Option Nat}

theorem Points.bound (points : Points files n origin) : 0 ≤ n ∧ files[n.toNat]? = fileAt files n := by
  obtain ⟨f, found, -⟩ := points
  unfold fileAt at found ⊢
  split at found
  · rename_i positive
    exact ⟨positive, (if_pos positive).symm⟩
  · cases found

theorem Points.origin_eq (points : Points files n origin) (points' : Points files n other) : origin = other := by
  obtain ⟨f, found, rfl⟩ := points
  obtain ⟨g, found', rfl⟩ := points'
  rw [found] at found'
  cases found'
  rfl

theorem Points.below (points : Points files m origin) (less : m < n) : Points (removeAt files n) m origin := by
  obtain ⟨positive, here⟩ := points.bound
  obtain ⟨f, found, key⟩ := points
  refine ⟨f, ?_, key⟩
  rw [fileAt, if_pos positive, removeAt, if_pos (by omega), List.getElem?_eraseIdx_of_lt (by omega), here]
  exact found

theorem Points.above (points : Points files m origin) (positive : 0 ≤ n) (less : n < m) :
    Points (removeAt files n) (m - 1) origin := by
  obtain ⟨-, here⟩ := points.bound
  obtain ⟨f, found, key⟩ := points
  refine ⟨f, ?_, key⟩
  rw [fileAt, if_pos (by omega), removeAt, if_pos positive, List.getElem?_eraseIdx_of_ge (by omega)]
  rw [show (m - 1).toNat + 1 = m.toNat by omega, here]
  exact found

theorem Points.append (points : Points files n origin) (f : DeviceFile) : Points (files ++ [f]) n origin := by
  obtain ⟨positive, here⟩ := points.bound
  obtain ⟨g, found, key⟩ := points
  refine ⟨g, ?_, key⟩
  rw [fileAt, if_pos positive]
  rw [found] at here
  exact (List.getElem?_append_left (List.getElem?_eq_some_iff.mp here).1).trans here

theorem Points.hit (points : Points files n origin) : (fileAt files n).map DeviceFile.key = origin := by
  obtain ⟨f, found, rfl⟩ := points
  rw [found]
  rfl

end Numbers

/-- The objects of the list, apart from their numbers. -/
structure ListOk (wals : List Nat) (objects : List Wal) (downloaded : List Nat) : Prop where
  nodup : wals.Nodup
  known : ∀ ref ∈ wals, ∃ w, objects[ref]? = some w
  card : ∀ ref ∈ wals, ∀ w, objects[ref]? = some w → w.storage = .sdcard
  origins : ∀ a ∈ wals, ∀ b ∈ wals, ∀ v w, objects[a]? = some v → objects[b]? = some w → v.origin = w.origin → a = b
  pending : ∀ ref ∈ wals, ∀ w, objects[ref]? = some w → w.status = .miss → w.outdated = false
  done : ∀ ref ∈ wals, ∀ w, objects[ref]? = some w → w.status = .synced → w.outdated = false → w.unfinished = false →
    ∀ key, w.origin = some key → key ∈ downloaded

/-- A change of objects that leaves identity and transfers alone. -/
structure Same (w w' : Wal) : Prop where
  id : w'.id = w.id
  storage : w'.storage = w.storage
  origin : w'.origin = w.origin
  status : w'.status = w.status
  unfinished : w'.unfinished = w.unfinished
  outdated : w'.outdated = false → w.outdated = false

theorem Same.keeps {w w' : Wal} (same : Same w w') (caller : Caller) : caller.keeps w' = caller.keeps w := by
  cases caller <;> simp [Caller.keeps, same.id, same.status]

theorem ListOk.map {wals : List Nat} {objects objects' : List Wal} {downloaded : List Nat} {g : Nat → Wal → Wal}
    (ok : ListOk wals objects downloaded) (changed : ∀ ref, objects'[ref]? = (objects[ref]?).map (g ref))
    (same : ∀ ref w, Same w (g ref w))
    (pending : ∀ ref ∈ wals, ∀ w, objects[ref]? = some w → w.status = .miss → (g ref w).outdated = false) :
    ListOk wals objects' downloaded := by
  have back : ∀ ref w', objects'[ref]? = some w' → ∃ w, objects[ref]? = some w ∧ g ref w = w' := by
    intro ref w' found
    rw [changed] at found
    exact Option.map_eq_some_iff.mp found
  refine ⟨ok.nodup, fun ref member => ?_, fun ref member w found => ?_, fun a ha b hb v w hv hw origin => ?_,
    fun ref member w found miss => ?_, fun ref member w found synced current finished key origin => ?_⟩
  · obtain ⟨w, found⟩ := ok.known ref member
    exact ⟨g ref w, by rw [changed, found]; rfl⟩
  · obtain ⟨w', found', rfl⟩ := back ref w found
    rw [(same ref w').storage]
    exact ok.card ref member w' found'
  · obtain ⟨v', hv', rfl⟩ := back a v hv
    obtain ⟨w', hw', rfl⟩ := back b w hw
    rw [(same a v').origin, (same b w').origin] at origin
    exact ok.origins a ha b hb v' w' hv' hw' origin
  · obtain ⟨w', found', rfl⟩ := back ref w found
    exact pending ref member w' found' ((same ref w').status ▸ miss)
  · obtain ⟨w', found', rfl⟩ := back ref w found
    obtain ⟨-, -, sameOrigin, sameStatus, sameUnfinished, outdated⟩ := same ref w'
    exact ok.done ref member w' found' (sameStatus ▸ synced) (outdated current) (sameUnfinished ▸ finished) key
      (sameOrigin ▸ origin)

/-- The objects whose numbers matter to what can follow. -/
def Task.spares : Option Task → Wal → Prop
  | some (.delete caller _ _), w => caller.keeps w = true
  | _, _ => True

def TaskOk (s : StorageSync) : Option Task → Prop
  | none => True
  | some (.sync wals i transferred) => wals.Nodup ∧ (∀ ref ∈ wals, ref ∈ s.wals) ∧
      (∀ j ref w, i < j ∨ i = j ∧ transferred = false → wals[j]? = some ref → s.objects[ref]? = some w →
        w.status = .miss) ∧
      (∀ ref ∈ s.wals, ∀ w, s.objects[ref]? = some w → w.status = .miss → ref ∈ wals) ∧
      (transferred = true → ∀ ref w, wals[i]? = some ref → s.objects[ref]? = some w →
        w.outdated = false ∧ w.status = .synced ∧ w.unfinished = false)
  | some (.delete caller deletedIds targets) => caller ≠ .syncAll ∧ targets.Nodup ∧
      (∀ ref ∈ targets, ref ∈ s.wals ∧ ∀ w, s.objects[ref]? = some w → w.id ∈ deletedIds ∧
        caller.keeps w = false ∧ Points s.files w.fileNum w.origin ∧
        (caller = .deleteAllSyncedWals → ∀ key, w.origin = some key → key ∈ s.downloaded)) ∧
      targets.Pairwise (fun a b => fileNum s.objects b ≤ fileNum s.objects a) ∧
      ∀ ref ∈ s.wals, ∀ w, s.objects[ref]? = some w → w.outdated = false → caller.keeps w = true → w.id ∈ deletedIds →
        ∀ target ∈ targets, w.fileNum ≤ fileNum s.objects target

/-- Every command hit the file its object was built from; what the two clean-up paths deleted had been downloaded. -/
def Hits (s : StorageSync) : Prop :=
  ∀ e ∈ s.sent, e.hit.isSome = true ∧ e.hit = e.origin ∧
    (e.caller = .syncAll ∨ e.caller = .deleteAllSyncedWals → ∀ key, e.hit = some key → key ∈ s.downloaded)

structure StorageInv (s : StorageSync) : Prop where
  keys : (s.files.map DeviceFile.key).Nodup
  fresh : ∀ f ∈ s.files, f.key < s.nextKey
  list : ListOk s.wals s.objects s.downloaded
  points : ∀ ref ∈ s.wals, ∀ w, s.objects[ref]? = some w → w.outdated = false → Task.spares s.task w →
    Points s.files w.fileNum w.origin
  task : TaskOk s s.task
  hits : Hits s

/-! ## Sending -/

section Steps

variable {deviceId : String} {s t : StorageSync}

theorem removeAt_sublist (files : List DeviceFile) (n : Int) : (removeAt files n).Sublist files := by
  unfold removeAt
  split
  · exact List.eraseIdx_sublist files _
  · exact List.Sublist.refl files

theorem getElem?_renumber (s : StorageSync) (n : Int) (reached : Nat → Wal → Bool) (ref : Nat) :
    (s.renumber n reached).objects[ref]? = (s.objects[ref]?).map fun w =>
      if reached ref w && decide (n < w.fileNum) then { w with fileNum := w.fileNum - 1 } else w := by
  simp [renumber]

theorem getElem?_outdate (s : StorageSync) (n : Int) (deleted : Nat) (reached : Nat → Bool) (ref : Nat) :
    (s.outdate n deleted reached).objects[ref]? = (s.objects[ref]?).map fun w =>
      if ref = deleted ∨ (reached ref = false ∧ n < w.fileNum) then { w with outdated := true } else w := by
  simp [outdate]

theorem same_renumber (reached : Bool) (n : Int) (w : Wal) :
    Same w (if reached && decide (n < w.fileNum) then { w with fileNum := w.fileNum - 1 } else w) := by
  split <;> exact ⟨rfl, rfl, rfl, rfl, rfl, id⟩

theorem fileNum_of {objects : List Wal} {ref : Nat} {w : Wal} (found : objects[ref]? = some w) :
    fileNum objects ref = w.fileNum := by
  rw [fileNum, found]
  rfl

/-- A command for a number that is right. -/
theorem Hits.send (hits : Hits s) {caller : Caller} {w : Wal} (points : Points s.files w.fileNum w.origin)
    (loaded : caller = .syncAll ∨ caller = .deleteAllSyncedWals → ∀ key, w.origin = some key → key ∈ s.downloaded)
    (ok : Bool) : Hits (s.send caller w ok) := by
  intro e member
  rcases List.mem_append.mp member with old | new
  · exact hits e old
  · rw [List.mem_singleton.mp new]
    dsimp only
    rw [points.hit]
    refine ⟨?_, rfl, loaded⟩
    obtain ⟨f, -, key⟩ := points
    rw [key]
    rfl

theorem StorageInv.files_ok (inv : StorageInv s) (n : Int) : ((removeAt s.files n).map DeviceFile.key).Nodup ∧
    ∀ f ∈ removeAt s.files n, f.key < s.nextKey :=
  ⟨inv.keys.sublist ((removeAt_sublist _ _).map _), fun f h => inv.fresh f ((removeAt_sublist _ _).subset h)⟩

section Deleting

variable {caller : Caller} {deletedIds : List String} {ref : Nat} {rest : List Nat} {w : Wal}

theorem StorageInv.not_deleted (inv : StorageInv s) (task : s.task = some (.delete caller deletedIds (ref :: rest)))
    (found : s.objects[ref]? = some w) : StorageInv (s.deleteTarget caller deletedIds rest w false) := by
  have taskOk := inv.task
  rw [task] at taskOk
  obtain ⟨notSync, nodup, targets, sorted, apart⟩ := taskOk
  obtain ⟨-, -, points, loaded⟩ := (targets ref List.mem_cons_self).2 w found
  have spared := inv.points
  rw [task] at spared
  refine ⟨inv.keys, inv.fresh, inv.list, spared, ?_, inv.hits.send points (fun h => loaded (h.resolve_left notSync)) false⟩
  exact ⟨notSync, (List.nodup_cons.mp nodup).2, fun r h => targets r (List.mem_cons_of_mem _ h),
    (List.pairwise_cons.mp sorted).2, fun o ho v hv current keeps within target h =>
      apart o ho v hv current keeps within target (List.mem_cons_of_mem _ h)⟩

/-- The targets' numbers fall, so the ones that follow are not moved; the objects that stay are renumbered. -/
theorem StorageInv.deleted (inv : StorageInv s) (task : s.task = some (.delete caller deletedIds (ref :: rest)))
    (found : s.objects[ref]? = some w) : StorageInv (s.deleteTarget caller deletedIds rest w true) := by
  have taskOk := inv.task
  rw [task] at taskOk
  obtain ⟨notSync, nodup, targets, sorted, apart⟩ := taskOk
  obtain ⟨notRest, nodupRest⟩ := List.nodup_cons.mp nodup
  obtain ⟨first, sortedRest⟩ := List.pairwise_cons.mp sorted
  obtain ⟨listedRef, here⟩ := targets ref List.mem_cons_self
  obtain ⟨inIds, dropped, points, loaded⟩ := here w found
  have positive := points.bound.1
  have spared := inv.points
  rw [task] at spared
  let g : Nat → Wal → Wal := fun r v =>
    if (decide (r ∈ s.wals) && decide (v.id ∉ deletedIds)) && decide (w.fileNum < v.fileNum) then
      { v with fileNum := v.fileNum - 1 } else v
  have changed : ∀ r : Nat, (s.deleteTarget caller deletedIds rest w true).objects[r]? = (s.objects[r]?).map (g r) :=
    fun r => getElem?_renumber _ _ _ r
  have back : ∀ (r : Nat) v', (s.deleteTarget caller deletedIds rest w true).objects[r]? = some v' →
      ∃ v, s.objects[r]? = some v ∧ v' = g r v := by
    intro r v' here
    rw [changed] at here
    obtain ⟨v, old, same⟩ := Option.map_eq_some_iff.mp here
    exact ⟨v, old, same.symm⟩
  have same : ∀ r v, Same v (g r v) := fun r v => same_renumber _ _ v
  have still : ∀ r v, v.id ∈ deletedIds → g r v = v := by
    intro r v member
    simp [g, member]
  have apartFrom : ∀ (r : Nat) v, r ∈ s.wals → r ≠ ref → s.objects[r]? = some v → Points s.files v.fileNum v.origin →
      v.fileNum ≠ w.fileNum := by
    intro r v member other old right equal
    rw [equal] at right
    exact other (inv.list.origins r member ref listedRef v w old found (right.origin_eq points))
  have stillNum : ∀ r ∈ rest, fileNum (s.deleteTarget caller deletedIds rest w true).objects r = fileNum s.objects r := by
    intro r member
    obtain ⟨listedR, hereR⟩ := targets r (List.mem_cons_of_mem _ member)
    obtain ⟨v, old⟩ := inv.list.known r listedR
    rw [fileNum, changed, old, Option.map_some, still r v (hereR v old).1, fileNum, old]
  refine ⟨(inv.files_ok w.fileNum).1, (inv.files_ok w.fileNum).2, inv.list.map changed same ?_, ?_, ?_, ?_⟩
  · intro r member v old miss
    have := inv.list.pending r member v old miss
    dsimp only [g]
    split <;> exact this
  · intro r (member : r ∈ s.wals) v' new current keeps
    obtain ⟨v, old, rfl⟩ := back r v' new
    have keepsOld : caller.keeps v = true := (same r v).keeps caller ▸ keeps
    have right := spared r member v old ((same r v).outdated current) keepsOld
    have other : r ≠ ref := by
      rintro rfl
      rw [found] at old
      cases old
      rw [dropped] at keepsOld
      cases keepsOld
    have ne := apartFrom r v member other old right
    by_cases within : v.id ∈ deletedIds
    · have low := apart r member v old ((same r v).outdated current) keepsOld within ref List.mem_cons_self
      rw [fileNum_of found] at low
      rw [still r v within]
      exact right.below (by omega)
    · by_cases above : w.fileNum < v.fileNum
      · have moved : g r v = { v with fileNum := v.fileNum - 1 } := by simp [g, member, within, above]
        rw [moved]
        exact right.above positive above
      · have stays : g r v = v := by simp [g, above]
        rw [stays]
        exact right.below (by omega)
  · refine ⟨notSync, nodupRest, fun r member => ?_, ?_, ?_⟩
    · obtain ⟨listedR, hereR⟩ := targets r (List.mem_cons_of_mem _ member)
      refine ⟨listedR, fun v' new => ?_⟩
      obtain ⟨v, old, rfl⟩ := back r v' new
      obtain ⟨ids, drops, right, loadedR⟩ := hereR v old
      have low := first r member
      rw [fileNum_of old, fileNum_of found] at low
      have ne := apartFrom r v listedR (fun same => notRest (same ▸ member)) old right
      rw [still r v ids]
      exact ⟨ids, drops, right.below (by omega), loadedR⟩
    · refine sortedRest.imp_of_mem fun {a b} ha hb order => ?_
      rw [stillNum a ha, stillNum b hb]
      exact order
    · intro r member v' new current keeps within target inRest
      obtain ⟨v, old, rfl⟩ := back r v' new
      rw [(same r v).id] at within
      rw [still r v within] at keeps current ⊢
      rw [stillNum target inRest]
      exact apart r member v old current keeps within target (List.mem_cons_of_mem _ inRest)
  · exact inv.hits.send points (fun h => loaded (h.resolve_left notSync)) true

end Deleting

theorem deleteNext_step (inv : StorageInv s) {outcome : Delete} (done : act deviceId s (.deleteNext outcome) = some t) :
    StorageInv t := by
  unfold act at done
  dsimp only at done
  split at done
  · rename_i task
    split at done
    · cases done
    · rename_i w found
      split at done
      · cases done
      · cases done
        exact inv.not_deleted task found
      · rename_i ok
        cases done
        cases ok with
        | false => exact inv.not_deleted task found
        | true => exact inv.deleted task found
  · cases done

/-! ## Syncing -/

section Syncing

variable {wals : List Nat} {i ref : Nat} {w : Wal}

theorem mem_eraseIdx_of_ne {wals : List Nat} {i ref r : Nat} (here : wals[i]? = some ref) (member : r ∈ wals)
    (other : r ≠ ref) : r ∈ wals.eraseIdx i := by
  obtain ⟨j, found⟩ := List.mem_iff_getElem?.mp member
  refine List.mem_eraseIdx_iff_getElem?.mpr ⟨j, ?_, found⟩
  rintro rfl
  rw [here] at found
  exact other (Option.some.inj found).symm

theorem StorageInv.synced_points (inv : StorageInv s) (task : s.task = some (.sync wals i true))
    (here : wals[i]? = some ref) (found : s.objects[ref]? = some w) : Points s.files w.fileNum w.origin ∧
      w.status = .synced ∧ ∀ key, w.origin = some key → key ∈ s.downloaded := by
  have taskOk := inv.task
  rw [task] at taskOk
  obtain ⟨-, subset, -, -, transferred⟩ := taskOk
  obtain ⟨current, synced, finished⟩ := transferred rfl ref w here found
  have member := subset ref (List.mem_of_getElem? here)
  refine ⟨inv.points ref member w found current ?_, synced, inv.list.done ref member w found synced current finished⟩
  rw [task]
  trivial

theorem StorageInv.sync_points (inv : StorageInv s) {transferred : Bool} (task : s.task = some (.sync wals i transferred))
    {r : Nat} (member : r ∈ s.wals) {v : Wal} (found : s.objects[r]? = some v) (current : v.outdated = false) :
    Points s.files v.fileNum v.origin := by
  refine inv.points r member v found current ?_
  rw [task]
  trivial

/-- The next turn of `syncAll`'s loop, after a change of numbers only. -/
theorem StorageInv.next_turn (inv : StorageInv s) (task : s.task = some (.sync wals i true)) {g : Nat → Wal → Wal}
    (sameWals : t.wals = s.wals) (changed : ∀ r : Nat, t.objects[r]? = (s.objects[r]?).map (g r))
    (same : ∀ r v, Same v (g r v)) : TaskOk t (some (.sync wals (i + 1) false)) := by
  have taskOk := inv.task
  rw [task] at taskOk
  obtain ⟨nodup, subset, later, all, -⟩ := taskOk
  have back : ∀ (r : Nat) v', t.objects[r]? = some v' → ∃ v, s.objects[r]? = some v ∧ v' = g r v := by
    intro r v' here
    rw [changed] at here
    obtain ⟨v, old, same⟩ := Option.map_eq_some_iff.mp here
    exact ⟨v, old, same.symm⟩
  refine ⟨nodup, fun r h => sameWals ▸ subset r h, fun j r v' after here new => ?_, fun r member v' new miss => ?_, nofun⟩
  · obtain ⟨v, old, rfl⟩ := back r v' new
    rw [(same r v).status]
    exact later j r v (by omega) here old
  · obtain ⟨v, old, rfl⟩ := back r v' new
    rw [(same r v).status] at miss
    exact all r (sameWals ▸ member) v old miss

theorem StorageInv.sync_failed (inv : StorageInv s) (task : s.task = some (.sync wals i true))
    (here : wals[i]? = some ref) (found : s.objects[ref]? = some w)
    (careful : ∀ other ∈ wals.eraseIdx i, ∀ v, s.objects[other]? = some v → v.outdated = false → v.fileNum ≤ w.fileNum) :
    StorageInv (s.deleteSynced wals i ref w false) := by
  obtain ⟨points, -, loaded⟩ := inv.synced_points task here found
  let g : Nat → Wal → Wal := fun r v =>
    if decide (r ∈ wals.eraseIdx i) && decide (w.fileNum < v.fileNum) then { v with fileNum := v.fileNum - 1 } else v
  have changed : ∀ r : Nat, (s.deleteSynced wals i ref w false).objects[r]? = (s.objects[r]?).map (g r) :=
    fun r => getElem?_renumber _ _ _ r
  have same : ∀ r v, Same v (g r v) := fun r v => same_renumber _ _ v
  refine ⟨inv.keys, inv.fresh, inv.list.map changed same ?_, ?_, inv.next_turn task rfl changed same,
    inv.hits.send points (fun _ => loaded) false⟩
  · intro r member v old miss
    have := inv.list.pending r member v old miss
    dsimp only [g]
    split <;> exact this
  · intro r (member : r ∈ s.wals) v' new current _
    rw [changed] at new
    obtain ⟨v, old, rfl⟩ := Option.map_eq_some_iff.mp new
    have right := inv.sync_points task member old ((same r v).outdated current)
    have stays : g r v = v := by
      refine if_neg ?_
      simp only [Bool.and_eq_true, decide_eq_true_eq, not_and]
      intro reached
      have := careful r reached v old ((same r v).outdated current)
      omega
    rw [stays]
    exact right

/-- After a successful delete every object of the list is renumbered, outdated, or below the deleted number. -/
theorem StorageInv.sync_deleted (inv : StorageInv s) (task : s.task = some (.sync wals i true))
    (here : wals[i]? = some ref) (found : s.objects[ref]? = some w) :
    StorageInv (s.deleteSynced wals i ref w true) := by
  obtain ⟨points, synced, loaded⟩ := inv.synced_points task here found
  have positive := points.bound.1
  have taskOk := inv.task
  rw [task] at taskOk
  obtain ⟨-, subset, -, all, -⟩ := taskOk
  have listedRef := subset ref (List.mem_of_getElem? here)
  let mark : Nat → Wal → Wal := fun r v =>
    if r = ref ∨ (decide (r ∈ wals.eraseIdx i) = false ∧ w.fileNum < v.fileNum) then { v with outdated := true } else v
  let g : Nat → Wal → Wal := fun r v =>
    if decide (r ∈ wals.eraseIdx i) && decide (w.fileNum < (mark r v).fileNum) then
      { mark r v with fileNum := (mark r v).fileNum - 1 } else mark r v
  have changed : ∀ r : Nat, (s.deleteSynced wals i ref w true).objects[r]? = (s.objects[r]?).map (g r) := by
    intro r
    refine (getElem?_renumber _ _ _ r).trans ?_
    rw [getElem?_outdate, Option.map_map]
    rfl
  have marked : ∀ r v, Same v (mark r v) := by
    intro r v
    dsimp only [mark]
    split
    · exact ⟨rfl, rfl, rfl, rfl, rfl, nofun⟩
    · exact ⟨rfl, rfl, rfl, rfl, rfl, id⟩
  have same : ∀ r v, Same v (g r v) := by
    intro r v
    have moved := same_renumber (decide (r ∈ wals.eraseIdx i)) w.fileNum (mark r v)
    obtain ⟨a, b, c, d, e, f⟩ := marked r v
    exact ⟨moved.id.trans a, moved.storage.trans b, moved.origin.trans c, moved.status.trans d, moved.unfinished.trans e,
      fun h => f (moved.outdated h)⟩
  have unmarked : ∀ r v, (g r v).outdated = false → r ≠ ref ∧ (r ∈ wals.eraseIdx i ∨ v.fileNum ≤ w.fileNum) ∧
      mark r v = v := by
    intro r v current
    have notMarked : ¬ (r = ref ∨ (decide (r ∈ wals.eraseIdx i) = false ∧ w.fileNum < v.fileNum)) := by
      intro isMarked
      have outdated : (mark r v).outdated = true := by
        dsimp only [mark]
        rw [if_pos isMarked]
      have moved := (same_renumber (decide (r ∈ wals.eraseIdx i)) w.fileNum (mark r v)).outdated current
      rw [outdated] at moved
      cases moved
    refine ⟨fun h => notMarked (.inl h), ?_, if_neg notMarked⟩
    by_cases reached : r ∈ wals.eraseIdx i
    · exact .inl reached
    · right
      by_contra above
      exact notMarked (.inr ⟨by simp [reached], by omega⟩)
  refine ⟨(inv.files_ok w.fileNum).1, (inv.files_ok w.fileNum).2, inv.list.map changed same ?_, ?_,
    inv.next_turn task rfl changed same, inv.hits.send points (fun _ => loaded) true⟩
  · intro r member v old miss
    have other : r ≠ ref := by
      rintro rfl
      rw [found] at old
      cases old
      rw [synced] at miss
      cases miss
    have reached := mem_eraseIdx_of_ne here (all r member v old miss) other
    have kept : mark r v = v := if_neg (by simp [other, reached])
    have current := inv.list.pending r member v old miss
    dsimp only [g]
    rw [kept]
    split <;> exact current
  · intro r (member : r ∈ s.wals) v' new current _
    rw [changed] at new
    obtain ⟨v, old, rfl⟩ := Option.map_eq_some_iff.mp new
    obtain ⟨other, reachedOrLow, kept⟩ := unmarked r v current
    have right := inv.sync_points task member old ((same r v).outdated current)
    have ne : v.fileNum ≠ w.fileNum := by
      intro equal
      rw [equal] at right
      exact other (inv.list.origins r member ref listedRef v w old found (right.origin_eq points))
    by_cases above : w.fileNum < v.fileNum
    · have reached := reachedOrLow.resolve_right (by omega)
      have moved : g r v = { v with fileNum := v.fileNum - 1 } := by
        dsimp only [g]
        rw [kept]
        simp [reached, above]
      rw [moved]
      exact right.above positive above
    · have stays : g r v = v := by
        dsimp only [g]
        rw [kept]
        simp [above]
      rw [stays]
      exact right.below (by omega)

theorem deleteTransferred_step (inv : StorageInv s) {outcome : Delete} (careful : Careful s (.deleteTransferred outcome))
    (done : act deviceId s (.deleteTransferred outcome) = some t) : StorageInv t := by
  unfold act at done
  dsimp only at done
  split at done
  · rename_i wals i task
    split at done
    · cases done
    · rename_i ref here
      split at done
      · cases done
      · rename_i w found
        have unchanged : ∀ r : Nat, s.objects[r]? = (s.objects[r]?).map (fun v => v) := fun r => by simp
        have next : TaskOk s (some (.sync wals (i + 1) false)) :=
          inv.next_turn (g := fun _ v => v) task rfl unchanged fun _ _ => ⟨rfl, rfl, rfl, rfl, rfl, id⟩
        have spared := inv.points
        rw [task] at spared
        have advanced : StorageInv { s with task := some (.sync wals (i + 1) false) } :=
          ⟨inv.keys, inv.fresh, inv.list, spared, next, inv.hits⟩
        split at done
        · cases done
          exact advanced
        · obtain ⟨points, -, loaded⟩ := inv.synced_points task here found
          split at done
          · cases done
            exact advanced
          · cases done
            exact ⟨inv.keys, inv.fresh, inv.list, spared, next, inv.hits.send points (fun _ => loaded) false⟩
          · rename_i ok
            cases done
            cases ok with
            | false => exact inv.sync_failed task here found (careful wals i ref w task here found)
            | true => exact inv.sync_deleted task here found
  · cases done

/-- The list after the object under `ref` is marked as synced. -/
theorem ListOk.synced {downloaded downloaded' : List Nat} {listedRefs : List Nat} {objects : List Wal}
    (ok : ListOk listedRefs objects downloaded) (grown : ∀ key ∈ downloaded, key ∈ downloaded') (found : objects[ref]? = some w)
    {unfinished : Bool} (loaded : unfinished = false → ∀ key, w.origin = some key → key ∈ downloaded') :
    ListOk listedRefs (objects.modify ref fun w => { w with status := .synced, unfinished := unfinished }) downloaded' := by
  have lookup : ∀ r : Nat, (objects.modify ref fun w => { w with status := .synced, unfinished := unfinished })[r]? =
      if r = ref then some { w with status := .synced, unfinished := unfinished } else objects[r]? := by
    intro r
    rw [List.getElem?_modify]
    by_cases same : r = ref
    · rw [if_pos same, same, found]
      simp
    · rw [if_neg same]
      simp [Ne.symm same]
  have originOf : ∀ (r : Nat) v', (objects.modify ref fun w => { w with status := .synced, unfinished := unfinished })[r]? =
      some v' → ∃ v, objects[r]? = some v ∧ v'.origin = v.origin ∧ v'.storage = v.storage := by
    intro r v' new
    rw [lookup] at new
    split at new
    · rename_i same
      cases new
      exact ⟨w, same ▸ found, rfl, rfl⟩
    · exact ⟨v', new, rfl, rfl⟩
  refine ⟨ok.nodup, fun r member => ?_, fun r member v' new => ?_, fun a ha b hb v' u' hv hu origin => ?_,
    fun r member v' new miss => ?_, fun r member v' new synced current finished key origin => ?_⟩
  · rw [lookup]
    split
    · exact ⟨_, rfl⟩
    · exact ok.known r member
  · obtain ⟨v, old, -, storage⟩ := originOf r v' new
    rw [storage]
    exact ok.card r member v old
  · obtain ⟨v, old, same, -⟩ := originOf a v' hv
    obtain ⟨u, old', same', -⟩ := originOf b u' hu
    exact ok.origins a ha b hb v u old old' (same.symm.trans (origin.trans same'))
  · rw [lookup] at new
    split at new
    · cases new
      cases miss
    · exact ok.pending r member v' new miss
  · rw [lookup] at new
    split at new
    · cases new
      exact loaded finished key origin
    · exact grown key (ok.done r member v' new synced current finished key origin)

theorem transfer_step (inv : StorageInv s) {outcome : Transfer} (done : act deviceId s (.transfer outcome) = some t) :
    StorageInv t := by
  unfold act at done
  dsimp only at done
  split at done
  · rename_i wals i task
    have taskOk := inv.task
    rw [task] at taskOk
    obtain ⟨nodup, subset, later, all, -⟩ := taskOk
    split at done
    · cases done
    · rename_i ref here
      have member := subset ref (List.mem_of_getElem? here)
      split at done
      · cases done
      · rename_i w found
        have miss := later i ref w (.inr ⟨rfl, rfl⟩) here found
        have current := inv.list.pending ref member w found miss
        have points := inv.sync_points task member found current
        have lookup : ∀ (unfinished : Bool) (r : Nat),
            (s.objects.modify ref fun w => { w with status := .synced, unfinished := unfinished })[r]? =
              if r = ref then some { w with status := .synced, unfinished := unfinished } else s.objects[r]? := by
          intro unfinished r
          rw [List.getElem?_modify]
          by_cases same : r = ref
          · rw [if_pos same, same, found]
            simp
          · rw [if_neg same]
            simp [Ne.symm same]
        have right : ∀ unfinished : Bool, ∀ r ∈ s.wals, ∀ v',
            (s.objects.modify ref fun w => { w with status := .synced, unfinished := unfinished })[r]? = some v' →
              v'.outdated = false → Points s.files v'.fileNum v'.origin := by
          intro unfinished r listedR v' new notOutdated
          rw [lookup] at new
          split at new
          · cases new
            exact points
          · exact inv.sync_points task listedR new notOutdated
        split at done
        · cases done
          exact ⟨inv.keys, inv.fresh, inv.list, fun r h v hv notOutdated _ => inv.sync_points task h hv notOutdated, trivial,
            inv.hits⟩
        · cases done
          exact ⟨inv.keys, inv.fresh, inv.list.synced (fun _ h => h) found nofun,
            fun r h v hv notOutdated _ => right true r h v hv notOutdated, trivial, inv.hits⟩
        · cases done
          refine ⟨inv.keys, inv.fresh, inv.list.synced (fun _ h => List.mem_append_left _ h) found ?_,
            fun r h v hv notOutdated _ => right false r h v hv notOutdated, ?_, ?_⟩
          · intro _ key origin
            refine List.mem_append_right _ ?_
            rw [points.hit, origin]
            simp
          · refine ⟨nodup, subset, fun j r v after there new => ?_, fun r listedR v new missing => ?_, fun _ r v there new => ?_⟩
            · have beyond : i < j := after.resolve_right (by simp)
              have other : r ≠ ref := by
                rintro rfl
                have := (List.getElem?_inj (List.getElem?_eq_some_iff.mp here).1 nodup).mp (here.trans there.symm)
                omega
              change (s.objects.modify ref _)[r]? = _ at new
              rw [lookup, if_neg other] at new
              exact later j r v (.inl beyond) there new
            · change (s.objects.modify ref _)[r]? = _ at new
              rw [lookup] at new
              split at new
              · cases new
                cases missing
              · exact all r listedR v new missing
            · rw [here] at there
              cases there
              change (s.objects.modify ref _)[ref]? = _ at new
              rw [lookup, if_pos rfl] at new
              cases new
              exact ⟨current, rfl, rfl⟩
          · intro e old
            obtain ⟨some, same, loaded⟩ := inv.hits e old
            exact ⟨some, same, fun h key hit => List.mem_append_left _ (loaded h key hit)⟩
  · cases done

end Syncing

/-! ## The other steps -/

theorem mem_select {p : Wal → Bool} {ref : Nat} : ref ∈ s.select p ↔ ref ∈ s.wals ∧ ∃ w, s.objects[ref]? = some w ∧ p w = true := by
  simp [select, Option.any_eq_true]

/-- A task goes on when objects of the list and their files stay as they are. -/
theorem TaskOk.mono {task : Option Task} (ok : TaskOk s task) (wals : t.wals = s.wals)
    (known : ∀ ref ∈ s.wals, t.objects[ref]? = s.objects[ref]?)
    (points : ∀ n origin, Points s.files n origin → Points t.files n origin) (downloaded : t.downloaded = s.downloaded) :
    TaskOk t task := by
  cases task with
  | none => trivial
  | some task =>
      cases task with
      | sync list i transferred =>
          obtain ⟨nodup, subset, later, all, current⟩ := ok
          have old : ∀ (j : Nat) ref w, list[j]? = some ref → t.objects[ref]? = some w → s.objects[ref]? = some w := by
            intro j ref w here found
            rw [← known ref (subset ref (List.mem_of_getElem? here))]
            exact found
          refine ⟨nodup, fun ref h => wals ▸ subset ref h, fun j ref w after here found =>
            later j ref w after here (old j ref w here found), fun ref member w found miss => ?_, fun h ref w here found =>
            current h ref w here (old i ref w here found)⟩
          rw [wals] at member
          exact all ref member w (known ref member ▸ found) miss
      | delete caller deletedIds targets =>
          obtain ⟨notSync, nodup, right, sorted, apart⟩ := ok
          have sameNum : ∀ ref ∈ targets, fileNum t.objects ref = fileNum s.objects ref := by
            intro ref member
            rw [fileNum, known ref (right ref member).1, fileNum]
          refine ⟨notSync, nodup, fun ref member => ⟨wals ▸ (right ref member).1, fun w found => ?_⟩,
            sorted.imp_of_mem fun {a b} ha hb order => ?_, fun ref member w found current keeps within target isTarget => ?_⟩
          · rw [known ref (right ref member).1] at found
            obtain ⟨ids, drops, points_, loaded⟩ := (right ref member).2 w found
            exact ⟨ids, drops, points _ _ points_, downloaded ▸ loaded⟩
          · rw [sameNum a ha, sameNum b hb]
            exact order
          · rw [wals] at member
            rw [sameNum target isTarget]
            exact apart ref member w (known ref member ▸ found) current keeps within target isTarget

theorem append_step (inv : StorageInv s) {timestamp sizeBytes : Nat}
    (done : act deviceId s (.append timestamp sizeBytes) = some t) : StorageInv t := by
  cases done
  refine ⟨?_, ?_, inv.list, fun ref h w found current spared => (inv.points ref h w found current spared).append _,
    inv.task.mono rfl (fun _ _ => rfl) (fun _ _ h => h.append _) rfl, inv.hits⟩
  · rw [List.map_append, List.nodup_append]
    refine ⟨inv.keys, by simp, ?_⟩
    intro key old other new same
    obtain ⟨f, member, rfl⟩ := List.mem_map.mp old
    have := inv.fresh f member
    simp at new
    omega
  · intro f member
    rcases List.mem_append.mp member with old | new
    · have := inv.fresh f old
      dsimp only
      omega
    · rw [List.mem_singleton.mp new]
      exact Nat.lt_succ_self _

theorem foreign_step (inv : StorageInv s) {wal : Wal} (done : act deviceId s (.foreign wal) = some t) :
    StorageInv t := by
  cases done
  have known : ∀ ref ∈ s.wals, (s.objects ++ [{ wal with origin := none, outdated := false, unfinished := false }])[ref]? =
      s.objects[ref]? := by
    intro ref member
    obtain ⟨w, found⟩ := inv.list.known ref member
    exact List.getElem?_append_left (List.getElem?_eq_some_iff.mp found).1
  refine ⟨inv.keys, inv.fresh, ?_, fun ref h w found current spared => ?_,
    inv.task.mono rfl known (fun _ _ h => h) rfl, inv.hits⟩
  · refine ⟨inv.list.nodup, fun ref h => ?_, fun ref h w found => ?_, fun a ha b hb v w hv hw => ?_, fun ref h w found => ?_,
      fun ref h w found => ?_⟩
    · dsimp only
      rw [known ref h]
      exact inv.list.known ref h
    · exact inv.list.card ref h w (known ref h ▸ found)
    · exact inv.list.origins a ha b hb v w (known a ha ▸ hv) (known b hb ▸ hw)
    · exact inv.list.pending ref h w (known ref h ▸ found)
    · exact inv.list.done ref h w (known ref h ▸ found)
  · exact inv.points ref h w (known ref h ▸ found) current spared

/-- A shorter list, and no operation. -/
theorem StorageInv.shorter (inv : StorageInv s) {wals : List Nat} (part : wals.Sublist s.wals)
    (kept : ∀ ref ∈ wals, ∀ w, s.objects[ref]? = some w → Task.spares s.task w) :
    StorageInv { s with wals := wals, task := none } := by
  have list := inv.list
  have inside : ∀ ref ∈ wals, ref ∈ s.wals := fun ref h => part.subset h
  exact ⟨inv.keys, inv.fresh, ⟨list.nodup.sublist part, fun ref h => list.known ref (inside ref h),
    fun ref h => list.card ref (inside ref h), fun a ha b hb => list.origins a (inside a ha) b (inside b hb),
    fun ref h => list.pending ref (inside ref h), fun ref h => list.done ref (inside ref h)⟩,
    fun ref h w found current _ => inv.points ref (inside ref h) w found current (kept ref h w found), trivial, inv.hits⟩

theorem finishDelete_step (inv : StorageInv s) (done : act deviceId s .finishDelete = some t) : StorageInv t := by
  unfold act at done
  dsimp only at done
  split at done
  · rename_i caller deletedIds task
    cases done
    refine inv.shorter List.filter_sublist fun ref member w found => ?_
    obtain ⟨-, w', found', keeps⟩ := mem_select.mp member
    rw [found] at found'
    cases found'
    rw [task]
    exact keeps
  · cases done

theorem stopSync_step (inv : StorageInv s) (done : act deviceId s .stopSync = some t) : StorageInv t := by
  unfold act at done
  dsimp only at done
  split at done
  · rename_i task
    cases done
    refine inv.shorter (List.Sublist.refl _) fun ref _ w _ => ?_
    rw [task]
    trivial
  · cases done

theorem syncAll_step (inv : StorageInv s) {order : List Nat} (done : act deviceId s (.syncAll order) = some t) :
    StorageInv t := by
  unfold act at done
  dsimp only at done
  split at done
  · rename_i guard_
    obtain ⟨idle, perm, -⟩ := guard_
    cases done
    have spared : ∀ ref ∈ s.wals, ∀ w, s.objects[ref]? = some w → w.outdated = false → Points s.files w.fileNum w.origin := by
      intro ref h w found current
      refine inv.points ref h w found current ?_
      rw [idle]
      trivial
    have selected : ∀ ref, ref ∈ order ↔ ref ∈ s.wals ∧ ∃ w, s.objects[ref]? = some w ∧
        (w.status == .miss && w.storage == .sdcard) = true := fun ref => perm.mem_iff.trans mem_select
    split
    · exact ⟨inv.keys, inv.fresh, inv.list, fun ref h w found current _ => spared ref h w found current, trivial, inv.hits⟩
    · refine ⟨inv.keys, inv.fresh, inv.list, fun ref h w found current _ => spared ref h w found current, ?_, inv.hits⟩
      refine ⟨perm.nodup_iff.mpr (inv.list.nodup.sublist List.filter_sublist), fun ref h => ((selected ref).mp h).1,
        fun j ref w _ here found => ?_, fun ref member w found miss => ?_, nofun⟩
      · obtain ⟨-, w', found', missing⟩ := (selected ref).mp (List.mem_of_getElem? here)
        change s.objects[ref]? = some w at found
        rw [found] at found'
        cases found'
        simp only [Bool.and_eq_true, beq_iff_eq] at missing
        exact missing.1
      · refine (selected ref).mpr ⟨member, w, found, ?_⟩
        simp [miss, inv.list.card ref member w found]
  · cases done

/-- The start of `_deleteWalsOnDevice`, when every target's number is right and the objects that stay are told apart
from the targets by their ids. -/
theorem startDelete_step (inv : StorageInv s) {caller : Caller} {refs order : List Nat} {connected : Bool}
    (notSync : caller ≠ .syncAll) (nodup : refs.Nodup)
    (right : connected = true → ∀ ref ∈ refs, ref ∈ s.wals ∧ ∀ w, s.objects[ref]? = some w → w.outdated = false ∧
      caller.keeps w = false ∧ (caller = .deleteAllSyncedWals → w.status = .synced ∧ w.unfinished = false))
    (apart : connected = true → ∀ ref ∈ s.wals, ∀ w, s.objects[ref]? = some w → w.outdated = false → caller.keeps w = true →
      (∃ other ∈ refs, ∃ v, s.objects[other]? = some v ∧ v.id = w.id) → ∀ target ∈ refs,
      w.fileNum ≤ fileNum s.objects target)
    (done : s.startDelete caller refs connected order = some t) : StorageInv t := by
  unfold startDelete at done
  obtain ⟨⟨idle, perm, sorted⟩, same⟩ := Option.ite_none_right_eq_some.mp done
  cases same
  have spared : ∀ ref ∈ s.wals, ∀ w, s.objects[ref]? = some w → w.outdated = false → Points s.files w.fileNum w.origin := by
    intro ref h w found current
    refine inv.points ref h w found current ?_
    rw [idle]
    trivial
  have inside : ∀ ref ∈ order, connected = true ∧ ref ∈ refs := by
    intro ref member
    have := perm.mem_iff.mp member
    cases connected with
    | false => cases this
    | true => exact ⟨rfl, (List.mem_filter.mp this).1⟩
  refine ⟨inv.keys, inv.fresh, inv.list, fun ref h w found current _ => spared ref h w found current, ?_, inv.hits⟩
  refine ⟨notSync, ?_, fun ref member => ?_, sorted, fun ref member w found current keeps within target isTarget => ?_⟩
  · refine perm.nodup_iff.mpr ?_
    split
    · exact nodup.sublist List.filter_sublist
    · exact List.nodup_nil
  · obtain ⟨online, isRef⟩ := inside ref member
    obtain ⟨listedRef, here⟩ := right online ref isRef
    refine ⟨listedRef, fun w found => ?_⟩
    obtain ⟨current, drops, synced⟩ := here w found
    refine ⟨List.mem_filterMap.mpr ⟨ref, member, ?_⟩, drops, spared ref listedRef w found current, fun isSynced => ?_⟩
    · rw [show s.objects[ref]? = some w from found]
      rfl
    · exact inv.list.done ref listedRef w found (synced isSynced).1 current (synced isSynced).2
  · obtain ⟨online, isRef⟩ := inside target isTarget
    obtain ⟨other, isOther, named⟩ := List.mem_filterMap.mp within
    obtain ⟨v, there, sameId⟩ := Option.map_eq_some_iff.mp named
    exact apart online ref member w found current keeps ⟨other, (inside other isOther).2, v, there, sameId⟩ target isRef

theorem deleteWal_step (inv : StorageInv s) {ref : Nat} {connected : Bool} (careful : Careful s (.deleteWal ref connected))
    (done : act deviceId s (.deleteWal ref connected) = some t) : StorageInv t := by
  unfold act at done
  dsimp only at done
  split at done
  · cases done
  · rename_i w found
    refine startDelete_step inv (by simp) (by simp) (fun online other member => ?_)
      (fun _ other member v here current keeps named => ?_) done
    · subst online
      rw [List.mem_singleton.mp member]
      refine ⟨careful.1, fun v here => ?_⟩
      rw [found] at here
      cases here
      exact ⟨careful.2 w found, by simp [Caller.keeps], nofun⟩
    · obtain ⟨target, isTarget, u, there, sameId⟩ := named
      rw [List.mem_singleton.mp isTarget, found] at there
      cases there
      simp [Caller.keeps, sameId] at keeps

theorem deleteAll_apart {st : WalStatus} (apart : Apart s st) {w : Wal} {ref : Nat}
    (member : ref ∈ s.wals) (found : s.objects[ref]? = some w) (current : w.outdated = false) (other : w.status ≠ st)
    (named : ∃ other ∈ s.select (fun w => w.status == st), ∃ v, s.objects[other]? = some v ∧ v.id = w.id) {target : Nat}
    (isTarget : target ∈ s.select fun w => w.status == st) : w.fileNum ≤ fileNum s.objects target := by
  obtain ⟨twin, isTwin, v, there, sameId⟩ := named
  obtain ⟨listedTwin, v', there', status⟩ := mem_select.mp isTwin
  rw [there] at there'
  cases there'
  obtain ⟨listedTarget, u, here, targetStatus⟩ := mem_select.mp isTarget
  rw [fileNum_of here]
  exact apart ref member w found current other ⟨twin, listedTwin, v, there, by simpa using status, sameId⟩ target
    listedTarget u here (by simpa using targetStatus)

theorem deleteAllSynced_step (inv : StorageInv s) {connected : Bool} {order : List Nat}
    (careful : Careful s (.deleteAllSyncedWals connected order))
    (done : act deviceId s (.deleteAllSyncedWals connected order) = some t) : StorageInv t := by
  refine startDelete_step inv (by simp) (inv.list.nodup.sublist List.filter_sublist) (fun online ref member => ?_)
    (fun online ref member w found current keeps named target isTarget => ?_) done
  · subst online
    obtain ⟨listedRef, w, found, status⟩ := mem_select.mp member
    have synced : w.status = .synced := by simpa using status
    refine ⟨listedRef, fun v here => ?_⟩
    rw [found] at here
    cases here
    obtain ⟨current, finished⟩ := careful.1 ref listedRef w found synced
    exact ⟨current, by simp [Caller.keeps, synced], fun _ => ⟨synced, finished⟩⟩
  · subst online
    exact deleteAll_apart careful.2 member found current (by simpa [Caller.keeps] using keeps) named isTarget

theorem deleteAllPending_step (inv : StorageInv s) {connected : Bool} {order : List Nat}
    (careful : Careful s (.deleteAllPendingWals connected order))
    (done : act deviceId s (.deleteAllPendingWals connected order) = some t) : StorageInv t := by
  refine startDelete_step inv (by simp) (inv.list.nodup.sublist List.filter_sublist) (fun online ref member => ?_)
    (fun online ref member w found current keeps named target isTarget => ?_) done
  · obtain ⟨listedRef, w, found, status⟩ := mem_select.mp member
    have miss : w.status = .miss := by simpa using status
    refine ⟨listedRef, fun v here => ?_⟩
    rw [found] at here
    cases here
    exact ⟨inv.list.pending ref listedRef w found miss, by simp [Caller.keeps, miss], nofun⟩
  · subst online
    exact deleteAll_apart careful member found current (by simpa [Caller.keeps] using keeps) named isTarget

theorem mem_listed {fps frameLength : Nat} {files : List DeviceFile} {w : Wal}
    (member : w ∈ listed deviceId fps frameLength files) : Points files w.fileNum w.origin ∧ w.status = .miss ∧
      w.storage = .sdcard ∧ w.outdated = false := by
  obtain ⟨⟨file, index⟩, here, built⟩ := List.mem_filterMap.mp member
  dsimp only at built
  split at built
  · cases built
  · cases built
    have found := List.mem_zipIdx_iff_getElem?.mp here
    exact ⟨⟨file, by rw [fileAt, if_pos (Int.natCast_nonneg index), Int.toNat_natCast]; exact found, rfl⟩, rfl, rfl, rfl⟩

/-- A listing builds at most one object for each file. -/
theorem listed_origins (deviceId : String) {files : List DeviceFile} (keys : (files.map DeviceFile.key).Nodup)
    (fps frameLength : Nat) :
    (listed deviceId fps frameLength files).Pairwise fun v w => v.origin ≠ w.origin := by
  have apart : files.zipIdx.Pairwise fun a b => a.1.key ≠ b.1.key := by
    have := List.pairwise_map.mp keys
    rw [← List.zipIdx_map_fst 0 files, List.pairwise_map] at this
    exact this
  refine List.Pairwise.filterMap _ ?_ apart
  intro a b ne v hv w hw same
  dsimp only at hv hw
  obtain ⟨-, builtA⟩ := Option.ite_none_left_eq_some.mp hv
  obtain ⟨-, builtB⟩ := Option.ite_none_left_eq_some.mp hw
  cases builtA
  cases builtB
  exact ne (Option.some.inj same)

theorem refresh_step (inv : StorageInv s) {fps frameLength : Nat} {order : List Nat}
    (done : act deviceId s (.refresh fps frameLength order) = some t) : StorageInv t := by
  obtain ⟨⟨idle, perm, -⟩, same⟩ := Option.ite_none_right_eq_some.mp done
  cases same
  have built : ∀ ref ∈ order, s.objects.length ≤ ref ∧ ∀ w,
      (s.objects ++ listed deviceId fps frameLength s.files)[ref]? = some w →
        (listed deviceId fps frameLength s.files)[ref - s.objects.length]? = some w := by
    intro ref member
    obtain ⟨low, -⟩ := List.mem_range'_1.mp (perm.mem_iff.mp member)
    refine ⟨low, fun w found => ?_⟩
    rw [List.getElem?_append_right low] at found
    exact found
  have fact : ∀ ref ∈ order, ∀ w, (s.objects ++ listed deviceId fps frameLength s.files)[ref]? = some w →
      Points s.files w.fileNum w.origin ∧ w.status = .miss ∧ w.storage = .sdcard ∧ w.outdated = false :=
    fun ref member w found => mem_listed (List.mem_of_getElem? ((built ref member).2 w found))
  refine ⟨inv.keys, inv.fresh, ⟨perm.nodup_iff.mpr List.nodup_range', fun ref member => ?_, fun ref member w found => ?_,
    fun a ha b hb v w hv hw origin => ?_, fun ref member w found _ => ?_, fun ref member w found synced => ?_⟩,
    fun ref member w found _ _ => (fact ref member w found).1, ?_, inv.hits⟩
  · obtain ⟨-, high⟩ := List.mem_range'_1.mp (perm.mem_iff.mp member)
    exact ⟨_, List.getElem?_eq_getElem (by rw [List.length_append]; exact high)⟩
  · exact (fact ref member w found).2.2.1
  · obtain ⟨lowA, foundA⟩ := built a ha
    obtain ⟨lowB, foundB⟩ := built b hb
    obtain ⟨insideA, isV⟩ := List.getElem?_eq_some_iff.mp (foundA v hv)
    obtain ⟨insideB, isW⟩ := List.getElem?_eq_some_iff.mp (foundB w hw)
    have apart := List.pairwise_iff_getElem.mp (listed_origins deviceId inv.keys fps frameLength)
    rcases Nat.lt_trichotomy (a - s.objects.length) (b - s.objects.length) with less | equal | more
    · exact absurd (by rw [isV, isW]; exact origin) (apart _ _ insideA insideB less)
    · omega
    · exact absurd (by rw [isV, isW]; exact origin.symm) (apart _ _ insideB insideA more)
  · exact (fact ref member w found).2.2.2
  · rw [(fact ref member w found).2.1] at synced
    cases synced
  · dsimp only
    rw [idle]
    trivial

theorem carefulStep_inv {a : StorageAction} (inv : StorageInv s) (step : carefulStep deviceId s a t) : StorageInv t := by
  obtain ⟨done, careful⟩ := step
  cases a with
  | append timestamp sizeBytes => exact append_step inv done
  | foreign wal => exact foreign_step inv done
  | refreshFails =>
      cases done
      exact inv
  | refreshEmpty =>
      obtain ⟨idle, same⟩ := Option.ite_none_right_eq_some.mp done
      cases same
      have := inv.shorter (List.nil_sublist s.wals) nofun
      rw [← idle] at this
      exact this
  | refresh fps frameLength order => exact refresh_step inv done
  | syncAll order => exact syncAll_step inv done
  | stopSync => exact stopSync_step inv done
  | transfer outcome => exact transfer_step inv done
  | deleteTransferred outcome => exact deleteTransferred_step inv careful done
  | deleteWal ref connected => exact deleteWal_step inv careful done
  | deleteAllSyncedWals connected order => exact deleteAllSynced_step inv careful done
  | deleteAllPendingWals connected order => exact deleteAllPending_step inv careful done
  | deleteNext outcome => exact deleteNext_step inv done
  | finishDelete => exact finishDelete_step inv done

theorem emptyStorage_inv : StorageInv emptyStorage where
  keys := List.nodup_nil
  fresh := fun _ h => absurd h List.not_mem_nil
  list := ⟨List.nodup_nil, nofun, nofun, nofun, nofun, nofun⟩
  points := fun _ h => absurd h List.not_mem_nil
  task := trivial
  hits := fun _ h => absurd h List.not_mem_nil

end Steps

/-! ## Runs -/

/-- In every run whose steps respect the condition, every delete command goes to the file that its object was built
from, and what `syncAll` and `deleteAllSyncedWals` delete had been downloaded completely. -/
theorem deletes_hit_their_files {deviceId : String} {s : StorageSync}
    (run : Reachable (· = emptyStorage) (carefulStep deviceId) s) :
    ∀ e ∈ s.sent, e.hit.isSome = true ∧ e.hit = e.origin ∧
      (e.caller = .syncAll ∨ e.caller = .deleteAllSyncedWals → ∀ key, e.hit = some key → key ∈ s.downloaded) := by
  have inv : StorageInv s := by
    refine run.invariant (I := StorageInv) ?_ fun s a t before step => carefulStep_inv before step
    rintro s rfl
    exact emptyStorage_inv
  exact inv.hits

/-- Two files are listed and the first one is downloaded and deleted. -/
def firstSynced : List StorageAction :=
  [.append 100 100000, .append 200 100000, .refresh 50 80 [0, 1], .syncAll [0, 1], .transfer .complete,
    .deleteTransferred (.returned true)]

theorem deletes_hit_their_files_first : ∃ s, Reachable (· = emptyStorage) (carefulStep "omi") s ∧
    (⟨.syncAll, some 0, some 0, true⟩ : Sent) ∈ s.sent ∧ 0 ∈ s.downloaded := by
  have done : (firstSynced.foldlM (act "omi") emptyStorage).any (fun s => s.sent == [⟨.syncAll, some 0, some 0, true⟩]) = true := by
    decide +kernel
  obtain ⟨s, ran, logged⟩ := (Option.any_eq_true _ _).mp done
  have run : Reachable (· = emptyStorage) (carefulStep "omi") s := by
    refine Reachable.actions (f := act "omi") ?_ (.start rfl) ran
    intro a member s t step
    refine ⟨step, ?_⟩
    simp only [firstSynced, List.mem_cons, List.not_mem_nil, or_false] at member
    rcases member with rfl | rfl | rfl | rfl | rfl | rfl <;> trivial
  have here : (⟨.syncAll, some 0, some 0, true⟩ : Sent) ∈ s.sent := by
    rw [eq_of_beq logged]
    exact List.mem_singleton_self _
  exact ⟨s, run, here, (deletes_hit_their_files run _ here).2.2 (.inl rfl) 0 rfl⟩

/-- Then the rest is cancelled and the synced recordings are cleared. -/
def clearedAfterSync : List StorageAction :=
  firstSynced ++ [.stopSync, .deleteAllSyncedWals true [0], .deleteNext (.returned true)]

/-- The object of the deleted file stays in the list with its number; clearing the synced recordings then deletes the
second file, of which nothing was ever downloaded. -/
theorem undownloaded_file_deleted : ∃ s, Reachable (· = emptyStorage) (storageStep "omi") s ∧
    (⟨.deleteAllSyncedWals, some 0, some 1, true⟩ : Sent) ∈ s.sent ∧ 1 ∉ s.downloaded ∧ s.files = [] := by
  have done : (clearedAfterSync.foldlM (act "omi") emptyStorage).any (fun s =>
      decide ((⟨.deleteAllSyncedWals, some 0, some 1, true⟩ : Sent) ∈ s.sent ∧ 1 ∉ s.downloaded ∧ s.files = [])) = true := by
    decide +kernel
  obtain ⟨s, ran, logged⟩ := (Option.any_eq_true _ _).mp done
  exact ⟨s, Reachable.actions (fun _ _ _ _ step => step) (.start rfl) ran, of_decide_eq_true logged⟩

end OmiLocal.Wals
