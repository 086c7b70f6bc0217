import OmiLocal.Wals.PhoneWal

/-!
# Files registered from outside

`LocalWalSyncImpl.addExternalWal`: how a file that another part of the app wrote
gets its entry in the list of recordings.
-/
namespace OmiLocal.Wals.Phone

/-- The location of the running session, with the time it was set. -/
abbrev SessionLocation := Option (Geolocation × Int)

def inheritLocation (session : SessionLocation) (wal : Wal) : Wal :=
  match wal.geolocation, session with
  | none, some (location, setAt) => if setAt - 60 ≤ wal.timerStart then { wal with geolocation := some location } else wal
  | _, _ => wal

/-- A recording whose id is taken is skipped. -/
def addExternalWal (session : SessionLocation) (wals : List Wal) (wal : Wal) : List Wal :=
  if wals.any fun w => w.id == wal.id then wals else wals ++ [inheritLocation session wal]

theorem mem_addExternalWal {session : SessionLocation} {wals : List Wal} {wal w : Wal} (member : w ∈ wals) :
    w ∈ addExternalWal session wals wal := by
  unfold addExternalWal
  split
  · exact member
  · exact List.mem_append_left _ member

theorem inheritLocation_filePath (session : SessionLocation) (wal : Wal) :
    (inheritLocation session wal).filePath = wal.filePath := by
  unfold inheritLocation
  split
  · split <;> rfl
  · rfl

/-- A recording with a new id is on the list afterwards. -/
theorem added_addExternalWal (session : SessionLocation) {wals : List Wal} {wal : Wal} (new : ∀ w ∈ wals, w.id ≠ wal.id) :
    ∃ w ∈ addExternalWal session wals wal, w.filePath = wal.filePath := by
  unfold addExternalWal
  rw [if_neg (by simpa using new)]
  exact ⟨_, List.mem_append_right _ (List.mem_singleton_self _), inheritLocation_filePath session wal⟩

end OmiLocal.Wals.Phone
