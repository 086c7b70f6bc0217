import OmiLocal.Capture.Progress

/-!
# The storage that the outbox allows itself

`pendingBytes` and `_queuedBytes` against the directory and the queue of jobs.
`pendingBytes` is raised after a flush, so a running write is ahead of it by the
bytes it has put into its part; `uncounted` is that lead. A drain deletes files
at any time and leaves the counter too high until its count runs.
-/
namespace OmiLocal.Capture
open Lib.Framing Lib.Json Lib.Transition

/-- What `_countPending` adds up. -/
def storedBytes (files : List PartFile) : Nat := (files.map fun f => f.content.length).sum

/-- The packets of the `add` calls that have not ended. -/
def acceptedBytes (jobs : List Job) : Nat := ((jobs.filterMap Job.payload).map List.length).sum

/-- What the running write has put into its part and not counted yet. -/
def uncounted (p : Phone) : Nat :=
  match p.stage, p.jobs with
  | .opening header preroll rest, _ => openingBytes header preroll - rest.length
  | .writing rest, .add _ payload _ _ :: _ => payload.length + 4 - rest.length
  | _, _ => 0

/-- The next system call of the job writes to a journal or flushes what was written. -/
def Stage.writes : Stage → Bool
  | .opening _ _ _ => true
  | .writing _ => true
  | _ => false

/-- A process whose `initialize` has counted a directory within the limit. -/
structure Initialized (limits : Limits) (p : Phone) : Prop where
  counted : p = countPending { terminate p with recovery := none }
  names : (p.files.map PartFile.id).Nodup
  drawn : ∀ f ∈ p.files, f.id ∈ p.issued
  room : storedBytes p.files ≤ limits.maxStorageBytes

/-- The process stays alive and no journal write fails. -/
def quotaStep (limits : Limits) (sha256 : Bytes → String) (p : Phone) (a : PhoneAction) (p' : Phone) : Prop :=
  perform limits sha256 p a = some p' ∧ a ≠ .terminate ∧
    ∀ io, a = .work io → p.stage.writes = true → io.fails = false

/-- The job that runs is an `add` of this packet to a recording with such a handle. -/
def Adding (p : Phone) (payload : Packet) (held : Option Uuid → Prop) : Prop :=
  ∃ k duration now rest r, p.jobs = .add k payload duration now :: rest ∧ p.recordings[k]? = some r ∧ held r.handle

/-- What the job that runs may still write is reserved. -/
def Within (limits : Limits) (p : Phone) : Stage → Prop
  | .create header preroll => ∃ payload, Adding p payload (fun _ => True) ∧ header.id ∈ p.issued ∧
      (∀ f ∈ p.files, f.id ≠ header.id) ∧ storedBytes p.files ≤ p.pendingBytes ∧
      p.pendingBytes + openingBytes header preroll + (payload.length + 4) ≤ limits.maxStorageBytes
  | .handle header preroll => ∃ payload, Adding p payload (fun _ => True) ∧ storedBytes p.files ≤ p.pendingBytes ∧
      p.pendingBytes + openingBytes header preroll + (payload.length + 4) ≤ limits.maxStorageBytes
  | .opening header preroll rest => ∃ payload, Adding p payload (· = some header.id) ∧
      rest.length ≤ openingBytes header preroll ∧
      storedBytes p.files + rest.length ≤ p.pendingBytes + openingBytes header preroll ∧
      p.pendingBytes + openingBytes header preroll + (payload.length + 4) ≤ limits.maxStorageBytes
  | .quota => ∃ payload, Adding p payload (·.isSome) ∧ storedBytes p.files ≤ p.pendingBytes
  | .writing rest => ∃ payload, Adding p payload (·.isSome) ∧ rest.length ≤ payload.length + 4 ∧
      storedBytes p.files + rest.length ≤ p.pendingBytes + (payload.length + 4) ∧
      p.pendingBytes + (payload.length + 4) ≤ limits.maxStorageBytes
  | _ => storedBytes p.files ≤ p.pendingBytes

/-- The counters, apart from what the running job has yet to count. -/
structure Accounts (limits : Limits) (p : Phone) : Prop where
  ready : p.recovery = none
  names : (p.files.map PartFile.id).Nodup
  drawn : ∀ f ∈ p.files, f.id ∈ p.issued
  pending : p.pendingBytes ≤ limits.maxStorageBytes
  queued : p.queuedBytes = acceptedBytes p.jobs
  window : p.queuedBytes ≤ limits.maxQueuedBytes

structure Quota (limits : Limits) (p : Phone) : Prop extends Accounts limits p where
  stage : Within limits p p.stage

/-! ## Files and jobs -/

theorem acceptedBytes_append (jobs more : List Job) :
    acceptedBytes (jobs ++ more) = acceptedBytes jobs + acceptedBytes more := by
  unfold acceptedBytes
  rw [List.filterMap_append, List.map_append, List.sum_append]

theorem acceptedBytes_add (k : Nat) (payload : Packet) (duration : Nat) (now : DateTime) (rest : List Job) :
    acceptedBytes (.add k payload duration now :: rest) = payload.length + acceptedBytes rest := by
  unfold acceptedBytes
  rw [List.filterMap_cons_some (f := Job.payload) rfl, List.map_cons, List.sum_cons]

theorem acceptedBytes_other {job : Job} (silent : job.payload = none) (rest : List Job) :
    acceptedBytes (job :: rest) = acceptedBytes rest := by
  unfold acceptedBytes
  rw [List.filterMap_cons_none silent]

theorem storedBytes_append (files : List PartFile) (f : PartFile) :
    storedBytes (files ++ [f]) = storedBytes files + f.content.length := by
  unfold storedBytes
  rw [List.map_append, List.sum_append, List.map_singleton, List.sum_singleton]

theorem storedBytes_sublist {files files' : List PartFile} (fewer : files'.Sublist files) :
    storedBytes files' ≤ storedBytes files :=
  List.Sublist.sum_le_sum (fewer.map fun f => f.content.length) (fun _ _ => Nat.zero_le _)

theorem map_id_changeFile (files : List PartFile) (id : Uuid) {change : PartFile → PartFile}
    (sameId : ∀ f, (change f).id = f.id) : (changeFile files id change).map PartFile.id = files.map PartFile.id := by
  unfold changeFile
  rw [List.map_map]
  refine List.map_congr_left fun f _ => ?_
  simp only [Function.comp_apply]
  split
  · exact sameId f
  · rfl

theorem storedBytes_sealFile (files : List PartFile) (id : Uuid) : storedBytes (sealFile files id) = storedBytes files := by
  unfold storedBytes sealFile changeFile
  rw [List.map_map]
  congr 1
  refine List.map_congr_left fun f _ => ?_
  simp only [Function.comp_apply]
  split <;> rfl

/-- One file at most has the name, so one file at most grows. -/
theorem storedBytes_appendFile {files : List PartFile} (names : (files.map PartFile.id).Nodup) (id : Uuid) (bytes : Bytes) :
    storedBytes (appendFile files id bytes) ≤ storedBytes files + bytes.length := by
  induction files with
  | nil => exact Nat.zero_le _
  | cons f files ih =>
      rw [List.map_cons, List.nodup_cons] at names
      have rest := ih names.2
      by_cases mine : f.id = id
      · have absent : ∀ g ∈ files, g.id ≠ id := fun g member same =>
          names.1 (mine.trans same.symm ▸ List.mem_map_of_mem member)
        have others : appendFile files id bytes = files := changeFile_absent absent _
        simp only [appendFile, changeFile, List.map_cons, if_pos mine, storedBytes, List.sum_cons,
          List.length_append] at others ⊢
        rw [others]
        omega
      · simp only [appendFile, changeFile, List.map_cons, if_neg mine, storedBytes, List.sum_cons] at rest ⊢
        omega

section Steps

variable {limits : Limits} {sha256 : Bytes → String} {p p' : Phone} {job : Job} {jobs : List Job} {k : Nat}
  {r : Recording} {payload : Packet} {duration : Nat} {now : DateTime}

theorem Adding.same {payload' : Packet} {held : Option Uuid → Prop} (adding : Adding p payload' held)
    (here : p.jobs = .add k payload duration now :: jobs) (found : p.recordings[k]? = some r) :
    payload = payload' ∧ held r.handle := by
  obtain ⟨_, _, _, _, r', at_, there, held⟩ := adding
  rw [here] at at_
  cases at_
  rw [found] at there
  cases there
  exact ⟨rfl, held⟩

theorem Within.stored {stage : Stage} (within : Within limits p stage) (silent : stage.writes = false) :
    storedBytes p.files ≤ p.pendingBytes := by
  cases stage with
  | start => exact within
  | flush => exact within
  | close => exact within
  | rename => exact within
  | fresh => exact within
  | create header preroll =>
      obtain ⟨_, _, _, _, stored, _⟩ := within
      exact stored
  | handle header preroll =>
      obtain ⟨_, _, stored, _⟩ := within
      exact stored
  | opening header preroll rest => cases silent
  | quota =>
      obtain ⟨_, _, stored⟩ := within
      exact stored
  | writing rest => cases silent

/-! ## Calls from outside -/

/-- What the calls from outside and the drain do: jobs are queued, recordings are begun or
closed, files go away. -/
structure Outside (p p' : Phone) (more : List Job) : Prop where
  files : p'.files.Sublist p.files
  issued : p.issued ⊆ p'.issued
  recovery : p'.recovery = p.recovery
  pending : p'.pendingBytes = p.pendingBytes
  stage : p'.stage = p.stage
  jobs : p'.jobs = p.jobs ++ more
  queued : p'.queuedBytes = p.queuedBytes + acceptedBytes more
  recordings : ∀ (k : Nat) r, p.recordings[k]? = some r → ∃ r', p'.recordings[k]? = some r' ∧ r'.handle = r.handle

theorem Adding.outside {more : List Job} {held : Option Uuid → Prop} (adding : Adding p payload held)
    (outside : Outside p p' more) : Adding p' payload held := by
  obtain ⟨k, duration, now, rest, r, here, found, handle⟩ := adding
  obtain ⟨r', found', same⟩ := outside.recordings k r found
  exact ⟨k, duration, now, rest ++ more, r', by rw [outside.jobs, here]; rfl, found', same ▸ handle⟩

theorem Within.outside {more : List Job} {stage : Stage} (within : Within limits p stage)
    (outside : Outside p p' more) : Within limits p' stage := by
  have fewer := storedBytes_sublist outside.files
  have pending := outside.pending
  cases stage with
  | start => exact fewer.trans (within.trans_eq pending.symm)
  | flush => exact fewer.trans (within.trans_eq pending.symm)
  | close => exact fewer.trans (within.trans_eq pending.symm)
  | rename => exact fewer.trans (within.trans_eq pending.symm)
  | fresh => exact fewer.trans (within.trans_eq pending.symm)
  | create header preroll =>
      obtain ⟨payload, adding, known, new, stored, reserved⟩ := within
      exact ⟨payload, adding.outside outside, outside.issued known, fun f member => new f (outside.files.subset member),
        by omega, by omega⟩
  | handle header preroll =>
      obtain ⟨payload, adding, stored, reserved⟩ := within
      exact ⟨payload, adding.outside outside, by omega, by omega⟩
  | opening header preroll rest =>
      obtain ⟨payload, adding, left, stored, reserved⟩ := within
      exact ⟨payload, adding.outside outside, left, by omega, by omega⟩
  | quota =>
      obtain ⟨payload, adding, stored⟩ := within
      exact ⟨payload, adding.outside outside, by omega⟩
  | writing rest =>
      obtain ⟨payload, adding, left, stored, reserved⟩ := within
      exact ⟨payload, adding.outside outside, left, by omega, by omega⟩

theorem Quota.outside (quota : Quota limits p) (more : List Job) (outside : Outside p p' more)
    (window : p.queuedBytes + acceptedBytes more ≤ limits.maxQueuedBytes) : Quota limits p' where
  ready := outside.recovery.trans quota.ready
  names := quota.names.sublist (outside.files.map _)
  drawn f member := outside.issued (quota.drawn f (outside.files.subset member))
  pending := outside.pending.trans_le quota.pending
  queued := by rw [outside.queued, outside.jobs, acceptedBytes_append, quota.queued]
  window := outside.queued.trans_le window
  stage := outside.stage.symm ▸ quota.stage.outside outside

/-- A call that only appends jobs that store nothing. -/
theorem Quota.enqueue (quota : Quota limits p) {recordings : List Recording} {drain : Option Drain} {job : Job}
    (silent : job.payload = none)
    (kept : ∀ (k : Nat) r, p.recordings[k]? = some r → ∃ r', recordings[k]? = some r' ∧ r'.handle = r.handle) :
    Quota limits { p with recordings := recordings, drain := drain, jobs := p.jobs ++ [job] } := by
  have nothing : acceptedBytes [job] = 0 := acceptedBytes_other silent []
  refine quota.outside [job] ⟨.refl _, List.Subset.refl _, rfl, rfl, rfl, rfl, ?_, kept⟩ ?_
  · rw [nothing]
    rfl
  · rw [nothing]
    exact quota.window

/-- A call that queues nothing. -/
theorem Quota.quiet (quota : Quota limits p) {files : List PartFile} {recordings : List Recording} {issued : List Uuid}
    {drain : Option Drain} (fewer : files.Sublist p.files) (more : p.issued ⊆ issued)
    (kept : ∀ (k : Nat) r, p.recordings[k]? = some r → ∃ r', recordings[k]? = some r' ∧ r'.handle = r.handle) :
    Quota limits { p with files := files, recordings := recordings, issued := issued, drain := drain } :=
  quota.outside [] ⟨fewer, more, rfl, rfl, rfl, (List.append_nil _).symm, rfl, kept⟩ quota.window

theorem handles_kept (recordings : List Recording) (k : Nat) (r : Recording) (found : recordings[k]? = some r) :
    ∃ r', recordings[k]? = some r' ∧ r'.handle = r.handle := ⟨r, found, rfl⟩

theorem Quota.begin (quota : Quota limits p) {recordingId : Uuid} {source : Source} {codec : Codec} {serverId : Digest}
    (begun : begin p recordingId source codec serverId = some p') : Quota limits p' := by
  unfold Capture.begin at begun
  split at begun
  · cases begun
    refine quota.quiet (.refl _) (List.subset_append_left _ _) fun k r found => ⟨r, ?_, rfl⟩
    exact (List.getElem?_append_left (List.getElem?_eq_some_iff.mp found).1).trans found
  · cases begun

theorem Quota.add (quota : Quota limits p) (asked : add limits p k payload now = some p') : Quota limits p' := by
  unfold Capture.add at asked
  split at asked
  · cases asked
  · split at asked
    · cases asked
    · rename_i refused
      split at asked
      · cases asked
      · rename_i duration _
        cases asked
        have fits : p.queuedBytes + payload.length ≤ limits.maxQueuedBytes := by
          rw [not_or, not_or, not_or] at refused
          exact Nat.not_lt.mp refused.2.2.2
        have one : acceptedBytes [.add k payload duration now] = payload.length :=
          acceptedBytes_add k payload duration now []
        exact quota.outside [.add k payload duration now]
          ⟨.refl _, List.Subset.refl _, rfl, rfl, rfl, rfl, by rw [one], handles_kept p.recordings⟩ (by rw [one]; exact fits)

theorem Quota.checkpoint (quota : Quota limits p) (asked : checkpoint p k = some p') : Quota limits p' := by
  unfold Capture.checkpoint at asked
  split at asked
  · cases asked
  · cases asked
    exact quota.enqueue rfl (handles_kept p.recordings)

theorem handles_set (recordings : List Recording) {k : Nat} {r changed : Recording} (found : recordings[k]? = some r)
    (same : changed.handle = r.handle) (j : Nat) (s : Recording) (there : recordings[j]? = some s) :
    ∃ s', (recordings.set k changed)[j]? = some s' ∧ s'.handle = s.handle := by
  obtain ⟨inside, -⟩ := List.getElem?_eq_some_iff.mp found
  by_cases here : k = j
  · subst here
    rw [found] at there
    cases there
    exact ⟨changed, List.getElem?_set_self inside, same⟩
  · exact ⟨s, (List.getElem?_set_ne here).trans there, rfl⟩

theorem Quota.stop (quota : Quota limits p) (asked : stop p k = some p') : Quota limits p' := by
  unfold Capture.stop at asked
  split at asked
  · cases asked
  · rename_i r found
    split at asked
    · cases asked
      exact quota
    · cases asked
      exact quota.enqueue rfl (handles_set p.recordings found rfl)

theorem Quota.startDrain (quota : Quota limits p) (started : startDrain p = some p') : Quota limits p' := by
  unfold Capture.startDrain at started
  split at started
  · cases started
  · split at started
    · cases started
    · cases started
      exact quota.quiet (.refl _) (List.Subset.refl _) (handles_kept p.recordings)

theorem Quota.withDrain (quota : Quota limits p) (drain : Option Drain) : Quota limits { p with drain := drain } :=
  quota.quiet (.refl _) (List.Subset.refl _) (handles_kept p.recordings)

theorem Quota.readPart {fails : Bool} (quota : Quota limits p) (done : readPart fails p = some p') : Quota limits p' := by
  unfold Capture.readPart at done
  split at done
  · split at done
    · cases done
      exact quota.withDrain _
    · split at done
      · cases done
        exact quota.withDrain _
      · split at done
        · cases done
          exact quota.withDrain _
        · cases done
          exact quota.withDrain _
  · cases done

theorem Quota.abandon (quota : Quota limits p) (done : abandon p = some p') : Quota limits p' := by
  unfold Capture.abandon at done
  split at done
  · cases done
    exact quota.withDrain _
  · cases done

/-- The deletion happens beside the running job and leaves `pendingBytes` as it is. -/
theorem Quota.acknowledge {id digest : String} (quota : Quota limits p)
    (done : acknowledge sha256 p id digest = some p') : Quota limits p' := by
  unfold Capture.acknowledge at done
  split at done
  · split at done
    · cases done
      exact quota.withDrain _
    · split at done
      · cases done
        exact quota.quiet List.filter_sublist (List.Subset.refl _) (handles_kept p.recordings)
      · cases done
        exact quota.withDrain _
  · cases done

theorem Quota.endDrain (quota : Quota limits p) (done : endDrain p = some p') : Quota limits p' := by
  unfold Capture.endDrain at done
  split at done
  · cases done
    exact quota.enqueue rfl (handles_kept p.recordings)
  · cases done

/-! ## The job that runs -/

theorem Accounts.paid (accounts : Accounts limits p) (here : p.jobs = .add k payload duration now :: jobs) :
    p.queuedBytes - payload.length = acceptedBytes p.jobs.tail := by
  rw [accounts.queued, here, acceptedBytes_add, List.tail_cons]
  omega

theorem Accounts.failed (accounts : Accounts limits p) (here : p.jobs = .add k payload duration now :: jobs)
    (stored : storedBytes p.files ≤ p.pendingBytes) (r : Recording) : Quota limits (failAdd p k r payload) where
  ready := accounts.ready
  names := accounts.names
  drawn := accounts.drawn
  pending := accounts.pending
  queued := accounts.paid here
  window := (Nat.sub_le _ _).trans accounts.window
  stage := stored

/-- A job without a packet ends. -/
theorem Accounts.finished (accounts : Accounts limits p) (here : p.jobs = job :: jobs) (silent : job.payload = none)
    (stored : storedBytes p.files ≤ p.pendingBytes) : Quota limits (finishJob p) where
  ready := accounts.ready
  names := accounts.names
  drawn := accounts.drawn
  pending := accounts.pending
  queued := by
    change p.queuedBytes = acceptedBytes p.jobs.tail
    rw [accounts.queued, here, acceptedBytes_other silent, List.tail_cons]
  window := accounts.window
  stage := stored

/-- The next stage of the job, with another state of its recording. -/
theorem Accounts.moved (accounts : Accounts limits p) {r : Recording} (stage : Stage)
    (within : Within limits (setRecording p k r) stage) :
    Quota limits { setRecording p k r with stage := stage } where
  ready := accounts.ready
  names := accounts.names
  drawn := accounts.drawn
  pending := accounts.pending
  queued := accounts.queued
  window := accounts.window
  stage := by cases stage <;> exact within

theorem Accounts.stays (accounts : Accounts limits p) (stage : Stage) (within : Within limits p stage) :
    Quota limits { p with stage := stage } where
  ready := accounts.ready
  names := accounts.names
  drawn := accounts.drawn
  pending := accounts.pending
  queued := accounts.queued
  window := accounts.window
  stage := by cases stage <;> exact within

theorem Accounts.changed (accounts : Accounts limits p) (id : Uuid) {change : PartFile → PartFile}
    (sameId : ∀ f, (change f).id = f.id) : Accounts limits { p with files := changeFile p.files id change } where
  ready := accounts.ready
  names := (map_id_changeFile p.files id sameId).symm ▸ accounts.names
  drawn f member := by
    have named := List.mem_map_of_mem (f := PartFile.id) member
    rw [map_id_changeFile p.files id sameId] at named
    obtain ⟨g, old, same⟩ := List.mem_map.mp named
    exact same ▸ accounts.drawn g old
  pending := accounts.pending
  queued := accounts.queued
  window := accounts.window

/-- `_seal` renames the part. -/
theorem Accounts.sealed (accounts : Accounts limits p) (id : Uuid) :
    Accounts limits { p with files := sealFile p.files id } := accounts.changed id fun _ => rfl

theorem Accounts.appended (accounts : Accounts limits p) (id : Uuid) (bytes : Bytes) :
    Accounts limits { p with files := appendFile p.files id bytes } := accounts.changed id fun _ => rfl

/-- The file that `_open` creates. -/
theorem Accounts.created (accounts : Accounts limits p) {id : Uuid} (known : id ∈ p.issued)
    (new : ∀ f ∈ p.files, f.id ≠ id) : Accounts limits { p with files := p.files ++ [⟨id, false, []⟩] } where
  ready := accounts.ready
  names := by
    rw [List.map_append, List.nodup_append]
    refine ⟨accounts.names, List.nodup_singleton _, fun a old b fresh same => ?_⟩
    obtain ⟨f, member, rfl⟩ := List.mem_map.mp old
    rw [List.map_singleton, List.mem_singleton] at fresh
    exact new f member (same.trans fresh)
  drawn f member := by
    rcases List.mem_append.mp member with old | fresh
    · exact accounts.drawn f old
    · rw [List.mem_singleton.mp fresh]
      exact known
  pending := accounts.pending
  queued := accounts.queued
  window := accounts.window

theorem Quota.start_add (quota : Quota limits p) (here : p.jobs = .add k payload duration now :: jobs)
    (found : p.recordings[k]? = some r) (stage : p.stage = .start) {io : WorkIo}
    (worked : workAdd limits io p k r payload duration now = some p') : Quota limits p' := by
  have stored : storedBytes p.files ≤ p.pendingBytes := quota.stage.stored (by rw [stage]; rfl)
  simp only [workAdd, stage] at worked
  split at worked
  · cases worked
    exact quota.failed here stored _
  · split at worked
    · cases worked
      exact quota.stays .fresh stored
    · rename_i held
      split at worked
      · cases worked
        exact quota.stays .flush stored
      · cases worked
        have handle : r.handle.isSome = true := by
          rw [← Option.not_isNone, Bool.not_eq_true', ← Bool.not_eq_true]
          exact held
        exact quota.stays .quota ⟨payload, ⟨k, duration, now, jobs, r, here, found, handle⟩, stored⟩

/-- `_open` names the part and reserves its opening bytes together with the packet. -/
theorem Quota.fresh_add (quota : Quota limits p) (here : p.jobs = .add k payload duration now :: jobs)
    (found : p.recordings[k]? = some r) (stage : p.stage = .fresh) {io : WorkIo}
    (worked : workAdd limits io p k r payload duration now = some p') : Quota limits p' := by
  have stored : storedBytes p.files ≤ p.pendingBytes := quota.stage.stored (by rw [stage]; rfl)
  simp only [workAdd, stage] at worked
  split at worked
  · cases worked
  · rename_i drawn
    have named : Quota limits { p with issued := p.issued ++ [io.id] } :=
      quota.quiet (.refl _) (List.subset_append_left _ _) (handles_kept p.recordings)
    split at worked
    · cases worked
      exact named.failed here stored _
    · rename_i room
      cases worked
      obtain ⟨inside, -⟩ := List.getElem?_eq_some_iff.mp found
      refine named.moved (.create _ _)
        ⟨payload, ⟨k, duration, now, jobs, _, here, List.getElem?_set_self inside, trivial⟩, ?_, ?_, stored, ?_⟩
      · exact List.mem_append_right _ List.mem_cons_self
      · exact fun f member (same : f.id = io.id) => drawn (same ▸ quota.drawn f member)
      · exact Nat.not_lt.mp room

theorem Quota.opening_add (quota : Quota limits p) (here : p.jobs = .add k payload duration now :: jobs)
    (found : p.recordings[k]? = some r) {header : Header} {preroll : List Packet} {left : Bytes}
    (stage : p.stage = .opening header preroll left) {io : WorkIo} (sound : io.fails = false)
    (worked : workAdd limits io p k r payload duration now = some p') : Quota limits p' := by
  have within := quota.stage
  rw [stage] at within
  obtain ⟨_, adding, fits, stored, reserved⟩ := within
  obtain ⟨rfl, handle⟩ := adding.same here found
  obtain ⟨inside, -⟩ := List.getElem?_eq_some_iff.mp found
  cases left with
  | cons b left =>
      simp only [workAdd, stage, sound, Bool.false_eq_true, if_false] at worked
      cases worked
      have grown := storedBytes_appendFile quota.names header.id [b]
      rw [List.length_cons] at fits stored
      rw [List.length_singleton] at grown
      refine (quota.appended header.id [b]).stays (.opening header preroll left)
        ⟨payload, ⟨k, duration, now, jobs, r, here, found, handle⟩, by omega, ?_, reserved⟩
      change storedBytes (appendFile p.files header.id [b]) + left.length ≤ p.pendingBytes + _
      omega
  | nil =>
      simp only [workAdd, stage, sound, Bool.false_eq_true, if_false] at worked
      cases worked
      exact {
        ready := quota.ready
        names := quota.names
        drawn := quota.drawn
        pending := by change p.pendingBytes + _ ≤ _; omega
        queued := quota.queued
        window := quota.window
        stage := ⟨payload, ⟨k, duration, now, jobs, _, here, List.getElem?_set_self inside, by rw [handle]; rfl⟩, stored⟩ }

theorem Quota.writing_add (quota : Quota limits p) (here : p.jobs = .add k payload duration now :: jobs)
    (found : p.recordings[k]? = some r) {left : Bytes} (stage : p.stage = .writing left) {io : WorkIo}
    (sound : io.fails = false) (worked : workAdd limits io p k r payload duration now = some p') :
    Quota limits p' := by
  have within := quota.stage
  rw [stage] at within
  obtain ⟨_, adding, fits, stored, reserved⟩ := within
  obtain ⟨rfl, handle⟩ := adding.same here found
  obtain ⟨id, handle⟩ := Option.isSome_iff_exists.mp handle
  cases left with
  | cons b left =>
      simp only [workAdd, stage, handle, sound, Bool.false_eq_true, if_false] at worked
      cases worked
      have grown := storedBytes_appendFile quota.names id [b]
      rw [List.length_cons] at fits stored
      rw [List.length_singleton] at grown
      refine (quota.appended id [b]).stays (.writing left)
        ⟨payload, ⟨k, duration, now, jobs, r, here, found, by rw [handle]; rfl⟩, by omega, ?_, reserved⟩
      change storedBytes (appendFile p.files id [b]) + left.length ≤ p.pendingBytes + _
      omega
  | nil =>
      simp only [workAdd, stage, sound, Bool.false_eq_true, if_false] at worked
      have counted : Accounts limits { p with pendingBytes := p.pendingBytes + payload.length + 4 } :=
        ⟨quota.ready, quota.names, quota.drawn, by change _ + _ + _ ≤ _; omega, quota.queued, quota.window⟩
      have covered : storedBytes p.files ≤ p.pendingBytes + payload.length + 4 := by
        rw [List.length_nil] at stored
        omega
      split at worked
      · cases worked
        exact counted.failed here covered _
      · split at worked
        · cases worked
          exact {
            ready := counted.ready
            names := counted.names
            drawn := counted.drawn
            pending := counted.pending
            queued := counted.paid here
            window := (Nat.sub_le _ _).trans counted.window
            stage := covered }
        · cases worked
          exact {
            ready := counted.ready
            names := counted.names
            drawn := counted.drawn
            pending := counted.pending
            queued := counted.paid here
            window := (Nat.sub_le _ _).trans counted.window
            stage := covered }

theorem Quota.work_add (quota : Quota limits p) (here : p.jobs = .add k payload duration now :: jobs)
    (found : p.recordings[k]? = some r) {io : WorkIo} (sound : p.stage.writes = true → io.fails = false)
    (worked : workAdd limits io p k r payload duration now = some p') : Quota limits p' := by
  have within := quota.stage
  obtain ⟨inside, -⟩ := List.getElem?_eq_some_iff.mp found
  cases stage : p.stage with
  | start => exact quota.start_add here found stage worked
  | fresh => exact quota.fresh_add here found stage worked
  | opening header preroll left => exact quota.opening_add here found stage (sound (by rw [stage]; rfl)) worked
  | writing left => exact quota.writing_add here found stage (sound (by rw [stage]; rfl)) worked
  | flush =>
      rw [stage] at within
      simp only [workAdd, stage] at worked
      split at worked
      · cases worked
        exact quota.failed here within _
      · cases worked
        exact quota.stays .close within
  | close =>
      rw [stage] at within
      simp only [workAdd, stage] at worked
      split at worked
      · cases worked
        exact quota.failed here within _
      · cases worked
        exact quota.moved .rename within
  | rename =>
      rw [stage] at within
      simp only [workAdd, stage] at worked
      split at worked
      · cases worked
        exact quota.failed here within _
      · rename_i id _
        split at worked
        · cases worked
          exact quota.failed here within _
        · cases worked
          refine (quota.sealed id).moved .fresh ?_
          exact (storedBytes_sealFile p.files id).trans_le within
  | create header preroll =>
      rw [stage] at within
      obtain ⟨_, adding, known, new, stored, reserved⟩ := within
      obtain ⟨rfl, -⟩ := adding.same here found
      simp only [workAdd, stage] at worked
      split at worked
      · cases worked
        exact quota.failed here stored _
      · cases worked
        refine (quota.created known new).stays (.handle header preroll)
          ⟨payload, ⟨k, duration, now, jobs, r, here, found, trivial⟩, ?_, reserved⟩
        exact (storedBytes_append p.files _).trans_le stored
  | handle header preroll =>
      rw [stage] at within
      obtain ⟨_, adding, stored, reserved⟩ := within
      obtain ⟨rfl, -⟩ := adding.same here found
      simp only [workAdd, stage] at worked
      split at worked
      · cases worked
        exact quota.failed here stored _
      · cases worked
        have whole := length_opening header preroll
        refine quota.moved (.opening header preroll (opening header preroll))
          ⟨payload, ⟨k, duration, now, jobs, _, here, List.getElem?_set_self inside, rfl⟩, whole.le, ?_, reserved⟩
        change storedBytes p.files + _ ≤ p.pendingBytes + _
        omega
  | quota =>
      rw [stage] at within
      obtain ⟨_, adding, stored⟩ := within
      obtain ⟨rfl, handle⟩ := adding.same here found
      simp only [workAdd, stage] at worked
      split at worked
      · cases worked
        exact quota.failed here stored _
      · rename_i room
        cases worked
        have whole : (record be32 payload).length = 4 + payload.length := length_record payload
        exact {
          ready := quota.ready
          names := quota.names
          drawn := quota.drawn
          pending := quota.pending
          queued := quota.queued
          window := quota.window
          stage := ⟨payload, ⟨k, duration, now, jobs, r, here, found, handle⟩, by rw [whole]; omega,
            by change storedBytes p.files + _ ≤ p.pendingBytes + _; omega, by change p.pendingBytes + _ ≤ _; omega⟩ }

/-- A checkpoint or a stop, which write nothing. -/
theorem Quota.work_seal (quota : Quota limits p) (here : p.jobs = job :: jobs) (silent : job.payload = none) {io : WorkIo}
    {failed : Phone} (after : storedBytes p.files ≤ p.pendingBytes → Quota limits failed)
    (worked : workSeal io p k r failed = some p') : Quota limits p' := by
  have within := quota.stage
  unfold workSeal at worked
  split at worked
  · rename_i stage
    rw [stage] at within
    split at worked
    · cases worked
      exact after within
    · cases worked
      exact quota.stays .close within
  · rename_i stage
    rw [stage] at within
    split at worked
    · cases worked
      exact after within
    · cases worked
      exact quota.moved .rename within
  · rename_i stage
    rw [stage] at within
    split at worked
    · cases worked
      exact after within
    · rename_i id _
      split at worked
      · cases worked
        exact after within
      · cases worked
        have settled : storedBytes (sealFile p.files id) ≤ p.pendingBytes := (storedBytes_sealFile p.files id).trans_le within
        have done := (quota.sealed id).finished here silent settled
        exact ⟨⟨done.ready, done.names, done.drawn, done.pending, done.queued, done.window⟩, settled⟩
  · cases worked

/-- Only the recordings change when a job without a packet ends. -/
theorem Quota.ended (quota : Quota limits p) (here : p.jobs = job :: jobs) (silent : job.payload = none)
    (stored : storedBytes p.files ≤ p.pendingBytes) (r : Recording) : Quota limits (finishJob (setRecording p k r)) :=
  Accounts.finished (p := setRecording p k r)
    ⟨quota.ready, quota.names, quota.drawn, quota.pending, quota.queued, quota.window⟩ here silent stored

theorem Quota.work_checkpoint (quota : Quota limits p) (here : p.jobs = .checkpoint k :: jobs) {io : WorkIo}
    (worked : workCheckpoint io p k r = some p') : Quota limits p' := by
  unfold workCheckpoint at worked
  split at worked
  · rename_i stage
    have stored : storedBytes p.files ≤ p.pendingBytes := quota.stage.stored (by rw [stage]; rfl)
    split at worked
    · cases worked
      exact quota.finished here rfl stored
    · cases worked
      exact quota.stays .flush stored
  · exact quota.work_seal here rfl (fun stored => quota.ended here rfl stored _) worked

theorem Quota.work_stop (quota : Quota limits p) (here : p.jobs = .stop k :: jobs) {io : WorkIo}
    (worked : workStop io p k r = some p') : Quota limits p' := by
  unfold workStop at worked
  split at worked
  · rename_i stage
    have stored : storedBytes p.files ≤ p.pendingBytes := quota.stage.stored (by rw [stage]; rfl)
    split at worked
    · cases worked
      exact quota.finished here rfl stored
    · split at worked
      · cases worked
        split
        · exact quota.finished here rfl stored
        · exact quota.ended here rfl stored _
      · cases worked
        exact quota.stays .flush stored
  · exact quota.work_seal here rfl (fun stored => quota.finished here rfl stored) worked

theorem Within.silent_of_other {stage : Stage} (within : Within limits p stage) (here : p.jobs = job :: jobs)
    (silent : job.payload = none) : stage.writes = false := by
  cases stage with
  | opening header preroll rest =>
      obtain ⟨_, ⟨_, _, _, _, _, adding, _⟩, _⟩ := within
      rw [here] at adding
      cases adding
      cases silent
  | writing rest =>
      obtain ⟨_, ⟨_, _, _, _, _, adding, _⟩, _⟩ := within
      rw [here] at adding
      cases adding
      cases silent
  | _ => rfl

/-- `_countPending` reads the directory while nothing writes to it. -/
theorem Quota.counted (quota : Quota limits p) (here : p.jobs = .count :: jobs) :
    Quota limits (finishJob (countPending { p with drain := none })) := by
  have stored : storedBytes p.files ≤ p.pendingBytes := quota.stage.stored (quota.stage.silent_of_other here rfl)
  refine Accounts.finished (p := countPending { p with drain := none }) ?_ here rfl (le_refl _)
  exact ⟨quota.ready, quota.names, quota.drawn, stored.trans quota.pending, quota.queued, quota.window⟩

theorem Quota.work (quota : Quota limits p) {io : WorkIo} (sound : p.stage.writes = true → io.fails = false)
    (worked : work limits io p = some p') : Quota limits p' := by
  unfold Capture.work at worked
  split at worked
  · cases worked
  · rename_i here
    cases worked
    exact quota.counted here
  · rename_i here
    split at worked
    · cases worked
    · rename_i found
      exact quota.work_add here found sound worked
  · rename_i here
    split at worked
    · cases worked
    · exact quota.work_checkpoint here worked
  · rename_i here
    split at worked
    · cases worked
    · exact quota.work_stop here worked

/-! ## Runs -/

theorem Initialized.quota (initialized : Initialized limits p) : Quota limits p where
  ready := by rw [initialized.counted]; rfl
  names := initialized.names
  drawn := initialized.drawn
  pending := by
    rw [initialized.counted]
    exact initialized.room
  queued := by rw [initialized.counted]; rfl
  window := by
    rw [initialized.counted]
    exact Nat.zero_le _
  stage := by
    rw [initialized.counted]
    exact le_refl (storedBytes p.files)

theorem Quota.step {a : PhoneAction} (quota : Quota limits p) (stepped : quotaStep limits sha256 p a p') :
    Quota limits p' := by
  obtain ⟨done, lives, sound⟩ := stepped
  cases a with
  | begin recordingId source codec serverId => exact quota.begin done
  | add k payload now => exact quota.add done
  | checkpoint k => exact quota.checkpoint done
  | stop k => exact quota.stop done
  | work io => exact quota.work (sound io rfl) done
  | terminate => exact absurd rfl lives
  | recover fails =>
      change Capture.recover fails p = some p' at done
      rw [Capture.recover, quota.ready] at done
      cases done
  | startDrain => exact quota.startDrain done
  | readPart fails => exact quota.readPart done
  | abandon => exact quota.abandon done
  | acknowledge id digest => exact quota.acknowledge done
  | endDrain => exact quota.endDrain done

theorem quota_run (run : Reachable (Initialized limits) (quotaStep limits sha256) p) : Quota limits p :=
  run.invariant (fun _ initialized => initialized.quota) fun _ _ _ quota stepped => quota.step stepped

/-- The stage bounds the directory, whatever the counter says. -/
theorem Quota.stored (quota : Quota limits p) : storedBytes p.files ≤ limits.maxStorageBytes ∧
    storedBytes p.files ≤ p.pendingBytes + uncounted p := by
  have within := quota.stage
  have pending := quota.pending
  cases stage : p.stage with
  | opening header preroll rest =>
      rw [stage] at within
      obtain ⟨payload, adding, fits, stored, reserved⟩ := within
      simp only [uncounted, stage]
      omega
  | writing rest =>
      rw [stage] at within
      obtain ⟨payload, ⟨_, _, _, _, _, here, _⟩, fits, stored, reserved⟩ := within
      simp only [uncounted, stage, here]
      omega
  | _ =>
      have stored : storedBytes p.files ≤ p.pendingBytes := within.stored (by rw [stage]; rfl)
      omega

/-- The files never exceed the limit, and `pendingBytes` covers them but for the write that runs. -/
theorem outbox_quota (run : Reachable (Initialized limits) (quotaStep limits sha256) p) :
    storedBytes p.files ≤ limits.maxStorageBytes ∧ storedBytes p.files ≤ p.pendingBytes + uncounted p ∧
      p.queuedBytes = acceptedBytes p.jobs ∧ p.queuedBytes ≤ limits.maxQueuedBytes := by
  have quota := quota_run run
  exact ⟨quota.stored.1, quota.stored.2, quota.queued, quota.window⟩

end Steps

/-! ## The first byte of a part -/

theorem quotaRecording_canonical : canonicalUuid "0a1b2c3d-4e5f-4a6b-8c7d-9e8f7a6b5c4d" = true := by decide

theorem quotaPart_canonical : canonicalUuid "6f1d2c3b-4a59-4e68-8f77-0123456789ab" = true := by decide

def quotaRecording : Uuid := ⟨"0a1b2c3d-4e5f-4a6b-8c7d-9e8f7a6b5c4d", quotaRecording_canonical⟩

def quotaPart : Uuid := ⟨"6f1d2c3b-4a59-4e68-8f77-0123456789ab", quotaPart_canonical⟩

theorem quotaServer_hex : hexDigest "0123456789abcdef0123456789abcdef0123456789abcdef0123456789abcdef" = true := by decide

def quotaServer : Digest := ⟨"0123456789abcdef0123456789abcdef0123456789abcdef0123456789abcdef", quotaServer_hex⟩

theorem quotaTime_month : 1 ≤ 9 ∧ 9 ≤ 12 := by decide

theorem quotaTime_day : 1 ≤ 1 ∧ 1 ≤ daysInMonth 2026 9 := by decide

theorem quotaTime_clock : 8 < 24 ∧ 0 < 60 ∧ 0 < 60 ∧ 0 < 1000 ∧ 0 < 1000 := by decide

def quotaTime : DateTime := ⟨2026, 9, 1, 8, 0, 0, 0, 0, quotaTime_month, quotaTime_day, quotaTime_clock⟩

/-- One packet, up to the first byte of its part. -/
def firstByte : List PhoneAction :=
  [.begin quotaRecording .phone .pcm16 quotaServer, .add 0 [1, 2] quotaTime] ++
    List.replicate 5 (.work (noFailure quotaPart))

theorem initialized_newPhone : Initialized defaultLimits { newPhone with recovery := none } where
  counted := rfl
  names := List.nodup_nil
  drawn := fun _ member => absurd member List.not_mem_nil
  room := Nat.zero_le _

theorem firstByte_sound : ∀ a ∈ firstByte, a ≠ .terminate ∧ ∀ io, a = .work io → io.fails = false := by
  intro a member
  simp only [firstByte, List.mem_append, List.mem_cons, List.not_mem_nil, or_false, List.mem_replicate] at member
  rcases member with (rfl | rfl) | ⟨-, rfl⟩
  · exact ⟨fun same => (by cases same), fun io same => (by cases same)⟩
  · exact ⟨fun same => (by cases same), fun io same => (by cases same)⟩
  · refine ⟨fun same => (by cases same), fun io same => ?_⟩
    cases same
    rfl

/-- The byte is in the directory and not in the counter. -/
theorem first_byte : ∃ p, Reachable (Initialized defaultLimits) (quotaStep defaultLimits fun _ => "") p ∧
    storedBytes p.files = 1 ∧ p.pendingBytes = 0 := by
  have evaluated : ((firstByte.foldlM (perform defaultLimits fun _ => "") { newPhone with recovery := none }).map
      fun p => (storedBytes p.files, p.pendingBytes)) = some (1, 0) := by decide +kernel
  obtain ⟨p, done, values⟩ := Option.map_eq_some_iff.mp evaluated
  obtain ⟨stored, pending⟩ := Prod.mk.inj values
  refine ⟨p, Reachable.actions (fun a member s t stepped => ?_) (.start initialized_newPhone) done, stored, pending⟩
  obtain ⟨lives, sound⟩ := firstByte_sound a member
  exact ⟨stepped, lives, fun io same _ => sound io same⟩

theorem outbox_quota_first_byte : ∃ p : Phone, storedBytes p.files = 1 ∧ storedBytes p.files ≤ p.pendingBytes + uncounted p := by
  obtain ⟨p, run, stored, -⟩ := first_byte
  exact ⟨p, stored, (outbox_quota run).2.1⟩

theorem unflushed_byte_uncounted : ¬ ∀ (limits : Limits) (sha256 : Bytes → String) (p : Phone),
    Reachable (Initialized limits) (quotaStep limits sha256) p →
    storedBytes p.files ≤ limits.maxStorageBytes ∧ storedBytes p.files ≤ p.pendingBytes ∧
      p.queuedBytes = acceptedBytes p.jobs ∧ p.queuedBytes ≤ limits.maxQueuedBytes := by
  intro claimed
  obtain ⟨p, run, stored, pending⟩ := first_byte
  have covered := (claimed defaultLimits (fun _ => "") p run).2.1
  omega

end OmiLocal.Capture
