import Mathlib.Data.List.Count
import OmiLocal.Pipeline.WatchQueue

/-!
# The queue is accounted for

An attempt counts while a job is processed and stays counted only when it raised.
The number of attempts of a waiting job is therefore at most the number of attempts
that raised since the job was queued, also when the process ends between the change
in memory and the write of the queue file.
-/
namespace OmiLocal.Pipeline

open Lib.Transition Lib.Json Lib.Dict

/-- Attempts that raised an error other than busy since the job was last queued. -/
def raisedSince (key : String) : List Event → Nat
  | [] => 0
  | .queued k :: rest => if k = key then 0 else raisedSince key rest
  | .began _ :: rest => raisedSince key rest
  | .raised k :: rest => raisedSince key rest + if k = key then 1 else 0

def Job.Accounted (raised : Nat) (job : Job) : Prop :=
  match job.state with
  | .pending => 0 ≤ job.attempts ∧ job.attempts ≤ 2 ∧ job.attempts ≤ raised
  | .processing => 1 ≤ job.attempts ∧ job.attempts ≤ 3 ∧ job.attempts ≤ raised + 1
  | .failed => job.attempts = 3 ∧ 3 ≤ raised
  | .completed => True
  | .noSpeech => True

theorem Job.Accounted.mono {job : Job} {n m : Nat} (counted : job.Accounted n) (more : n ≤ m) : job.Accounted m := by
  unfold Job.Accounted at *
  cases state : job.state <;> simp only [state] at counted ⊢ <;> omega

theorem resetJob_accounted {job : Job} {n : Nat} (counted : job.Accounted n) : (resetJob job).Accounted n := by
  unfold resetJob
  split
  · rename_i processing
    simp only [Job.Accounted, processing] at counted ⊢
    omega
  · exact counted

theorem attempt_state (load : List (String × Value) → Option (List (String × Value))) (ending : Ending) (job : Job) :
    (attempt load ending job).1.state = job.state ∧ (attempt load ending job).1.attempts = job.attempts := by
  unfold attempt
  split <;> exact ⟨rfl, rfl⟩

/-- Every handler leaves the count of attempts that raised. -/
theorem settle_accounted {job : Job} {n : Nat} (processing : job.state = .processing) (counted : job.Accounted n)
    (now : ℚ) (ending : Ending) : (settle now ending job).Accounted (n + if ending = .raised then 1 else 0) := by
  simp only [Job.Accounted, processing] at counted
  obtain ⟨low, high, paid⟩ := counted
  cases ending with
  | completed => trivial
  | noSpeech => trivial
  | busy =>
      simp only [settle, Job.Accounted, reduceCtorEq, if_false]
      omega
  | interrupted =>
      simp only [settle, Job.Accounted, reduceCtorEq, if_false]
      omega
  | raised =>
      by_cases last : maxAttempts ≤ job.attempts
      · simp only [settle, Job.Accounted, if_pos last, if_true]
        unfold maxAttempts at last
        omega
      · simp only [settle, Job.Accounted, if_neg last, if_true]
        unfold maxAttempts at last
        omega

theorem settle_state (now : ℚ) (ending : Ending) (job : Job) : (settle now ending job).state ≠ .processing := by
  cases ending with
  | raised =>
      simp only [settle]
      split <;> nofun
  | _ => nofun

/-! ## The invariant -/

structure QueueOk (excluded : List String) (log : List Event) (jobs : Queue) : Prop where
  distinct : (keys jobs).Nodup
  counted : ∀ key job, (key, job) ∈ jobs → job.Accounted (raisedSince key log)
  admitted : ∀ key ∈ keys jobs, key ∉ excluded

def Quiet (jobs : Queue) : Prop := ∀ e ∈ jobs, e.2.state ≠ .processing

/-- The one job that is being processed. -/
structure Processing (key : String) (jobs : Queue) : Prop where
  here : ∃ job, (key, job) ∈ jobs ∧ job.state = .processing
  only : ∀ e ∈ jobs, e.2.state = .processing → e.1 = key

def JobState.Settled (state : JobState) : Prop := state = .completed ∨ state = .noSpeech ∨ state = .failed

def HasState (jobs : Queue) (key : String) (state : JobState) : Prop := ∃ job, (key, job) ∈ jobs ∧ job.state = state

theorem JobState.not_settled_pending : ¬ JobState.Settled .pending := by
  rintro (same | same | same) <;> cases same

theorem JobState.not_settled_processing : ¬ JobState.Settled .processing := by
  rintro (same | same | same) <;> cases same

/-- Every settled job of the worker is settled in the file. -/
def SettledIn (saved : Option Queue) (jobs : Queue) : Prop := ∀ key state, JobState.Settled state →
  HasState jobs key state → HasState (saved.getD []) key state

/-- What holds at a program point. Before a write it is what will hold after it, and only the last write of
a tick settles a job. -/
def Point.Ok (excluded : Option (List String)) (saved : Option Queue) (jobs : Queue) : Point → Prop
  | .idle => Quiet jobs ∧ saved = some jobs
  | .retain _ found todo kept => found = excluded ∧ Quiet jobs ∧ saved = some jobs ∧ (kept ++ todo).Sublist jobs
  | .scan found _ => some found = excluded ∧ Quiet jobs ∧ saved = some jobs
  | .choose todo => Quiet jobs ∧ saved = some jobs ∧ todo ⊆ jobs
  | .begin key => Processing key jobs ∧ saved = some jobs
  | .work key => Processing key jobs ∧ saved = some jobs
  | .exit => Quiet jobs ∧ saved = some jobs
  | .save after => after.Ok excluded (some jobs) jobs ∧ (after = .idle ∨ after = .exit ∨ SettledIn saved jobs)

structure WatchOk (s : Watch) : Prop where
  saved : QueueOk (s.settings.excluded.getD []) s.log (s.saved.getD [])
  single : ∃ key, ∀ e ∈ s.saved.getD [], e.2.state = .processing → e.1 = key
  fresh : s.settings.excluded = none → s.settings.enabled = false ∧ s.saved = none ∧ s.worker = none
  jobs : ∀ w, s.worker = some w → QueueOk (s.settings.excluded.getD []) s.log w.jobs
  point : ∀ w, s.worker = some w → w.point.Ok s.settings.excluded s.saved w.jobs

section Queues

variable {excluded : List String} {log : List Event} {jobs : Queue} {key : String}

theorem QueueOk.sublist (ok : QueueOk excluded log jobs) {kept : Queue} (within : kept.Sublist jobs) :
    QueueOk excluded log kept where
  distinct := ok.distinct.sublist (within.map Prod.fst)
  counted := fun key job member => ok.counted key job (within.subset member)
  admitted := fun key member => ok.admitted key ((within.map Prod.fst).subset member)

/-- Only a queued event for a job's key can lower its count. -/
theorem QueueOk.event (ok : QueueOk excluded log jobs) {event : Event}
    (other : ∀ k, event = .queued k → k ∉ keys jobs) : QueueOk excluded (event :: log) jobs where
  distinct := ok.distinct
  admitted := ok.admitted
  counted := by
    intro key job member
    have counted := ok.counted key job member
    cases event with
    | queued k =>
        have apart : k ≠ key := fun same => other k rfl (same ▸ mem_keys_of_mem member)
        simpa only [raisedSince, if_neg apart] using counted
    | began k => exact counted
    | raised k => exact counted.mono (by simp only [raisedSince]; omega)

theorem QueueOk.put (ok : QueueOk excluded log jobs) {job : Job} (new : key ∉ keys jobs) (free : key ∉ excluded)
    (counted : job.Accounted (raisedSince key log)) : QueueOk excluded log (put jobs key job) := by
  rw [put_new new]
  have keysIs : keys (jobs ++ [(key, job)]) = keys jobs ++ [key] := by simp [keys]
  constructor
  · rw [keysIs]
    apply ok.distinct.append (List.nodup_singleton key)
    simpa using new
  · intro k j member
    rcases List.mem_append.mp member with old | last
    · exact ok.counted k j old
    · cases List.mem_singleton.mp last
      exact counted
  · intro k member
    rw [keysIs] at member
    rcases List.mem_append.mp member with old | last
    · exact ok.admitted k old
    · rw [List.mem_singleton.mp last]
      exact free

theorem QueueOk.change (ok : QueueOk excluded log jobs) {job : Job} (counted : job.Accounted (raisedSince key log)) :
    QueueOk excluded log (change jobs key job) := by
  constructor
  · rw [keys_change]
    exact ok.distinct
  · intro k j member
    rcases mem_change.mp member with ⟨old, -⟩ | ⟨same, -⟩
    · exact ok.counted k j old
    · cases same
      exact counted
  · rw [keys_change]
    exact ok.admitted

theorem QueueOk.reset (ok : QueueOk excluded log jobs) : QueueOk excluded log (resetQueue jobs) := by
  have keysIs : keys (resetQueue jobs) = keys jobs := by simp [keys, resetQueue]
  constructor
  · rw [keysIs]
    exact ok.distinct
  · intro k j member
    obtain ⟨e, old, same⟩ := List.mem_map.mp member
    cases same
    exact resetJob_accounted (ok.counted e.1 e.2 old)
  · rw [keysIs]
    exact ok.admitted

theorem resetQueue_quiet (jobs : Queue) : Quiet (resetQueue jobs) := by
  intro e member
  obtain ⟨f, -, rfl⟩ := List.mem_map.mp member
  unfold resetJob
  split
  · nofun
  · assumption

theorem Quiet.claim {job : Job} (quiet : Quiet jobs) (member : (key, job) ∈ jobs) {claimed : Job}
    (processing : claimed.state = .processing) : Processing key (change jobs key claimed) := by
  constructor
  · exact ⟨claimed, mem_change.mpr (.inr ⟨rfl, mem_keys_of_mem member⟩), processing⟩
  · intro e changed working
    rcases mem_change.mp changed with ⟨old, -⟩ | ⟨rfl, -⟩
    · exact absurd working (quiet e old)
    · rfl

theorem Processing.release (busy : Processing key jobs) {job : Job} (done : job.state ≠ .processing) :
    Quiet (change jobs key job) := by
  intro e changed working
  rcases mem_change.mp changed with ⟨old, other⟩ | ⟨rfl, -⟩
  · exact other (busy.only e old working)
  · exact done working

theorem Point.Ok.single {point : Point} {found : Option (List String)} {saved : Option Queue}
    (ok : point.Ok found saved jobs) : ∃ key, ∀ e ∈ jobs, e.2.state = .processing → e.1 = key := by
  have still : Quiet jobs → ∃ key : String, ∀ e ∈ jobs, e.2.state = .processing → e.1 = key := fun quiet =>
    ⟨"", fun e member working => absurd working (quiet e member)⟩
  induction point generalizing saved with
  | idle => exact still ok.1
  | retain _ _ _ _ => exact still ok.2.1
  | scan _ _ => exact still ok.2.1
  | choose _ => exact still ok.1
  | begin key => exact ⟨key, ok.1.only⟩
  | work key => exact ⟨key, ok.1.only⟩
  | exit => exact still ok.1
  | save after ih => exact ih ok.1

end Queues

/-! ## One step -/

section Steps

variable {sha256 : String → String} {s t : Watch} {w : Worker}

/-- A step that changes only the worker. -/
theorem WatchOk.move (ok : WatchOk s) (running : s.worker = some w) {jobs : Queue} {point : Point}
    (queue : QueueOk (s.settings.excluded.getD []) s.log jobs) (here : point.Ok s.settings.excluded s.saved jobs) :
    WatchOk (s.at_ jobs point) where
  saved := ok.saved
  single := ok.single
  fresh := by
    intro none
    have stopped := (ok.fresh none).2.2
    rw [running] at stopped
    cases stopped
  jobs := by
    rintro _ ⟨⟩
    exact queue
  point := by
    rintro _ ⟨⟩
    exact here

theorem WatchOk.stop (ok : WatchOk s) : WatchOk { s with worker := none } where
  saved := ok.saved
  single := ok.single
  fresh := fun none => ⟨(ok.fresh none).1, (ok.fresh none).2.1, rfl⟩
  jobs := nofun
  point := nofun

theorem WatchOk.log (ok : WatchOk s) {event : Event} (saved : ∀ k, event = .queued k → k ∉ keys (s.saved.getD []))
    (jobs : ∀ w, s.worker = some w → ∀ k, event = .queued k → k ∉ keys w.jobs) :
    WatchOk { s with log := event :: s.log } where
  saved := ok.saved.event saved
  single := ok.single
  fresh := ok.fresh
  jobs := fun w running => (ok.jobs w running).event (jobs w running)
  point := ok.point

theorem enable_ok (ok : WatchOk s) : WatchOk (s.enable sha256) := by
  cases listed : s.settings.excluded with
  | none =>
      obtain ⟨-, noFile, stopped⟩ := ok.fresh listed
      constructor
      · rw [show (s.enable sha256).saved = s.saved from rfl, noFile]
        exact ⟨List.nodup_nil, fun _ _ member => absurd member List.not_mem_nil, fun _ member => absurd member List.not_mem_nil⟩
      · exact ok.single
      · nofun
      · intro w running
        rw [show (s.enable sha256).worker = s.worker from rfl, stopped] at running
        cases running
      · intro w running
        rw [show (s.enable sha256).worker = s.worker from rfl, stopped] at running
        cases running
  | some excluded =>
      have same : (s.enable sha256).settings.excluded = s.settings.excluded := by
        rw [Watch.enable, listed]
        rfl
      constructor
      · rw [same]
        exact ok.saved
      · exact ok.single
      · intro none
        rw [same, listed] at none
        cases none
      · rw [same]
        exact ok.jobs
      · rw [same]
        exact ok.point

theorem start_ok (ok : WatchOk s) (started : s.act sha256 .start = some t) : WatchOk t := by
  obtain ⟨⟨-, enabled⟩, same⟩ := Option.ite_none_right_eq_some.mp started
  cases same
  constructor
  · exact ok.saved
  · exact ok.single
  · intro none
    rw [(ok.fresh none).1] at enabled
    cases enabled
  · rintro _ ⟨⟩
    exact ok.saved.reset
  · rintro _ ⟨⟩
    exact ⟨⟨resetQueue_quiet _, rfl⟩, .inl rfl⟩

theorem tick_ok (ok : WatchOk s) (running : s.worker = some w) (idle : w.point = .idle) :
    WatchOk (s.tick sha256 w.jobs) := by
  have here := ok.point w running
  rw [idle] at here
  unfold Watch.tick
  split
  · exact ok
  · split
    · exact ok
    · apply ok.move running (ok.jobs w running)
      exact ⟨rfl, here.1, here.2, List.Sublist.refl _⟩

theorem afterRetain_ok (ok : WatchOk s) (running : s.worker = some w) {paths : List (String × String)}
    {excluded : Option (List String)} {kept : Queue} (here : w.point = .retain paths excluded [] kept) :
    WatchOk (s.afterRetain w.jobs paths excluded kept) := by
  obtain ⟨found, quiet, saved, within⟩ := here ▸ ok.point w running
  rw [List.append_nil] at within
  unfold Watch.afterRetain
  split
  · exact ok.stop
  · dsimp only
    split
    · exact ok.move running (ok.jobs w running) ⟨found, quiet, saved⟩
    · apply ok.move running ((ok.jobs w running).sublist within)
      refine ⟨⟨found, fun e member => quiet e (within.subset member), rfl⟩, .inr (.inr ?_)⟩
      rintro key state - ⟨job, member, same⟩
      rw [saved]
      exact ⟨job, within.subset member, same⟩

theorem retain_ok (ok : WatchOk s) (running : s.worker = some w) {paths : List (String × String)}
    {excluded : Option (List String)} {e : String × Job} {todo kept : Queue}
    (here : w.point = .retain paths excluded (e :: todo) kept) :
    WatchOk (s.at_ w.jobs (.retain paths excluded todo (if retains s.folders paths e.1 then kept ++ [e] else kept))) := by
  obtain ⟨found, quiet, saved, within⟩ := here ▸ ok.point w running
  apply ok.move running (ok.jobs w running)
  refine ⟨found, quiet, saved, ?_⟩
  split
  · rw [List.append_assoc]
    exact within
  · apply List.Sublist.trans _ within
    exact (List.Sublist.refl kept).append (List.sublist_cons_self e todo)

theorem scanCapture_queue {folders : Option (List Folder)} {excluded : List String} {jobs : Queue} {key name : String}
    {admission : Admission} {profile : List (String × Value)}
    (queued : scanCapture folders excluded jobs key name admission = .queue profile) :
    key ∉ excluded ∧ key ∉ keys jobs := by
  unfold scanCapture at queued
  split at queued
  · cases queued
  · rename_i free
    exact not_or.mp free

theorem scanNext_ok (ok : WatchOk s) (running : s.worker = some w) {excluded : List String}
    {path : String × String} {rest : List (String × String)} (here : w.point = .scan excluded (path :: rest))
    (admission : Admission) : WatchOk (s.scanNext w.jobs excluded path.1 path.2 rest admission) := by
  obtain ⟨found, quiet, saved⟩ := here ▸ ok.point w running
  unfold Watch.scanNext
  split
  · exact ok.move running (ok.jobs w running) ⟨found, quiet, saved⟩
  · exact ok.move running (ok.jobs w running) ⟨quiet, saved, List.Subset.refl _⟩
  · exact ok.stop
  · rename_i profile queued
    obtain ⟨free, new⟩ := scanCapture_queue queued
    have logged : WatchOk { s with log := .queued path.1 :: s.log } := by
      apply ok.log
      · rintro k ⟨⟩
        rw [saved]
        exact new
      · intro w' running' k same
        cases same
        cases running.symm.trans running'
        exact new
    apply logged.move (w := w) running
    · apply (logged.jobs w running).put new
      · rw [← found]
        exact free
      · simp [Job.Accounted, raisedSince]
    · refine ⟨⟨found, ?_, rfl⟩, .inr (.inr ?_)⟩
      · intro e member
        rcases mem_put.mp member with ⟨old, -⟩ | rfl
        · exact quiet e old
        · nofun
      · rintro key state settled ⟨job, member, same⟩
        rcases mem_put.mp member with ⟨old, -⟩ | new
        · rw [show ({ s with log := .queued path.1 :: s.log } : Watch).saved = s.saved from rfl, saved]
          exact ⟨job, old, same⟩
        · cases new
          subst same
          exact absurd settled JobState.not_settled_pending

theorem chooseNext_ok (ok : WatchOk s) (running : s.worker = some w) {key : String} {job : Job} {rest : Queue}
    (here : w.point = .choose ((key, job) :: rest)) (now : ℚ) : WatchOk (s.chooseNext w.jobs key job rest now) := by
  obtain ⟨quiet, saved, within⟩ := here ▸ ok.point w running
  have member : (key, job) ∈ w.jobs := within List.mem_cons_self
  unfold Watch.chooseNext
  split
  · exact ok.move running (ok.jobs w running) ⟨quiet, saved, List.Subset.trans (List.subset_cons_self _ _) within⟩
  · rename_i due
    have pending : job.state = .pending := by
      by_contra other
      exact due (.inl other)
    have counted := (ok.jobs w running).counted key job member
    apply ok.move running
    · apply (ok.jobs w running).change
      simp only [Job.Accounted, pending] at counted ⊢
      omega
    · refine ⟨⟨quiet.claim member rfl, rfl⟩, .inr (.inr ?_)⟩
      rintro other state settled ⟨mine, changed, same⟩
      rcases mem_change.mp changed with ⟨old, -⟩ | ⟨new, -⟩
      · rw [saved]
        exact ⟨mine, old, same⟩
      · cases new
        subst same
        exact absurd settled JobState.not_settled_processing

theorem save_ok (ok : WatchOk s) (running : s.worker = some w) {after : Point} (here : w.point = .save after) :
    WatchOk { s.at_ w.jobs after with saved := some w.jobs } := by
  have next : after.Ok s.settings.excluded (some w.jobs) w.jobs := by
    have point := ok.point w running
    rw [here] at point
    exact point.1
  constructor
  · exact ok.jobs w running
  · exact next.single
  · intro none
    have stopped := (ok.fresh none).2.2
    rw [running] at stopped
    cases stopped
  · rintro _ ⟨⟩
    exact ok.jobs w running
  · rintro _ ⟨⟩
    exact next

theorem begin_ok (ok : WatchOk s) (running : s.worker = some w) {key : String} (here : w.point = .begin key) :
    WatchOk { s.at_ w.jobs (.work key) with log := .began key :: s.log } := by
  have at_ : WatchOk (s.at_ w.jobs (.work key)) := by
    have point := ok.point w running
    rw [here] at point
    exact ok.move running (ok.jobs w running) point
  exact at_.log nofun nofun

theorem finish_ok (ok : WatchOk s) (running : s.worker = some w) {key : String} {job : Job} (here : w.point = .work key)
    (found : get w.jobs key = some job) (load : List (String × Value) → Option (List (String × Value)))
    (ending : Ending) (now : ℚ) : WatchOk (s.finish w.jobs key job load ending now) := by
  obtain ⟨busy, saved⟩ := here ▸ ok.point w running
  have queue := ok.jobs w running
  have processing : job.state = .processing := by
    obtain ⟨other, member, working⟩ := busy.here
    rw [eq_of_mem queue.distinct (get_eq_some found) member]
    exact working
  obtain ⟨state, attempts⟩ := attempt_state load ending job
  have tried : (attempt load ending job).1.Accounted (raisedSince key s.log) := by
    have counted := queue.counted key job (get_eq_some found)
    simp only [Job.Accounted, state, attempts] at counted ⊢
    exact counted
  have settled := settle_accounted (state.trans processing) tried now (attempt load ending job).2
  have quiet : Quiet (change w.jobs key (settle now (attempt load ending job).2 (attempt load ending job).1)) :=
    busy.release (settle_state _ _ _)
  have point : (Point.save (if (attempt load ending job).2 = .interrupted then .exit else .idle)).Ok
      s.settings.excluded s.saved (change w.jobs key (settle now (attempt load ending job).2 (attempt load ending job).1)) := by
    split
    · exact ⟨⟨quiet, rfl⟩, .inr (.inl rfl)⟩
    · exact ⟨⟨quiet, rfl⟩, .inl rfl⟩
  unfold Watch.finish
  dsimp only
  by_cases raised : (attempt load ending job).2 = .raised
  · rw [if_pos raised] at settled ⊢
    have logged : WatchOk { s with log := .raised key :: s.log } := ok.log nofun nofun
    apply logged.move (w := w) running _ point
    apply (logged.jobs w running).change
    simpa only [raisedSince, if_true] using settled
  · rw [if_neg raised] at settled ⊢
    exact ok.move running (queue.change settled) point

theorem work_ok (ok : WatchOk s) (running : s.worker = some w) {a : Action} (done : s.work sha256 w a = some t) :
    WatchOk t := by
  cases a with
  | tick =>
      simp only [Watch.work] at done
      split at done <;> cases done
      exact tick_ok ok running ‹_›
  | retain =>
      simp only [Watch.work] at done
      split at done <;> cases done
      · exact retain_ok ok running ‹_›
      · exact afterRetain_ok ok running ‹_›
  | scan admission =>
      simp only [Watch.work] at done
      split at done <;> cases done
      · exact scanNext_ok ok running ‹_› admission
      · obtain ⟨-, quiet, saved⟩ := (‹w.point = _› : w.point = _) ▸ ok.point w running
        exact ok.move running (ok.jobs w running) ⟨quiet, saved, List.Subset.refl _⟩
  | choose now =>
      simp only [Watch.work] at done
      split at done <;> cases done
      · exact chooseNext_ok ok running ‹_› now
      · obtain ⟨quiet, saved, -⟩ := (‹w.point = _› : w.point = _) ▸ ok.point w running
        exact ok.move running (ok.jobs w running) ⟨quiet, saved⟩
  | save =>
      simp only [Watch.work] at done
      split at done <;> cases done
      exact save_ok ok running ‹_›
  | begin =>
      simp only [Watch.work] at done
      split at done <;> cases done
      exact begin_ok ok running ‹_›
  | finish load ending now =>
      simp only [Watch.work] at done
      split at done
      · rename_i key here
        obtain ⟨job, found, rfl⟩ := Option.map_eq_some_iff.mp done
        exact finish_ok ok running here found load ending now
      · cases done
  | files _ => cases done
  | enable => cases done
  | disable => cases done
  | start => cases done
  | die => cases done

theorem step_ok (ok : WatchOk s) {a : Action} (done : s.step sha256 a t) : WatchOk t := by
  have worked : (s.worker.bind fun w => s.work sha256 w a) = some t → WatchOk t := by
    intro moved
    obtain ⟨w, running, moved⟩ := Option.bind_eq_some_iff.mp moved
    exact work_ok ok running moved
  cases a with
  | files folders =>
      cases done
      exact ⟨ok.saved, ok.single, ok.fresh, ok.jobs, ok.point⟩
  | enable =>
      cases done
      exact enable_ok ok
  | disable =>
      cases done
      exact ⟨ok.saved, ok.single, fun none => ⟨rfl, (ok.fresh none).2⟩, ok.jobs, ok.point⟩
  | start => exact start_ok ok done
  | die =>
      cases done
      exact ok.stop
  | tick => exact worked done
  | retain => exact worked done
  | scan _ => exact worked done
  | choose _ => exact worked done
  | save => exact worked done
  | begin => exact worked done
  | finish _ _ _ => exact worked done

theorem run_ok (run : Reachable Watch.init (Watch.step sha256) s) : WatchOk s := by
  apply Reachable.invariant _ _ run
  · rintro s ⟨settings, noFile, stopped, -⟩
    refine ⟨?_, ⟨"", ?_⟩, fun _ => ⟨?_, noFile, stopped⟩, ?_, ?_⟩
    · rw [noFile]
      exact ⟨List.nodup_nil, fun _ _ member => absurd member List.not_mem_nil, fun _ member => absurd member List.not_mem_nil⟩
    · rw [noFile]
      exact fun _ member => absurd member List.not_mem_nil
    · rw [settings]
    · intro w running
      rw [stopped] at running
      cases running
    · intro w running
      rw [stopped] at running
      cases running
  · intro s a t ok done
    exact step_ok ok done

end Steps

/-! ## A settled job stays settled -/

/-- The capture is there with its audio, and no other folder has its key. -/
structure Remains (sha256 : String → String) (name : String) (s : Watch) : Prop where
  audio : ∃ f, findFolder s.folders name = some f ∧ f.hasAudio = true
  own : ∀ f ∈ s.folders.getD [], sha256 f.name = sha256 name → f.name = name

/-- No tick is in progress. -/
def Watch.BetweenTicks (s : Watch) : Prop := ∀ w, s.worker = some w → w.point = .idle ∨ w.point = .exit

/-- The listing of a tick in progress has the capture and its job. -/
def Point.Follows (key name : String) (state : JobState) : Point → Prop
  | .retain paths _ todo kept => get paths key = some name ∧ HasState (kept ++ todo) key state
  | .save after => after.Follows key name state
  | _ => True

structure Holds (sha256 : String → String) (name : String) (state : JobState) (began : Nat) (s : Watch) : Prop where
  saved : HasState (s.saved.getD []) (sha256 name) state
  jobs : ∀ w, s.worker = some w → HasState w.jobs (sha256 name) state
  follows : ∀ w, s.worker = some w → w.point.Follows (sha256 name) name state
  count : s.log.count (.began (sha256 name)) = began

section Settled

variable {sha256 : String → String} {name : String} {state : JobState} {began : Nat} {s t : Watch} {w : Worker}

theorem mem_captures {folders : List Folder} {key found : String} :
    (key, found) ∈ captures sha256 folders → ∃ f ∈ folders, f.directory = true ∧ f.name = found ∧ sha256 f.name = key := by
  unfold captures
  induction folders using List.reverseRecOn with
  | nil => exact fun member => absurd member List.not_mem_nil
  | append_singleton front f ih =>
      rw [List.foldl_append, List.foldl_cons, List.foldl_nil]
      intro member
      split at member
      · rename_i directory
        rcases mem_put.mp member with ⟨old, -⟩ | same
        · obtain ⟨g, inside, rest⟩ := ih old
          exact ⟨g, List.mem_append_left _ inside, rest⟩
        · cases same
          exact ⟨f, by simp, directory, rfl, rfl⟩
      · obtain ⟨g, inside, rest⟩ := ih member
        exact ⟨g, List.mem_append_left _ inside, rest⟩

theorem captures_of_mem {folders : List Folder} {f : Folder} (member : f ∈ folders) (directory : f.directory = true) :
    sha256 f.name ∈ keys (captures sha256 folders) := by
  unfold captures
  induction folders using List.reverseRecOn with
  | nil => exact absurd member List.not_mem_nil
  | append_singleton front g ih =>
      rw [List.foldl_append, List.foldl_cons, List.foldl_nil]
      rcases List.mem_append.mp member with old | last
      · obtain ⟨found, here⟩ := mem_keys.mp (ih old)
        split
        · by_cases same : sha256 f.name = sha256 g.name
          · rw [same]
            exact mem_keys_of_mem (mem_put.mpr (.inr rfl))
          · exact mem_keys_of_mem (mem_put.mpr (.inl ⟨here, same⟩))
        · exact mem_keys_of_mem here
      · cases List.mem_singleton.mp last
        rw [if_pos directory]
        exact mem_keys_of_mem (mem_put.mpr (.inr rfl))

/-- A listing has the capture under its key. -/
theorem Remains.listed (here : Remains sha256 name s) {folders : List Folder} (root : s.folders = some folders) :
    get (captures sha256 folders) (sha256 name) = some name := by
  obtain ⟨f, found, audio⟩ := here.audio
  have own := here.own
  rw [root] at found own
  have named : f.name = name := by simpa using List.find?_some found
  have member : f ∈ folders := List.mem_of_find?_eq_some found
  have directory : f.directory = true := by
    unfold Folder.hasAudio at audio
    exact (Bool.and_eq_true _ _ ▸ audio).1
  have only : ∀ other, (sha256 name, other) ∈ captures sha256 folders → other = name := by
    intro other listed
    obtain ⟨g, inside, -, rfl, same⟩ := mem_captures listed
    exact own g inside same
  obtain ⟨other, listed⟩ := mem_keys.mp (named ▸ captures_of_mem member directory)
  cases only other listed
  exact get_of_forall listed only

theorem Remains.retains (here : Remains sha256 name s) {paths : List (String × String)}
    (listed : get paths (sha256 name) = some name) : retains s.folders paths (sha256 name) = true := by
  obtain ⟨f, found, audio⟩ := here.audio
  simp only [Pipeline.retains, listed, found, Option.any_some, audio]

theorem HasState.change {jobs : Queue} {key other : String} (has : HasState jobs key state) (ne : key ≠ other)
    (job : Job) : HasState (change jobs other job) key state := by
  obtain ⟨mine, member, same⟩ := has
  exact ⟨mine, mem_change.mpr (.inl ⟨member, ne⟩), same⟩

theorem HasState.unique {excluded : List String} {log : List Event} {jobs : Queue} {key : String} {job : Job}
    (has : HasState jobs key state) (ok : QueueOk excluded log jobs) (member : (key, job) ∈ jobs) : job.state = state := by
  obtain ⟨mine, here, same⟩ := has
  rw [eq_of_mem ok.distinct member here]
  exact same

theorem Holds.move (holds : Holds sha256 name state began s) {jobs : Queue} {point : Point}
    (has : HasState jobs (sha256 name) state) (follows : point.Follows (sha256 name) name state) :
    Holds sha256 name state began (s.at_ jobs point) where
  saved := holds.saved
  jobs := by
    rintro _ ⟨⟩
    exact has
  follows := by
    rintro _ ⟨⟩
    exact follows
  count := holds.count

theorem Holds.stop (holds : Holds sha256 name state began s) : Holds sha256 name state began { s with worker := none } where
  saved := holds.saved
  jobs := nofun
  follows := nofun
  count := holds.count

theorem Holds.log (holds : Holds sha256 name state began s) {event : Event} (other : event ≠ .began (sha256 name)) :
    Holds sha256 name state began { s with log := event :: s.log } where
  saved := holds.saved
  jobs := holds.jobs
  follows := holds.follows
  count := by
    rw [List.count_cons_of_ne other]
    exact holds.count

theorem work_holds (settled : state.Settled) (ok : WatchOk s) (remains : Remains sha256 name s) (running : s.worker = some w)
    (holds : Holds sha256 name state began s) {a : Action} (done : s.work sha256 w a = some t) :
    Holds sha256 name state began t := by
  have has := holds.jobs w running
  have follows := holds.follows w running
  have point := ok.point w running
  -- The job that is being processed is another one.
  have apart : ∀ key, Processing key w.jobs → sha256 name ≠ key := by
    rintro key ⟨⟨job, member, working⟩, -⟩ rfl
    have same := has.unique (ok.jobs w running) member
    rw [← same, working] at settled
    exact JobState.not_settled_processing settled
  cases a with
  | tick =>
      simp only [Watch.work] at done
      split at done <;> cases done
      unfold Watch.tick
      split
      · exact holds
      · split
        · exact holds
        · rename_i folders root
          exact holds.move has ⟨remains.listed root, has⟩
  | retain =>
      simp only [Watch.work] at done
      split at done <;> cases done
      · rename_i here
        rw [here] at follows
        obtain ⟨listed, mine, member, same⟩ := follows
        apply holds.move has
        refine ⟨listed, mine, ?_, same⟩
        rcases List.mem_append.mp member with old | now
        · split
          · exact List.mem_append_left _ (List.mem_append_left _ old)
          · exact List.mem_append_left _ old
        · rcases List.mem_cons.mp now with rfl | later
          · rw [if_pos (remains.retains listed)]
            simp
          · exact List.mem_append_right _ later
      · rename_i here
        rw [here] at follows
        obtain ⟨listed, kept⟩ := follows
        rw [List.append_nil] at kept
        unfold Watch.afterRetain
        split
        · exact holds.stop
        · dsimp only
          split
          · exact holds.move has trivial
          · exact holds.move kept trivial
  | scan admission =>
      simp only [Watch.work] at done
      split at done <;> cases done
      · rename_i path rest here
        unfold Watch.scanNext
        split
        · exact holds.move has trivial
        · exact holds.move has trivial
        · exact holds.stop
        · rename_i queued
          obtain ⟨mine, member, same⟩ := has
          have new := (scanCapture_queue queued).2
          have logged : Holds sha256 name state began { s with log := .queued path.1 :: s.log } :=
            holds.log fun same => by cases same
          refine logged.move ⟨mine, mem_put.mpr (.inl ⟨member, fun own => new ?_⟩), same⟩ trivial
          rw [← own]
          exact mem_keys_of_mem member
      · exact holds.move has trivial
  | choose now =>
      simp only [Watch.work] at done
      split at done <;> cases done
      · rename_i key job rest here
        rw [here] at point
        obtain ⟨-, -, within⟩ := point
        unfold Watch.chooseNext
        split
        · exact holds.move has trivial
        · rename_i due
          have other : sha256 name ≠ key := by
            rintro rfl
            have same := has.unique (ok.jobs w running) (within List.mem_cons_self)
            refine due (.inl fun pending => ?_)
            rw [← same, pending] at settled
            exact JobState.not_settled_pending settled
          exact holds.move (has.change other _) trivial
      · exact holds.move has trivial
  | save =>
      simp only [Watch.work] at done
      split at done <;> cases done
      rename_i after here
      rw [here] at follows
      have moved : Holds sha256 name state began (s.at_ w.jobs after) := holds.move has follows
      exact ⟨has, moved.jobs, moved.follows, moved.count⟩
  | begin =>
      simp only [Watch.work] at done
      split at done <;> cases done
      rename_i key here
      rw [here] at point
      have moved : Holds sha256 name state began (s.at_ w.jobs (.work key)) := holds.move has trivial
      apply moved.log
      intro same
      exact apart key point.1 (Event.began.inj same).symm
  | finish load ending now =>
      simp only [Watch.work] at done
      split at done
      · rename_i key here
        obtain ⟨job, found, rfl⟩ := Option.map_eq_some_iff.mp done
        rw [here] at point
        have next : ∀ log, Holds sha256 name state began { s with log := log } →
            Holds sha256 name state began { s.at_ (change w.jobs key (settle now (attempt load ending job).2
              (attempt load ending job).1)) (.save (if (attempt load ending job).2 = .interrupted then .exit else .idle))
              with log := log } := by
          intro log logged
          apply logged.move (has.change (apart key point.1) _)
          simp only [Point.Follows]
          split <;> trivial
        unfold Watch.finish
        by_cases raised : (attempt load ending job).2 = .raised
        · simp only [if_pos raised]
          have logged : Holds sha256 name state began { s with log := .raised key :: s.log } :=
            holds.log fun same => by cases same
          exact next _ logged
        · simp only [if_neg raised]
          exact next _ holds
      · cases done
  | files _ => cases done
  | enable => cases done
  | disable => cases done
  | start => cases done
  | die => cases done

theorem HasState.reset {jobs : Queue} {key : String} (settled : state.Settled) (has : HasState jobs key state) :
    HasState (resetQueue jobs) key state := by
  obtain ⟨job, member, same⟩ := has
  refine ⟨resetJob job, List.mem_map.mpr ⟨(key, job), member, rfl⟩, ?_⟩
  unfold resetJob
  rw [if_neg, same]
  intro processing
  rw [← same, processing] at settled
  exact JobState.not_settled_processing settled

theorem step_holds (settled : state.Settled) (ok : WatchOk s) (remains : Remains sha256 name s)
    (holds : Holds sha256 name state began s) {a : Action} (done : s.step sha256 a t) :
    Holds sha256 name state began t := by
  have worked : (s.worker.bind fun w => s.work sha256 w a) = some t → Holds sha256 name state began t := by
    intro moved
    obtain ⟨w, running, moved⟩ := Option.bind_eq_some_iff.mp moved
    exact work_holds settled ok remains running holds moved
  cases a with
  | files folders =>
      cases done
      exact ⟨holds.saved, holds.jobs, holds.follows, holds.count⟩
  | enable =>
      cases done
      exact ⟨holds.saved, holds.jobs, holds.follows, holds.count⟩
  | disable =>
      cases done
      exact ⟨holds.saved, holds.jobs, holds.follows, holds.count⟩
  | start =>
      obtain ⟨-, same⟩ := Option.ite_none_right_eq_some.mp done
      cases same
      exact holds.move (holds.saved.reset settled) trivial
  | die =>
      cases done
      exact holds.stop
  | tick => exact worked done
  | retain => exact worked done
  | scan _ => exact worked done
  | choose _ => exact worked done
  | save => exact worked done
  | begin => exact worked done
  | finish _ _ _ => exact worked done

/-- Only a write of the worker changes the queue file. -/
theorem saved_step {a : Action} (done : s.step sha256 a t) : t.saved = s.saved ∨ ∃ w after, s.worker = some w ∧
    w.point = .save after ∧ t = { s.at_ w.jobs after with saved := some w.jobs } := by
  have worked : (s.worker.bind fun w => s.work sha256 w a) = some t → t.saved = s.saved ∨ ∃ w after,
      s.worker = some w ∧ w.point = .save after ∧ t = { s.at_ w.jobs after with saved := some w.jobs } := by
    intro moved
    obtain ⟨w, running, moved⟩ := Option.bind_eq_some_iff.mp moved
    cases a with
    | tick =>
        simp only [Watch.work] at moved
        split at moved <;> cases moved
        left
        unfold Watch.tick
        split
        · rfl
        · split <;> rfl
    | retain =>
        simp only [Watch.work] at moved
        split at moved <;> cases moved
        · exact .inl rfl
        · left
          unfold Watch.afterRetain
          split
          · rfl
          · dsimp only
            split <;> rfl
    | scan admission =>
        simp only [Watch.work] at moved
        split at moved <;> cases moved
        · left
          unfold Watch.scanNext
          split <;> rfl
        · exact .inl rfl
    | choose now =>
        simp only [Watch.work] at moved
        split at moved <;> cases moved
        · left
          unfold Watch.chooseNext
          split <;> rfl
        · exact .inl rfl
    | save =>
        simp only [Watch.work] at moved
        split at moved <;> cases moved
        exact .inr ⟨w, _, running, ‹_›, rfl⟩
    | begin =>
        simp only [Watch.work] at moved
        split at moved <;> cases moved
        exact .inl rfl
    | finish load ending now =>
        simp only [Watch.work] at moved
        split at moved
        · obtain ⟨job, -, rfl⟩ := Option.map_eq_some_iff.mp moved
          exact .inl rfl
        · cases moved
    | files _ => cases moved
    | enable => cases moved
    | disable => cases moved
    | start => cases moved
    | die => cases moved
  cases a with
  | files _ =>
      cases done
      exact .inl rfl
  | enable =>
      cases done
      exact .inl rfl
  | disable =>
      cases done
      exact .inl rfl
  | start =>
      obtain ⟨-, same⟩ := Option.ite_none_right_eq_some.mp done
      cases same
      exact .inl rfl
  | die =>
      cases done
      exact .inl rfl
  | tick => exact worked done
  | retain => exact worked done
  | scan _ => exact worked done
  | choose _ => exact worked done
  | save => exact worked done
  | begin => exact worked done
  | finish _ _ _ => exact worked done

/-- A job is settled in the file by the last write of a tick. -/
theorem settled_between (ok : WatchOk s) {a : Action} (done : s.step sha256 a t) {key : String} (settled : state.Settled)
    (has : HasState (t.saved.getD []) key state) : HasState (s.saved.getD []) key state ∨ t.BetweenTicks := by
  rcases saved_step done with same | ⟨w, after, running, here, rfl⟩
  · rw [same] at has
    exact .inl has
  · have point := ok.point w running
    rw [here] at point
    rcases point.2 with rfl | rfl | same
    · right
      rintro _ ⟨⟩
      exact .inl rfl
    · right
      rintro _ ⟨⟩
      exact .inr rfl
    · exact .inl (same key state settled has)

end Settled

/-! ## The result -/

/-- The bounds of the attempts in each state. -/
def Job.Within (job : Job) : Prop :=
  (job.state = .pending → 0 ≤ job.attempts ∧ job.attempts ≤ 2) ∧
  (job.state = .processing → 1 ≤ job.attempts ∧ job.attempts ≤ 3) ∧
  (job.state = .failed → job.attempts = 3)

theorem Job.Accounted.within {job : Job} {n : Nat} (counted : job.Accounted n) :
    job.Within ∧ (job.state = .failed → 3 ≤ n) := by
  unfold Job.Accounted at counted
  unfold Job.Within
  cases state : job.state <;> simp only [state] at counted <;> simp [counted]

theorem QueueOk.processing_le {excluded : List String} {log : List Event} {jobs : Queue} (ok : QueueOk excluded log jobs)
    (single : ∃ key, ∀ e ∈ jobs, e.2.state = .processing → e.1 = key) :
    jobs.countP (fun e => decide (e.2.state = .processing)) ≤ 1 := by
  obtain ⟨key, only⟩ := single
  rw [List.countP_eq_length_filter]
  have all : keys (jobs.filter fun e => decide (e.2.state = .processing)) =
      List.replicate (jobs.filter fun e => decide (e.2.state = .processing)).length key := by
    apply List.eq_replicate_iff.mpr
    refine ⟨by simp [keys], fun k member => ?_⟩
    obtain ⟨job, inside⟩ := mem_keys.mp member
    obtain ⟨here, working⟩ := List.mem_filter.mp inside
    exact only (k, job) here (by simpa using working)
  have distinct : (keys (jobs.filter fun e => decide (e.2.state = .processing))).Nodup :=
    ok.distinct.sublist (List.filter_sublist.map Prod.fst)
  rw [all] at distinct
  exact List.nodup_replicate.mp distinct

/-- Steps during which the capture is there. -/
def Watch.stepWhile (sha256 : String → String) (name : String) (s : Watch) (a : Action) (t : Watch) : Prop :=
  Remains sha256 name s ∧ s.step sha256 a t

/-- The jobs of the queue file and of the running worker. -/
def Watch.queued (s : Watch) : Queue := s.saved.getD [] ++ ((s.worker.map Worker.jobs).getD [])

/-- In every state of every run, the attempts of each job are within their bounds, a failed job had three attempts
that raised since it was queued, no excluded capture is queued and at most one job of the file is being processed. A job
that the file has as settled (which happens between two ticks) stays so, and is not transcribed, as long as its capture
remains. -/
theorem queue_accounted {sha256 : String → String} {s : Watch} (run : Reachable Watch.init (Watch.step sha256) s) :
    (∀ key job, (key, job) ∈ s.queued → job.Within ∧ (job.state = .failed → 3 ≤ raisedSince key s.log) ∧
      key ∉ s.settings.excluded.getD []) ∧
    (s.saved.getD []).countP (fun e => decide (e.2.state = .processing)) ≤ 1 ∧
    (∀ a t key state, s.step sha256 a t → JobState.Settled state → HasState (t.saved.getD []) key state →
      HasState (s.saved.getD []) key state ∨ t.BetweenTicks) ∧
    ∀ name state, JobState.Settled state → HasState (s.saved.getD []) (sha256 name) state → s.BetweenTicks →
      ∀ t, Reaches (Watch.stepWhile sha256 name) s t → HasState (t.saved.getD []) (sha256 name) state ∧
        t.log.count (.began (sha256 name)) = s.log.count (.began (sha256 name)) := by
  have ok := run_ok run
  have each : ∀ jobs, QueueOk (s.settings.excluded.getD []) s.log jobs → ∀ key job, (key, job) ∈ jobs →
      job.Within ∧ (job.state = .failed → 3 ≤ raisedSince key s.log) ∧ key ∉ s.settings.excluded.getD [] := by
    intro jobs queue key job member
    obtain ⟨within, failed⟩ := (queue.counted key job member).within
    exact ⟨within, failed, queue.admitted key (mem_keys_of_mem member)⟩
  refine ⟨?_, ok.saved.processing_le ok.single, fun a t key state done settled has => settled_between ok done settled has, ?_⟩
  · intro key job member
    rcases List.mem_append.mp member with inFile | inMemory
    · exact each _ ok.saved key job inFile
    · cases running : s.worker with
      | none =>
          rw [running] at inMemory
          exact absurd inMemory List.not_mem_nil
      | some w =>
          rw [running] at inMemory
          exact each _ (ok.jobs w running) key job inMemory
  · intro name state settled has between t later
    have start : Holds sha256 name state (s.log.count (.began (sha256 name))) s := by
      refine ⟨has, fun w running => ?_, fun w running => ?_, rfl⟩
      · have point := ok.point w running
        rcases between w running with here | here
        · rw [here] at point
          rw [point.2] at has
          exact has
        · rw [here] at point
          rw [point.2] at has
          exact has
      · rcases between w running with here | here <;> rw [here] <;> trivial
    have both : WatchOk t ∧ Holds sha256 name state (s.log.count (.began (sha256 name))) t := by
      apply Reaches.stable _ later ⟨ok, start⟩
      rintro s a t ⟨ok, holds⟩ ⟨remains, done⟩
      exact ⟨step_ok ok done, step_holds settled ok remains holds done⟩
    exact ⟨both.2.saved, both.2.count⟩

/-! ## A run -/

def sampleCapture : Folder := ⟨"a", true, .file, false, some (.obj [("status", .str "completed")])⟩

def sampleJob : Job :=
  ⟨.completed, 1, 0, [("engine", .str "whisperx"), ("diarization_model", .str defaultDiarizationModel)]⟩

/-- Nothing was captured before the first opt-in. -/
def emptyWatch : Watch := ⟨none, ⟨false, none⟩, none, none, []⟩

def enabledWatch : Watch := ⟨none, ⟨true, some []⟩, none, none, []⟩

/-- A tick has listed the capture. -/
def listedWatch : Watch :=
  ⟨some [sampleCapture], ⟨true, some []⟩, some [], some ⟨[], .retain [("a", "a")] (some []) [] []⟩, []⟩

def scanningWatch : Watch := listedWatch.at_ [] (.scan [] [("a", "a")])

def transcribedWatch : Watch :=
  ⟨some [sampleCapture], ⟨true, some []⟩, some [("a", sampleJob)], some ⟨[("a", sampleJob)], .idle⟩,
    [.began "a", .queued "a"]⟩

theorem reachable_transcribed : Reachable Watch.init (Watch.step id) transcribedWatch := by
  have opted : Watch.step id emptyWatch .enable enabledWatch := by
    simp [Watch.step, Watch.act, Watch.enable, emptyWatch, enabledWatch, captures, keys]
  have start : Reachable Watch.init (Watch.step id) emptyWatch := .start ⟨rfl, rfl, rfl, rfl⟩
  have listed : Reachable Watch.init (Watch.step id) listedWatch := by
    apply (start.next opted).actions (f := Watch.act id) (fun _ _ _ _ done => done)
    exact (rfl : List.foldlM (Watch.act id) enabledWatch [.start, .save, .files (some [sampleCapture]),
      .tick] = some listedWatch)
  have scanning : Watch.step id listedWatch .retain scanningWatch := by
    simp [Watch.step, Watch.act, Watch.work, listedWatch, Watch.afterRetain, Watch.sameKeys, scanningWatch, Watch.at_]
  apply (listed.next scanning).actions (f := Watch.act id) (fun _ _ _ _ done => done)
  exact (rfl : List.foldlM (Watch.act id) scanningWatch
    [.scan (.profile [("engine", .str "whisperx")]), .save, .scan .disabled, .choose 0, .save, .begin,
      .finish some .completed 0, .save] = some transcribedWatch)

/-- A transcribed capture is not transcribed again. -/
theorem queue_accounted_transcribed : Reachable Watch.init (Watch.step id) transcribedWatch ∧
    ∀ t, Reaches (Watch.stepWhile id "a") transcribedWatch t →
      HasState (t.saved.getD []) "a" .completed ∧ t.log.count (.began "a") = 1 := by
  refine ⟨reachable_transcribed, ?_⟩
  apply (queue_accounted reachable_transcribed).2.2.2 "a" .completed (.inl rfl)
  · exact ⟨sampleJob, List.mem_singleton_self _, rfl⟩
  · rintro _ ⟨⟩
    exact .inl rfl

end OmiLocal.Pipeline
