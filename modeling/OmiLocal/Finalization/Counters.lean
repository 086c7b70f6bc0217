import OmiLocal.Finalization.Fencing

/-!
# Finalization counters

The sums over the projection shards against the jobs themselves: each job that belongs to
the projection has one share in `accepted`, one in the counter of its status and, when it
has ended, one in the counter of its outcome.
-/
namespace OmiLocal.Finalization
open Lib Lib.Transition

def JobStatus.counter : JobStatus → Counter
  | .queued => .queued
  | .leased => .leased
  | .completed => .completed
  | .deadLetter => .deadLetter
  | .blockedByok => .blockedByok

def TerminalOutcome.counter : TerminalOutcome → Counter
  | .success => .success
  | .stale => .stale
  | .failure => .failure

def Job.projected (job : Job) : Bool := job.projectionRef.isSome

/-- The counters a job has a share in. -/
def Job.counted (job : Job) : List (Counter × Int) :=
  (.accepted, 1) :: (job.status.counter, 1) :: (job.terminalOutcome.map fun outcome => (outcome.counter, 1)).toList

def Job.share (counter : Counter) (job : Job) : Int := if job.projected then deltas job.counted counter else 0

def World.total (w : World) (counter : Counter) : Int := ∑ shard, w.store.shards shard counter

/-- The projected jobs with a status. -/
def World.jobsIn (w : World) (status : JobStatus) : Nat :=
  w.store.jobs.countP fun e => e.2.projected && decide (e.2.status = status)

variable {p : Platform} {now : Instant} {id : String} {call : Call} {job next : Job} {changes : List (Counter × Int)}

/-! ## One update -/

theorem Update.projectionRef_eq (update : Update p now id call job next changes) :
    next.projectionRef = job.projectionRef := by
  cases update with
  | _ => rfl

/-- No job is accepted a second time. -/
theorem Update.accepted_eq (update : Update p now id call job next changes) : deltas changes .accepted = 0 := by
  cases update with
  | claim admitted => split <;> rfl
  | replay going => split <;> rfl
  | _ => rfl

/-- The deltas of an update are what the job's shares change by. -/
theorem Update.deltas_eq (update : Update p now id call job next changes) (ok : JobOk job) (counter : Counter) :
    deltas changes counter + deltas job.counted counter = deltas next.counted counter := by
  have counted : ∀ {status : JobStatus}, job.status = status → status.terminal = false →
      job.terminalOutcome = none ∧ job.counted = [(.accepted, 1), (status.counter, 1)] := by
    intro status same going
    have none := (ok.unfinished (same ▸ going)).1
    refine ⟨none, ?_⟩
    unfold Job.counted
    rw [same, none]
    rfl
  have leased : ∀ {l : Lease}, job.isCurrentLease l.dispatchGeneration l.leaseEpoch = true →
      job.status = .leased ∧ job.terminalOutcome = none ∧ job.counted = [(.accepted, 1), (.leased, 1)] := fun current =>
    have same := (isCurrentLease_iff.mp current).1
    ⟨same, counted same rfl⟩
  cases update with
  | resume blocked =>
      obtain ⟨none, before⟩ := counted blocked rfl
      have after : (job.resume now).counted = [(.accepted, 1), (.queued, 1)] := by
        simp [Job.counted, Job.resume, none, JobStatus.counter]
      rw [before, after]
      cases counter <;> rfl
  | @claim _ r admitted =>
      rcases (claimRefusal_none admitted).1 with queued | ⟨held, -⟩
      · obtain ⟨none, before⟩ := counted queued rfl
        have after : (job.lease r.leaseSeconds now).counted = [(.accepted, 1), (.leased, 1)] := by
          simp [Job.counted, Job.lease, none, JobStatus.counter]
        rw [before, after, if_pos queued]
        cases counter <;> rfl
      · obtain ⟨none, before⟩ := counted held rfl
        have after : (job.lease r.leaseSeconds now).counted = [(.accepted, 1), (.leased, 1)] := by
          simp [Job.counted, Job.lease, none, JobStatus.counter]
        rw [before, after, if_neg (by rw [held]; decide)]
        cases counter <;> rfl
  | complete current delivered =>
      rw [(leased current).2.2]
      cases counter <;> rfl
  | fence named current undelivered =>
      rw [(leased current).2.2]
      cases counter <;> rfl
  | leaseFanout current undelivered => exact zero_add _
  | completeFanout current undelivered => exact zero_add _
  | @retry _ l failureCode current =>
      obtain ⟨-, none, before⟩ := leased current
      have after : (job.retry failureCode (reconcileStaleAfter p) now).counted = [(.accepted, 1), (.queued, 1)] := by
        simp [Job.counted, Job.retry, none, JobStatus.counter]
      rw [before, after]
      cases counter <;> rfl
  | bury current =>
      rw [(leased current).2.2]
      cases counter <;> rfl
  | receipt => exact zero_add _
  | @replay _ staleAfter going =>
      rcases going with queued | ⟨held, -⟩
      · obtain ⟨none, before⟩ := counted queued rfl
        have after : (job.replay staleAfter now).counted = [(.accepted, 1), (.queued, 1)] := by
          simp [Job.counted, Job.replay, none, JobStatus.counter]
        rw [before, after, if_neg (by rw [queued]; decide)]
        cases counter <;> rfl
      · obtain ⟨none, before⟩ := counted held rfl
        have after : (job.replay staleAfter now).counted = [(.accepted, 1), (.queued, 1)] := by
          simp [Job.counted, Job.replay, none, JobStatus.counter]
        rw [before, after, if_pos held]
        cases counter <;> rfl
  | abandon admitted =>
      rcases (abandonFenced_false admitted).2 with queued | ⟨held, -⟩
      · rw [(counted queued rfl).2, if_pos queued, if_neg (by rw [queued]; decide)]
        cases counter <;> rfl
      · rw [(counted held rfl).2, if_pos held, if_neg (by rw [held]; decide)]
        cases counter <;> rfl

/-! ## The sums -/

/-- A delta moves the sum over the shards, for a job of the projection. -/
theorem sum_recordProjectionDelta (s : Store) (job : Job) (changes : List (Counter × Int)) (counter : Counter) :
    ∑ shard, (s.recordProjectionDelta job changes).shards shard counter =
      ∑ shard, s.shards shard counter + if job.projected then deltas changes counter else 0 := by
  rw [shards_recordProjectionDelta]
  unfold Job.projected
  cases job.projectionRef with
  | none => simp
  | some shard =>
      have pointwise : ∀ i, Function.update s.shards shard (s.shards shard + deltas changes) i counter =
          s.shards i counter + if i = shard then deltas changes counter else 0 := by
        intro i
        by_cases here : i = shard
        · subst here
          simp
        · simp [here]
      simp only [pointwise, Finset.sum_add_distrib, Finset.sum_ite_eq', Finset.mem_univ, if_true, Option.isSome_some]

theorem newJob_projected (uid conversationId : String) (revision : Int) (requiresByok : Bool) (fanoutKey : String) :
    (newJob p uid conversationId revision requiresByok fanoutKey now).projected = true := by
  have small : p.digest (jobId p uid conversationId revision) % finalizationProjectionShardCount <
      finalizationProjectionShardCount := Nat.mod_lt _ (by decide)
  unfold Job.projected Job.projectionRef newJob projectionShard
  dsimp only
  rw [dif_pos ⟨rfl, Int.natCast_nonneg _, by exact_mod_cast small⟩]
  rfl

structure CountersOk (w : World) : Prop where
  distinct : (Dict.keys w.store.jobs).Nodup
  jobs : ∀ id job, w.job id = some job → JobOk job
  shares : ∀ counter, w.total counter = Dict.total (Job.share counter) w.store.jobs
  created : w.total .accepted = w.created

/-- The answer of an intent says whether it has created a job; no other call creates one of the projection. -/
theorem act_created (w : World) (call : Call) :
    (w.act p call now).2.created = w.created ∧ (∀ r, call = .createOrGetIntent r →
        (w.act p call now).2.store.jobs = w.store.jobs ∧ (w.act p call now).2.store.shards = w.store.shards) ∨
      (w.act p call now).2.created = w.created + 1 ∧ ∃ r, call = .createOrGetIntent r ∧ ∃ id revision fanoutKey,
        w.store.job id = none ∧
        (w.act p call now).2.store.jobs = Dict.put w.store.jobs id
          (newJob p r.uid r.conversationId revision r.requiresByok fanoutKey now) ∧
        (w.act p call now).2.store.shards =
          (w.store.recordProjectionDelta (newJob p r.uid r.conversationId revision r.requiresByok fanoutKey now)
            [(.accepted, 1), (if r.requiresByok then .blockedByok else .queued, 1)]).shards := by
  cases call with
  | createOrGetIntent r =>
      rcases createOrGetFinalizationIntent_cases
          (Prod.mk.eta (p := createOrGetFinalizationIntent p w.store r now)).symm with
        ⟨same, jobs, shards⟩ | ⟨fresh, revision, fanoutKey, absent, jobs, shards⟩
      · left
        refine ⟨?_, fun _ _ => ⟨jobs, shards⟩⟩
        simp [World.act, same]
      · right
        refine ⟨?_, r, rfl, _, revision, fanoutKey, absent, jobs, shards⟩
        simp [World.act, fresh]
  | _ => exact .inl ⟨rfl, fun r named => by cases named⟩

/-- A job of the projection that is put in place of another, or where there was none, with its deltas. -/
theorem shares_put {w t : World} (ok : CountersOk w) {id : String} {next : Job} (changes : List (Counter × Int))
    (jobs : t.store.jobs = Dict.put w.store.jobs id next)
    (shards : t.store.shards = (w.store.recordProjectionDelta next changes).shards)
    (balanced : ∀ counter, (if next.projected then deltas changes counter else 0) +
      ((w.job id).elim 0 (Job.share counter)) = next.share counter) (counter : Counter) :
    t.total counter = Dict.total (Job.share counter) t.store.jobs := by
  have moved : t.total counter = w.total counter + if next.projected then deltas changes counter else 0 := by
    unfold World.total
    rw [shards]
    exact sum_recordProjectionDelta w.store next changes counter
  have change := balanced counter
  rw [jobs, moved, ok.shares]
  cases found : w.job id with
  | none =>
      have absent : id ∉ Dict.keys w.store.jobs := by
        intro known
        obtain ⟨job, member⟩ := Dict.mem_keys.mp known
        have here : w.job id = some job := Dict.get_of_mem ok.distinct member
        cases here.symm.trans found
      rw [found] at change
      rw [Dict.total_put_new _ absent, ← change]
      simp
  | some job =>
      rw [found] at change
      have replaced := Dict.total_put (Job.share counter) ok.distinct (Dict.get_eq_some found) next
      simp only [Option.elim_some] at change
      omega

theorem CountersOk.step {w t : World} {label : Call × Instant} (ok : CountersOk w) (step : w.Step p label t) :
    CountersOk t := by
  obtain ⟨call, now⟩ := label
  have effect := @act_effect p now w call
  have counted := @act_created p now w call
  rw [show (w.act p call now).2 = t from step] at effect counted
  have shares : ∀ counter, t.total counter = Dict.total (Job.share counter) t.store.jobs := by
    cases effect with
    | kept jobs shards =>
        intro counter
        unfold World.total
        rw [jobs, shards]
        exact ok.shares counter
    | @created r id revision fanoutKey named identified absent jobs shards =>
        refine shares_put ok _ jobs shards fun counter => ?_
        rw [show w.job id = none from absent]
        unfold Job.share
        rw [if_pos (newJob_projected _ _ _ _ _), if_pos (newJob_projected _ _ _ _ _)]
        cases r.requiresByok <;> cases counter <;> rfl
    | @received r id revision named absent jobs shards =>
        have unprojected : (receiptJob r revision (newReceipt r now) now).projected = false := rfl
        refine shares_put ok [] jobs (by simpa using shards) fun counter => ?_
        rw [show w.job id = none from absent]
        unfold Job.share
        rw [unprojected]
        rfl
    | @changed id job next changes found update jobs shards =>
        have here : w.job id = some job := found
        have same := update.projectionRef_eq
        refine shares_put ok changes jobs ?_ fun counter => ?_
        · rw [shards, shards_recordProjectionDelta, shards_recordProjectionDelta, same]
        · rw [here]
          unfold Job.share Job.projected
          rw [Option.elim_some, same]
          split
          · exact update.deltas_eq (ok.jobs id job here) counter
          · rfl
  refine ⟨effect.distinct ok.distinct, fun id job found => effect.ok ok.jobs found, shares, ?_⟩
  rcases counted with ⟨same, kept⟩ | ⟨more, r, -, id, revision, fanoutKey, -, -, shards⟩
  · rw [same, ← ok.created]
    unfold World.total
    cases effect with
    | kept jobs shards => rw [shards]
    | @created r id revision fanoutKey named identified absent jobs shards => rw [(kept r named).2]
    | received named absent jobs shards => rw [shards]
    | changed found update jobs shards =>
        rw [shards, sum_recordProjectionDelta, update.accepted_eq, ite_self, add_zero]
  · have before := ok.created
    unfold World.total at before ⊢
    rw [shards, sum_recordProjectionDelta, if_pos (newJob_projected _ _ _ _ _), before, more]
    cases r.requiresByok <;> rfl

theorem reachable_counters {w : World} (reachable : Reachable Initial (World.Step p) w) : CountersOk w := by
  refine reachable.invariant ?_ fun s a t ok step => ok.step step
  rintro s ⟨conversations, rfl⟩
  refine ⟨List.nodup_nil, fun id job found => (by cases found), fun counter => ?_, ?_⟩
  · simp [World.total, Store.empty, Dict.total]
  · simp [World.total, Store.empty]

/-! ## Reading the sums -/

/-- Counting the projected jobs with a status adds up their shares in its counter. -/
theorem total_share_status (jobs : List (String × Job)) (status : JobStatus) :
    Dict.total (Job.share status.counter) jobs =
      (jobs.countP fun e => e.2.projected && decide (e.2.status = status) : Nat) := by
  unfold Dict.total
  induction jobs with
  | nil => rfl
  | cons e jobs ih =>
      have share : Job.share status.counter e.2 = if e.2.projected && decide (e.2.status = status) then 1 else 0 := by
        unfold Job.share Job.counted
        cases e.2.projected with
        | false => rfl
        | true =>
            cases status <;> cases e.2.status <;> cases e.2.terminalOutcome with
            | none => rfl
            | some outcome => cases outcome <;> rfl
      rw [List.map_cons, List.sum_cons, ih, List.countP_cons, share]
      push_cast
      split <;> simp_all [add_comm]

theorem total_add (f g : Job → Int) (jobs : List (String × Job)) :
    Dict.total (fun job => f job + g job) jobs = Dict.total f jobs + Dict.total g jobs := by
  unfold Dict.total
  exact List.sum_map_add

theorem total_congr {f g : Job → Int} {jobs : List (String × Job)} (same : ∀ e ∈ jobs, f e.2 = g e.2) :
    Dict.total f jobs = Dict.total g jobs := by
  unfold Dict.total
  rw [List.map_congr_left same]

/-- The shares of one job: accepted once, in one status, and ended one way or not at all. -/
theorem JobOk.shares (ok : JobOk job) :
    job.share .accepted = job.share .queued + job.share .leased + job.share .blockedByok + job.share .completed +
        job.share .deadLetter ∧
      job.share .completed = job.share .success + job.share .stale ∧ job.share .deadLetter = job.share .failure := by
  have outcome := ok.outcome
  unfold Job.share Job.counted
  cases job.projected with
  | false => exact ⟨rfl, rfl, rfl⟩
  | true =>
      cases status : job.status with
      | queued | leased | blockedByok =>
          rw [status] at outcome
          rw [show job.terminalOutcome = none from outcome]
          exact ⟨rfl, rfl, rfl⟩
      | completed =>
          rw [status] at outcome
          rcases outcome with success | stale
          · rw [success]
            exact ⟨rfl, rfl, rfl⟩
          · rw [stale]
            exact ⟨rfl, rfl, rfl⟩
      | deadLetter =>
          rw [status] at outcome
          rw [show job.terminalOutcome = some .failure from outcome]
          exact ⟨rfl, rfl, rfl⟩

/-- In every state of every run the sums over the shards count the projected jobs: by
status, all that were ever created, and by outcome. -/
theorem finalization_counters_exact (p : Platform) (w : World) (reachable : Reachable Initial (World.Step p) w) :
    (∀ status : JobStatus, w.total status.counter = w.jobsIn status) ∧ w.total .accepted = w.created ∧
      w.total .accepted = w.total .queued + w.total .leased + w.total .blockedByok + w.total .completed +
        w.total .deadLetter ∧
      w.total .completed = w.total .success + w.total .stale ∧ w.total .deadLetter = w.total .failure := by
  have ok := reachable_counters reachable
  have each : ∀ e ∈ w.store.jobs, JobOk e.2 := fun e member => ok.jobs e.1 e.2 (Dict.get_of_mem ok.distinct member)
  refine ⟨fun status => ?_, ok.created, ?_, ?_, ?_⟩
  · rw [ok.shares, total_share_status]
    rfl
  · simp only [ok.shares, ← total_add]
    exact total_congr fun e member => (each e member).shares.1
  · simp only [ok.shares, ← total_add]
    exact total_congr fun e member => (each e member).shares.2.1
  · simp only [ok.shares]
    exact total_congr fun e member => (each e member).shares.2.2

/-- A conversation with content, and the world after an intent for it. -/
def sampleConversation : Conversation := ⟨.inProgress, false, false, true, false, none, none, none, none⟩

def samplePlatform : Platform := ⟨fun seed => seed, fun _ => 5, none⟩

def sampleStart : World := ⟨Store.empty [(("u", "c"), sampleConversation)], [], 0⟩

def sampleIntent : IntentRequest := ⟨"u", "c", false, fun _ => ⟨true, false, "", some "k"⟩, fun c => c⟩

def sampleCreated : World := (sampleStart.act samplePlatform (.createOrGetIntent sampleIntent) 0).2

theorem finalization_counters_exact_created :
    sampleCreated.created = 1 ∧ sampleCreated.total .accepted = sampleCreated.created ∧
      sampleCreated.total .queued = sampleCreated.jobsIn .queued := by
  have reachable : Reachable Initial (World.Step samplePlatform) sampleCreated :=
    .next (a := (.createOrGetIntent sampleIntent, 0)) (.start ⟨_, rfl⟩) rfl
  obtain ⟨counts, accepted, -⟩ := finalization_counters_exact samplePlatform sampleCreated reachable
  exact ⟨rfl, accepted, counts .queued⟩

end OmiLocal.Finalization
