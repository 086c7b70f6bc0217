import OmiLocal.Finalization.Runs

/-!
# Finalization is fenced and terminal

What holds of a job over every run: terminal jobs stay as they are, epochs and
generations only grow, a lease ends only through its holder or after its expiry, and
fanout is delivered before success and never after fencing.
-/
namespace OmiLocal.Finalization
open Lib Lib.Transition

variable {p : Platform} {now : Instant} {id : String} {call : Call} {job next : Job} {changes : List (Counter × Int)}

theorem isCurrentLease_iff {g e : Int} :
    job.isCurrentLease g e = true ↔ job.status = .leased ∧ job.generation = g ∧ job.epoch = e := by
  unfold Job.isCurrentLease
  simp [and_assoc]

/-- What the guards of a claim leave. -/
theorem claimRefusal_none {r : ClaimRequest} (admitted : job.claimRefusal r now = none) :
    (job.status = .queued ∨ job.status = .leased ∧ job.leaseHeld now = false) ∧ job.generation = r.dispatchGeneration ∧
      (job.requiresByok = true → r.allowByok = true) := by
  unfold Job.claimRefusal at admitted
  split at admitted <;> try cases admitted
  split at admitted <;> try cases admitted
  split at admitted <;> try cases admitted
  split at admitted <;> try cases admitted
  split at admitted <;> try cases admitted
  rename_i byok
  split at admitted <;> try cases admitted
  split at admitted <;> try cases admitted
  rename_i generation
  split at admitted <;> try cases admitted
  rename_i lapsed
  split at admitted <;> try cases admitted
  rename_i going
  refine ⟨?_, not_not.mp generation, fun needed => ?_⟩
  · by_cases queued : job.status = .queued
    · exact .inl queued
    · have leased : job.status = .leased := by
        by_contra other
        exact going ⟨queued, other⟩
      exact .inr ⟨leased, by simpa [leased] using lapsed⟩
  · by_contra refused
    exact byok ⟨needed, by simpa using refused⟩

/-- What the guards of an abandonment leave. -/
theorem abandonFenced_false {r : AbandonRequest} (admitted : job.abandonFenced r now = false) :
    job.requiresByok = true ∧ (job.status = .queued ∨ job.status = .leased ∧ job.leaseHeld now = false) := by
  unfold Job.abandonFenced at admitted
  split at admitted <;> try cases admitted
  rename_i byok
  split at admitted <;> try cases admitted
  rename_i going
  split at admitted <;> try cases admitted
  split at admitted <;> try cases admitted
  split at admitted <;> try cases admitted
  rename_i lapsed
  refine ⟨by simpa using byok, ?_⟩
  by_cases queued : job.status = .queued
  · exact .inl queued
  · have leased : job.status = .leased := by
      by_contra other
      exact going (.inl ⟨queued, other⟩)
    exact .inr ⟨leased, by simpa [leased] using lapsed⟩

/-! ## Terminal jobs -/

theorem Update.going (update : Update p now id call job next changes) :
    job.status.terminal = false ∨ ∃ receipt, next = { job with receipt := some receipt } := by
  have leased : ∀ {l : Lease}, job.isCurrentLease l.dispatchGeneration l.leaseEpoch = true →
      job.status.terminal = false := fun current => by rw [(isCurrentLease_iff.mp current).1]; rfl
  have unfinished : ∀ {held : Prop}, job.status = .queued ∨ job.status = .leased ∧ held → job.status.terminal = false := by
    rintro _ (queued | ⟨leased, -⟩)
    · rw [queued]
      rfl
    · rw [leased]
      rfl
  cases update with
  | resume blocked => exact .inl (by rw [blocked]; rfl)
  | claim admitted => exact .inl (unfinished (claimRefusal_none admitted).1)
  | complete current delivered => exact .inl (leased current)
  | fence named current undelivered => exact .inl (leased current)
  | leaseFanout current undelivered => exact .inl (leased current)
  | completeFanout current undelivered => exact .inl (leased current)
  | retry current => exact .inl (leased current)
  | bury current => exact .inl (leased current)
  | receipt => exact .inr ⟨_, rfl⟩
  | replay going => exact .inl (unfinished going)
  | abandon admitted => exact .inl (unfinished (abandonFenced_false admitted).2)

/-- The job `id` is there with the status and outcome of a finished one. -/
def Settled (w : World) (id : String) (status : JobStatus) (outcome : Option TerminalOutcome) : Prop :=
  ∃ job, w.job id = some job ∧ job.status = status ∧ job.terminalOutcome = outcome

theorem Settled.step {w t : World} {label : Call × Instant} {status : JobStatus} {outcome : Option TerminalOutcome}
    (settled : Settled w id status outcome) (terminal : status.terminal = true) (step : w.Step p label t) :
    Settled t id status outcome := by
  obtain ⟨job, found, same, ended⟩ := settled
  have effect := @act_effect p label.2 w label.1
  rw [show (w.act p label.1 label.2).2 = t from step] at effect
  rcases effect.job found with kept | ⟨next, changes, update, stored⟩
  · exact ⟨job, kept, same, ended⟩
  · rcases update.going with unfinished | ⟨receipt, rfl⟩
    · rw [same, terminal] at unfinished
      cases unfinished
    · exact ⟨_, stored, same, ended⟩

theorem Settled.run {w t : World} {status : JobStatus} {outcome : Option TerminalOutcome}
    (settled : Settled w id status outcome) (terminal : status.terminal = true) (run : Reaches (World.Step p) w t) :
    Settled t id status outcome :=
  Reaches.stable (P := fun w => Settled w id status outcome) (fun _ _ _ h step => h.step terminal step) run settled

/-! ## Epochs and generations -/

theorem Update.epoch_le (update : Update p now id call job next changes) : job.epoch ≤ next.epoch := by
  cases update with
  | claim admitted =>
      change job.epoch ≤ job.epoch + 1
      omega
  | _ => exact le_rfl

theorem Update.generation_le (update : Update p now id call job next changes) : job.generation ≤ next.generation := by
  cases update with
  | replay going =>
      change job.generation ≤ if job.generation + 1 = 0 then 1 else job.generation + 1
      split <;> omega
  | _ => exact le_rfl

/-- The job `id` has at least this generation and epoch. -/
def Advanced (w : World) (id : String) (generation epoch : Int) : Prop :=
  ∃ job, w.job id = some job ∧ generation ≤ job.generation ∧ epoch ≤ job.epoch

theorem Advanced.step {w t : World} {label : Call × Instant} {generation epoch : Int}
    (advanced : Advanced w id generation epoch) (step : w.Step p label t) : Advanced t id generation epoch := by
  obtain ⟨job, found, generations, epochs⟩ := advanced
  have effect := @act_effect p label.2 w label.1
  rw [show (w.act p label.1 label.2).2 = t from step] at effect
  rcases effect.job found with kept | ⟨next, changes, update, stored⟩
  · exact ⟨job, kept, generations, epochs⟩
  · exact ⟨next, stored, generations.trans update.generation_le, epochs.trans update.epoch_le⟩

theorem Advanced.run {w t : World} {generation epoch : Int} (advanced : Advanced w id generation epoch)
    (run : Reaches (World.Step p) w t) : Advanced t id generation epoch :=
  Reaches.stable (P := fun w => Advanced w id generation epoch) (fun _ _ _ h step => h.step step) run advanced

/-- The job `id` is leased to the worker with this pair, up to `expiry`. -/
def HeldLease (w : World) (id : String) (l : Lease) (expiry : Instant) : Prop :=
  ∃ job, w.job id = some job ∧ job.isCurrentLease l.dispatchGeneration l.leaseEpoch = true ∧
    job.leaseExpiresAt = some expiry

/-- The calls that may end a lease: those of its holder, and a claim, a replay or an abandonment
at or after its expiry. -/
def Ends (id : String) (l : Lease) (expiry : Instant) (label : Call × Instant) : Prop :=
  label.1 = .completed id l ∨ label.1 = .fenced id l ∨ label.1 = .claimFanout id l ∨
    (∃ failureCode, label.1 = .retryable id l failureCode) ∨ (∃ retryCount, label.1 = .deadLetter id l retryCount) ∨
    expiry ≤ label.2 ∧ ((∃ r, label.1 = .claim id r) ∨ (∃ staleAfter, label.1 = .replay id staleAfter) ∨
      ∃ r, label.1 = .abandon id r)

theorem lapsed_of_leaseHeld {expiry : Instant} (until_ : job.leaseExpiresAt = some expiry)
    (lapsed : job.leaseHeld now = false) : expiry ≤ now := by
  unfold Job.leaseHeld at lapsed
  rw [until_] at lapsed
  simpa using lapsed

/-- An update of a leased job keeps the lease or is one of the calls that may end it. -/
theorem Update.lease (update : Update p now id call job next changes) {l : Lease} {expiry : Instant}
    (held : job.isCurrentLease l.dispatchGeneration l.leaseEpoch = true) (until_ : job.leaseExpiresAt = some expiry) :
    next.isCurrentLease l.dispatchGeneration l.leaseEpoch = true ∧ next.leaseExpiresAt = some expiry ∨
      Ends id l expiry (call, now) := by
  obtain ⟨leased, generation, epoch⟩ := isCurrentLease_iff.mp held
  have same : ∀ {other : Lease}, job.isCurrentLease other.dispatchGeneration other.leaseEpoch = true → other = l := by
    rintro ⟨g, e⟩ current
    obtain ⟨-, sameGeneration, sameEpoch⟩ := isCurrentLease_iff.mp current
    exact congrArg₂ Lease.mk (sameGeneration.symm.trans generation) (sameEpoch.symm.trans epoch)
  have lapsed : (job.status = .queued ∨ job.status = .leased ∧ job.leaseHeld now = false) → expiry ≤ now := by
    rintro (queued | ⟨-, free⟩)
    · cases queued.symm.trans leased
    · exact lapsed_of_leaseHeld until_ free
  unfold Ends
  cases update with
  | resume blocked => cases blocked.symm.trans leased
  | claim admitted =>
      exact .inr (.inr (.inr (.inr (.inr (.inr ⟨lapsed (claimRefusal_none admitted).1, .inl ⟨_, rfl⟩⟩)))))
  | complete current delivered => exact .inr (.inl (by rw [same current]))
  | fence named current undelivered =>
      rcases named with rfl | rfl
      · exact .inr (.inr (.inl (by rw [same current])))
      · exact .inr (.inr (.inr (.inl (by rw [same current]))))
  | leaseFanout current undelivered => exact .inl ⟨held, until_⟩
  | completeFanout current undelivered => exact .inl ⟨held, until_⟩
  | retry current => exact .inr (.inr (.inr (.inr (.inl ⟨_, by rw [same current]⟩))))
  | bury current => exact .inr (.inr (.inr (.inr (.inr (.inl ⟨_, by rw [same current]⟩)))))
  | receipt => exact .inl ⟨held, until_⟩
  | replay going => exact .inr (.inr (.inr (.inr (.inr (.inr ⟨lapsed going, .inr (.inl ⟨_, rfl⟩)⟩)))))
  | abandon admitted =>
      exact .inr (.inr (.inr (.inr (.inr (.inr ⟨lapsed (abandonFenced_false admitted).2, .inr (.inr ⟨_, rfl⟩)⟩)))))

theorem HeldLease.step {w t : World} {label : Call × Instant} {l : Lease} {expiry : Instant}
    (held : HeldLease w id l expiry) (step : w.Step p label t) : HeldLease t id l expiry ∨ Ends id l expiry label := by
  obtain ⟨job, found, current, until_⟩ := held
  have effect := @act_effect p label.2 w label.1
  rw [show (w.act p label.1 label.2).2 = t from step] at effect
  rcases effect.job found with kept | ⟨next, changes, update, stored⟩
  · exact .inl ⟨job, kept, current, until_⟩
  · exact (update.lease current until_).imp (fun still => ⟨next, stored, still.1, still.2⟩) fun ends => ends

/-- Some step of the run from `w` to `t` met the lease, and was one of the calls that may end it. -/
def EndedLease (p : Platform) (w t : World) (id : String) (l : Lease) (expiry : Instant) : Prop :=
  ∃ v label x, Reaches (World.Step p) w v ∧ HeldLease v id l expiry ∧ v.Step p label x ∧ Reaches (World.Step p) x t ∧
    Ends id l expiry label

/-- Over a run a lease lasts, or one of the calls that may end it met it. -/
theorem HeldLease.run {w t : World} {l : Lease} {expiry : Instant} (held : HeldLease w id l expiry)
    (run : Reaches (World.Step p) w t) :
    HeldLease t id l expiry ∨ EndedLease p w t id l expiry := by
  induction run with
  | refl => exact .inl held
  | @tail b c before last ih =>
      obtain ⟨label, step⟩ := last
      rcases ih with still | ⟨v, ended, x, reached, there, here, rest, ends⟩
      · refine (still.step step).imp (fun later => later) fun ends => ?_
        exact ⟨b, label, c, before, still, step, .refl, ends⟩
      · exact .inr ⟨v, ended, x, reached, there, here, rest.tail ⟨label, step⟩, ends⟩

/-! ## Outcomes and fanout -/

/-- The outcomes that a status may have. -/
def JobStatus.admits : JobStatus → Option TerminalOutcome → Prop
  | .completed, outcome => outcome = some .success ∨ outcome = some .stale
  | .deadLetter, outcome => outcome = some .failure
  | _, outcome => outcome = none

def Job.isFenced (job : Job) : Prop := job.finalizationOutcome = some .fenced ∨ job.fanoutStatus = some .fenced

structure JobOk (job : Job) : Prop where
  outcome : job.status.admits job.terminalOutcome
  delivered : job.terminalOutcome = some .success → job.fanoutStatus = some .completed
  fenced : job.isFenced → job.status.terminal = true ∧ job.fanoutStatus = some .fenced

theorem JobOk.unfinished (ok : JobOk job) (going : job.status.terminal = false) :
    job.terminalOutcome = none ∧ job.finalizationOutcome ≠ some .fenced ∧ job.fanoutStatus ≠ some .fenced := by
  refine ⟨?_, fun fenced => ?_, fun fenced => ?_⟩
  · have admits := ok.outcome
    cases status : job.status with
    | queued | leased | blockedByok =>
        rw [status] at admits
        exact admits
    | completed | deadLetter =>
        rw [status] at going
        cases going
  · rw [(ok.fenced (.inl fenced)).1] at going
    cases going
  · rw [(ok.fenced (.inr fenced)).1] at going
    cases going

theorem newJob_ok (uid conversationId : String) (revision : Int) (requiresByok : Bool) (fanoutKey : String) :
    JobOk (newJob p uid conversationId revision requiresByok fanoutKey now) := by
  refine ⟨?_, fun success => ?_, fun fenced => ?_⟩
  · cases requiresByok <;> rfl
  · cases success
  · rcases fenced with h | h <;> cases h

theorem receiptJob_ok (r : ReceiptRequest) (revision : Int) (receipt : MeetingReceipt) :
    JobOk (receiptJob r revision receipt now) := by
  refine ⟨.inl rfl, fun _ => rfl, fun fenced => ?_⟩
  rcases fenced with h | h <;> cases h

theorem Update.ok (update : Update p now id call job next changes) (ok : JobOk job) : JobOk next := by
  rcases update.going with going | ⟨receipt, rfl⟩
  · obtain ⟨outcome, notOutcome, notFanout⟩ := ok.unfinished going
    have open_ : ∀ {later : Job}, later.status.admits none → later.terminalOutcome = job.terminalOutcome →
        later.finalizationOutcome = job.finalizationOutcome → later.fanoutStatus ≠ some .fenced → JobOk later := by
      intro later admits sameOutcome sameFinalization unfenced
      refine ⟨by rw [sameOutcome, outcome]; exact admits, fun success => ?_, fun fenced => ?_⟩
      · rw [sameOutcome, outcome] at success
        cases success
      · rcases fenced with h | h
        · exact absurd (sameFinalization.symm.trans h) notOutcome
        · exact absurd h unfenced
    cases update with
    | resume blocked => exact open_ rfl rfl rfl notFanout
    | claim admitted => exact open_ rfl rfl rfl notFanout
    | complete current delivered =>
        refine ⟨.inl rfl, fun _ => delivered, fun fenced => ?_⟩
        rcases fenced with h | h
        · exact absurd h notOutcome
        · exact absurd h notFanout
    | fence named current undelivered => exact ⟨.inr rfl, fun success => (by cases success), fun _ => ⟨rfl, rfl⟩⟩
    | leaseFanout current undelivered =>
        refine open_ ?_ rfl rfl (by simp [Job.leaseFanout])
        change job.status.admits none
        rw [(isCurrentLease_iff.mp current).1]
        rfl
    | completeFanout current undelivered =>
        refine open_ ?_ rfl rfl (by simp [Job.completeFanout])
        change job.status.admits none
        rw [(isCurrentLease_iff.mp current).1]
        rfl
    | retry current => exact open_ rfl rfl rfl notFanout
    | bury current =>
        refine ⟨rfl, fun success => (by cases success), fun fenced => ?_⟩
        rcases fenced with h | h
        · exact absurd h notOutcome
        · exact absurd h notFanout
    | receipt => exact ⟨ok.outcome, ok.delivered, ok.fenced⟩
    | replay going => exact open_ rfl rfl rfl notFanout
    | abandon admitted => exact ⟨rfl, fun success => (by cases success), fun _ => ⟨rfl, rfl⟩⟩
  · exact ⟨ok.outcome, ok.delivered, ok.fenced⟩

theorem Effect.ok {s t : Store} (effect : Effect p now call s t) (ok : ∀ id job, s.job id = some job → JobOk job)
    {id : String} {job : Job} (found : t.job id = some job) : JobOk job := by
  rcases effect.origin found with kept | ⟨r, revision, fanoutKey, -, rfl⟩ | ⟨r, revision, -, rfl⟩ |
    ⟨before, changes, here, update⟩
  · exact ok id job kept
  · exact newJob_ok _ _ _ _ _
  · exact receiptJob_ok _ _ _
  · exact update.ok (ok id before here)

theorem Effect.distinct {s t : Store} (effect : Effect p now call s t) (distinct : (Dict.keys s.jobs).Nodup) :
    (Dict.keys t.jobs).Nodup := by
  cases effect with
  | kept jobs shards => exact jobs ▸ distinct
  | created named identified absent jobs shards => exact jobs ▸ Dict.nodup_put distinct _ _
  | received named absent jobs shards => exact jobs ▸ Dict.nodup_put distinct _ _
  | changed found update jobs shards => exact jobs ▸ Dict.nodup_put distinct _ _

/-- The job `id` is there, and was fenced. -/
def FencedJob (w : World) (id : String) : Prop :=
  ∃ job, w.job id = some job ∧ job.status.terminal = true ∧ job.fanoutStatus = some .fenced

theorem FencedJob.step {w t : World} {label : Call × Instant} (fenced : FencedJob w id) (step : w.Step p label t) :
    FencedJob t id := by
  obtain ⟨job, found, terminal, fanout⟩ := fenced
  have effect := @act_effect p label.2 w label.1
  rw [show (w.act p label.1 label.2).2 = t from step] at effect
  rcases effect.job found with kept | ⟨next, changes, update, stored⟩
  · exact ⟨job, kept, terminal, fanout⟩
  · rcases update.going with unfinished | ⟨receipt, rfl⟩
    · rw [terminal] at unfinished
      cases unfinished
    · exact ⟨_, stored, terminal, fanout⟩

theorem FencedJob.run {w t : World} (fenced : FencedJob w id) (run : Reaches (World.Step p) w t) : FencedJob t id :=
  Reaches.stable (P := fun w => FencedJob w id) (fun _ _ _ h step => h.step step) run fenced

/-- A fenced job's fanout is neither claimed nor completed. -/
theorem FencedJob.refused {w : World} (fenced : FencedJob w id) (l : Lease) (now : Instant) :
    (∃ key, (w.act p (.claimFanout id l) now).1 = .fanout ⟨.leaseConflict, key⟩) ∧
      (w.act p (.fanoutCompleted id l) now).1 = .flag false := by
  obtain ⟨job, found, terminal, fanout⟩ := fenced
  have found : w.store.job id = some job := found
  have lost : job.isCurrentLease l.dispatchGeneration l.leaseEpoch = false := by
    apply Bool.eq_false_iff.mpr
    intro current
    rw [(isCurrentLease_iff.mp current).1] at terminal
    cases terminal
  constructor
  · simp [World.act, claimFinalizationFanout, found, fanout, lost]
  · simp [World.act, markFinalizationFanoutCompleted, found, fanout, lost]

/-! ## Replays of jobs that need credentials -/

/-- A replay names a job that a candidate query has returned. -/
def CandidateStep (p : Platform) (w : World) (label : Call × Instant) (t : World) : Prop :=
  w.Step p label t ∧ ∀ id staleAfter, label.1 = .replay id staleAfter → id ∈ w.returned

structure ByokOk (w : World) : Prop where
  distinct : (Dict.keys w.store.jobs).Nodup
  unscheduled : ∀ id job, w.job id = some job → job.requiresByok = true → job.reconcileAfterAt = none
  returned : ∀ id ∈ w.returned, ∃ job, w.job id = some job ∧ job.requiresByok = false

theorem Update.requiresByok_eq (update : Update p now id call job next changes) :
    next.requiresByok = job.requiresByok := by
  cases update with
  | _ => rfl

theorem Update.unscheduled (update : Update p now id call job next changes) (byok : job.requiresByok = true)
    (before : job.reconcileAfterAt = none) :
    next.reconcileAfterAt = none ∨ ∃ staleAfter, call = .replay id staleAfter := by
  cases update with
  | resume blocked => exact .inl rfl
  | claim admitted => exact .inl (if_pos byok)
  | complete current delivered => exact .inl rfl
  | fence named current undelivered => exact .inl rfl
  | leaseFanout current undelivered => exact .inl before
  | completeFanout current undelivered => exact .inl before
  | retry current => exact .inl (if_pos byok)
  | bury current => exact .inl rfl
  | receipt => exact .inl before
  | replay going => exact .inr ⟨_, rfl⟩
  | abandon admitted => exact .inl rfl

theorem candidate_scheduled {s : Store} {limit : Int} {id : String}
    (candidate : id ∈ getFinalizationReplayCandidates s limit now) :
    ∃ job, (id, job) ∈ s.jobs ∧ job.reconcileAfterAt ≠ none := by
  unfold getFinalizationReplayCandidates at candidate
  obtain ⟨⟨k, job⟩, inside, rfl⟩ := List.mem_map.mp candidate
  have due := List.mem_mergeSort.mp (List.mem_of_mem_take (List.mem_of_mem_filter inside))
  obtain ⟨member, scheduled⟩ := List.mem_filter.mp due
  refine ⟨job, member, fun none => ?_⟩
  rw [none] at scheduled
  cases scheduled

/-- Only a call of the query changes what was returned. -/
theorem returned_act {w : World} {id : String} (member : id ∈ (w.act p call now).2.returned) :
    id ∈ w.returned ∨ ∃ limit, call = .replayCandidates limit ∧
      id ∈ getFinalizationReplayCandidates w.store limit now := by
  cases call with
  | replayCandidates limit =>
      rcases List.mem_append.mp member with before | candidate
      · exact .inl before
      · exact .inr ⟨limit, rfl, candidate⟩
  | _ => exact .inl member

theorem ByokOk.step {w t : World} {label : Call × Instant} (ok : ByokOk w) (step : CandidateStep p w label t) :
    ByokOk t := by
  obtain ⟨step, candidates⟩ := step
  have effect := @act_effect p label.2 w label.1
  have returned : ∀ id, id ∈ t.returned → _ := fun id member => returned_act (p := p) (step ▸ member)
  rw [show (w.act p label.1 label.2).2 = t from step] at effect
  refine ⟨effect.distinct ok.distinct, ?_, ?_⟩
  · intro id job found byok
    rcases effect.origin found with kept | ⟨r, revision, fanoutKey, -, rfl⟩ | ⟨r, revision, -, rfl⟩ |
      ⟨before, changes, here, update⟩
    · exact ok.unscheduled id job kept byok
    · exact if_pos byok
    · cases byok
    · have same := update.requiresByok_eq.symm.trans byok
      rcases update.unscheduled same (ok.unscheduled id before here same) with none | ⟨staleAfter, replayed⟩
      · exact none
      · obtain ⟨job', found', free⟩ := ok.returned id (candidates id staleAfter replayed)
        obtain rfl : before = job' := Option.some.inj (here.symm.trans found')
        rw [free] at same
        cases same
  · intro id member
    have listed : ∃ job, w.job id = some job ∧ job.requiresByok = false := by
      rcases returned id member with before | ⟨limit, -, candidate⟩
      · exact ok.returned id before
      · obtain ⟨job, inside, scheduled⟩ := candidate_scheduled candidate
        have found : w.job id = some job := Dict.get_of_mem ok.distinct inside
        refine ⟨job, found, Bool.eq_false_iff.mpr fun byok => ?_⟩
        exact scheduled (ok.unscheduled id job found byok)
    obtain ⟨job, found, free⟩ := listed
    rcases effect.job found with kept | ⟨next, changes, update, stored⟩
    · exact ⟨job, kept, free⟩
    · exact ⟨next, stored, update.requiresByok_eq.trans free⟩

end OmiLocal.Finalization
