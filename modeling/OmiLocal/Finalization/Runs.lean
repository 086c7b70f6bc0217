import OmiLocal.Finalization.Transactions

/-!
# Runs of finalization transactions

Any callers, with any generations, epochs and clock values, one transaction after the
other. `Update` lists what a transaction can do to a job that exists and under which
guards; every invariant is read off it.
-/
namespace OmiLocal.Finalization
open Lib Lib.Transition

inductive Call where
  | createOrGetIntent (r : IntentRequest)
  | resume (id : String)
  | claim (id : String) (r : ClaimRequest)
  | completed (id : String) (l : Lease)
  | fenced (id : String) (l : Lease)
  | claimFanout (id : String) (l : Lease)
  | fanoutCompleted (id : String) (l : Lease)
  | retryable (id : String) (l : Lease) (failureCode : String)
  | deadLetter (id : String) (l : Lease) (retryCount : Int)
  | recordReceipt (r : ReceiptRequest)
  | replayCandidates (limit : Int)
  | replay (id : String) (staleAfter : Int)
  | abandon (id : String) (r : AbandonRequest)
  | conversationWritten (uid conversationId : String) (c : Conversation)
  | conversationDeleted (uid conversationId : String)

inductive Response where
  | intent (i : FinalizationIntent)
  | claim (c : FinalizationClaim)
  | flag (b : Bool)
  | fanout (c : FinalizationFanoutClaim)
  | receipt (r : ReceiptResult)
  | candidates (ids : List String)
  | abandonment (a : ByokAbandonment)
  | none
  deriving DecidableEq

/-- The documents; `returned` records the ids that candidate queries returned, `created`
counts the jobs that intents created. -/
structure World where
  store : Store
  returned : List String
  created : Nat

def Initial (w : World) : Prop := ∃ conversations, w = ⟨Store.empty conversations, [], 0⟩

variable (p : Platform)

namespace World

def job (w : World) (id : String) : Option Job := w.store.job id

def act (w : World) (call : Call) (now : Instant) : Response × World :=
  match call with
  | .createOrGetIntent r =>
      let (i, store) := createOrGetFinalizationIntent p w.store r now
      (.intent i, { w with store := store, created := w.created + if i.created then 1 else 0 })
  | .resume id =>
      let (i, store) := resumeBlockedByokJob w.store id now
      (.intent i, { w with store := store })
  | .claim id r =>
      let (c, store) := claimFinalizationJob w.store id r now
      (.claim c, { w with store := store })
  | .completed id l =>
      let (done, store) := markFinalizationCompleted w.store id l now
      (.flag done, { w with store := store })
  | .fenced id l =>
      let (done, store) := markFinalizationFenced w.store id l now
      (.flag done, { w with store := store })
  | .claimFanout id l =>
      let (c, store) := claimFinalizationFanout w.store id l now
      (.fanout c, { w with store := store })
  | .fanoutCompleted id l =>
      let (done, store) := markFinalizationFanoutCompleted w.store id l now
      (.flag done, { w with store := store })
  | .retryable id l failureCode =>
      let (done, store) := markFinalizationRetryable p w.store id l failureCode now
      (.flag done, { w with store := store })
  | .deadLetter id l retryCount =>
      let (done, store) := markFinalizationDeadLetter w.store id l retryCount now
      (.flag done, { w with store := store })
  | .recordReceipt r =>
      let (result, store) := recordMeetingReceipt p w.store r now
      (.receipt result, { w with store := store })
  | .replayCandidates limit =>
      let ids := getFinalizationReplayCandidates w.store limit now
      (.candidates ids, { w with returned := w.returned ++ ids })
  | .replay id staleAfter =>
      let (i, store) := claimFinalizationReplay w.store id staleAfter now
      (.intent i, { w with store := store })
  | .abandon id r =>
      let (a, store) := abandonByokFinalizationJob w.store id r now
      (.abandonment a, { w with store := store })
  | .conversationWritten uid conversationId c =>
      (.none, { w with store := w.store.setConversation uid conversationId c })
  | .conversationDeleted uid conversationId =>
      (.none, { w with store := { w.store with
        conversations := w.store.conversations.filter fun e => e.1 ≠ (uid, conversationId) } })

def Step (w : World) (call : Call × Instant) (t : World) : Prop := (w.act p call.1 call.2).2 = t

end World

/-! ## What a transaction does to a job -/

inductive Update (now : Instant) (id : String) : Call → Job → Job → List (Counter × Int) → Prop
  | resume {job : Job} (blocked : job.status = .blockedByok) :
      Update now id (.resume id) job (job.resume now) [(.blockedByok, -1), (.queued, 1)]
  | claim {job : Job} {r : ClaimRequest} (admitted : job.claimRefusal r now = none) :
      Update now id (.claim id r) job (job.lease r.leaseSeconds now)
        (if job.status = .queued then [(.queued, -1), (.leased, 1)] else [])
  | complete {job : Job} {l : Lease} (current : job.isCurrentLease l.dispatchGeneration l.leaseEpoch = true)
      (delivered : job.fanoutStatus = some .completed) :
      Update now id (.completed id l) job (job.complete now) [(.leased, -1), (.completed, 1), (.success, 1)]
  | fence {job : Job} {l : Lease} {call : Call} (named : call = .fenced id l ∨ call = .claimFanout id l)
      (current : job.isCurrentLease l.dispatchGeneration l.leaseEpoch = true)
      (undelivered : job.fanoutStatus ≠ some .completed) :
      Update now id call job (job.fence now) [(.leased, -1), (.completed, 1), (.stale, 1)]
  | leaseFanout {job : Job} {l : Lease} (current : job.isCurrentLease l.dispatchGeneration l.leaseEpoch = true)
      (undelivered : job.fanoutStatus ≠ some .completed) :
      Update now id (.claimFanout id l) job (job.leaseFanout l.leaseEpoch now) []
  | completeFanout {job : Job} {l : Lease} (current : job.isCurrentLease l.dispatchGeneration l.leaseEpoch = true)
      (undelivered : job.fanoutStatus ≠ some .completed) :
      Update now id (.fanoutCompleted id l) job (job.completeFanout now) []
  | retry {job : Job} {l : Lease} {failureCode : String}
      (current : job.isCurrentLease l.dispatchGeneration l.leaseEpoch = true) :
      Update now id (.retryable id l failureCode) job (job.retry failureCode (reconcileStaleAfter p) now)
        [(.leased, -1), (.queued, 1)]
  | bury {job : Job} {l : Lease} {retryCount : Int}
      (current : job.isCurrentLease l.dispatchGeneration l.leaseEpoch = true) :
      Update now id (.deadLetter id l retryCount) job (job.bury retryCount now)
        [(.leased, -1), (.deadLetter, 1), (.failure, 1)]
  | receipt {job : Job} {r : ReceiptRequest} :
      Update now id (.recordReceipt r) job { job with receipt := some (newReceipt r now) } []
  | replay {job : Job} {staleAfter : Int} (going : job.status = .queued ∨ job.status = .leased ∧ job.leaseHeld now = false) :
      Update now id (.replay id staleAfter) job (job.replay staleAfter now)
        (if job.status = .leased then [(.leased, -1), (.queued, 1)] else [])
  | abandon {job : Job} {r : AbandonRequest} (admitted : job.abandonFenced r now = false) :
      Update now id (.abandon id r) job (job.abandon now)
        [(.queued, if job.status = .queued then -1 else 0), (.leased, if job.status = .leased then -1 else 0),
          (.deadLetter, 1), (.failure, 1)]

/-- What a transaction does to the jobs and the shards. -/
inductive Effect (now : Instant) (call : Call) (s t : Store) : Prop
  | kept (jobs : t.jobs = s.jobs) (shards : t.shards = s.shards)
  | created {r : IntentRequest} {id : String} {revision : Int} {fanoutKey : String} (named : call = .createOrGetIntent r)
      (identified : id = jobId p r.uid r.conversationId revision) (absent : s.job id = none)
      (jobs : t.jobs = Dict.put s.jobs id (newJob p r.uid r.conversationId revision r.requiresByok fanoutKey now))
      (shards : t.shards = (s.recordProjectionDelta
        (newJob p r.uid r.conversationId revision r.requiresByok fanoutKey now)
        [(.accepted, 1), (if r.requiresByok then .blockedByok else .queued, 1)]).shards)
  | received {r : ReceiptRequest} {id : String} {revision : Int} (named : call = .recordReceipt r)
      (absent : s.job id = none) (jobs : t.jobs = Dict.put s.jobs id (receiptJob r revision (newReceipt r now) now))
      (shards : t.shards = s.shards)
  | changed {id : String} {job next : Job} {changes : List (Counter × Int)} (found : s.job id = some job)
      (update : Update p now id call job next changes) (jobs : t.jobs = Dict.put s.jobs id next)
      (shards : t.shards = (s.recordProjectionDelta job changes).shards)

section Frames
variable (s : Store) (job : Job) (changes : List (Counter × Int))

@[simp] theorem jobs_recordProjectionDelta : (s.recordProjectionDelta job changes).jobs = s.jobs := by
  unfold Store.recordProjectionDelta
  split <;> rfl

@[simp] theorem conversations_recordProjectionDelta :
    (s.recordProjectionDelta job changes).conversations = s.conversations := by
  unfold Store.recordProjectionDelta
  split <;> rfl

@[simp] theorem jobs_setJob (id : String) : (s.setJob id job).jobs = Dict.put s.jobs id job := rfl

@[simp] theorem shards_setJob (id : String) : (s.setJob id job).shards = s.shards := rfl

@[simp] theorem jobs_setConversation (uid conversationId : String) (c : Conversation) :
    (s.setConversation uid conversationId c).jobs = s.jobs := rfl

@[simp] theorem shards_setConversation (uid conversationId : String) (c : Conversation) :
    (s.setConversation uid conversationId c).shards = s.shards := rfl

/-- The shards after a delta depend on the shards alone. -/
theorem shards_recordProjectionDelta :
    (s.recordProjectionDelta job changes).shards =
      match job.projectionRef with
      | none => s.shards
      | some shard => Function.update s.shards shard (s.shards shard + deltas changes) := by
  unfold Store.recordProjectionDelta
  cases job.projectionRef with
  | none => rfl
  | some shard => rfl

@[simp] theorem shards_recordProjectionDelta_setJob (id : String) (next : Job) :
    ((s.setJob id next).recordProjectionDelta job changes).shards = (s.recordProjectionDelta job changes).shards := by
  rw [shards_recordProjectionDelta, shards_recordProjectionDelta, shards_setJob]

@[simp] theorem shards_recordProjectionDelta_nil : (s.recordProjectionDelta job []).shards = s.shards := by
  have zero : deltas [] = 0 := rfl
  rw [shards_recordProjectionDelta]
  split
  · rfl
  · rw [zero, add_zero, Function.update_eq_self]

end Frames

/-! ## Inversion of each transaction -/

section Inversion
variable {p} {s : Store} {now : Instant}

/-- An intent either changes no job, or creates one and answers so. -/
theorem createOrGetFinalizationIntent_cases {r : IntentRequest} {intent : FinalizationIntent} {t : Store}
    (done : createOrGetFinalizationIntent p s r now = (intent, t)) :
    intent.created = false ∧ t.jobs = s.jobs ∧ t.shards = s.shards ∨
      intent.created = true ∧ ∃ revision fanoutKey, s.job (jobId p r.uid r.conversationId revision) = none ∧
        t.jobs = Dict.put s.jobs (jobId p r.uid r.conversationId revision)
          (newJob p r.uid r.conversationId revision r.requiresByok fanoutKey now) ∧
        t.shards = (s.recordProjectionDelta (newJob p r.uid r.conversationId revision r.requiresByok fanoutKey now)
          [(.accepted, 1), (if r.requiresByok then .blockedByok else .queued, 1)]).shards := by
  unfold createOrGetFinalizationIntent at done
  split at done
  · cases done
    exact .inl ⟨rfl, rfl, rfl⟩
  · split at done
    · cases done
      exact .inl ⟨rfl, rfl, rfl⟩
    · split at done
      · cases done
        exact .inl ⟨rfl, rfl, rfl⟩
      · split at done
        · cases done
          exact .inl ⟨rfl, rfl, rfl⟩
        · split at done
          · cases done
            exact .inl ⟨rfl, rfl, rfl⟩
          · dsimp only at done
            split at done
            · cases done
              exact .inl ⟨rfl, rfl, rfl⟩
            · split at done
              · cases done
                exact .inl ⟨rfl, rfl, rfl⟩
              · rename_i absent
                cases done
                exact .inr ⟨rfl, _, _, absent, jobs_recordProjectionDelta _ _ _,
                  shards_recordProjectionDelta_setJob _ _ _ _ _⟩

theorem createOrGetFinalizationIntent_effect (r : IntentRequest) :
    Effect p now (.createOrGetIntent r) s (createOrGetFinalizationIntent p s r now).2 := by
  rcases createOrGetFinalizationIntent_cases (Prod.mk.eta (p := createOrGetFinalizationIntent p s r now)).symm with
    ⟨-, jobs, shards⟩ | ⟨-, revision, fanoutKey, absent, jobs, shards⟩
  · exact .kept jobs shards
  · exact .created rfl rfl absent jobs shards

theorem resumeBlockedByokJob_effect (id : String) : Effect p now (.resume id) s (resumeBlockedByokJob s id now).2 := by
  unfold resumeBlockedByokJob
  split
  · exact .kept rfl rfl
  · rename_i job found
    split
    · rename_i blocked
      exact .changed found (.resume blocked.1) (by simp) (by simp)
    · exact .kept rfl rfl

theorem claimFinalizationJob_effect (id : String) (r : ClaimRequest) :
    Effect p now (.claim id r) s (claimFinalizationJob s id r now).2 := by
  unfold claimFinalizationJob
  split
  · exact .kept rfl rfl
  · rename_i job found
    split
    · exact .kept rfl rfl
    · rename_i admitted
      refine .changed found (.claim admitted) ?_ ?_
      · dsimp only
        split <;> simp
      · dsimp only
        split <;> simp

theorem markFinalizationCompleted_effect (id : String) (l : Lease) :
    Effect p now (.completed id l) s (markFinalizationCompleted s id l now).2 := by
  unfold markFinalizationCompleted
  split
  · exact .kept rfl rfl
  · rename_i job found
    split
    · exact .kept rfl rfl
    · split
      · exact .kept rfl rfl
      · rename_i current
        split
        · exact .kept rfl rfl
        · rename_i delivered
          exact .changed found (.complete (by simpa using current) (not_not.mp delivered)) (by simp) (by simp)

theorem markFinalizationFenced_effect (id : String) (l : Lease) :
    Effect p now (.fenced id l) s (markFinalizationFenced s id l now).2 := by
  unfold markFinalizationFenced Store.fenceJob
  split
  · exact .kept rfl rfl
  · rename_i job found
    split
    · exact .kept rfl rfl
    · split
      · exact .kept rfl rfl
      · rename_i current
        split
        · exact .kept rfl rfl
        · rename_i pending
          refine .changed found (.fence (.inl rfl) (by simpa using current) ?_) (by simp) (by simp)
          intro delivered
          rw [delivered] at pending
          exact pending ⟨by simp, by simp⟩

theorem claimFinalizationFanout_effect (id : String) (l : Lease) :
    Effect p now (.claimFanout id l) s (claimFinalizationFanout s id l now).2 := by
  unfold claimFinalizationFanout Store.fenceJob
  split
  · exact .kept rfl rfl
  · rename_i job found
    dsimp only
    split
    · exact .kept rfl rfl
    · rename_i undelivered
      split
      · exact .kept rfl rfl
      · rename_i current
        have held := Bool.not_eq_false _ ▸ current
        split
        · exact .changed found (.fence (.inr rfl) held undelivered) (by simp) (by simp)
        · split
          · exact .changed found (.leaseFanout held undelivered) (by simp) (by simp)
          · exact .changed found (.fence (.inr rfl) held undelivered) (by simp) (by simp)

theorem markFinalizationFanoutCompleted_effect (id : String) (l : Lease) :
    Effect p now (.fanoutCompleted id l) s (markFinalizationFanoutCompleted s id l now).2 := by
  unfold markFinalizationFanoutCompleted
  split
  · exact .kept rfl rfl
  · rename_i job found
    split
    · exact .kept rfl rfl
    · rename_i undelivered
      split
      · exact .kept rfl rfl
      · rename_i current
        exact .changed found (.completeFanout (by simpa using current) undelivered) (by simp) (by simp)

theorem markFinalizationRetryable_effect (id : String) (l : Lease) (failureCode : String) :
    Effect p now (.retryable id l failureCode) s (markFinalizationRetryable p s id l failureCode now).2 := by
  unfold markFinalizationRetryable
  split
  · exact .kept rfl rfl
  · rename_i job found
    split
    · exact .kept rfl rfl
    · rename_i current
      exact .changed found (.retry (by simpa using current)) (by simp) (by simp)

theorem markFinalizationDeadLetter_effect (id : String) (l : Lease) (retryCount : Int) :
    Effect p now (.deadLetter id l retryCount) s (markFinalizationDeadLetter s id l retryCount now).2 := by
  unfold markFinalizationDeadLetter
  split
  · exact .kept rfl rfl
  · rename_i job found
    split
    · exact .kept rfl rfl
    · rename_i current
      have held : job.isCurrentLease l.dispatchGeneration l.leaseEpoch = true := by simpa using current
      dsimp only
      split
      · exact .changed found (.bury held) (by simp) (by simp)
      · split
        · exact .changed found (.bury held) (by simp) (by simp)
        · exact .changed found (.bury held) (by simp) (by simp)

theorem recordMeetingReceipt_effect (r : ReceiptRequest) :
    Effect p now (.recordReceipt r) s (recordMeetingReceipt p s r now).2 := by
  unfold recordMeetingReceipt
  split
  · exact .kept rfl rfl
  · dsimp only
    split
    · rename_i job found
      split
      · exact .kept rfl rfl
      · split
        · exact .kept rfl rfl
        · exact .changed found .receipt (by simp) (by simp)
    · rename_i absent
      exact .received rfl absent rfl rfl

theorem claimFinalizationReplay_effect (id : String) (staleAfter : Int) :
    Effect p now (.replay id staleAfter) s (claimFinalizationReplay s id staleAfter now).2 := by
  unfold claimFinalizationReplay
  split
  · exact .kept rfl rfl
  · rename_i job found
    split
    · exact .kept rfl rfl
    · rename_i going
      split
      · exact .kept rfl rfl
      · rename_i lapsed
        split
        · exact .kept rfl rfl
        · have admitted : job.status = .queued ∨ job.status = .leased ∧ job.leaseHeld now = false := by
            cases status : job.status <;> simp_all [JobStatus.terminal]
          refine .changed found (.replay admitted) ?_ ?_
          · dsimp only
            split <;> simp
          · dsimp only
            split <;> simp

theorem abandonByokFinalizationJob_effect (id : String) (r : AbandonRequest) :
    Effect p now (.abandon id r) s (abandonByokFinalizationJob s id r now).2 := by
  unfold abandonByokFinalizationJob
  split
  · exact .kept rfl rfl
  · rename_i job found
    split
    · exact .kept rfl rfl
    · rename_i admitted
      have going : job.abandonFenced r now = false := by simpa using admitted
      dsimp only
      split
      · exact .changed found (.abandon going) (by simp) (by simp)
      · split
        · exact .changed found (.abandon going) (by simp) (by simp)
        · split
          · exact .changed found (.abandon going) (by simp) (by simp)
          · split
            · exact .changed found (.abandon going) (by simp) (by simp)
            · exact .changed found (.abandon going) (by simp) (by simp)

/-- What any call does to the jobs and the shards. -/
theorem act_effect (w : World) (call : Call) : Effect p now call w.store (w.act p call now).2.store := by
  cases call with
  | createOrGetIntent r => exact createOrGetFinalizationIntent_effect r
  | resume id => exact resumeBlockedByokJob_effect id
  | claim id r => exact claimFinalizationJob_effect id r
  | completed id l => exact markFinalizationCompleted_effect id l
  | fenced id l => exact markFinalizationFenced_effect id l
  | claimFanout id l => exact claimFinalizationFanout_effect id l
  | fanoutCompleted id l => exact markFinalizationFanoutCompleted_effect id l
  | retryable id l failureCode => exact markFinalizationRetryable_effect id l failureCode
  | deadLetter id l retryCount => exact markFinalizationDeadLetter_effect id l retryCount
  | recordReceipt r => exact recordMeetingReceipt_effect r
  | replayCandidates limit => exact .kept rfl rfl
  | replay id staleAfter => exact claimFinalizationReplay_effect id staleAfter
  | abandon id r => exact abandonByokFinalizationJob_effect id r
  | conversationWritten uid conversationId c => exact .kept rfl rfl
  | conversationDeleted uid conversationId => exact .kept rfl rfl

/-- A job that exists stays as it is or is updated. -/
theorem Effect.job {call : Call} {t : Store} (effect : Effect p now call s t) {id : String} {job : Job}
    (found : s.job id = some job) :
    t.job id = some job ∨ ∃ next changes, Update p now id call job next changes ∧ t.job id = some next := by
  unfold Store.job at found ⊢
  have other : ∀ {k : String} (next : Job), k ≠ id → Dict.get (Dict.put s.jobs k next) id = some job := fun next apart =>
    (Dict.get_put_other _ (Ne.symm apart) _).trans found
  cases effect with
  | kept jobs shards => exact .inl (jobs ▸ found)
  | @created r k revision fanoutKey named identified absent jobs shards =>
      refine .inl (jobs ▸ other _ ?_)
      rintro rfl
      cases absent.symm.trans found
  | @received r k revision named absent jobs shards =>
      refine .inl (jobs ▸ other _ ?_)
      rintro rfl
      cases absent.symm.trans found
  | @changed k before next changes here update jobs shards =>
      by_cases same : k = id
      · subst same
        obtain rfl : before = job := Option.some.inj (here.symm.trans found)
        exact .inr ⟨next, changes, update, jobs ▸ Dict.get_put_self _ _ _⟩
      · exact .inl (jobs ▸ other _ same)

/-- A job after a call is new, the one before, or an update of it. -/
theorem Effect.origin {call : Call} {t : Store} (effect : Effect p now call s t) {id : String} {job : Job}
    (found : t.job id = some job) :
    s.job id = some job ∨
      (∃ r revision fanoutKey, call = .createOrGetIntent r ∧
        job = newJob p r.uid r.conversationId revision r.requiresByok fanoutKey now) ∨
      (∃ r revision, call = .recordReceipt r ∧ job = receiptJob r revision (newReceipt r now) now) ∨
      ∃ before changes, s.job id = some before ∧ Update p now id call before job changes := by
  unfold Store.job at found ⊢
  cases effect with
  | kept jobs shards => exact .inl (jobs ▸ found)
  | @created r k revision fanoutKey named identified absent jobs shards =>
      rw [jobs] at found
      by_cases same : k = id
      · subst same
        rw [Dict.get_put_self] at found
        exact .inr (.inl ⟨r, revision, fanoutKey, named, (Option.some.inj found).symm⟩)
      · rw [Dict.get_put_other _ (Ne.symm same)] at found
        exact .inl found
  | @received r k revision named absent jobs shards =>
      rw [jobs] at found
      by_cases same : k = id
      · subst same
        rw [Dict.get_put_self] at found
        exact .inr (.inr (.inl ⟨r, revision, named, (Option.some.inj found).symm⟩))
      · rw [Dict.get_put_other _ (Ne.symm same)] at found
        exact .inl found
  | @changed k before next changes here update jobs shards =>
      rw [jobs] at found
      by_cases same : k = id
      · subst same
        rw [Dict.get_put_self] at found
        obtain rfl : next = job := Option.some.inj found
        exact .inr (.inr (.inr ⟨before, changes, here, update⟩))
      · rw [Dict.get_put_other _ (Ne.symm same)] at found
        exact .inl found

end Inversion
end OmiLocal.Finalization
