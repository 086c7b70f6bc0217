import OmiLocal.Lib.Decimal
import OmiLocal.Sync.LedgerFence
import OmiLocal.Sync.Workers

/-!
# Superseded workers change nothing

The epochs of the tokens grow, the lock belongs to the newest worker if to any, and the ledger
entry belongs to a worker no older than any that has bound it, until a claim takes it anew.
-/
namespace OmiLocal.Sync
open Lib

namespace Fleet

/-- The worker has bound the entry, and no claim has taken it anew since. -/
def BoundSince (worker : Nat) (log : List Success) : Prop :=
  ∃ before after, log = before ++ .bound worker :: after ∧ .reclaimed ∉ after

/-- The entry is held by this worker or a newer one, or is nobody's. -/
def Guard (job : String) (s : Fleet) (worker : Nat) : Prop :=
  (∃ k token, worker ≤ k ∧ s.tokens[k]? = some token ∧ Held job token (getSyncJobRunLockEpoch token) s.ledger) ∨
    s.ledger.status ≠ some .completed ∧ s.ledger.jobId ≠ some job

/-- A call of `fenced_update_sync_job` with this token. -/
inductive CallOf (token : String) : Pending → Prop
  | fenced {fence : Fence} : fence.token = token → CallOf token (.fenced fence)
  | probe {fence : Fence} : fence.token = token → CallOf token (.fencedProbe fence)
  | swap {fence : Fence} {raw : RawJob} {job : Job} {retries : Nat} : fence.token = token →
      CallOf token (.fencedSwap fence raw job retries)
  | returned (mutation : Mutation) : CallOf token (.returnedMutation mutation)

structure Inv (job : String) (s : Fleet) : Prop where
  epochs : (s.tokens.map getSyncJobRunLockEpoch).Pairwise (· < ·)
  below : ∀ token ∈ s.tokens, getSyncJobRunLockEpoch token ≤ s.redis.epoch
  lock : ∀ token, s.redis.lock = some token → s.tokens.getLast? = some token
  calls : ∀ call ∈ s.calls, ∃ token, s.tokens[call.1]? = some token ∧ CallOf token call.2
  recorded : s.ledger.ResultRecorded
  issued : ∀ worker, .bound worker ∈ s.log → worker < s.tokens.length
  guard : ∀ worker, BoundSince worker s.log → Guard job s worker

/-! ## Tokens -/

theorem epoch_of_issued (n : Nat) (uuid : String) :
    getSyncJobRunLockEpoch (toString (n + 1) ++ ":" ++ uuid) = (n : Int) + 1 := by
  have chars : (toString (n + 1) ++ ":" ++ uuid).toList = (Nat.repr (n + 1)).toList ++ ':' :: uuid.toList := by
    rw [String.toList_append, String.toList_append, List.append_assoc]
    rfl
  have digits : ∀ c ∈ (Nat.repr (n + 1)).toList, c.isDigit = true := fun c => Decimal.isDigit_of_mem_repr
  have free : ':' ∉ (Nat.repr (n + 1)).toList := fun member => absurd (digits _ member) (by decide)
  have some_ : (Nat.repr (n + 1)).toList ≠ [] := by
    rw [Nat.toList_repr]
    exact Nat.toDigits_ne_nil
  unfold getSyncJobRunLockEpoch
  rw [chars, Decimal.takeWhile_before free]
  dsimp only
  rw [if_pos ⟨by simp, some_, List.all_eq_true.mpr digits⟩, Nat.toList_repr, Nat.ofDigitChars_ten_toDigits]
  rfl

variable {job : String} {s t : Fleet}

theorem Inv.lt_of_epoch_lt (inv : Inv job s) {i j : Nat} {a b : String} (first : s.tokens[i]? = some a)
    (second : s.tokens[j]? = some b) (less : getSyncJobRunLockEpoch a < getSyncJobRunLockEpoch b) : i < j := by
  obtain ⟨iIn, rfl⟩ := List.getElem?_eq_some_iff.mp first
  obtain ⟨jIn, rfl⟩ := List.getElem?_eq_some_iff.mp second
  by_contra late
  rcases Nat.lt_or_eq_of_le (not_lt.mp late) with back | rfl
  · have grows := List.pairwise_iff_getElem.mp inv.epochs j i (by simpa using jIn) (by simpa using iIn) back
    rw [List.getElem_map, List.getElem_map] at grows
    exact absurd (grows.trans less) (lt_irrefl _)
  · exact absurd less (lt_irrefl _)

theorem Inv.eq_of_token (inv : Inv job s) {i j : Nat} {token : String} (first : s.tokens[i]? = some token)
    (second : s.tokens[j]? = some token) : i = j := by
  obtain ⟨iIn, rfl⟩ := List.getElem?_eq_some_iff.mp first
  obtain ⟨jIn, same⟩ := List.getElem?_eq_some_iff.mp second
  have distinct : s.tokens.Nodup :=
    List.Nodup.of_map _ (inv.epochs.imp fun less => ne_of_lt less)
  exact (List.Nodup.getElem_inj_iff distinct).mp same.symm

/-- Only the newest worker can own the lock. -/
theorem Inv.newest (inv : Inv job s) {j : Nat} {token : String} (worker : s.tokens[j]? = some token)
    (owner : s.redis.lock = some token) : s.tokens.length ≤ j + 1 := by
  have last := inv.lock token owner
  rw [List.getLast?_eq_getElem?] at last
  have := inv.eq_of_token worker last
  omega

/-! ## The log -/

theorem boundSince_snoc {worker : Nat} {log : List Success} {e : Success} (since : BoundSince worker (log ++ [e])) :
    e = .bound worker ∨ BoundSince worker log ∧ e ≠ .reclaimed := by
  obtain ⟨before, after, split, free⟩ := since
  rcases List.eq_nil_or_concat after with rfl | ⟨rest, last, rfl⟩
  · exact .inl (List.singleton_inj.mp (List.append_inj' split rfl).2)
  · rw [List.concat_eq_append] at split free
    rw [← List.cons_append, ← List.append_assoc] at split
    obtain ⟨same, lastIs⟩ := List.append_inj' split rfl
    rw [List.singleton_inj.mp lastIs]
    refine .inr ⟨⟨before, rest, same, fun member => free (List.mem_append_left _ member)⟩, ?_⟩
    rintro rfl
    exact free (by simp)

theorem boundSince_mem {worker : Nat} {log : List Success} (since : BoundSince worker log) : .bound worker ∈ log := by
  obtain ⟨before, after, rfl, -⟩ := since
  simp

/-! ## The ledger -/

theorem mutation_caller (m : LedgerMutation) (caller : Caller) (now : ℚ) :
    (m.transaction caller now).caller = some caller := by
  cases m <;> rfl

/-- A worker whose bind is answered `bound` is at least as new as every one that has bound. -/
theorem Inv.bind_newer (inv : Inv job s) {i j : Nat} {token : String} (worker : s.tokens[j]? = some token) {now : ℚ}
    (guard : Guard job s i)
    (bound : ((Transaction.bind job token (getSyncJobRunLockEpoch token) now).run s.ledger).2 = .bound) : i ≤ j := by
  have effect := (Transaction.bind job token (getSyncJobRunLockEpoch token) now).run_effect s.ledger
  rcases guard with ⟨k, held, le, known, holds⟩ | ⟨going, other⟩
  · rcases (holds.rebind effect bound).2 with less | ⟨same, -, -⟩
    · exact le.trans (inv.lt_of_epoch_lt known worker less).le
    · rw [same] at worker
      exact le.trans (inv.eq_of_token known worker).le
  · generalize (Transaction.bind job token (getSyncJobRunLockEpoch token) now).run s.ledger = r at effect bound
    cases effect with
    | silent quiet =>
        simp only at bound
        rw [bound] at quiet
        cases quiet
    | repairedBound invalid => exact absurd invalid.1 going
    | boundAgain _ same _ _ => exact absurd same other
    | bound _ same _ => exact absurd same other

theorem Inv.owner_newer (inv : Inv job s) {i j : Nat} {token : String} (worker : s.tokens[j]? = some token)
    (guard : Guard job s i) (owner : ledgerOwnerMatches s.ledger (callerOf job token) = true) :
    i ≤ j ∧ ∃ k held, i ≤ k ∧ s.tokens[k]? = some held ∧ Held job held (getSyncJobRunLockEpoch held) s.ledger := by
  rcases guard with ⟨k, held, le, known, holds⟩ | ⟨_, other⟩
  · refine ⟨?_, k, held, le, known, holds⟩
    by_cases same : callerOf job token = ⟨job, some held, some (getSyncJobRunLockEpoch held)⟩
    · have : token = held := Option.some.inj (Caller.mk.inj same).2.1
      rw [this] at worker
      exact le.trans (inv.eq_of_token known worker).le
    · rw [holds.not_owner same] at owner
      cases owner
  · exact absurd (owner_claim owner).2 other

/-- What a mutation leaves: a refused one nothing new, any other what its owner may do. -/
theorem mutation_cases (m : LedgerMutation) (caller : Caller) (now : ℚ) (doc : Document) :
    (((m.transaction caller now).run doc).2 ≠ .changed ∧ ((m.transaction caller now).run doc).1 = doc) ∨
      ledgerOwnerMatches doc caller = true ∧
        (((m.transaction caller now).run doc).1.status ≠ some .completed ∧
          ((m.transaction caller now).run doc).1.jobId = none ∨
        ∀ job token epoch, ¬ Ends job token epoch (m.transaction caller now, ((m.transaction caller now).run doc).2)) := by
  have effect := (m.transaction caller now).run_effect doc
  by_cases owner : ledgerOwnerMatches doc caller = true
  · refine .inr ⟨owner, ?_⟩
    cases m with
    | release =>
        simp only [LedgerMutation.transaction] at effect ⊢
        generalize (Transaction.release caller now).run doc = r at effect
        cases effect with
        | @silent _ reply quiet =>
            refine .inr fun _ _ _ ends => ?_
            cases reply with
            | changed => cases quiet
            | _ => exact ends
        | freed _ => exact .inl ⟨by simp [released], rfl⟩
    | _ => exact .inr fun _ _ _ ends => (by cases ends)
  · have refused := effect.mutation (mutation_caller m caller now) (by simpa using owner)
    exact .inl ⟨refused.2, refused.1⟩

/-! ## Calls -/

theorem afterFencedGet_callOf (fence : Fence) (stored : Option RawJob) :
    CallOf fence.token (afterFencedGet fence stored) ∧ applied (afterFencedGet fence stored) = false := by
  unfold afterFencedGet fencedAttempt
  split
  · exact ⟨.probe rfl, rfl⟩
  · split
    · exact ⟨.returned _, rfl⟩
    · split
      · exact ⟨.returned _, rfl⟩
      · split
        · exact ⟨.swap rfl, rfl⟩
        · exact ⟨.returned _, rfl⟩

theorem afterFencedSwap_callOf (fence : Fence) (retries : Nat) (mutation : Mutation) :
    CallOf fence.token (afterFencedSwap fence retries mutation) ∧
      (applied (afterFencedSwap fence retries mutation) = true → mutation.outcome = .applied) := by
  unfold afterFencedSwap
  split
  · rename_i conflict _ _
    unfold fencedAttempt
    split
    · refine ⟨.returned _, fun done => ?_⟩
      simp [applied, conflict] at done
    · split
      · exact ⟨.swap rfl, fun done => (by cases done)⟩
      · exact ⟨.returned _, fun done => (by cases done)⟩
  · exact ⟨.returned _, fun done => of_decide_eq_true done⟩

/-- A script that changes the job or answers `applied` found its token in the lock. -/
theorem fencedMutationScript_owner (redis : Redis) (token : String) (expected next : RawJob) :
    (fencedMutationScript redis token expected next).1.lock = redis.lock ∧
      (fencedMutationScript redis token expected next).1.epoch = redis.epoch ∧
      ((fencedMutationScript redis token expected next).1 ≠ redis ∨
        (decodeMutation (fencedMutationScript redis token expected next).2).outcome = .applied →
        redis.lock = some token) := by
  unfold fencedMutationScript
  split
  · exact ⟨rfl, rfl, fun h => by simp [decodeMutation] at h⟩
  · rename_i owner held
    split
    · exact ⟨rfl, rfl, fun h => by simp [decodeMutation] at h⟩
    · rename_i same
      rw [not_not] at same
      subst same
      unfold legacyMutationScript
      split
      · exact ⟨rfl, rfl, fun _ => held⟩
      · split
        · exact ⟨rfl, rfl, fun _ => held⟩
        · exact ⟨rfl, rfl, fun _ => held⟩

theorem callOf_step {token : String} {pending after : Pending} {redis next : Redis} {now : ℚ}
    (call : CallOf token pending) (step : pending.step redis now = some (next, after)) :
    CallOf token after ∧ next.lock = redis.lock ∧ next.epoch = redis.epoch ∧
      (next ≠ redis ∨ applied after = true → redis.lock = some token) := by
  cases call with
  | fenced same =>
      cases step
      subst same
      obtain ⟨kind, quiet⟩ := afterFencedGet_callOf _ redis.job
      refine ⟨kind, rfl, rfl, ?_⟩
      rintro (changed | done)
      · exact absurd rfl changed
      · rw [quiet] at done
        cases done
  | @probe fence same =>
      cases step
      subst same
      obtain ⟨lock, epoch, owner⟩ := fencedMutationScript_owner redis fence.token (.noJson "") (.noJson "")
      obtain ⟨kind, answered⟩ := afterFencedSwap_callOf fence mutationMaxRetries
        (decodeMutation (fencedMutationScript redis fence.token (.noJson "") (.noJson "")).2)
      exact ⟨kind, lock, epoch, fun h => owner (h.imp id answered)⟩
  | @swap fence raw job retries same =>
      cases step
      subst same
      obtain ⟨lock, epoch, owner⟩ :=
        fencedMutationScript_owner redis fence.token raw (.document true (job.update fence.payload))
      obtain ⟨kind, answered⟩ := afterFencedSwap_callOf fence retries
        (decodeMutation (fencedMutationScript redis fence.token raw (.document true (job.update fence.payload))).2)
      exact ⟨kind, lock, epoch, fun h => owner (h.imp id answered)⟩
  | returned mutation => cases step

/-! ## Steps -/

variable {a : Action}

theorem Guard.grown {u : Fleet} {worker : Nat} (guard : Guard job s worker) (tokens : s.tokens <+: u.tokens)
    (ledger : u.ledger = s.ledger) : Guard job u worker := by
  rcases guard with ⟨k, token, le, known, holds⟩ | ⟨going, other⟩
  · obtain ⟨more, same⟩ := tokens
    refine .inl ⟨k, token, le, ?_, by rw [ledger]; exact holds⟩
    rw [← same, List.getElem?_append_left (List.getElem?_eq_some_iff.mp known).1]
    exact known
  · exact .inr ⟨by rw [ledger]; exact going, by rw [ledger]; exact other⟩

theorem Inv.acquire (inv : Inv job s) (uuid : String) : Inv job (s.acquire uuid) := by
  unfold Fleet.acquire
  split
  · exact inv
  · rename_i free
    have redis : acquireLockWithEpochScript s.redis uuid =
        { s.redis with lock := some (toString (s.redis.epoch + 1) ++ ":" ++ uuid), epoch := s.redis.epoch + 1 } := by
      unfold acquireLockWithEpochScript
      rw [free]
    rw [redis]
    generalize tokenIs : toString (s.redis.epoch + 1) ++ ":" ++ uuid = token
    have epoch : getSyncJobRunLockEpoch token = (s.redis.epoch : Int) + 1 := tokenIs ▸ epoch_of_issued s.redis.epoch uuid
    dsimp only [Option.toList_some]
    constructor
    · rw [List.map_append, List.pairwise_append]
      refine ⟨inv.epochs, List.pairwise_singleton _ _, ?_⟩
      intro e old f new
      rw [List.mem_singleton.mp new, epoch]
      obtain ⟨earlier, member, rfl⟩ := List.mem_map.mp old
      have := inv.below earlier member
      omega
    · intro other member
      rcases List.mem_append.mp member with old | new
      · have := inv.below other old
        dsimp only
        omega
      · rw [List.mem_singleton.mp new, epoch]
        exact_mod_cast le_refl _
    · intro other owner
      cases owner
      exact List.getLast?_concat
    · intro call member
      obtain ⟨known, at_, kind⟩ := inv.calls call member
      refine ⟨known, ?_, kind⟩
      rw [List.getElem?_append_left (List.getElem?_eq_some_iff.mp at_).1]
      exact at_
    · exact inv.recorded
    · intro worker member
      have := inv.issued worker member
      rw [List.length_append, List.length_singleton]
      omega
    · intro worker since
      apply (inv.guard worker since).grown
      · exact List.prefix_append _ _
      · rfl

/-- A change of the lock that gives it to nobody new. -/
theorem Inv.unlock (inv : Inv job s) {redis : Redis} (epoch : redis.epoch = s.redis.epoch)
    (lock : redis.lock = none ∨ redis.lock = s.redis.lock) : Inv job { s with redis := redis } := by
  refine ⟨inv.epochs, ?_, ?_, inv.calls, inv.recorded, inv.issued, inv.guard⟩
  · rw [epoch]
    exact inv.below
  · intro token owner
    rcases lock with none | same
    · rw [none] at owner
      cases owner
    · exact inv.lock token (same ▸ owner)

/-- A transaction that is noted for nobody, or for a worker. -/
theorem Inv.transact (inv : Inv job s) (x : Transaction) {noted : Reply → List Success} {e : List Success}
    (notedIs : noted (x.run s.ledger).2 = e)
    (issued : ∀ worker, .bound worker ∈ e → worker < s.tokens.length)
    (guard : ∀ worker, BoundSince worker (s.log ++ e) → Guard job (s.transact x noted) worker) :
    Inv job (s.transact x noted) := by
  have log : (s.transact x noted).log = s.log ++ e := by rw [← notedIs]; rfl
  refine ⟨inv.epochs, inv.below, inv.lock, inv.calls, (x.run_effect s.ledger).result_recorded inv.recorded, ?_, ?_⟩
  · rw [log]
    intro worker member
    exact (List.mem_append.mp member).elim (inv.issued worker) (issued worker)
  · rw [log]
    exact guard

theorem Inv.bind (inv : Inv job s) {worker : Nat} {token : String} (known : s.tokens[worker]? = some token) (now : ℚ) :
    Inv job (s.transact (.bind job token (getSyncJobRunLockEpoch token) now) (Fleet.bound worker)) := by
  have effect := (Transaction.bind job token (getSyncJobRunLockEpoch token) now).run_effect s.ledger
  by_cases answered : ((Transaction.bind job token (getSyncJobRunLockEpoch token) now).run s.ledger).2 = .bound
  · refine inv.transact (e := [.bound worker]) _ (by rw [answered]; rfl) ?_ ?_
    · intro other member
      cases List.mem_singleton.mp member
      exact (List.getElem?_eq_some_iff.mp known).1
    · intro other since
      have held := effect.held_of_bind answered
      rcases boundSince_snoc since with last | ⟨earlier, -⟩
      · cases last
        exact .inl ⟨worker, token, le_refl _, known, held⟩
      · exact .inl ⟨worker, token, inv.bind_newer known (inv.guard other earlier) answered, known, held⟩
  · have quiet : Fleet.bound worker
        ((Transaction.bind job token (getSyncJobRunLockEpoch token) now).run s.ledger).2 = [] := by
      unfold Fleet.bound
      split
      · rename_i same
        exact absurd same answered
      · rfl
    refine inv.transact (e := []) _ quiet (fun _ member => by cases member) ?_
    intro other since
    rw [List.append_nil] at since
    have same : ((Transaction.bind job token (getSyncJobRunLockEpoch token) now).run s.ledger).1 = s.ledger := by
      generalize (Transaction.bind job token (getSyncJobRunLockEpoch token) now).run s.ledger = r at effect answered
      cases effect with
      | silent _ => rfl
      | repairedBound _ => exact absurd rfl answered
      | boundAgain _ _ _ _ => rfl
      | bound _ _ _ => exact absurd rfl answered
    apply (inv.guard other since).grown
    · exact List.prefix_refl _
    · exact same

theorem Inv.mutate (inv : Inv job s) {worker : Nat} {token : String} (known : s.tokens[worker]? = some token)
    (m : LedgerMutation) (now : ℚ) :
    Inv job (s.transact (m.transaction (callerOf job token) now) (Fleet.changed worker)) := by
  have effect := (m.transaction (callerOf job token) now).run_effect s.ledger
  refine inv.transact _ rfl ?_ ?_
  · intro other member
    unfold Fleet.changed at member
    split at member
    · cases List.mem_singleton.mp member
    · cases member
  · intro other since
    have earlier : BoundSince other s.log := by
      unfold Fleet.changed at since
      split at since
      · rcases boundSince_snoc since with last | ⟨earlier, -⟩
        · cases last
        · exact earlier
      · rwa [List.append_nil] at since
    have guard := inv.guard other earlier
    rcases mutation_cases m (callerOf job token) now s.ledger with ⟨-, same⟩ | ⟨owner, freed | going⟩
    · apply guard.grown
      · exact List.prefix_refl _
      · exact same
    · refine .inr ⟨freed.1, ?_⟩
      show ((m.transaction (callerOf job token) now).run s.ledger).1.jobId ≠ some job
      rw [freed.2]
      exact fun absent => by cases absent
    · obtain ⟨-, k, held, le, at_, holds⟩ := inv.owner_newer known guard owner
      exact .inl ⟨k, held, le, at_, holds.step inv.recorded effect (going _ _ _)⟩

theorem Inv.claim (inv : Inv job s) (lane : String) (now : ℚ) :
    Inv job (s.transact (.claim job lane now) (reclaimed job s.ledger)) := by
  have effect := (Transaction.claim job lane now).run_effect s.ledger
  have noted : reclaimed job s.ledger ((Transaction.claim job lane now).run s.ledger).2 = [.reclaimed] ∨
      reclaimed job s.ledger ((Transaction.claim job lane now).run s.ledger).2 = [] ∧
        ((Transaction.claim job lane now).run s.ledger).1 = s.ledger := by
    generalize (Transaction.claim job lane now).run s.ledger = r at effect
    cases effect with
    | @silent _ reply quiet =>
        refine .inr ⟨?_, rfl⟩
        cases reply with
        | owned => cases quiet
        | _ => rfl
    | kept going same => exact .inr ⟨if_pos ⟨going, same⟩, rfl⟩
    | claimed _ other => exact .inl (if_neg fun h => other h.2)
    | repaired invalid => exact .inl (if_neg fun h => h.1 invalid.1)
  refine inv.transact _ rfl ?_ ?_
  · intro worker member
    rcases noted with anew | ⟨none, -⟩
    · rw [anew] at member
      cases List.mem_singleton.mp member
    · rw [none] at member
      cases member
  · intro worker since
    rcases noted with anew | ⟨none, same⟩
    · rw [anew] at since
      rcases boundSince_snoc since with last | ⟨-, not⟩
      · cases last
      · exact absurd rfl not
    · rw [none, List.append_nil] at since
      apply (inv.guard worker since).grown
      · exact List.prefix_refl _
      · exact same

/-- A write of a worker to Redis, noted at the end of the log. -/
theorem Inv.noted (inv : Inv job s) {e : List Success} (wrote : ∀ x ∈ e, x.inRedis = true) :
    Inv job { s with log := s.log ++ e } := by
  have shorter : ∀ worker, BoundSince worker (s.log ++ e) → BoundSince worker s.log := by
    intro worker since
    induction e using List.reverseRecOn with
    | nil => rwa [List.append_nil] at since
    | append_singleton front x ih =>
        rw [← List.append_assoc] at since
        rcases boundSince_snoc since with rfl | ⟨earlier, -⟩
        · have := wrote (.bound worker) (by simp)
          cases this
        · exact ih (fun y member => wrote y (List.mem_append_left _ member)) earlier
  refine ⟨inv.epochs, inv.below, inv.lock, inv.calls, inv.recorded, ?_, fun worker since => inv.guard worker (shorter worker since)⟩
  intro worker member
  rcases List.mem_append.mp member with old | new
  · exact inv.issued worker old
  · have := wrote _ new
    cases this

theorem stepCall_spec (inv : Inv job s) {call : Nat} {now : ℚ} (done : s.stepCall call now = some t) :
    Inv job t ∧ ∃ worker token, s.tokens[worker]? = some token ∧
      (t.log = s.log ∨ t.log = s.log ++ [.written worker] ∧ s.redis.lock = some token) := by
  unfold stepCall at done
  obtain ⟨⟨worker, pending⟩, found, rest⟩ := Option.bind_eq_some_iff.mp done
  obtain ⟨⟨redis, after⟩, stepped, rest⟩ := Option.bind_eq_some_iff.mp rest
  cases rest
  obtain ⟨token, known, kind⟩ := inv.calls _ (List.mem_of_getElem? found)
  obtain ⟨laterKind, lock, epoch, owner⟩ := callOf_step kind stepped
  have moved : Inv job { s with redis := redis, calls := s.calls.set call (worker, after) } := by
    have unlocked := inv.unlock epoch (.inr lock)
    refine ⟨unlocked.epochs, unlocked.below, unlocked.lock, ?_, unlocked.recorded, unlocked.issued, unlocked.guard⟩
    intro other member
    rcases List.mem_or_eq_of_mem_set member with old | rfl
    · exact inv.calls other old
    · exact ⟨token, known, laterKind⟩
  dsimp only
  split
  · rename_i wrote
    exact ⟨moved.noted (by simp [Success.inRedis]), worker, token, known, .inr ⟨rfl, owner wrote⟩⟩
  · rw [List.append_nil]
    exact ⟨moved, worker, token, known, .inl rfl⟩

theorem Inv.start (inv : Inv job s) {worker : Nat} {token : String} (known : s.tokens[worker]? = some token)
    {pending : Pending} (kind : CallOf token pending) : Inv job { s with calls := s.calls ++ [(worker, pending)] } := by
  refine ⟨inv.epochs, inv.below, inv.lock, ?_, inv.recorded, inv.issued, inv.guard⟩
  intro call member
  rcases List.mem_append.mp member with old | new
  · exact inv.calls call old
  · rw [List.mem_singleton.mp new]
    exact ⟨token, known, kind⟩

/-- What a step notes, and that its worker may. -/
inductive Notes (s : Fleet) : List Success → Prop
  | nothing : Notes s []
  | anew : Notes s [.reclaimed]
  | redis {worker : Nat} {token : String} {e : Success} : s.tokens[worker]? = some token →
      s.redis.lock = some token → e.worker = some worker → Notes s [e]
  | ledger {worker : Nat} {e : Success} : e.worker = some worker → e.inRedis = false →
      (∀ i, BoundSince i s.log → i ≤ worker) → Notes s [e]

theorem transact_log (s : Fleet) (x : Transaction) (noted : Reply → List Success) :
    (s.transact x noted).log = s.log ++ noted (x.run s.ledger).2 := rfl

theorem Inv.bind_notes (inv : Inv job s) {worker : Nat} {token : String} (known : s.tokens[worker]? = some token)
    (now : ℚ) :
    Notes s (Fleet.bound worker ((Transaction.bind job token (getSyncJobRunLockEpoch token) now).run s.ledger).2) := by
  unfold Fleet.bound
  split
  · rename_i answered
    exact .ledger rfl rfl fun i since => inv.bind_newer known (inv.guard i since) answered
  · exact .nothing

theorem Inv.mutate_notes (inv : Inv job s) {worker : Nat} {token : String} (known : s.tokens[worker]? = some token)
    (m : LedgerMutation) (now : ℚ) :
    Notes s (Fleet.changed worker ((m.transaction (callerOf job token) now).run s.ledger).2) := by
  unfold Fleet.changed
  split
  · rename_i answered
    refine .ledger rfl rfl fun i since => ?_
    rcases mutation_cases m (callerOf job token) now s.ledger with ⟨refused, -⟩ | ⟨owner, -⟩
    · exact absurd answered refused
    · exact (inv.owner_newer known (inv.guard i since) owner).1
  · exact .nothing

theorem addSegment_owner {redis : Redis} {segments more : List String} {token path : String}
    (done : fencedAddProcessedSegmentScript redis segments token path = some more) : redis.lock = some token := by
  unfold fencedAddProcessedSegmentScript at done
  split at done
  · cases done
  · rename_i owner held
    split at done
    · cases done
    · rename_i same
      rw [held, not_not.mp same]

theorem step_spec (inv : Inv job s) (step : Step job s a t) : Inv job t ∧ ∃ e, t.log = s.log ++ e ∧ Notes s e := by
  have still {u : Fleet} (kept : Inv job u) (log : u.log = s.log) : Inv job u ∧ ∃ e, u.log = s.log ++ e ∧ Notes s e :=
    ⟨kept, [], by rw [log, List.append_nil], .nothing⟩
  unfold Step at step
  cases a with
  | acquire uuid =>
      cases step
      refine still (inv.acquire uuid) ?_
      unfold Fleet.acquire
      split <;> rfl
  | renew worker =>
      obtain ⟨token, -, rfl⟩ := Option.map_eq_some_iff.mp step
      exact still inv rfl
  | release worker =>
      obtain ⟨token, -, rfl⟩ := Option.map_eq_some_iff.mp step
      refine still (inv.unlock ?_ ?_) rfl
      · unfold releaseLockScript
        split <;> rfl
      · unfold releaseLockScript
        split
        · exact .inl rfl
        · exact .inr rfl
  | expire =>
      cases step
      refine still (inv.unlock ?_ (.inl ?_)) rfl
      · rfl
      · rfl
  | bind worker now =>
      obtain ⟨token, known, rfl⟩ := Option.map_eq_some_iff.mp step
      exact ⟨inv.bind known now, _, rfl, inv.bind_notes known now⟩
  | mutate worker m now =>
      obtain ⟨token, known, rfl⟩ := Option.map_eq_some_iff.mp step
      exact ⟨inv.mutate known m now, _, rfl, inv.mutate_notes known m now⟩
  | claim lane now =>
      cases step
      refine ⟨inv.claim lane now, _, rfl, ?_⟩
      unfold reclaimed
      split
      · split
        · exact .nothing
        · exact .anew
      · exact .nothing
  | updateJob worker updates now allowed =>
      obtain ⟨token, known, rfl⟩ := Option.map_eq_some_iff.mp step
      exact still (inv.start known (.fenced rfl)) rfl
  | step call now =>
      obtain ⟨kept, worker, token, known, same | ⟨noted, owner⟩⟩ := stepCall_spec inv step
      · exact still kept same
      · exact ⟨kept, _, noted, .redis known owner rfl⟩
  | addSegment worker path =>
      obtain ⟨token, known, same⟩ := Option.map_eq_some_iff.mp step
      split at same
      · cases same
        exact still inv rfl
      · rename_i segments done
        cases same
        have noted := inv.noted (e := [.segment worker]) (by simp [Success.inRedis])
        exact ⟨⟨noted.epochs, noted.below, noted.lock, noted.calls, noted.recorded, noted.issued, noted.guard⟩,
          [.segment worker], rfl, .redis known (addSegment_owner done) rfl⟩

theorem inv_reached (reachable : Transition.Reachable Initial (Step job) s) : Inv job s := by
  apply reachable.invariant
  · intro u start
    have nobody : u.tokens = [] := start.tokens
    refine ⟨by simp [nobody], by simp [nobody], ?_, by simp [start.calls], start.recorded, by simp [start.log], ?_⟩
    · intro token owner
      rw [start.free] at owner
      cases owner
    · intro worker since
      have := boundSince_mem since
      rw [start.log] at this
      cases this
  · exact fun _ _ _ inv step => (step_spec inv step).1

/-- Epochs grow, one worker at most owns the lock, and after a bind no older worker writes to the job
or its segments; none binds or changes the ledger entry either, until a claim takes it anew. -/
theorem superseded_worker_changes_nothing (reachable : Transition.Reachable Initial (Step job) s) :
    (s.tokens.map getSyncJobRunLockEpoch).Pairwise (· < ·) ∧
    (∀ (i j : Nat) (token : String), s.redis.lock = some token → s.tokens[i]? = some token → s.tokens[j]? = some token → i = j) ∧
    ∀ a t, Step job s a t → ∃ new, t.log = s.log ++ new ∧ ∀ e ∈ new, ∀ worker, e.worker = some worker →
      (e.inRedis = true → ∀ i, .bound i ∈ s.log → i ≤ worker) ∧ (∀ i, BoundSince i s.log → i ≤ worker) := by
  have inv := inv_reached reachable
  refine ⟨inv.epochs, fun i j token _ first second => inv.eq_of_token first second, ?_⟩
  intro a t step
  obtain ⟨-, new, log, notes⟩ := step_spec inv step
  refine ⟨new, log, ?_⟩
  intro e member worker by_
  cases notes with
  | nothing => cases member
  | anew =>
      cases List.mem_singleton.mp member
      cases by_
  | redis known owner named =>
      cases List.mem_singleton.mp member
      rw [named, Option.some.injEq] at by_
      subst by_
      have last := inv.newest known owner
      have newest (i : Nat) (old : .bound i ∈ s.log) : i ≤ _ :=
        Nat.le_of_lt_succ ((inv.issued i old).trans_le last)
      exact ⟨fun _ => newest, fun i since => newest i (boundSince_mem since)⟩
  | ledger named outside newer =>
      cases List.mem_singleton.mp member
      rw [named, Option.some.injEq] at by_
      subst by_
      refine ⟨fun inside => ?_, newer⟩
      rw [outside] at inside
      cases inside

/-- A new content of a job without workers. -/
def fresh : Fleet := ⟨⟨none, none, 0⟩, [], .missing, [], [], []⟩

theorem reached_of_actions {actions : List Action} (done : actions.foldlM (act "job") fresh = some t) :
    Transition.Reachable Initial (Step "job") t :=
  (Transition.Reachable.start ⟨rfl, rfl, rfl, rfl, fun _ => rfl⟩).actions (fun _ _ _ _ step => step) done

/-- The second worker takes over the lock and the entry. -/
def takeover : List Action :=
  [.claim "fresh" 0, .acquire "a", .bind 0 1, .expire, .acquire "b", .bind 1 2]

theorem takeover_log : (takeover.foldlM (act "job") fresh).map Fleet.log =
    some [.reclaimed, .bound 0, .bound 1] := by
  decide +kernel

theorem superseded_worker_changes_nothing_takeover :
    ∃ s : Fleet, s.log = [.reclaimed, .bound 0, .bound 1] ∧ ∀ t, Step "job" s (.bind 0 3) t →
      ∃ new, t.log = s.log ++ new ∧ .bound 0 ∉ new := by
  obtain ⟨s, done, log⟩ := Option.map_eq_some_iff.mp takeover_log
  refine ⟨s, log, fun t step => ?_⟩
  obtain ⟨new, grown, older⟩ := (superseded_worker_changes_nothing (reached_of_actions done)).2.2 _ t step
  refine ⟨new, grown, fun member => ?_⟩
  have late := (older _ member 0 rfl).2 1 ⟨[.reclaimed, .bound 0], [], by rw [log]; rfl, List.not_mem_nil⟩
  omega

/-- A worker that releases the entry leaves it to the next claim of the job, which forgets who had
bound it: the older worker then binds it. -/
theorem older_worker_binds_after_release :
    ∃ s, Transition.Reachable Initial (Step "job") s ∧
      s.log = [.reclaimed, .bound 1, .changed 1, .reclaimed, .bound 0] := by
  have log : (([.claim "fresh" 0, .acquire "a", .expire, .acquire "b", .bind 1 1, .mutate 1 .release 2,
      .claim "fresh" 3, .bind 0 4] : List Action).foldlM (act "job") fresh).map Fleet.log =
      some [.reclaimed, .bound 1, .changed 1, .reclaimed, .bound 0] := by
    decide +kernel
  obtain ⟨s, done, log⟩ := Option.map_eq_some_iff.mp log
  exact ⟨s, reached_of_actions done, log⟩

end Fleet
end OmiLocal.Sync
