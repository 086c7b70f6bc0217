import OmiLocal.Lib.Transition
import OmiLocal.Sync.JobStore

/-!
# Terminal sync jobs stay as they are

Any number of calls run at once on one job. A swap names the exact text it read,
so it can replace a job only if the guard accepted that very job; the self-heal of
a read writes its own copy back without looking again. `Careful` is the run in
which no such write meets a job that another writer has finished differently.
-/
namespace OmiLocal.Sync

open Lib

structure World where
  redis : Redis
  calls : List Pending
deriving DecidableEq

inductive Action where
  | getJob
  | updateJob (updates : Job)
  | fencedUpdateJob (token : String) (updates : Job) (now : ℚ) (allowed : Option (List String))
  | step (call : Nat) (now : ℚ)
  | acquire (token : String)
  | acquireWithEpoch (uuid : String)
  | release (token : String)
  | expireLock
  | expireJob

namespace World

def Initial (w : World) : Prop := w.calls = []

def start (w : World) (call : Pending) : World := { w with calls := w.calls ++ [call] }

def stepCall (w : World) (call : Nat) (now : ℚ) : Option World := do
  let pending ← w.calls[call]?
  let result ← pending.step w.redis now
  return ⟨result.1, w.calls.set call result.2⟩

def act (w : World) : Action → Option World
  | .getJob => some (w.start getSyncJob)
  | .updateJob updates => some (w.start (updateSyncJob updates))
  | .fencedUpdateJob token updates now allowed => some (w.start (fencedUpdateSyncJob token updates now allowed))
  | .step call now => w.stepCall call now
  | .acquire token => some { w with redis := acquireLock w.redis token }
  | .acquireWithEpoch uuid => some { w with redis := acquireLockWithEpochScript w.redis uuid }
  | .release token => some { w with redis := releaseLockScript w.redis token }
  | .expireLock => some { w with redis := { w.redis with lock := none } }
  | .expireJob => some { w with redis := { w.redis with job := none } }

def Step (w : World) (action : Action) (t : World) : Prop := w.act action = some t

def job (w : World) : Option Job := w.redis.job.bind RawJob.loads

def Terminal (w : World) : Prop := ∃ job, w.job = some job ∧ job.hasStatus terminalStatuses = true

/-- The status and the result of the stored job. -/
def outcome (w : World) : Option (Field × Field) := w.job.map fun job => (job.value "status", job.value "result")

/-- A self-heal that meets a finished job finds it failed with the result it has read. -/
def Careful (w : World) : Action → Prop
  | .step call _ => ∀ job, w.calls[call]? = some (.heal job) → w.Terminal →
      w.outcome = some (.str "failed", job.value "result")
  | _ => True

end World

/-! ### What a call has checked -/

/-- A pending swap carries the text it read, with a job that was not terminal. -/
def Pending.Guarded : Pending → Prop
  | .legacySwap _ raw job _ => raw.loads = some job ∧ job.hasStatus terminalStatuses = false
  | .fencedSwap _ raw job _ => raw.loads = some job ∧ job.hasStatus terminalStatuses = false
  | _ => True

theorem legacyAttempt_guarded {payload job : Job} {raw : RawJob} (read : raw.loads = some job) (retries : Nat) :
    (legacyAttempt payload raw job retries).Guarded := by
  cases retries with
  | zero => trivial
  | succ retries =>
      rw [legacyAttempt]
      split
      · trivial
      · rename_i going
        exact ⟨read, Bool.eq_false_iff.mpr going⟩

theorem fencedAttempt_guarded {fence : Fence} {job : Job} {raw : RawJob} (read : raw.loads = some job) (last : Mutation)
    (retries : Nat) : (fencedAttempt fence raw job last retries).Guarded := by
  cases retries with
  | zero => trivial
  | succ retries =>
      rw [fencedAttempt]
      split
      · rename_i admitted
        rw [Fence.admits, Bool.and_eq_true] at admitted
        exact ⟨read, by simpa using admitted.1⟩
      · trivial

theorem decodeMutation_conflict {reply : ScriptReply} {raw : RawJob} {job : Job}
    (raw_eq : (decodeMutation reply).rawJob = some raw) (job_eq : (decodeMutation reply).job = some job) :
    raw.loads = some job := by
  cases reply with
  | conflict found =>
      simp only [decodeMutation] at raw_eq job_eq
      cases read : found.loads with
      | none => simp [read] at raw_eq
      | some decoded =>
          simp only [read, Option.some.injEq] at raw_eq job_eq
          rw [← raw_eq, ← job_eq, read]
  | applied found =>
      simp only [decodeMutation] at raw_eq job_eq
      cases read : found.loads with
      | none => simp [read] at raw_eq
      | some decoded =>
          simp only [read, Option.some.injEq] at raw_eq job_eq
          rw [← raw_eq, ← job_eq, read]
  | missingOwner => simp [decodeMutation] at raw_eq
  | staleOwner => simp [decodeMutation] at raw_eq
  | missingJob => simp [decodeMutation] at raw_eq

theorem afterLegacySwap_guarded (payload : Job) (retries : Nat) (reply : ScriptReply) :
    (afterLegacySwap payload retries (decodeMutation reply)).Guarded := by
  rw [afterLegacySwap]
  split
  · trivial
  · rename_i _ raw job _ raw_eq job_eq
    exact legacyAttempt_guarded (decodeMutation_conflict raw_eq job_eq) retries
  · trivial

theorem afterFencedSwap_guarded (fence : Fence) (retries : Nat) (reply : ScriptReply) :
    (afterFencedSwap fence retries (decodeMutation reply)).Guarded := by
  rw [afterFencedSwap]
  split
  · rename_i _ raw job _ raw_eq job_eq
    exact fencedAttempt_guarded (decodeMutation_conflict raw_eq job_eq) _ retries
  · trivial

theorem Pending.step_guarded {redis next : Redis} {now : ℚ} {call after : Pending}
    (done : call.step redis now = some (next, after)) : after.Guarded := by
  cases call with
  | get =>
      cases done
      unfold afterGet
      split
      · trivial
      · trivial
      · trivial
      · split <;> trivial
  | heal job =>
      cases done
      trivial
  | update updates =>
      cases done
      unfold afterUpdateGet
      split
      · trivial
      · split
        · trivial
        · rename_i read
          exact legacyAttempt_guarded read _
  | legacySwap payload raw job retries =>
      cases done
      exact afterLegacySwap_guarded payload retries _
  | fenced fence =>
      cases done
      unfold afterFencedGet
      split
      · trivial
      · split
        · trivial
        · rename_i read
          exact fencedAttempt_guarded read _ _
  | fencedProbe fence =>
      cases done
      exact afterFencedSwap_guarded fence _ _
  | fencedSwap fence raw job retries =>
      cases done
      exact afterFencedSwap_guarded fence retries _
  | returnedJob job => cases done
  | returnedMutation mutation => cases done

/-! ### What a step may write -/

section Run

variable {w t : World} {action : Action}

theorem World.step_call {call : Nat} {now : ℚ} (done : w.stepCall call now = some t) :
    ∃ pending next after, w.calls[call]? = some pending ∧ pending.step w.redis now = some (next, after) ∧
      t = ⟨next, w.calls.set call after⟩ := by
  obtain ⟨pending, found, rest⟩ := Option.bind_eq_some_iff.mp done
  obtain ⟨result, stepped, final⟩ := Option.bind_eq_some_iff.mp rest
  exact ⟨pending, result.1, result.2, found, stepped, (Option.some.inj final).symm⟩

def World.Guarded (w : World) : Prop := ∀ call ∈ w.calls, call.Guarded

theorem World.Guarded.start (guarded : w.Guarded) {call : Pending} (fresh : call.Guarded) : (w.start call).Guarded := by
  intro other member
  rcases List.mem_append.mp member with before | new
  · exact guarded other before
  · rw [List.mem_singleton.mp new]
    exact fresh

theorem World.Guarded.step (guarded : w.Guarded) (step : w.Step action t) : t.Guarded := by
  cases action with
  | step call now =>
      obtain ⟨pending, next, after, _, stepped, rfl⟩ := World.step_call step
      intro other member
      rcases List.mem_or_eq_of_mem_set member with before | rfl
      · exact guarded other before
      · exact Pending.step_guarded stepped
  | getJob =>
      cases step
      exact guarded.start trivial
  | updateJob updates =>
      cases step
      exact guarded.start trivial
  | fencedUpdateJob token updates now allowed =>
      cases step
      exact guarded.start trivial
  | acquire token =>
      cases step
      exact guarded
  | acquireWithEpoch uuid =>
      cases step
      exact guarded
  | release token =>
      cases step
      exact guarded
  | expireLock =>
      cases step
      exact guarded
  | expireJob =>
      cases step
      exact guarded

end Run

/-! ### Two runs on a job whose worker went silent -/

end OmiLocal.Sync
