import Mathlib.Algebra.GroupWithZero.Nat
import OmiLocal.Wals.TransferSafety

/-!
# Recovery comes to rest

Between two events of the app only the seams answer, completed runs leave and
queued microtasks run. Each such step uses up work that the coordinator had, so
that there are finitely many of them; every wake still to be looked at costs one
pass at most, however many wakes were taken during a pass. When no such step is
left, no run is, and every wake of the log has had its pass.
-/
namespace OmiLocal.Wals.Transfer

open Lib.Transition Lib.Obligations

/-- The steps that no event of the app causes. -/
def Event.internal : Event → Bool
  | .microtask | .answer .. | .complete _ => true
  | .wake _ | .connectivity _ | .setForeground _ | .configure _ | .fire _ => false

def State.work (s : State) : Nat :=
  10 * s.pendingWake.toList.length + 11 * s.microtasks.length + (s.runs.map fun r => r.stage.rank).sum

/-- Passes begun, and those that the wakes put off can still cost. -/
def State.passes (s : State) : Nat :=
  begunPasses s.log + s.pendingWake.toList.length + s.microtasks.length

theorem accept_work {s : State} (owned : Owned s) (trigger : WakeTrigger) :
    (s.accept trigger).work ≤ s.work + 10 ∧ (s.accept trigger).passes ≤ s.passes + 1 := by
  unfold State.accept
  split
  · exact ⟨Nat.le_add_right _ _, Nat.le_add_right _ _⟩
  · split
    · simp only [State.work, State.passes, Option.toList_some, List.length_singleton]
      omega
    · rename_i idle
      obtain ⟨none_left, quiet⟩ := owned.idle idle
      simp only [State.work, State.passes, State.startRun, none_left, quiet, Option.toList_none, List.length_nil,
        List.nil_append, List.map_cons, List.map_nil, List.sum_cons, List.sum_nil, Stage.rank, begunPasses_began]
      omega

theorem redeliver_work {s : State} (owned : Owned s) (trigger : WakeTrigger) :
    (s.redeliver trigger).work ≤ s.work + 10 ∧ (s.redeliver trigger).passes ≤ s.passes + 1 := by
  unfold State.redeliver
  split
  · exact accept_work owned trigger
  · exact ⟨Nat.le_add_right _ _, Nat.le_add_right _ _⟩

/-- A step uses up work, and begins no pass that was not put off. -/
structure Spends (s t : State) : Prop where
  work : t.work < s.work
  passes : t.passes ≤ s.passes

theorem microtask_spends {s : State} (owned : Owned s) {trigger : WakeTrigger} {rest : List WakeTrigger}
    (queued : s.microtasks = trigger :: rest) : Spends s ({ s with microtasks := rest }.redeliver trigger) := by
  have waiting : Owned { s with microtasks := rest } := ⟨owned.single, owned.ready⟩
  obtain ⟨work, passes⟩ := redeliver_work waiting trigger
  refine ⟨Nat.lt_of_le_of_lt work ?_, Nat.le_trans passes ?_⟩
  · simp only [State.work, queued, List.length_cons]
    omega
  · simp only [State.passes, queued, List.length_cons]
    omega

theorem complete_spends {s : State} (owned : Owned s) {run : Run}
    (found : s.runs.find? (fun r => r.number = run.number) = some run) (finished : run.stage = .finished) :
    Spends s ({ s with runs := s.runs.filter fun r => r.number ≠ run.number }.complete run.number) := by
  obtain ⟨runs, -, flight⟩ := owned.found found
  have none_left : (s.runs.filter fun r => r.number ≠ run.number) = [] := by simp [runs]
  have rank : (s.runs.map fun r => r.stage.rank).sum = 1 := by simp [runs, finished, Stage.rank]
  unfold State.complete
  simp only [flight, if_true, none_left]
  split
  · rename_i lateWake late
    have idle : Owned { s with inFlight := none, pendingWake := none, runs := [] } := ⟨⟨rfl, rfl⟩, owned.ready⟩
    obtain ⟨work, passes⟩ := redeliver_work idle lateWake
    refine ⟨Nat.lt_of_le_of_lt work ?_, Nat.le_trans passes ?_⟩
    · simp only [State.work, rank, late, Option.toList_some, Option.toList_none, List.length_singleton, List.length_nil,
        List.map_nil, List.sum_nil]
      omega
    · simp only [State.passes, late, Option.toList_some, Option.toList_none, List.length_singleton, List.length_nil]
      omega
  · refine ⟨?_, Nat.le_refl _⟩
    simp only [State.work, rank, List.map_nil, List.sum_nil]
    omega

theorem endPass_spends {s : State} (owned : Owned s) {run next : Run}
    (found : s.runs.find? (fun r => r.number = run.number) = some run) (same : next.number = run.number)
    (waiting : 2 ≤ run.stage.rank) : Spends s (s.endPass next) := by
  obtain ⟨runs, -⟩ := owned.found found
  unfold State.endPass
  simp only
  split
  · rename_i trigger pending
    refine ⟨?_, ?_⟩
    · have first : Stage.rank .reconciling = 8 := rfl
      simp only [State.work, State.withRun, runs, pending, List.map_cons, List.map_nil, same, if_true, List.sum_cons,
        List.sum_nil, Option.toList_some, Option.toList_none, List.length_singleton, List.length_nil, first]
      omega
    · simp only [State.passes, State.withRun, pending, begunPasses_began, begunPasses_ended, Option.toList_some,
        Option.toList_none, List.length_singleton, List.length_nil]
      omega
  · refine ⟨?_, ?_⟩
    · have last : Stage.rank .finished = 1 := rfl
      simp only [State.work, State.withRun, runs, List.map_cons, List.map_nil, same, if_true, List.sum_cons,
        List.sum_nil, last]
      omega
    · simp only [State.passes, State.withRun, begunPasses_ended]
      exact Nat.le_refl _

theorem SameRuns.spends {s t u : State} (same : SameRuns s t) (log : t.log = s.log) (spends : Spends t u) :
    Spends s u := by
  have work : t.work = s.work := by
    simp only [State.work, same.pendingWake, same.microtasks, same.runs]
  have passes : t.passes = s.passes := by
    simp only [State.passes, same.pendingWake, same.microtasks, log]
  exact ⟨work ▸ spends.work, passes ▸ spends.passes⟩

theorem Resumed.spends {s t : State} (owned : Owned s) {run : Run}
    (found : s.runs.find? (fun r => r.number = run.number) = some run) (resumed : Resumed s run t) : Spends s t := by
  obtain ⟨runs, -⟩ := owned.found found
  cases resumed with
  | goesOn next same honest rank =>
      refine ⟨?_, Nat.le_refl _⟩
      simp only [State.work, owned.runs_withRun found same, runs, List.map_cons, List.map_nil, List.sum_cons,
        List.sum_nil]
      exact Nat.add_lt_add_left rank _
  | retries next now same rank =>
      have scheduled := sameRuns_scheduleRetry s now
      apply scheduled.spends (scheduleRetry_kept s now).1
      refine endPass_spends (scheduled.owned owned) ?_ same rank
      rw [scheduled.runs]
      exact found
  | ends streak calm rank =>
      have other : SameRuns s { s with failureStreak := streak } := ⟨rfl, rfl, rfl, rfl, rfl, rfl⟩
      apply other.spends rfl
      exact endPass_spends (other.owned owned) found rfl rank

/-- The step lemma. -/
theorem Inv.spends {s t : State} (inv : Inv s) {e : Event} (internal : e.internal = true)
    (done : s.step e = some t) : Spends s t := by
  cases e with
  | wake _ | connectivity _ | setForeground _ | configure _ | fire _ => cases internal
  | microtask =>
      simp only [State.step] at done
      split at done
      · cases done
      · rename_i trigger rest queued
        cases done
        exact microtask_spends inv.owned queued
  | answer number answer enabled now =>
      simp only [State.step] at done
      split at done
      · rename_i run found
        have named := (inv.owned.found found).2.1
        subst named
        exact (resume_resumed (inv.honest run (List.mem_of_find?_eq_some found)) done).spends inv.owned found
      · cases done
  | complete number =>
      simp only [State.step] at done
      split at done
      · rename_i run found
        have named := (inv.owned.found found).2.1
        subst named
        split at done
        · rename_i finished
          cases done
          exact complete_spends inv.owned found finished
        · cases done
      · cases done

/-- No step is left that the app need not cause. -/
def State.AtRest (s : State) : Prop := ∀ e, e.internal = true → s.step e = none

theorem Inv.at_rest {s : State} (inv : Inv s) (rest : s.AtRest) :
    s.runs = [] ∧ s.pendingWake = none ∧ s.microtasks = [] := by
  have quiet : s.microtasks = [] := by
    cases queued : s.microtasks with
    | nil => rfl
    | cons trigger later =>
        have blocked := rest .microtask rfl
        simp only [State.step, queued] at blocked
        cases blocked
  have single := inv.owned.single
  split at single
  · exact ⟨single.1, single.2, quiet⟩
  · obtain ⟨run, runs, -⟩ := single
    have found : s.runs.find? (fun r => r.number = run.number) = some run := by simp [runs]
    -- A run waits at a seam, which can throw, or has finished and can leave.
    by_cases finished : run.stage = .finished
    · have blocked := rest (.complete run.number) rfl
      simp only [State.step, found, finished, if_true] at blocked
      cases blocked
    · have blocked := rest (.answer run.number .threw true 0) rfl
      simp only [State.step, found] at blocked
      cases stage : run.stage with
      | finished => exact absurd stage finished
      | _ => simp [State.resume, stage] at blocked

/-- The run lemma: from every reachable state, what no event of the app causes ends, with at most one pass for each
wake put off; then every wake that was taken has had its pass or the app has left. -/
theorem recovery_comes_to_rest {s t : State} {events : List Event} (reached : Reached s)
    (internal : ∀ e ∈ events, e.internal = true) (run : events.foldlM State.step s = some t) :
    events.length + t.work ≤ s.work ∧ t.passes ≤ s.passes ∧
      (t.AtRest → t.runs = [] ∧ (t.configured = true → ∀ newer trigger older,
        t.log = newer ++ .woken trigger :: older → ∃ e ∈ newer, Answers e trigger)) := by
  have inv := reached.inv
  clear reached
  induction events generalizing s with
  | nil =>
      cases run
      refine ⟨Nat.le_of_eq (Nat.zero_add _), Nat.le_refl _, fun rest => ?_⟩
      obtain ⟨runs, pending, microtasks⟩ := inv.at_rest rest
      refine ⟨runs, fun configured newer trigger older split => ?_⟩
      rcases inv.recovers.answered newer trigger older split with answered | ⟨_, w, waits, _⟩
      · exact answered
      · rw [pending, microtasks, inv.owned.ready configured] at waits
        simp at waits
  | cons e events ih =>
      rw [List.foldlM_cons] at run
      obtain ⟨u, first, later⟩ := Option.bind_eq_some_iff.mp run
      have spends := inv.spends (internal e List.mem_cons_self) first
      obtain ⟨work, passes, rest⟩ :=
        ih (fun e member => internal e (List.mem_cons_of_mem _ member)) later (inv.step e first)
      refine ⟨?_, Nat.le_trans passes spends.passes, rest⟩
      have less := spends.work
      rw [List.length_cons]
      omega

theorem sampleSettled_rests :
    sampleAnswers.length ≤ sampleWoken.work ∧ sampleSettled.passes ≤ sampleWoken.passes ∧
      ∀ newer trigger older, sampleSettled.log = newer ++ .woken trigger :: older → ∃ e ∈ newer, Answers e trigger := by
  obtain ⟨work, passes, rests⟩ := @recovery_comes_to_rest sampleWoken sampleSettled sampleAnswers sampleWoken_reached (by decide)
    (show sampleAnswers.foldlM State.step sampleWoken = some sampleSettled from rfl)
  refine ⟨Nat.le_trans (Nat.le_add_right _ _) work, passes, (rests ?_).2 rfl⟩
  intro e internal
  cases e with
  | wake _ | connectivity _ | setForeground _ | configure _ | fire _ => cases internal
  | microtask | answer _ _ _ _ | complete _ => rfl

end OmiLocal.Wals.Transfer
