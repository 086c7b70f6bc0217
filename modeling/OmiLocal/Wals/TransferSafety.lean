import OmiLocal.Wals.TransferCoordinator
import OmiLocal.Lib.Obligations

/-!
# One owner of recovery, and no wake or failure forgotten

At most one pass runs at a time. A wake taken in the foreground is answered by a
pass that begins after it, a retry of the user by a pass of the user's, unless
the app leaves the foreground first; a pass that ends in trouble in the
foreground leaves a timer that will wake the coordinator.
-/
namespace OmiLocal.Wals.Transfer

open Lib.Transition Lib.Obligations

/-! ## The single run -/

structure Owned (s : State) : Prop where
  single : match s.inFlight with
    | none => s.runs = [] ∧ s.pendingWake = none
    | some number => ∃ run, s.runs = [run] ∧ run.number = number
  ready : s.configured = true → s.wakeBeforeConfigured = none

theorem Owned.idle {s : State} (owned : Owned s) (idle : s.inFlight = none) :
    s.runs = [] ∧ s.pendingWake = none := by
  have single := owned.single
  rwa [idle] at single

theorem Owned.length_le {s : State} (owned : Owned s) : s.runs.length ≤ 1 := by
  have single := owned.single
  split at single
  · rw [single.1]
    exact Nat.zero_le 1
  · obtain ⟨run, runs, -⟩ := single
    rw [runs]
    exact Nat.le_refl 1

theorem Owned.found {s : State} (owned : Owned s) {number : Nat} {run : Run}
    (found : s.runs.find? (fun r => r.number = number) = some run) :
    s.runs = [run] ∧ run.number = number ∧ s.inFlight = some number := by
  have named : run.number = number := by simpa using List.find?_some found
  have member := List.mem_of_find?_eq_some found
  have single := owned.single
  split at single
  · rw [single.1] at member
    cases member
  · rename_i other flight
    obtain ⟨only, runs, same⟩ := single
    rw [runs, List.mem_singleton] at member
    subst member
    exact ⟨runs, named, by rw [flight, ← same, named]⟩

theorem Owned.startRun {s : State} (owned : Owned s) (idle : s.inFlight = none) (trigger : WakeTrigger) :
    Owned (s.startRun trigger) where
  single := ⟨_, by rw [State.startRun, (owned.idle idle).1, List.nil_append], rfl⟩
  ready := owned.ready

theorem Owned.accept {s : State} (owned : Owned s) (trigger : WakeTrigger) : Owned (s.accept trigger) := by
  unfold State.accept
  split
  · rename_i unconfigured
    exact ⟨owned.single, fun configured => absurd configured (by simp [unconfigured])⟩
  · split
    · rename_i number flight
      refine ⟨?_, owned.ready⟩
      have single := owned.single
      rw [flight] at single
      simp only [flight]
      exact single
    · rename_i idle
      exact owned.startRun idle trigger

theorem Owned.redeliver {s : State} (owned : Owned s) (trigger : WakeTrigger) : Owned (s.redeliver trigger) := by
  unfold State.redeliver
  split
  · exact owned.accept trigger
  · exact owned

theorem Owned.wake {s : State} (owned : Owned s) (trigger : WakeTrigger) : Owned (s.wake trigger) := by
  unfold State.wake
  split
  · apply Owned.accept
    exact ⟨owned.single, owned.ready⟩
  · exact owned

/-- A finished run that leaves takes the number of the run in flight with it. -/
theorem Owned.complete {s : State} {run : Run} (owned : Owned s)
    (found : s.runs.find? (fun r => r.number = run.number) = some run) :
    Owned ({ s with runs := s.runs.filter fun r => r.number ≠ run.number }.complete run.number) := by
  obtain ⟨runs, -, flight⟩ := owned.found found
  have none_left : (s.runs.filter fun r => r.number ≠ run.number) = [] := by simp [runs]
  unfold State.complete
  simp only [flight, if_true, none_left]
  split
  · apply Owned.redeliver
    exact ⟨⟨rfl, rfl⟩, owned.ready⟩
  · rename_i quiet
    exact ⟨⟨rfl, quiet⟩, owned.ready⟩

theorem Owned.runs_withRun {s : State} {run next : Run} (owned : Owned s)
    (found : s.runs.find? (fun r => r.number = run.number) = some run) (same : next.number = run.number) :
    (s.withRun next).runs = [next] := by
  obtain ⟨runs, -⟩ := owned.found found
  simp [State.withRun, runs, same]

theorem Owned.withRun {s : State} {run next : Run} (owned : Owned s)
    (found : s.runs.find? (fun r => r.number = run.number) = some run) (same : next.number = run.number) :
    Owned (s.withRun next) := by
  obtain ⟨-, -, flight⟩ := owned.found found
  refine ⟨?_, owned.ready⟩
  have inFlight : (s.withRun next).inFlight = some run.number := flight
  rw [inFlight]
  exact ⟨next, owned.runs_withRun found same, same⟩

/-- What decides about the runs and the wakes put off. -/
structure SameRuns (s t : State) : Prop where
  inFlight : t.inFlight = s.inFlight
  pendingWake : t.pendingWake = s.pendingWake
  wakeBeforeConfigured : t.wakeBeforeConfigured = s.wakeBeforeConfigured
  microtasks : t.microtasks = s.microtasks
  configured : t.configured = s.configured
  runs : t.runs = s.runs

theorem SameRuns.owned {s t : State} (same : SameRuns s t) (owned : Owned s) : Owned t := by
  refine ⟨?_, ?_⟩
  · rw [same.inFlight, same.runs, same.pendingWake]
    exact owned.single
  · rw [same.configured, same.wakeBeforeConfigured]
    exact owned.ready

theorem sameRuns_cancelTimer (s : State) : SameRuns s s.cancelTimer := by
  unfold State.cancelTimer
  split <;> exact ⟨rfl, rfl, rfl, rfl, rfl, rfl⟩

theorem sameRuns_scheduleRetry (s : State) (now : Int) : SameRuns s (s.scheduleRetry now) := by
  unfold State.scheduleRetry
  split
  · have same := sameRuns_cancelTimer s
    exact ⟨same.inFlight, same.pendingWake, same.wakeBeforeConfigured, same.microtasks, same.configured, same.runs⟩
  · exact ⟨rfl, rfl, rfl, rfl, rfl, rfl⟩

theorem sameRuns_setForeground (s : State) (isForeground : Bool) : SameRuns s (s.setForeground isForeground) := by
  unfold State.setForeground
  split
  · exact ⟨rfl, rfl, rfl, rfl, rfl, rfl⟩
  · have same := sameRuns_cancelTimer s
    exact ⟨same.inFlight, same.pendingWake, same.wakeBeforeConfigured, same.microtasks, same.configured, same.runs⟩

theorem Owned.endPass {s : State} {run next : Run} (owned : Owned s)
    (found : s.runs.find? (fun r => r.number = run.number) = some run) (same : next.number = run.number) :
    Owned (s.endPass next) := by
  obtain ⟨runs, -, flight⟩ := owned.found found
  unfold State.endPass
  simp only
  split
  · refine Owned.withRun ⟨?_, owned.ready⟩ found same
    simp only [flight]
    exact ⟨run, runs, rfl⟩
  · exact Owned.withRun ⟨owned.single, owned.ready⟩ found same

/-! ## What a pass does at each of its awaits -/

/-- Steps that a run still has before it, at most. -/
def Stage.rank : Stage → Nat
  | .reconciling => 8
  | .discovering _ => 7
  | .refreshing _ => 6
  | .draining _ => 5
  | .drained .. => 4
  | .reconcilingAgain .. => 3
  | .refreshingAgain .. => 2
  | .finished => 1

/-- The locals of a run know of all the trouble that it had. -/
def Run.Honest (run : Run) : Prop :=
  match run.stage with
  | .reconciling => run.troubled = false
  | .discovering failed | .refreshing failed | .draining failed => run.troubled = failed
  | .drained failed result | .reconcilingAgain failed result | .refreshingAgain failed result =>
      run.troubled = (failed || result.failed || result.contended)
  | .finished => True

inductive Resumed (s : State) (run : Run) : State → Prop
  | goesOn (next : Run) : next.number = run.number → next.Honest → next.stage.rank < run.stage.rank →
      Resumed s run (s.withRun next)
  | retries (next : Run) (now : Int) : next.number = run.number → 2 ≤ run.stage.rank →
      Resumed s run ((s.scheduleRetry now).endPass next)
  | ends (streak : Nat) : run.troubled = false → 2 ≤ run.stage.rank →
      Resumed s run ({ s with failureStreak := streak }.endPass run)

theorem settleDrain_resumed {s : State} {run : Run} {failed : Bool} {result : DrainResult}
    (honest : run.troubled = (failed || result.failed || result.contended)) (waiting : 2 ≤ run.stage.rank)
    (now : Int) : Resumed s run (s.settleDrain run failed result now) := by
  unfold State.settleDrain
  split
  · exact .retries run now rfl waiting
  · rename_i calm
    simp only [not_or, Bool.not_eq_true] at calm
    exact .ends 0 (by rw [honest, calm.1, calm.2.1, calm.2.2]; rfl) waiting

theorem resume_resumed {s t : State} {run : Run} {answer : Answer} {enabled : Bool} {now : Int}
    (honest : run.Honest) (done : s.resume run answer enabled now = some t) : Resumed s run t := by
  rcases run with ⟨number, trigger, stage, troubled⟩
  cases stage with
  | reconciling =>
      cases answer <;> simp only [State.resume, Option.some.injEq, reduceCtorEq] at done <;> subst done
      · exact .goesOn _ rfl honest (by simp [Stage.rank])
      · exact .goesOn _ rfl rfl (by simp [Stage.rank])
  | discovering failed =>
      cases answer <;> simp only [State.resume, Option.some.injEq, reduceCtorEq] at done <;> subst done
      · exact .goesOn _ rfl honest (by simp [Stage.rank])
      · exact .retries _ now rfl (by simp [Stage.rank])
  | refreshing failed =>
      cases answer with
      | drained result => cases done
      | threw =>
          cases done
          exact .retries _ now rfl (by simp [Stage.rank])
      | returned =>
          simp only [State.resume] at done
          split at done
          · cases done
            exact .goesOn _ rfl honest (by simp [Stage.rank])
          split at done
          · cases done
            exact .retries _ now rfl (by simp [Stage.rank])
          · rename_i calm
            cases done
            exact .ends s.failureStreak (honest.trans (by simpa using calm)) (by simp [Stage.rank])
  | draining failed =>
      cases answer <;> simp only [State.resume, Option.some.injEq, reduceCtorEq] at done <;> subst done
      · refine .goesOn _ rfl ?_ (by simp [Stage.rank])
        change (troubled || _ || _) = (failed || _ || _)
        rw [show troubled = failed from honest]
      · exact .retries _ now rfl (by simp [Stage.rank])
  | drained failed result =>
      cases answer with
      | drained other => cases done
      | threw =>
          cases done
          exact .retries _ now rfl (by simp [Stage.rank])
      | returned =>
          simp only [State.resume] at done
          split at done
          · cases done
            exact .goesOn _ rfl honest (by simp [Stage.rank])
          · cases done
            exact settleDrain_resumed honest (by simp [Stage.rank]) now
  | reconcilingAgain failed result =>
      cases answer <;> simp only [State.resume, Option.some.injEq, reduceCtorEq] at done <;> subst done
      · exact .goesOn _ rfl honest (by simp [Stage.rank])
      · exact .goesOn _ rfl rfl (by simp [Stage.rank])
  | refreshingAgain failed result =>
      cases answer <;> simp only [State.resume, Option.some.injEq, reduceCtorEq] at done <;> subst done
      · exact settleDrain_resumed honest (by simp [Stage.rank]) now
      · exact .retries _ now rfl (by simp [Stage.rank])
  | finished => cases answer <;> cases done

/-! ## Wakes -/

/-- A pass for `w` does what a wake for `o` asked for: only the user's own retry uploads in spite of the settings. -/
def Covers (w o : WakeTrigger) : Prop := o = .userRetry → w = .userRetry

theorem covers_preferWake_new {existing : Option WakeTrigger} {incoming o : WakeTrigger}
    (covers : Covers incoming o) : Covers (preferWake existing incoming) o := by
  intro retry
  have user := covers retry
  unfold preferWake
  split
  · rename_i kept
    rcases kept with kept | other
    · rw [kept]
      rfl
    · exact absurd user other
  · exact user

theorem covers_preferWake_old {w incoming o : WakeTrigger} (covers : Covers w o) :
    Covers (preferWake (some w) incoming) o := by
  intro retry
  rw [covers retry]
  rfl

/-- A wake that does what `o` asked for is put off and will be looked at again. -/
def State.Waits (s : State) (o : WakeTrigger) : Prop :=
  ∃ w, (s.pendingWake = some w ∨ w ∈ s.microtasks ∨ s.wakeBeforeConfigured = some w) ∧ Covers w o

/-- A later pass that covers the wake, or the app's leaving, after which the next foreground wake recovers. -/
def Answers (e : Entry) (o : WakeTrigger) : Prop :=
  e = .left ∨ ∃ w, e = .began w ∧ Covers w o

def Wakes (inHand : WakeTrigger → Prop) (log : List Entry) : Prop :=
  Kept (fun e o => e = .woken o) Answers inHand log

def State.Remembers (s : State) (o : WakeTrigger) : Prop := s.foreground = true ∧ s.Waits o

theorem accept_wakes {s : State} (owned : Owned s) (foreground : s.foreground = true) {trigger : WakeTrigger}
    (kept : Wakes (fun o => s.Waits o ∨ Covers trigger o) s.log) :
    Wakes (s.accept trigger).Remembers (s.accept trigger).log := by
  unfold State.accept
  split
  · apply Kept.mono kept
    rintro o (⟨w, waits, covers⟩ | covers)
    · rcases waits with pending | task | early
      · exact ⟨foreground, w, .inl pending, covers⟩
      · exact ⟨foreground, w, .inr (.inl task), covers⟩
      · exact ⟨foreground, _, .inr (.inr rfl), early ▸ covers_preferWake_old covers⟩
    · exact ⟨foreground, _, .inr (.inr rfl), covers_preferWake_new covers⟩
  · split
    · apply Kept.mono kept
      rintro o (⟨w, waits, covers⟩ | covers)
      · rcases waits with pending | task | early
        · exact ⟨foreground, _, .inl rfl, pending ▸ covers_preferWake_old covers⟩
        · exact ⟨foreground, w, .inr (.inl task), covers⟩
        · exact ⟨foreground, w, .inr (.inr early), covers⟩
      · exact ⟨foreground, _, .inl rfl, covers_preferWake_new covers⟩
    · rename_i idle
      apply Kept.silent kept
      · intro o woken
        cases woken
      · rintro o (⟨w, waits, covers⟩ | covers)
        · rcases waits with pending | task | early
          · rw [(owned.idle idle).2] at pending
            cases pending
          · exact .inr ⟨foreground, w, .inr (.inl task), covers⟩
          · exact .inr ⟨foreground, w, .inr (.inr early), covers⟩
        · exact .inl (.inr ⟨trigger, rfl, covers⟩)

theorem wake_wakes {s : State} (owned : Owned s) (kept : Wakes s.Remembers s.log) (trigger : WakeTrigger) :
    Wakes (s.wake trigger).Remembers (s.wake trigger).log := by
  unfold State.wake
  split
  · rename_i foreground
    have waiting : Owned { s with log := .woken trigger :: s.log } := ⟨owned.single, owned.ready⟩
    apply accept_wakes waiting foreground
    apply Kept.cons kept
    · intro o woken
      cases woken
      exact .inr fun retry => retry
    · intro o remembered
      exact .inr (.inl remembered.2)
  · exact kept

theorem redeliver_wakes {s : State} (owned : Owned s) {trigger : WakeTrigger}
    (kept : Wakes (fun o => s.foreground = true ∧ (s.Waits o ∨ Covers trigger o)) s.log) :
    Wakes (s.redeliver trigger).Remembers (s.redeliver trigger).log := by
  unfold State.redeliver
  split
  · rename_i foreground
    exact accept_wakes owned foreground (kept.mono fun o hand => hand.2)
  · rename_i away
    exact kept.mono fun o hand => absurd hand.1 away

theorem complete_wakes {s : State} {run : Run} (owned : Owned s)
    (found : s.runs.find? (fun r => r.number = run.number) = some run) (kept : Wakes s.Remembers s.log) :
    let t := { s with runs := s.runs.filter fun r => r.number ≠ run.number }.complete run.number
    Wakes t.Remembers t.log := by
  obtain ⟨runs, -, flight⟩ := owned.found found
  have none_left : (s.runs.filter fun r => r.number ≠ run.number) = [] := by simp [runs]
  unfold State.complete
  simp only [flight, if_true, none_left]
  split
  · rename_i lateWake late
    have idle : Owned { s with inFlight := none, pendingWake := none, runs := [] } := ⟨⟨rfl, rfl⟩, owned.ready⟩
    apply redeliver_wakes idle
    apply Kept.mono kept
    rintro o ⟨foreground, w, waits, covers⟩
    refine ⟨foreground, ?_⟩
    rcases waits with pending | task | early
    · rw [late] at pending
      cases pending
      exact .inr covers
    · exact .inl ⟨w, .inr (.inl task), covers⟩
    · exact .inl ⟨w, .inr (.inr early), covers⟩
  · exact kept

theorem setForeground_wakes {s : State} (kept : Wakes s.Remembers s.log) (isForeground : Bool) :
    Wakes (s.setForeground isForeground).Remembers (s.setForeground isForeground).log := by
  have same := sameRuns_cancelTimer s
  unfold State.setForeground
  split
  · exact kept.mono fun o remembered => ⟨rfl, remembered.2⟩
  · have log : s.cancelTimer.log = s.log := by
      unfold State.cancelTimer
      split <;> rfl
    simp only [log]
    apply Kept.silent kept
    · intro o woken
      cases woken
    · intro o _
      exact .inl (.inl rfl)

theorem configure_wakes {s : State} (kept : Wakes s.Remembers s.log) (initiallyConnected : Bool) :
    Wakes (s.configure initiallyConnected).Remembers (s.configure initiallyConnected).log := by
  apply Kept.mono kept
  rintro o ⟨foreground, w, waits, covers⟩
  refine ⟨foreground, w, ?_, covers⟩
  rcases waits with pending | task | early
  · exact .inl pending
  · exact .inr (.inl (List.mem_append_left _ task))
  · exact .inr (.inl (List.mem_append_right _ (by simp [early])))

theorem scheduleRetry_kept (s : State) (now : Int) :
    (s.scheduleRetry now).log = s.log ∧ (s.scheduleRetry now).foreground = s.foreground := by
  unfold State.scheduleRetry State.cancelTimer
  split
  · split <;> exact ⟨rfl, rfl⟩
  · exact ⟨rfl, rfl⟩

theorem SameRuns.waits {s t : State} (same : SameRuns s t) (o : WakeTrigger) : t.Waits o ↔ s.Waits o := by
  unfold State.Waits
  rw [same.pendingWake, same.microtasks, same.wakeBeforeConfigured]

theorem scheduleRetry_wakes {s : State} (kept : Wakes s.Remembers s.log) (now : Int) :
    Wakes (s.scheduleRetry now).Remembers (s.scheduleRetry now).log := by
  obtain ⟨log, foreground⟩ := scheduleRetry_kept s now
  rw [log]
  apply Kept.mono kept
  intro o remembered
  exact ⟨foreground.trans remembered.1, ((sameRuns_scheduleRetry s now).waits o).mpr remembered.2⟩

theorem endPass_wakes {s : State} (kept : Wakes s.Remembers s.log) (run : Run) :
    Wakes (s.endPass run).Remembers (s.endPass run).log := by
  have ended : Wakes s.Remembers (.ended run.troubled s.foreground :: s.log) := by
    apply Kept.silent kept
    · intro o woken
      cases woken
    · exact fun o remembered => .inr remembered
  unfold State.endPass
  simp only
  split
  · rename_i trigger pendingWake
    apply Kept.silent ended
    · intro o woken
      cases woken
    · rintro o ⟨foreground, w, waits, covers⟩
      rcases waits with pending | task | early
      · rw [pendingWake] at pending
        cases pending
        exact .inl (.inr ⟨trigger, rfl, covers⟩)
      · exact .inr ⟨foreground, w, .inr (.inl task), covers⟩
      · exact .inr ⟨foreground, w, .inr (.inr early), covers⟩
  · exact ended

/-! ## Retries -/

/-- The timer that still counts has its callback waiting. -/
def State.Armed (s : State) : Prop := s.cooldownGeneration ∈ s.scheduled

structure Timers (s : State) : Prop where
  below : ∀ g ∈ s.scheduled, g ≤ s.cooldownGeneration
  distinct : s.scheduled.Nodup
  shown : s.nextCooldownAt.isSome ↔ s.Armed
  away : s.foreground = false → ¬ s.Armed

/-- A pass in trouble asks for a timer, if the app was in the foreground when it ended. -/
def Retries (inHand : Prop) (log : List Entry) : Prop :=
  Kept (fun e (_ : Unit) => e = .ended true true) (fun e _ => e = .left ∨ e = .woken .cooldownElapsed)
    (fun _ => inHand) log

structure SameTimers (s t : State) : Prop where
  foreground : t.foreground = s.foreground
  cooldownGeneration : t.cooldownGeneration = s.cooldownGeneration
  nextCooldownAt : t.nextCooldownAt = s.nextCooldownAt
  scheduled : t.scheduled = s.scheduled

theorem SameTimers.armed {s t : State} (same : SameTimers s t) : t.Armed ↔ s.Armed := by
  unfold State.Armed
  rw [same.cooldownGeneration, same.scheduled]

theorem SameTimers.timers {s t : State} (same : SameTimers s t) (timers : Timers s) : Timers t := by
  refine ⟨?_, ?_, ?_, ?_⟩
  · rw [same.scheduled, same.cooldownGeneration]
    exact timers.below
  · rw [same.scheduled]
    exact timers.distinct
  · rw [same.nextCooldownAt, same.armed]
    exact timers.shown
  · rw [same.foreground, same.armed]
    exact timers.away

theorem SameTimers.trans {s t u : State} (first : SameTimers s t) (second : SameTimers t u) : SameTimers s u where
  foreground := second.foreground.trans first.foreground
  cooldownGeneration := second.cooldownGeneration.trans first.cooldownGeneration
  nextCooldownAt := second.nextCooldownAt.trans first.nextCooldownAt
  scheduled := second.scheduled.trans first.scheduled

theorem accept_timers (s : State) (trigger : WakeTrigger) : SameTimers s (s.accept trigger) := by
  unfold State.accept
  split
  · exact ⟨rfl, rfl, rfl, rfl⟩
  · split <;> exact ⟨rfl, rfl, rfl, rfl⟩

theorem redeliver_timers (s : State) (trigger : WakeTrigger) : SameTimers s (s.redeliver trigger) := by
  unfold State.redeliver
  split
  · exact accept_timers s trigger
  · exact ⟨rfl, rfl, rfl, rfl⟩

theorem wake_timers (s : State) (trigger : WakeTrigger) : SameTimers s (s.wake trigger) := by
  unfold State.wake
  split
  · have logged : SameTimers s { s with log := .woken trigger :: s.log } := ⟨rfl, rfl, rfl, rfl⟩
    exact logged.trans (accept_timers _ trigger)
  · exact ⟨rfl, rfl, rfl, rfl⟩

theorem complete_timers (s : State) (number : Nat) : SameTimers s (s.complete number) := by
  unfold State.complete
  split
  · split
    · have cleared : SameTimers s { s with inFlight := none, pendingWake := none } := ⟨rfl, rfl, rfl, rfl⟩
      exact cleared.trans (redeliver_timers _ _)
    · exact ⟨rfl, rfl, rfl, rfl⟩
  · exact ⟨rfl, rfl, rfl, rfl⟩

theorem endPass_timers (s : State) (run : Run) : SameTimers s (s.endPass run) := by
  unfold State.endPass
  simp only
  split <;> exact ⟨rfl, rfl, rfl, rfl⟩

theorem cancelTimer_scheduled (s : State) : s.cancelTimer.scheduled.Sublist s.scheduled := by
  unfold State.cancelTimer
  split
  · exact List.Sublist.refl _
  · exact List.nil_sublist _

theorem cancelTimer_generation (s : State) :
    s.cancelTimer.cooldownGeneration = s.cooldownGeneration ∧ s.cancelTimer.log = s.log := by
  unfold State.cancelTimer
  split <;> exact ⟨rfl, rfl⟩

theorem scheduleRetry_timers {s : State} (timers : Timers s) (now : Int) : Timers (s.scheduleRetry now) := by
  have sub := cancelTimer_scheduled s
  obtain ⟨generation, -⟩ := cancelTimer_generation s
  have below : ∀ g ∈ s.cancelTimer.scheduled, g ≤ s.cancelTimer.cooldownGeneration := by
    intro g member
    rw [generation]
    exact timers.below g (sub.subset member)
  unfold State.scheduleRetry
  split
  · rename_i foreground
    have armed : s.cancelTimer.cooldownGeneration + 1 ∈
        s.cancelTimer.scheduled ++ [s.cancelTimer.cooldownGeneration + 1] :=
      List.mem_append_right _ List.mem_cons_self
    refine ⟨?_, ?_, ?_, ?_⟩
    · intro g member
      rcases List.mem_append.mp member with old | new
      · exact Nat.le_trans (below g old) (Nat.le_succ _)
      · exact Nat.le_of_eq (List.mem_singleton.mp new)
    · apply List.Nodup.append (timers.distinct.sublist sub) (List.nodup_singleton _)
      intro g old new
      rw [List.mem_singleton.mp new] at old
      exact absurd (below _ old) (Nat.not_succ_le_self _)
    · exact ⟨fun _ => armed, fun _ => rfl⟩
    · intro away
      have same : s.cancelTimer.foreground = s.foreground := by
        unfold State.cancelTimer
        split <;> rfl
      exact absurd (same.symm.trans away) (by simp [foreground])
  · exact timers

theorem scheduleRetry_armed {s : State} (foreground : s.foreground = true) (now : Int) :
    (s.scheduleRetry now).Armed := by
  unfold State.Armed State.scheduleRetry
  rw [if_pos foreground]
  exact List.mem_append_right _ List.mem_cons_self

theorem setForeground_timers {s : State} (timers : Timers s) (isForeground : Bool) :
    Timers (s.setForeground isForeground) := by
  have sub := cancelTimer_scheduled s
  obtain ⟨generation, -⟩ := cancelTimer_generation s
  unfold State.setForeground
  split
  · exact ⟨timers.below, timers.distinct, timers.shown, fun away => absurd away (by simp)⟩
  · have below : ∀ g ∈ s.cancelTimer.scheduled, g ≤ s.cancelTimer.cooldownGeneration := by
      intro g member
      rw [generation]
      exact timers.below g (sub.subset member)
    have disarmed : s.cancelTimer.cooldownGeneration + 1 ∉ s.cancelTimer.scheduled := by
      intro member
      exact absurd (below _ member) (Nat.not_succ_le_self _)
    refine ⟨?_, timers.distinct.sublist sub, ?_, ?_⟩
    · intro g member
      exact Nat.le_trans (below g member) (Nat.le_succ _)
    · exact ⟨fun shown => (by cases shown), fun armed => absurd armed disarmed⟩
    · exact fun _ => disarmed

theorem fire_timers {s : State} (timers : Timers s) (generation : Nat) : Timers (s.fire generation) := by
  have below : ∀ g ∈ s.scheduled.erase generation, g ≤ s.cooldownGeneration :=
    fun g member => timers.below g (List.mem_of_mem_erase member)
  have distinct := timers.distinct.erase generation
  unfold State.fire
  simp only
  split
  · rename_i stale
    have kept : s.cooldownGeneration ∈ s.scheduled.erase generation ↔ s.Armed := by
      rcases stale with away | old
      · constructor
        · exact List.mem_of_mem_erase
        · exact fun armed => absurd armed (timers.away away)
      · exact List.mem_erase_of_ne (Ne.symm old)
    refine ⟨below, distinct, timers.shown.trans kept.symm, ?_⟩
    intro away armed
    exact timers.away away (kept.mp armed)
  · rename_i current
    simp only [not_or, Bool.not_eq_false, Decidable.not_not] at current
    apply (wake_timers _ _).timers
    have disarmed : s.cooldownGeneration ∉ s.scheduled.erase generation := by
      rw [current.2]
      exact timers.distinct.not_mem_erase
    exact ⟨below, distinct, ⟨fun shown => (by cases shown), fun armed => absurd armed disarmed⟩, fun _ => disarmed⟩

theorem accept_retries {s : State} {inHand : Prop} (kept : Retries inHand s.log) (trigger : WakeTrigger) :
    Retries inHand (s.accept trigger).log := by
  unfold State.accept
  split
  · exact kept
  · split
    · exact kept
    · apply Kept.silent kept
      · intro _ ended
        cases ended
      · exact fun _ hand => .inr hand

theorem redeliver_retries {s : State} {inHand : Prop} (kept : Retries inHand s.log) (trigger : WakeTrigger) :
    Retries inHand (s.redeliver trigger).log := by
  unfold State.redeliver
  split
  · exact accept_retries kept trigger
  · exact kept

theorem wake_retries {s : State} {before after : Prop} (kept : Retries before s.log)
    (foreground : s.foreground = true) {trigger : WakeTrigger}
    (passed : before → trigger = .cooldownElapsed ∨ after) : Retries after (s.wake trigger).log := by
  unfold State.wake
  rw [if_pos foreground]
  apply accept_retries
  apply Kept.silent kept
  · intro _ ended
    cases ended
  · intro _ hand
    rcases passed hand with elapsed | hand
    · exact .inl (.inr (by rw [elapsed]))
    · exact .inr hand

theorem wake_retries_same {s : State} (kept : Retries s.Armed s.log) (trigger : WakeTrigger) :
    Retries (s.wake trigger).Armed (s.wake trigger).log := by
  rw [propext (wake_timers s trigger).armed]
  by_cases foreground : s.foreground = true
  · exact wake_retries kept foreground .inr
  · unfold State.wake
    rw [if_neg foreground]
    exact kept

theorem fire_retries {s : State} (timers : Timers s) (kept : Retries s.Armed s.log) (generation : Nat) :
    Retries (s.fire generation).Armed (s.fire generation).log := by
  unfold State.fire
  simp only
  split
  · rename_i stale
    apply Kept.mono kept
    intro _ armed
    rcases stale with away | old
    · exact absurd armed (timers.away away)
    · exact (List.mem_erase_of_ne (Ne.symm old)).mpr armed
  · rename_i current
    simp only [not_or, Bool.not_eq_false] at current
    have quiet : Retries s.Armed
        { s with scheduled := s.scheduled.erase generation, nextCooldownAt := none }.log := kept
    exact wake_retries quiet current.1 fun _ => .inl rfl

theorem complete_retries {s : State} {inHand : Prop} (kept : Retries inHand s.log) (number : Nat) :
    Retries inHand (s.complete number).log := by
  unfold State.complete
  split
  · split
    · apply redeliver_retries
      exact kept
    · exact kept
  · exact kept

theorem setForeground_retries {s : State} (kept : Retries s.Armed s.log) (isForeground : Bool) :
    Retries (s.setForeground isForeground).Armed (s.setForeground isForeground).log := by
  unfold State.setForeground
  split
  · exact kept
  · simp only [(cancelTimer_generation s).2]
    apply Kept.silent kept
    · intro _ ended
      cases ended
    · exact fun _ _ => .inl (.inl rfl)

theorem scheduleRetry_retries {s : State} (kept : Retries s.Armed s.log) (now : Int) :
    Retries (s.scheduleRetry now).Armed (s.scheduleRetry now).log := by
  rw [(scheduleRetry_kept s now).1]
  by_cases foreground : s.foreground = true
  · exact kept.mono fun _ _ => scheduleRetry_armed foreground now
  · unfold State.scheduleRetry
    rw [if_neg foreground]
    exact kept

theorem endPass_retries {s : State} {run : Run} (kept : Retries s.Armed s.log)
    (armed : run.troubled = true → s.foreground = true → s.Armed) :
    Retries (s.endPass run).Armed (s.endPass run).log := by
  rw [propext (endPass_timers s run).armed]
  have ended : Retries s.Armed (.ended run.troubled s.foreground :: s.log) := by
    apply Kept.cons kept
    · intro _ ended
      injection ended with troubled foreground
      exact armed troubled foreground
    · exact fun _ hand => .inr hand
  unfold State.endPass
  simp only
  split
  · apply Kept.silent ended
    · intro _ began
      cases began
    · exact fun _ hand => .inr hand
  · exact ended

/-! ## Passes against wakes -/

def begunPasses (log : List Entry) : Nat := log.countP fun e => match e with | .began _ => true | _ => false
def takenWakes (log : List Entry) : Nat := log.countP fun e => match e with | .woken _ => true | _ => false

/-- Wakes that may still start a pass of their own. -/
def State.putOff (s : State) : Nat :=
  s.pendingWake.toList.length + s.microtasks.length + s.wakeBeforeConfigured.toList.length

@[simp] theorem begunPasses_began (trigger : WakeTrigger) (log : List Entry) :
    begunPasses (.began trigger :: log) = begunPasses log + 1 := by
  simp [begunPasses]

@[simp] theorem begunPasses_woken (trigger : WakeTrigger) (log : List Entry) :
    begunPasses (.woken trigger :: log) = begunPasses log := by
  simp [begunPasses]

@[simp] theorem begunPasses_ended (troubled foreground : Bool) (log : List Entry) :
    begunPasses (.ended troubled foreground :: log) = begunPasses log := by
  simp [begunPasses]

@[simp] theorem begunPasses_left (log : List Entry) : begunPasses (.left :: log) = begunPasses log := by
  simp [begunPasses]

@[simp] theorem takenWakes_began (trigger : WakeTrigger) (log : List Entry) :
    takenWakes (.began trigger :: log) = takenWakes log := by
  simp [takenWakes]

@[simp] theorem takenWakes_woken (trigger : WakeTrigger) (log : List Entry) :
    takenWakes (.woken trigger :: log) = takenWakes log + 1 := by
  simp [takenWakes]

@[simp] theorem takenWakes_ended (troubled foreground : Bool) (log : List Entry) :
    takenWakes (.ended troubled foreground :: log) = takenWakes log := by
  simp [takenWakes]

@[simp] theorem takenWakes_left (log : List Entry) : takenWakes (.left :: log) = takenWakes log := by
  simp [takenWakes]

theorem accept_counts (s : State) (trigger : WakeTrigger) :
    begunPasses (s.accept trigger).log + (s.accept trigger).putOff ≤ begunPasses s.log + s.putOff + 1 ∧
      takenWakes (s.accept trigger).log = takenWakes s.log := by
  unfold State.accept State.putOff
  split
  · refine ⟨?_, rfl⟩
    simp only [Option.toList_some, List.length_singleton]
    omega
  · split
    · refine ⟨?_, rfl⟩
      simp only [Option.toList_some, List.length_singleton]
      omega
    · refine ⟨?_, takenWakes_began _ _⟩
      simp only [State.startRun, begunPasses_began, Option.toList_none, List.length_nil]
      omega

theorem redeliver_counts (s : State) (trigger : WakeTrigger) :
    begunPasses (s.redeliver trigger).log + (s.redeliver trigger).putOff ≤ begunPasses s.log + s.putOff + 1 ∧
      takenWakes (s.redeliver trigger).log = takenWakes s.log := by
  unfold State.redeliver
  split
  · exact accept_counts s trigger
  · exact ⟨Nat.le_succ _, rfl⟩

/-- Every pass is paid for by a wake of its own. -/
def State.Paid (s : State) : Prop := begunPasses s.log + s.putOff ≤ takenWakes s.log

theorem wake_paid {s : State} (paid : s.Paid) (trigger : WakeTrigger) : (s.wake trigger).Paid := by
  unfold State.wake
  split
  · obtain ⟨begun, taken⟩ := accept_counts { s with log := .woken trigger :: s.log } trigger
    rw [begunPasses_woken] at begun
    rw [takenWakes_woken] at taken
    have before : begunPasses s.log + s.putOff ≤ takenWakes s.log := paid
    unfold State.Paid
    rw [taken]
    exact Nat.le_trans begun (Nat.succ_le_succ before)
  · exact paid

theorem complete_paid {s : State} (paid : s.Paid) (number : Nat) : (s.complete number).Paid := by
  unfold State.complete
  split
  · split
    · rename_i lateWake late
      obtain ⟨begun, taken⟩ := redeliver_counts { s with inFlight := none, pendingWake := none } lateWake
      have before : begunPasses s.log + s.putOff ≤ takenWakes s.log := paid
      unfold State.Paid
      rw [taken]
      refine Nat.le_trans begun (Nat.le_trans (Nat.le_of_eq ?_) before)
      simp only [State.putOff, late, Option.toList_some, Option.toList_none, List.length_singleton, List.length_nil]
      omega
    · exact paid
  · exact paid

theorem endPass_paid {s : State} (paid : s.Paid) (run : Run) : (s.endPass run).Paid := by
  have before : begunPasses s.log + s.putOff ≤ takenWakes s.log := paid
  unfold State.endPass State.Paid
  simp only
  split
  · rename_i trigger pending
    simp only [State.putOff, pending, Option.toList_some, List.length_singleton] at before
    simp only [State.withRun, State.putOff, begunPasses_began, begunPasses_ended, takenWakes_began, takenWakes_ended,
      Option.toList_none, List.length_nil]
    omega
  · simp only [State.withRun, begunPasses_ended, takenWakes_ended]
    exact before

theorem SameRuns.paid {s t : State} (same : SameRuns s t) (begun : begunPasses t.log = begunPasses s.log)
    (taken : takenWakes t.log = takenWakes s.log) (paid : s.Paid) : t.Paid := by
  unfold State.Paid State.putOff at paid ⊢
  rw [begun, taken, same.pendingWake, same.microtasks, same.wakeBeforeConfigured]
  exact paid

/-! ## Runs -/

structure Inv (s : State) : Prop where
  owned : Owned s
  honest : ∀ run ∈ s.runs, run.Honest
  wakes : Wakes s.Remembers s.log
  timers : Timers s
  retries : Retries s.Armed s.log
  paid : s.Paid

theorem Inv.fresh (injected listening configured connected : Bool) :
    Inv (fresh injected listening configured connected) where
  owned := ⟨⟨rfl, rfl⟩, fun _ => rfl⟩
  honest := by
    intro run member
    cases member
  wakes := Kept.nil
  timers := by
    refine ⟨?_, List.nodup_nil, ⟨fun shown => (by cases shown), fun armed => (by cases armed)⟩, fun _ armed => (by cases armed)⟩
    intro g member
    cases member
  retries := Kept.nil
  paid := Nat.le_refl 0

theorem accept_honest {s : State} (honest : ∀ run ∈ s.runs, run.Honest) (trigger : WakeTrigger) :
    ∀ run ∈ (s.accept trigger).runs, run.Honest := by
  unfold State.accept
  split
  · exact honest
  · split
    · exact honest
    · intro run member
      rcases List.mem_append.mp member with old | new
      · exact honest run old
      · rw [List.mem_singleton.mp new]
        rfl

theorem redeliver_honest {s : State} (honest : ∀ run ∈ s.runs, run.Honest) (trigger : WakeTrigger) :
    ∀ run ∈ (s.redeliver trigger).runs, run.Honest := by
  unfold State.redeliver
  split
  · exact accept_honest honest trigger
  · exact honest

theorem wake_honest {s : State} (honest : ∀ run ∈ s.runs, run.Honest) (trigger : WakeTrigger) :
    ∀ run ∈ (s.wake trigger).runs, run.Honest := by
  unfold State.wake
  split
  · apply accept_honest
    exact honest
  · exact honest

theorem Inv.wake {s : State} (inv : Inv s) (trigger : WakeTrigger) : Inv (s.wake trigger) where
  owned := inv.owned.wake trigger
  honest := wake_honest inv.honest trigger
  wakes := wake_wakes inv.owned inv.wakes trigger
  timers := (wake_timers s trigger).timers inv.timers
  retries := wake_retries_same inv.retries trigger
  paid := wake_paid inv.paid trigger

theorem Inv.fire {s : State} (inv : Inv s) (generation : Nat) : Inv (s.fire generation) := by
  have timers := fire_timers inv.timers generation
  have retries := fire_retries inv.timers inv.retries generation
  unfold State.fire at timers retries ⊢
  simp only at timers retries ⊢
  split at timers
  · rename_i stale
    rw [if_pos stale] at retries ⊢
    exact ⟨⟨inv.owned.single, inv.owned.ready⟩, inv.honest, inv.wakes, timers, retries, inv.paid⟩
  · rename_i current
    rw [if_neg current] at retries ⊢
    have owned : Owned { s with scheduled := s.scheduled.erase generation, nextCooldownAt := none } :=
      ⟨inv.owned.single, inv.owned.ready⟩
    refine ⟨owned.wake _, wake_honest ?_ _, wake_wakes owned inv.wakes _, timers, retries, ?_⟩
    · exact inv.honest
    · apply wake_paid
      exact inv.paid

theorem Inv.setForeground {s : State} (inv : Inv s) (isForeground : Bool) : Inv (s.setForeground isForeground) := by
  have same := sameRuns_setForeground s isForeground
  refine ⟨same.owned inv.owned, ?_, setForeground_wakes inv.wakes isForeground,
    setForeground_timers inv.timers isForeground, setForeground_retries inv.retries isForeground, ?_⟩
  · rw [same.runs]
    exact inv.honest
  · have counts : begunPasses (s.setForeground isForeground).log = begunPasses s.log ∧
        takenWakes (s.setForeground isForeground).log = takenWakes s.log := by
      unfold State.setForeground
      split
      · exact ⟨rfl, rfl⟩
      · simp only [(cancelTimer_generation s).2, begunPasses_left, takenWakes_left, and_self]
    exact same.paid counts.1 counts.2 inv.paid

theorem Inv.configure {s : State} (inv : Inv s) (initiallyConnected : Bool) : Inv (s.configure initiallyConnected) where
  owned := ⟨inv.owned.single, fun _ => rfl⟩
  honest := inv.honest
  wakes := configure_wakes inv.wakes initiallyConnected
  timers := ⟨inv.timers.below, inv.timers.distinct, inv.timers.shown, inv.timers.away⟩
  retries := inv.retries
  paid := by
    have paid := inv.paid
    unfold State.Paid State.putOff at paid ⊢
    simp only [State.configure, List.length_append, Option.toList_none, List.length_nil]
    omega

theorem Inv.connectivityChanged {s : State} (inv : Inv s) (isConnected : Bool) :
    Inv (s.connectivityChanged isConnected) := by
  have changed : Inv { s with wasConnected := isConnected } :=
    ⟨⟨inv.owned.single, inv.owned.ready⟩, inv.honest, inv.wakes,
      ⟨inv.timers.below, inv.timers.distinct, inv.timers.shown, inv.timers.away⟩, inv.retries, inv.paid⟩
  unfold State.connectivityChanged
  simp only
  split
  · exact changed.wake _
  · exact changed

theorem Inv.microtask {s : State} (inv : Inv s) {trigger : WakeTrigger} {rest : List WakeTrigger}
    (queued : s.microtasks = trigger :: rest) : Inv ({ s with microtasks := rest }.redeliver trigger) := by
  have owned : Owned { s with microtasks := rest } := ⟨inv.owned.single, inv.owned.ready⟩
  refine ⟨owned.redeliver trigger, ?_, redeliver_wakes owned ?_, ?_, ?_, ?_⟩
  · apply redeliver_honest
    exact inv.honest
  · apply Kept.mono inv.wakes
    rintro o ⟨foreground, w, waits, covers⟩
    refine ⟨foreground, ?_⟩
    rcases waits with pending | task | early
    · exact .inl ⟨w, .inl pending, covers⟩
    · rw [queued] at task
      rcases List.mem_cons.mp task with rfl | later
      · exact .inr covers
      · exact .inl ⟨w, .inr (.inl later), covers⟩
    · exact .inl ⟨w, .inr (.inr early), covers⟩
  · apply (redeliver_timers _ trigger).timers
    exact ⟨inv.timers.below, inv.timers.distinct, inv.timers.shown, inv.timers.away⟩
  · rw [propext (redeliver_timers _ trigger).armed]
    apply redeliver_retries
    exact inv.retries
  · obtain ⟨begun, taken⟩ := redeliver_counts { s with microtasks := rest } trigger
    have before := inv.paid
    unfold State.Paid at before ⊢
    rw [taken]
    refine Nat.le_trans begun (Nat.le_trans (Nat.le_of_eq ?_) before)
    simp only [State.putOff, queued, List.length_cons]
    omega

theorem Inv.complete {s : State} (inv : Inv s) {run : Run}
    (found : s.runs.find? (fun r => r.number = run.number) = some run) :
    Inv ({ s with runs := s.runs.filter fun r => r.number ≠ run.number }.complete run.number) := by
  have owned := inv.owned.complete found
  refine ⟨owned, ?_, complete_wakes inv.owned found inv.wakes, ?_, ?_, ?_⟩
  · have few : ∀ r ∈ s.runs.filter (fun r => r.number ≠ run.number), r.Honest := by
      intro r member
      exact inv.honest r (List.mem_of_mem_filter member)
    unfold State.complete
    split
    · split
      · apply redeliver_honest
        exact few
      · exact few
    · exact few
  · apply (complete_timers _ run.number).timers
    exact ⟨inv.timers.below, inv.timers.distinct, inv.timers.shown, inv.timers.away⟩
  · rw [propext (complete_timers _ run.number).armed]
    apply complete_retries
    exact inv.retries
  · apply complete_paid
    exact inv.paid

theorem endPass_honest {s : State} {run next : Run} (owned : Owned s)
    (found : s.runs.find? (fun r => r.number = run.number) = some run) (same : next.number = run.number) :
    ∀ r ∈ (s.endPass next).runs, r.Honest := by
  obtain ⟨runs, -⟩ := owned.found found
  intro r member
  unfold State.endPass at member
  simp only at member
  split at member
  · simp only [State.withRun, runs, List.map_cons, List.map_nil, same, if_true, List.mem_singleton] at member
    rw [member]
    rfl
  · simp only [State.withRun, runs, List.map_cons, List.map_nil, same, if_true, List.mem_singleton] at member
    rw [member]
    trivial

theorem Inv.endPass {s : State} (inv : Inv s) {run next : Run}
    (found : s.runs.find? (fun r => r.number = run.number) = some run) (same : next.number = run.number)
    (armed : next.troubled = true → s.foreground = true → s.Armed) : Inv (s.endPass next) where
  owned := inv.owned.endPass found same
  honest := endPass_honest inv.owned found same
  wakes := endPass_wakes inv.wakes next
  timers := (endPass_timers s next).timers inv.timers
  retries := endPass_retries inv.retries armed
  paid := endPass_paid inv.paid next

theorem Inv.scheduleRetry {s : State} (inv : Inv s) (now : Int) : Inv (s.scheduleRetry now) := by
  have same := sameRuns_scheduleRetry s now
  obtain ⟨log, -⟩ := scheduleRetry_kept s now
  refine ⟨same.owned inv.owned, ?_, scheduleRetry_wakes inv.wakes now, scheduleRetry_timers inv.timers now,
    scheduleRetry_retries inv.retries now, same.paid (by rw [log]) (by rw [log]) inv.paid⟩
  rw [same.runs]
  exact inv.honest

theorem Inv.resumed {s t : State} (inv : Inv s) {run : Run}
    (found : s.runs.find? (fun r => r.number = run.number) = some run) (resumed : Resumed s run t) : Inv t := by
  cases resumed with
  | goesOn next same honest rank =>
      refine ⟨inv.owned.withRun found same, ?_, inv.wakes,
        ⟨inv.timers.below, inv.timers.distinct, inv.timers.shown, inv.timers.away⟩, inv.retries, inv.paid⟩
      intro r member
      rw [inv.owned.runs_withRun found same] at member
      rw [List.mem_singleton.mp member]
      exact honest
  | retries next now same rank =>
      have scheduled := inv.scheduleRetry now
      refine scheduled.endPass ?_ same fun _ foreground => ?_
      · rw [(sameRuns_scheduleRetry s now).runs]
        exact found
      · rw [(scheduleRetry_kept s now).2] at foreground
        exact scheduleRetry_armed foreground now
  | ends streak calm rank =>
      have other : Inv { s with failureStreak := streak } :=
        ⟨⟨inv.owned.single, inv.owned.ready⟩, inv.honest, inv.wakes,
          ⟨inv.timers.below, inv.timers.distinct, inv.timers.shown, inv.timers.away⟩, inv.retries, inv.paid⟩
      refine other.endPass found rfl fun troubled => ?_
      rw [calm] at troubled
      cases troubled

theorem Inv.step {s t : State} (inv : Inv s) (e : Event) (done : s.step e = some t) : Inv t := by
  cases e with
  | wake trigger =>
      cases done
      exact inv.wake trigger
  | connectivity isConnected =>
      simp only [State.step] at done
      split at done
      · cases done
        exact inv.connectivityChanged isConnected
      · cases done
  | setForeground isForeground =>
      cases done
      exact inv.setForeground isForeground
  | configure initiallyConnected =>
      cases done
      exact inv.configure initiallyConnected
  | fire generation =>
      simp only [State.step] at done
      split at done
      · cases done
        exact inv.fire generation
      · cases done
  | microtask =>
      simp only [State.step] at done
      split at done
      · cases done
      · rename_i trigger rest queued
        cases done
        exact inv.microtask queued
  | answer number answer enabled now =>
      simp only [State.step] at done
      split at done
      · rename_i run found
        have named := (inv.owned.found found).2.1
        subst named
        exact inv.resumed found (resume_resumed (inv.honest run (List.mem_of_find?_eq_some found)) done)
      · cases done
  | complete number =>
      simp only [State.step] at done
      split at done
      · rename_i run found
        have named := (inv.owned.found found).2.1
        subst named
        split at done
        · cases done
          exact inv.complete found
        · cases done
      · cases done

theorem Reached.inv {s : State} (reached : Reached s) : Inv s := by
  apply Reachable.invariant ?_ ?_ reached
  · rintro s ⟨injected, listening, configured, connected, rfl⟩
    exact Inv.fresh injected listening configured connected
  · intro s e t inv done
    exact inv.step e done

/-- What holds of recording recovery at every moment. -/
structure Recovers (s : State) : Prop where
  single : s.runs.length ≤ 1
  answered : ∀ newer trigger older, s.log = newer ++ .woken trigger :: older →
    (∃ e ∈ newer, Answers e trigger) ∨ s.Remembers trigger
  retried : ∀ newer older, s.log = newer ++ .ended true true :: older →
    .left ∈ newer ∨ .woken .cooldownElapsed ∈ newer ∨ s.Armed
  shown : s.nextCooldownAt.isSome ↔ s.Armed
  paid : begunPasses s.log ≤ takenWakes s.log

theorem Inv.recovers {s : State} (inv : Inv s) : Recovers s where
  single := inv.owned.length_le
  answered := by
    intro newer trigger older split
    exact inv.wakes newer _ older split trigger rfl
  retried := by
    intro newer older split
    rcases inv.retries newer _ older split () rfl with ⟨e, member, left | elapsed⟩ | armed
    · exact .inl (left ▸ member)
    · exact .inr (.inl (elapsed ▸ member))
    · exact .inr (.inr armed)
  shown := inv.timers.shown
  paid := Nat.le_trans (Nat.le_add_right _ _) inv.paid

/-- A wake before the singleton is configured, and the user's retry during the pass that it gets. -/
def sampleWakes : List Event :=
  [.wake .deviceConnected, .configure true, .microtask, .answer 0 .returned false 0, .wake .userRetry]

/-- The settings forbid the upload of the first pass; the upload of the second fails. -/
def sampleAnswers : List Event :=
  [.answer 0 .returned false 1, .answer 0 .returned false 2, .answer 0 .threw false 3, .answer 0 .returned false 4,
    .answer 0 .returned false 5, .answer 0 (.drained ⟨true, false, false⟩) false 6, .answer 0 .returned false 7,
    .complete 0]

def sampleWoken : State := (sampleWakes.foldlM State.step (fresh false false false true)).getD (fresh false false false true)

def sampleSettled : State := (sampleAnswers.foldlM State.step sampleWoken).getD sampleWoken

theorem sampleWoken_reached : Reached sampleWoken := by
  have start : Reached (fresh false false false true) := .start ⟨false, false, false, true, rfl⟩
  exact start.actions (fun _ _ _ _ done => done) (show sampleWakes.foldlM State.step _ = some sampleWoken from rfl)

end OmiLocal.Wals.Transfer
