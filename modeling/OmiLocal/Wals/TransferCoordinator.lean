import Mathlib.Data.List.Nodup
import OmiLocal.Lib.Transition

/-!
# The recording transfer coordinator

`RecordingTransferCoordinator` of the phone: the one owner of recording
recovery. The seams it calls (reconcile, discover, refresh, drain) are
asynchronous; a pass waits at one of them at a time, and any other event of the
app can come between. Several runs of `_run` can be in flight in this model,
each under its own number, so that there being one is a result. The log records
what the wakes and the passes did; no decision reads it.
-/
namespace OmiLocal.Wals.Transfer

inductive WakeTrigger where
  | startup
  | foregrounded
  | connectivityRestored
  | deviceConnected
  | cooldownElapsed
  | userRetry
deriving DecidableEq, Repr

/-- `RecordingTransferDrainResult`, without the field that the coordinator does not read. -/
structure DrainResult where
  failed : Bool
  needsReconciliation : Bool
  contended : Bool
deriving DecidableEq

/-- Seconds of `_failureBackoff`. -/
def failureBackoff : List Int := [5, 10, 20, 60]

/-- The `await` of `_runPass` that a run waits at, with its locals. `finished` is a run whose future is complete. -/
inductive Stage where
  | reconciling
  | discovering (reconcileFailed : Bool)
  | refreshing (reconcileFailed : Bool)
  | draining (reconcileFailed : Bool)
  | drained (reconcileFailed : Bool) (result : DrainResult)
  | reconcilingAgain (reconcileFailed : Bool) (result : DrainResult)
  | refreshingAgain (reconcileFailed : Bool) (result : DrainResult)
  | finished
deriving DecidableEq

/-- `troubled` is for the record: a seam threw, or the drain reported trouble, since the pass began. -/
structure Run where
  number : Nat
  trigger : WakeTrigger
  stage : Stage
  troubled : Bool

/-- Newest first: wakes taken while the app was in the foreground, begun and ended passes, and the app's leaving. -/
inductive Entry where
  | woken (trigger : WakeTrigger)
  | began (trigger : WakeTrigger)
  | ended (troubled foreground : Bool)
  | left
deriving DecidableEq

/-- `scheduled` holds the generation of every callback of a timer that can still run. An injected scheduler
gives no timer, so that nothing cancels its callbacks. -/
structure State where
  injected : Bool
  listening : Bool
  configured : Bool
  foreground : Bool
  wasConnected : Bool
  inFlight : Option Nat
  pendingWake : Option WakeTrigger
  wakeBeforeConfigured : Option WakeTrigger
  failureStreak : Nat
  cooldownGeneration : Nat
  nextCooldownAt : Option Int
  scheduled : List Nat
  microtasks : List WakeTrigger
  runs : List Run
  runsBegun : Nat
  log : List Entry

/-- The singleton before it is configured, and what the constructor gives. -/
def fresh (injected listening configured connected : Bool) : State where
  injected := injected
  listening := listening
  configured := configured
  foreground := true
  wasConnected := connected
  inFlight := none
  pendingWake := none
  wakeBeforeConfigured := none
  failureStreak := 0
  cooldownGeneration := 0
  nextCooldownAt := none
  scheduled := []
  microtasks := []
  runs := []
  runsBegun := 0
  log := []

/-! ## Wakes -/

def preferWake (existing : Option WakeTrigger) (incoming : WakeTrigger) : WakeTrigger :=
  if existing = some .userRetry ∨ incoming ≠ .userRetry then existing.getD incoming else incoming

/-- The synchronous part of `_run`, up to the first `await`, and the two statements after it. -/
def State.startRun (s : State) (trigger : WakeTrigger) : State :=
  { s with
    pendingWake := none
    inFlight := some s.runsBegun
    runs := s.runs ++ [⟨s.runsBegun, trigger, .reconciling, false⟩]
    runsBegun := s.runsBegun + 1
    log := .began trigger :: s.log }

/-- `wake` in the foreground. -/
def State.accept (s : State) (trigger : WakeTrigger) : State :=
  if s.configured = false then
    { s with wakeBeforeConfigured := some (preferWake s.wakeBeforeConfigured trigger) }
  else
    match s.inFlight with
    | some _ => { s with pendingWake := some (preferWake s.pendingWake trigger) }
    | none => s.startRun trigger

/-- `wake` for a wake that was taken before and put off. -/
def State.redeliver (s : State) (trigger : WakeTrigger) : State :=
  if s.foreground then s.accept trigger else s

/-- `wake` for an event of the app. -/
def State.wake (s : State) (trigger : WakeTrigger) : State :=
  if s.foreground then { s with log := .woken trigger :: s.log }.accept trigger else s

/-- `whenComplete`. -/
def State.complete (s : State) (number : Nat) : State :=
  if s.inFlight = some number then
    match s.pendingWake with
    | some lateWake => { s with inFlight := none, pendingWake := none }.redeliver lateWake
    | none => { s with inFlight := none }
  else s

/-! ## Retries -/

/-- `_cooldownTimer?.cancel()`. -/
def State.cancelTimer (s : State) : State :=
  if s.injected then s else { s with scheduled := [] }

/-- `_scheduleRetry`. -/
def State.scheduleRetry (s : State) (now : Int) : State :=
  if s.foreground then
    let t := s.cancelTimer
    { t with
      failureStreak := t.failureStreak + 1
      nextCooldownAt := some (now + failureBackoff.getD (min t.failureStreak 3) 0)
      cooldownGeneration := t.cooldownGeneration + 1
      scheduled := t.scheduled ++ [t.cooldownGeneration + 1] }
  else s

/-- `fire`: the callback of one timer. -/
def State.fire (s : State) (generation : Nat) : State :=
  let t := { s with scheduled := s.scheduled.erase generation }
  if t.foreground = false ∨ generation ≠ t.cooldownGeneration then t
  else { t with nextCooldownAt := none }.wake .cooldownElapsed

def State.setForeground (s : State) (isForeground : Bool) : State :=
  if isForeground then { s with foreground := true }
  else
    let t := s.cancelTimer
    { t with
      foreground := false
      cooldownGeneration := t.cooldownGeneration + 1
      nextCooldownAt := none
      log := .left :: t.log }

/-! ## Passes -/

def State.withRun (s : State) (run : Run) : State :=
  { s with runs := s.runs.map fun r => if r.number = run.number then run else r }

/-- The end of a pass and the `while` of `_run`: a wake that came in the meantime starts the next pass at once. -/
def State.endPass (s : State) (run : Run) : State :=
  let t := { s with log := .ended run.troubled s.foreground :: s.log }
  match t.pendingWake with
  | some trigger =>
      { t with pendingWake := none, log := .began trigger :: t.log }.withRun
        ⟨run.number, trigger, .reconciling, false⟩
  | none => t.withRun { run with stage := .finished }

/-- The last part of `_runPass`, from the tests of the drain's result on. -/
def State.settleDrain (s : State) (run : Run) (reconcileFailed : Bool) (result : DrainResult) (now : Int) : State :=
  if result.failed ∨ result.contended ∨ reconcileFailed then (s.scheduleRetry now).endPass run
  else { s with failureStreak := 0 }.endPass run

/-- How the seam that a run waits at answers. A drain returns its result. -/
inductive Answer where
  | returned
  | drained (result : DrainResult)
  | threw

/-- `catch`. -/
def State.passThrew (s : State) (run : Run) (now : Int) : State :=
  (s.scheduleRetry now).endPass { run with troubled := true }

/-- A run goes on from its `await`. `enabled` is what `_autoUploadEnabled` says if the run asks; its throwing is
that of the refresh before it. -/
def State.resume (s : State) (run : Run) (answer : Answer) (enabled : Bool) (now : Int) : Option State :=
  match run.stage, answer with
  | .reconciling, .returned => some (s.withRun { run with stage := .discovering false })
  | .reconciling, .threw => some (s.withRun { run with stage := .discovering true, troubled := true })
  | .discovering failed, .returned => some (s.withRun { run with stage := .refreshing failed })
  | .refreshing failed, .returned =>
      if run.trigger = .userRetry ∨ enabled then some (s.withRun { run with stage := .draining failed })
      else if failed then some ((s.scheduleRetry now).endPass run)
      else some (s.endPass run)
  | .draining failed, .drained result =>
      some (s.withRun { run with
        stage := .drained failed result
        troubled := run.troubled || result.failed || result.contended })
  | .drained failed result, .returned =>
      if result.needsReconciliation then some (s.withRun { run with stage := .reconcilingAgain failed result })
      else some (s.settleDrain run failed result now)
  | .reconcilingAgain failed result, .returned =>
      some (s.withRun { run with stage := .refreshingAgain failed result })
  | .reconcilingAgain _ result, .threw =>
      some (s.withRun { run with stage := .refreshingAgain true result, troubled := true })
  | .refreshingAgain failed result, .returned => some (s.settleDrain run failed result now)
  | .discovering _, .threw | .refreshing _, .threw | .draining _, .threw | .drained .., .threw
  | .refreshingAgain .., .threw => some (s.passThrew run now)
  | _, _ => none

/-! ## Events -/

inductive Event where
  | wake (trigger : WakeTrigger)
  | connectivity (isConnected : Bool)
  | setForeground (isForeground : Bool)
  | configure (initiallyConnected : Bool)
  | fire (generation : Nat)
  | microtask
  | answer (number : Nat) (answer : Answer) (enabled : Bool) (now : Int)
  | complete (number : Nat)

/-- `configure`; the seams themselves are the source of the answers. -/
def State.configure (s : State) (initiallyConnected : Bool) : State :=
  { s with
    configured := true
    listening := true
    wasConnected := initiallyConnected
    wakeBeforeConfigured := none
    microtasks := s.microtasks ++ s.wakeBeforeConfigured.toList }

/-- The listener of the connectivity stream. -/
def State.connectivityChanged (s : State) (isConnected : Bool) : State :=
  let t := { s with wasConnected := isConnected }
  if isConnected ∧ s.wasConnected = false then t.wake .connectivityRestored else t

def State.step (s : State) : Event → Option State
  | .wake trigger => some (s.wake trigger)
  | .connectivity isConnected => if s.listening then some (s.connectivityChanged isConnected) else none
  | .setForeground isForeground => some (s.setForeground isForeground)
  | .configure initiallyConnected => some (s.configure initiallyConnected)
  | .fire generation => if generation ∈ s.scheduled then some (s.fire generation) else none
  | .microtask =>
      match s.microtasks with
      | [] => none
      | trigger :: rest => some ({ s with microtasks := rest }.redeliver trigger)
  | .answer number answer enabled now =>
      match s.runs.find? (fun r => r.number = number) with
      | some run => s.resume run answer enabled now
      | none => none
  | .complete number =>
      match s.runs.find? (fun r => r.number = number) with
      | some run =>
          if run.stage = .finished then
            some ({ s with runs := s.runs.filter fun r => r.number ≠ number }.complete number)
          else none
      | none => none

def Started (s : State) : Prop :=
  ∃ injected listening configured connected, s = fresh injected listening configured connected

def Reached (s : State) : Prop :=
  Lib.Transition.Reachable Started (fun s e t => s.step e = some t) s

end OmiLocal.Wals.Transfer
