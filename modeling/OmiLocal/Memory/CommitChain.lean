import OmiLocal.Memory.Committed

/-!
# The commit chain

The commits of a run of calls on successive control states.
-/
namespace OmiLocal.Memory

open Lib Lib.Values

variable {p : Platform}

/-! ## One call -/

/-- A commit goes one step along the chain, and its events say so. -/
structure Follows (p : Platform) (control : MemoryControlState) (op : MemoryOperation) (r : ApplyResult) : Prop where
  sequence : r.controlState.commitSequence = control.commitSequence + 1
  head : r.controlState.headCommitId = control.nextCommitId p op.operationId
  events : ∀ e ∈ r.outboxEvents, e.parentCommitId = control.headCommitId ∧
    e.commitId = r.controlState.headCommitId ∧ e.commitSequence = r.controlState.commitSequence

/-- One event of either kind for every changed item and none besides, or the barrier pair. -/
structure PairsExact (r : ApplyResult) : Prop where
  one : ∀ m ∈ r.memoryItems, ∀ eventType, eventsFor r.outboxEvents eventType (some m.memoryId) = 1
  only : r.memoryItems ≠ [] → ∀ e ∈ r.outboxEvents, ∃ m ∈ r.memoryItems, e.memoryId = some m.memoryId
  barrier : r.memoryItems = [] → (∀ eventType, eventsFor r.outboxEvents eventType none = 1) ∧
    ∀ e ∈ r.outboxEvents, e.memoryId = none ∧ e.payload = [("action", .str "barrier")]

/-- The written item and the superseded ones are all different. -/
def DistinctTargets (p : Platform) (control : MemoryControlState) (op : MemoryOperation) (patch : DurableMemoryPatch) :
    Prop :=
  patch.decision = .skipDuplicate ∨
    (deterministicMaterializedMemoryId p op.uid patch (control.nextCommitId p op.operationId) :: patch.supersedes).Nodup

theorem Committed.follows {control : MemoryControlState} {op : MemoryOperation} {payload : PatchPayload} {allow : Bool}
    {clock : Clock} {r : ApplyResult} {patch : DurableMemoryPatch} {evidence : List MemoryEvidence}
    {next : MemoryControlState} (h : Committed p control op payload allow clock r patch evidence next) :
    Follows p control op r := by
  have state : r.controlState = next := (applyCommit_committed h.applied).2.2.1
  have sequence : r.controlState.commitSequence = control.commitSequence + 1 := by rw [state, h.advanced]
  have head : r.controlState.headCommitId = control.nextCommitId p op.operationId := by rw [state, h.advanced]
  refine ⟨sequence, head, ?_⟩
  intro e member
  rw [sequence, head]
  rcases applyCommit_ok h.applied with ⟨-, skipped⟩ | ⟨-, written, item, superseded, wrote⟩
  · have names := ((Commit.pair_ok skipped.events).1 e member).1
    exact ⟨names.parent, names.commit, names.sequence⟩
  · obtain ⟨pairs, made, same⟩ := wrote.events
    rw [same] at member
    have names := ((Commit.itemEvents_ok made).1 e member).1
    exact ⟨names.parent, names.commit, names.sequence⟩

/-- Every appearance of an item among the changed ones has its own pair of events. -/
theorem Committed.count {control : MemoryControlState} {op : MemoryOperation} {payload : PatchPayload} {allow : Bool}
    {clock : Clock} {r : ApplyResult} {patch : DurableMemoryPatch} {evidence : List MemoryEvidence}
    {next : MemoryControlState} (h : Committed p control op payload allow clock r patch evidence next)
    (eventType : MemoryOutboxEventType) (id : String) :
    eventsFor r.outboxEvents eventType (some id) = (r.memoryItems.map (·.memoryId)).count id := by
  rcases applyCommit_ok h.applied with ⟨-, skipped⟩ | ⟨-, written, item, superseded, wrote⟩
  · have none : r.memoryItems = [] := (commitResult_ok skipped.result).2.2.2.1
    rw [none, (Commit.pair_ok skipped.events).2, if_neg (Option.some_ne_none id).symm]
    rfl
  · obtain ⟨pairs, made, same⟩ := wrote.events
    rw [same, wrote.items]
    exact (Commit.itemEvents_ok made).2 eventType id

theorem Committed.ids {control : MemoryControlState} {op : MemoryOperation} {payload : PatchPayload} {allow : Bool}
    {clock : Clock} {r : ApplyResult} {patch : DurableMemoryPatch} {evidence : List MemoryEvidence}
    {next : MemoryControlState} (h : Committed p control op payload allow clock r patch evidence next)
    (writes : patch.decision ≠ .skipDuplicate) : r.memoryItems.map (·.memoryId) =
      deterministicMaterializedMemoryId p op.uid patch (control.nextCommitId p op.operationId) :: patch.supersedes := by
  rcases applyCommit_ok h.applied with ⟨skips, -⟩ | ⟨-, written, item, superseded, wrote⟩
  · exact absurd skips writes
  · rw [wrote.items, List.map_cons, (supersedeAll_ok wrote.replaced).1, refreshGraphAssertion_memoryId wrote.refreshed,
      writtenItem_memoryId wrote.wrote]

theorem Committed.pairsExact_iff {control : MemoryControlState} {op : MemoryOperation} {payload : PatchPayload}
    {allow : Bool} {clock : Clock} {r : ApplyResult} {patch : DurableMemoryPatch} {evidence : List MemoryEvidence}
    {next : MemoryControlState} (h : Committed p control op payload allow clock r patch evidence next) :
    PairsExact r ↔ DistinctTargets p control op patch := by
  rcases applyCommit_ok h.applied with ⟨skips, skipped⟩ | ⟨writes, written, item, superseded, wrote⟩
  · have none : r.memoryItems = [] := (commitResult_ok skipped.result).2.2.2.1
    obtain ⟨facts, counts⟩ := Commit.pair_ok skipped.events
    refine ⟨fun _ => .inl skips, fun _ => ⟨?_, fun some => absurd none some, fun _ => ⟨?_, ?_⟩⟩⟩
    · intro m member
      rw [none] at member
      cases member
    · intro eventType
      rw [counts, if_pos rfl]
    · intro e member
      exact (facts e member).2
  · have ids := h.ids writes
    constructor
    · intro exact_
      right
      rw [← ids, List.nodup_iff_count_eq_one]
      intro id member
      obtain ⟨m, inside, rfl⟩ := List.mem_map.mp member
      rw [← h.count .projectionSync]
      exact exact_.one m inside .projectionSync
    · intro distinct
      have nodup := distinct.resolve_left writes
      rw [← ids, List.nodup_iff_count_eq_one] at nodup
      obtain ⟨pairs, made, same⟩ := wrote.events
      refine ⟨?_, ?_, ?_⟩
      · intro m member eventType
        rw [h.count]
        exact nodup m.memoryId (List.mem_map_of_mem member)
      · intro _ e member
        rw [wrote.items]
        exact ((Commit.itemEvents_ok made).1 e (same ▸ member)).2
      · intro none
        rw [wrote.items] at none
        cases none

/-- An operation that was committed is never applied again. -/
theorem committed_operation_refused {control : MemoryControlState} {op : MemoryOperation} {payload : PatchPayload}
    {allow : Bool} {clock : Clock} {r : ApplyResult} (committed : op.status = .committed)
    (done : applyLongTermPatchTransaction p control op payload allow clock = .ok r) : Unchanged control r := by
  rcases apply_cases done with unchanged | ⟨patch, evidence, next, h⟩
  · exact unchanged
  · exact absurd committed (applyCommit_committed h.applied).1

/-! ## Runs -/

structure Call where
  operation : MemoryOperation
  payload : PatchPayload
  allowTriggerFeedbackArguments : Bool
  clock : Clock

def Call.apply (p : Platform) (call : Call) (control : MemoryControlState) : Except String ApplyResult :=
  applyLongTermPatchTransaction p control call.operation call.payload call.allowTriggerFeedbackArguments call.clock

/-- A call that returned, with the control state it was made on. -/
structure Step where
  before : MemoryControlState
  call : Call
  result : ApplyResult

/-- Every call is made on the control state the one before it left. -/
def run (p : Platform) (control : MemoryControlState) : List Call → List Step × MemoryControlState
  | [] => ([], control)
  | call :: rest =>
    match call.apply p control with
    | .error _ => run p control rest
    | .ok r => (⟨control, call, r⟩ :: (run p r.controlState rest).1, (run p r.controlState rest).2)

def commits (steps : List Step) : List ApplyResult :=
  (steps.map (·.result)).filter fun r => decide (r.status = .committed)

/-- Each result goes on from the control state the one before it left. -/
inductive CommitChain : MemoryControlState → List ApplyResult → MemoryControlState → Prop where
  | nil (control : MemoryControlState) : CommitChain control [] control
  | cons {control final : MemoryControlState} {r : ApplyResult} {rest : List ApplyResult}
      (sequence : r.controlState.commitSequence = control.commitSequence + 1)
      (parent : ∀ e ∈ r.outboxEvents, e.parentCommitId = control.headCommitId ∧
        e.commitId = r.controlState.headCommitId ∧ e.commitSequence = r.controlState.commitSequence)
      (later : CommitChain r.controlState rest final) : CommitChain control (r :: rest) final

theorem CommitChain.sequences {control final : MemoryControlState} {results : List ApplyResult}
    (chain : CommitChain control results final) :
    results.map (·.controlState.commitSequence) =
        (List.range results.length).map (fun (i : Nat) => control.commitSequence + 1 + (i : Int)) ∧
      final.commitSequence = control.commitSequence + results.length := by
  induction chain with
  | nil control => exact ⟨rfl, (Int.add_zero _).symm⟩
  | cons sequence parent later ih =>
      obtain ⟨sequences, last⟩ := ih
      constructor
      · rw [List.map_cons, sequences, List.length_cons, List.range_succ_eq_map, List.map_cons, List.map_map, sequence]
        congr 1
        · simp
        · apply List.map_congr_left
          intro i _
          simp only [Function.comp_apply]
          omega
      · rw [last, sequence, List.length_cons]
        omega

theorem run_steps {control : MemoryControlState} {calls : List Call} {step : Step}
    (member : step ∈ (run p control calls).1) : step.call.apply p step.before = .ok step.result := by
  induction calls generalizing control with
  | nil => cases member
  | cons call rest ih =>
      unfold run at member
      split at member
      · exact ih member
      · rename_i r done
        rcases List.mem_cons.mp member with rfl | later
        · exact done
        · exact ih later

theorem run_chain (control : MemoryControlState) (calls : List Call) :
    CommitChain control (commits (run p control calls).1) (run p control calls).2 := by
  induction calls generalizing control with
  | nil => exact .nil control
  | cons call rest ih =>
      unfold run
      split
      · exact ih control
      · rename_i r done
        have later := ih r.controlState
        rcases apply_cases done with unchanged | ⟨patch, evidence, next, h⟩
        · have skipped : commits (⟨control, call, r⟩ :: (run p r.controlState rest).1) =
              commits (run p r.controlState rest).1 := by
            simp [commits, unchanged.refused]
          dsimp only
          rw [skipped]
          rw [unchanged.controlState] at later ⊢
          exact later
        · have committed := (applyCommit_committed h.applied).2.1
          have kept : commits (⟨control, call, r⟩ :: (run p r.controlState rest).1) =
              r :: commits (run p r.controlState rest).1 := by
            simp [commits, committed]
          dsimp only
          rw [kept]
          exact .cons h.follows.sequence h.follows.events later

/-- A refused call changes nothing; a committed one goes one step along the chain, and
has one pair of events for each changed item exactly when its targets differ. Over a run
the commits have the successive sequences, each from the head the one before it set, and
an operation that was committed changes nothing when it is applied again. -/
theorem commits_atomic_and_linear (p : Platform) (control : MemoryControlState) (calls : List Call) :
    (∀ step ∈ (run p control calls).1,
      (step.result.status ≠ .committed → Unchanged step.before step.result) ∧
      (step.result.status = .committed → Follows p step.before step.call.operation step.result ∧
        ∃ patch, step.call.payload.patch = .typed patch ∧
          (PairsExact step.result ↔ DistinctTargets p step.before step.call.operation patch))) ∧
    CommitChain control (commits (run p control calls).1) (run p control calls).2 ∧
    (commits (run p control calls).1).map (·.controlState.commitSequence) =
      (List.range (commits (run p control calls).1).length).map
        (fun (i : Nat) => control.commitSequence + 1 + (i : Int)) ∧
    ∀ step ∈ (run p control calls).1, step.result.status = .committed →
      ∀ (later : MemoryControlState) (payload : PatchPayload) (allow : Bool) (clock : Clock) (r : ApplyResult),
        applyLongTermPatchTransaction p later step.result.operation payload allow clock = .ok r → Unchanged later r := by
  have chain := run_chain (p := p) control calls
  refine ⟨?_, chain, chain.sequences.1, ?_⟩
  · intro step member
    have done := run_steps member
    constructor
    · intro refused
      rcases apply_cases done with unchanged | ⟨patch, evidence, next, h⟩
      · exact unchanged
      · exact absurd (applyCommit_committed h.applied).2.1 refused
    · intro committed
      obtain ⟨patch, evidence, next, h⟩ := apply_committed done committed
      exact ⟨h.follows, patch, h.typed, h.pairsExact_iff⟩
  · intro step member committed later payload allow clock r done
    obtain ⟨patch, evidence, next, h⟩ := apply_committed (run_steps member) committed
    exact committed_operation_refused (applyCommit_committed h.applied).2.2.2 done

/-- An id that the patch supersedes twice has two pairs of events. -/
theorem superseded_twice : ∃ r, applyLongTermPatchTransaction samplePlatform sampleControl
    (sampleOperation samplePlatform (samplePatch false ["b", "b"] none)) (samplePayload (samplePatch false ["b", "b"] none))
    false sampleClock = .ok r ∧ r.status = .committed ∧ r.memoryItems.map (·.memoryId) = ["m", "b", "b"] ∧
    eventsFor r.outboxEvents .projectionSync (some "b") = 2 ∧ ¬PairsExact r := by
  obtain ⟨r, done, committed, -⟩ := @sample_commits samplePlatform false ["b", "b"] none _ rfl
  obtain ⟨patch, evidence, next, h⟩ := apply_committed done committed
  have same : patch = samplePatch false ["b", "b"] none := RawPatch.typed.inj h.typed.symm
  have ids : r.memoryItems.map (·.memoryId) = ["m", "b", "b"] := by
    rw [h.ids (by rw [same]; decide), same]
    rfl
  have twice : eventsFor r.outboxEvents .projectionSync (some "b") = 2 := by
    rw [h.count, ids]
    rfl
  refine ⟨r, done, committed, ids, twice, ?_⟩
  intro exact_
  obtain ⟨b, member, named⟩ := List.mem_map.mp (ids ▸ (by decide) : "b" ∈ r.memoryItems.map (·.memoryId))
  have once := exact_.one b member .projectionSync
  rw [named, twice] at once
  cases once

end OmiLocal.Memory
