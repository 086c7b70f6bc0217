import OmiLocal.Lib.Transition
import OmiLocal.Sync.Ledger

/-!
# The ledger is once-only and fenced

`Effect` says once what a transaction can do to a document. The log of a ledger
holds every transaction with its reply, so "since a bind" is a fact about the log,
and the results are invariants of documents beside their logs.
-/
namespace OmiLocal.Sync

open Lib Lib.Json

structure Ledger where
  opened : Document
  document : Document
  log : List (Transaction × Reply)

namespace Ledger

/-- A ledger is followed from any document on. -/
def Initial (s : Ledger) : Prop := s.document = s.opened ∧ s.log = []

def act (s : Ledger) (x : Transaction) : Ledger :=
  ⟨s.opened, (x.run s.document).1, s.log ++ [(x, (x.run s.document).2)]⟩

def Step (s : Ledger) (x : Transaction) (t : Ledger) : Prop := t = s.act x

end Ledger

/-! ### What is claimed -/

namespace Document

def ValidCompleted (doc : Document) : Prop :=
  doc.status = some .completed ∧ isValidCompletedSyncContentResult doc.result = some true

def InvalidCompleted (doc : Document) : Prop :=
  doc.status = some .completed ∧ isValidCompletedSyncContentResult doc.result = some false

/-- Only a completion has a result. -/
def ResultRecorded (doc : Document) : Prop := doc.status ≠ some .completed → doc.result = none

/-- No id is lost or repeated, unless an invalid completion is cleared. -/
def SegmentsKept (doc next : Document) : Prop :=
  next.processedSegmentIds = doc.processedSegmentIds ∨
    (∃ id, id ∉ doc.processedSegmentIds ∧ next.processedSegmentIds = doc.processedSegmentIds ++ [id]) ∨
    doc.InvalidCompleted ∧ next.processedSegmentIds = []

end Document

/-- The caller of a mutation; claims, binds and the release of a retired job present no token. -/
def Transaction.caller : Transaction → Option Caller
  | .sideEffect caller _ _ _ => some caller
  | .checkpoint caller _ _ => some caller
  | .processedSegment caller _ _ => some caller
  | .complete caller _ _ => some caller
  | .release caller _ => some caller
  | _ => none

/-- A successful mark of a side effect. -/
def marks (tag : SideEffect) : Transaction × Reply → Bool
  | (.sideEffect _ other _ _, .changed) => decide (other = tag)
  | _ => false

/-- The transactions that release the claim or take it over from its holder. -/
def Ends (job token : String) (epoch : Int) : Transaction × Reply → Prop
  | (.release _ _, .changed) => True
  | (.releaseAfterJobRetired _ _, .changed) => True
  | (.claim other _ _, .owned) => other ≠ job
  | (.bind other run lease _, .bound) => ¬ (other = job ∧ run = token ∧ lease = epoch)
  | _ => False

/-- The log holds a successful bind, and nothing since has ended it. -/
def BoundSince (job token : String) (epoch : Int) (log : List (Transaction × Reply)) : Prop :=
  ∃ before now after, log = before ++ (.bind job token epoch now, .bound) :: after ∧
    ∀ entry ∈ after, ¬ Ends job token epoch entry

structure Fenced (job token : String) (epoch : Int) (doc : Document) : Prop where
  mutations : ∀ (x : Transaction) (caller : Caller), x.caller = some caller → caller ≠ ⟨job, some token, some epoch⟩ →
    (x.run doc).1 = doc ∧ (x.run doc).2 ≠ .changed
  rebinds : ∀ other run lease now, ((Transaction.bind other run lease now).run doc).2 = .bound →
    other = job ∧ (epoch < lease ∨
      run = token ∧ lease = epoch ∧ ((Transaction.bind other run lease now).run doc).1 = doc)

/-! ### What a transaction can do -/

def Reply.quiet : Reply → Bool
  | .completed _ => true
  | .busy => true
  | .lost => true
  | .refused => true
  | .raised => true
  | _ => false

inductive Effect (doc : Document) : Transaction → Document × Reply → Prop
  | silent {x : Transaction} {reply : Reply} (quiet : reply.quiet = true) : Effect doc x (doc, reply)
  | kept {job lane : String} {now : ℚ} (going : doc.status ≠ some .completed) (same : doc.jobId = some job) :
      Effect doc (.claim job lane now) (doc, .owned)
  | claimed {job lane : String} {now : ℚ} (going : doc.status ≠ some .completed) (other : doc.jobId ≠ some job) :
      Effect doc (.claim job lane now) (processingClaim job lane now false doc, .owned)
  | repaired {job lane : String} {now : ℚ} (invalid : doc.InvalidCompleted) :
      Effect doc (.claim job lane now) (processingClaim job lane now true doc, .owned)
  | repairedBound {job token lane : String} {epoch : Int} {now : ℚ} (invalid : doc.InvalidCompleted) :
      Effect doc (.bind job token epoch now) (bindTo token epoch (processingClaim job lane now true doc), .bound)
  | boundAgain {job token : String} {epoch : Int} {now : ℚ} (processing : doc.status = some .processing)
      (same : doc.jobId = some job) (held : doc.runToken = some token) (lease : doc.runEpoch = some (.int epoch)) :
      Effect doc (.bind job token epoch now) (doc, .bound)
  | bound {job token : String} {epoch : Int} {now : ℚ} (processing : doc.status = some .processing)
      (same : doc.jobId = some job) (newer : ∀ stored, doc.runEpoch = some (.int stored) → stored < epoch) :
      Effect doc (.bind job token epoch now) ({ bindTo token epoch doc with updatedAt := some now }, .bound)
  | marked {caller : Caller} {tag : SideEffect} {value : Int} {now : ℚ} (unmarked : doc.markedAt tag = none)
      (owner : ledgerOwnerMatches doc caller = true) :
      Effect doc (.sideEffect caller tag value now)
        ({ doc with
            markedAt := Function.update doc.markedAt tag (some now)
            markedValue := Function.update doc.markedValue tag (some value)
            updatedAt := some now }, .changed)
  | checkpointed {caller : Caller} {fields : List (String × Value)} {now : ℚ}
      (owner : ledgerOwnerMatches doc caller = true) :
      Effect doc (.checkpoint caller fields now)
        ({ doc with
            partialResult := some (mergeValue doc.partialResult (.obj fields))
            updatedAt := some now }, .changed)
  | processed {caller : Caller} {segmentId : String} {now : ℚ} (new : segmentId ∉ doc.processedSegmentIds)
      (owner : ledgerOwnerMatches doc caller = true) :
      Effect doc (.processedSegment caller segmentId now)
        ({ doc with
            processedSegmentIds := doc.processedSegmentIds ++ [segmentId]
            updatedAt := some now }, .changed)
  | completed {caller : Caller} {result : Value} {now : ℚ}
      (valid : isValidCompletedSyncContentResult (some result) = some true)
      (owner : ledgerOwnerMatches doc caller = true) :
      Effect doc (.complete caller result now)
        ({ doc with
            status := some .completed
            result := some (mergeValue doc.result result)
            updatedAt := some now
            expiresAt := some (now + ledgerRetentionSeconds) }, .changed)
  | freed {caller : Caller} {now : ℚ} (owner : ledgerOwnerMatches doc caller = true) :
      Effect doc (.release caller now) (released now doc, .changed)
  | retired {job : String} {now : ℚ} (processing : doc.status = some .processing) :
      Effect doc (.releaseAfterJobRetired job now) (released now doc, .changed)

theorem claim_effect (job lane : String) (now : ℚ) (doc : Document) :
    Effect doc (.claim job lane now) (claimTransaction job lane now doc) := by
  unfold claimTransaction
  split
  · rename_i completed
    split
    · exact .silent rfl
    · exact .silent rfl
    · rename_i invalid
      exact .repaired ⟨completed, invalid⟩
  · rename_i going
    split
    · rename_i same
      exact .kept going same
    · rename_i other
      split
      · exact .claimed going other
      · split
        · split
          · exact .silent rfl
          · exact .claimed going other
        · exact .claimed going other

theorem bind_effect (job token : String) (epoch : Int) (now : ℚ) (doc : Document) :
    Effect doc (.bind job token epoch now) (bindRunTokenTransaction job token epoch now doc) := by
  unfold bindRunTokenTransaction
  split
  · rename_i completed
    split
    · exact .silent rfl
    · exact .silent rfl
    · rename_i invalid
      split
      · exact .silent rfl
      · exact .repairedBound ⟨completed, invalid⟩
  · split
    · exact .silent rfl
    · rename_i owned
      rw [not_or, not_not, not_not] at owned
      obtain ⟨processing, same⟩ := owned
      split
      · rename_i none
        refine .bound processing same ?_
        intro stored lease
        rw [none] at lease
        cases lease
      · exact .silent rfl
      · rename_i stored lease
        split
        · exact .silent rfl
        · rename_i newer
          split
          · rename_i equal
            subst equal
            split
            · rename_i held
              exact .boundAgain processing same held lease
            · exact .silent rfl
          · rename_i different
            refine .bound processing same ?_
            intro other found
            rw [lease] at found
            cases found
            omega

theorem sideEffect_effect (caller : Caller) (tag : SideEffect) (value : Int) (now : ℚ) (doc : Document) :
    Effect doc (.sideEffect caller tag value now) (sideEffectTransaction caller tag value now doc) := by
  unfold sideEffectTransaction
  split
  · exact .silent rfl
  · rename_i unmarked
    split
    · rename_i owner
      exact .marked (by simpa using unmarked) owner
    · exact .silent rfl

theorem complete_effect (caller : Caller) (result : Value) (now : ℚ) (doc : Document) :
    Effect doc (.complete caller result now) (markCompletedTransaction caller result now doc) := by
  unfold markCompletedTransaction
  split
  · exact .silent rfl
  · exact .silent rfl
  · rename_i valid
    split
    · rename_i owner
      exact .completed valid owner
    · exact .silent rfl

theorem Transaction.run_effect (x : Transaction) (doc : Document) : Effect doc x (x.run doc) := by
  cases x with
  | claim job lane now => exact claim_effect job lane now doc
  | bind job token epoch now => exact bind_effect job token epoch now doc
  | sideEffect caller tag value now => exact sideEffect_effect caller tag value now doc
  | checkpoint caller fields now =>
      simp only [run, checkpointPartialResultTransaction]
      split
      · rename_i owner
        exact .checkpointed owner
      · exact .silent rfl
  | processedSegment caller segmentId now =>
      simp only [run, processedSegmentTransaction]
      split
      · exact .silent rfl
      · rename_i new
        split
        · rename_i owner
          exact .processed new owner
        · exact .silent rfl
  | complete caller result now => exact complete_effect caller result now doc
  | release caller now =>
      simp only [run, releaseClaimTransaction]
      split
      · exact .silent rfl
      · rename_i owned
        exact .freed (by simpa using (not_or.mp owned).2)
  | releaseAfterJobRetired job now =>
      simp only [run, releaseClaimAfterJobRetiredTransaction]
      split
      · exact .silent rfl
      · rename_i owned
        exact .retired (not_not.mp (not_or.mp owned).1)

/-! ### Owners -/

theorem owner_claim {doc : Document} {caller : Caller} (owner : ledgerOwnerMatches doc caller = true) :
    doc.status = some .processing ∧ doc.jobId = some caller.jobId := by
  unfold ledgerOwnerMatches at owner
  split at owner
  · cases owner
  · rename_i claim
    rw [not_or, not_not, not_not] at claim
    exact claim

/-- A bound document has one owner. -/
theorem owner_of_bound {doc : Document} {caller : Caller} {job token : String} {epoch : Int}
    (same : doc.jobId = some job) (held : doc.runToken = some token) (lease : doc.runEpoch = some (.int epoch))
    (owner : ledgerOwnerMatches doc caller = true) : caller = ⟨job, some token, some epoch⟩ := by
  obtain ⟨_, claim⟩ := owner_claim owner
  obtain ⟨jobId, runToken, runEpoch⟩ := caller
  rw [same, Option.some.injEq] at claim
  unfold ledgerOwnerMatches at owner
  rw [held, lease] at owner
  cases runToken with
  | none => simp at owner
  | some run =>
      cases runEpoch with
      | none => simp at owner
      | some given => simp_all [StoredEpoch.like]

/-! ### Documents through one transaction -/

section Step

variable {doc : Document} {x : Transaction} {r : Document × Reply}

theorem Effect.valid_completed (effect : Effect doc x r) (valid : doc.ValidCompleted) : r.1 = doc := by
  have not_processing : doc.status ≠ some .processing := by
    rw [valid.1]
    simp
  have no_owner : ∀ {caller : Caller}, ledgerOwnerMatches doc caller ≠ true := by
    intro caller owner
    exact not_processing (owner_claim owner).1
  have not_invalid : ¬ doc.InvalidCompleted := by
    intro invalid
    rw [Document.InvalidCompleted, valid.2] at invalid
    cases invalid.2
  cases effect with
  | silent quiet => rfl
  | kept going same => rfl
  | claimed going other => exact absurd valid.1 going
  | repaired invalid => exact absurd invalid not_invalid
  | repairedBound invalid => exact absurd invalid not_invalid
  | boundAgain processing same held lease => rfl
  | bound processing same newer => exact absurd processing not_processing
  | marked unmarked owner => exact absurd owner no_owner
  | checkpointed owner => exact absurd owner no_owner
  | processed new owner => exact absurd owner no_owner
  | completed valid owner => exact absurd owner no_owner
  | freed owner => exact absurd owner no_owner
  | retired processing => exact absurd processing not_processing

theorem Effect.segments (effect : Effect doc x r) : doc.SegmentsKept r.1 := by
  cases effect with
  | repaired invalid => exact .inr (.inr ⟨invalid, rfl⟩)
  | repairedBound invalid => exact .inr (.inr ⟨invalid, rfl⟩)
  | processed new owner => exact .inr (.inl ⟨_, new, rfl⟩)
  | _ => exact .inl rfl

theorem Effect.result_recorded (effect : Effect doc x r) (recorded : doc.ResultRecorded) : r.1.ResultRecorded := by
  have processing_none : doc.status = some .processing → doc.result = none := by
    intro processing
    apply recorded
    rw [processing]
    simp
  have owner_none : ∀ {caller : Caller}, ledgerOwnerMatches doc caller = true → doc.result = none := by
    intro caller owner
    exact processing_none (owner_claim owner).1
  intro going
  cases effect with
  | silent quiet => exact recorded going
  | kept _ same => exact recorded going
  | claimed before other => exact recorded before
  | repaired invalid => rfl
  | repairedBound invalid => rfl
  | boundAgain processing same held lease => exact recorded going
  | bound processing same newer => exact recorded going
  | marked unmarked owner => exact recorded going
  | checkpointed owner => exact recorded going
  | processed new owner => exact recorded going
  | completed valid owner => exact absurd rfl going
  | freed owner => exact owner_none owner
  | retired processing => exact processing_none processing

/-- A mark finds its side effect unmarked, and no transaction removes one. -/
theorem Effect.marks (effect : Effect doc x r) (tag : SideEffect) :
    (doc.markedAt tag).isSome.toNat + (marks tag (x, r.2)).toNat ≤ (r.1.markedAt tag).isSome.toNat := by
  cases effect with
  | silent quiet =>
      rename_i reply
      have none : marks tag (x, reply) = false := by
        cases reply with
        | changed => cases quiet
        | _ => cases x <;> rfl
      simp [none]
  | marked unmarked owner =>
      rename_i caller other value now
      by_cases same : other = tag
      · subst same
        simp [marks, unmarked]
      · simp [marks, same, Function.update_of_ne (Ne.symm same)]
  | _ => simp [marks, processingClaim, bindTo, released]

/-- The claim as its holder left it: bound, or completed. -/
inductive Held (job token : String) (epoch : Int) (doc : Document) : Prop
  | bound (processing : doc.status = some .processing) (same : doc.jobId = some job) (run : doc.runToken = some token)
      (lease : doc.runEpoch = some (.int epoch))
  | completed (valid : doc.ValidCompleted)

variable {job token : String} {epoch : Int}

theorem Effect.held_of_bound (effect : Effect doc x r) (recorded : doc.ResultRecorded)
    (processing : doc.status = some .processing) (same : doc.jobId = some job) (run : doc.runToken = some token)
    (lease : doc.runEpoch = some (.int epoch)) (going : ¬ Ends job token epoch (x, r.2)) : Held job token epoch r.1 := by
  have not_invalid : ¬ doc.InvalidCompleted := by
    intro invalid
    rw [Document.InvalidCompleted, processing] at invalid
    cases invalid.1
  cases effect with
  | silent quiet => exact .bound processing same run lease
  | kept _ _ => exact .bound processing same run lease
  | claimed _ other =>
      apply absurd _ going
      rintro rfl
      exact other same
  | repaired invalid => exact absurd invalid not_invalid
  | repairedBound invalid => exact absurd invalid not_invalid
  | boundAgain _ _ _ _ => exact .bound processing same run lease
  | bound _ claimed newer =>
      apply absurd _ going
      rintro ⟨_, _, rfl⟩
      exact absurd (newer _ lease) (lt_irrefl _)
  | marked unmarked owner => exact .bound processing same run lease
  | checkpointed owner => exact .bound processing same run lease
  | processed new owner => exact .bound processing same run lease
  | completed valid owner =>
      refine .completed ⟨rfl, ?_⟩
      have none : doc.result = none := recorded (by simp [processing])
      simp only [none, mergeValue]
      exact valid
  | freed owner => exact absurd trivial going
  | retired _ => exact absurd trivial going

theorem Held.step (held : Held job token epoch doc) (recorded : doc.ResultRecorded) (effect : Effect doc x r)
    (going : ¬ Ends job token epoch (x, r.2)) : Held job token epoch r.1 := by
  cases held with
  | bound processing same run lease => exact effect.held_of_bound recorded processing same run lease going
  | completed valid =>
      rw [effect.valid_completed valid]
      exact .completed valid

/-- A successful bind leaves its job, token and epoch in the document. -/
theorem Effect.held_of_bind {now : ℚ} (effect : Effect doc (.bind job token epoch now) r) (bound : r.2 = .bound) :
    Held job token epoch r.1 := by
  cases effect with
  | silent quiet =>
      simp only at bound
      rw [bound] at quiet
      cases quiet
  | repairedBound invalid => exact .bound rfl rfl rfl rfl
  | boundAgain processing same held lease => exact .bound processing same held lease
  | bound processing same newer => exact .bound processing same rfl rfl

theorem Effect.mutation (effect : Effect doc x r) {caller : Caller} (mutation : x.caller = some caller)
    (refused : ledgerOwnerMatches doc caller = false) : r.1 = doc ∧ r.2 ≠ .changed := by
  have no_owner : ∀ {other : Caller}, some other = some caller → ledgerOwnerMatches doc other ≠ true := by
    rintro other equal owner
    rw [Option.some.inj equal, refused] at owner
    cases owner
  cases effect with
  | silent quiet =>
      refine ⟨rfl, ?_⟩
      rintro rfl
      cases quiet
  | marked unmarked owner => exact absurd owner (no_owner mutation)
  | checkpointed owner => exact absurd owner (no_owner mutation)
  | processed new owner => exact absurd owner (no_owner mutation)
  | completed valid owner => exact absurd owner (no_owner mutation)
  | freed owner => exact absurd owner (no_owner mutation)
  | _ => cases mutation

theorem Held.not_owner (held : Held job token epoch doc) {caller : Caller}
    (other : caller ≠ ⟨job, some token, some epoch⟩) : ledgerOwnerMatches doc caller = false := by
  rw [← Bool.not_eq_true]
  intro owner
  cases held with
  | bound processing same run lease => exact other (owner_of_bound same run lease owner)
  | completed valid =>
      have processing := (owner_claim owner).1
      rw [valid.1] at processing
      cases processing

theorem Held.rebind (held : Held job token epoch doc) {other run : String} {lease : Int} {now : ℚ}
    (effect : Effect doc (.bind other run lease now) r) (bound : r.2 = .bound) :
    other = job ∧ (epoch < lease ∨ run = token ∧ lease = epoch ∧ r.1 = doc) := by
  cases held with
  | completed valid =>
      cases effect with
      | silent quiet =>
          simp only at bound
          rw [bound] at quiet
          cases quiet
      | repairedBound invalid =>
          rw [Document.InvalidCompleted, valid.2] at invalid
          cases invalid.2
      | boundAgain processing _ _ _ =>
          rw [valid.1] at processing
          cases processing
      | bound processing _ _ =>
          rw [valid.1] at processing
          cases processing
  | bound processing same token_eq epoch_eq =>
      cases effect with
      | silent quiet =>
          simp only at bound
          rw [bound] at quiet
          cases quiet
      | repairedBound invalid =>
          rw [Document.InvalidCompleted, processing] at invalid
          cases invalid.1
      | boundAgain _ claimed held lease_eq =>
          rw [same] at claimed
          rw [token_eq] at held
          rw [epoch_eq] at lease_eq
          cases claimed
          cases held
          cases lease_eq
          exact ⟨rfl, .inr ⟨rfl, rfl, rfl⟩⟩
      | bound _ claimed newer =>
          rw [same] at claimed
          cases claimed
          exact ⟨rfl, .inl (newer epoch epoch_eq)⟩

theorem Held.fenced (held : Held job token epoch doc) : Fenced job token epoch doc := by
  constructor
  · intro x caller mutation other
    exact (x.run_effect doc).mutation mutation (held.not_owner other)
  · intro other run lease now bound
    exact held.rebind ((Transaction.bind other run lease now).run_effect doc) bound

end Step

/-! ### Ledgers over whole runs -/

structure Sound (s : Ledger) : Prop where
  marks : ∀ tag, s.log.countP (marks tag) ≤ (s.document.markedAt tag).isSome.toNat
  recorded : s.opened.ResultRecorded → s.document.ResultRecorded
  held : s.opened.ResultRecorded → ∀ job token epoch, BoundSince job token epoch s.log → Held job token epoch s.document

theorem BoundSince.snoc {job token : String} {epoch : Int} {log : List (Transaction × Reply)} {entry : Transaction × Reply}
    (since : BoundSince job token epoch (log ++ [entry])) :
    (∃ now, entry = (.bind job token epoch now, .bound)) ∨ BoundSince job token epoch log ∧ ¬ Ends job token epoch entry := by
  obtain ⟨before, now, after, split, going⟩ := since
  rcases List.eq_nil_or_concat after with rfl | ⟨rest, last, rfl⟩
  · have last := (List.append_inj' split rfl).2
    exact .inl ⟨now, List.singleton_inj.mp last⟩
  · rw [List.concat_eq_append] at split going
    rw [← List.cons_append, ← List.append_assoc] at split
    obtain ⟨same, last_eq⟩ := List.append_inj' split rfl
    rw [List.singleton_inj.mp last_eq]
    refine .inr ⟨⟨before, now, rest, same, ?_⟩, going last (by simp)⟩
    intro other member
    exact going other (List.mem_append_left _ member)

theorem Sound.act {s : Ledger} (sound : Sound s) (x : Transaction) : Sound (s.act x) := by
  have effect := x.run_effect s.document
  constructor
  · intro tag
    have before := sound.marks tag
    have step := effect.marks tag
    rw [Ledger.act, List.countP_append, List.countP_singleton]
    simp only at step ⊢
    cases mark : OmiLocal.Sync.marks tag (x, (x.run s.document).2) <;> simp [mark] at step ⊢ <;> omega
  · intro opened
    exact effect.result_recorded (sound.recorded opened)
  · intro opened job token epoch since
    rcases since.snoc with ⟨now, entry⟩ | ⟨earlier, going⟩
    · obtain ⟨rfl, bound⟩ := Prod.mk.inj entry
      exact effect.held_of_bind bound
    · exact (sound.held opened job token epoch earlier).step (sound.recorded opened) effect going

theorem Sound.reached {s : Ledger} (reachable : Transition.Reachable Ledger.Initial Ledger.Step s) : Sound s := by
  apply reachable.invariant
  · rintro t ⟨same, empty⟩
    constructor
    · intro tag
      rw [empty]
      exact Nat.zero_le _
    · intro opened
      rw [same]
      exact opened
    · rintro _ job token epoch ⟨before, now, after, split, _⟩
      rw [empty] at split
      simp at split
  · rintro t x u sound rfl
    exact sound.act x

end OmiLocal.Sync
