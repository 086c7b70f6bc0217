import OmiLocal.Memory.OutboxConvergence

/-!
# What a lease protects

A document is settled by the claim of its newest epoch only, at most once for
each claim, and never again once it is delivered or dead. The attempts it counts
are failures that were settled, one for a claim at most.
-/
namespace OmiLocal.Memory
open Lib Lib.Transition

variable {x : IndexedAccount} {p : Platform}

/-- Delivered or dead. -/
def OutboxDocument.Final (doc : OutboxDocument) : Prop := doc.status = .delivered ∨ doc.status = .deadLetter

/-- What a run may make of a document. Within one epoch a claim settles it at most once. -/
structure OutboxDocument.Grows (doc doc' : OutboxDocument) : Prop where
  event : doc'.event = doc.event
  epoch : doc.leaseEpoch ≤ doc'.leaseEpoch
  attempts : doc.attemptCount ≤ doc'.attemptCount
  final : doc.Final → doc' = doc
  once : doc'.leaseEpoch = doc.leaseEpoch → doc' = doc ∨ doc.status = .processing ∧ doc'.status ≠ .processing

theorem OutboxDocument.Grows.refl (doc : OutboxDocument) : doc.Grows doc :=
  ⟨rfl, Nat.le_refl _, Nat.le_refl _, fun _ => rfl, fun _ => .inl rfl⟩

theorem OutboxDocument.Grows.trans {a b c : OutboxDocument} (first : a.Grows b) (second : b.Grows c) : a.Grows c where
  event := second.event.trans first.event
  epoch := Nat.le_trans first.epoch second.epoch
  attempts := Nat.le_trans first.attempts second.attempts
  final ended := by
    obtain rfl := first.final ended
    exact second.final ended
  once same := by
    have low := first.epoch
    have high := second.epoch
    have before : b.leaseEpoch = a.leaseEpoch := by omega
    have after : c.leaseEpoch = b.leaseEpoch := by omega
    rcases first.once before with rfl | ⟨under, settled⟩
    · exact second.once same
    · rcases second.once after with rfl | ⟨again, -⟩
      · exact .inr ⟨under, settled⟩
      · exact absurd again settled

/-- The attempts of a document are settled claims; the claim under way is not one of them. -/
def OutboxDocument.Counted (doc : OutboxDocument) : Prop :=
  doc.attemptCount + (if doc.status = .processing then 1 else 0) ≤ doc.leaseEpoch

namespace Outbox
variable {s t : Outbox}

/-- What the leases of a state rely on. -/
structure Leased (s : Outbox) : Prop where
  counted : ∀ documentId doc, Dict.get s.documents documentId = some doc → doc.Counted
  attempts : ∀ d ∈ s.deliveries, s.holds d = true → ∀ doc, Dict.get s.documents d.lease.documentId = some doc →
    doc.attemptCount = d.lease.rawEvent.attemptCount

/-- The documents, each as it was or grown. -/
def DocumentsGrow (s t : Outbox) : Prop :=
  ∀ documentId doc, Dict.get s.documents documentId = some doc →
    ∃ doc', Dict.get t.documents documentId = some doc' ∧ doc.Grows doc'

theorem documentsGrow_same (same : t.documents = s.documents) : s.DocumentsGrow t := by
  intro documentId doc found
  rw [same]
  exact ⟨doc, found, .refl doc⟩

theorem Leased.same (h : s.Leased) (documents : t.documents = s.documents)
    (deliveries : ∀ e ∈ t.deliveries, ∃ d ∈ s.deliveries, e.lease = d.lease) : t.Leased where
  counted := by
    rw [documents]
    exact h.counted
  attempts e under holds doc found := by
    obtain ⟨d, inside, lease⟩ := deliveries e under
    have held : s.holds d = true := by
      unfold Outbox.holds at holds ⊢
      rwa [documents, lease] at holds
    rw [documents, lease] at found
    rw [lease]
    exact h.attempts d inside held doc found

/-! ## Steps -/

theorem Leased.committed (h : s.Leased) (tracked : s.Tracked x) (c : Committed) : (s.committed c).Leased where
  counted documentId doc found := by
    cases known : Dict.get s.documents documentId with
    | some doc' =>
        obtain rfl := Option.some.inj ((get_document_old known).symm.trans found)
        exact h.counted documentId doc' known
    | none =>
        have absent : documentId ∉ Dict.keys s.documents := by
          intro member
          obtain ⟨doc', member⟩ := Dict.mem_keys.mp member
          have empty := Option.map_eq_none_iff.mp known
          exact absurd (List.find?_eq_none.mp empty _ member) (by simp)
        rcases List.mem_append.mp (Dict.get_eq_some found) with old | new
        · exact absurd (Dict.mem_keys_of_mem old) absent
        · obtain ⟨e, -, same⟩ := List.mem_map.mp new
          obtain rfl : e.document = doc := congrArg Prod.snd same
          exact Nat.le_refl _
  attempts d under holds doc found := by
    obtain ⟨doc', known, -⟩ := tracked.known d under
    obtain rfl := Option.some.inj ((get_document_old known).symm.trans found)
    refine h.attempts d under ?_ doc' known
    unfold Outbox.holds at holds ⊢
    rwa [found, ← known] at holds

theorem claimable_open {doc : OutboxDocument} {now : Int} (claimable : doc.isClaimable now = true) : ¬doc.Final := by
  unfold OutboxDocument.isClaimable at claimable
  rintro (delivered | dead)
  · rw [delivered] at claimable
    cases claimable
  · rw [dead] at claimable
    cases claimable

/-- A claim begins a new epoch. -/
theorem claim_grows {doc : OutboxDocument} {now : Int} (claimable : doc.isClaimable now = true)
    (config : CanonicalMemoryOutboxWorkerConfig) : doc.Grows (doc.claim config now) where
  event := rfl
  epoch := Nat.le_succ _
  attempts := Nat.le_refl _
  final ended := absurd ended (claimable_open claimable)
  once same := absurd same (Nat.succ_ne_self _)

theorem claim_counted {doc : OutboxDocument} (counted : doc.Counted) (config : CanonicalMemoryOutboxWorkerConfig) (now : Int) :
    (doc.claim config now).Counted := by
  unfold OutboxDocument.Counted at counted ⊢
  change doc.attemptCount + 1 ≤ doc.leaseEpoch + 1
  omega

theorem Leased.claimed (h : s.Leased) (tracked : s.Tracked x) {documentId : String} {doc : OutboxDocument}
    (found : Dict.get s.documents documentId = some doc) (config : CanonicalMemoryOutboxWorkerConfig) (now : Int) :
    (s.claimed documentId doc config now).Leased where
  counted id other here := by
    change Dict.get (Dict.put s.documents documentId (doc.claim config now)) id = some other at here
    by_cases same : id = documentId
    · subst same
      rw [Dict.get_put_self] at here
      cases here
      exact claim_counted (h.counted _ _ found) config now
    · rw [Dict.get_put_other _ same] at here
      exact h.counted id other here
  attempts d under holds other here := by
    change Dict.get (Dict.put s.documents documentId (doc.claim config now)) _ = some other at here
    rcases List.mem_append.mp under with old | new
    · by_cases same : d.lease.documentId = documentId
      · -- the claim has taken the document over
        obtain ⟨known, found', -, epoch⟩ := tracked.known d old
        obtain ⟨held, found'', -, -, owns⟩ := holds_iff.mp holds
        change Dict.get (Dict.put s.documents documentId (doc.claim config now)) _ = some held at found''
        rw [same, Dict.get_put_self] at found''
        cases found''
        rw [same, found] at found'
        cases found'
        change doc.leaseEpoch + 1 = d.lease.leaseEpoch at owns
        omega
      · rw [Dict.get_put_other _ same] at here
        exact h.attempts d old ((holds_put_other same).symm.trans holds) other here
    · obtain rfl := List.mem_singleton.mp new
      rw [Dict.get_put_self] at here
      cases here
      rfl

/-- What the two patches have in common. -/
structure Settles (doc doc' : OutboxDocument) : Prop where
  event : doc'.event = doc.event
  epoch : doc'.leaseEpoch = doc.leaseEpoch
  attempts : doc'.attemptCount = doc.attemptCount ∨ doc'.attemptCount = doc.attemptCount + 1
  settled : doc'.status ≠ .processing

theorem Settles.grows {doc doc' : OutboxDocument} (h : Settles doc doc') (under : doc.status = .processing) : doc.Grows doc' where
  event := h.event
  epoch := Nat.le_of_eq h.epoch.symm
  attempts := by
    rcases h.attempts with same | more
    · exact Nat.le_of_eq same.symm
    · rw [more]
      exact Nat.le_succ _
  final ended := by
    rcases ended with delivered | dead
    · rw [under] at delivered
      cases delivered
    · rw [under] at dead
      cases dead
  once _ := .inr ⟨under, h.settled⟩

theorem Settles.counted {doc doc' : OutboxDocument} (h : Settles doc doc') (under : doc.status = .processing)
    (counted : doc.Counted) : doc'.Counted := by
  unfold OutboxDocument.Counted at counted ⊢
  rw [if_pos under] at counted
  rw [if_neg h.settled, h.epoch]
  rcases h.attempts with same | more
  · omega
  · omega

theorem settles_acknowledged (doc : OutboxDocument) : Settles doc doc.acknowledged :=
  ⟨rfl, rfl, .inl rfl, fun other => by cases other⟩

theorem settles_failed {lease : LeasedMemoryOutboxEvent} {doc : OutboxDocument}
    (attempts : doc.attemptCount = lease.rawEvent.attemptCount) (errorCode : String) : Settles doc (lease.failed errorCode doc) := by
  refine ⟨rfl, rfl, .inr (by rw [attempts]; rfl), ?_⟩
  unfold LeasedMemoryOutboxEvent.failed
  dsimp only
  split
  · exact fun other => by cases other
  · exact fun other => by cases other

/-- The end of a claim: its document is as it was, or the claim held it and settled it. -/
theorem settle_documents (s : Outbox) (k : Nat) (d : Delivery) (change : OutboxDocument → OutboxDocument) (repaired committed : Bool) :
    (∃ lost, s.settle x k d change repaired committed = { s with deliveries := s.deliveries.eraseIdx k, lost }) ∨
      ∃ doc lost, s.holds d = true ∧ Dict.get s.documents d.lease.documentId = some doc ∧ doc.status = .processing ∧
        s.settle x k d change repaired committed = { s with
          documents := Dict.put s.documents d.lease.documentId (change doc)
          deliveries := s.deliveries.eraseIdx k
          lost } := by
  unfold Outbox.settle
  split
  · exact .inl ⟨_, rfl⟩
  · rename_i keeps
    have holds : s.holds d = true := by simpa using keeps
    split
    · obtain ⟨doc, found, under, -, -⟩ := holds_iff.mp holds
      have patched : s.patch d change = { s with documents := Dict.put s.documents d.lease.documentId (change doc) } := by
        unfold Outbox.patch
        rw [found]
      rw [patched]
      exact .inr ⟨doc, _, holds, found, under, rfl⟩
    · exact .inl ⟨_, rfl⟩

/-- A claim that ends, whichever patch it brings. -/
theorem Leased.settled (h : s.Leased) (k : Nat) {d : Delivery} {change : OutboxDocument → OutboxDocument} (settles : ∀ doc, s.holds d = true →
      Dict.get s.documents d.lease.documentId = some doc → Settles doc (change doc)) (repaired committed : Bool) :
    (s.settle x k d change repaired committed).Leased ∧ s.DocumentsGrow (s.settle x k d change repaired committed) := by
  rcases settle_documents (x := x) s k d change repaired committed with ⟨lost, same⟩ | ⟨doc, lost, holds, found, under, same⟩
  · rw [same]
    exact ⟨h.same rfl fun e inside => ⟨e, List.mem_of_mem_eraseIdx inside, rfl⟩, documentsGrow_same rfl⟩
  · have settled := settles doc holds found
    rw [same]
    refine ⟨⟨fun id other there => ?_, fun e inside held other there => ?_⟩, fun id other there => ?_⟩
    · by_cases mine : id = d.lease.documentId
      · subst mine
        change Dict.get (Dict.put s.documents d.lease.documentId (change doc)) _ = some other at there
        rw [Dict.get_put_self] at there
        cases there
        exact settled.counted under (h.counted _ _ found)
      · exact h.counted id other ((Dict.get_put_other _ mine _).symm.trans there)
    · by_cases mine : e.lease.documentId = d.lease.documentId
      · obtain ⟨doc', found', under', -, -⟩ := holds_iff.mp held
        change Dict.get (Dict.put s.documents d.lease.documentId (change doc)) _ = some doc' at found'
        rw [mine, Dict.get_put_self] at found'
        cases found'
        exact absurd under' settled.settled
      · have before : Dict.get s.documents e.lease.documentId = some other := (Dict.get_put_other _ mine _).symm.trans there
        exact h.attempts e (List.mem_of_mem_eraseIdx inside) ((holds_put_other mine).symm.trans held) other before
    · by_cases mine : id = d.lease.documentId
      · subst mine
        rw [found] at there
        cases there
        exact ⟨change doc, Dict.get_put_self _ _ _, settled.grows under⟩
      · exact ⟨other, (Dict.get_put_other _ mine _).trans there, .refl other⟩

theorem Leased.move (h : s.Leased) {k : Nat} {d : Delivery} (here : s.deliveries[k]? = some d) {m : Move}
    (done : s.move x k d m = some t) : t.Leased ∧ s.DocumentsGrow t := by
  have onward : ∀ {provider stage unverified}, ({ s with provider := provider }.set k { d with stage := stage, unverified := unverified }).Leased ∧
      s.DocumentsGrow ({ s with provider := provider }.set k { d with stage := stage, unverified := unverified }) := by
    intro provider stage unverified
    refine ⟨h.same rfl fun e inside => ?_, documentsGrow_same rfl⟩
    rcases List.mem_or_eq_of_mem_set inside with old | rfl
    · exact ⟨e, old, rfl⟩
    · exact ⟨d, List.mem_of_getElem? here, rfl⟩
  cases m with
  | start read =>
      simp only [Outbox.move] at done
      split at done
      · cases done
        obtain ⟨stage, same, -⟩ := start_spec x s k d read
        rw [same]
        exact onward
      · cases done
  | write effect =>
      simp only [Outbox.move] at done
      split at done
      · cases done
        unfold Outbox.write
        rcases effect with _ | (_ | _)
        · exact onward
        · exact onward
        · exact onward
      · cases done
  | verify read =>
      simp only [Outbox.move] at done
      split at done
      · cases done
        unfold Outbox.verify
        dsimp only
        split
        · exact onward
        · split
          · exact onward
          · split
            · exact onward
            · split <;> exact onward
      · cases done
  | settle committed =>
      simp only [Outbox.move] at done
      split at done
      · cases done
        exact h.settled k (fun doc _ _ => settles_acknowledged doc) _ _
      · cases done
        exact h.settled k (fun doc holds found =>
          settles_failed (h.attempts d (List.mem_of_getElem? here) holds doc found) _) _ _
      · cases done
  | crash =>
      cases done
      exact ⟨h.same rfl fun e inside => ⟨e, List.mem_of_mem_eraseIdx inside, rfl⟩, documentsGrow_same rfl⟩

theorem Leased.step (h : s.Leased) (tracked : s.Tracked x) {a : Action} (step : Step x p s a t) : t.Leased ∧ s.DocumentsGrow t := by
  cases step with
  | @commit c commits =>
      exact ⟨h.committed tracked c, fun documentId doc found => ⟨doc, get_document_old found, .refl doc⟩⟩
  | @claim documentId doc config now found claimable =>
      refine ⟨h.claimed tracked found config now, fun id other here => ?_⟩
      by_cases same : id = documentId
      · subst same
        rw [found] at here
        cases here
        exact ⟨doc.claim config now, Dict.get_put_self _ _ _, claim_grows claimable config⟩
      · exact ⟨other, (Dict.get_put_other _ same _).trans here, .refl other⟩
  | move here done => exact h.move here done

/-! ## Runs -/

theorem Reached.leased (reached : Reached x p s) : s.Tracked x ∧ s.Leased := by
  refine ⟨reached.kept.1, ?_⟩
  induction reached with
  | start started =>
      refine ⟨fun documentId doc found => ?_, fun d under => ?_⟩
      · rw [started.documents] at found
        cases found
      · rw [started.deliveries] at under
        cases under
  | next before step ih => exact (ih.step (Reached.kept before).1 step).1

theorem Reached.grows (reached : Reached x p s) (run : Reaches (Step x p) s t) : s.DocumentsGrow t := by
  induction run with
  | refl => exact documentsGrow_same rfl
  | tail before step ih =>
      obtain ⟨a, step⟩ := step
      obtain ⟨tracked, leased⟩ := Reached.leased (Reachable.after reached before)
      obtain ⟨-, grows⟩ := leased.step tracked step
      intro documentId doc found
      obtain ⟨doc', found', grown⟩ := ih documentId doc found
      obtain ⟨doc'', found'', grown'⟩ := grows documentId doc' found'
      exact ⟨doc'', found'', grown.trans grown'⟩

/-- Over any stretch of any run: no document is lost or changes its event, its epoch and its attempts only grow, within one
epoch it is settled once at most, and delivered or dead it stays as it is. Attempts are settled claims, and no two claims
under way hold one document. -/
theorem documents_settled_once (x : IndexedAccount) (p : Platform) (s t : Outbox) (reached : Reached x p s)
    (run : Reaches (Step x p) s t) :
    s.DocumentsGrow t ∧
      (∀ documentId doc, Dict.get t.documents documentId = some doc →
        doc.attemptCount + (if doc.status = .processing then 1 else 0) ≤ doc.leaseEpoch) ∧
      ∀ (j k : Nat) (d e : Delivery), t.deliveries[j]? = some d → t.deliveries[k]? = some e → t.holds d = true →
        t.holds e = true → e.lease.documentId = d.lease.documentId → k = j := by
  obtain ⟨tracked, leased⟩ := Reached.leased (Reachable.after reached run)
  exact ⟨reached.grows run, leased.counted, fun j k d e here there first second same =>
    tracked.holder_unique here there same first second⟩

/-- The sample run up to its claim. -/
theorem sample_settled : ∃ s, (sampleOutbox.committed sampleCommitted).DocumentsGrow s ∧ s.deliveries.length = 1 ∧
    s.documents.length = 2 := by
  have started : Started ⟨"u", false⟩ sampleOutbox := ⟨rfl, rfl, fun eventType memoryId => by cases eventType <;> rfl⟩
  have committed := (Reachable.start started : Reached ⟨"u", false⟩ eventPlatform sampleOutbox).next (.commit sample_commits_outbox)
  obtain ⟨grows, -, -⟩ := documents_settled_once ⟨"u", false⟩ eventPlatform (sampleOutbox.committed sampleCommitted) _ committed
    (.single ⟨_, @Step.claim _ _ _ sampleDocument _ sampleConfig 1 rfl rfl⟩)
  exact ⟨_, grows, rfl, rfl⟩

end Outbox
end OmiLocal.Memory
