import OmiLocal.Mcp.OauthSafety

/-!
# A revocation reaches every token

`revoke_grant` asks for the tokens of its grant and marks them one by one, while
exchanges and rotations go on elsewhere. It misses none: it marks the grant
first, and a marked grant gets no new token. What it has marked stays marked.
-/
namespace OmiLocal.Mcp

open Lib Lib.Dict Lib.Transition

variable {cfg : Config} {s t : State}

/-- Every token of the grant without a mark is still in the list. -/
def AccessMarked (s : State) (grantId : String) (left : List String) : Prop :=
  ∀ k a, get s.accessTokens k = some a → a.grantId = grantId → a.revokedAt = none → k ∈ left

def RefreshMarked (s : State) (grantId : String) (left : List String) : Prop :=
  ∀ k r, get s.refreshTokens k = some r → r.grantId = grantId → r.revokedAt = none → k ∈ left

/-- What a step does to the tokens: marks stay, and new tokens are of grants that no one has revoked. -/
structure Follows (s t : State) : Prop where
  log : ∀ e ∈ s.log, e ∈ t.log
  grants : ∀ g grant, get s.grants g = some grant → ∃ grant', get t.grants g = some grant'
  access : ∀ k a, get t.accessTokens k = some a →
    (∃ old, get s.accessTokens k = some old ∧ old.grantId = a.grantId ∧ (a.revokedAt = none → old.revokedAt = none)) ∨
      .revoked a.grantId ∉ s.log
  refresh : ∀ k r, get t.refreshTokens k = some r →
    (∃ old, get s.refreshTokens k = some old ∧ old.grantId = r.grantId ∧ (r.revokedAt = none → old.revokedAt = none)) ∨
      .revoked r.grantId ∉ s.log

theorem Follows.accessMarked (follows : Follows s t) {g : String} {left : List String} (revoked : .revoked g ∈ s.log)
    (marked : AccessMarked s g left) : AccessMarked t g left := by
  intro k a found same none
  rcases follows.access k a found with ⟨old, before, grant, unmarked⟩ | free
  · exact marked k old before (grant.trans same) (unmarked none)
  · rw [same] at free
    exact absurd revoked free

theorem Follows.refreshMarked (follows : Follows s t) {g : String} {left : List String} (revoked : .revoked g ∈ s.log)
    (marked : RefreshMarked s g left) : RefreshMarked t g left := by
  intro k r found same none
  rcases follows.refresh k r found with ⟨old, before, grant, unmarked⟩ | free
  · exact marked k old before (grant.trans same) (unmarked none)
  · rw [same] at free
    exact absurd revoked free

theorem Follows.refl (s : State) : Follows s s where
  log := fun _ member => member
  grants := fun _ grant found => ⟨grant, found⟩
  access := fun _ a found => .inl ⟨a, found, rfl, id⟩
  refresh := fun _ r found => .inl ⟨r, found, rfl, id⟩

theorem Follows.trans {u : State} (first : Follows s t) (second : Follows t u) : Follows s u := by
  refine ⟨fun e member => second.log e (first.log e member), ?_, ?_, ?_⟩
  · intro g grant found
    obtain ⟨grant', found'⟩ := first.grants g grant found
    exact second.grants g grant' found'
  · intro k a found
    rcases second.access k a found with ⟨mid, here, grant, unmarked⟩ | free
    · rcases first.access k mid here with ⟨old, before, grant', unmarked'⟩ | free
      · exact .inl ⟨old, before, grant'.trans grant, fun none => unmarked' (unmarked none)⟩
      · rw [grant] at free
        exact .inr free
    · exact .inr fun member => free (first.log _ member)
  · intro k r found
    rcases second.refresh k r found with ⟨mid, here, grant, unmarked⟩ | free
    · rcases first.refresh k mid here with ⟨old, before, grant', unmarked'⟩ | free
      · exact .inl ⟨old, before, grant'.trans grant, fun none => unmarked' (unmarked none)⟩
      · rw [grant] at free
        exact .inr free
    · exact .inr fun member => free (first.log _ member)

/-- A step that leaves the tokens alone. -/
theorem Follows.quiet (log : ∀ e ∈ s.log, e ∈ t.log)
    (grants : ∀ g grant, get s.grants g = some grant → ∃ grant', get t.grants g = some grant')
    (access : t.accessTokens = s.accessTokens) (refresh : t.refreshTokens = s.refreshTokens) : Follows s t := by
  refine ⟨log, grants, ?_, ?_⟩
  · intro k a found
    rw [access] at found
    exact .inl ⟨a, found, rfl, id⟩
  · intro k r found
    rw [refresh] at found
    exact .inl ⟨r, found, rfl, id⟩

theorem grants_put (grants : List (String × Grant)) (g : String) (next : Grant) (g' : String) (grant : Grant)
    (found : get grants g' = some grant) : ∃ grant', get (put grants g next) g' = some grant' := by
  by_cases same : g' = g
  · subst same
    exact ⟨next, get_put_self ..⟩
  · exact ⟨grant, (get_put_other grants same next).trans found⟩

theorem follows_createGrantAndCode {uid clientId redirectUri resource codeChallenge rawCode uuid : String}
    {scopes : List String} {now : Int}
    (done : cfg.createGrantAndCode s uid clientId redirectUri resource scopes codeChallenge rawCode uuid now = some t) :
    Follows s t ∧ t.revoking = s.revoking ∧ (∀ g, .swept g ∈ t.log → .swept g ∈ s.log) := by
  unfold Config.createGrantAndCode at done
  simp only at done
  split at done
  · cases done
    exact ⟨.refl s, rfl, fun _ member => member⟩
  · split at done
    · cases done
    · cases done
      refine ⟨.quiet (fun _ member => List.mem_cons_of_mem _ member) (grants_put _ _ _) rfl rfl, rfl, fun g member => ?_⟩
      simpa using member

theorem follows_issue (s : State) (d : Draw) (pair : TokenPair) (g : String) (grant : Grant) (now : Int)
    (access : .revoked pair.access.grantId ∉ s.log) (refresh : .revoked pair.refresh.grantId ∉ s.log) :
    Follows s (cfg.issue s d pair g grant now) := by
  refine ⟨fun _ member => member, grants_put _ _ _, ?_, ?_⟩
  · intro k a found
    rcases get_put_cases found with ⟨-, rfl⟩ | ⟨-, old⟩
    · exact .inr access
    · exact .inl ⟨a, old, rfl, id⟩
  · intro k r found
    rcases get_put_cases found with ⟨-, rfl⟩ | ⟨-, old⟩
    · exact .inr refresh
    · exact .inl ⟨r, old, rfl, id⟩

/-- A token document that keeps its grant, and its mark if it has one. -/
theorem follows_putRefresh {k : String} {r : RefreshToken} (found : get s.refreshTokens k = some r)
    (next : RefreshToken) (same : next.grantId = r.grantId) (kept : next.revokedAt = none → r.revokedAt = none) :
    Follows s { s with refreshTokens := put s.refreshTokens k next } := by
  refine ⟨fun _ member => member, fun _ grant found => ⟨grant, found⟩, fun _ a found => .inl ⟨a, found, rfl, id⟩, ?_⟩
  intro k' r' found'
  rcases get_put_cases found' with ⟨rfl, rfl⟩ | ⟨-, old⟩
  · exact .inl ⟨r, found, same.symm, kept⟩
  · exact .inl ⟨r', old, rfl, id⟩

theorem follows_putAccess {k : String} {a : AccessToken} (found : get s.accessTokens k = some a)
    (next : AccessToken) (same : next.grantId = a.grantId) (kept : next.revokedAt = none → a.revokedAt = none) :
    Follows s { s with accessTokens := put s.accessTokens k next } := by
  refine ⟨fun _ member => member, fun _ grant found => ⟨grant, found⟩, ?_, fun _ r found => .inl ⟨r, found, rfl, id⟩⟩
  intro k' a' found'
  rcases get_put_cases found' with ⟨rfl, rfl⟩ | ⟨-, old⟩
  · exact .inl ⟨a, found, same.symm, kept⟩
  · exact .inl ⟨a', old, rfl, id⟩

theorem follows_note (s : State) (e : Entry) : Follows s { s with log := e :: s.log } :=
  .quiet (fun _ member => List.mem_cons_of_mem e member) (fun _ grant found => ⟨grant, found⟩) rfl rfl

theorem follows_exchange (inv : Inv cfg s) {rawCode clientId redirectUri resource codeVerifier : String} {now : Int}
    {d : Draw} (done : cfg.exchange s rawCode clientId redirectUri resource codeVerifier now d = some t) :
    Follows s t ∧ t.revoking = s.revoking ∧ (∀ g, .swept g ∈ t.log → .swept g ∈ s.log) := by
  have same : Follows s s ∧ s.revoking = s.revoking ∧ (∀ g, .swept g ∈ s.log → .swept g ∈ s.log) :=
    ⟨.refl s, rfl, fun _ member => member⟩
  unfold Config.exchange at done
  simp only at done
  split at done
  · cases done
    exact same
  rename_i data found
  split at done
  · cases done
    exact same
  split at done
  · cases done
    exact same
  split at done
  · cases done
    exact same
  split at done
  · cases done
    exact same
  rename_i grant holder
  split at done
  · cases done
    exact same
  rename_i active
  split at done
  · cases done
  cases done
  have free := inv.not_revoked holder (by simpa using active)
  refine ⟨?_, rfl, fun g member => ?_⟩
  · apply Follows.trans
      (follows_issue s d (cfg.tokenPair data.grantId grant data.scopes d.tokenFamilyId now) data.grantId grant now free free)
    exact .quiet (fun _ member => List.mem_cons_of_mem _ member) (fun _ grant found => ⟨grant, found⟩) rfl rfl
  · simpa [Config.issue] using member

theorem follows_rotate (inv : Inv cfg s) {refreshToken clientId resource : String} {scope : Option String} {now : Int}
    {d : Draw} (done : cfg.rotate s refreshToken clientId resource scope now d = some t) :
    Follows s t ∧ (∀ p ∈ t.revoking, p ∈ s.revoking ∨ p.stage = .grant ∧ ∃ grant, get t.grants p.grantId = some grant) ∧
      (∀ g, .swept g ∈ t.log → .swept g ∈ s.log) := by
  have same : Follows s s ∧
      (∀ p ∈ s.revoking, p ∈ s.revoking ∨ p.stage = .grant ∧ ∃ grant, get s.grants p.grantId = some grant) ∧
      (∀ g, .swept g ∈ s.log → .swept g ∈ s.log) := ⟨.refl s, fun _ member => .inl member, fun _ member => member⟩
  unfold Config.rotate at done
  simp only at done
  split at done
  · cases done
    exact same
  rename_i data found
  split at done
  · cases done
    exact same
  rename_i grant holder
  split at done
  · cases done
    exact same
  rename_i good
  split at done
  · cases done
    refine ⟨?_, ?_, fun g member => ?_⟩
    · apply Follows.trans (follows_putRefresh found { data with replayDetectedAt := some now, revokedAt := some now } rfl
        (fun none => by cases none))
      exact .quiet (fun _ member => List.mem_cons_of_mem _ member) (grants_put _ _ _) rfl rfl
    · intro p member
      rcases List.mem_append.mp member with old | new
      · exact .inl old
      · rw [List.mem_singleton.mp new]
        exact .inr ⟨rfl, _, get_put_self ..⟩
    · simpa [Config.replayed] using member
  split at done
  · cases done
    exact same
  rename_i requested asked
  split at done
  · cases done
    exact same
  split at done
  · cases done
  rename_i fresh
  cases done
  have fresh := Decidable.not_not.mp fresh
  simp only [not_or, Bool.not_eq_true] at good
  have free := inv.not_revoked holder good.2.2.2.2
  have other : cfg.hashSecret refreshToken ≠ cfg.hashSecret d.refreshToken :=
    fun same => fresh.2.1 (same ▸ (inv.refresh _ data found).1)
  refine ⟨?_, fun p member => .inl member, fun g member => ?_⟩
  · let pair := cfg.tokenPair data.grantId grant requested data.tokenFamilyId now
    have known : get (cfg.issue s d pair data.grantId grant now).refreshTokens (cfg.hashSecret refreshToken) = some data :=
      (get_put_other s.refreshTokens other _).trans found
    apply Follows.trans (follows_issue s d pair data.grantId grant now free free)
    apply Follows.trans (follows_putRefresh known
      { data with usedAt := some now, replacedBy := some (cfg.hashSecret d.refreshToken) } rfl id)
    exact follows_note _ _
  · simpa [Config.issue] using member

/-! ## The sweep -/

def StageOk (s : State) (p : Revoking) : Prop :=
  match p.stage with
  | .grant => ∃ grant, get s.grants p.grantId = some grant
  | .findAccess => .revoked p.grantId ∈ s.log
  | .access left => .revoked p.grantId ∈ s.log ∧ AccessMarked s p.grantId left
  | .findRefresh => .revoked p.grantId ∈ s.log ∧ AccessMarked s p.grantId []
  | .refresh left => .revoked p.grantId ∈ s.log ∧ AccessMarked s p.grantId [] ∧ RefreshMarked s p.grantId left

theorem StageOk.follows {p : Revoking} (ok : StageOk s p) (follows : Follows s t) : StageOk t p := by
  unfold StageOk at ok ⊢
  split <;> simp_all only
  · obtain ⟨grant, found⟩ := ok
    exact follows.grants _ grant found
  · exact follows.log _ ok
  · exact ⟨follows.log _ ok.1, follows.accessMarked ok.1 ok.2⟩
  · exact ⟨follows.log _ ok.1, follows.accessMarked ok.1 ok.2⟩
  · exact ⟨follows.log _ ok.1, follows.accessMarked ok.1 ok.2.1, follows.refreshMarked ok.1 ok.2.2⟩

/-- A finished sweep. -/
def Swept (s : State) (grantId : String) : Prop :=
  .revoked grantId ∈ s.log ∧ AccessMarked s grantId [] ∧ RefreshMarked s grantId []

theorem Swept.follows {g : String} (swept : Swept s g) (follows : Follows s t) : Swept t g :=
  ⟨follows.log _ swept.1, follows.accessMarked swept.1 swept.2.1, follows.refreshMarked swept.1 swept.2.2⟩

structure Sweeping (s : State) : Prop where
  processes : ∀ p ∈ s.revoking, StageOk s p
  swept : ∀ g, .swept g ∈ s.log → Swept s g

theorem Sweeping.follows (sweeping : Sweeping s) (follows : Follows s t)
    (processes : ∀ p ∈ t.revoking, p ∈ s.revoking ∨ StageOk t p)
    (log : ∀ g, .swept g ∈ t.log → .swept g ∈ s.log ∨ Swept t g) : Sweeping t := by
  refine ⟨?_, ?_⟩
  · intro p member
    rcases processes p member with old | new
    · exact (sweeping.processes p old).follows follows
    · exact new
  · intro g member
    rcases log g member with old | new
    · exact (sweeping.swept g old).follows follows
    · exact new

theorem follows_markGrant (s : State) (g : String) (replayDetected : Bool) (now : Int) :
    Follows s (s.markGrant g replayDetected now) := by
  unfold State.markGrant
  split
  · exact .refl s
  · exact .quiet (fun _ member => List.mem_cons_of_mem _ member) (grants_put _ _ _) rfl rfl

theorem follows_markAccess (s : State) (reference : String) (now : Int) :
    Follows s (s.markAccess reference now) := by
  unfold State.markAccess
  split
  · exact .refl s
  · rename_i data found
    exact follows_putAccess found _ rfl (fun none => by cases none)

theorem follows_markRefresh (s : State) (reference : String) (now : Int) :
    Follows s (s.markRefresh reference now) := by
  unfold State.markRefresh
  split
  · exact .refl s
  · rename_i data found
    exact follows_putRefresh found _ rfl (fun none => by cases none)

theorem markAccess_marks {g reference : String} {left : List String} (marked : AccessMarked s g (reference :: left))
    (now : Int) : AccessMarked (s.markAccess reference now) g left := by
  intro k a found same none
  unfold State.markAccess at found
  split at found
  · rename_i missing
    rcases List.mem_cons.mp (marked k a found same none) with rfl | later
    · rw [missing] at found
      cases found
    · exact later
  · rcases get_put_cases found with ⟨rfl, rfl⟩ | ⟨other, old⟩
    · cases none
    · exact (List.mem_cons.mp (marked k a old same none)).resolve_left other

theorem markRefresh_marks {g reference : String} {left : List String} (marked : RefreshMarked s g (reference :: left))
    (now : Int) : RefreshMarked (s.markRefresh reference now) g left := by
  intro k r found same none
  unfold State.markRefresh at found
  split at found
  · rename_i missing
    rcases List.mem_cons.mp (marked k r found same none) with rfl | later
    · rw [missing] at found
      cases found
    · exact later
  · rcases get_put_cases found with ⟨rfl, rfl⟩ | ⟨other, old⟩
    · cases none
    · exact (List.mem_cons.mp (marked k r old same none)).resolve_left other

/-- A query finds every token of the grant. -/
theorem found_access (s : State) (g : String) :
    AccessMarked s g ((s.accessTokens.filter fun e => e.2.grantId = g).map Prod.fst) := by
  intro k a found same _
  exact List.mem_map.mpr ⟨(k, a), List.mem_filter.mpr ⟨get_eq_some found, by simp [same]⟩, rfl⟩

theorem found_refresh (s : State) (g : String) :
    RefreshMarked s g ((s.refreshTokens.filter fun e => e.2.grantId = g).map Prod.fst) := by
  intro k r found same _
  exact List.mem_map.mpr ⟨(k, r), List.mem_filter.mpr ⟨get_eq_some found, by simp [same]⟩, rfl⟩

/-- One step of a revocation: it follows, what is left of it is in order, and its end leaves nothing unmarked. -/
theorem advance_spec {p : Revoking} (ok : StageOk s p) (now : Int) :
    Follows s (p.advance s now).1 ∧ (p.advance s now).1.revoking = s.revoking ∧
      (∀ q, (p.advance s now).2 = some q → StageOk (p.advance s now).1 q) ∧
      (∀ g, .swept g ∈ (p.advance s now).1.log → .swept g ∈ s.log ∨ Swept (p.advance s now).1 g) := by
  obtain ⟨grantId, replayDetected, stage⟩ := p
  cases stage with
  | grant =>
      obtain ⟨grant, found⟩ := ok
      refine ⟨follows_markGrant .., ?_, ?_, ?_⟩
      · simp only [Revoking.advance, State.markGrant]
        split <;> rfl
      · rintro q same
        cases same
        simp only [StageOk, Revoking.advance, State.markGrant, found]
        exact List.mem_cons_self
      · intro g member
        simp only [Revoking.advance, State.markGrant, found] at member
        exact .inl (by simpa using member)
  | findAccess =>
      refine ⟨.refl s, rfl, ?_, fun _ member => .inl member⟩
      rintro q same
      cases same
      exact ⟨ok, found_access s grantId⟩
  | access left =>
      obtain ⟨revoked, marked⟩ := ok
      cases left with
      | nil =>
          refine ⟨.refl s, rfl, ?_, fun _ member => .inl member⟩
          rintro q same
          cases same
          exact ⟨revoked, marked⟩
      | cons reference left =>
          have log : (s.markAccess reference now).log = s.log ∧ (s.markAccess reference now).revoking = s.revoking := by
            unfold State.markAccess
            split <;> exact ⟨rfl, rfl⟩
          refine ⟨follows_markAccess .., log.2, ?_, ?_⟩
          · rintro q same
            cases same
            exact ⟨log.1 ▸ revoked, markAccess_marks marked now⟩
          · intro g member
            exact .inl (log.1 ▸ member)
  | findRefresh =>
      obtain ⟨revoked, marked⟩ := ok
      refine ⟨.refl s, rfl, ?_, fun _ member => .inl member⟩
      rintro q same
      cases same
      exact ⟨revoked, marked, found_refresh s grantId⟩
  | refresh left =>
      obtain ⟨revoked, access, marked⟩ := ok
      cases left with
      | nil =>
          refine ⟨follows_note s _, rfl, fun q same => (by cases same), ?_⟩
          intro g member
          rcases List.mem_cons.mp member with same | old
          · cases same
            exact .inr ⟨List.mem_cons_of_mem _ revoked, access, marked⟩
          · exact .inl old
      | cons reference left =>
          have log : (s.markRefresh reference now).log = s.log ∧ (s.markRefresh reference now).revoking = s.revoking := by
            unfold State.markRefresh
            split <;> exact ⟨rfl, rfl⟩
          refine ⟨follows_markRefresh .., log.2, ?_, ?_⟩
          · rintro q same
            cases same
            exact ⟨log.1 ▸ revoked, (follows_markRefresh s reference now).accessMarked revoked access,
              markRefresh_marks marked now⟩
          · intro g member
            exact .inl (log.1 ▸ member)

/-- The step lemma. -/
theorem Sweeping.step (sweeping : Sweeping s) (inv : Inv cfg s) {e : Event} (done : cfg.step s e = some t) :
    Sweeping t := by
  cases e with
  | authorize request uid rawCode uuid now =>
      simp only [Config.step, Config.authorizeConsent] at done
      split at done
      · obtain ⟨follows, processes, log⟩ := follows_createGrantAndCode done
        exact sweeping.follows follows (fun p member => .inl (processes ▸ member)) (fun g member => .inl (log g member))
      · cases done
        exact sweeping
  | token clientId resource clientSecret request now draw =>
      simp only [Config.step, Config.mcpToken] at done
      split at done
      · cases done
        exact sweeping
      split at done
      · cases done
        exact sweeping
      cases request with
      | authorizationCode code redirectUri codeVerifier =>
          simp only at done
          split at done
          · cases done
            exact sweeping
          · obtain ⟨follows, processes, log⟩ := follows_exchange inv done
            exact sweeping.follows follows (fun p member => .inl (processes ▸ member))
              (fun g member => .inl (log g member))
      | refreshToken refreshToken scope =>
          simp only at done
          split at done
          · cases done
            exact sweeping
          · obtain ⟨follows, processes, log⟩ := follows_rotate inv done
            refine sweeping.follows follows (fun p member => ?_) (fun g member => .inl (log g member))
            rcases processes p member with old | ⟨stage, grant⟩
            · exact .inl old
            · exact .inr (by simp only [StageOk, stage]; exact grant)
  | lookUp accessToken =>
      cases done
      unfold Config.lookUp
      split
      · exact sweeping
      · exact sweeping.follows (.quiet (fun _ member => member) (fun _ grant found => ⟨grant, found⟩) rfl rfl)
          (fun _ member => .inl member) (fun _ member => .inl member)
  | validate index now =>
      simp only [Config.step] at done
      split at done
      · cases done
      cases done
      have fewer : Sweeping { s with lookups := s.lookups.eraseIdx index } :=
        sweeping.follows (.quiet (fun _ member => member) (fun _ grant found => ⟨grant, found⟩) rfl rfl)
          (fun _ member => .inl member) (fun _ member => .inl member)
      unfold Config.validate
      split
      · exact fewer
      split
      · exact fewer
      split
      · exact fewer
      · refine fewer.follows (follows_note _ _) (fun _ member => .inl member) (fun g member => .inl ?_)
        simpa using member
  | abandonLookup index =>
      cases done
      exact sweeping.follows (.quiet (fun _ member => member) (fun _ grant found => ⟨grant, found⟩) rfl rfl)
        (fun _ member => .inl member) (fun _ member => .inl member)
  | touch grantId now =>
      cases done
      unfold State.touch
      split
      · exact sweeping
      · exact sweeping.follows (.quiet (fun _ member => member) (grants_put _ _ _) rfl rfl)
          (fun _ member => .inl member) (fun _ member => .inl member)
  | revokeUserGrant uid grantId =>
      cases done
      unfold State.revokeUserGrant
      split
      · exact sweeping
      rename_i grant found
      split
      · exact sweeping
      · refine sweeping.follows (.quiet (fun _ member => member) (fun _ grant found => ⟨grant, found⟩) rfl rfl)
          (fun p member => ?_) (fun _ member => .inl member)
        rcases List.mem_append.mp member with old | new
        · exact .inl old
        · rw [List.mem_singleton.mp new]
          exact .inr ⟨grant, found⟩
  | revoke index now =>
      simp only [Config.step] at done
      split at done
      · cases done
      rename_i p found
      obtain ⟨follows, processes, next, log⟩ := advance_spec (sweeping.processes p (List.mem_of_getElem? found)) now
      have advanced := sweeping.follows follows (fun q member => .inl (processes ▸ member)) log
      split at done
      · rename_i q left
        cases done
        refine ⟨fun r member => ?_, advanced.swept⟩
        rcases List.mem_or_eq_of_mem_set member with old | rfl
        · exact advanced.processes r old
        · exact next _ left
      · cases done
        exact ⟨fun r member => advanced.processes r (List.mem_of_mem_eraseIdx member), advanced.swept⟩
  | abandonRevoking index =>
      cases done
      exact ⟨fun p member => sweeping.processes p (List.mem_of_mem_eraseIdx member), sweeping.swept⟩
  | deletion uid marker =>
      cases marker <;> cases done <;>
        exact sweeping.follows (.quiet (fun _ member => member) (fun _ grant found => ⟨grant, found⟩) rfl rfl)
          (fun _ member => .inl member) (fun _ member => .inl member)

theorem Reached.sweeping (reached : Reached cfg s) : Sweeping s := by
  have both : Inv cfg s ∧ Sweeping s := by
    apply Reachable.invariant ?_ ?_ reached
    · rintro s rfl
      exact ⟨Inv.empty, fun p member => (by cases member), fun g member => (by cases member)⟩
    · intro s e t both done
      exact ⟨both.1.step done, both.2.step both.1 done⟩
  exact both.2

/-- Once a revocation has ended, every token of its grant carries the mark, in that state and in all that follow. -/
theorem finished_revocation_marked_every_token (reached : Reached cfg s) {grantId : String}
    (finished : .swept grantId ∈ s.log) :
    (∀ k a, get s.accessTokens k = some a → a.grantId = grantId → a.revokedAt ≠ none) ∧
      ∀ k r, get s.refreshTokens k = some r → r.grantId = grantId → r.revokedAt ≠ none := by
  obtain ⟨-, access, refresh⟩ := reached.sweeping.swept grantId finished
  constructor
  · intro k a found same none
    cases access k a found same none
  · intro k r found same none
    cases refresh k r found same none

/-- The revocation that the replay of the sample run calls, to its end. -/
def sampleSweep : List Event := (List.range 9).map fun n => .revoke 0 (6 + n)

def sampleSwept : State := (sampleSweep.foldlM sampleConfig.step sampleState).getD sampleState

theorem sampleSwept_reached : Reached sampleConfig sampleSwept :=
  sampleState_reached.actions (fun _ _ _ _ done => done)
    (show sampleSweep.foldlM sampleConfig.step sampleState = some sampleSwept by rfl)

theorem sampleSwept_marked :
    (∀ k a, get sampleSwept.accessTokens k = some a → a.grantId = "user:omi-claude-prod:3f3d83b6ce913c8b" →
      a.revokedAt ≠ none) ∧
    ∀ k r, get sampleSwept.refreshTokens k = some r → r.grantId = "user:omi-claude-prod:3f3d83b6ce913c8b" →
      r.revokedAt ≠ none :=
  finished_revocation_marked_every_token sampleSwept_reached
    (List.mem_of_mem_head? (show _ = some _ from by decide +kernel))

end OmiLocal.Mcp
