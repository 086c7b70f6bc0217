import OmiLocal.Mcp.Oauth

/-!
# What the OAuth authority admits

Every entry of the log is justified by what is older: a code is exchanged once,
by the client, for the resource and at the redirect URI that the user consented
to, with a verifier of its challenge; a refresh token is rotated once; an access
token is admitted for a user, a client and a resource that a consent names, with
scopes that one consent gave; and nothing of a grant is exchanged, rotated or
admitted after the grant was revoked.
-/
namespace OmiLocal.Mcp

open Lib Lib.Dict Lib.Transition

variable {cfg : Config} {s : State}

/-! ## Consents -/

/-- A consent for this grant names the user, the client and the resource. -/
def Named (log : List Entry) (grantId uid clientId resource : String) : Prop :=
  ∃ code c, .consented code c ∈ log ∧ c.grantId = grantId ∧ c.uid = uid ∧ c.clientId = clientId ∧ c.resource = resource

/-- One consent for this grant, whose code was exchanged, gave all of the scopes. -/
def Covered (log : List Entry) (grantId : String) (scopes : List String) : Prop :=
  ∃ code c codeVerifier, .consented code c ∈ log ∧ c.grantId = grantId ∧
    .exchanged code codeVerifier c.clientId c.redirectUri c.resource grantId ∈ log ∧ ∀ x ∈ scopes, x ∈ c.scopes

theorem Named.mono {log log' : List Entry} (more : ∀ e ∈ log, e ∈ log') {grantId uid clientId resource : String}
    (named : Named log grantId uid clientId resource) : Named log' grantId uid clientId resource := by
  obtain ⟨code, c, member, rest⟩ := named
  exact ⟨code, c, more _ member, rest⟩

theorem Covered.mono {log log' : List Entry} (more : ∀ e ∈ log, e ∈ log') {grantId : String} {scopes : List String}
    (covered : Covered log grantId scopes) : Covered log' grantId scopes := by
  obtain ⟨code, c, verifier, consented, same, exchanged, inside⟩ := covered
  exact ⟨code, c, verifier, more _ consented, same, more _ exchanged, inside⟩

/-- What the documents of a token pair have in common. -/
structure TokenOk (log : List Entry) (grantId uid clientId resource : String) (scopes : List String) : Prop where
  named : Named log grantId uid clientId resource
  covered : Covered log grantId scopes
  some_scope : scopes ≠ []

theorem TokenOk.mono {log log' : List Entry} (more : ∀ e ∈ log, e ∈ log') {grantId uid clientId resource : String}
    {scopes : List String} (ok : TokenOk log grantId uid clientId resource scopes) :
    TokenOk log' grantId uid clientId resource scopes :=
  ⟨ok.named.mono more, ok.covered.mono more, ok.some_scope⟩

/-- Why an entry may stand in the log over the older ones. -/
def Justified (cfg : Config) : Entry → List Entry → Prop
  | .consented .., _ => True
  | .exchanged code codeVerifier clientId redirectUri resource grantId, older =>
      (∀ v cl ru rs g, .exchanged code v cl ru rs g ∉ older) ∧ .revoked grantId ∉ older ∧
        ∃ c, .consented code c ∈ older ∧ c.grantId = grantId ∧ c.clientId = clientId ∧ c.redirectUri = redirectUri ∧
          c.resource = resource ∧ cfg.pkceS256 codeVerifier = some c.codeChallenge
  | .rotated token grantId, older => (∀ g, .rotated token g ∉ older) ∧ .revoked grantId ∉ older
  | .admitted _ identity, older =>
      .revoked identity.grantId ∉ older ∧ identity.resource = cfg.mcpResourceUrl ∧
        Named older identity.grantId identity.uid identity.clientId identity.resource ∧
        Covered older identity.grantId identity.scopes
  | .revoked _, _ | .swept _, _ => True

def AllJustified (cfg : Config) (log : List Entry) : Prop :=
  ∀ newer e older, log = newer ++ e :: older → Justified cfg e older

theorem AllJustified.cons {log : List Entry} (all : AllJustified cfg log) {e : Entry} (here : Justified cfg e log) :
    AllJustified cfg (e :: log) := by
  intro newer f older split
  cases newer with
  | nil =>
      obtain ⟨rfl, rfl⟩ := List.cons.inj split
      exact here
  | cons first newer =>
      obtain ⟨-, rest⟩ := List.cons.inj split
      exact all newer f older rest

/-! ## The invariant -/

structure Inv (cfg : Config) (s : State) : Prop where
  codes : ∀ k c, get s.codes k = some c →
    k ∈ s.drawn ∧ .consented k { c with consumedAt := none } ∈ s.log ∧ c.scopes ≠ []
  access : ∀ k a, get s.accessTokens k = some a →
    k ∈ s.drawn ∧ TokenOk s.log a.grantId a.uid a.clientId a.resource a.scopes
  refresh : ∀ k r, get s.refreshTokens k = some r →
    k ∈ s.drawn ∧ r.tokenFamilyId ∈ s.drawn ∧ TokenOk s.log r.grantId r.uid r.clientId r.resource r.scopes
  lookups : ∀ e ∈ s.lookups, TokenOk s.log e.2.grantId e.2.uid e.2.clientId e.2.resource e.2.scopes
  named : ∀ g grant, get s.grants g = some grant → Named s.log g grant.uid grant.clientId grant.resource
  final : ∀ g, .revoked g ∈ s.log → ∃ grant, get s.grants g = some grant ∧ grant.isRevoked = true
  consumed : ∀ k v cl ru rs g, .exchanged k v cl ru rs g ∈ s.log →
    ∃ c, get s.codes k = some c ∧ c.consumedAt.isSome = true
  used : ∀ k g, .rotated k g ∈ s.log →
    ∃ r, get s.refreshTokens k = some r ∧ r.grantId = g ∧ r.usedAt.isSome = true
  live : ∀ k k' r r', get s.refreshTokens k = some r → get s.refreshTokens k' = some r' →
    r.tokenFamilyId = r'.tokenFamilyId → r.usedAt = none → r'.usedAt = none → k = k'
  justified : AllJustified cfg s.log

theorem Inv.empty : Inv cfg State.empty := by
  refine ⟨?_, ?_, ?_, ?_, ?_, ?_, ?_, ?_, ?_, ?_⟩
  · intro k c found
    cases found
  · intro k a found
    cases found
  · intro k r found
    cases found
  · intro e member
    cases member
  · intro g grant found
    cases found
  · intro g member
    cases member
  · intro k v cl ru rs g member
    cases member
  · intro k g member
    cases member
  · intro k k' r r' found
    cases found
  · intro newer e older split
    cases newer <;> cases split

/-- A lookup after an assignment. -/
theorem get_put_cases {κ β : Type} [DecidableEq κ] {d : List (κ × β)} {k j : κ} {b c : β}
    (found : get (put d k b) j = some c) : (j = k ∧ c = b) ∨ (j ≠ k ∧ get d j = some c) := by
  by_cases same : j = k
  · subst same
    rw [get_put_self] at found
    exact .inl ⟨rfl, (Option.some.inj found).symm⟩
  · rw [get_put_other d same] at found
    exact .inr ⟨same, found⟩

/-! ## Changes of one document -/

/-- A known grant keeps its names, and stays revoked once it is. -/
theorem Inv.putGrant (inv : Inv cfg s) {g : String} {grant : Grant} (found : get s.grants g = some grant)
    (next : Grant) (names : next.uid = grant.uid ∧ next.clientId = grant.clientId ∧ next.resource = grant.resource)
    (revoked : grant.isRevoked = true → next.isRevoked = true) :
    Inv cfg { s with grants := put s.grants g next } := by
  refine { inv with named := ?_, final := ?_ }
  · intro g' grant' found'
    rcases get_put_cases found' with ⟨rfl, rfl⟩ | ⟨-, old⟩
    · rw [names.1, names.2.1, names.2.2]
      exact inv.named _ _ found
    · exact inv.named g' grant' old
  · intro g' member
    obtain ⟨grant', found', gone⟩ := inv.final g' member
    by_cases same : g' = g
    · subst same
      obtain rfl : grant = grant' := Option.some.inj (found.symm.trans found')
      exact ⟨next, get_put_self .., revoked gone⟩
    · exact ⟨grant', (get_put_other s.grants same next).trans found', gone⟩

theorem Inv.putAccess (inv : Inv cfg s) {k : String} {a : AccessToken} (found : get s.accessTokens k = some a)
    (revokedAt : Option Int) :
    Inv cfg { s with accessTokens := put s.accessTokens k { a with revokedAt := revokedAt } } := by
  refine { inv with access := ?_ }
  intro k' a' found'
  rcases get_put_cases found' with ⟨rfl, rfl⟩ | ⟨-, old⟩
  · exact inv.access _ a found
  · exact inv.access k' a' old

/-- A known refresh token keeps what it was issued with, and stays used. -/
theorem Inv.putRefresh (inv : Inv cfg s) {k : String} {r : RefreshToken} (found : get s.refreshTokens k = some r)
    (next : RefreshToken) (same : next.grantId = r.grantId ∧ next.tokenFamilyId = r.tokenFamilyId ∧ next.uid = r.uid ∧
      next.clientId = r.clientId ∧ next.resource = r.resource ∧ next.scopes = r.scopes)
    (used : r.usedAt.isSome = true → next.usedAt.isSome = true) :
    Inv cfg { s with refreshTokens := put s.refreshTokens k next } := by
  obtain ⟨grantId, family, uid, clientId, resource, scopes⟩ := same
  have unused : next.usedAt = none → r.usedAt = none := by
    intro none
    by_contra some
    have := used (Option.isSome_iff_ne_none.mpr some)
    rw [none] at this
    cases this
  refine { inv with refresh := ?_, used := ?_, live := ?_ }
  · intro k' r' found'
    rcases get_put_cases found' with ⟨rfl, rfl⟩ | ⟨-, old⟩
    · rw [grantId, family, uid, clientId, resource, scopes]
      exact inv.refresh _ _ found
    · exact inv.refresh k' r' old
  · intro k' g member
    obtain ⟨r', found', here, spent⟩ := inv.used k' g member
    by_cases same : k' = k
    · subst same
      obtain rfl : r = r' := Option.some.inj (found.symm.trans found')
      exact ⟨next, get_put_self .., grantId.trans here, used spent⟩
    · exact ⟨r', (get_put_other s.refreshTokens same next).trans found', here, spent⟩
  · intro k₁ k₂ r₁ r₂ found₁ found₂ families none₁ none₂
    rcases get_put_cases found₁ with ⟨rfl, rfl⟩ | ⟨other₁, old₁⟩
    · rcases get_put_cases found₂ with ⟨rfl, rfl⟩ | ⟨other₂, old₂⟩
      · rfl
      · exact inv.live _ _ _ _ found old₂ (family.symm.trans families) (unused none₁) none₂
    · rcases get_put_cases found₂ with ⟨rfl, rfl⟩ | ⟨other₂, old₂⟩
      · exact inv.live _ _ _ _ old₁ found (families.trans family) none₁ (unused none₂)
      · exact inv.live _ _ _ _ old₁ old₂ families none₁ none₂

theorem Inv.consume (inv : Inv cfg s) {k : String} {c : Code} (found : get s.codes k = some c) (now : Int) :
    Inv cfg { s with codes := put s.codes k { c with consumedAt := some now } } := by
  refine { inv with codes := ?_, consumed := ?_ }
  · intro k' c' found'
    rcases get_put_cases found' with ⟨rfl, rfl⟩ | ⟨-, old⟩
    · exact inv.codes _ c found
    · exact inv.codes k' c' old
  · intro k' v cl ru rs g member
    obtain ⟨c', found', spent⟩ := inv.consumed k' v cl ru rs g member
    by_cases same : k' = k
    · subst same
      exact ⟨_, get_put_self .., rfl⟩
    · exact ⟨c', (get_put_other s.codes same _).trans found', spent⟩

/-- The documents count, not the order in which they were first written. -/
theorem Inv.sameRefresh (inv : Inv cfg s) {documents : List (String × RefreshToken)}
    (same : ∀ k, get documents k = get s.refreshTokens k) : Inv cfg { s with refreshTokens := documents } := by
  refine { inv with refresh := ?_, used := ?_, live := ?_ }
  · intro k r found
    exact inv.refresh k r ((same k).symm.trans found)
  · intro k g member
    obtain ⟨r, found, rest⟩ := inv.used k g member
    exact ⟨r, (same k).trans found, rest⟩
  · intro k k' r r' found found'
    exact inv.live k k' r r' ((same k).symm.trans found) ((same k').symm.trans found')

/-- What the state has to show for a new entry. -/
def Shown (s : State) : Entry → Prop
  | .consented .. | .admitted .. | .swept _ => True
  | .exchanged code .. => ∃ c, get s.codes code = some c ∧ c.consumedAt.isSome = true
  | .rotated token grantId => ∃ r, get s.refreshTokens token = some r ∧ r.grantId = grantId ∧ r.usedAt.isSome = true
  | .revoked grantId => ∃ grant, get s.grants grantId = some grant ∧ grant.isRevoked = true

theorem Inv.note (inv : Inv cfg s) {e : Entry} (justified : Justified cfg e s.log) (shown : Shown s e) :
    Inv cfg { s with log := e :: s.log } := by
  have more : ∀ f ∈ s.log, f ∈ e :: s.log := fun f member => List.mem_cons_of_mem e member
  refine ⟨?_, ?_, ?_, ?_, ?_, ?_, ?_, ?_, inv.live, inv.justified.cons justified⟩
  · intro k c found
    obtain ⟨drawn, consented, scopes⟩ := inv.codes k c found
    exact ⟨drawn, more _ consented, scopes⟩
  · intro k a found
    exact (inv.access k a found).imp_right (TokenOk.mono more)
  · intro k r found
    obtain ⟨drawn, family, ok⟩ := inv.refresh k r found
    exact ⟨drawn, family, ok.mono more⟩
  · intro f member
    exact (inv.lookups f member).mono more
  · intro g grant found
    exact (inv.named g grant found).mono more
  · intro g member
    rcases List.mem_cons.mp member with rfl | old
    · exact shown
    · exact inv.final g old
  · intro k v cl ru rs g member
    rcases List.mem_cons.mp member with rfl | old
    · exact shown
    · exact inv.consumed k v cl ru rs g old
  · intro k g member
    rcases List.mem_cons.mp member with rfl | old
    · exact shown
    · exact inv.used k g old

theorem Inv.not_revoked (inv : Inv cfg s) {g : String} {grant : Grant} (found : get s.grants g = some grant)
    (active : grant.isRevoked = false) : .revoked g ∉ s.log := by
  intro member
  obtain ⟨grant', found', gone⟩ := inv.final g member
  obtain rfl : grant = grant' := Option.some.inj (found.symm.trans found')
  rw [active] at gone
  cases gone

/-! ## Scopes -/

theorem mem_sortedSet {scopes : List String} {x : String} : x ∈ sortedSet scopes ↔ x ∈ scopes := by
  unfold sortedSet
  rw [List.mem_insertionSort, List.mem_dedup]

theorem sortedSet_ne_nil {scopes : List String} (nonempty : scopes ≠ []) : sortedSet scopes ≠ [] := by
  obtain ⟨x, member⟩ := List.exists_mem_of_ne_nil _ nonempty
  exact List.ne_nil_of_mem (mem_sortedSet.mpr member)

theorem normalizeScopes_ne_nil {scope : Option String} {allowed scopes : List String}
    (done : normalizeScopes scope allowed = some scopes) : scopes ≠ [] := by
  unfold normalizeScopes at done
  dsimp only at done
  generalize (if allowed = [] then supportedScopes else allowed).filter (· ∈ supportedScopes) = permitted at done
  generalize (((scope.getD "").toList.splitOn ' ').filter (· ≠ [])).map String.ofList = requested at done
  have nonempty : (if requested = [] then ["memories.read"] else requested) ≠ [] := by
    split
    · exact List.cons_ne_nil _ _
    · assumption
  generalize (if requested = [] then ["memories.read"] else requested) = asked at done nonempty
  split at done
  · cases done
  · obtain rfl := Option.some.inj done
    exact sortedSet_ne_nil nonempty

theorem requestedScopes_ne_nil {scope : Option String} {granted requested : List String} (nonempty : granted ≠ [])
    (done : requestedScopes scope granted = some requested) : requested ≠ [] := by
  unfold requestedScopes at done
  split at done
  · exact Option.some.inj done ▸ nonempty
  · split at done
    · exact Option.some.inj done ▸ nonempty
    · exact normalizeScopes_ne_nil done

/-! ## Requests -/

theorem validateAuthorizeRequest_ne_nil {r : AuthorizeRequest} {scopes : List String}
    (done : cfg.validateAuthorizeRequest r = some scopes) : scopes ≠ [] := by
  unfold Config.validateAuthorizeRequest at done
  split at done
  · cases done
  · split at done
    · cases done
    · exact normalizeScopes_ne_nil done

/-- A consent writes a grant that is free or active, and names it after the consent. -/
theorem grantWrite_cases {key uid clientId resource uuid : String} {existing : Option Grant} {scopes : List String}
    {now : Int} : ∀ grantId grant, grantWrite key existing uid clientId resource scopes uuid now = (grantId, grant) →
      grant.uid = uid ∧ grant.clientId = clientId ∧ grant.resource = resource ∧ grant.isRevoked = false ∧
      (grantId = key ++ ":" ++ uuid ∨ (grantId = key ∧ ∀ g, existing = some g → g.isRevoked = false)) := by
  rintro grantId grant written
  unfold grantWrite at written
  cases existing with
  | none =>
      cases written
      exact ⟨rfl, rfl, rfl, rfl, .inr ⟨rfl, fun g other => by cases other⟩⟩
  | some g =>
      simp only at written
      split at written
      · cases written
        exact ⟨rfl, rfl, rfl, rfl, .inl rfl⟩
      · rename_i active
        cases written
        refine ⟨rfl, rfl, rfl, rfl, .inr ⟨rfl, fun g' same => ?_⟩⟩
        cases same
        exact Bool.not_eq_true _ ▸ active

theorem Inv.createGrantAndCode (inv : Inv cfg s) {uid clientId redirectUri resource codeChallenge rawCode uuid : String}
    {scopes : List String} {now : Int} {t : State} (nonempty : scopes ≠ [])
    (done : cfg.createGrantAndCode s uid clientId redirectUri resource scopes codeChallenge rawCode uuid now = some t) :
    Inv cfg t := by
  unfold Config.createGrantAndCode at done
  simp only at done
  split at done
  · cases done
    exact inv
  generalize written : grantWrite _ _ _ _ _ _ _ _ = pair at done
  obtain ⟨grantId, grant⟩ := pair
  obtain ⟨uidSame, clientSame, resourceSame, active, place⟩ := grantWrite_cases grantId grant written
  simp only at done
  split at done
  · cases done
  rename_i new
  obtain ⟨unseen, absent⟩ := not_or.mp new
  cases done
  let code : Code :=
    ⟨uid, grantId, clientId, redirectUri, resource, scopes, codeChallenge, now + cfg.authCodeTtl, none⟩
  have more : ∀ f ∈ s.log, f ∈ .consented (cfg.hashSecret rawCode) code :: s.log :=
    fun f member => List.mem_cons_of_mem _ member
  have drawn : ∀ k ∈ s.drawn, k ∈ cfg.hashSecret rawCode :: s.drawn := fun k member => List.mem_cons_of_mem _ member
  refine ⟨?_, ?_, ?_, ?_, ?_, ?_, ?_, ?_, inv.live, inv.justified.cons trivial⟩
  · intro k c found
    rcases get_put_cases found with ⟨rfl, rfl⟩ | ⟨-, old⟩
    · exact ⟨List.mem_cons_self, List.mem_cons_self, nonempty⟩
    · obtain ⟨known, consented, some⟩ := inv.codes k c old
      exact ⟨drawn k known, more _ consented, some⟩
  · intro k a found
    obtain ⟨known, ok⟩ := inv.access k a found
    exact ⟨drawn k known, ok.mono more⟩
  · intro k r found
    obtain ⟨known, family, ok⟩ := inv.refresh k r found
    exact ⟨drawn k known, drawn _ family, ok.mono more⟩
  · intro e member
    exact (inv.lookups e member).mono more
  · intro g grant' found
    rcases get_put_cases found with ⟨rfl, rfl⟩ | ⟨-, old⟩
    · rw [uidSame, clientSame, resourceSame]
      exact ⟨_, code, List.mem_cons_self, rfl, rfl, rfl, rfl⟩
    · exact (inv.named g grant' old).mono more
  · intro g member
    have old : .revoked g ∈ s.log := by simpa using member
    obtain ⟨grant', found, gone⟩ := inv.final g old
    have other : g ≠ grantId := by
      rintro rfl
      rcases place with rfl | ⟨rfl, free⟩
      · exact absent (mem_keys_of_mem (get_eq_some found))
      · rw [free grant' found] at gone
        cases gone
    exact ⟨grant', (get_put_other s.grants other grant).trans found, gone⟩
  · intro k v cl ru rs g member
    have old : .exchanged k v cl ru rs g ∈ s.log := by simpa using member
    obtain ⟨c, found, spent⟩ := inv.consumed k v cl ru rs g old
    have other : k ≠ cfg.hashSecret rawCode := by
      rintro rfl
      exact unseen (inv.codes _ c found).1
    exact ⟨c, (get_put_other s.codes other _).trans found, spent⟩
  · intro k g member
    have old : .rotated k g ∈ s.log := by simpa using member
    exact inv.used k g old

/-- A pair under fresh names, for a grant that a consent names, with scopes that a consent gave. Any refresh token
of its family is used up. -/
theorem Inv.issue (inv : Inv cfg s) {d : Draw} (fresh : cfg.fresh s d) {pair : TokenPair} {g : String} {grant : Grant}
    {now : Int} (found : get s.grants g = some grant)
    (access : TokenOk s.log pair.access.grantId pair.access.uid pair.access.clientId pair.access.resource pair.access.scopes)
    (refresh : TokenOk s.log pair.refresh.grantId pair.refresh.uid pair.refresh.clientId pair.refresh.resource
      pair.refresh.scopes)
    (family : pair.refresh.tokenFamilyId ∈ s.drawn ∨ pair.refresh.tokenFamilyId = d.tokenFamilyId)
    (spent : ∀ k r, get s.refreshTokens k = some r → r.tokenFamilyId = pair.refresh.tokenFamilyId → r.usedAt ≠ none) :
    Inv cfg (cfg.issue s d pair g grant now) := by
  have touched := inv.putGrant found { grant with lastUsedAt := now } ⟨rfl, rfl, rfl⟩ id
  obtain ⟨accessNew, refreshNew, familyNew⟩ := fresh
  have drawn : ∀ k ∈ s.drawn,
      k ∈ cfg.hashSecret d.accessToken :: cfg.hashSecret d.refreshToken :: d.tokenFamilyId :: s.drawn := by
    intro k member
    exact List.mem_cons_of_mem _ (List.mem_cons_of_mem _ (List.mem_cons_of_mem _ member))
  refine { touched with codes := ?_, access := ?_, refresh := ?_, used := ?_, live := ?_ }
  · intro k c known
    exact (inv.codes k c known).imp_left (drawn k)
  · intro k a known
    rcases get_put_cases known with ⟨rfl, rfl⟩ | ⟨-, old⟩
    · exact ⟨List.mem_cons_self, access⟩
    · exact (inv.access k a old).imp_left (drawn k)
  · intro k r known
    rcases get_put_cases known with ⟨rfl, rfl⟩ | ⟨-, old⟩
    · refine ⟨List.mem_cons_of_mem _ List.mem_cons_self, ?_, refresh⟩
      rcases family with old | new
      · exact drawn _ old
      · rw [new]
        exact List.mem_cons_of_mem _ (List.mem_cons_of_mem _ List.mem_cons_self)
    · obtain ⟨here, familyHere, ok⟩ := inv.refresh k r old
      exact ⟨drawn k here, drawn _ familyHere, ok⟩
  · intro k g' member
    obtain ⟨r, known, here, gone⟩ := inv.used k g' member
    have other : k ≠ cfg.hashSecret d.refreshToken := by
      rintro rfl
      exact refreshNew (inv.refresh _ r known).1
    exact ⟨r, (get_put_other s.refreshTokens other _).trans known, here, gone⟩
  · intro k k' r r' known known' families none none'
    rcases get_put_cases known with ⟨rfl, rfl⟩ | ⟨-, old⟩
    · rcases get_put_cases known' with ⟨rfl, rfl⟩ | ⟨-, old'⟩
      · rfl
      · exact absurd none' (spent k' r' old' families.symm)
    · rcases get_put_cases known' with ⟨rfl, rfl⟩ | ⟨-, old'⟩
      · exact absurd none (spent k r old families)
      · exact inv.live k k' r r' old old' families none none'

theorem tokenPair_ok {log : List Entry} {g tokenFamilyId : String} {grant : Grant} {scopes : List String} {now : Int}
    (named : Named log g grant.uid grant.clientId grant.resource) (covered : Covered log g scopes)
    (nonempty : scopes ≠ []) :
    let pair := cfg.tokenPair g grant scopes tokenFamilyId now
    TokenOk log pair.access.grantId pair.access.uid pair.access.clientId pair.access.resource pair.access.scopes ∧
      TokenOk log pair.refresh.grantId pair.refresh.uid pair.refresh.clientId pair.refresh.resource
        pair.refresh.scopes := by
  obtain ⟨code, c, verifier, consented, same, exchanged, inside⟩ := covered
  have sorted : Covered log g (sortedSet scopes) :=
    ⟨code, c, verifier, consented, same, exchanged, fun x member => inside x (mem_sortedSet.mp member)⟩
  simp only [Config.tokenPair, if_neg nonempty]
  exact ⟨⟨named, sorted, sortedSet_ne_nil nonempty⟩, ⟨named, sorted, sortedSet_ne_nil nonempty⟩⟩

theorem Inv.exchange (inv : Inv cfg s) {rawCode clientId redirectUri resource codeVerifier : String} {now : Int}
    {d : Draw} {t : State}
    (done : cfg.exchange s rawCode clientId redirectUri resource codeVerifier now d = some t) : Inv cfg t := by
  unfold Config.exchange at done
  simp only at done
  split at done
  · cases done
    exact inv
  rename_i data found
  split at done
  · cases done
    exact inv
  rename_i unspent
  split at done
  · cases done
    exact inv
  rename_i bound
  split at done
  · cases done
    exact inv
  rename_i proof
  split at done
  · cases done
    exact inv
  rename_i grant holder
  split at done
  · cases done
    exact inv
  rename_i active
  split at done
  · cases done
  rename_i fresh
  cases done
  simp only [not_or, Decidable.not_not, Bool.not_eq_true] at unspent bound proof fresh
  obtain ⟨clientSame, uriSame, resourceSame⟩ := bound
  obtain ⟨-, consented, nonempty⟩ := inv.codes _ data found
  have free := inv.not_revoked holder (by simpa using active)
  -- The code is used up and the exchange noted before the tokens are looked at: their scopes rest on it.
  have consumed := inv.consume found now
  have noted : Inv cfg { s with
      codes := put s.codes (cfg.hashSecret rawCode) { data with consumedAt := some now }
      log := .exchanged (cfg.hashSecret rawCode) codeVerifier clientId redirectUri resource data.grantId :: s.log } := by
    apply consumed.note
    · refine ⟨?_, free, _, consented, rfl, clientSame, uriSame, resourceSame, proof⟩
      intro v cl ru rs g member
      obtain ⟨c, found', spent⟩ := inv.consumed _ v cl ru rs g member
      obtain rfl : data = c := Option.some.inj (found.symm.trans found')
      rw [unspent.1] at spent
      cases spent
    · exact ⟨_, get_put_self .., rfl⟩
  have covered : Covered
      (.exchanged (cfg.hashSecret rawCode) codeVerifier clientId redirectUri resource data.grantId :: s.log)
      data.grantId data.scopes := by
    refine ⟨cfg.hashSecret rawCode, _, codeVerifier, List.mem_cons_of_mem _ consented, rfl, ?_, fun x member => member⟩
    simp only [clientSame, uriSame, resourceSame]
    exact List.mem_cons_self
  obtain ⟨access, refresh⟩ := @tokenPair_ok cfg _ data.grantId d.tokenFamilyId grant data.scopes now
    (noted.named _ grant holder) covered nonempty
  refine noted.issue fresh holder access refresh (.inr rfl) ?_
  intro k r known families
  have family : r.tokenFamilyId = d.tokenFamilyId := families
  exact absurd (family ▸ (inv.refresh k r known).2.1) fresh.2.2

theorem Inv.replayed (inv : Inv cfg s) {token : String} {data : RefreshToken} {grant : Grant} {now : Int}
    (found : get s.refreshTokens token = some data) (holder : get s.grants data.grantId = some grant) :
    Inv cfg (Config.replayed s token data grant now) := by
  have marked := inv.putGrant holder { grant with revokedAt := some now, status := .revoked, replayDetected := true }
    ⟨rfl, rfl, rfl⟩ (fun _ => rfl)
  have token := marked.putRefresh found { data with replayDetectedAt := some now, revokedAt := some now }
    ⟨rfl, rfl, rfl, rfl, rfl, rfl⟩ id
  have noted := token.note (e := .revoked data.grantId) trivial ⟨_, get_put_self .., rfl⟩
  exact { noted with }

theorem Inv.rotate (inv : Inv cfg s) {refreshToken clientId resource : String} {scope : Option String} {now : Int}
    {d : Draw} {t : State} (done : cfg.rotate s refreshToken clientId resource scope now d = some t) : Inv cfg t := by
  unfold Config.rotate at done
  simp only at done
  split at done
  · cases done
    exact inv
  rename_i data found
  split at done
  · cases done
    exact inv
  rename_i grant holder
  split at done
  · cases done
    exact inv
  rename_i good
  split at done
  · cases done
    exact inv.replayed found holder
  rename_i unused
  split at done
  · cases done
    exact inv
  rename_i requested asked
  split at done
  · cases done
    exact inv
  rename_i inside
  split at done
  · cases done
  rename_i fresh
  cases done
  simp only [not_or, Decidable.not_not, Bool.not_eq_true] at good unused fresh
  obtain ⟨here, familyHere, ok⟩ := inv.refresh _ data found
  have nonempty := requestedScopes_ne_nil ok.some_scope asked
  have within : ∀ x ∈ requested, x ∈ data.scopes := by
    simpa [List.any_eq_true] using inside
  have free := inv.not_revoked holder good.2.2.2.2
  have used := inv.putRefresh found
    { data with usedAt := some now, replacedBy := some (cfg.hashSecret d.refreshToken) }
    ⟨rfl, rfl, rfl, rfl, rfl, rfl⟩ (fun _ => rfl)
  have noted : Inv cfg { s with
      refreshTokens := put s.refreshTokens (cfg.hashSecret refreshToken)
        { data with usedAt := some now, replacedBy := some (cfg.hashSecret d.refreshToken) }
      log := .rotated (cfg.hashSecret refreshToken) data.grantId :: s.log } := by
    apply used.note
    · refine ⟨fun g member => ?_, free⟩
      obtain ⟨r, found', -, spent⟩ := inv.used _ g member
      obtain rfl : data = r := Option.some.inj (found.symm.trans found')
      rw [unused.1] at spent
      cases spent
    · exact ⟨_, get_put_self .., rfl, rfl⟩
  obtain ⟨code, c, verifier, consented, same, exchanged, scopes⟩ := ok.covered
  have covered : Covered (.rotated (cfg.hashSecret refreshToken) data.grantId :: s.log) data.grantId requested :=
    ⟨code, c, verifier, List.mem_cons_of_mem _ consented, same, List.mem_cons_of_mem _ exchanged,
      fun x member => scopes x (within x member)⟩
  obtain ⟨access, refresh⟩ := @tokenPair_ok cfg _ data.grantId data.tokenFamilyId grant requested now
    (noted.named _ grant holder) covered nonempty
  have issued := @Inv.issue cfg _ noted d fresh _ _ grant now holder access refresh (.inl familyHere) ?_
  · apply issued.sameRefresh
    intro k
    by_cases old : k = cfg.hashSecret refreshToken
    · subst old
      have other : cfg.hashSecret refreshToken ≠ cfg.hashSecret d.refreshToken := fun same => fresh.2.1 (same ▸ here)
      simp only [Config.issue, get_put_self, get_put_other _ other]
    · by_cases new : k = cfg.hashSecret d.refreshToken
      · subst new
        simp only [Config.issue, get_put_self, get_put_other _ old]
      · simp only [Config.issue, get_put_other _ old, get_put_other _ new]
  · intro k r known families none
    rcases get_put_cases known with ⟨rfl, rfl⟩ | ⟨other, old⟩
    · cases none
    · have unspent := Option.isNone_iff_eq_none.mp (Option.isSome_eq_false_iff.mp unused.1)
      exact other (inv.live _ _ _ _ old found families none unspent)

theorem Inv.authorizeConsent (inv : Inv cfg s) {r : AuthorizeRequest} {uid rawCode uuid : String} {now : Int} {t : State}
    (done : cfg.authorizeConsent s r uid rawCode uuid now = some t) : Inv cfg t := by
  unfold Config.authorizeConsent at done
  split at done
  · rename_i scopes challenge valid given
    exact inv.createGrantAndCode (validateAuthorizeRequest_ne_nil valid) done
  · cases done
    exact inv

theorem Inv.mcpToken (inv : Inv cfg s) {clientId resource : String} {clientSecret : Option String}
    {request : TokenRequest} {now : Int} {d : Draw} {t : State}
    (done : cfg.mcpToken s clientId resource clientSecret request now d = some t) : Inv cfg t := by
  unfold Config.mcpToken at done
  split at done
  · cases done
    exact inv
  split at done
  · cases done
    exact inv
  cases request with
  | authorizationCode code redirectUri codeVerifier =>
      simp only at done
      split at done
      · cases done
        exact inv
      · exact inv.exchange done
  | refreshToken refreshToken scope =>
      simp only at done
      split at done
      · cases done
        exact inv
      · exact inv.rotate done

theorem Inv.lookUp (inv : Inv cfg s) (accessToken : String) : Inv cfg (cfg.lookUp s accessToken) := by
  unfold Config.lookUp
  split
  · exact inv
  · rename_i data found
    refine { inv with lookups := ?_ }
    intro e member
    rcases List.mem_append.mp member with old | new
    · exact inv.lookups e old
    · rw [List.mem_singleton.mp new]
      exact (inv.access _ data found).2

theorem Inv.fewerLookups (inv : Inv cfg s) (index : Nat) : Inv cfg { s with lookups := s.lookups.eraseIdx index } :=
  { inv with lookups := fun e member => inv.lookups e (List.mem_of_mem_eraseIdx member) }

theorem Inv.validate (inv : Inv cfg s) {digest : String} {data : AccessToken} {now : Int}
    (ok : TokenOk s.log data.grantId data.uid data.clientId data.resource data.scopes) :
    Inv cfg (cfg.validate s digest data now) := by
  unfold Config.validate
  split
  · exact inv
  rename_i grant holder
  split
  · exact inv
  rename_i active
  split
  · exact inv
  rename_i identity valid
  unfold validatedAccessTokenIdentity at valid
  split at valid
  · rename_i checks
    cases valid
    apply inv.note
    · refine ⟨inv.not_revoked holder (by simpa using active), checks.2.2.2.2.2.2.2.2.2.2.1, ok.named, ok.covered⟩
    · trivial
  · cases valid

theorem Inv.touch (inv : Inv cfg s) (grantId : String) (now : Int) : Inv cfg (s.touch grantId now) := by
  unfold State.touch
  split
  · exact inv
  · rename_i grant holder
    exact inv.putGrant holder _ ⟨rfl, rfl, rfl⟩ id

theorem Inv.markGrant (inv : Inv cfg s) (grantId : String) (replayDetected : Bool) (now : Int) :
    Inv cfg (s.markGrant grantId replayDetected now) := by
  unfold State.markGrant
  split
  · exact inv
  · rename_i grant holder
    have marked := inv.putGrant holder
      { grant with revokedAt := some now, status := .revoked, replayDetected := replayDetected }
      ⟨rfl, rfl, rfl⟩ (fun _ => rfl)
    exact marked.note (e := .revoked grantId) trivial ⟨_, get_put_self .., rfl⟩

theorem Inv.markAccess (inv : Inv cfg s) (reference : String) (now : Int) : Inv cfg (s.markAccess reference now) := by
  unfold State.markAccess
  split
  · exact inv
  · rename_i data found
    exact inv.putAccess found (some now)

theorem Inv.markRefresh (inv : Inv cfg s) (reference : String) (now : Int) : Inv cfg (s.markRefresh reference now) := by
  unfold State.markRefresh
  split
  · exact inv
  · rename_i data found
    exact inv.putRefresh found _ ⟨rfl, rfl, rfl, rfl, rfl, rfl⟩ id

theorem Inv.advance (inv : Inv cfg s) (p : Revoking) (now : Int) : Inv cfg (p.advance s now).1 := by
  unfold Revoking.advance
  split
  · exact inv.markGrant ..
  · exact inv
  · exact inv.markAccess ..
  · exact inv
  · exact inv
  · exact inv.markRefresh ..
  · exact inv.note (e := .swept p.grantId) trivial trivial

/-- The step lemma. -/
theorem Inv.step (inv : Inv cfg s) {e : Event} {t : State} (done : cfg.step s e = some t) : Inv cfg t := by
  cases e with
  | authorize request uid rawCode uuid now => exact inv.authorizeConsent done
  | token clientId resource clientSecret request now draw => exact inv.mcpToken done
  | lookUp accessToken =>
      cases done
      exact inv.lookUp accessToken
  | validate index now =>
      simp only [Config.step] at done
      split at done
      · cases done
      · rename_i digest data found
        cases done
        exact (inv.fewerLookups index).validate (inv.lookups _ (List.mem_of_getElem? found))
  | abandonLookup index =>
      cases done
      exact inv.fewerLookups index
  | touch grantId now =>
      cases done
      exact inv.touch grantId now
  | revokeUserGrant uid grantId =>
      cases done
      unfold State.revokeUserGrant
      split
      · exact inv
      · split
        · exact inv
        · exact { inv with }
  | revoke index now =>
      simp only [Config.step] at done
      split at done
      · cases done
      · rename_i p found
        have advanced := inv.advance p now
        split at done <;> cases done <;> exact { advanced with }
  | abandonRevoking index =>
      cases done
      exact { inv with }
  | deletion uid marker =>
      cases marker <;> cases done <;> exact { inv with }

theorem Reached.inv (reached : Reached cfg s) : Inv cfg s := by
  apply Reachable.invariant ?_ ?_ reached
  · rintro s rfl
    exact Inv.empty
  · intro s e t inv done
    exact inv.step done

/-! ## What holds of every run -/

/-- A refresh token that was rotated gives nothing more: its next use is refused, or takes the grant away. -/
def SpentFor (cfg : Config) (s : State) (refreshToken grantId : String) : Prop :=
  ∀ clientId resource scope now d,
    cfg.rotate s refreshToken clientId resource scope now d = some s ∨
      ∃ t, cfg.rotate s refreshToken clientId resource scope now d = some t ∧ t.log = .revoked grantId :: s.log ∧
        t.accessTokens = s.accessTokens

theorem Inv.spent (inv : Inv cfg s) {refreshToken grantId : String}
    (rotated : .rotated (cfg.hashSecret refreshToken) grantId ∈ s.log) : SpentFor cfg s refreshToken grantId := by
  intro clientId resource scope now d
  obtain ⟨r, found, rfl, used⟩ := inv.used _ grantId rotated
  unfold Config.rotate
  simp only [found]
  split
  · exact .inl rfl
  · split
    · exact .inl rfl
    · split
      · exact .inr ⟨_, rfl, rfl, rfl⟩
      · rename_i unused
        exact absurd (.inl used) unused

structure Sound (cfg : Config) (s : State) : Prop where
  justified : ∀ newer e older, s.log = newer ++ e :: older → Justified cfg e older
  one_live : ∀ k k' r r', get s.refreshTokens k = some r → get s.refreshTokens k' = some r' →
    r.tokenFamilyId = r'.tokenFamilyId → r.usedAt = none → r'.usedAt = none → k = k'
  spent : ∀ refreshToken grantId, .rotated (cfg.hashSecret refreshToken) grantId ∈ s.log →
    SpentFor cfg s refreshToken grantId

theorem oauth_admits_what_was_consented (reached : Reached cfg s) : Sound cfg s where
  justified := reached.inv.justified
  one_live := reached.inv.live
  spent := fun _ _ rotated => reached.inv.spent rotated

def sampleClient : Client :=
  ⟨"omi-claude-prod", ["https://api.omi.me/v1/mcp/sse"], supportedScopes, .none, "", false⟩

def sampleSecret (text : String) : String :=
  if text = "omi_code_0" then "aef4cbb40c8d470122379490eca8c9f9a210267bf6493b62e00cf880763fb569"
  else if text = "omi_oat_0" then "537945b8199718997eb0b7f28ee81ec034bcea21df007bd796c87db5ea0b4fd6"
  else if text = "omi_ort_0" then "bb7106c0af4a7d85c0d46ddb72987e2be3cd5743c7c3a5d6dc1279e235cce73f"
  else if text = "omi_oat_1" then "574567cd53dcbf530af4b4211847fc775eb9e7c1726e3ddb1e371eac86b39434"
  else if text = "omi_ort_1" then "3d03e443706b3141dd0b868c3648737802f8cb53ded5e7c24faf058a676eb03c"
  else "3f3d83b6ce913c8b2bd9f04ffb3408e30053e77bff355d0068e53b0890ba99b8"

def sampleConfig : Config where
  getClient id := if id = "omi-claude-prod" then some sampleClient else none
  validateRedirectUri _ uri := uri = "https://claude.ai/api/mcp/auth_callback"
  hashSecret := sampleSecret
  s256 _ := "E9Melhoa2OwvFrEMTJguCHaoeK1t8URWbuGJSstw-cM"
  mcpResourceUrl := "https://api.omi.me/v1/mcp/sse"
  accessTokenTtl := 3600
  authCodeTtl := 600
  refreshTokenTtl := 31536000

def sampleAuthorize : AuthorizeRequest :=
  ⟨"code", "omi-claude-prod", "https://claude.ai/api/mcp/auth_callback", "https://api.omi.me/v1/mcp/sse", none,
    some "E9Melhoa2OwvFrEMTJguCHaoeK1t8URWbuGJSstw-cM", some "S256"⟩

def sampleToken (request : TokenRequest) (now : Int) (draw : Draw) : Event :=
  .token "omi-claude-prod" "https://api.omi.me/v1/mcp/sse" none request now draw

/-- A consent, its exchange, a use of the access token, a rotation, and the first refresh token once more. -/
def sampleEvents : List Event :=
  [.authorize sampleAuthorize "user" "omi_code_0" "uuid" 0,
    sampleToken (.authorizationCode "omi_code_0" "https://claude.ai/api/mcp/auth_callback"
      "dBjftJeZ4CVP-mB92K27uhbUJU1p1r_wW1gFWFOEjXk") 1 ⟨"omi_oat_0", "omi_ort_0", "family"⟩,
    .lookUp "omi_oat_0", .validate 0 2,
    sampleToken (.refreshToken "omi_ort_0" none) 3 ⟨"omi_oat_1", "omi_ort_1", "family 1"⟩,
    sampleToken (.refreshToken "omi_ort_0" none) 4 ⟨"omi_oat_2", "omi_ort_2", "family 2"⟩,
    .lookUp "omi_oat_1", .validate 0 5]

def sampleState : State := (sampleEvents.foldlM sampleConfig.step State.empty).getD State.empty

theorem sampleState_reached : Reached sampleConfig sampleState := by
  have start : Reached sampleConfig State.empty := .start rfl
  exact start.actions (fun _ _ _ _ done => done)
    (show sampleEvents.foldlM sampleConfig.step State.empty = some sampleState by rfl)

theorem sampleState_sound :
    sampleState.log.length = 5 ∧ sampleState.log.head? = some (.revoked "user:omi-claude-prod:3f3d83b6ce913c8b") ∧
      Sound sampleConfig sampleState :=
  ⟨by decide +kernel, by decide +kernel, oauth_admits_what_was_consented sampleState_reached⟩

end OmiLocal.Mcp
