import Mathlib.Data.List.Dedup
import Mathlib.Data.List.Sort
import OmiLocal.Lib.Dict
import OmiLocal.Lib.Text
import OmiLocal.Lib.Transition

/-!
# The OAuth authority of the MCP server

Consent, the token endpoint, the check of an access token and the revocation of
a grant. A Firestore transaction is one step. What runs without one is cut at
each of its reads and writes: the check reads the token and then the grant, and a
revocation marks the grant, asks for its tokens and marks each of them, while
the requests of other clients go on. Credentials are stored under their digests.
The random parts of credentials and identifiers are inputs of a step, never
drawn before.
-/
namespace OmiLocal.Mcp

open Lib Lib.Dict

def supportedScopes : List String :=
  ["memories.read", "memories.write", "conversations.read", "action_items.read", "action_items.write", "goals.read",
    "chat.read", "screen_activity.read", "people.read"]

inductive AuthMethod where
  | none
  | clientSecretPost
  | other
deriving DecidableEq

structure Client where
  id : String
  allowedResources : List String
  allowedScopes : List String
  tokenEndpointAuthMethod : AuthMethod
  clientSecretHash : String
  disabled : Bool

/-- The registry of clients, the matching of redirect URIs, the digests and the settings. -/
structure Config where
  getClient : String → Option Client
  validateRedirectUri : Client → String → Bool
  hashSecret : String → String
  /-- base64url of the SHA-256 digest, without padding -/
  s256 : String → String
  mcpResourceUrl : String
  accessTokenTtl : Int
  authCodeTtl : Int
  refreshTokenTtl : Int

/-! ## Documents -/

inductive GrantStatus where
  | active
  | revoked
deriving DecidableEq

structure Grant where
  uid : String
  clientId : String
  resource : String
  scopes : List String
  revokedAt : Option Int
  status : GrantStatus
  replayDetected : Bool
  lastUsedAt : Int

structure Code where
  uid : String
  grantId : String
  clientId : String
  redirectUri : String
  resource : String
  scopes : List String
  codeChallenge : String
  expiresAt : Int
  consumedAt : Option Int
deriving DecidableEq

structure AccessToken where
  grantId : String
  uid : String
  clientId : String
  resource : String
  scopes : List String
  expiresAt : Int
  revokedAt : Option Int

structure RefreshToken where
  grantId : String
  tokenFamilyId : String
  uid : String
  clientId : String
  resource : String
  scopes : List String
  expiresAt : Int
  usedAt : Option Int
  replacedBy : Option String
  revokedAt : Option Int
  replayDetectedAt : Option Int

structure Identity where
  uid : String
  clientId : String
  resource : String
  scopes : List String
  grantId : String
deriving DecidableEq

/-! ## Scopes, clients and proof keys -/

/-- `sorted(set(scopes))` -/
def sortedSet (scopes : List String) : List String := scopes.dedup.insertionSort (· ≤ ·)

/-- `None` stands for the `ValueError`. -/
def normalizeScopes (scope : Option String) (allowedScopes : List String) : Option (List String) :=
  let allowed := (if allowedScopes = [] then supportedScopes else allowedScopes).filter (· ∈ supportedScopes)
  let requested := (((scope.getD "").toList.splitOn ' ').filter (· ≠ [])).map String.ofList
  let scopes := if requested = [] then ["memories.read"] else requested
  if scopes.any (· ∉ allowed) then none else some (sortedSet scopes)

def pkceAllowedChar (c : Char) : Bool :=
  let n := c.toNat
  (65 ≤ n && n ≤ 90) || (97 ≤ n && n ≤ 122) || (48 ≤ n && n ≤ 57) || c = '.' || c = '_' || c = '~' || c = '-'

/-- `PKCE_ALLOWED_RE.fullmatch` -/
def pkceAllowed (text : String) : Bool :=
  43 ≤ text.toList.length && text.toList.length ≤ 128 && text.toList.all pkceAllowedChar

def Config.pkceS256 (cfg : Config) (codeVerifier : String) : Option String :=
  if pkceAllowed codeVerifier then some (cfg.s256 codeVerifier) else none

def validatePkceChallenge (codeChallenge codeChallengeMethod : Option String) : Bool :=
  codeChallengeMethod = some "S256" && codeChallenge.any pkceAllowed

def Config.verifyClientSecret (cfg : Config) (client : Client) (clientSecret : Option String) : Bool :=
  client.tokenEndpointAuthMethod = .clientSecretPost && client.clientSecretHash ≠ "" &&
    clientSecret.any fun secret => secret ≠ "" && client.clientSecretHash = cfg.hashSecret secret

def Config.verifyClientAuth (cfg : Config) (client : Client) (clientSecret : Option String) : Bool :=
  match client.tokenEndpointAuthMethod with
  | .none => clientSecret.getD "" = ""
  | .clientSecretPost => cfg.verifyClientSecret client clientSecret
  | .other => false

/-! ## Account deletion -/

def accountDeletionInvalidStatus : String := "__invalid_account_deletion_status__"

/-- The marker's `wipe_status`, absent where it is no text. -/
def normalizeAccountDeletionStatus (marker : Option (Option String)) : Option String :=
  marker.map fun raw =>
    match raw with
    | some status => if Text.strip status = "" then accountDeletionInvalidStatus else Text.strip status
    | none => accountDeletionInvalidStatus

def accountDeletionBlocksAccess (status : Option String) : Bool :=
  status.any fun s => s ≠ "cancelled" && s ≠ "billing_failed"

/-! ## Grants and tokens -/

def Grant.isRevoked (g : Grant) : Bool := g.revokedAt.isSome || decide (g.status = .revoked)

/-- `deterministic_grant_id` -/
def Config.grantId (cfg : Config) (uid clientId resource : String) : String :=
  uid ++ ":" ++ clientId ++ ":" ++ String.ofList ((cfg.hashSecret resource).toList.take 16)

/-- `_grant_write`: a revoked grant is left alone, and a new one gets a name of its own. -/
def grantWrite (key : String) (existing : Option Grant) (uid clientId resource : String) (scopes : List String)
    (uuid : String) (now : Int) : String × Grant :=
  let fresh : Grant := ⟨uid, clientId, resource, sortedSet scopes, none, .active, false, now⟩
  match existing with
  | some g =>
      if g.isRevoked then (key ++ ":" ++ uuid, fresh)
      else (key, { fresh with scopes := sortedSet (g.scopes ++ scopes), replayDetected := g.replayDetected })
  | none => (key, fresh)

structure TokenPair where
  access : AccessToken
  refresh : RefreshToken

/-- `_build_token_pair_writes` -/
def Config.tokenPair (cfg : Config) (grantId : String) (grant : Grant) (scopes : List String) (tokenFamilyId : String)
    (now : Int) : TokenPair :=
  let issued := sortedSet (if scopes = [] then grant.scopes else scopes)
  { access := ⟨grantId, grant.uid, grant.clientId, grant.resource, issued, now + cfg.accessTokenTtl, none⟩
    refresh := ⟨grantId, tokenFamilyId, grant.uid, grant.clientId, grant.resource, issued, now + cfg.refreshTokenTtl,
      none, none, none, none⟩ }

/-- `_valid_oauth_scopes` -/
def validOauthScopes (scopes : List String) : Bool :=
  scopes ≠ [] && scopes.all (fun s => s ≠ "" && s ∈ supportedScopes) && decide scopes.Nodup

def nonemptyString (s : String) : Bool := Text.strip s ≠ ""

/-- `_validated_access_token_identity`; no grant has a time of expiry. -/
def validatedAccessTokenIdentity (data : AccessToken) (persistedGrantId : String) (grant : Grant) (resource : String)
    (now : Int) : Option Identity :=
  if nonemptyString data.uid ∧ nonemptyString data.clientId ∧ nonemptyString data.grantId ∧
      nonemptyString data.resource ∧ validOauthScopes data.scopes ∧ validOauthScopes grant.scopes ∧
      data.revokedAt = none ∧ now < data.expiresAt ∧ grant.status = .active ∧ grant.revokedAt = none ∧
      data.resource = resource ∧ data.uid = grant.uid ∧ data.clientId = grant.clientId ∧
      data.grantId = persistedGrantId ∧ data.resource = grant.resource ∧ ∀ s ∈ data.scopes, s ∈ grant.scopes then
    some ⟨data.uid, data.clientId, data.resource, data.scopes, data.grantId⟩
  else none

/-! ## States -/

inductive RevokeStage where
  | grant
  | findAccess
  | access (references : List String)
  | findRefresh
  | refresh (references : List String)

/-- A call of `revoke_grant`. -/
structure Revoking where
  grantId : String
  replayDetected : Bool
  stage : RevokeStage

/-- What the authority did, newest first; no decision reads it. Credentials are named by their digests. `swept` is
the end of a `revoke_grant`. -/
inductive Entry where
  | consented (code : String) (document : Code)
  | exchanged (code codeVerifier clientId redirectUri resource : String) (grantId : String)
  | rotated (refreshToken : String) (grantId : String)
  | admitted (accessToken : String) (identity : Identity)
  | revoked (grantId : String)
  | swept (grantId : String)
deriving DecidableEq

/-- `lookups` are the checks of access tokens that have read the token and not yet the grant; `drawn` is every
digest and identifier that was ever made of a random part. -/
structure State where
  grants : List (String × Grant)
  codes : List (String × Code)
  accessTokens : List (String × AccessToken)
  refreshTokens : List (String × RefreshToken)
  deletions : List (String × Option String)
  revoking : List Revoking
  lookups : List (String × AccessToken)
  drawn : List String
  log : List Entry

def State.empty : State := ⟨[], [], [], [], [], [], [], [], []⟩

/-! ## Consent -/

structure AuthorizeRequest where
  responseType : String
  clientId : String
  redirectUri : String
  resource : String
  scope : Option String
  codeChallenge : Option String
  codeChallengeMethod : Option String

/-- `_validate_authorize_request`: the scopes, when every check passes. -/
def Config.validateAuthorizeRequest (cfg : Config) (r : AuthorizeRequest) : Option (List String) :=
  match cfg.getClient r.clientId with
  | none => none
  | some client =>
      if r.responseType ≠ "code" ∨ client.disabled ∨ ¬ cfg.validateRedirectUri client r.redirectUri ∨
          r.resource ∉ client.allowedResources ∨ ¬ validatePkceChallenge r.codeChallenge r.codeChallengeMethod then none
      else normalizeScopes r.scope client.allowedScopes

/-- `create_grant_and_authorization_code_if_allowed`: one transaction. -/
def Config.createGrantAndCode (cfg : Config) (s : State) (uid clientId redirectUri resource : String)
    (scopes : List String) (codeChallenge rawCode uuid : String) (now : Int) : Option State :=
  let code := cfg.hashSecret rawCode
  let key := cfg.grantId uid clientId resource
  if accountDeletionBlocksAccess (normalizeAccountDeletionStatus (get s.deletions uid)) then some s
  else
    let (grantId, grant) := grantWrite key (get s.grants key) uid clientId resource scopes uuid now
    let document : Code :=
      ⟨uid, grantId, clientId, redirectUri, resource, scopes, codeChallenge, now + cfg.authCodeTtl, none⟩
    if code ∈ s.drawn ∨ (key ++ ":" ++ uuid) ∈ keys s.grants then none
    else some { s with
      grants := put s.grants grantId grant
      codes := put s.codes code document
      drawn := code :: s.drawn
      log := .consented code document :: s.log }

/-- `mcp_authorize_consent` for a user who has signed in. -/
def Config.authorizeConsent (cfg : Config) (s : State) (r : AuthorizeRequest) (uid rawCode uuid : String) (now : Int) :
    Option State :=
  match cfg.validateAuthorizeRequest r, r.codeChallenge with
  | some scopes, some challenge =>
      cfg.createGrantAndCode s uid r.clientId r.redirectUri r.resource scopes challenge rawCode uuid now
  | _, _ => some s

/-! ## The token endpoint -/

/-- What is drawn for a pair of tokens; a rotation draws no family. -/
structure Draw where
  accessToken : String
  refreshToken : String
  tokenFamilyId : String

def Config.fresh (cfg : Config) (s : State) (d : Draw) : Prop :=
  cfg.hashSecret d.accessToken ∉ s.drawn ∧ cfg.hashSecret d.refreshToken ∉ s.drawn ∧ d.tokenFamilyId ∉ s.drawn

instance (cfg : Config) (s : State) (d : Draw) : Decidable (cfg.fresh s d) := by
  unfold Config.fresh
  infer_instance

/-- Both documents of a pair, and the grant's last use. -/
def Config.issue (cfg : Config) (s : State) (d : Draw) (pair : TokenPair) (grantId : String) (grant : Grant)
    (now : Int) : State :=
  { s with
    grants := put s.grants grantId { grant with lastUsedAt := now }
    accessTokens := put s.accessTokens (cfg.hashSecret d.accessToken) pair.access
    refreshTokens := put s.refreshTokens (cfg.hashSecret d.refreshToken) pair.refresh
    drawn := cfg.hashSecret d.accessToken :: cfg.hashSecret d.refreshToken :: d.tokenFamilyId :: s.drawn }

/-- `exchange_authorization_code_for_tokens`: one transaction. -/
def Config.exchange (cfg : Config) (s : State) (rawCode clientId redirectUri resource codeVerifier : String) (now : Int)
    (d : Draw) : Option State :=
  let code := cfg.hashSecret rawCode
  match get s.codes code with
  | none => some s
  | some data =>
      if data.consumedAt.isSome ∨ data.expiresAt ≤ now then some s
      else if data.clientId ≠ clientId ∨ data.redirectUri ≠ redirectUri ∨ data.resource ≠ resource then some s
      else if cfg.pkceS256 codeVerifier ≠ some data.codeChallenge then some s
      else
        match get s.grants data.grantId with
        | none => some s
        | some grant =>
            if grant.isRevoked then some s
            else if ¬ cfg.fresh s d then none
            else
              let t := cfg.issue s d (cfg.tokenPair data.grantId grant data.scopes d.tokenFamilyId now) data.grantId grant now
              some { t with
                codes := put t.codes code { data with consumedAt := some now }
                log := .exchanged code codeVerifier clientId redirectUri resource data.grantId :: t.log }

/-- The replay branch of `rotate_refresh_token`: the transaction marks the grant and the token, and `revoke_grant` is
called after it. -/
def Config.replayed (s : State) (token : String) (data : RefreshToken) (grant : Grant) (now : Int) : State :=
  { s with
    grants := put s.grants data.grantId
      { grant with revokedAt := some now, status := .revoked, replayDetected := true }
    refreshTokens := put s.refreshTokens token { data with replayDetectedAt := some now, revokedAt := some now }
    revoking := s.revoking ++ [⟨data.grantId, true, .grant⟩]
    log := .revoked data.grantId :: s.log }

/-- The scopes that a rotation asks for. -/
def requestedScopes (scope : Option String) (granted : List String) : Option (List String) :=
  match scope with
  | none => some granted
  | some text => if text = "" then some granted else normalizeScopes scope granted

/-- `rotate_refresh_token` up to the end of its transaction. -/
def Config.rotate (cfg : Config) (s : State) (refreshToken clientId resource : String) (scope : Option String)
    (now : Int) (d : Draw) : Option State :=
  let token := cfg.hashSecret refreshToken
  match get s.refreshTokens token with
  | none => some s
  | some data =>
      match get s.grants data.grantId with
      | none => some s
      | some grant =>
          if data.clientId ≠ clientId ∨ data.resource ≠ resource ∨ data.revokedAt.isSome ∨ data.expiresAt ≤ now ∨
              grant.isRevoked then some s
          else if data.usedAt.isSome ∨ data.replacedBy.isSome then some (Config.replayed s token data grant now)
          else
            match requestedScopes scope data.scopes with
            | none => some s
            | some requested =>
                if requested.any (· ∉ data.scopes) then some s
                else if ¬ cfg.fresh s d then none
                else
                  let pair := cfg.tokenPair data.grantId grant requested data.tokenFamilyId now
                  let t := cfg.issue s d pair data.grantId grant now
                  some { t with
                    refreshTokens := put t.refreshTokens token
                      { data with usedAt := some now, replacedBy := some (cfg.hashSecret d.refreshToken) }
                    log := .rotated token data.grantId :: t.log }

inductive TokenRequest where
  | authorizationCode (code redirectUri codeVerifier : String)
  | refreshToken (refreshToken : String) (scope : Option String)

/-- `mcp_token`. A field that the request leaves out is empty. -/
def Config.mcpToken (cfg : Config) (s : State) (clientId resource : String) (clientSecret : Option String)
    (request : TokenRequest) (now : Int) (d : Draw) : Option State :=
  match cfg.getClient clientId with
  | none => some s
  | some client =>
      if client.disabled ∨ ¬ cfg.verifyClientAuth client clientSecret then some s
      else
        match request with
        | .authorizationCode code redirectUri codeVerifier =>
            if code = "" ∨ redirectUri = "" ∨ codeVerifier = "" ∨ resource = "" ∨ resource ∉ client.allowedResources then
              some s
            else cfg.exchange s code clientId redirectUri resource codeVerifier now d
        | .refreshToken refreshToken scope =>
            if refreshToken = "" ∨ resource = "" ∨ resource ∉ client.allowedResources then some s
            else cfg.rotate s refreshToken clientId resource scope now d

/-! ## Access tokens -/

/-- The first read of `validate_access_token`. -/
def Config.lookUp (cfg : Config) (s : State) (accessToken : String) : State :=
  match get s.accessTokens (cfg.hashSecret accessToken) with
  | none => s
  | some data => { s with lookups := s.lookups ++ [(cfg.hashSecret accessToken, data)] }

/-- The second read, the decision, and the grant's last use. -/
def Config.validate (cfg : Config) (s : State) (digest : String) (data : AccessToken) (now : Int) : State :=
  match get s.grants data.grantId with
  | none => s
  | some grant =>
      if grant.isRevoked then s
      else
        match validatedAccessTokenIdentity data data.grantId grant cfg.mcpResourceUrl now with
        | none => s
        | some identity => { s with log := .admitted digest identity :: s.log }

/-- `set({"last_used_at": …}, merge=True)` after a check, whatever became of the grant since it was read. -/
def State.touch (s : State) (grantId : String) (now : Int) : State :=
  match get s.grants grantId with
  | none => s
  | some grant => { s with grants := put s.grants grantId { grant with lastUsedAt := now } }

/-! ## Revocation

No grant and no token is ever deleted here, so that a merge finds its document. -/

def State.markGrant (s : State) (grantId : String) (replayDetected : Bool) (now : Int) : State :=
  match get s.grants grantId with
  | none => s
  | some grant =>
      { s with
        grants := put s.grants grantId { grant with revokedAt := some now, status := .revoked, replayDetected := replayDetected }
        log := .revoked grantId :: s.log }

def State.markAccess (s : State) (reference : String) (now : Int) : State :=
  match get s.accessTokens reference with
  | none => s
  | some data => { s with accessTokens := put s.accessTokens reference { data with revokedAt := some now } }

def State.markRefresh (s : State) (reference : String) (now : Int) : State :=
  match get s.refreshTokens reference with
  | none => s
  | some data => { s with refreshTokens := put s.refreshTokens reference { data with revokedAt := some now } }

/-- The next read or write of a `revoke_grant`, and what is left of it. -/
def Revoking.advance (p : Revoking) (s : State) (now : Int) : State × Option Revoking :=
  match p.stage with
  | .grant => (s.markGrant p.grantId p.replayDetected now, some { p with stage := .findAccess })
  | .findAccess =>
      (s, some { p with stage := .access ((s.accessTokens.filter fun e => e.2.grantId = p.grantId).map Prod.fst) })
  | .access (reference :: rest) => (s.markAccess reference now, some { p with stage := .access rest })
  | .access [] => (s, some { p with stage := .findRefresh })
  | .findRefresh =>
      (s, some { p with stage := .refresh ((s.refreshTokens.filter fun e => e.2.grantId = p.grantId).map Prod.fst) })
  | .refresh (reference :: rest) => (s.markRefresh reference now, some { p with stage := .refresh rest })
  | .refresh [] => ({ s with log := .swept p.grantId :: s.log }, none)

/-- `revoke_user_grant` up to its call of `revoke_grant`. -/
def State.revokeUserGrant (s : State) (uid grantId : String) : State :=
  match get s.grants grantId with
  | none => s
  | some grant => if grant.uid ≠ uid then s else { s with revoking := s.revoking ++ [⟨grantId, false, .grant⟩] }

/-! ## Steps -/

/-- A request's process can stop between two of its steps: `abandonLookup` and `abandonRevoking`. -/
inductive Event where
  | authorize (request : AuthorizeRequest) (uid rawCode uuid : String) (now : Int)
  | token (clientId resource : String) (clientSecret : Option String) (request : TokenRequest) (now : Int) (draw : Draw)
  | lookUp (accessToken : String)
  | validate (index : Nat) (now : Int)
  | abandonLookup (index : Nat)
  | touch (grantId : String) (now : Int)
  | revokeUserGrant (uid grantId : String)
  | revoke (index : Nat) (now : Int)
  | abandonRevoking (index : Nat)
  | deletion (uid : String) (marker : Option (Option String))

def Config.step (cfg : Config) (s : State) : Event → Option State
  | .authorize request uid rawCode uuid now => cfg.authorizeConsent s request uid rawCode uuid now
  | .token clientId resource clientSecret request now draw =>
      cfg.mcpToken s clientId resource clientSecret request now draw
  | .lookUp accessToken => some (cfg.lookUp s accessToken)
  | .validate index now =>
      match s.lookups[index]? with
      | none => none
      | some (digest, data) => some (cfg.validate { s with lookups := s.lookups.eraseIdx index } digest data now)
  | .abandonLookup index => some { s with lookups := s.lookups.eraseIdx index }
  | .touch grantId now => some (s.touch grantId now)
  | .revokeUserGrant uid grantId => some (s.revokeUserGrant uid grantId)
  | .revoke index now =>
      match s.revoking[index]? with
      | none => none
      | some p =>
          let (t, next) := p.advance s now
          match next with
          | some q => some { t with revoking := t.revoking.set index q }
          | none => some { t with revoking := t.revoking.eraseIdx index }
  | .abandonRevoking index => some { s with revoking := s.revoking.eraseIdx index }
  | .deletion uid marker =>
      match marker with
      | some wipeStatus => some { s with deletions := put s.deletions uid wipeStatus }
      | none => some { s with deletions := erase s.deletions uid }

def Reached (cfg : Config) (s : State) : Prop :=
  Lib.Transition.Reachable (fun s => s = State.empty) (fun s e t => cfg.step s e = some t) s

end OmiLocal.Mcp
