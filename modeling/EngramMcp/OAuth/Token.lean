import EngramMcp.OAuth.Authorization
import EngramMcp.OAuth.RefreshRun

/-!
# The token endpoint

`exchange_token` with its two grants, and `authenticate_bearer`.

Each grant is a chain of checks that may return early, and then one operation on shared state: the
removal of a code, or the rotation of a token family. The checks are functions to `Except` here
(`openCodeExchange`, `prepareRotation`), so what was established before the shared state is
touched can be said in one lemma.
-/

namespace EngramMcp

open Infra

/-- `TokenResponse`. -/
structure TokenResponse where
  accessToken : String
  refreshToken : String
  tokenType : String
  expiresIn : UInt64
  scope : String

/-- `OAuthIdentity`. -/
structure OAuthIdentity where
  scope : AccessScope
  credentialFingerprint : Bytes

/-- What a call of the token endpoint reads from outside. -/
structure TokenEnv where
  /-- The reading of the clock in the handler itself. -/
  now : UInt64
  /-- The reading at the start of `issue_token_pair`. -/
  issuedAt : UInt64
  /-- The reading in `issue_access_token`. -/
  accessIssuedAt : UInt64
  familyDraw : Option Digest
  accessDraw : Option Digest
  tokenDraw : Option Digest
  io : PersistIo

/-- A response that is ready, with the refresh-token claims that are signed in it. -/
structure PreparedTokens where
  claims : RefreshTokenClaims
  response : TokenResponse

/-- The checked parameters of a code exchange. -/
structure CodeExchange where
  client : RegisteredClient
  code : String
  redirectUri : String
  codeVerifier : String
  resource : String

/-- A rotation that is ready: the claims of the presented token, and the new tokens. -/
structure PreparedRotation where
  presented : RefreshTokenClaims
  tokens : PreparedTokens

section

variable (C : Crates) (S : OAuthSettings)

/-! ## Issuing -/

/-- The string of an access token. -/
def accessTokenOf (claims : AccessTokenClaims) : String :=
  accessTokenPrefix ++ sign C S accessTokenLabel claims.toVec

/-- The string of a refresh token. -/
def refreshTokenOf (claims : RefreshTokenClaims) : String :=
  refreshTokenPrefix ++ sign C S refreshTokenLabel claims.toVec

/-- `issue_access_token`. -/
def issueAccessToken (scopes : ScopeGrant) (resource familyId : String) (now : UInt64)
    (draw : Option Digest) : Except OAuthError (String × UInt64) := do
  rejectIf (resource != S.resource || !scopes.isValid || familyId == "") .invalidTarget
  let tokenId ← randomValue "ati_" draw
  return (accessTokenOf C S ⟨tokenClaimsVersion, tokenId, familyId, scopes, resource, now,
    saturatingAdd now S.accessTokenTtlSeconds⟩, S.accessTokenTtlSeconds)

/-- `issue_token_pair` up to `create_family`. -/
def preparePair (env : TokenEnv) (scopes : ScopeGrant) (resource clientId : String) :
    Except OAuthError PreparedTokens := do
  let familyId ← randomValue "rf_" env.familyDraw
  let (accessToken, expiresIn) ← issueAccessToken C S scopes resource familyId env.accessIssuedAt
    env.accessDraw
  let tokenId ← randomValue "rti_" env.tokenDraw
  let claims : RefreshTokenClaims := ⟨tokenClaimsVersion, familyId, tokenId,
    clientBinding C S clientId, scopes, resource, env.issuedAt,
    saturatingAdd env.issuedAt S.refreshTokenTtlSeconds⟩
  return ⟨claims, accessToken, refreshTokenOf C S claims, "Bearer", expiresIn, scopes.asString⟩

/-- `issue_token_pair`. -/
def issueTokenPair (store : RefreshTokenStore) (env : TokenEnv) (scopes : ScopeGrant)
    (resource clientId : String) : RefreshTokenStore × Except OAuthError TokenResponse :=
  match preparePair C S env scopes resource clientId with
  | .error e => (store, .error e)
  | .ok p =>
    let (store', created) := store.createFamily env.io p.claims.familyId
      (refreshTokenIdHash C S p.claims.tokenId) p.claims.expiresAt env.issuedAt
    (store', created.map fun _ => p.response)

/-! ## The code grant -/

/-- `exchange_authorization_code` up to the removal of the code. -/
def openCodeExchange (request : TokenRequest) (authorizationHeader : Option String) :
    Except OAuthError CodeExchange := do
  let code ← okOr request.code .invalidGrant
  let redirectUri ← okOr request.redirectUri .invalidGrant
  let codeVerifier ← okOr request.codeVerifier .invalidGrant
  rejectIf (code.utf8ByteSize > maxFormValueLength || codeVerifier.utf8ByteSize > 128
    || redirectUri.utf8ByteSize > maxFormValueLength || request.resource != S.resource)
    .invalidGrant
  let client ← authenticateClient C S request authorizationHeader
  return ⟨client, code, redirectUri, codeVerifier, request.resource⟩

/-- Removes a code from the map. This is the step the mutex makes atomic. -/
def OAuthState.takeCode (state : OAuthState) (hash : Digest) :
    OAuthState × Option AuthorizationCode :=
  ({ state with authorizationCodes := state.authorizationCodes.erase hash },
    state.authorizationCodes.lookup hash)

/-- The checks on the record that was removed. -/
def checkRecord (x : CodeExchange) (record : AuthorizationCode) (now : UInt64) :
    Except OAuthError Unit :=
  rejectIf (decide (record.expiresAt ≤ now) || record.clientId != x.client.clientId
    || record.redirectUri != x.redirectUri || record.resource != x.resource
    || !verifyPkce C x.codeVerifier record.codeChallenge) .invalidGrant

/-- `exchange_authorization_code` after the removal of the code. -/
def redeem (state : OAuthState) (env : TokenEnv) (x : CodeExchange)
    (removed : Option AuthorizationCode) : OAuthState × Except OAuthError TokenResponse :=
  match removed with
  | none => (state, .error .invalidGrant)
  | some record =>
    match checkRecord C x record env.now with
    | .error e => (state, .error e)
    | .ok () =>
      let (store, response) := issueTokenPair C S state.refreshTokens env record.scopes
        record.resource x.client.clientId
      ({ state with refreshTokens := store }, response)

/-- `exchange_authorization_code`. -/
def exchangeAuthorizationCode (state : OAuthState) (env : TokenEnv) (request : TokenRequest)
    (authorizationHeader : Option String) : OAuthState × Except OAuthError TokenResponse :=
  match openCodeExchange C S request authorizationHeader with
  | .error e => (state, .error e)
  | .ok x =>
    let (state', removed) := state.takeCode (tokenHash C S x.code)
    redeem C S state' env x removed

/-! ## The refresh grant -/

/-- `exchange_refresh_token` up to the claims of the presented token. -/
def openRefreshToken (request : TokenRequest) (authorizationHeader : Option String) :
    Except OAuthError (RegisteredClient × RefreshTokenClaims) := do
  let refreshToken ← okOr request.refreshToken .invalidGrant
  rejectIf (refreshToken.utf8ByteSize > maxFormValueLength || request.resource != S.resource)
    .invalidGrant
  let client ← authenticateClient C S request authorizationHeader
  let claims ← (verifyToken C S C.refreshClaims refreshTokenPrefix refreshTokenLabel
    refreshToken).mapError fun _ => .invalidGrant
  return (client, claims)

/-- The checks on the claims of the presented token. -/
def checkRefreshClaims (client : RegisteredClient) (claims : RefreshTokenClaims) (now : UInt64) :
    Except OAuthError Unit :=
  rejectIf (claims.version != tokenClaimsVersion || !claims.scopes.isValid
    || claims.audience != S.resource || decide (claims.expiresAt ≤ now)
    || !constantTimeEqual (utf8 claims.clientBinding) (utf8 (clientBinding C S client.clientId)))
    .invalidGrant

/-- The scopes of the new tokens. -/
def refreshedScopes (claims : RefreshTokenClaims) (scope : Option String) :
    Except OAuthError ScopeGrant := do
  let scopes ← ScopeGrant.parseOr claims.scopes scope
  rejectIf (!claims.scopes.allows scopes) .invalidScope
  return scopes

/-- The new tokens, signed before the family is rotated. -/
def prepareTokens (env : TokenEnv) (client : RegisteredClient) (claims : RefreshTokenClaims)
    (scopes : ScopeGrant) : Except OAuthError PreparedTokens := do
  let (accessToken, expiresIn) ← issueAccessToken C S scopes S.resource claims.familyId
    env.accessIssuedAt env.accessDraw
  let nextTokenId ← randomValue "rti_" env.tokenDraw
  let next : RefreshTokenClaims := ⟨tokenClaimsVersion, claims.familyId, nextTokenId,
    clientBinding C S client.clientId, scopes, S.resource, env.now,
    saturatingAdd env.now S.refreshTokenTtlSeconds⟩
  return ⟨next, accessToken, refreshTokenOf C S next, "Bearer", expiresIn, scopes.asString⟩

/-- `exchange_refresh_token` up to `rotate`. -/
def prepareRotation (env : TokenEnv) (request : TokenRequest)
    (authorizationHeader : Option String) : Except OAuthError PreparedRotation := do
  let (client, claims) ← openRefreshToken C S request authorizationHeader
  checkRefreshClaims C S client claims env.now
  let scopes ← refreshedScopes claims request.scope
  let tokens ← prepareTokens C S env client claims scopes
  return ⟨claims, tokens⟩

/-- The call of `rotate`. -/
def rotateFamily (store : RefreshTokenStore) (env : TokenEnv) (p : PreparedRotation) :
    RefreshTokenStore × Except OAuthError Unit :=
  store.rotate env.io p.presented.familyId (refreshTokenIdHash C S p.presented.tokenId)
    (refreshTokenIdHash C S p.tokens.claims.tokenId) p.tokens.claims.expiresAt env.now

/-- `exchange_refresh_token`. -/
def exchangeRefreshToken (state : OAuthState) (env : TokenEnv) (request : TokenRequest)
    (authorizationHeader : Option String) : OAuthState × Except OAuthError TokenResponse :=
  match prepareRotation C S env request authorizationHeader with
  | .error e => (state, .error e)
  | .ok p =>
    let (store, rotated) := rotateFamily C S state.refreshTokens env p
    ({ state with refreshTokens := store }, rotated.map fun _ => p.tokens.response)

/-- `exchange_token`. -/
def exchangeToken (state : OAuthState) (env : TokenEnv) (request : TokenRequest)
    (authorizationHeader : Option String) : OAuthState × Except OAuthError TokenResponse :=
  match request.grantType with
  | "authorization_code" => exchangeAuthorizationCode C S state env request authorizationHeader
  | "refresh_token" => exchangeRefreshToken C S state env request authorizationHeader
  | _ => (state, .error .invalidGrant)

/-! ## Bearer tokens -/

/-- `authenticate_bearer`. -/
def authenticateBearer (state : OAuthState) (token : String) (now : UInt64) :
    Except OAuthError OAuthIdentity := do
  rejectIf (token.utf8ByteSize > maxFormValueLength || !startsWith accessTokenPrefix token)
    .invalidGrant
  let claims ← (verifyToken C S C.accessClaims accessTokenPrefix accessTokenLabel token).mapError
    fun _ => .invalidGrant
  rejectIf (claims.version != tokenClaimsVersion || !claims.scopes.isValid
    || claims.familyId == "" || claims.audience != S.resource || decide (claims.expiresAt ≤ now))
    .invalidGrant
  rejectIf (!state.refreshTokens.isActive claims.familyId now) .invalidGrant
  return ⟨claims.scopes.accessScope, auditFingerprint C S (tokenHash C S token)⟩

end

variable {C : Crates} {S : OAuthSettings}

/-! ## What the parts establish -/

/-- An access token is issued for valid scopes, and carries exactly them. -/
theorem issueAccessToken_eq_ok {scopes : ScopeGrant} {resource familyId : String} {now : UInt64}
    {draw : Option Digest} {r : String × UInt64}
    (h : issueAccessToken C S scopes resource familyId now draw = .ok r) :
    resource = S.resource ∧ scopes.isValid = true ∧ familyId ≠ "" ∧
      ∃ claims : AccessTokenClaims, r.1 = accessTokenOf C S claims ∧ claims.scopes = scopes ∧
        claims.familyId = familyId := by
  unfold issueAccessToken at h
  simp only [bind_eq_ok, rejectIf_eq_ok] at h
  obtain ⟨_, hg, tokenId, _, h⟩ := h
  simp only [Bool.or_eq_false_iff, bne_eq_false_iff_eq, Bool.not_eq_false', beq_eq_false_iff_ne]
    at hg
  cases Except.ok.inj h
  exact ⟨hg.1.1, hg.1.2, hg.2, _, rfl, rfl, rfl⟩

/-- With a draw, an access token for valid scopes is always issued. -/
theorem exists_issueAccessToken {scopes : ScopeGrant} {familyId : String} {draw : Option Digest}
    (hs : scopes.isValid = true) (hf : familyId ≠ "") (hd : draw.isSome = true) (now : UInt64) :
    ∃ r, issueAccessToken C S scopes S.resource familyId now draw = .ok r := by
  obtain ⟨b, rfl⟩ := Option.isSome_iff_exists.mp hd
  unfold issueAccessToken
  simp only [bind_eq_ok, rejectIf_eq_ok, randomValue_eq_ok]
  exact ⟨_, (), by simp [hs, hf], _, ⟨b, rfl, rfl⟩, rfl⟩

/-- The tokens of a response are for the family `k` and the grant `g`. -/
structure PreparedTokens.WellFormed (C : Crates) (S : OAuthSettings) (p : PreparedTokens)
    (k : String) (g : ScopeGrant) : Prop where
  refreshToken : p.response.refreshToken = refreshTokenOf C S p.claims
  accessToken : ∃ claims : AccessTokenClaims, p.response.accessToken = accessTokenOf C S claims ∧
    claims.scopes = g ∧ claims.familyId = k
  version : p.claims.version = tokenClaimsVersion
  family : p.claims.familyId = k
  nonempty : k ≠ ""
  scopes : p.claims.scopes = g
  isValid : g.isValid = true
  audience : p.claims.audience = S.resource

/-- The tokens of the code grant are for a family with a random name. -/
theorem preparePair_eq_ok {env : TokenEnv} {scopes : ScopeGrant} {resource clientId : String}
    {p : PreparedTokens} (h : preparePair C S env scopes resource clientId = .ok p) :
    p.WellFormed C S p.claims.familyId scopes ∧
      (∃ b, env.familyDraw = some b ∧ p.claims.familyId = "rf_" ++ Base64.urlSafe.encode b.1) ∧
      (∃ b, env.tokenDraw = some b ∧ p.claims.tokenId = "rti_" ++ Base64.urlSafe.encode b.1) := by
  unfold preparePair at h
  simp only [bind_eq_ok, randomValue_eq_ok] at h
  obtain ⟨familyId, ⟨b, hb, hfb⟩, r, hr, tokenId, ⟨b', hb', htb⟩, h⟩ := h
  obtain ⟨hres, hvalid, hne, ac, hac, hsc, hfam⟩ := issueAccessToken_eq_ok hr
  cases Except.ok.inj h
  exact ⟨⟨rfl, ⟨ac, hac, hsc, hfam⟩, rfl, rfl, hne, rfl, hvalid, hres⟩, ⟨b, hb, hfb⟩, b', hb', htb⟩

/-- With all draws, a pair for valid scopes is always prepared. -/
theorem exists_preparePair {env : TokenEnv} {scopes : ScopeGrant} {b b' b'' : Digest}
    (hs : scopes.isValid = true) (hfamily : env.familyDraw = some b)
    (haccess : env.accessDraw = some b') (htoken : env.tokenDraw = some b'') (clientId : String) :
    ∃ p, preparePair C S env scopes S.resource clientId = .ok p ∧
      p.claims = ⟨tokenClaimsVersion, "rf_" ++ Base64.urlSafe.encode b.1,
        "rti_" ++ Base64.urlSafe.encode b''.1, clientBinding C S clientId, scopes, S.resource,
        env.issuedAt, saturatingAdd env.issuedAt S.refreshTokenTtlSeconds⟩ ∧
      p.response.accessToken = accessTokenOf C S ⟨tokenClaimsVersion,
        "ati_" ++ Base64.urlSafe.encode b'.1, "rf_" ++ Base64.urlSafe.encode b.1, scopes,
        S.resource, env.accessIssuedAt,
        saturatingAdd env.accessIssuedAt S.accessTokenTtlSeconds⟩ := by
  have hne : "rf_" ++ Base64.urlSafe.encode b.1 ≠ "" := by
    intro he
    have hl := congrArg String.toList he
    rw [String.toList_append] at hl
    exact absurd (List.append_eq_nil_iff.mp hl).1 (by decide)
  have hissue : issueAccessToken C S scopes S.resource ("rf_" ++ Base64.urlSafe.encode b.1)
      env.accessIssuedAt env.accessDraw = .ok (accessTokenOf C S ⟨tokenClaimsVersion,
        "ati_" ++ Base64.urlSafe.encode b'.1, "rf_" ++ Base64.urlSafe.encode b.1, scopes,
        S.resource, env.accessIssuedAt, saturatingAdd env.accessIssuedAt S.accessTokenTtlSeconds⟩,
        S.accessTokenTtlSeconds) :=
    bind_eq_ok.mpr ⟨(), rejectIf_eq_ok.mpr (by simp [hs, hne]),
      bind_eq_ok.mpr ⟨_, randomValue_eq_ok.mpr ⟨b', haccess, rfl⟩, rfl⟩⟩
  exact ⟨_, bind_eq_ok.mpr ⟨_, randomValue_eq_ok.mpr ⟨b, hfamily, rfl⟩, bind_eq_ok.mpr ⟨_, hissue,
    bind_eq_ok.mpr ⟨_, randomValue_eq_ok.mpr ⟨b'', htoken, rfl⟩, rfl⟩⟩⟩, rfl, rfl⟩

/-- A checked record is redeemed with one call on the store. -/
theorem redeem_of_prepared {state : OAuthState} {env : TokenEnv} {x : CodeExchange}
    {record : AuthorizationCode} {p : PreparedTokens} {store : RefreshTokenStore}
    {answer : Except OAuthError Unit} (hcheck : checkRecord C x record env.now = .ok ())
    (hp : preparePair C S env record.scopes record.resource x.client.clientId = .ok p)
    (hcall : state.refreshTokens.createFamily env.io p.claims.familyId
      (refreshTokenIdHash C S p.claims.tokenId) p.claims.expiresAt env.issuedAt
        = (store, answer)) :
    redeem C S state env x (some record)
      = ({ state with refreshTokens := store }, answer.map fun _ => p.response) := by
  simp only [redeem, hcheck, issueTokenPair, hp, hcall]

/-- The tokens of the refresh grant are for the family of the presented one. -/
theorem prepareTokens_eq_ok {env : TokenEnv} {client : RegisteredClient}
    {claims : RefreshTokenClaims} {scopes : ScopeGrant} {p : PreparedTokens}
    (h : prepareTokens C S env client claims scopes = .ok p) :
    p.WellFormed C S claims.familyId scopes ∧
      (∃ b, env.tokenDraw = some b ∧ p.claims.tokenId = "rti_" ++ Base64.urlSafe.encode b.1) := by
  unfold prepareTokens at h
  simp only [bind_eq_ok, randomValue_eq_ok] at h
  obtain ⟨r, hr, tokenId, ⟨b, hb, htb⟩, h⟩ := h
  obtain ⟨_, hvalid, hne, ac, hac, hsc, hfam⟩ := issueAccessToken_eq_ok hr
  cases Except.ok.inj h
  exact ⟨⟨rfl, ⟨ac, hac, hsc, hfam⟩, rfl, rfl, hne, rfl, hvalid, rfl⟩, b, hb, htb⟩

theorem expiresAt_of_prepareTokens {env : TokenEnv} {client : RegisteredClient}
    {claims : RefreshTokenClaims} {scopes : ScopeGrant} {p : PreparedTokens}
    (h : prepareTokens C S env client claims scopes = .ok p) :
    p.claims.expiresAt = saturatingAdd env.now S.refreshTokenTtlSeconds := by
  obtain ⟨_, _, h⟩ := bind_eq_ok.mp h
  obtain ⟨_, _, h⟩ := bind_eq_ok.mp h
  cases Except.ok.inj h
  rfl

/-- **What a code exchange establishes before it touches the map of codes.** -/
theorem openCodeExchange_eq_ok {request : TokenRequest} {header : Option String}
    {x : CodeExchange} (h : openCodeExchange C S request header = .ok x) :
    request.code = some x.code ∧ request.redirectUri = some x.redirectUri ∧
      request.codeVerifier = some x.codeVerifier ∧ request.resource = x.resource ∧
      x.resource = S.resource ∧ authenticateClient C S request header = .ok x.client := by
  unfold openCodeExchange at h
  simp only [bind_eq_ok, okOr_eq_ok, rejectIf_eq_ok] at h
  obtain ⟨code, hcode, uri, huri, verifier, hverifier, _, hg, client, hclient, h⟩ := h
  simp only [Bool.or_eq_false_iff, bne_eq_false_iff_eq] at hg
  cases Except.ok.inj h
  exact ⟨hcode, huri, hverifier, rfl, hg.2, hclient⟩

/-- **The bindings of a code.** -/
theorem checkRecord_eq_ok {x : CodeExchange} {record : AuthorizationCode} {now : UInt64} :
    checkRecord C x record now = .ok () ↔
      now < record.expiresAt ∧ record.clientId = x.client.clientId ∧
      record.redirectUri = x.redirectUri ∧ record.resource = x.resource ∧
      verifyPkce C x.codeVerifier record.codeChallenge = true := by
  rw [checkRecord, rejectIf_eq_ok]
  simp only [Bool.or_eq_false_iff, decide_eq_false_iff_not, UInt64.not_le, bne_eq_false_iff_eq,
    Bool.not_eq_false', and_assoc]

/-- **What a refresh request establishes about the presented token.** -/
theorem openRefreshToken_eq_ok {request : TokenRequest} {header : Option String}
    {client : RegisteredClient} {claims : RefreshTokenClaims} :
    openRefreshToken C S request header = .ok (client, claims) ↔
      ∃ token, request.refreshToken = some token ∧ token.utf8ByteSize ≤ maxFormValueLength ∧
        request.resource = S.resource ∧ authenticateClient C S request header = .ok client ∧
        verifyToken C S C.refreshClaims refreshTokenPrefix refreshTokenLabel token
          = .ok claims := by
  unfold openRefreshToken
  simp only [bind_eq_ok, okOr_eq_ok, rejectIf_eq_ok, mapError_eq_ok]
  constructor
  · rintro ⟨token, ht, _, hg, c, hc, cl, hv, h⟩
    simp only [Bool.or_eq_false_iff, decide_eq_false_iff_not, Nat.not_lt, bne_eq_false_iff_eq]
      at hg
    cases Except.ok.inj h
    exact ⟨token, ht, hg.1, hg.2, hc, hv⟩
  · rintro ⟨token, ht, hlen, hres, hc, hv⟩
    exact ⟨token, ht, (), by simpa using ⟨hlen, hres⟩, client, hc, claims, hv, rfl⟩

theorem checkRefreshClaims_eq_ok {client : RegisteredClient} {claims : RefreshTokenClaims}
    {now : UInt64} : checkRefreshClaims C S client claims now = .ok () ↔
      claims.version = tokenClaimsVersion ∧ claims.scopes.isValid = true ∧
      claims.audience = S.resource ∧ now < claims.expiresAt ∧
      claims.clientBinding = clientBinding C S client.clientId := by
  rw [checkRefreshClaims, rejectIf_eq_ok]
  simp only [Bool.or_eq_false_iff, bne_eq_false_iff_eq, Bool.not_eq_false',
    decide_eq_false_iff_not, UInt64.not_le, constantTimeEqual_iff, utf8_inj, and_assoc]

theorem refreshedScopes_eq_ok {claims : RefreshTokenClaims} {scope : Option String}
    {scopes : ScopeGrant} : refreshedScopes claims scope = .ok scopes ↔
      ScopeGrant.parseOr claims.scopes scope = .ok scopes ∧ claims.scopes.allows scopes = true := by
  unfold refreshedScopes
  simp only [bind_eq_ok, rejectIf_eq_ok]
  constructor
  · rintro ⟨s, hs, _, ha, h⟩
    cases Except.ok.inj h
    exact ⟨hs, by simpa using ha⟩
  · rintro ⟨hs, ha⟩
    exact ⟨scopes, hs, (), by simpa using ha, rfl⟩

/-- **What is established before a family is rotated.** -/
theorem prepareRotation_eq_ok {env : TokenEnv} {request : TokenRequest} {header : Option String}
    {p : PreparedRotation} (h : prepareRotation C S env request header = .ok p) :
    ∃ client scopes, openRefreshToken C S request header = .ok (client, p.presented) ∧
      checkRefreshClaims C S client p.presented env.now = .ok () ∧
      refreshedScopes p.presented request.scope = .ok scopes ∧
      prepareTokens C S env client p.presented scopes = .ok p.tokens := by
  unfold prepareRotation at h
  simp only [bind_eq_ok] at h
  obtain ⟨⟨client, claims⟩, hopen, _, hcheck, scopes, hs, tokens, ht, h⟩ := h
  cases Except.ok.inj h
  exact ⟨client, scopes, hopen, hcheck, hs, ht⟩

/-- The draws are all that is missing for the tokens of the refresh grant. -/
theorem exists_prepareTokens_iff {env : TokenEnv} {client : RegisteredClient}
    {claims : RefreshTokenClaims} {scopes : ScopeGrant} (hs : scopes.isValid = true)
    (hf : claims.familyId ≠ "") :
    (∃ p, prepareTokens C S env client claims scopes = .ok p) ↔
      env.accessDraw.isSome = true ∧ env.tokenDraw.isSome = true := by
  constructor
  · rintro ⟨p, h⟩
    obtain ⟨_, b, hb, _⟩ := prepareTokens_eq_ok h
    obtain ⟨r, hr, _⟩ := bind_eq_ok.mp h
    obtain ⟨_, _, hr⟩ := bind_eq_ok.mp hr
    obtain ⟨_, hdraw, _⟩ := bind_eq_ok.mp hr
    obtain ⟨b', hb', _⟩ := randomValue_eq_ok.mp hdraw
    exact ⟨by simp [hb'], by simp [hb]⟩
  · rintro ⟨haccess, htoken⟩
    obtain ⟨b, hb⟩ := Option.isSome_iff_exists.mp htoken
    obtain ⟨⟨token, expiresIn⟩, hr⟩ :=
      exists_issueAccessToken (C := C) (S := S) hs hf haccess env.accessIssuedAt
    exact ⟨_, bind_eq_ok.mpr ⟨_, hr, bind_eq_ok.mpr ⟨_, randomValue_eq_ok.mpr ⟨b, hb, rfl⟩, rfl⟩⟩⟩

/-- The scopes of a refresh are valid when those of the presented token are. -/
theorem isValid_refreshedScopes {claims : RefreshTokenClaims} {scope : Option String}
    {scopes : ScopeGrant} (hvalid : claims.scopes.isValid = true)
    (h : refreshedScopes claims scope = .ok scopes) : scopes.isValid = true := by
  have hparse := (refreshedScopes_eq_ok.mp h).1
  cases scope with
  | none => rwa [← Except.ok.inj hparse]
  | some value => exact ScopeGrant.isValid_of_parse hparse

/--
**When a rotation is reached.** For a presented token with a valid signature that passes the checks
on its claims, three things can still stop the request: the length of the token, the scope field,
and the draws.
-/
theorem exists_prepareRotation_iff {env : TokenEnv} {request : TokenRequest}
    {header : Option String} {client : RegisteredClient} {token : String}
    {claims : RefreshTokenClaims} (hclient : authenticateClient C S request header = .ok client)
    (hres : request.resource = S.resource) (ht : request.refreshToken = some token)
    (hv : verifyToken C S C.refreshClaims refreshTokenPrefix refreshTokenLabel token = .ok claims)
    (hcheck : checkRefreshClaims C S client claims env.now = .ok ()) (hf : claims.familyId ≠ "") :
    (∃ p, prepareRotation C S env request header = .ok p) ↔
      token.utf8ByteSize ≤ maxFormValueLength ∧
      (∃ scopes, refreshedScopes claims request.scope = .ok scopes) ∧
      env.accessDraw.isSome = true ∧ env.tokenDraw.isSome = true := by
  have hvalid := (checkRefreshClaims_eq_ok.mp hcheck).2.1
  constructor
  · rintro ⟨p, h⟩
    obtain ⟨client', scopes, hopen, _, hs, htokens⟩ := prepareRotation_eq_ok h
    obtain ⟨token', ht', hlen, _, _, hv'⟩ := openRefreshToken_eq_ok.mp hopen
    cases Option.some.inj (ht.symm.trans ht')
    have hclaims : claims = p.presented := Except.ok.inj (hv.symm.trans hv')
    rw [← hclaims] at hs htokens
    have hdraws := (exists_prepareTokens_iff (isValid_refreshedScopes hvalid hs) hf).mp ⟨_, htokens⟩
    exact ⟨hlen, ⟨scopes, hs⟩, hdraws⟩
  · rintro ⟨hlen, ⟨scopes, hs⟩, hdraws⟩
    have hopen : openRefreshToken C S request header = .ok (client, claims) :=
      openRefreshToken_eq_ok.mpr ⟨token, ht, hlen, hres, hclient, hv⟩
    obtain ⟨p, hp⟩ := (exists_prepareTokens_iff (C := C) (S := S)
      (isValid_refreshedScopes hvalid hs) hf).mpr hdraws
    exact ⟨⟨claims, p⟩, bind_eq_ok.mpr ⟨_, hopen, bind_eq_ok.mpr ⟨(), hcheck,
      bind_eq_ok.mpr ⟨scopes, hs, bind_eq_ok.mpr ⟨p, hp, rfl⟩⟩⟩⟩⟩

/-- **What an accepted bearer token is**: signed claims of a live family, and their scope. -/
theorem authenticateBearer_eq_ok {state : OAuthState} {token : String} {now : UInt64}
    {identity : OAuthIdentity} (h : authenticateBearer C S state token now = .ok identity) :
    ∃ claims, verifyToken C S C.accessClaims accessTokenPrefix accessTokenLabel token = .ok claims ∧
      identity.scope = claims.scopes.accessScope ∧
      state.refreshTokens.isActive claims.familyId now = true := by
  unfold authenticateBearer at h
  simp only [bind_eq_ok, rejectIf_eq_ok, mapError_eq_ok] at h
  obtain ⟨_, _, claims, hv, _, _, _, hactive, h⟩ := h
  cases Except.ok.inj h
  exact ⟨claims, hv, rfl, by simpa using hactive⟩

theorem verifyToken_accessTokenOf (claims : AccessTokenClaims) :
    verifyToken C S C.accessClaims accessTokenPrefix accessTokenLabel (accessTokenOf C S claims)
      = .ok claims :=
  verifyToken_eq_ok.mpr ⟨claims.toVec, rfl, C.accessClaims.read_toVec claims⟩

theorem verifyToken_refreshTokenOf (claims : RefreshTokenClaims) :
    verifyToken C S C.refreshClaims refreshTokenPrefix refreshTokenLabel
      (refreshTokenOf C S claims) = .ok claims :=
  verifyToken_eq_ok.mpr ⟨claims.toVec, rfl, C.refreshClaims.read_toVec claims⟩

/-- The length of an access token, from its claims. -/
theorem utf8ByteSize_accessTokenOf (claims : AccessTokenClaims) :
    (accessTokenOf C S claims).utf8ByteSize = (4 * claims.jsonSize + 2) / 3 + 47 := by
  have hat : accessTokenPrefix.utf8ByteSize = 3 := by decide
  rw [accessTokenOf, String.utf8ByteSize_append, utf8ByteSize_sign, length_accessClaims, hat]
  omega

/-- The length of a refresh token, from its claims. -/
theorem utf8ByteSize_refreshTokenOf (claims : RefreshTokenClaims) :
    (refreshTokenOf C S claims).utf8ByteSize = (4 * claims.jsonSize + 2) / 3 + 47 := by
  have hrt : refreshTokenPrefix.utf8ByteSize = 3 := by decide
  rw [refreshTokenOf, String.utf8ByteSize_append, utf8ByteSize_sign, length_refreshClaims, hrt]
  omega

/-- Signed, valid and unexpired claims of a live family are accepted. -/
theorem exists_authenticateBearer {state : OAuthState} {claims : AccessTokenClaims} {now : UInt64}
    (hlen : (accessTokenOf C S claims).utf8ByteSize ≤ maxFormValueLength)
    (hversion : claims.version = tokenClaimsVersion) (hs : claims.scopes.isValid = true)
    (hf : claims.familyId ≠ "") (haudience : claims.audience = S.resource)
    (hexp : now < claims.expiresAt)
    (hactive : state.refreshTokens.isActive claims.familyId now = true) :
    ∃ identity, authenticateBearer C S state (accessTokenOf C S claims) now = .ok identity ∧
      identity.scope = claims.scopes.accessScope := by
  have hstarts : startsWith accessTokenPrefix (accessTokenOf C S claims) = true :=
    startsWith_append _ _
  refine ⟨_, bind_eq_ok.mpr ⟨(), rejectIf_eq_ok.mpr ?_, bind_eq_ok.mpr ⟨claims,
    mapError_eq_ok.mpr (verifyToken_accessTokenOf claims), bind_eq_ok.mpr ⟨(),
      rejectIf_eq_ok.mpr ?_, bind_eq_ok.mpr ⟨(), rejectIf_eq_ok.mpr ?_, rfl⟩⟩⟩⟩, rfl⟩
  · simp [hstarts, hlen]
  · simp [hversion, hs, hf, haudience, UInt64.not_le.mpr hexp]
  · simp [hactive]

/-! ## What a call of the token endpoint does -/

/-- The `create_family` call of a code exchange. -/
def PreparedTokens.createCall (C : Crates) (S : OAuthSettings) (p : PreparedTokens)
    (issuedAt : UInt64) : StoreCall :=
  .createFamily p.claims.familyId (refreshTokenIdHash C S p.claims.tokenId) p.claims.expiresAt
    issuedAt

/-- The `rotate` call of a refresh. -/
def PreparedRotation.rotateCall (C : Crates) (S : OAuthSettings) (p : PreparedRotation)
    (now : UInt64) : StoreCall :=
  .rotate p.presented.familyId (refreshTokenIdHash C S p.presented.tokenId)
    (refreshTokenIdHash C S p.tokens.claims.tokenId) p.tokens.claims.expiresAt now

/--
The effect of `exchange_token` on the state.

Either the request is refused before the refresh-token store is touched, or there is one call on
the store, and the tokens go out when the store accepts it.
-/
inductive ExchangeEffect (C : Crates) (S : OAuthSettings) (s : OAuthState) (env : TokenEnv)
    (request : TokenRequest) (header : Option String) :
    OAuthState → Except OAuthError TokenResponse → Prop
  | refused {codes : HashMap Digest AuthorizationCode} {e : OAuthError} :
      (∀ hash record, codes.lookup hash = some record →
        s.authorizationCodes.lookup hash = some record) →
      ExchangeEffect C S s env request header ⟨codes, s.refreshTokens⟩ (.error e)
  | redeemed {x : CodeExchange} {record : AuthorizationCode} {p : PreparedTokens}
      {store : RefreshTokenStore} {answer : Except OAuthError Unit} :
      request.grantType = "authorization_code" →
      openCodeExchange C S request header = .ok x →
      s.authorizationCodes.lookup (tokenHash C S x.code) = some record →
      checkRecord C x record env.now = .ok () →
      preparePair C S env record.scopes record.resource x.client.clientId = .ok p →
      s.refreshTokens.call env.io (p.createCall C S env.issuedAt) = (store, answer) →
      ExchangeEffect C S s env request header
        ⟨s.authorizationCodes.erase (tokenHash C S x.code), store⟩
        (answer.map fun _ => p.response)
  | refreshed {p : PreparedRotation} {store : RefreshTokenStore}
      {answer : Except OAuthError Unit} :
      request.grantType = "refresh_token" →
      prepareRotation C S env request header = .ok p →
      s.refreshTokens.call env.io (p.rotateCall C S env.now) = (store, answer) →
      ExchangeEffect C S s env request header ⟨s.authorizationCodes, store⟩
        (answer.map fun _ => p.tokens.response)

/-- A code exchange removes the code first, whatever comes next. -/
theorem lookup_takeCode {s : OAuthState} {hash k : Digest} {record : AuthorizationCode}
    (h : (s.takeCode hash).1.authorizationCodes.lookup k = some record) :
    s.authorizationCodes.lookup k = some record := by
  by_cases hk : k = hash
  · rw [hk, OAuthState.takeCode, AList.lookup_erase] at h
    exact absurd h (by simp)
  · rwa [OAuthState.takeCode, AList.lookup_erase_ne hk] at h

theorem exchangeAuthorizationCode_effect (s : OAuthState) (env : TokenEnv)
    (request : TokenRequest) (header : Option String)
    (hgrant : request.grantType = "authorization_code") :
    ExchangeEffect C S s env request header
      (exchangeAuthorizationCode C S s env request header).1
      (exchangeAuthorizationCode C S s env request header).2 := by
  unfold exchangeAuthorizationCode
  cases hopen : openCodeExchange C S request header with
  | error e => exact .refused fun _ _ h => h
  | ok x =>
    have hcodes : ∀ hash record,
        (s.takeCode (tokenHash C S x.code)).1.authorizationCodes.lookup hash = some record →
          s.authorizationCodes.lookup hash = some record := fun _ _ => lookup_takeCode
    show ExchangeEffect C S s env request header
      (redeem C S (s.takeCode (tokenHash C S x.code)).1 env x
        (s.takeCode (tokenHash C S x.code)).2).1
      (redeem C S (s.takeCode (tokenHash C S x.code)).1 env x
        (s.takeCode (tokenHash C S x.code)).2).2
    cases hremoved : (s.takeCode (tokenHash C S x.code)).2 with
    | none => exact .refused hcodes
    | some record =>
      unfold redeem
      cases hcheck : checkRecord C x record env.now with
      | error e =>
        simp only [hcheck]
        exact .refused hcodes
      | ok u =>
        simp only [hcheck, issueTokenPair]
        cases hp : preparePair C S env record.scopes record.resource x.client.clientId with
        | error e => exact .refused hcodes
        | ok p => exact .redeemed hgrant hopen hremoved hcheck hp rfl

theorem exchangeRefreshToken_effect (s : OAuthState) (env : TokenEnv) (request : TokenRequest)
    (header : Option String) (hgrant : request.grantType = "refresh_token") :
    ExchangeEffect C S s env request header (exchangeRefreshToken C S s env request header).1
      (exchangeRefreshToken C S s env request header).2 := by
  unfold exchangeRefreshToken
  cases hp : prepareRotation C S env request header with
  | error e => exact .refused fun _ _ h => h
  | ok p => exact .refreshed hgrant hp rfl

theorem exchangeToken_refresh {s : OAuthState} {env : TokenEnv} {request : TokenRequest}
    {header : Option String} (hgrant : request.grantType = "refresh_token") :
    exchangeToken C S s env request header = exchangeRefreshToken C S s env request header := by
  unfold exchangeToken
  split
  · next h => exact absurd (h.symm.trans hgrant) (by decide)
  · rfl
  · next h => exact absurd hgrant h

theorem exchangeToken_code {s : OAuthState} {env : TokenEnv} {request : TokenRequest}
    {header : Option String} (hgrant : request.grantType = "authorization_code") :
    exchangeToken C S s env request header
      = exchangeAuthorizationCode C S s env request header := by
  unfold exchangeToken
  split
  · rfl
  · next h => exact absurd (h.symm.trans hgrant) (by decide)
  · next h _ => exact absurd hgrant h

/-- **What a call of the token endpoint does.** -/
theorem exchangeToken_effect (s : OAuthState) (env : TokenEnv) (request : TokenRequest)
    (header : Option String) :
    ExchangeEffect C S s env request header (exchangeToken C S s env request header).1
      (exchangeToken C S s env request header).2 := by
  unfold exchangeToken
  split
  · next h => exact exchangeAuthorizationCode_effect s env request header h
  · next h => exact exchangeRefreshToken_effect s env request header h
  · exact .refused fun _ _ h => h

/-- A refresh that is answered rotated its family. -/
theorem ExchangeEffect.rotated_of_ok {s s' : OAuthState} {env : TokenEnv} {request : TokenRequest}
    {header : Option String} {response : TokenResponse}
    (h : ExchangeEffect C S s env request header s' (.ok response))
    (hgrant : request.grantType = "refresh_token") :
    ∃ p, prepareRotation C S env request header = .ok p ∧ response = p.tokens.response ∧
      s.refreshTokens.call env.io (p.rotateCall C S env.now) = (s'.refreshTokens, .ok ()) := by
  generalize hres : Except.ok response = result at h
  cases h with
  | refused => simp at hres
  | redeemed hcode => exact absurd (hcode.symm.trans hgrant) (by decide)
  | @refreshed p store answer _ hp hcall =>
    cases answer with
    | error e => simp [Except.map] at hres
    | ok u => exact ⟨p, hp, Except.ok.inj hres, hcall⟩

end EngramMcp
