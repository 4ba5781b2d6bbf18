import EngramMcp.OAuth.Client
import EngramMcp.OAuth.RefreshStore

/-!
# The authorization endpoint

`begin_authorization` renders a consent page around a signed approval request, and
`complete_authorization` takes the form back and mints an authorization code.

Nothing is stored between the two: what the form carries is the signed request. The code that is
minted is stored under its keyed hash.
-/

namespace EngramMcp

open Infra

/-- `APPROVAL_REQUEST_TTL_SECONDS`. -/
def approvalRequestTtlSeconds : UInt64 := 300

/-- `AuthorizationQuery`. -/
structure AuthorizationQuery where
  responseType : String
  clientId : String
  redirectUri : String
  scope : Option String
  state : Option String
  resource : String
  codeChallenge : String
  codeChallengeMethod : String

/-- `ApprovalForm`. -/
structure ApprovalForm where
  request : String
  ownerSecret : String
  decision : String
  scope : String

/-- `AuthorizationRedirect`. -/
inductive AuthorizationRedirect
  | approved (url : String)
  | denied (url : String)

/-- The fields of `OAuthState` that change. -/
structure OAuthState where
  authorizationCodes : HashMap Digest AuthorizationCode
  refreshTokens : RefreshTokenStore

/-! ## PKCE -/

/-- `u8::is_ascii_alphanumeric`. -/
def isAsciiAlphanumeric (b : UInt8) : Bool :=
  (0x30 ≤ b && b ≤ 0x39) || (0x41 ≤ b && b ≤ 0x5A) || (0x61 ≤ b && b ≤ 0x7A)

/-- `valid_code_challenge`. -/
def validCodeChallenge (value : String) : Bool :=
  value.utf8ByteSize == 43
    && (utf8 value).all fun b => isAsciiAlphanumeric b || b == 0x2D || b == 0x5F

/-- An unreserved character: a letter, a digit, or one of `-`, `_`, `.` and `~`. -/
def unreserved (b : UInt8) : Bool :=
  isAsciiAlphanumeric b || b == 0x2D || b == 0x5F || b == 0x2E || b == 0x7E

/-- `valid_code_verifier`. -/
def validCodeVerifier (value : String) : Bool :=
  decide (43 ≤ value.utf8ByteSize) && decide (value.utf8ByteSize ≤ 128)
    && (utf8 value).all unreserved

/-- `verify_pkce`. -/
def verifyPkce (C : Crates) (verifier challenge : String) : Bool :=
  if !validCodeVerifier verifier then false
  else constantTimeEqual (utf8 (Base64.urlSafe.encode (C.sha256 (utf8 verifier)).1))
    (utf8 challenge)

theorem verifyPkce_iff {C : Crates} {verifier challenge : String} :
    verifyPkce C verifier challenge = true ↔
      validCodeVerifier verifier = true ∧
      Base64.urlSafe.encode (C.sha256 (utf8 verifier)).1 = challenge := by
  unfold verifyPkce
  cases validCodeVerifier verifier <;> simp

/-! ## The consent page -/

/-- `escape_html`, one character. The last case is the apostrophe. -/
def escapeHtmlChar (c : Char) : List Char :=
  if c = '&' then "&amp;".toList
  else if c = '<' then "&lt;".toList
  else if c = '>' then "&gt;".toList
  else if c = '"' then "&quot;".toList
  else if c.toNat = 0x27 then "&#x27;".toList
  else [c]

/-- `escape_html`. -/
def escapeHtml (value : String) : String := String.ofList (value.toList.flatMap escapeHtmlChar)

/-- The radio option of one scope; the first one is checked. -/
def scopeOption (index : Nat) (scope : String) : String :=
  "<label><input type=\"radio\" name=\"scope\" value=\"" ++ escapeHtml scope ++ "\""
    ++ (if index = 0 then " checked" else "") ++ "> " ++ escapeHtml scope ++ "</label>"

/-- `render_approval_page`. -/
def renderApprovalPage (request : String) (approval : SignedApprovalRequest) : String :=
  let scopeOptions := "<br>".intercalate (approval.requestedScopes.values.mapIdx scopeOption)
  "<!doctype html><html lang=\"en\"><head><meta charset=\"utf-8\"><meta name=\"viewport\" content=\"width=device-width,initial-scale=1\"><title>Engram MCP authorization</title></head><body><main><h1>Authorize Engram MCP</h1><p>Client: <code>"
    ++ escapeHtml approval.clientId
    ++ "</code></p><p>Redirect URI: <code>" ++ escapeHtml approval.redirectUri
    ++ "</code></p><p>Resource: <code>" ++ escapeHtml approval.resource
    ++ "</code></p><form method=\"post\" action=\"/oauth/authorize\"><input type=\"hidden\" name=\"request\" value=\""
    ++ escapeHtml request
    ++ "\"><label>Owner secret <input type=\"password\" name=\"owner_secret\" autocomplete=\"current-password\" required></label><fieldset><legend>Grant scope</legend>"
    ++ scopeOptions
    ++ "</fieldset><button type=\"submit\" name=\"decision\" value=\"approve\">Approve</button><button type=\"submit\" name=\"decision\" value=\"deny\">Deny</button></form></main></body></html>"

/-- Text without special characters stands in the page as it is. -/
theorem escapeHtml_eq_self {s : String}
    (h : ∀ c ∈ s.toList, c ≠ '&' ∧ c ≠ '<' ∧ c ≠ '>' ∧ c ≠ '"' ∧ c.toNat ≠ 0x27) :
    escapeHtml s = s := by
  have hmap : ∀ l : List Char, (∀ c ∈ l, c ∈ s.toList) → l.flatMap escapeHtmlChar = l := by
    intro l
    induction l with
    | nil => intro _; rfl
    | cons c l ih =>
      intro hl
      obtain ⟨h1, h2, h3, h4, h5⟩ := h c (hl c List.mem_cons_self)
      rw [List.flatMap_cons, ih fun x hx => hl x (List.mem_cons_of_mem _ hx), escapeHtmlChar,
        if_neg h1, if_neg h2, if_neg h3, if_neg h4, if_neg h5, List.singleton_append]
  rw [escapeHtml, hmap s.toList fun _ h => h, String.ofList_toList]

/-! ## Beginning -/

section

variable (C : Crates) (S : OAuthSettings)

/-- `validate_authorization_query`. -/
def validateAuthorizationQuery (query : AuthorizationQuery) : Except OAuthError Unit :=
  rejectIf (query.responseType != "code" || query.clientId == ""
    || query.clientId.utf8ByteSize > maxClientIdLength
    || query.redirectUri.utf8ByteSize > maxFormValueLength
    || query.resource != S.resource || query.codeChallengeMethod != "S256"
    || !validCodeChallenge query.codeChallenge
    || (match query.state with | some state => decide (state.utf8ByteSize > 2048) | none => false))
    .invalidAuthorizationRequest

/-- `begin_authorization` up to the request that is signed. -/
def approvalRequest (query : AuthorizationQuery) (now : UInt64) :
    Except OAuthError SignedApprovalRequest := do
  validateAuthorizationQuery S query
  let client ← clientFromId C S query.clientId
  rejectIf (!decide (query.redirectUri ∈ client.redirectUris)) .invalidAuthorizationRequest
  let requestedScopes ← ScopeGrant.parseOr client.scopes query.scope
  rejectIf (!client.scopes.allows requestedScopes) .invalidScope
  return ⟨query.clientId, query.redirectUri, requestedScopes, query.state, query.resource,
    query.codeChallenge, saturatingAdd now approvalRequestTtlSeconds⟩

/-- The signed form of an approval request. -/
def signApproval (request : SignedApprovalRequest) : String :=
  sign C S approvalRequestLabel request.toVec

/-- `begin_authorization`. -/
def beginAuthorization (query : AuthorizationQuery) (now : UInt64) : Except OAuthError String := do
  let request ← approvalRequest C S query now
  return renderApprovalPage (signApproval C S request) request

/-! ## Completing -/

/-- `redirect_url`. -/
def redirectUrl (redirectUri : String) (state code error : Option String) :
    Except OAuthError String := do
  let url ← okOr (C.url.parse redirectUri) .invalidAuthorizationRequest
  let url := C.url.appendPair url "iss" S.issuer
  let url := state.elim url (C.url.appendPair url "state")
  let url := code.elim url (C.url.appendPair url "code")
  let url := error.elim url (C.url.appendPair url "error")
  return C.url.toStr url

/-- What `complete_authorization` reads from outside: the clock, once for each use, and one draw. -/
structure CompleteEnv where
  checkedAt : UInt64
  draw : Option Digest
  issuedAt : UInt64
  /-- The readings of the clock while the expired codes are dropped, one for each code. -/
  prunedAt : Digest → UInt64

/-- The approval request of a form, once it passed the checks that come before the decision. -/
def openApproval (form : ApprovalForm) (now : UInt64) :
    Except OAuthError (SignedApprovalRequest × RegisteredClient) := do
  rejectIf (form.request.utf8ByteSize > maxFormValueLength
    || form.ownerSecret.utf8ByteSize > maxFormValueLength || form.scope.utf8ByteSize > 256)
    .invalidRequest
  let request ← verify C S C.approvalRequest approvalRequestLabel form.request
  rejectIf (request.expiresAt ≤ now) .invalidRequest
  let client ← clientFromId C S request.clientId
  rejectIf (!decide (request.redirectUri ∈ client.redirectUris)
    || !client.scopes.allows request.requestedScopes || request.resource != S.resource)
    .invalidAuthorizationRequest
  return (request, client)

/-- The scopes that the owner grants. -/
def grantedScopes (form : ApprovalForm) (request : SignedApprovalRequest)
    (client : RegisteredClient) : Except OAuthError ScopeGrant := do
  rejectIf (form.decision != "approve"
    || !constantTimeEqual (utf8 form.ownerSecret) S.ownerSecret) .invalidOwner
  let granted ← ScopeGrant.parse form.scope
  rejectIf (!granted.isSubsetOf request.requestedScopes || !client.scopes.allows granted)
    .invalidScope
  return granted

/-- The record of a code. -/
def codeRecord (request : SignedApprovalRequest) (scopes : ScopeGrant) (now : UInt64) :
    AuthorizationCode where
  clientId := request.clientId
  redirectUri := request.redirectUri
  scopes := scopes
  resource := request.resource
  codeChallenge := request.codeChallenge
  expiresAt := saturatingAdd now S.authorizationCodeTtlSeconds

/-- Drops the expired codes and stores a new one. -/
def OAuthState.insertCode (state : OAuthState) (prunedAt : Digest → UInt64) (hash : Digest)
    (record : AuthorizationCode) : OAuthState :=
  let live := state.authorizationCodes.retain fun k r => decide (r.expiresAt > prunedAt k)
  { state with authorizationCodes := live.insert hash record }

/-- `complete_authorization`. -/
def completeAuthorization (state : OAuthState) (env : CompleteEnv) (form : ApprovalForm) :
    OAuthState × Except OAuthError AuthorizationRedirect :=
  match openApproval C S form env.checkedAt with
  | .error e => (state, .error e)
  | .ok (request, client) =>
    if form.decision = "deny" then
      (state, (redirectUrl C S request.redirectUri request.state none (some "access_denied")).map
        .denied)
    else
      match grantedScopes S form request client with
      | .error e => (state, .error e)
      | .ok granted =>
        match randomValue "ac_" env.draw with
        | .error e => (state, .error e)
        | .ok code =>
          (state.insertCode env.prunedAt (tokenHash C S code)
              (codeRecord S request granted env.issuedAt),
            (redirectUrl C S request.redirectUri request.state (some code) none).map .approved)

end

variable {C : Crates} {S : OAuthSettings}

theorem exists_redirectUrl {redirectUri : String} {u : C.url.Url}
    (h : C.url.parse redirectUri = some u) (state code error : Option String) :
    ∃ url, redirectUrl C S redirectUri state code error = .ok url := by
  refine ⟨_, bind_eq_ok.mpr ⟨u, okOr_eq_ok.mpr h, rfl⟩⟩

/-- **What the checks on a form establish.** -/
theorem openApproval_eq_ok {form : ApprovalForm} {now : UInt64} {request : SignedApprovalRequest}
    {client : RegisteredClient} : openApproval C S form now = .ok (request, client) ↔
      form.request.utf8ByteSize ≤ maxFormValueLength ∧
      form.ownerSecret.utf8ByteSize ≤ maxFormValueLength ∧ form.scope.utf8ByteSize ≤ 256 ∧
      verify C S C.approvalRequest approvalRequestLabel form.request = .ok request ∧
      now < request.expiresAt ∧ clientFromId C S request.clientId = .ok client ∧
      request.redirectUri ∈ client.redirectUris ∧
      client.scopes.allows request.requestedScopes = true ∧ request.resource = S.resource := by
  unfold openApproval
  simp only [bind_eq_ok, rejectIf_eq_ok]
  constructor
  · rintro ⟨_, hlen, r, hv, _, hexp, c, hc, _, hchk, h⟩
    cases Except.ok.inj h
    simp only [Bool.or_eq_false_iff, decide_eq_false_iff_not, Nat.not_lt, Bool.not_eq_false',
      decide_eq_true_eq, bne_eq_false_iff_eq] at hlen hchk
    rw [decide_eq_false_iff_not, UInt64.not_le] at hexp
    exact ⟨hlen.1.1, hlen.1.2, hlen.2, hv, hexp, hc, hchk.1.1, hchk.1.2, hchk.2⟩
  · rintro ⟨h1, h2, h3, hv, hexp, hc, h4, h5, h6⟩
    refine ⟨(), ?_, request, hv, (), ?_, client, hc, (), ?_, rfl⟩
    · simp only [Bool.or_eq_false_iff, decide_eq_false_iff_not, Nat.not_lt]
      exact ⟨⟨h1, h2⟩, h3⟩
    · rw [decide_eq_false_iff_not, UInt64.not_le]
      exact hexp
    · simp [h4, h5, h6]

/-- **What a grant means**: the owner approved exactly these scopes, with the owner secret. -/
theorem grantedScopes_eq_ok {form : ApprovalForm} {request : SignedApprovalRequest}
    {client : RegisteredClient} {granted : ScopeGrant} :
    grantedScopes S form request client = .ok granted ↔
      form.decision = "approve" ∧ utf8 form.ownerSecret = S.ownerSecret ∧
      ScopeGrant.parse form.scope = .ok granted ∧
      granted.isSubsetOf request.requestedScopes = true ∧
      client.scopes.allows granted = true := by
  unfold grantedScopes
  simp only [bind_eq_ok, rejectIf_eq_ok]
  constructor
  · rintro ⟨_, hown, g, hg, _, hs, h⟩
    cases Except.ok.inj h
    simp only [Bool.or_eq_false_iff, bne_eq_false_iff_eq, Bool.not_eq_false',
      constantTimeEqual_iff] at hown hs
    exact ⟨hown.1, hown.2, hg, hs.1, hs.2⟩
  · rintro ⟨hd, hown, hg, hsub, hallow⟩
    exact ⟨(), by simp [hd, hown], granted, hg, (), by simp [hsub, hallow], rfl⟩

/-! ## Minted codes -/

/-- The code that a form mints, with its record. -/
def mintedCode (C : Crates) (S : OAuthSettings) (env : CompleteEnv) (form : ApprovalForm) :
    Option (String × AuthorizationCode) :=
  match openApproval C S form env.checkedAt with
  | .error _ => none
  | .ok (request, client) =>
    if form.decision = "deny" then none
    else
      match grantedScopes S form request client, randomValue "ac_" env.draw with
      | .ok granted, .ok code => some (code, codeRecord S request granted env.issuedAt)
      | _, _ => none

/-- **What `complete_authorization` does to the state**: it stores the code it minted, if any. -/
theorem completeAuthorization_state (state : OAuthState) (env : CompleteEnv) (form : ApprovalForm) :
    (completeAuthorization C S state env form).1 =
      match mintedCode C S env form with
      | none => state
      | some (code, record) => state.insertCode env.prunedAt (tokenHash C S code) record := by
  unfold completeAuthorization mintedCode
  cases openApproval C S form env.checkedAt with
  | error e => rfl
  | ok r =>
    obtain ⟨request, client⟩ := r
    by_cases hd : form.decision = "deny"
    · simp only [if_pos hd]
    · simp only [if_neg hd]
      cases grantedScopes S form request client with
      | error e => rfl
      | ok granted =>
        cases randomValue "ac_" env.draw with
        | error e => rfl
        | ok code => rfl

/-- Looking a code up after another one was stored. -/
theorem lookup_insertCode {state : OAuthState} {prunedAt : Digest → UInt64} {hash k : Digest}
    {record r : AuthorizationCode}
    (h : (state.insertCode prunedAt hash record).authorizationCodes.lookup k = some r) :
    (k = hash ∧ r = record) ∨ (k ≠ hash ∧ state.authorizationCodes.lookup k = some r) := by
  simp only [OAuthState.insertCode] at h
  by_cases hk : k = hash
  · subst hk
    rw [AList.lookup_insert, Option.some.injEq] at h
    exact Or.inl ⟨rfl, h.symm⟩
  · rw [AList.lookup_insert_ne hk, HashMap.lookup_retain_eq_some] at h
    exact Or.inr ⟨hk, h.1⟩

/-- A form that passes the checks mints a code. -/
theorem mintedCode_of_granted {env : CompleteEnv} {form : ApprovalForm}
    {request : SignedApprovalRequest} {client : RegisteredClient} {granted : ScopeGrant}
    {code : String} (hopen : openApproval C S form env.checkedAt = .ok (request, client))
    (hgrant : grantedScopes S form request client = .ok granted)
    (hcode : randomValue "ac_" env.draw = .ok code) :
    mintedCode C S env form = some (code, codeRecord S request granted env.issuedAt) := by
  have hd : ¬ form.decision = "deny" := by
    rw [(grantedScopes_eq_ok.mp hgrant).1]
    decide
  simp only [mintedCode, hopen, if_neg hd, hgrant, hcode]

/-- **What the owner of a server did for a code to be minted.** -/
theorem mintedCode_eq_some {env : CompleteEnv} {form : ApprovalForm} {code : String}
    {record : AuthorizationCode} (h : mintedCode C S env form = some (code, record)) :
    form.decision = "approve" ∧ utf8 form.ownerSecret = S.ownerSecret ∧
      ScopeGrant.parse form.scope = .ok record.scopes ∧ record.resource = S.resource ∧
      ∃ b, env.draw = some b ∧ code = "ac_" ++ Base64.urlSafe.encode b.1 := by
  unfold mintedCode at h
  cases hopen : openApproval C S form env.checkedAt with
  | error e => simp [hopen] at h
  | ok r =>
    obtain ⟨request, client⟩ := r
    simp only [hopen] at h
    split at h
    · simp at h
    · cases hgrant : grantedScopes S form request client with
      | error e => simp [hgrant] at h
      | ok granted =>
        cases hcode : randomValue "ac_" env.draw with
        | error e => simp [hgrant, hcode] at h
        | ok v =>
          simp only [hgrant, hcode, Option.some.injEq, Prod.mk.injEq] at h
          obtain ⟨rfl, rfl⟩ := h
          obtain ⟨hd, hsecret, hparse, _, _⟩ := grantedScopes_eq_ok.mp hgrant
          exact ⟨hd, hsecret, hparse, (openApproval_eq_ok.mp hopen).2.2.2.2.2.2.2.2,
            randomValue_eq_ok.mp hcode⟩

/-- The request that a query is turned into. -/
theorem approvalRequest_eq_ok {query : AuthorizationQuery} {now : UInt64}
    {request : SignedApprovalRequest} (h : approvalRequest C S query now = .ok request) :
    ∃ client, clientFromId C S query.clientId = .ok client ∧
      query.redirectUri ∈ client.redirectUris ∧ query.resource = S.resource ∧
      ScopeGrant.parseOr client.scopes query.scope = .ok request.requestedScopes ∧
      client.scopes.allows request.requestedScopes = true ∧
      request = ⟨query.clientId, query.redirectUri, request.requestedScopes, query.state,
        query.resource, query.codeChallenge, saturatingAdd now approvalRequestTtlSeconds⟩ := by
  unfold approvalRequest at h
  simp only [bind_eq_ok, rejectIf_eq_ok, validateAuthorizationQuery] at h
  obtain ⟨_, hq, client, hc, _, huri, scopes, hs, _, ha, h⟩ := h
  cases Except.ok.inj h
  simp only [Bool.or_eq_false_iff, bne_eq_false_iff_eq] at hq
  simp only [Bool.not_eq_false', decide_eq_true_eq] at huri ha
  exact ⟨client, hc, huri, hq.1.1.1.2, hs, ha, rfl⟩

/-! ## The form of a page -/

/-- The form that the page sends: its hidden field, and what the owner enters. -/
def consentForm (C : Crates) (S : OAuthSettings) (request : SignedApprovalRequest)
    (ownerSecret decision scope : String) : ApprovalForm :=
  ⟨signApproval C S request, ownerSecret, decision, scope⟩

/-- The known scopes are short. -/
theorem utf8ByteSize_of_mem_values {g : ScopeGrant} {scope : String} (h : scope ∈ g.values) :
    scope.utf8ByteSize ≤ 256 := by
  have hk := (ScopeGrant.mem_values.mp h).1
  simp only [ScopeGrant.known, Bool.or_eq_true, beq_iff_eq] at hk
  rcases hk with rfl | rfl
  · decide
  · decide

theorem utf8ByteSize_signApproval (request : SignedApprovalRequest) :
    (signApproval C S request).utf8ByteSize = (4 * request.jsonSize + 2) / 3 + 44 := by
  rw [signApproval, utf8ByteSize_sign, length_approvalRequest]

/-- A form with a short hidden field is opened to the request it was made from. -/
theorem openApproval_consentForm {request : SignedApprovalRequest} {client : RegisteredClient}
    (hc : clientFromId C S request.clientId = .ok client)
    (huri : request.redirectUri ∈ client.redirectUris)
    (hallow : client.scopes.allows request.requestedScopes = true)
    (hres : request.resource = S.resource) (hsize : request.jsonSize ≤ 6111)
    {secret scope : String} (decision : String)
    (hsecret : secret.utf8ByteSize ≤ maxFormValueLength)
    (hscope : scope.utf8ByteSize ≤ 256) {now : UInt64} (hnow : now < request.expiresAt) :
    openApproval C S (consentForm C S request secret decision scope) now
      = .ok (request, client) := by
  refine openApproval_eq_ok.mpr ⟨?_, hsecret, hscope,
    verify_sign C.approvalRequest approvalRequestLabel request, hnow, hc, huri, hallow, hres⟩
  show (signApproval C S request).utf8ByteSize ≤ maxFormValueLength
  rw [utf8ByteSize_signApproval, maxFormValueLength]
  omega

/-- An offered scope on its own is granted. -/
theorem grantedScopes_consentForm {request : SignedApprovalRequest} {client : RegisteredClient}
    (hallow : client.scopes.allows request.requestedScopes = true) {secret scope : String}
    (hscope : scope ∈ request.requestedScopes.values) (hsecret : utf8 secret = S.ownerSecret) :
    grantedScopes S (consentForm C S request secret "approve" scope) request client
      = .ok ⟨.collect [scope]⟩ := by
  obtain ⟨hknown, hmem⟩ := ScopeGrant.mem_values.mp hscope
  refine grantedScopes_eq_ok.mpr ⟨rfl, hsecret, ScopeGrant.parse_known hknown, ?_, ?_⟩
  · rw [ScopeGrant.isSubsetOf_iff]
    intro s hs
    rw [BTreeSet.mem_collect, List.mem_singleton] at hs
    rw [hs]
    exact hmem
  · rw [ScopeGrant.allows_iff]
    intro s hs
    rw [BTreeSet.mem_collect, List.mem_singleton] at hs
    exact ScopeGrant.allows_iff.mp hallow s (hs ▸ hmem)

end EngramMcp
