import EngramMcp.OAuth.Signing

/-!
# Dynamic clients

`register_client`, `client_from_id` and `authenticate_client`. The server stores no clients:
the client id is the signed registration.

The two ends check different things. Registration bounds the number of redirect URIs and the
length of each; reading a client id back bounds the length of the whole.
-/

namespace EngramMcp

open Infra

/-- `MAX_REDIRECT_URIS`. -/
def maxRedirectUris : Nat := 8

/-- `MAX_CLIENT_ID_LENGTH`. -/
def maxClientIdLength : Nat := 8192

/-- `MAX_FORM_VALUE_LENGTH`. -/
def maxFormValueLength : Nat := 8192

/-- `RegistrationRequest`. -/
structure RegistrationRequest where
  redirectUris : List String
  grantTypes : List String
  responseTypes : List String
  tokenEndpointAuthMethod : Option String
  scope : Option String
  applicationType : Option String

/-- `RegistrationResponse`. -/
structure RegistrationResponse where
  clientId : String
  clientIdIssuedAt : UInt64
  clientSecret : Option String
  clientSecretExpiresAt : Option UInt64
  redirectUris : List String
  grantTypes : List String
  responseTypes : List String
  tokenEndpointAuthMethod : String
  scope : String

/-- `TokenRequest`. -/
structure TokenRequest where
  grantType : String
  code : Option String
  redirectUri : Option String
  clientId : Option String
  clientSecret : Option String
  codeVerifier : Option String
  refreshToken : Option String
  scope : Option String
  resource : String

/-! ## Redirect URIs -/

/-- The host names `validate_redirect_uri` accepts for plain `http`. -/
def localHost : Option String → Bool
  | some "localhost" => true
  | some "127.0.0.1" => true
  | some "::1" => true
  | _ => false

/-- `validate_redirect_uri`. -/
def validateRedirectUri (U : UrlCrate) (value applicationType : String) :
    Except OAuthError Unit := do
  rejectIf (value.utf8ByteSize > 2048) .invalidClient
  let uri ← okOr (U.parse value) .invalidClient
  rejectIf ((U.fragment uri).isSome || U.username uri != "" || (U.password uri).isSome)
    .invalidClient
  if U.scheme uri == "https" && (U.hostStr uri).isSome then .ok ()
  else if applicationType == "native" && U.scheme uri == "http" && localHost (U.hostStr uri) then
    .ok ()
  else .error .invalidClient

/-- What a web application may register, a native one may too. -/
theorem validateRedirectUri_native {U : UrlCrate} {value applicationType : String}
    (h : validateRedirectUri U value applicationType = .ok ()) :
    validateRedirectUri U value "native" = .ok () := by
  obtain ⟨u, hlen, h⟩ := bind_eq_ok.mp h
  obtain ⟨uri, hparse, h⟩ := bind_eq_ok.mp h
  obtain ⟨v, hplain, h⟩ := bind_eq_ok.mp h
  refine bind_eq_ok.mpr ⟨u, hlen, bind_eq_ok.mpr ⟨uri, hparse, bind_eq_ok.mpr ⟨v, hplain, ?_⟩⟩⟩
  split at h
  · next hs => rw [if_pos hs]
  · next hs =>
    rw [if_neg hs]
    split at h
    · next hl =>
      simp only [Bool.and_eq_true] at hl ⊢
      rw [if_pos ⟨⟨by decide, hl.1.2⟩, hl.2⟩]
    · simp at h

/-- A valid redirect URI is one the `url` crate parses. -/
theorem parse_of_validateRedirectUri {U : UrlCrate} {value applicationType : String}
    (h : validateRedirectUri U value applicationType = .ok ()) :
    ∃ uri, U.parse value = some uri := by
  obtain ⟨_, _, h⟩ := bind_eq_ok.mp h
  obtain ⟨uri, hparse, _⟩ := bind_eq_ok.mp h
  exact ⟨uri, okOr_eq_ok.mp hparse⟩

section

variable (C : Crates) (S : OAuthSettings)

/-- `client_secret`. -/
def clientSecret (clientId : String) : String :=
  "dcs_" ++ Base64.urlSafe.encode (mac C S dynamicClientSecretLabel (utf8 clientId))

/-! ## Registration -/

/-- The checks of `register_client` on the requested grant types. -/
def badGrantTypes (grantTypes : List String) : Bool :=
  !grantTypes.isEmpty && (!grantTypes.any (· == "authorization_code")
    || grantTypes.any (fun grant => grant != "authorization_code" && grant != "refresh_token"))

/-- The checks of `register_client` on the requested response types. -/
def badResponseTypes (responseTypes : List String) : Bool :=
  !responseTypes.isEmpty && (responseTypes.length != 1 || responseTypes.head? != some "code")

/-- The scopes of a new client. -/
def registeredScopes : Option String → ScopeGrant
  | some value => .parseLenient value
  | none => .defaultForNewClient

/-- The client id of a payload. -/
def clientIdOf (payload : ClientIdPayload) : String :=
  "dcr." ++ sign C S dynamicClientLabel payload.toVec

/-- `register_client`. -/
def registerClient (request : RegistrationRequest) (now : UInt64) :
    Except OAuthError RegistrationResponse := do
  rejectIf (request.redirectUris.isEmpty || request.redirectUris.length > maxRedirectUris)
    .invalidClient
  rejectIf (badGrantTypes request.grantTypes) .invalidClient
  rejectIf (badResponseTypes request.responseTypes) .invalidClient
  let method ← ClientAuthenticationMethod.parse request.tokenEndpointAuthMethod
  let applicationType := request.applicationType.getD "web"
  rejectIf (applicationType != "web" && applicationType != "native") .invalidClient
  let uris ← request.redirectUris.mapM fun uri =>
    (validateRedirectUri C.url uri applicationType).map fun _ => uri
  let redirectUris := BTreeSet.collect uris
  rejectIf (redirectUris.len != request.redirectUris.length) .invalidClient
  let scopes := registeredScopes request.scope
  let clientId := clientIdOf C S ⟨1, redirectUris.toList, method, scopes, now⟩
  return {
    clientId
    clientIdIssuedAt := now
    clientSecret := match method with
      | .none => none
      | .clientSecretPost => some (clientSecret C S clientId)
      | .clientSecretBasic => some (clientSecret C S clientId)
    clientSecretExpiresAt := if method = .none then none else some 0
    redirectUris := redirectUris.toList
    grantTypes := ["authorization_code", "refresh_token"]
    responseTypes := ["code"]
    tokenEndpointAuthMethod := method.asStr
    scope := scopes.asString }

/-! ## Reading a client id -/

/-- The check of one redirect URI in `client_from_id`: native first, then web. -/
def recheckRedirectUri (uri : String) : Except OAuthError Unit :=
  match validateRedirectUri C.url uri "native" with
  | .ok () => .ok ()
  | .error _ => validateRedirectUri C.url uri "web"

/-- `client_from_id`. -/
def clientFromId (clientId : String) : Except OAuthError RegisteredClient := do
  rejectIf (clientId.utf8ByteSize > maxClientIdLength) .invalidClient
  let encoded ← okOr (stripPrefix "dcr." clientId) .invalidClient
  let payload ← (verify C S C.clientIdPayload dynamicClientLabel encoded).mapError
    fun _ => .invalidClient
  rejectIf (payload.version != 1 || payload.redirectUris.isEmpty
    || payload.redirectUris.length > maxRedirectUris) .invalidClient
  let uris ← payload.redirectUris.mapM fun uri => (recheckRedirectUri C uri).map fun _ => uri
  let redirectUris := BTreeSet.collect uris
  rejectIf (redirectUris.len != payload.redirectUris.length) .invalidClient
  return ⟨clientId, redirectUris, payload.tokenEndpointAuthMethod, payload.scopes⟩

/-! ## Client authentication -/

/-- `parse_basic_credentials`. -/
def parseBasicCredentials (value : String) : Except OAuthError (String × String) := do
  let (scheme, encoded) ← okOr (splitOnce ' ' value) .invalidClient
  rejectIf (!eqIgnoreAsciiCase scheme "Basic" || encoded == "") .invalidClient
  let decoded ← okOr ((Base64.urlSafe.decode encoded).orElse fun _ =>
    Base64.standard.decodePadded encoded) .invalidClient
  let decoded ← okOr (fromUtf8 decoded) .invalidClient
  let (clientId, secret) ← okOr (splitOnce ':' decoded) .invalidClient
  rejectIf (clientId == "" || secret == "") .invalidClient
  return (clientId, secret)

/-- `authorization_header.map(parse_basic_credentials).transpose()`. -/
def basicCredentials : Option String → Except OAuthError (Option (String × String))
  | none => .ok none
  | some value => (parseBasicCredentials value).map some

/-- The comparison of a presented client secret. -/
def checkClientSecret (clientId : String) (secret : Option String) : Except OAuthError Unit := do
  let secret ← okOr secret .invalidClient
  rejectIf (!constantTimeEqual (utf8 secret) (utf8 (clientSecret C S clientId))) .invalidClient

/-- The `match` of `authenticate_client` on the registered method. -/
def checkAuthenticationMethod (request : TokenRequest) (basic : Option (String × String))
    (clientId : String) : ClientAuthenticationMethod → Except OAuthError Unit
  | .none => rejectIf (basic.isSome || request.clientSecret.isSome) .invalidClient
  | .clientSecretPost => do
    rejectIf basic.isSome .invalidClient
    checkClientSecret C S clientId request.clientSecret
  | .clientSecretBasic => checkClientSecret C S clientId (basic.map Prod.snd)

/-- `authenticate_client`. -/
def authenticateClient (request : TokenRequest) (authorizationHeader : Option String) :
    Except OAuthError RegisteredClient := do
  let basic ← basicCredentials authorizationHeader
  rejectIf (basic.isSome && (request.clientId.isSome || request.clientSecret.isSome))
    .invalidClient
  let clientId ← okOr ((basic.map Prod.fst).or request.clientId) .invalidClient
  let client ← clientFromId C S clientId
  checkAuthenticationMethod C S request basic clientId client.tokenEndpointAuthMethod
  return client

end

variable {C : Crates} {S : OAuthSettings}

theorem mapError_eq_ok {α ε ε' : Type} {x : Except ε α} {f : ε → ε'} {a : α} :
    x.mapError f = .ok a ↔ x = .ok a := by
  cases x <;> simp [Except.mapError]

theorem recheckRedirectUri_of_validate {uri applicationType : String}
    (h : validateRedirectUri C.url uri applicationType = .ok ()) :
    recheckRedirectUri C uri = .ok () := by
  rw [recheckRedirectUri, validateRedirectUri_native h]

/-- A rechecked redirect URI is one the `url` crate parses. -/
theorem parse_of_recheckRedirectUri {uri : String} (h : recheckRedirectUri C uri = .ok ()) :
    ∃ u, C.url.parse uri = some u := by
  unfold recheckRedirectUri at h
  split at h
  · next hv => exact parse_of_validateRedirectUri hv
  · exact parse_of_validateRedirectUri h

/-- A client id has four characters before the signed payload. -/
theorem utf8ByteSize_clientIdOf (p : ClientIdPayload) :
    (clientIdOf C S p).utf8ByteSize = (4 * p.jsonSize + 2) / 3 + 48 := by
  have hdcr : "dcr.".utf8ByteSize = 4 := by decide
  rw [clientIdOf, String.utf8ByteSize_append, utf8ByteSize_sign, length_clientIdPayload, hdcr]
  omega

theorem isValid_registeredScopes (scope : Option String) :
    (registeredScopes scope).isValid = true := by
  cases scope with
  | none => exact ScopeGrant.isValid_defaultForNewClient
  | some value => exact ScopeGrant.isValid_parseLenient value

/-- The payload `register_client` signs. -/
def registeredPayload (request : RegistrationRequest) (method : ClientAuthenticationMethod)
    (now : UInt64) : ClientIdPayload :=
  ⟨1, (BTreeSet.collect request.redirectUris).toList, method, registeredScopes request.scope, now⟩

/-- **What `register_client` accepts**, and the fields of its answer that a client works with. -/
theorem registerClient_eq_ok {request : RegistrationRequest} {now : UInt64}
    {response : RegistrationResponse} (h : registerClient C S request now = .ok response) :
    ∃ method, ClientAuthenticationMethod.parse request.tokenEndpointAuthMethod = .ok method ∧
      request.redirectUris ≠ [] ∧ request.redirectUris.length ≤ maxRedirectUris ∧
      request.redirectUris.Nodup ∧
      (∀ uri ∈ request.redirectUris,
        validateRedirectUri C.url uri (request.applicationType.getD "web") = .ok ()) ∧
      response.clientId = clientIdOf C S (registeredPayload request method now) ∧
      response.redirectUris = (BTreeSet.collect request.redirectUris).toList ∧
      response.tokenEndpointAuthMethod = method.asStr ∧
      response.scope = (registeredScopes request.scope).asString := by
  unfold registerClient at h
  simp only [bind_eq_ok, rejectIf_eq_ok, mapM_check_eq_ok] at h
  obtain ⟨_, huris, _, _, _, _, method, hm, _, _, uris, ⟨rfl, hv⟩, _, hn, h⟩ := h
  rw [bne_eq_false_iff_eq, BTreeSet.len_collect_eq_iff] at hn
  simp only [Bool.or_eq_false_iff, List.isEmpty_eq_false_iff, decide_eq_false_iff_not,
    Nat.not_lt] at huris
  cases Except.ok.inj h
  exact ⟨method, hm, huris.1, huris.2, hn, hv, rfl, rfl, rfl, rfl⟩

/-- A request that passes the checks is answered. -/
theorem exists_registerClient {request : RegistrationRequest} {method : ClientAuthenticationMethod}
    (huris : request.redirectUris ≠ []) (hmax : request.redirectUris.length ≤ maxRedirectUris)
    (hgrant : badGrantTypes request.grantTypes = false)
    (hresponse : badResponseTypes request.responseTypes = false)
    (hmethod : ClientAuthenticationMethod.parse request.tokenEndpointAuthMethod = .ok method)
    (htype : request.applicationType.getD "web" = "web" ∨
      request.applicationType.getD "web" = "native")
    (hvalid : ∀ uri ∈ request.redirectUris,
      validateRedirectUri C.url uri (request.applicationType.getD "web") = .ok ())
    (hn : request.redirectUris.Nodup) (now : UInt64) :
    ∃ response, registerClient C S request now = .ok response := by
  unfold registerClient
  simp only [bind_eq_ok, rejectIf_eq_ok, mapM_check_eq_ok]
  refine ⟨_, (), ?_, (), hgrant, (), hresponse, method, hmethod, (), ?_, _, ⟨rfl, hvalid⟩, (), ?_,
    rfl⟩
  · simp [huris, hmax]
  · rcases htype with h | h <;> simp [h]
  · rw [bne_eq_false_iff_eq, BTreeSet.len_collect_eq_iff]
    exact hn

/-- **What `client_from_id` accepts**: short ids that are signed registrations. -/
theorem clientFromId_eq_ok {clientId : String} {client : RegisteredClient} :
    clientFromId C S clientId = .ok client ↔
      clientId.utf8ByteSize ≤ maxClientIdLength ∧
      ∃ payload p, clientId = "dcr." ++ sign C S dynamicClientLabel payload ∧
        C.clientIdPayload.read payload = some p ∧ p.version = 1 ∧ p.redirectUris ≠ [] ∧
        p.redirectUris.length ≤ maxRedirectUris ∧
        (∀ uri ∈ p.redirectUris, recheckRedirectUri C uri = .ok ()) ∧ p.redirectUris.Nodup ∧
        client = ⟨clientId, .collect p.redirectUris, p.tokenEndpointAuthMethod, p.scopes⟩ := by
  unfold clientFromId
  simp only [bind_eq_ok, rejectIf_eq_ok, okOr_eq_ok, mapError_eq_ok, verify_eq_ok,
    mapM_check_eq_ok]
  constructor
  · rintro ⟨_, hlen, encoded, hstrip, p, ⟨payload, rfl, hread⟩, _, hp, uris, ⟨rfl, huris⟩, _, hn,
      hc⟩
    simp only [decide_eq_false_iff_not, Nat.not_lt] at hlen
    simp only [Bool.or_eq_false_iff, bne_eq_false_iff_eq, List.isEmpty_eq_false_iff,
      decide_eq_false_iff_not, Nat.not_lt] at hp
    rw [bne_eq_false_iff_eq, BTreeSet.len_collect_eq_iff] at hn
    exact ⟨hlen, payload, p, stripPrefix_eq_some hstrip, hread, hp.1.1, hp.1.2, hp.2, huris, hn,
      (Except.ok.inj hc).symm⟩
  · rintro ⟨hlen, payload, p, hid, hread, hv, hne, hmax, huris, hn, rfl⟩
    refine ⟨(), by simpa using hlen, sign C S dynamicClientLabel payload,
      by rw [hid]; exact stripPrefix_append _ _, p, ⟨payload, rfl, hread⟩, (), ?_, p.redirectUris,
      ⟨rfl, huris⟩, (), ?_, rfl⟩
    · simp [hv, hne, hmax]
    · rw [bne_eq_false_iff_eq, BTreeSet.len_collect_eq_iff]
      exact hn

/-- The registered payload passes every check of `client_from_id` but the one on the length. -/
theorem clientFromId_registered {request : RegistrationRequest}
    {method : ClientAuthenticationMethod} {now : UInt64}
    (hne : request.redirectUris ≠ []) (hmax : request.redirectUris.length ≤ maxRedirectUris)
    (hn : request.redirectUris.Nodup)
    (hvalid : ∀ uri ∈ request.redirectUris,
      validateRedirectUri C.url uri (request.applicationType.getD "web") = .ok ())
    (hlen : (clientIdOf C S (registeredPayload request method now)).utf8ByteSize
      ≤ maxClientIdLength) :
    clientFromId C S (clientIdOf C S (registeredPayload request method now))
      = .ok ⟨clientIdOf C S (registeredPayload request method now),
          .collect request.redirectUris, method, registeredScopes request.scope⟩ := by
  have hp := BTreeSet.perm_collect hn
  refine clientFromId_eq_ok.mpr ⟨hlen, _, registeredPayload request method now, rfl,
    C.clientIdPayload.read_toVec _, rfl, ?_, ?_, ?_, BTreeSet.nodup _, ?_⟩
  · intro hnil
    have hl := hp.length_eq
    have hz : (BTreeSet.collect request.redirectUris).toList = [] := hnil
    rw [hz, List.length_nil] at hl
    exact hne (List.length_eq_zero_iff.mp hl.symm)
  · show (BTreeSet.collect request.redirectUris).toList.length ≤ maxRedirectUris
    rw [hp.length_eq]
    exact hmax
  · intro uri huri
    exact recheckRedirectUri_of_validate (hvalid uri (hp.mem_iff.mp huri))
  · show _ = RegisteredClient.mk _ (.collect (BTreeSet.collect request.redirectUris).toList) _ _
    rw [BTreeSet.collect_toList]
    rfl

/-- A client secret is accepted if it is the one of the client. -/
theorem checkClientSecret_eq_ok {id : String} {secret : Option String} :
    checkClientSecret C S id secret = .ok () ↔ secret = some (clientSecret C S id) := by
  rw [checkClientSecret, bind_eq_ok]
  constructor
  · rintro ⟨presented, hp, h⟩
    rw [rejectIf_eq_ok, Bool.not_eq_false', constantTimeEqual_iff, utf8_inj] at h
    rw [okOr_eq_ok.mp hp, h]
  · rintro rfl
    refine ⟨_, rfl, ?_⟩
    rw [rejectIf_eq_ok, Bool.not_eq_false', constantTimeEqual_iff]

end EngramMcp
