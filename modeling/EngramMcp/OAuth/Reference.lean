import EngramMcp.Infra.Sha256
import EngramMcp.OAuth.Token

/-!
# Concrete crates

Values of the parameters of the server, so that its results can be read at a server that runs.

The hash functions are the real ones, and the JSON readers accept what the server writes. Of the
`url` crate only plain `https` URLs are covered; every other string is rejected.
-/

namespace EngramMcp.Reference

open Infra EngramMcp

/-- A character of a host name. -/
def hostChar (c : Char) : Bool := c.isLower || c.isDigit || c == '-' || c == '.'

/-- A character of a path. -/
def pathChar (c : Char) : Bool := c.isAlphanum || c == '-' || c == '_' || c == '/'

/-- A plain `https` URL: host, path and query. -/
structure HttpsUrl where
  host : List Char
  path : List Char
  query : String

/-- Parses `https://host/path`. -/
def parseHttps (value : String) : Option HttpsUrl :=
  (stripPrefix "https://" value).bind fun rest =>
    let host := rest.toList.takeWhile (· != '/')
    let path := rest.toList.dropWhile (· != '/')
    if host ≠ [] ∧ path ≠ [] ∧ host.all hostChar = true ∧ path.all pathChar = true then
      some ⟨host, path, ""⟩
    else none

/-- `application/x-www-form-urlencoded` serialization of one byte. -/
def formEncodeByte (b : UInt8) : List Char :=
  let c := Char.ofNat b.toNat
  if c.isAlphanum || c == '*' || c == '-' || c == '.' || c == '_' then [c]
  else if b = 0x20 then ['+']
  else ['%', (Nat.digitChar (b.toNat / 16)).toUpper, (Nat.digitChar (b.toNat % 16)).toUpper]

/-- `application/x-www-form-urlencoded` serialization. -/
def formEncode (s : String) : String := String.ofList ((utf8 s).flatMap formEncodeByte)

/-- The `url` crate on plain `https` URLs. -/
def url : UrlCrate where
  Url := HttpsUrl
  parse := parseHttps
  scheme _ := "https"
  hostStr u := some (String.ofList u.host)
  fragment _ := none
  username _ := ""
  password _ := none
  appendPair u name value :=
    { u with query := (if u.query = "" then "" else u.query ++ "&")
        ++ formEncode name ++ "=" ++ formEncode value }
  toStr u := "https://" ++ String.ofList u.host ++ String.ofList u.path
    ++ (if u.query = "" then "" else "?" ++ u.query)

/-- The crates of the server. -/
def crates : Crates where
  hmacSha256 key value := ⟨Sha256.hmac key value, Sha256.length_hmac key value⟩
  sha256 value := ⟨Sha256.hash value, Sha256.length_hash value⟩
  url := url
  clientIdPayload := .ofReads reads_clientIdPayload
  approvalRequest := .ofReads reads_approvalRequest
  accessClaims := .ofReads reads_accessClaims
  refreshClaims := .ofReads reads_refreshClaims

/-- The settings of a server. -/
def settings : OAuthSettings where
  issuer := "https://kb.example"
  resource := "https://kb.example/mcp"
  ownerSecret := utf8 "correct horse battery staple"
  signingKey := utf8 "0123456789abcdef0123456789abcdef"
  accessTokenTtlSeconds := 3600
  authorizationCodeTtlSeconds := 300
  refreshTokenTtlSeconds := 2592000

/-- A plain `https` URL of the given host and path parses. -/
theorem parseHttps_append {host path : List Char} (hne : host ≠ []) (hh : host.all hostChar = true)
    (hp : path.all pathChar = true) :
    parseHttps ("https://" ++ String.ofList (host ++ '/' :: path))
      = some ⟨host, '/' :: path, ""⟩ := by
  have hslash : '/' ∉ host := by
    intro hm
    have := List.all_eq_true.mp hh '/' hm
    exact absurd this (by decide)
  rw [parseHttps, stripPrefix_append, Option.bind_some, String.toList_ofList]
  simp only [takeWhile_ne_append hslash, dropWhile_ne_append hslash]
  rw [if_pos ⟨hne, by simp, hh, by rw [List.all_cons, hp]; decide⟩]

/-! ## Registrations -/

/-- A redirect URI of 18 bytes and as many more as asked for. -/
def paddedUri (host : Char) (padding : Nat) : String :=
  "https://" ++ String.ofList (host :: ".example".toList ++ '/' :: List.replicate padding 'x')

/-- A registration of one padded URI for each host. -/
def paddedRegistration (hosts : List Char) (padding : Nat) : RegistrationRequest where
  redirectUris := hosts.map fun host => paddedUri host padding
  grantTypes := ["authorization_code", "refresh_token"]
  responseTypes := ["code"]
  tokenEndpointAuthMethod := some "none"
  scope := none
  applicationType := none

theorem toList_paddedUri (host : Char) (padding : Nat) : (paddedUri host padding).toList
    = "https://".toList ++ (host :: ".example".toList ++ '/' :: List.replicate padding 'x') := by
  rw [paddedUri, String.toList_append]
  exact congrArg _ String.toList_ofList

theorem utf8ByteSize_paddedUri {host : Char} (hh : host.utf8Size = 1) (padding : Nat) :
    (paddedUri host padding).utf8ByteSize = 18 + padding := by
  have hscheme : utf8Len "https://".toList = 8 := by decide
  have hdomain : utf8Len ".example".toList = 8 := by decide
  have hslash : ('/').utf8Size = 1 := by decide
  have hpad : utf8Len (List.replicate padding 'x') = padding := by
    rw [utf8Len_eq_length (fun c hc => by rw [(List.mem_replicate.mp hc).2]; decide),
      List.length_replicate]
  rw [← utf8Len_toList, toList_paddedUri, utf8Len_append, List.cons_append, utf8Len_cons,
    utf8Len_append, utf8Len_cons, hscheme, hdomain, hslash, hpad, hh]
  omega

theorem escapedLength_paddedUri {host : Char} (hh : Json.escapedLen host = 1) (padding : Nat) :
    Json.escapedLength (paddedUri host padding) = 18 + padding := by
  have hscheme : ("https://".toList.map Json.escapedLen).sum = 8 := by decide
  have hdomain : (".example".toList.map Json.escapedLen).sum = 8 := by decide
  have hslash : Json.escapedLen '/' = 1 := by decide
  have hx : Json.escapedLen 'x' = 1 := by decide
  rw [Json.escapedLength, toList_paddedUri, List.map_append, List.sum_append, List.cons_append,
    List.map_cons, List.sum_cons, List.map_append, List.sum_append, List.map_cons, List.sum_cons,
    List.map_replicate, List.sum_replicate_nat, hscheme, hdomain, hslash, hx, hh]
  omega

theorem validate_paddedUri {host : Char} (hhost : hostChar host = true)
    (hh : host.utf8Size = 1) {padding : Nat} (hp : padding ≤ 2030) :
    validateRedirectUri crates.url (paddedUri host padding) "web" = .ok () := by
  have hparse : parseHttps (paddedUri host padding)
      = some ⟨host :: ".example".toList, '/' :: List.replicate padding 'x', ""⟩ := by
    refine parseHttps_append (by simp) ?_ ?_
    · rw [List.all_cons, hhost]; decide
    · rw [List.all_replicate]
      split
      · rfl
      · decide
  have hlen := utf8ByteSize_paddedUri hh padding
  refine bind_eq_ok.mpr ⟨(), ?_, bind_eq_ok.mpr ⟨_, okOr_eq_ok.mpr hparse,
    bind_eq_ok.mpr ⟨(), rfl, rfl⟩⟩⟩
  rw [rejectIf_eq_ok, decide_eq_false_iff_not, hlen]
  omega

/-- Registrations of up to eight padded URIs are accepted. -/
theorem exists_registerClient_padded {hosts : List Char} {padding : Nat} (hne : hosts ≠ [])
    (hmax : hosts.length ≤ maxRedirectUris) (hn : hosts.Nodup)
    (hhosts : ∀ host ∈ hosts, hostChar host = true ∧ host.utf8Size = 1)
    (hp : padding ≤ 2030) (now : UInt64) :
    ∃ response, registerClient crates settings
      (paddedRegistration hosts padding) now = .ok response := by
  have hgrant : badGrantTypes ["authorization_code", "refresh_token"] = false := by decide
  have hresponse : badResponseTypes ["code"] = false := by decide
  refine exists_registerClient ?_ ?_ hgrant hresponse rfl (Or.inl rfl) ?_ ?_ now
  · simpa [paddedRegistration] using hne
  · simpa [paddedRegistration] using hmax
  · intro uri huri
    obtain ⟨host, hmem, rfl⟩ := List.mem_map.mp huri
    exact validate_paddedUri (hhosts host hmem).1 (hhosts host hmem).2 hp
  · refine hn.map fun host host' he => ?_
    have hl := congrArg String.toList he
    rw [toList_paddedUri, toList_paddedUri] at hl
    exact (List.cons.inj (List.append_cancel_left hl)).1

/-! ## A client -/

/-- The payload of a registered client. -/
def clientPayload : ClientIdPayload :=
  registeredPayload (paddedRegistration ['a'] 8) .none 1790000000

/-- Its client id. -/
def clientId : String := clientIdOf crates settings clientPayload

/-- Its redirect URI. -/
def clientUri : String := paddedUri 'a' 8

theorem utf8ByteSize_clientId : clientId.utf8ByteSize = 252 := by
  have hsize : clientPayload.jsonSize = 153 := by decide +kernel
  rw [clientId, utf8ByteSize_clientIdOf, hsize]

theorem clientFromId_clientId : clientFromId crates settings clientId
    = .ok ⟨clientId, .collect [clientUri], .none, .defaultForNewClient⟩ := by
  refine clientFromId_registered (List.cons_ne_nil _ _) (by decide) (List.nodup_singleton _) ?_ ?_
  · intro uri huri
    rw [List.mem_singleton.mp huri]
    exact validate_paddedUri (by decide) (by decide) (by decide)
  · show clientId.utf8ByteSize ≤ maxClientIdLength
    rw [utf8ByteSize_clientId]
    decide

/-- The client id is plain text. -/
theorem escapedLength_clientId : Json.escapedLength clientId = 252 := by
  rw [Json.escapedLength_of_plain, utf8ByteSize_clientId]
  intro c hc
  rw [clientId, clientIdOf, String.toList_append, List.mem_append] at hc
  have hplain : Base64.Plain c := by
    rcases hc with hc | hc
    · have hdcr : ("dcr.".toList.all fun c => decide (Base64.Plain c)) = true := by decide +kernel
      exact of_decide_eq_true (List.all_eq_true.mp hdcr c hc)
    · exact plain_of_mem_sign hc
  exact ⟨hplain.2.2.1, hplain.2.2.2.1, hplain.2.1⟩

/-! ## A login -/

/-- The registered client. -/
def client : RegisteredClient := ⟨clientId, .collect [clientUri], .none, .defaultForNewClient⟩

/-- The verifier of the client, and its challenge. -/
def codeVerifier : String := "dBjftJeZ4CVP-mB92K27uhbUJU1p1r_wW1gFWFOEjXk"

def codeChallenge : String := "E9Melhoa2OwvFrEMTJguCHaoeK1t8URWbuGJSstw-cM"

/-- What the client asks for. -/
def approval : SignedApprovalRequest where
  clientId := clientId
  redirectUri := clientUri
  requestedScopes := .defaultForNewClient
  state := some "xyz"
  resource := settings.resource
  codeChallenge := codeChallenge
  expiresAt := saturatingAdd 1790000000 approvalRequestTtlSeconds

/-- The form the owner sends: the private scope is granted. -/
def form : ApprovalForm :=
  consentForm crates settings approval "correct horse battery staple" "approve" scopePrivate

/-- A random value of 32 equal bytes. -/
def draw (b : UInt8) : Digest := ⟨List.replicate 32 b, rfl⟩

def completeEnv : CompleteEnv := ⟨1790000010, some (draw 1), 1790000010, fun _ => 1790000010⟩

/-- The code that is minted. -/
def code : String := "ac_" ++ Base64.urlSafe.encode (draw 1).1

/-- Its record. -/
def record : AuthorizationCode :=
  codeRecord settings approval ⟨.collect [scopePrivate]⟩ 1790000010

/-- How the client redeems it. -/
def codeRequest : TokenRequest where
  grantType := "authorization_code"
  code := some code
  redirectUri := some clientUri
  clientId := some clientId
  clientSecret := none
  codeVerifier := some codeVerifier
  refreshToken := none
  scope := none
  resource := settings.resource

def codeExchange : CodeExchange := ⟨client, code, clientUri, codeVerifier, settings.resource⟩

theorem jsonSize_approval : approval.jsonSize = 493 := by
  have hid : Json.escapedLength approval.clientId = 252 := escapedLength_clientId
  have huri : Json.escapedLength approval.redirectUri = 26 := escapedLength_paddedUri (by decide) 8
  have hscopes : approval.requestedScopes.jsonSize = 24 := by decide
  have hstate : (approval.state.elim 4 fun state => Json.escapedLength state + 2) = 5 := by decide
  have hres : Json.escapedLength approval.resource = 22 := by decide +kernel
  have hchallenge : Json.escapedLength approval.codeChallenge = 43 := by decide +kernel
  have hexp : (Nat.toDigits 10 approval.expiresAt.toNat).length = 10 := by decide +kernel
  rw [SignedApprovalRequest.jsonSize, hid, huri, hscopes, hstate, hres, hchallenge, hexp]

theorem openApproval_form :
    openApproval crates settings form completeEnv.checkedAt = .ok (approval, client) := by
  have hallow : client.scopes.allows approval.requestedScopes = true := by decide
  have hid : clientFromId crates settings approval.clientId = .ok client := clientFromId_clientId
  have huri : approval.redirectUri ∈ client.redirectUris := by
    show clientUri ∈ BTreeSet.collect [clientUri]
    simp
  have hsecret : "correct horse battery staple".utf8ByteSize ≤ maxFormValueLength := by decide
  have hscope : scopePrivate.utf8ByteSize ≤ 256 := by decide
  have hnow : completeEnv.checkedAt < approval.expiresAt := by decide
  have hsize : approval.jsonSize ≤ 6111 := by rw [jsonSize_approval]; omega
  exact openApproval_consentForm hid huri hallow rfl hsize "approve" hsecret hscope hnow

theorem grantedScopes_form :
    grantedScopes settings form approval client = .ok ⟨.collect [scopePrivate]⟩ := by
  have hallow : client.scopes.allows approval.requestedScopes = true := by decide
  have hscope : scopePrivate ∈ approval.requestedScopes.values := by decide
  have hsecret : utf8 "correct horse battery staple" = settings.ownerSecret := rfl
  exact grantedScopes_consentForm hallow hscope hsecret

theorem mintedCode_form : mintedCode crates settings completeEnv form = some (code, record) :=
  mintedCode_of_granted openApproval_form grantedScopes_form
    (randomValue_eq_ok.mpr ⟨draw 1, rfl, rfl⟩)

theorem authenticateClient_clientId {request : TokenRequest}
    (hid : request.clientId = some clientId) (hsecret : request.clientSecret = none) :
    authenticateClient crates settings request none = .ok client := by
  have hrequest : okOr ((none : Option String).or request.clientId) OAuthError.invalidClient
      = .ok clientId := by
    rw [hid]
    rfl
  have hmethod : checkAuthenticationMethod crates settings request none clientId .none
      = .ok () := by
    rw [checkAuthenticationMethod, hsecret]
    rfl
  exact bind_eq_ok.mpr ⟨none, rfl, bind_eq_ok.mpr ⟨(), rfl, bind_eq_ok.mpr ⟨clientId, hrequest,
    bind_eq_ok.mpr ⟨client, clientFromId_clientId, bind_eq_ok.mpr ⟨(), hmethod, rfl⟩⟩⟩⟩⟩

theorem openCodeExchange_codeRequest :
    openCodeExchange crates settings codeRequest none = .ok codeExchange := by
  have hcode : code.utf8ByteSize = 46 := by decide +kernel
  have huri : clientUri.utf8ByteSize = 26 := utf8ByteSize_paddedUri (by decide) 8
  refine bind_eq_ok.mpr ⟨code, rfl, bind_eq_ok.mpr ⟨clientUri, rfl, bind_eq_ok.mpr ⟨codeVerifier,
    rfl, bind_eq_ok.mpr ⟨(), rejectIf_eq_ok.mpr ?_, bind_eq_ok.mpr ⟨client,
      authenticateClient_clientId rfl rfl, rfl⟩⟩⟩⟩⟩
  rw [hcode, huri]
  decide

theorem checkRecord_codeExchange {now : UInt64} (h : now < record.expiresAt) :
    checkRecord crates codeExchange record now = .ok () := by
  refine checkRecord_eq_ok.mpr ⟨h, rfl, rfl, rfl, verifyPkce_iff.mpr ⟨?_, ?_⟩⟩
  · decide +kernel
  · decide +kernel

/-- The clock and the draws when the code is redeemed. -/
def tokenEnv : TokenEnv where
  now := 1790000020
  issuedAt := 1790000020
  accessIssuedAt := 1790000020
  familyDraw := some (draw 2)
  accessDraw := some (draw 3)
  tokenDraw := some (draw 4)
  io := .completes

/-- The claims of the refresh token. -/
def refreshClaims : RefreshTokenClaims where
  version := tokenClaimsVersion
  familyId := "rf_" ++ Base64.urlSafe.encode (draw 2).1
  tokenId := "rti_" ++ Base64.urlSafe.encode (draw 4).1
  clientBinding := clientBinding crates settings clientId
  scopes := record.scopes
  audience := settings.resource
  issuedAt := 1790000020
  expiresAt := saturatingAdd 1790000020 settings.refreshTokenTtlSeconds

/-- The claims of the access token. -/
def accessClaims : AccessTokenClaims where
  version := tokenClaimsVersion
  tokenId := "ati_" ++ Base64.urlSafe.encode (draw 3).1
  familyId := "rf_" ++ Base64.urlSafe.encode (draw 2).1
  scopes := record.scopes
  audience := settings.resource
  issuedAt := 1790000020
  expiresAt := saturatingAdd 1790000020 settings.accessTokenTtlSeconds

theorem exists_preparePair_code : ∃ p,
    preparePair crates settings tokenEnv record.scopes record.resource client.clientId = .ok p ∧
      p.claims = refreshClaims ∧
      p.response.accessToken = accessTokenOf crates settings accessClaims := by
  have hvalid : record.scopes.isValid = true := by decide
  exact exists_preparePair hvalid rfl rfl rfl clientId

theorem exists_redeem_code {state : OAuthState}
    (hnew : ∀ k, state.refreshTokens.state.families.lookup k = none) :
    ∃ response, (redeem crates settings state tokenEnv codeExchange (some record)).2
      = .ok response := by
  have hnow : tokenEnv.now < record.expiresAt := by decide
  obtain ⟨p, hp, _⟩ := exists_preparePair_code
  obtain ⟨store, hcall, _⟩ := RefreshTokenStore.call_createFamily (hnew p.claims.familyId)
    (refreshTokenIdHash crates settings p.claims.tokenId) p.claims.expiresAt tokenEnv.issuedAt
  exact ⟨p.response, by rw [redeem_of_prepared (checkRecord_codeExchange hnow) hp hcall]; rfl⟩

/-- Random values with a short prefix have a known length. -/
theorem escapedLength_randomValue (pre : String) (b : Digest) :
    Json.escapedLength (pre ++ Base64.urlSafe.encode b.1) = Json.escapedLength pre + 43 := by
  rw [Json.escapedLength_append, escapedLength_encode, b.2]

theorem escapedLength_clientBinding :
    Json.escapedLength (clientBinding crates settings clientId) = 43 := by
  rw [clientBinding, escapedLength_encode, (mac crates settings _ _).2]

theorem jsonSize_refreshClaims : refreshClaims.jsonSize = 305 := by
  have hfamily : Json.escapedLength refreshClaims.familyId = 46 := escapedLength_randomValue _ _
  have htoken : Json.escapedLength refreshClaims.tokenId = 47 := escapedLength_randomValue _ _
  have hbinding : Json.escapedLength refreshClaims.clientBinding = 43 := escapedLength_clientBinding
  have hscopes : refreshClaims.scopes.jsonSize = 14 := by decide
  have hres : Json.escapedLength refreshClaims.audience = 22 := by decide +kernel
  have hversion : (Nat.toDigits 10 refreshClaims.version.toNat).length = 1 := by decide +kernel
  have hissued : (Nat.toDigits 10 refreshClaims.issuedAt.toNat).length = 10 := by decide +kernel
  have hexp : (Nat.toDigits 10 refreshClaims.expiresAt.toNat).length = 10 := by decide +kernel
  rw [RefreshTokenClaims.jsonSize, hfamily, htoken, hbinding, hscopes, hres, hversion, hissued,
    hexp]

theorem jsonSize_accessClaims : accessClaims.jsonSize = 242 := by
  have hfamily : Json.escapedLength accessClaims.familyId = 46 := escapedLength_randomValue _ _
  have htoken : Json.escapedLength accessClaims.tokenId = 47 := escapedLength_randomValue _ _
  have hscopes : accessClaims.scopes.jsonSize = 14 := by decide
  have hres : Json.escapedLength accessClaims.audience = 22 := by decide +kernel
  have hversion : (Nat.toDigits 10 accessClaims.version.toNat).length = 1 := by decide +kernel
  have hissued : (Nat.toDigits 10 accessClaims.issuedAt.toNat).length = 10 := by decide +kernel
  have hexp : (Nat.toDigits 10 accessClaims.expiresAt.toNat).length = 10 := by decide +kernel
  rw [AccessTokenClaims.jsonSize, hversion, htoken, hfamily, hscopes, hres, hissued, hexp]

/-- The refresh token in use. -/
def refreshRequest (scope : Option String) : TokenRequest where
  grantType := "refresh_token"
  code := none
  redirectUri := none
  clientId := some clientId
  clientSecret := none
  codeVerifier := none
  refreshToken := some (refreshTokenOf crates settings refreshClaims)
  scope := scope
  resource := settings.resource

/-- The clock and the draws of a refresh. -/
def refreshEnv : TokenEnv where
  now := 1790000100
  issuedAt := 1790000100
  accessIssuedAt := 1790000100
  familyDraw := none
  accessDraw := some (draw 5)
  tokenDraw := some (draw 6)
  io := .completes

theorem utf8ByteSize_refreshToken :
    (refreshTokenOf crates settings refreshClaims).utf8ByteSize ≤ maxFormValueLength := by
  rw [utf8ByteSize_refreshTokenOf, jsonSize_refreshClaims]
  decide

theorem checkRefreshClaims_refreshClaims :
    checkRefreshClaims crates settings client refreshClaims refreshEnv.now = .ok () := by
  have hvalid : refreshClaims.scopes.isValid = true := by decide
  have hexp : refreshEnv.now < refreshClaims.expiresAt := by decide +kernel
  exact checkRefreshClaims_eq_ok.mpr ⟨rfl, hvalid, rfl, hexp, rfl⟩

/-- Without a scope field the refresh reaches the rotation. -/
theorem exists_prepareRotation_refresh : ∃ p,
    prepareRotation crates settings refreshEnv (refreshRequest none) none = .ok p ∧
      p.presented = refreshClaims ∧
      p.tokens.claims.tokenId = "rti_" ++ Base64.urlSafe.encode (draw 6).1 ∧
      p.tokens.claims.expiresAt
        = saturatingAdd refreshEnv.now settings.refreshTokenTtlSeconds := by
  have hfamily : refreshClaims.familyId ≠ "" := by decide +kernel
  have hallow : refreshClaims.scopes.allows refreshClaims.scopes = true := by decide
  have hscopes : refreshedScopes refreshClaims (refreshRequest none).scope
      = .ok refreshClaims.scopes := refreshedScopes_eq_ok.mpr ⟨rfl, hallow⟩
  obtain ⟨p, hp⟩ := (exists_prepareRotation_iff (authenticateClient_clientId rfl rfl) rfl rfl
    (verifyToken_refreshTokenOf refreshClaims) checkRefreshClaims_refreshClaims hfamily).mpr
    ⟨utf8ByteSize_refreshToken, ⟨_, hscopes⟩, rfl, rfl⟩
  obtain ⟨_, _, hopen, _, _, htokens⟩ := prepareRotation_eq_ok hp
  obtain ⟨token, ht, _, _, _, hv⟩ := openRefreshToken_eq_ok.mp hopen
  cases Option.some.inj ht
  rw [verifyToken_refreshTokenOf] at hv
  obtain ⟨_, b, hb, htokenId⟩ := prepareTokens_eq_ok htokens
  cases Option.some.inj hb
  exact ⟨p, hp, (Except.ok.inj hv).symm, htokenId, expiresAt_of_prepareTokens htokens⟩

end EngramMcp.Reference
