import EngramMcp.Infra.Base64
import EngramMcp.OAuth.Records

/-!
# Keyed hashes and signed strings

The private helpers of `OAuthBearerAuthenticator`: `mac`, `sign`, `verify`, `verify_token`,
`random_value` and the hashes built from `mac`.

The crates they rest on are parameters, collected in `Crates`. Nothing is assumed of the hash
functions here, so every result of this file holds for all of them.

* `openSigned_eq_ok` — a string passes the signature check exactly when it is the one `sign`
  makes for its payload
* `utf8ByteSize_sign` — its length in bytes
-/

namespace EngramMcp

open Infra

/-- `[u8; 32]`. -/
abbrev Digest := { b : Bytes // b.length = 32 }

/-- The `url` crate, as far as redirect URIs use it. -/
structure UrlCrate where
  Url : Type
  parse : String → Option Url
  scheme : Url → String
  hostStr : Url → Option String
  fragment : Url → Option String
  username : Url → String
  password : Url → Option String
  appendPair : Url → String → String → Url
  toStr : Url → String

/-- The crates the server calls. -/
structure Crates where
  hmacSha256 : Bytes → Bytes → Digest
  sha256 : Bytes → Digest
  url : UrlCrate
  clientIdPayload : FromSlice ClientIdPayload.toVec
  approvalRequest : FromSlice SignedApprovalRequest.toVec
  accessClaims : FromSlice AccessTokenClaims.toVec
  refreshClaims : FromSlice RefreshTokenClaims.toVec

/-- The fields of `OAuthState` that never change. -/
structure OAuthSettings where
  issuer : String
  resource : String
  ownerSecret : Bytes
  signingKey : Bytes
  accessTokenTtlSeconds : UInt64
  authorizationCodeTtlSeconds : UInt64
  refreshTokenTtlSeconds : UInt64

/-! ## Labels -/

/-- The label of dynamic client ids. -/
def dynamicClientLabel : Bytes := utf8 "engram-mcp/oauth/dynamic-client/v1"

/-- The label of client secrets. -/
def dynamicClientSecretLabel : Bytes := utf8 "engram-mcp/oauth/dynamic-client-secret/v1"

/-- The label of approval requests. -/
def approvalRequestLabel : Bytes := utf8 "engram-mcp/oauth/approval-request/v1"

/-- The label of access tokens. -/
def accessTokenLabel : Bytes := utf8 "engram-mcp/oauth/access-token/v1"

/-- The label of refresh tokens. -/
def refreshTokenLabel : Bytes := utf8 "engram-mcp/oauth/refresh-token/v1"

/-- The label of `token_hash`. -/
def tokenHashLabel : Bytes := utf8 "engram-mcp/oauth/token-hash/v1"

/-- The label of `refresh_token_id_hash`. -/
def refreshTokenIdHashLabel : Bytes := utf8 "engram-mcp/oauth/refresh-token-id-hash/v1"

/-- The label of `client_binding`. -/
def refreshClientBindingLabel : Bytes := utf8 "engram-mcp/oauth/refresh-client-binding/v1"

/-- The label of `audit_fingerprint`. -/
def auditFingerprintLabel : Bytes := utf8 "engram-mcp/oauth/audit-fingerprint/v1"

/-- `ACCESS_TOKEN_PREFIX`. -/
def accessTokenPrefix : String := "at_"

/-- `REFRESH_TOKEN_PREFIX`. -/
def refreshTokenPrefix : String := "rt_"

/-! ## Keyed hashes -/

section

variable (C : Crates) (S : OAuthSettings)

/-- `mac`. -/
def mac (label value : Bytes) : Digest := C.hmacSha256 S.signingKey (label ++ 0 :: value)

/-- `token_hash`. -/
def tokenHash (token : String) : Digest := mac C S tokenHashLabel (utf8 token)

/-- `refresh_token_id_hash`. -/
def refreshTokenIdHash (tokenId : String) : String :=
  Base64.urlSafe.encode (mac C S refreshTokenIdHashLabel (utf8 tokenId))

/-- `client_binding`. -/
def clientBinding (clientId : String) : String :=
  Base64.urlSafe.encode (mac C S refreshClientBindingLabel (utf8 clientId))

/-- `audit_fingerprint`. -/
def auditFingerprint (hash : Digest) : Bytes := (mac C S auditFingerprintLabel hash).1.take 8

/-- `random_value`, given what `getrandom` returns. -/
def randomValue (pre : String) (draw : Option Digest) : Except OAuthError String := do
  let bytes ← okOr draw .entropy
  return pre ++ Base64.urlSafe.encode bytes

/-! ## Signed strings -/

/-- `sign`, given the serialized value. -/
def sign (label payload : Bytes) : String :=
  Base64.urlSafe.encode payload ++ "." ++ Base64.urlSafe.encode (mac C S label payload)

/-- The part of `verify` up to the signature check; it returns the payload. -/
def openSigned (label : Bytes) (value : String) : Except OAuthError Bytes := do
  let (encodedPayload, encodedSignature) ← okOr (splitOnce '.' value) .invalidRequest
  let payload ← okOr (Base64.urlSafe.decode encodedPayload) .invalidRequest
  let signature ← okOr (Base64.urlSafe.decode encodedSignature) .invalidRequest
  let expected := mac C S label payload
  if !constantTimeEqual signature expected then .error .invalidRequest
  else return payload

/-- `verify`. -/
def verify {α : Type} {toVec : α → Bytes} (reader : FromSlice toVec) (label : Bytes)
    (value : String) : Except OAuthError α := do
  let payload ← openSigned C S label value
  okOr (reader.read payload) .invalidRequest

/-- `verify_token`. -/
def verifyToken {α : Type} {toVec : α → Bytes} (reader : FromSlice toVec) (pre : String)
    (label : Bytes) (token : String) : Except OAuthError α := do
  let signed ← okOr (stripPrefix pre token) .invalidRequest
  verify C S reader label signed

end

variable {C : Crates} {S : OAuthSettings}

theorem randomValue_eq_ok {pre : String} {draw : Option Digest} {v : String} :
    randomValue pre draw = .ok v ↔
      ∃ b, draw = some b ∧ v = pre ++ Base64.urlSafe.encode b := by
  cases draw with
  | none => simp [randomValue, okOr, bind, Except.bind]
  | some b =>
    simp only [randomValue, okOr, bind, Except.bind, pure, Except.pure, Except.ok.injEq,
      Option.some.injEq, exists_eq_left']
    exact eq_comm

/-- Text of the url-safe alphabet is written as it stands. -/
theorem escapedLength_encode (b : Bytes) :
    Json.escapedLength (Base64.urlSafe.encode b) = (4 * b.length + 2) / 3 := by
  rw [Json.escapedLength_of_plain, Base64.utf8ByteSize_encode_urlSafe]
  intro c hc
  obtain ⟨⟨_, hp, hq, hb, _⟩, _⟩ :=
    Base64.plain_of_mem_urlSafe (Base64.urlSafe.mem_chars_of_mem_encode hc)
  exact ⟨hq, hb, hp⟩

/-- Signed strings begin with the encoded payload and a dot. -/
theorem splitOnce_sign (label payload : Bytes) :
    splitOnce '.' (sign C S label payload)
      = some (Base64.urlSafe.encode payload, Base64.urlSafe.encode (mac C S label payload)) :=
  splitOnce_append (Base64.dot_not_mem_encode_urlSafe payload)

/-- **The signature check accepts what `sign` makes, and nothing else.** -/
theorem openSigned_eq_ok {label payload : Bytes} {value : String} :
    openSigned C S label value = .ok payload ↔ value = sign C S label payload := by
  constructor
  · intro h
    obtain ⟨⟨p, s⟩, hsplit, h⟩ := bind_eq_ok.mp h
    rw [okOr_eq_ok] at hsplit
    obtain ⟨payload', hp, h⟩ := bind_eq_ok.mp h
    obtain ⟨signature, hs, h⟩ := bind_eq_ok.mp h
    rw [okOr_eq_ok] at hp hs
    simp only at h
    split at h
    · simp at h
    · next hc =>
      have hpl : payload' = payload := Except.ok.inj h
      subst hpl
      simp only [Bool.not_eq_true', Bool.not_eq_false, constantTimeEqual_iff] at hc
      rw [sign, Base64.urlSafe.encode_of_decode hp, ← hc, Base64.urlSafe.encode_of_decode hs]
      exact (splitOnce_eq_some hsplit).1
  · rintro rfl
    simp only [openSigned, splitOnce_sign, okOr, Base64.Alphabet.decode_encode, bind, Except.bind]
    rw [if_neg (by simp)]
    rfl

/-- Reading a signed string back. -/
theorem verify_eq_ok {α : Type} {toVec : α → Bytes} {reader : FromSlice toVec} {label : Bytes}
    {value : String} {a : α} : verify C S reader label value = .ok a ↔
      ∃ payload, value = sign C S label payload ∧ reader.read payload = some a := by
  rw [verify, bind_eq_ok]
  simp only [openSigned_eq_ok, okOr_eq_ok]

theorem verify_sign {α : Type} {toVec : α → Bytes} (reader : FromSlice toVec) (label : Bytes)
    (a : α) : verify C S reader label (sign C S label (toVec a)) = .ok a :=
  verify_eq_ok.mpr ⟨toVec a, rfl, reader.read_toVec a⟩

theorem verifyToken_eq_ok {α : Type} {toVec : α → Bytes} {reader : FromSlice toVec}
    {pre token : String} {label : Bytes} {a : α} :
    verifyToken C S reader pre label token = .ok a ↔
      ∃ payload, token = pre ++ sign C S label payload ∧ reader.read payload = some a := by
  rw [verifyToken, bind_eq_ok]
  constructor
  · rintro ⟨signed, hs, hv⟩
    obtain ⟨payload, rfl, hr⟩ := verify_eq_ok.mp hv
    exact ⟨payload, stripPrefix_eq_some (okOr_eq_ok.mp hs), hr⟩
  · rintro ⟨payload, rfl, hr⟩
    exact ⟨_, okOr_eq_ok.mpr (stripPrefix_append _ _), verify_eq_ok.mpr ⟨payload, rfl, hr⟩⟩

/-- **The length of a signed string**: four bytes for three of the payload, a dot, and 43 bytes. -/
theorem utf8ByteSize_sign (label payload : Bytes) :
    (sign C S label payload).utf8ByteSize = (4 * payload.length + 2) / 3 + 44 := by
  have hdot : ".".utf8ByteSize = 1 := by decide
  have hmac : (mac C S label payload).1.length = 32 := (mac C S label payload).2
  rw [sign, String.utf8ByteSize_append, String.utf8ByteSize_append,
    Base64.utf8ByteSize_encode_urlSafe, Base64.utf8ByteSize_encode_urlSafe, hmac, hdot]

/-- Signed strings are plain text. -/
theorem plain_of_mem_sign {label payload : Bytes} {c : Char}
    (h : c ∈ (sign C S label payload).toList) : Base64.Plain c := by
  rw [sign, String.toList_append, String.toList_append, List.mem_append, List.mem_append] at h
  rcases h with (h | h) | h
  · exact (Base64.plain_of_mem_urlSafe (Base64.urlSafe.mem_chars_of_mem_encode h)).1
  · have hdot : ".".toList = ['.'] := rfl
    rw [hdot, List.mem_singleton] at h
    rw [h]
    decide
  · exact (Base64.plain_of_mem_urlSafe (Base64.urlSafe.mem_chars_of_mem_encode h)).1

end EngramMcp
