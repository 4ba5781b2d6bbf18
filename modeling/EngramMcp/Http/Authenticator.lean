import EngramMcp.Infra.Hex
import EngramMcp.Infra.Utf8
import EngramMcp.Kb.Limiter
import EngramMcp.OAuth.Token

/-!
# Who sends a request

`Authenticator` of `auth.rs`: a request comes with one of the two API keys or with a bearer token.
A request that has an `Authorization` header is never tried as one with an API key.

* `authenticateHeaders_eq_ok` — the three kinds of requests that are let in
* `fingerprint_subjectOf` — what the audit log says of a bearer token
-/

namespace EngramMcp

open Infra

/-! ## Headers -/

/-- `HeaderMap`: the names in lower case, in the order of the request. -/
abbrev HeaderMap := List (String × Bytes)

namespace HeaderMap

/-- `HeaderMap::get`: the first value of a name. -/
def get (headers : HeaderMap) (name : String) : Option Bytes := headers.lookup name

/-- `HeaderMap::insert`: the values of a name are replaced. -/
def insert (headers : HeaderMap) (name : String) (value : Bytes) : HeaderMap :=
  headers.filter (·.1 ≠ name) ++ [(name, value)]

end HeaderMap

/-- The bytes that `HeaderValue::to_str` can show. -/
def isVisibleAscii (b : UInt8) : Bool := (0x20 ≤ b && b < 0x7F) || b == 0x09

/-- `HeaderValue::to_str`. -/
def toStr (value : Bytes) : Option String :=
  if value.all isVisibleAscii then fromUtf8 value else none

theorem utf8_of_toStr {value : Bytes} {text : String} (h : toStr value = some text) :
    value = utf8 text := by
  unfold toStr at h
  split at h
  · exact (fromUtf8_eq_some_iff.mp h).symm
  · cases h

/-! ## The authenticator -/

/-- `AuthError`. -/
inductive AuthError
  | missing
  | invalid
  deriving DecidableEq

/-- `ApiKeyAuthenticator`. -/
structure ApiKeyAuthenticator where
  keyA : Bytes
  keyB : Bytes
  fingerprintA : String
  fingerprintB : String

/-- `Authenticator`. The bearer tokens are checked against the state that the OAuth endpoints
share with it. -/
structure Authenticator where
  apiKeys : ApiKeyAuthenticator
  oauth : Option OAuthSettings

/-- `derive_audit_salt`. -/
def deriveAuditSalt (C : Crates) (keyA : Bytes) : Digest :=
  C.hmacSha256 keyA (utf8 "engram-mcp/audit-salt/v1")

/-- The `fingerprint` of an API key. -/
def keyFingerprint (C : Crates) (auditSalt : Digest) (credential : Bytes) : String :=
  hex ((C.hmacSha256 auditSalt.1 credential).1.take 8)

/-- `[u8; 8]` from the bytes of a fingerprint. -/
def toArray8 (bytes : Bytes) : Vector UInt8 8 := Vector.ofFn fun i => bytes.getD i 0

theorem toList_toArray8 {bytes : Bytes} (h : bytes.length = 8) :
    (toArray8 bytes).toList = bytes := by
  apply List.ext_getElem
  · rw [Vector.length_toList, h]
  · intro i _ hi
    simp [toArray8, hi]

/-- The token of an `Authorization` header. -/
def bearerToken (value : Bytes) : Except AuthError String :=
  match toStr value with
  | none => .error .invalid
  | some value =>
    match splitOnce ' ' value with
    | none => .error .invalid
    | some (scheme, token) =>
      if !eqIgnoreAsciiCase scheme "Bearer" || token == "" || token.toList.any isWhitespace then
        .error .invalid
      else .ok token

namespace Authenticator

/-- `Authenticator::new`. -/
def new (C : Crates) (keyA keyB : Bytes) : Authenticator where
  apiKeys := {
    keyA, keyB
    fingerprintA := keyFingerprint C (deriveAuditSalt C keyA) keyA
    fingerprintB := keyFingerprint C (deriveAuditSalt C keyA) keyB }
  oauth := none

/-- `Authenticator::with_oauth`. -/
def withOAuth (C : Crates) (keyA keyB : Bytes) (oauth : OAuthSettings) : Authenticator :=
  { new C keyA keyB with oauth := some oauth }

/-- `Authenticator::fingerprint`. -/
def fingerprint (authenticator : Authenticator) : CredentialId → String
  | .keyA => authenticator.apiKeys.fingerprintA
  | .keyB => authenticator.apiKeys.fingerprintB
  | .oauth fingerprint => hex fingerprint.toList

/-- `authenticate_key`. -/
def authenticateKey (authenticator : Authenticator) (candidate : String) :
    Except AuthError AuthSubject :=
  if constantTimeEqual (utf8 candidate) authenticator.apiKeys.keyA then .ok ⟨.keyA, .tech⟩
  else if constantTimeEqual (utf8 candidate) authenticator.apiKeys.keyB then
    .ok ⟨.keyB, .private⟩
  else .error .invalid

/-- `authenticate_api_key_headers`. -/
def authenticateApiKeyHeaders (authenticator : Authenticator) (headers : HeaderMap) :
    Except AuthError AuthSubject :=
  match headers.get "x-api-key" with
  | none => .error .missing
  | some value =>
    match toStr value with
    | none => .error .invalid
    | some value => authenticator.authenticateKey value

/-- What a bearer token is accepted as. -/
def subjectOf (identity : OAuthIdentity) : AuthSubject :=
  ⟨.oauth (toArray8 identity.credentialFingerprint), identity.scope⟩

/-- `authenticate_headers`, given the OAuth state and the reading of the clock. -/
def authenticateHeaders (C : Crates) (authenticator : Authenticator) (state : OAuthState)
    (headers : HeaderMap) (now : UInt64) : Except AuthError AuthSubject :=
  match headers.get "authorization" with
  | some value =>
    match bearerToken value with
    | .error e => .error e
    | .ok token =>
      match authenticator.oauth with
      | none => .error .invalid
      | some settings =>
        match authenticateBearer C settings state token now with
        | .error _ => .error .invalid
        | .ok identity => .ok (subjectOf identity)
  | none => authenticator.authenticateApiKeyHeaders headers

/-- The bearer token that a request is checked with. -/
def presentedToken (authenticator : Authenticator) (headers : HeaderMap) :
    Option (OAuthSettings × String) :=
  match headers.get "authorization", authenticator.oauth with
  | some value, some settings => (bearerToken value).toOption.map fun token => (settings, token)
  | _, _ => none

/-! ## Who is let in -/

variable {C : Crates}

/-- A request without an `Authorization` header, and with this API key. -/
def HasKey (headers : HeaderMap) (key : Bytes) : Prop :=
  headers.get "authorization" = none ∧ headers.get "x-api-key" = some key ∧
    key.all isVisibleAscii = true

theorem authenticateKey_eq_ok {authenticator : Authenticator} {candidate : String}
    {subject : AuthSubject} (h : authenticator.authenticateKey candidate = .ok subject) :
    (utf8 candidate = authenticator.apiKeys.keyA ∧ subject = ⟨.keyA, .tech⟩) ∨
      (utf8 candidate = authenticator.apiKeys.keyB ∧ subject = ⟨.keyB, .private⟩) := by
  unfold authenticateKey at h
  split at h
  · next ha => exact Or.inl ⟨constantTimeEqual_iff.mp ha, (Except.ok.inj h).symm⟩
  · split at h
    · next hb => exact Or.inr ⟨constantTimeEqual_iff.mp hb, (Except.ok.inj h).symm⟩
    · cases h

/-- **The requests that are let in**: with key A, with key B, or with a bearer token. -/
theorem authenticateHeaders_eq_ok {authenticator : Authenticator} {state : OAuthState}
    {headers : HeaderMap} {now : UInt64} {subject : AuthSubject}
    (h : authenticateHeaders C authenticator state headers now = .ok subject) :
    (HasKey headers authenticator.apiKeys.keyA ∧ subject = ⟨.keyA, .tech⟩) ∨
    (HasKey headers authenticator.apiKeys.keyB ∧ subject = ⟨.keyB, .private⟩) ∨
    ∃ settings token identity, authenticator.presentedToken headers = some (settings, token) ∧
      authenticateBearer C settings state token now = .ok identity ∧
      subject = subjectOf identity := by
  unfold authenticateHeaders at h
  split at h
  · next value hvalue =>
    right; right
    split at h
    · cases h
    · next token htoken =>
      split at h
      · cases h
      · next settings hsettings =>
        split at h
        · cases h
        · next identity hidentity =>
          refine ⟨settings, token, identity, ?_, hidentity, (Except.ok.inj h).symm⟩
          unfold presentedToken
          rw [hvalue, hsettings]
          simp only [htoken]
          rfl
  · next hnone =>
    unfold authenticateApiKeyHeaders at h
    split at h
    · cases h
    · next value hvalue =>
      split at h
      · cases h
      · next text htext =>
        have hbytes := utf8_of_toStr htext
        have hvisible : value.all isVisibleAscii = true := by
          unfold toStr at htext
          split at htext
          · assumption
          · cases htext
        rcases authenticateKey_eq_ok h with ⟨hkey, rfl⟩ | ⟨hkey, rfl⟩
        · rw [← hbytes] at hkey
          exact Or.inl ⟨⟨hnone, hkey ▸ hvalue, hkey ▸ hvisible⟩, rfl⟩
        · rw [← hbytes] at hkey
          exact Or.inr (Or.inl ⟨⟨hnone, hkey ▸ hvalue, hkey ▸ hvisible⟩, rfl⟩)

/-! ## Fingerprints -/

theorem length_auditFingerprint (S : OAuthSettings) (hash : Digest) :
    (auditFingerprint C S hash).length = 8 := by
  unfold auditFingerprint
  rw [List.length_take, (mac C S auditFingerprintLabel hash).2]
  rfl

theorem credentialFingerprint_of_authenticateBearer {S : OAuthSettings} {state : OAuthState}
    {token : String} {now : UInt64} {identity : OAuthIdentity}
    (h : authenticateBearer C S state token now = .ok identity) :
    identity.credentialFingerprint = auditFingerprint C S (tokenHash C S token) := by
  unfold authenticateBearer at h
  simp only [bind_eq_ok] at h
  obtain ⟨_, _, _, _, _, _, _, _, h⟩ := h
  obtain rfl := Except.ok.inj h
  rfl

/-- What the audit log says of a bearer token: the first bytes of a keyed hash of it. -/
theorem fingerprint_subjectOf {authenticator : Authenticator} {S : OAuthSettings}
    {state : OAuthState} {token : String} {now : UInt64} {identity : OAuthIdentity}
    (h : authenticateBearer C S state token now = .ok identity) :
    authenticator.fingerprint (subjectOf identity).credentialId
      = hex (auditFingerprint C S (tokenHash C S token)) := by
  have hlen : identity.credentialFingerprint.length = 8 := by
    rw [credentialFingerprint_of_authenticateBearer h]
    exact length_auditFingerprint S _
  show hex (toArray8 identity.credentialFingerprint).toList = _
  rw [toList_toArray8 hlen, credentialFingerprint_of_authenticateBearer h]

end Authenticator

end EngramMcp
