import EngramMcp.OAuth.Scope

/-!
# The signed and stored records

The five records of `oauth.rs` that carry a grant from one call to the next, with the JSON of the
four that leave the server inside a signed string.

A record is signed as the bytes `toVec` and read back by `serde_json::from_slice`, of which
only `FromSlice` is assumed.
-/

namespace EngramMcp

open Infra

/--
`serde_json::from_slice` at the type of the records that `toVec` writes.

It reads back what was written. What it does with other bytes is left open.
-/
structure FromSlice {α : Type} (toVec : α → Bytes) where
  read : Bytes → Option α
  read_toVec : ∀ a, read (toVec a) = some a

/-- A reader of the text `w` writes gives a `FromSlice`. -/
def FromSlice.ofReads {α : Type} {w : α → Json.Text} {p : Json.Reader α} (hp : Json.Reads p w) :
    FromSlice fun a => utf8 (String.ofList (w a)) where
  read bytes := (fromUtf8 bytes).bind fun text => Json.readAll p text.toList
  read_toVec a := by
    rw [fromUtf8_utf8, Option.bind_some, String.toList_ofList, Json.readAll_eq hp]

/-- Bytes of a grant in JSON. -/
def ScopeGrant.jsonSize (g : ScopeGrant) : Nat :=
  (g.scopes.toList.map fun s => Json.escapedLength s + 2).sum + (g.scopes.toList.length - 1) + 2

theorem utf8Len_strings (l : List String) : utf8Len (Json.arr (l.map Json.str))
    = (l.map fun s => Json.escapedLength s + 2).sum + (l.length - 1) + 2 := by
  have hmap : (l.map Json.str).map utf8Len = l.map fun s => Json.escapedLength s + 2 := by
    rw [List.map_map]
    exact List.map_congr_left fun s _ => Json.utf8Len_str s
  rw [Json.utf8Len_arr, hmap, List.length_map]

theorem utf8Len_scopes (g : ScopeGrant) : utf8Len g.toJson = g.jsonSize :=
  utf8Len_strings g.scopes.toList

/-- `TOKEN_CLAIMS_VERSION`. -/
def tokenClaimsVersion : UInt8 := 1

/-! ## Clients -/

/-- `ClientAuthenticationMethod`. -/
inductive ClientAuthenticationMethod
  | none
  | clientSecretPost
  | clientSecretBasic
  deriving DecidableEq, Repr

namespace ClientAuthenticationMethod

/-- `ClientAuthenticationMethod::parse`. -/
def parse (value : Option String) : Except OAuthError ClientAuthenticationMethod :=
  match value.getD "none" with
  | "none" => .ok none
  | "client_secret_post" => .ok clientSecretPost
  | "client_secret_basic" => .ok clientSecretBasic
  | _ => .error .invalidClient

/-- `ClientAuthenticationMethod::as_str`, which is also its serialized name. -/
def asStr : ClientAuthenticationMethod → String
  | none => "none"
  | clientSecretPost => "client_secret_post"
  | clientSecretBasic => "client_secret_basic"

/-- The name of a method is parsed as that method. -/
theorem parse_asStr (m : ClientAuthenticationMethod) : parse (some m.asStr) = .ok m := by
  cases m <;> rfl

end ClientAuthenticationMethod

/-- `ClientIdPayload`. -/
structure ClientIdPayload where
  version : UInt8
  redirectUris : List String
  tokenEndpointAuthMethod : ClientAuthenticationMethod
  scopes : ScopeGrant
  issuedAt : UInt64
  deriving DecidableEq

/-- `RegisteredClient`. -/
structure RegisteredClient where
  clientId : String
  redirectUris : BTreeSet String
  tokenEndpointAuthMethod : ClientAuthenticationMethod
  scopes : ScopeGrant

/-- `Serialize` for `ClientIdPayload`. -/
def ClientIdPayload.toJson (p : ClientIdPayload) : Json.Text :=
  Json.obj [Json.member "version" (Json.num p.version.toNat),
    Json.member "redirect_uris" (Json.arr (p.redirectUris.map Json.str)),
    Json.member "token_endpoint_auth_method" (Json.str p.tokenEndpointAuthMethod.asStr),
    Json.member "scopes" p.scopes.toJson,
    Json.member "issued_at" (Json.num p.issuedAt.toNat)]

/-- `serde_json::to_vec`. -/
def ClientIdPayload.toVec (p : ClientIdPayload) : Bytes := utf8 (String.ofList p.toJson)

/-- Bytes of a payload, from its fields. -/
def ClientIdPayload.jsonSize (p : ClientIdPayload) : Nat :=
  84 + (Nat.toDigits 10 p.version.toNat).length
    + ((p.redirectUris.map fun uri => Json.escapedLength uri + 2).sum
      + (p.redirectUris.length - 1) + 2)
    + Json.escapedLength p.tokenEndpointAuthMethod.asStr + p.scopes.jsonSize
    + (Nat.toDigits 10 p.issuedAt.toNat).length

theorem length_clientIdPayload (p : ClientIdPayload) : p.toVec.length = p.jsonSize := by
  have hv : Json.escapedLength "version" = 7 := by decide
  have hr : Json.escapedLength "redirect_uris" = 13 := by decide
  have ht : Json.escapedLength "token_endpoint_auth_method" = 26 := by decide
  have hs : Json.escapedLength "scopes" = 6 := by decide
  have hi : Json.escapedLength "issued_at" = 9 := by decide
  rw [ClientIdPayload.toVec, length_utf8, utf8ByteSize_ofList, ClientIdPayload.toJson]
  simp only [Json.utf8Len_obj, List.map_cons, List.map_nil, List.sum_cons, List.sum_nil,
    List.length_cons, List.length_nil, Json.utf8Len_member, hv, hr, ht, hs, hi, Json.utf8Len_num,
    Json.utf8Len_str, utf8Len_strings, utf8Len_scopes, ClientIdPayload.jsonSize]
  omega

/-! ## Authorization -/

/-- `SignedApprovalRequest`. -/
structure SignedApprovalRequest where
  clientId : String
  redirectUri : String
  requestedScopes : ScopeGrant
  state : Option String
  resource : String
  codeChallenge : String
  expiresAt : UInt64
  deriving DecidableEq

/-- `AuthorizationCode`. -/
structure AuthorizationCode where
  clientId : String
  redirectUri : String
  scopes : ScopeGrant
  resource : String
  codeChallenge : String
  expiresAt : UInt64
  deriving DecidableEq

/-- `Serialize` for `SignedApprovalRequest`. -/
def SignedApprovalRequest.toJson (r : SignedApprovalRequest) : Json.Text :=
  Json.obj [Json.member "client_id" (Json.str r.clientId),
    Json.member "redirect_uri" (Json.str r.redirectUri),
    Json.member "requested_scopes" r.requestedScopes.toJson,
    Json.member "state" (Json.opt Json.str r.state),
    Json.member "resource" (Json.str r.resource),
    Json.member "code_challenge" (Json.str r.codeChallenge),
    Json.member "expires_at" (Json.num r.expiresAt.toNat)]

/-- `serde_json::to_vec`. -/
def SignedApprovalRequest.toVec (r : SignedApprovalRequest) : Bytes :=
  utf8 (String.ofList r.toJson)

/-- Bytes of an approval request, from its fields. -/
def SignedApprovalRequest.jsonSize (r : SignedApprovalRequest) : Nat :=
  111 + Json.escapedLength r.clientId + Json.escapedLength r.redirectUri
    + r.requestedScopes.jsonSize + (r.state.elim 4 fun state => Json.escapedLength state + 2)
    + Json.escapedLength r.resource + Json.escapedLength r.codeChallenge
    + (Nat.toDigits 10 r.expiresAt.toNat).length

theorem length_approvalRequest (r : SignedApprovalRequest) : r.toVec.length = r.jsonSize := by
  have h1 : Json.escapedLength "client_id" = 9 := by decide
  have h2 : Json.escapedLength "redirect_uri" = 12 := by decide
  have h3 : Json.escapedLength "requested_scopes" = 16 := by decide
  have h4 : Json.escapedLength "state" = 5 := by decide
  have h5 : Json.escapedLength "resource" = 8 := by decide
  have h6 : Json.escapedLength "code_challenge" = 14 := by decide
  have h7 : Json.escapedLength "expires_at" = 10 := by decide
  have hstate : utf8Len (Json.opt Json.str r.state)
      = r.state.elim 4 fun state => Json.escapedLength state + 2 := by
    cases r.state with
    | none => decide
    | some state => exact Json.utf8Len_str state
  rw [SignedApprovalRequest.toVec, length_utf8, utf8ByteSize_ofList, SignedApprovalRequest.toJson]
  simp only [Json.utf8Len_obj, List.map_cons, List.map_nil, List.sum_cons, List.sum_nil,
    List.length_cons, List.length_nil, Json.utf8Len_member, h1, h2, h3, h4, h5, h6, h7,
    Json.utf8Len_num, Json.utf8Len_str, hstate, utf8Len_scopes, SignedApprovalRequest.jsonSize]
  omega

/-! ## Tokens -/

/-- `AccessTokenClaims`. -/
structure AccessTokenClaims where
  version : UInt8
  tokenId : String
  familyId : String
  scopes : ScopeGrant
  audience : String
  issuedAt : UInt64
  expiresAt : UInt64
  deriving DecidableEq

/-- `RefreshTokenClaims`. -/
structure RefreshTokenClaims where
  version : UInt8
  familyId : String
  tokenId : String
  clientBinding : String
  scopes : ScopeGrant
  audience : String
  issuedAt : UInt64
  expiresAt : UInt64
  deriving DecidableEq

/-- `Serialize` for `AccessTokenClaims`. -/
def AccessTokenClaims.toJson (c : AccessTokenClaims) : Json.Text :=
  Json.obj [Json.member "version" (Json.num c.version.toNat),
    Json.member "token_id" (Json.str c.tokenId),
    Json.member "family_id" (Json.str c.familyId),
    Json.member "scopes" c.scopes.toJson,
    Json.member "audience" (Json.str c.audience),
    Json.member "issued_at" (Json.num c.issuedAt.toNat),
    Json.member "expires_at" (Json.num c.expiresAt.toNat)]

/-- `serde_json::to_vec`. -/
def AccessTokenClaims.toVec (c : AccessTokenClaims) : Bytes := utf8 (String.ofList c.toJson)

/-- Bytes of the claims of an access token, from their fields. -/
def AccessTokenClaims.jsonSize (c : AccessTokenClaims) : Nat :=
  92 + (Nat.toDigits 10 c.version.toNat).length + Json.escapedLength c.tokenId
    + Json.escapedLength c.familyId + c.scopes.jsonSize + Json.escapedLength c.audience
    + (Nat.toDigits 10 c.issuedAt.toNat).length + (Nat.toDigits 10 c.expiresAt.toNat).length

theorem length_accessClaims (c : AccessTokenClaims) : c.toVec.length = c.jsonSize := by
  have h1 : Json.escapedLength "version" = 7 := by decide
  have h2 : Json.escapedLength "token_id" = 8 := by decide
  have h3 : Json.escapedLength "family_id" = 9 := by decide
  have h4 : Json.escapedLength "scopes" = 6 := by decide
  have h5 : Json.escapedLength "audience" = 8 := by decide
  have h6 : Json.escapedLength "issued_at" = 9 := by decide
  have h7 : Json.escapedLength "expires_at" = 10 := by decide
  rw [AccessTokenClaims.toVec, length_utf8, utf8ByteSize_ofList, AccessTokenClaims.toJson]
  simp only [Json.utf8Len_obj, List.map_cons, List.map_nil, List.sum_cons, List.sum_nil,
    List.length_cons, List.length_nil, Json.utf8Len_member, h1, h2, h3, h4, h5, h6, h7,
    Json.utf8Len_num, Json.utf8Len_str, utf8Len_scopes, AccessTokenClaims.jsonSize]
  omega

/-- `Serialize` for `RefreshTokenClaims`. -/
def RefreshTokenClaims.toJson (c : RefreshTokenClaims) : Json.Text :=
  Json.obj [Json.member "version" (Json.num c.version.toNat),
    Json.member "family_id" (Json.str c.familyId),
    Json.member "token_id" (Json.str c.tokenId),
    Json.member "client_binding" (Json.str c.clientBinding),
    Json.member "scopes" c.scopes.toJson,
    Json.member "audience" (Json.str c.audience),
    Json.member "issued_at" (Json.num c.issuedAt.toNat),
    Json.member "expires_at" (Json.num c.expiresAt.toNat)]

/-- `serde_json::to_vec`. -/
def RefreshTokenClaims.toVec (c : RefreshTokenClaims) : Bytes := utf8 (String.ofList c.toJson)

/-- Bytes of the claims of a refresh token, from their fields. -/
def RefreshTokenClaims.jsonSize (c : RefreshTokenClaims) : Nat :=
  112 + (Nat.toDigits 10 c.version.toNat).length + Json.escapedLength c.familyId
    + Json.escapedLength c.tokenId + Json.escapedLength c.clientBinding + c.scopes.jsonSize
    + Json.escapedLength c.audience + (Nat.toDigits 10 c.issuedAt.toNat).length
    + (Nat.toDigits 10 c.expiresAt.toNat).length

theorem length_refreshClaims (c : RefreshTokenClaims) : c.toVec.length = c.jsonSize := by
  have h1 : Json.escapedLength "version" = 7 := by decide
  have h2 : Json.escapedLength "family_id" = 9 := by decide
  have h3 : Json.escapedLength "token_id" = 8 := by decide
  have h4 : Json.escapedLength "client_binding" = 14 := by decide
  have h5 : Json.escapedLength "scopes" = 6 := by decide
  have h6 : Json.escapedLength "audience" = 8 := by decide
  have h7 : Json.escapedLength "issued_at" = 9 := by decide
  have h8 : Json.escapedLength "expires_at" = 10 := by decide
  rw [RefreshTokenClaims.toVec, length_utf8, utf8ByteSize_ofList, RefreshTokenClaims.toJson]
  simp only [Json.utf8Len_obj, List.map_cons, List.map_nil, List.sum_cons, List.sum_nil,
    List.length_cons, List.length_nil, Json.utf8Len_member, h1, h2, h3, h4, h5, h6, h7, h8,
    Json.utf8Len_num, Json.utf8Len_str, utf8Len_scopes, RefreshTokenClaims.jsonSize]
  omega

/-! ## Strict readers -/

/-- Reads the array of a grant. -/
def readScopes : Json.Reader ScopeGrant :=
  (Json.readBracketed '[' ']' Json.readStr).andThen fun l => .done ⟨BTreeSet.collect l⟩

theorem reads_strings :
    Json.Reads (Json.readBracketed '[' ']' Json.readStr) (fun l => Json.arr (l.map Json.str)) :=
  Json.reads_bracketed (by decide) (by decide) Json.reads_str fun _ => ⟨'"', _, rfl, by decide⟩

theorem reads_scopes : Json.Reads readScopes ScopeGrant.toJson := by
  intro g rest hs
  rw [readScopes, ScopeGrant.toJson, Json.Reader.andThen_eq (reads_strings g.scopes.toList rest hs),
    BTreeSet.collect_toList, Json.Reader.done]

/-- Reads the name of a method. -/
def readMethod : Json.Reader ClientAuthenticationMethod :=
  Json.readStr.andThen fun name rest =>
    match ClientAuthenticationMethod.parse (some name) with
    | .ok m => some (m, rest)
    | .error _ => none

theorem reads_method :
    Json.Reads readMethod (fun m : ClientAuthenticationMethod => Json.str m.asStr) := by
  intro m rest hs
  rw [readMethod, Json.Reader.andThen_eq (Json.reads_str m.asStr rest hs)]
  simp only [ClientAuthenticationMethod.parse_asStr]

/-- Reads what `ClientIdPayload.toJson` writes. -/
def readClientIdPayload : Json.Reader ClientIdPayload :=
  (Json.readField '{' "version" Json.readU8).andThen fun version =>
  (Json.readField ',' "redirect_uris" (Json.readBracketed '[' ']' Json.readStr)).andThen fun uris =>
  (Json.readField ',' "token_endpoint_auth_method" readMethod).andThen fun method =>
  (Json.readField ',' "scopes" readScopes).andThen fun scopes =>
  (Json.readField ',' "issued_at" Json.readU64).andThen fun issuedAt =>
    Json.closing ⟨version, uris, method, scopes, issuedAt⟩

theorem reads_clientIdPayload : Json.Reads readClientIdPayload ClientIdPayload.toJson := by
  intro p rest _
  rw [ClientIdPayload.toJson, Json.obj_cons_cons]
  simp only [List.flatMap_cons, List.flatMap_nil, List.cons_append, List.append_assoc,
    List.nil_append]
  rw [readClientIdPayload, Json.readField_andThen Json.reads_u8 _ (Json.stops_comma _),
    Json.readField_andThen reads_strings _ (Json.stops_comma _),
    Json.readField_andThen reads_method _ (Json.stops_comma _),
    Json.readField_andThen reads_scopes _ (Json.stops_comma _),
    Json.readField_andThen Json.reads_u64 _ (Json.stops_brace _), Json.closing_eq]

/-- Reads what `SignedApprovalRequest.toJson` writes. -/
def readApprovalRequest : Json.Reader SignedApprovalRequest :=
  (Json.readField '{' "client_id" Json.readStr).andThen fun clientId =>
  (Json.readField ',' "redirect_uri" Json.readStr).andThen fun redirectUri =>
  (Json.readField ',' "requested_scopes" readScopes).andThen fun scopes =>
  (Json.readField ',' "state" (Json.readOpt Json.readStr)).andThen fun state =>
  (Json.readField ',' "resource" Json.readStr).andThen fun resource =>
  (Json.readField ',' "code_challenge" Json.readStr).andThen fun codeChallenge =>
  (Json.readField ',' "expires_at" Json.readU64).andThen fun expiresAt =>
    Json.closing ⟨clientId, redirectUri, scopes, state, resource, codeChallenge, expiresAt⟩

theorem reads_approvalRequest : Json.Reads readApprovalRequest SignedApprovalRequest.toJson := by
  intro r rest _
  rw [SignedApprovalRequest.toJson, Json.obj_cons_cons]
  simp only [List.flatMap_cons, List.flatMap_nil, List.cons_append, List.append_assoc,
    List.nil_append]
  rw [readApprovalRequest, Json.readField_andThen Json.reads_str _ (Json.stops_comma _),
    Json.readField_andThen Json.reads_str _ (Json.stops_comma _),
    Json.readField_andThen reads_scopes _ (Json.stops_comma _),
    Json.readField_andThen Json.reads_opt_str _ (Json.stops_comma _),
    Json.readField_andThen Json.reads_str _ (Json.stops_comma _),
    Json.readField_andThen Json.reads_str _ (Json.stops_comma _),
    Json.readField_andThen Json.reads_u64 _ (Json.stops_brace _), Json.closing_eq]

/-- Reads what `AccessTokenClaims.toJson` writes. -/
def readAccessClaims : Json.Reader AccessTokenClaims :=
  (Json.readField '{' "version" Json.readU8).andThen fun version =>
  (Json.readField ',' "token_id" Json.readStr).andThen fun tokenId =>
  (Json.readField ',' "family_id" Json.readStr).andThen fun familyId =>
  (Json.readField ',' "scopes" readScopes).andThen fun scopes =>
  (Json.readField ',' "audience" Json.readStr).andThen fun audience =>
  (Json.readField ',' "issued_at" Json.readU64).andThen fun issuedAt =>
  (Json.readField ',' "expires_at" Json.readU64).andThen fun expiresAt =>
    Json.closing ⟨version, tokenId, familyId, scopes, audience, issuedAt, expiresAt⟩

theorem reads_accessClaims : Json.Reads readAccessClaims AccessTokenClaims.toJson := by
  intro c rest _
  rw [AccessTokenClaims.toJson, Json.obj_cons_cons]
  simp only [List.flatMap_cons, List.flatMap_nil, List.cons_append, List.append_assoc,
    List.nil_append]
  rw [readAccessClaims, Json.readField_andThen Json.reads_u8 _ (Json.stops_comma _),
    Json.readField_andThen Json.reads_str _ (Json.stops_comma _),
    Json.readField_andThen Json.reads_str _ (Json.stops_comma _),
    Json.readField_andThen reads_scopes _ (Json.stops_comma _),
    Json.readField_andThen Json.reads_str _ (Json.stops_comma _),
    Json.readField_andThen Json.reads_u64 _ (Json.stops_comma _),
    Json.readField_andThen Json.reads_u64 _ (Json.stops_brace _), Json.closing_eq]

/-- Reads what `RefreshTokenClaims.toJson` writes. -/
def readRefreshClaims : Json.Reader RefreshTokenClaims :=
  (Json.readField '{' "version" Json.readU8).andThen fun version =>
  (Json.readField ',' "family_id" Json.readStr).andThen fun familyId =>
  (Json.readField ',' "token_id" Json.readStr).andThen fun tokenId =>
  (Json.readField ',' "client_binding" Json.readStr).andThen fun clientBinding =>
  (Json.readField ',' "scopes" readScopes).andThen fun scopes =>
  (Json.readField ',' "audience" Json.readStr).andThen fun audience =>
  (Json.readField ',' "issued_at" Json.readU64).andThen fun issuedAt =>
  (Json.readField ',' "expires_at" Json.readU64).andThen fun expiresAt =>
    Json.closing ⟨version, familyId, tokenId, clientBinding, scopes, audience, issuedAt, expiresAt⟩

theorem reads_refreshClaims : Json.Reads readRefreshClaims RefreshTokenClaims.toJson := by
  intro c rest _
  rw [RefreshTokenClaims.toJson, Json.obj_cons_cons]
  simp only [List.flatMap_cons, List.flatMap_nil, List.cons_append, List.append_assoc,
    List.nil_append]
  rw [readRefreshClaims, Json.readField_andThen Json.reads_u8 _ (Json.stops_comma _),
    Json.readField_andThen Json.reads_str _ (Json.stops_comma _),
    Json.readField_andThen Json.reads_str _ (Json.stops_comma _),
    Json.readField_andThen Json.reads_str _ (Json.stops_comma _),
    Json.readField_andThen reads_scopes _ (Json.stops_comma _),
    Json.readField_andThen Json.reads_str _ (Json.stops_comma _),
    Json.readField_andThen Json.reads_u64 _ (Json.stops_comma _),
    Json.readField_andThen Json.reads_u64 _ (Json.stops_brace _), Json.closing_eq]

end EngramMcp
