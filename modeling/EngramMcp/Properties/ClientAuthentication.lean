import EngramMcp.Infra.Utf8
import EngramMcp.OAuth.Reference

/-!
# Client authentication

A client registers one of three methods. `Presents` says what a request of each looks like, and
`authenticate_client` accepts exactly that. It is checked from the outside in:

* `parseBasicCredentials_eq_ok` — the header, whose credential is read in either base64 alphabet
* `checkAuthenticationMethod_eq_ok` — the method against the header and the body
* `authenticateClient_eq_ok` — the whole
-/

namespace EngramMcp

open Infra

/-! ## The header -/

/-- A base64 credential stands for an id and a secret. -/
def Credential (encoded clientId secret : String) : Prop :=
  Base64.urlSafe.decode encoded = some (utf8 (clientId ++ ":" ++ secret)) ∨
    Base64.standard.decodePadded encoded = some (utf8 (clientId ++ ":" ++ secret))

/-- The empty text does not stand for anything. -/
theorem Credential.ne_empty {encoded clientId secret : String}
    (h : Credential encoded clientId secret) : encoded ≠ "" := by
  rintro rfl
  have hnil : utf8 (clientId ++ ":" ++ secret) = [] := by
    rcases h with h | h
    · exact (Option.some.inj h).symm
    · exact (Option.some.inj h).symm
  have hcolon : utf8 ":" = [58] := by decide
  rw [utf8_append, utf8_append, hcolon] at hnil
  simp at hnil

/-- The scheme has no space. -/
theorem space_not_mem_of_basic {scheme : String} (h : eqIgnoreAsciiCase scheme "Basic" = true) :
    ' ' ∉ scheme.toList := by
  intro hm
  have heq : scheme.toList.map toAsciiLowercase = "Basic".toList.map toAsciiLowercase :=
    of_decide_eq_true h
  have hspace : toAsciiLowercase ' ' ∈ "Basic".toList.map toAsciiLowercase :=
    heq ▸ List.mem_map_of_mem hm
  exact absurd hspace (by decide)

/-- **What `parse_basic_credentials` accepts.** -/
theorem parseBasicCredentials_eq_ok {value clientId secret : String} :
    parseBasicCredentials value = .ok (clientId, secret) ↔
      clientId ≠ "" ∧ secret ≠ "" ∧ ':' ∉ clientId.toList ∧
      ∃ scheme encoded, value = scheme ++ " " ++ encoded ∧
        eqIgnoreAsciiCase scheme "Basic" = true ∧ Credential encoded clientId secret := by
  unfold parseBasicCredentials
  constructor
  · intro h
    obtain ⟨⟨scheme, encoded⟩, hvalue, h⟩ := bind_eq_ok.mp h
    obtain ⟨_, hscheme, h⟩ := bind_eq_ok.mp h
    obtain ⟨bytes, hdecode, h⟩ := bind_eq_ok.mp h
    obtain ⟨text, htext, h⟩ := bind_eq_ok.mp h
    obtain ⟨⟨clientId', secret'⟩, hsplit, h⟩ := bind_eq_ok.mp h
    obtain ⟨_, hempty, h⟩ := bind_eq_ok.mp h
    obtain ⟨rfl, rfl⟩ := Prod.mk.inj (Except.ok.inj h)
    rw [rejectIf_eq_ok, Bool.or_eq_false_iff, beq_eq_false_iff_ne, beq_eq_false_iff_ne] at hempty
    rw [rejectIf_eq_ok, Bool.or_eq_false_iff, Bool.not_eq_false'] at hscheme
    obtain ⟨hparts, hcolon⟩ := splitOnce_eq_some (okOr_eq_ok.mp hsplit)
    -- the decoded bytes are text, and the colon it is cut at is its first
    have hbytes : bytes = utf8 (clientId' ++ ":" ++ secret') := by
      rw [← fromUtf8_eq_some_iff.mp (okOr_eq_ok.mp htext), hparts]
      rfl
    refine ⟨hempty.1, hempty.2, hcolon, scheme, encoded,
      (splitOnce_eq_some (okOr_eq_ok.mp hvalue)).1, hscheme.1, ?_⟩
    exact Base64.decode_or_decodePadded.mp (hbytes ▸ okOr_eq_ok.mp hdecode)
  · rintro ⟨hid, hsecret, hcolon, scheme, encoded, rfl, hscheme, hcredential⟩
    refine bind_eq_ok.mpr ⟨(scheme, encoded), ?_, bind_eq_ok.mpr ⟨(), ?_, bind_eq_ok.mpr
      ⟨utf8 (clientId ++ ":" ++ secret), ?_, bind_eq_ok.mpr ⟨clientId ++ ":" ++ secret, ?_,
        bind_eq_ok.mpr ⟨(clientId, secret), ?_, bind_eq_ok.mpr ⟨(), ?_, rfl⟩⟩⟩⟩⟩⟩
    · exact okOr_eq_ok.mpr (splitOnce_append (space_not_mem_of_basic hscheme))
    · rw [rejectIf_eq_ok, hscheme, beq_eq_false_iff_ne.mpr hcredential.ne_empty]
      rfl
    · exact okOr_eq_ok.mpr (Base64.decode_or_decodePadded.mpr hcredential)
    · exact okOr_eq_ok.mpr (fromUtf8_utf8 _)
    · exact okOr_eq_ok.mpr (splitOnce_append hcolon)
    · rw [rejectIf_eq_ok, beq_eq_false_iff_ne.mpr hid, beq_eq_false_iff_ne.mpr hsecret]
      rfl

/-- **Both ways to write the header are read back.** -/
theorem parseBasicCredentials_encode {clientId secret scheme : String} (hid : clientId ≠ "")
    (hcolon : ':' ∉ clientId.toList) (hsecret : secret ≠ "")
    (hscheme : eqIgnoreAsciiCase scheme "Basic" = true) :
    parseBasicCredentials
        (scheme ++ " " ++ Base64.standard.encodePadded (utf8 (clientId ++ ":" ++ secret)))
      = .ok (clientId, secret) ∧
    parseBasicCredentials
        (scheme ++ " " ++ Base64.urlSafe.encode (utf8 (clientId ++ ":" ++ secret)))
      = .ok (clientId, secret) := by
  constructor
  · refine parseBasicCredentials_eq_ok.mpr ⟨hid, hsecret, hcolon, scheme, _, rfl, hscheme, ?_⟩
    exact Or.inr (Base64.Alphabet.decodePadded_encodePadded Base64.padding_not_mem_standard _)
  · refine parseBasicCredentials_eq_ok.mpr ⟨hid, hsecret, hcolon, scheme, _, rfl, hscheme, ?_⟩
    exact Or.inl (Base64.urlSafe.decode_encode _)

/-! ## The three methods -/

section

variable (C : Crates) (S : OAuthSettings)

/-- A request presents a client in the way of its method. -/
def Presents (clientId : String) (request : TokenRequest) (header : Option String) :
    ClientAuthenticationMethod → Prop
  | .none => request.clientId = some clientId ∧ request.clientSecret = none ∧ header = none
  | .clientSecretPost =>
    request.clientId = some clientId ∧ request.clientSecret = some (clientSecret C S clientId) ∧
      header = none
  | .clientSecretBasic =>
    request.clientId = none ∧ request.clientSecret = none ∧
      ∃ scheme encoded, header = some (scheme ++ " " ++ encoded) ∧
        eqIgnoreAsciiCase scheme "Basic" = true ∧
        Credential encoded clientId (clientSecret C S clientId)

end

variable {C : Crates} {S : OAuthSettings}

/-- What the `match` on the method accepts. -/
theorem checkAuthenticationMethod_eq_ok {request : TokenRequest}
    {basic : Option (String × String)} {clientId : String} {method : ClientAuthenticationMethod} :
    checkAuthenticationMethod C S request basic clientId method = .ok () ↔
      match method with
      | .none => basic = none ∧ request.clientSecret = none
      | .clientSecretPost => basic = none ∧ request.clientSecret = some (clientSecret C S clientId)
      | .clientSecretBasic => basic.map Prod.snd = some (clientSecret C S clientId) := by
  cases method with
  | none =>
    rw [checkAuthenticationMethod, rejectIf_eq_ok, Bool.or_eq_false_iff, Option.isSome_eq_false_iff,
      Option.isSome_eq_false_iff, Option.isNone_iff_eq_none, Option.isNone_iff_eq_none]
  | clientSecretPost =>
    rw [checkAuthenticationMethod, bind_eq_ok]
    simp only [rejectIf_eq_ok, Option.isSome_eq_false_iff, Option.isNone_iff_eq_none,
      checkClientSecret_eq_ok, exists_const]
  | clientSecretBasic => exact checkClientSecret_eq_ok

/-- Client ids are non-empty and have no colon, so the header can name them. -/
theorem colon_not_mem_clientId {clientId : String} {client : RegisteredClient}
    (h : clientFromId C S clientId = .ok client) : clientId ≠ "" ∧ ':' ∉ clientId.toList := by
  obtain ⟨_, payload, _, rfl, _⟩ := clientFromId_eq_ok.mp h
  refine ⟨?_, ?_⟩
  · intro he
    have hsize := congrArg String.utf8ByteSize he
    rw [String.utf8ByteSize_append, utf8ByteSize_sign] at hsize
    have hempty : "".utf8ByteSize = 0 := rfl
    omega
  · have hcolon : ':' ∉ Base64.urlSafe.chars := by decide +kernel
    have hencode : ∀ b : Bytes, ':' ∉ (Base64.urlSafe.encode b).toList := fun b hm =>
      hcolon (Base64.urlSafe.mem_chars_of_mem_encode hm)
    have hdcr : ':' ∉ "dcr.".toList := by decide
    have hdot : ':' ∉ ".".toList := by decide
    simp only [sign, String.toList_append, List.mem_append, not_or]
    exact ⟨hdcr, ⟨hencode _, hdot⟩, hencode _⟩

theorem clientSecret_ne_empty (clientId : String) : clientSecret C S clientId ≠ "" := by
  intro he
  have hsize := congrArg String.utf8ByteSize he
  have hdcs : "dcs_".utf8ByteSize = 4 := by decide
  have hempty : "".utf8ByteSize = 0 := rfl
  rw [clientSecret, String.utf8ByteSize_append, hdcs, hempty] at hsize
  omega

/-- The header is optional, and a bad one fails the request. -/
theorem basicCredentials_eq_ok {header : Option String} {basic : Option (String × String)} :
    basicCredentials header = .ok basic ↔
      (header = none ∧ basic = none) ∨
      ∃ value pair, header = some value ∧ parseBasicCredentials value = .ok pair ∧
        basic = some pair := by
  cases header with
  | none => simp [basicCredentials, eq_comm]
  | some value =>
    cases hparse : parseBasicCredentials value with
    | error e => simp [basicCredentials, hparse, Except.map]
    | ok pair =>
      have hok : basicCredentials (some value) = .ok (some pair) := by
        rw [basicCredentials, hparse]
        rfl
      rw [hok]
      constructor
      · intro h
        exact Or.inr ⟨value, pair, rfl, hparse, (Except.ok.inj h).symm⟩
      · rintro (⟨hnone, _⟩ | ⟨value', pair', hvalue, hparse', rfl⟩)
        · exact nomatch hnone
        · obtain rfl := Option.some.inj hvalue
          rw [Except.ok.inj (hparse.symm.trans hparse')]

/-- The parts of `authenticate_client`. -/
theorem authenticateClient_parts {request : TokenRequest} {header : Option String}
    {client : RegisteredClient} : authenticateClient C S request header = .ok client ↔
      ∃ basic clientId, basicCredentials header = .ok basic ∧
        (basic.isSome && (request.clientId.isSome || request.clientSecret.isSome)) = false ∧
        (basic.map Prod.fst).or request.clientId = some clientId ∧
        clientFromId C S clientId = .ok client ∧
        checkAuthenticationMethod C S request basic clientId client.tokenEndpointAuthMethod
          = .ok () := by
  constructor
  · intro h
    obtain ⟨basic, hbasic, h⟩ := bind_eq_ok.mp h
    obtain ⟨_, hboth, h⟩ := bind_eq_ok.mp h
    obtain ⟨clientId, hid, h⟩ := bind_eq_ok.mp h
    obtain ⟨c, hc, h⟩ := bind_eq_ok.mp h
    obtain ⟨_, hmethod, h⟩ := bind_eq_ok.mp h
    obtain rfl := Except.ok.inj h
    exact ⟨basic, clientId, hbasic, rejectIf_eq_ok.mp hboth, okOr_eq_ok.mp hid, hc, hmethod⟩
  · rintro ⟨basic, clientId, hbasic, hboth, hid, hc, hmethod⟩
    exact bind_eq_ok.mpr ⟨basic, hbasic, bind_eq_ok.mpr ⟨(), rejectIf_eq_ok.mpr hboth,
      bind_eq_ok.mpr ⟨clientId, okOr_eq_ok.mpr hid, bind_eq_ok.mpr ⟨client, hc,
        bind_eq_ok.mpr ⟨(), hmethod, rfl⟩⟩⟩⟩⟩

/-- The client of an id carries that id. -/
theorem clientId_of_clientFromId {clientId : String} {client : RegisteredClient}
    (h : clientFromId C S clientId = .ok client) : client.clientId = clientId := by
  obtain ⟨_, _, _, _, _, _, _, _, _, _, rfl⟩ := clientFromId_eq_ok.mp h
  rfl

/-- **`authenticate_client` accepts what its method presents, and nothing else.** -/
theorem authenticateClient_eq_ok {clientId : String} {client : RegisteredClient}
    (hclient : clientFromId C S clientId = .ok client) {request : TokenRequest}
    {header : Option String} : authenticateClient C S request header = .ok client ↔
      Presents C S clientId request header client.tokenEndpointAuthMethod := by
  rw [authenticateClient_parts]
  constructor
  · rintro ⟨basic, clientId', hbasic, hboth, hid, hc, hmethod⟩
    obtain rfl : clientId' = clientId :=
      (clientId_of_clientFromId hc).symm.trans (clientId_of_clientFromId hclient)
    rw [checkAuthenticationMethod_eq_ok] at hmethod
    rcases basicCredentials_eq_ok.mp hbasic with ⟨hnone, rfl⟩ | ⟨value, pair, hvalue, hparse, rfl⟩
    · -- without a header the id is the one of the body
      rw [Option.map_none, Option.none_or] at hid
      cases hm : client.tokenEndpointAuthMethod with
      | none | clientSecretPost =>
        rw [hm] at hmethod
        exact ⟨hid, hmethod.2, hnone⟩
      | clientSecretBasic =>
        rw [hm] at hmethod
        exact nomatch hmethod
    · -- with one, the body names no client
      obtain ⟨presented, secret⟩ := pair
      obtain rfl : presented = clientId' := Option.some.inj hid
      simp only [Option.isSome_some, Bool.true_and, Bool.or_eq_false_iff,
        Option.isSome_eq_false_iff, Option.isNone_iff_eq_none] at hboth
      cases hm : client.tokenEndpointAuthMethod with
      | none | clientSecretPost =>
        rw [hm] at hmethod
        exact nomatch hmethod.1
      | clientSecretBasic =>
        rw [hm] at hmethod
        obtain rfl : secret = clientSecret C S presented := Option.some.inj hmethod
        obtain ⟨_, _, _, scheme, encoded, rfl, hscheme, hcredential⟩ :=
          parseBasicCredentials_eq_ok.mp hparse
        exact ⟨hboth.1, hboth.2, scheme, encoded, hvalue, hscheme, hcredential⟩
  · intro h
    cases hm : client.tokenEndpointAuthMethod with
    | none | clientSecretPost =>
      rw [hm] at h
      obtain ⟨hid, hsecret, rfl⟩ := h
      exact ⟨none, clientId, rfl, rfl, by rw [Option.map_none, Option.none_or, hid], hclient,
        checkAuthenticationMethod_eq_ok.mpr ⟨rfl, hsecret⟩⟩
    | clientSecretBasic =>
      rw [hm] at h
      obtain ⟨hid, hsecret, scheme, encoded, rfl, hscheme, hcredential⟩ := h
      -- an id has no colon, so the header is cut between the id and the secret
      obtain ⟨hne, hcolon⟩ := colon_not_mem_clientId hclient
      have hparse : parseBasicCredentials (scheme ++ " " ++ encoded)
          = .ok (clientId, clientSecret C S clientId) :=
        parseBasicCredentials_eq_ok.mpr ⟨hne, clientSecret_ne_empty _, hcolon, scheme, encoded, rfl,
          hscheme, hcredential⟩
      refine ⟨some (clientId, clientSecret C S clientId), clientId, ?_, ?_, rfl, hclient, ?_⟩
      · exact basicCredentials_eq_ok.mpr (Or.inr ⟨_, _, rfl, hparse, rfl⟩)
      · rw [hid, hsecret]
        rfl
      · exact checkAuthenticationMethod_eq_ok.mpr rfl

/-- **Client authentication is exact**, and both ways to write the header are read back. -/
theorem client_authentication_exact (C : Crates) (S : OAuthSettings) :
    (∀ (clientId : String) (client : RegisteredClient),
      clientFromId C S clientId = .ok client →
      ∀ (request : TokenRequest) (header : Option String),
        authenticateClient C S request header = .ok client ↔
          Presents C S clientId request header client.tokenEndpointAuthMethod) ∧
    ∀ clientId secret scheme : String, clientId ≠ "" → ':' ∉ clientId.toList → secret ≠ "" →
      eqIgnoreAsciiCase scheme "Basic" = true →
      parseBasicCredentials
          (scheme ++ " " ++ Base64.standard.encodePadded (utf8 (clientId ++ ":" ++ secret)))
        = .ok (clientId, secret) ∧
      parseBasicCredentials
          (scheme ++ " " ++ Base64.urlSafe.encode (utf8 (clientId ++ ":" ++ secret)))
        = .ok (clientId, secret) :=
  ⟨fun _ _ hclient _ _ => authenticateClient_eq_ok hclient,
    fun _ _ _ hid hcolon hsecret hscheme =>
      parseBasicCredentials_encode hid hcolon hsecret hscheme⟩

/-- The public client is accepted by its id alone, and a header is read. -/
theorem client_authentication_exact_public :
    authenticateClient Reference.crates Reference.settings Reference.codeRequest none
        = .ok Reference.client ∧
      parseBasicCredentials ("basic " ++ Base64.standard.encodePadded (utf8 ("a" ++ ":" ++ "b?>")))
        = .ok ("a", "b?>") := by
  obtain ⟨hexact, hheader⟩ := client_authentication_exact Reference.crates Reference.settings
  refine ⟨?_, ?_⟩
  · exact (hexact _ _ Reference.clientFromId_clientId _ _).mpr ⟨rfl, rfl, rfl⟩
  · exact (hheader "a" "b?>" "basic" (by decide) (by decide) (by decide) (by decide)).1

end EngramMcp
