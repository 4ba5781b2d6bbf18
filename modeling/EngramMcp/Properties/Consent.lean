import EngramMcp.OAuth.Authorization
import EngramMcp.OAuth.Reference

/-!
# Consent pages

A consent page carries the signed approval request in a hidden field. Making the page bounds the
parts of the request one by one; taking the form back bounds the hidden field as a whole.

* `consent_completes_iff` — the form of a page that was rendered is accepted if and only if the
  approval request has at most 6111 bytes
* `consent_not_completes` — a `state` of 2048 bytes that JSON escapes is too long
-/

namespace EngramMcp

open Infra

/--
Bytes of the approval request for a query, whose `scopes` are those of the scope field or, without
one, those of the client.
-/
def approvalSize (query : AuthorizationQuery) (scopes : ScopeGrant) (now : UInt64) : Nat :=
  111 + Json.escapedLength query.clientId + Json.escapedLength query.redirectUri
    + scopes.jsonSize + (query.state.elim 4 fun state => Json.escapedLength state + 2)
    + Json.escapedLength query.resource + Json.escapedLength query.codeChallenge
    + (Nat.toDigits 10 (saturatingAdd now approvalRequestTtlSeconds).toNat).length

/--
Whatever the server did in between, before the request expires the page can be completed:
approving any offered scope with the owner secret gives a redirect with a code, and denying gives
a redirect with an error.
-/
def ConsentCompletes (C : Crates) (S : OAuthSettings) (request : SignedApprovalRequest) : Prop :=
  ∀ (state : OAuthState) (env : CompleteEnv), env.checkedAt < request.expiresAt →
    env.draw.isSome = true →
    (∀ scope ∈ request.requestedScopes.values, ∀ secret, utf8 secret = S.ownerSecret →
      secret.utf8ByteSize ≤ maxFormValueLength →
      ∃ url,
        (completeAuthorization C S state env (consentForm C S request secret "approve" scope)).2
          = .ok (.approved url)) ∧
    (∀ scope secret, scope.utf8ByteSize ≤ 256 → secret.utf8ByteSize ≤ maxFormValueLength →
      ∃ url, (completeAuthorization C S state env (consentForm C S request secret "deny" scope)).2
        = .ok (.denied url))

variable {C : Crates} {S : OAuthSettings}

theorem jsonSize_eq_approvalSize (query : AuthorizationQuery) (scopes : ScopeGrant)
    (now : UInt64) :
    (SignedApprovalRequest.mk query.clientId query.redirectUri scopes query.state query.resource
      query.codeChallenge (saturatingAdd now approvalRequestTtlSeconds)).jsonSize
      = approvalSize query scopes now := rfl

/-! ## The page -/

/-- The hidden field and the radio options stand in the page unescaped. -/
theorem escapeHtml_signApproval (request : SignedApprovalRequest) :
    escapeHtml (signApproval C S request) = signApproval C S request := by
  refine escapeHtml_eq_self fun c hc => ?_
  obtain ⟨_, _, hq, _, h1, h2, h3, h4⟩ := plain_of_mem_sign hc
  exact ⟨h1, h2, h3, hq, h4⟩

theorem escapeHtml_scope {g : ScopeGrant} {scope : String} (h : scope ∈ g.values) :
    escapeHtml scope = scope := by
  have hk := (ScopeGrant.mem_values.mp h).1
  simp only [ScopeGrant.known, Bool.or_eq_true, beq_iff_eq] at hk
  rcases hk with rfl | rfl
  · decide
  · decide

/-! ## The request -/

theorem zero_lt_expiresAt (now : UInt64) : 0 < saturatingAdd now approvalRequestTtlSeconds := by
  rw [UInt64.lt_iff_toNat_lt, saturatingAdd]
  have h : (UInt64.ofNatClamp (now.toNat + approvalRequestTtlSeconds.toNat)).toNat
      = min (now.toNat + approvalRequestTtlSeconds.toNat) (UInt64.size - 1) := by
    rw [UInt64.ofNatClamp]
    split
    · next hlt => rw [UInt64.toNat_ofNatLT]; omega
    · next hge => rw [UInt64.toNat_ofNatLT]; omega
  have h300 : approvalRequestTtlSeconds.toNat = 300 := by decide
  have hsize : UInt64.size = 18446744073709551616 := rfl
  rw [h, h300, hsize]
  show 0 < _
  omega

/-- The redirect URIs of a client can be parsed again. -/
theorem parse_redirectUri {clientId uri : String} {client : RegisteredClient}
    (hc : clientFromId C S clientId = .ok client) (huri : uri ∈ client.redirectUris) :
    ∃ u, C.url.parse uri = some u := by
  obtain ⟨_, _, p, _, _, _, _, _, hvalid, _, rfl⟩ := clientFromId_eq_ok.mp hc
  exact parse_of_recheckRedirectUri (hvalid uri (BTreeSet.mem_collect.mp huri))

/-! ## Completing -/

theorem consentCompletes_of_size {request : SignedApprovalRequest} {client : RegisteredClient}
    (hc : clientFromId C S request.clientId = .ok client)
    (huri : request.redirectUri ∈ client.redirectUris)
    (hallow : client.scopes.allows request.requestedScopes = true)
    (hres : request.resource = S.resource) (hsize : request.jsonSize ≤ 6111) :
    ConsentCompletes C S request := by
  intro state env hnow hdraw
  obtain ⟨u, hu⟩ := parse_redirectUri hc huri
  constructor
  · intro scope hscope secret hsecret hlen
    obtain ⟨b, hb⟩ := Option.isSome_iff_exists.mp hdraw
    have hopen := openApproval_consentForm hc huri hallow hres hsize "approve" hlen
      (utf8ByteSize_of_mem_values hscope) hnow
    have hgrant := grantedScopes_consentForm (C := C) (S := S) hallow hscope hsecret
    have hcode : randomValue "ac_" env.draw = .ok ("ac_" ++ Base64.urlSafe.encode b.1) :=
      randomValue_eq_ok.mpr ⟨b, hb, rfl⟩
    obtain ⟨url, hurl⟩ := exists_redirectUrl (S := S) hu request.state
      (some ("ac_" ++ Base64.urlSafe.encode b.1)) none
    have hdeny : ¬ (consentForm C S request secret "approve" scope).decision = "deny" := by
      show ¬ ("approve" = "deny")
      decide
    refine ⟨url, ?_⟩
    simp only [completeAuthorization, hopen, if_neg hdeny, hgrant, hcode, hurl, Except.map]
  · intro scope secret hscope hlen
    have hopen := openApproval_consentForm hc huri hallow hres hsize "deny" hlen
      hscope hnow
    obtain ⟨url, hurl⟩ := exists_redirectUrl (S := S) hu request.state none (some "access_denied")
    have hdeny : (consentForm C S request secret "deny" scope).decision = "deny" := rfl
    refine ⟨url, ?_⟩
    simp only [completeAuthorization, hopen, if_pos hdeny, hurl, Except.map]

/--
**Which consent pages can be completed.** A query that is accepted gives a page with the signed
request in its hidden field and the known requested scopes as its options; the form of that page
is accepted, before it expires, if and only if the request has at most 6111 bytes.
-/
theorem consent_completes_iff {query : AuthorizationQuery} {now : UInt64} {page : String}
    {client : RegisteredClient} {scopes : ScopeGrant}
    (h : beginAuthorization C S query now = .ok page)
    (hc : clientFromId C S query.clientId = .ok client)
    (hs : ScopeGrant.parseOr client.scopes query.scope = .ok scopes) :
    ∃ request, page = renderApprovalPage (signApproval C S request) request ∧
      request.requestedScopes = scopes ∧
      escapeHtml (signApproval C S request) = signApproval C S request ∧
      (∀ scope ∈ request.requestedScopes.values, escapeHtml scope = scope) ∧
      request.expiresAt = saturatingAdd now approvalRequestTtlSeconds ∧
      (ConsentCompletes C S request ↔ approvalSize query scopes now ≤ 6111) := by
  obtain ⟨request, hreq, hpage⟩ := bind_eq_ok.mp h
  obtain ⟨client', hc', huri, hres, hs', hallow, heq⟩ := approvalRequest_eq_ok hreq
  rw [hc] at hc'
  cases Except.ok.inj hc'
  rw [hs] at hs'
  have hscopes : scopes = request.requestedScopes := Except.ok.inj hs'
  have hsize : request.jsonSize = approvalSize query scopes now := by
    rw [heq, hscopes, jsonSize_eq_approvalSize]
  have hexp : request.expiresAt = saturatingAdd now approvalRequestTtlSeconds := by rw [heq]
  refine ⟨request, (Except.ok.inj hpage).symm, hscopes.symm, escapeHtml_signApproval request,
    fun scope hscope => escapeHtml_scope hscope, hexp, ?_⟩
  constructor
  · intro hcomplete
    have hpos : (0 : UInt64) < request.expiresAt := by
      rw [hexp]
      exact zero_lt_expiresAt now
    obtain ⟨_, hdeny⟩ := hcomplete ⟨∅, .fresh⟩
      ⟨0, some ⟨List.replicate 32 0, rfl⟩, 0, fun _ => 0⟩ hpos rfl
    obtain ⟨url, hurl⟩ := hdeny "" "" (by decide) (by decide)
    cases hopen : openApproval C S (consentForm C S request "" "deny" "") 0 with
    | error e => simp [completeAuthorization, hopen] at hurl
    | ok r =>
      have hlen := (openApproval_eq_ok.mp hopen).1
      have hfield : (consentForm C S request "" "deny" "").request = signApproval C S request := rfl
      rw [hfield, utf8ByteSize_signApproval, maxFormValueLength, hsize] at hlen
      omega
  · intro hle
    have hrc : request.clientId = query.clientId := by rw [heq]
    have hru : request.redirectUri = query.redirectUri := by rw [heq]
    have hrr : request.resource = query.resource := by rw [heq]
    exact consentCompletes_of_size (by rw [hrc]; exact hc) (by rw [hru]; exact huri) hallow
      (by rw [hrr]; exact hres) (by rw [hsize]; exact hle)

/-! ## Two queries -/

/-- A query of the registered client with the given state. -/
def consentQuery (state : String) : AuthorizationQuery where
  responseType := "code"
  clientId := Reference.clientId
  redirectUri := Reference.clientUri
  scope := none
  state := some state
  resource := Reference.settings.resource
  codeChallenge := Reference.codeChallenge
  codeChallengeMethod := "S256"

theorem exists_beginAuthorization {state : String} (h : state.utf8ByteSize ≤ 2048) (now : UInt64) :
    ∃ page, beginAuthorization Reference.crates Reference.settings (consentQuery state) now
      = .ok page := by
  have hid := Reference.utf8ByteSize_clientId
  have huri : Reference.clientUri.utf8ByteSize = 26 :=
    Reference.utf8ByteSize_paddedUri (by decide) 8
  have hne : Reference.clientId ≠ "" := by
    intro he
    rw [he] at hid
    exact absurd hid (by decide)
  have hchallenge : validCodeChallenge Reference.codeChallenge = true := by decide +kernel
  have hquery : validateAuthorizationQuery Reference.settings (consentQuery state) = .ok () := by
    simp [validateAuthorizationQuery, consentQuery, hne, hid, huri, hchallenge, maxClientIdLength,
      maxFormValueLength, h]
  have hmem : Reference.clientUri ∈ BTreeSet.collect [Reference.clientUri] := by simp
  have hallow : ScopeGrant.defaultForNewClient.allows .defaultForNewClient = true := by decide
  unfold beginAuthorization approvalRequest
  simp only [bind_eq_ok, rejectIf_eq_ok]
  refine ⟨_, _, ⟨(), hquery, _, Reference.clientFromId_clientId, (), ?_,
    ScopeGrant.defaultForNewClient, rfl, (), ?_, rfl⟩, rfl⟩
  · simp only [Bool.not_eq_false', decide_eq_true_eq]
    exact hmem
  · simp only [Bool.not_eq_false']
    exact hallow

theorem approvalSize_short :
    approvalSize (consentQuery "xyz") .defaultForNewClient 1790000000 = 493 :=
  (jsonSize_eq_approvalSize _ _ _).symm.trans Reference.jsonSize_approval

/-- A page with a short state can be completed. -/
theorem consent_completes_short :
    ∃ page request, beginAuthorization Reference.crates Reference.settings (consentQuery "xyz")
        1790000000 = .ok page ∧
      page = renderApprovalPage (signApproval Reference.crates Reference.settings request)
        request ∧
      ConsentCompletes Reference.crates Reference.settings request := by
  obtain ⟨page, h⟩ := exists_beginAuthorization (show "xyz".utf8ByteSize ≤ 2048 by decide)
    1790000000
  obtain ⟨request, hpage, _, _, _, _, hiff⟩ :=
    consent_completes_iff h Reference.clientFromId_clientId rfl
  refine ⟨page, request, h, hpage, hiff.mpr ?_⟩
  exact (approvalSize_short).le.trans (by omega)

/-- A state of `n` control characters. -/
def escapedState (n : Nat) : String := String.ofList (List.replicate n (Char.ofNat 1))

theorem utf8ByteSize_escapedState (n : Nat) : (escapedState n).utf8ByteSize = n := by
  have hsize : (Char.ofNat 1).utf8Size = 1 := by decide
  rw [escapedState, utf8ByteSize_ofList,
    utf8Len_eq_length (fun c hc => by rw [(List.mem_replicate.mp hc).2]; exact hsize),
    List.length_replicate]

theorem escapedLength_escapedState (n : Nat) : Json.escapedLength (escapedState n) = n * 6 := by
  have hesc : Json.escapedLen (Char.ofNat 1) = 6 := by decide
  rw [Json.escapedLength, escapedState, String.toList_ofList, List.map_replicate,
    List.sum_replicate_nat, hesc]

theorem escapedLength_le_approvalSize (state : String) (scopes : ScopeGrant) (now : UInt64) :
    Json.escapedLength state ≤ approvalSize (consentQuery state) scopes now := by
  rw [approvalSize, consentQuery, Option.elim_some]
  omega

/-- **A page that cannot be completed**: its state is within the limit, and six times as long in
JSON. -/
theorem consent_not_completes :
    ∃ page request, beginAuthorization Reference.crates Reference.settings
        (consentQuery (escapedState 2048)) 1790000000 = .ok page ∧
      page = renderApprovalPage (signApproval Reference.crates Reference.settings request)
        request ∧
      ¬ ConsentCompletes Reference.crates Reference.settings request := by
  obtain ⟨page, h⟩ := exists_beginAuthorization (utf8ByteSize_escapedState 2048).le 1790000000
  obtain ⟨request, hpage, _, _, _, _, hiff⟩ :=
    consent_completes_iff h Reference.clientFromId_clientId rfl
  refine ⟨page, request, h, hpage, fun hcomplete => ?_⟩
  have hle := (escapedLength_le_approvalSize _ _ _).trans (hiff.mp hcomplete)
  rw [escapedLength_escapedState] at hle
  omega

end EngramMcp
