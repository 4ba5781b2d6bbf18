import EngramMcp.OAuth.Reference
import EngramMcp.OAuth.ServerRun

/-!
# No privilege escalation

The scope of a client passes through its registration, the approval request, the code, and then
from token to token. Whatever the clients send, it comes from the owner and only goes down.

* `no_escalation` — a bearer token with the private scope belongs to a family that the owner
  started with that scope, and the scope along a family never rises
-/

namespace EngramMcp

open Infra

/-- The tokens of a response belong to the family of the presented token, with no higher scope. -/
def NoHigher (claims : RefreshTokenClaims) (i : Issued) : Prop :=
  i.refresh.familyId = claims.familyId ∧ i.access.familyId = claims.familyId ∧
  i.refresh.scopes.accessScope ≤ claims.scopes.accessScope ∧
  i.access.scopes.accessScope ≤ claims.scopes.accessScope

variable {C : Crates} {S : OAuthSettings}

/-- The tokens of a successful refresh. -/
theorem noHigher_of_refreshed {env : TokenEnv} {request : TokenRequest} {header : Option String}
    {p : PreparedRotation} (hp : prepareRotation C S env request header = .ok p) :
    ∃ token claims i, request.refreshToken = some token ∧
      verifyToken C S C.refreshClaims refreshTokenPrefix refreshTokenLabel token = .ok claims ∧
      (ServerEvent.exchanged env request header (.ok p.tokens.response)).issued C S = some i ∧
      p.tokens.response.refreshToken = refreshTokenOf C S i.refresh ∧
      p.tokens.response.accessToken = accessTokenOf C S i.access ∧ NoHigher claims i := by
  obtain ⟨client, scopes, hopen, _, hs, htokens⟩ := prepareRotation_eq_ok hp
  obtain ⟨token, ht, _, _, _, hv⟩ := openRefreshToken_eq_ok.mp hopen
  obtain ⟨_, hallow⟩ := refreshedScopes_eq_ok.mp hs
  obtain ⟨hw, _⟩ := prepareTokens_eq_ok htokens
  obtain ⟨access, ha, hscopes, hfam⟩ := hw.accessToken
  have hle := ScopeGrant.accessScope_le_of_allows hallow
  refine ⟨token, p.presented, ⟨p.tokens.claims, access⟩, ht, hv,
    issued_exchanged env request header hw.refreshToken ha, hw.refreshToken, ha, hw.family, hfam,
    ?_, ?_⟩
  · rw [hw.scopes]
    exact hle
  · rw [hscopes]
    exact hle

/--
**No privilege escalation.** In every run

* a bearer token that is accepted with the private scope belongs to a family that was started from
  a code the owner approved for the private scope;
* the tokens obtained from a refresh token belong to its family and have no higher scope;
* of two pairs of tokens of one family, the later one has no higher scope.
-/
theorem no_escalation {h : List ServerEvent} {s : OAuthState}
    (hr : Run (IdealStep C S) .start h s) :
    (∀ pre token now identity post,
      h = pre ++ .authenticated token now (.ok identity) :: post → identity.scope = .«private» →
      ∃ claims, verifyToken C S C.accessClaims accessTokenPrefix accessTokenLabel token
        = .ok claims ∧ StartedByOwner C S pre claims.familyId) ∧
    (∀ env request header response,
      .exchanged env request header (.ok response) ∈ h → request.grantType = "refresh_token" →
      ∃ token claims i, request.refreshToken = some token ∧
        verifyToken C S C.refreshClaims refreshTokenPrefix refreshTokenLabel token = .ok claims ∧
        (ServerEvent.exchanged env request header (.ok response)).issued C S = some i ∧
        response.refreshToken = refreshTokenOf C S i.refresh ∧
        response.accessToken = accessTokenOf C S i.access ∧ NoHigher claims i) ∧
    (issuedTokens C S h).Pairwise fun i j => i.refresh.familyId = j.refresh.familyId →
      j.refresh.scopes.accessScope ≤ i.refresh.scopes.accessScope ∧
      j.access.scopes.accessScope ≤ i.access.scopes.accessScope := by
  have hi := serverInv_run hr
  refine ⟨?_, ?_, ?_⟩
  · rintro pre token now identity post rfl hprivate
    obtain ⟨s₁, s₂, hpre, ⟨hideal, hstep⟩, _⟩ := hr.split
    have hauth : authenticateBearer C S s₁ token now = .ok identity := by
      generalize hres : Except.ok identity = result at hstep
      cases hstep
      rfl
    have hi₁ := serverInv_run hpre
    obtain ⟨i, hmem, rfl, hscope⟩ := exists_issued_of_authenticated hideal hauth
    have hw := hi₁.wellFormed i hmem
    obtain ⟨record, hstarted, hle⟩ := hw.started
    refine ⟨i.access, verifyToken_accessTokenOf _, ?_⟩
    rw [hw.family]
    refine hstarted.startedByOwner (AccessScope.eq_private_of_le ?_)
    rw [← hprivate, hscope, hw.scopes]
    exact hle
  · intro env request header response hmem hgrant
    obtain ⟨pre, post, rfl⟩ := List.append_of_mem hmem
    obtain ⟨s₁, s₂, _, ⟨_, hstep⟩, _⟩ := hr.split
    cases hstep with
    | exchanged hx =>
      have heff := exchangeToken_effect (C := C) (S := S) s₁ env request header
      rw [hx] at heff
      obtain ⟨p, hp, rfl, _⟩ := heff.rotated_of_ok hgrant
      exact noHigher_of_refreshed hp
  · refine hi.descending.imp_of_mem fun {i j} hmem hmem' hle hk => ?_
    rw [(hi.wellFormed i hmem).scopes, (hi.wellFormed j hmem').scopes]
    exact ⟨hle hk, hle hk⟩

/-- A login with the private scope, and a call with its access token. -/
theorem no_escalation_login :
    ∃ approved response identity s,
      Run (IdealStep Reference.crates Reference.settings) .start
        [.completed Reference.completeEnv Reference.form approved,
          .exchanged Reference.tokenEnv Reference.codeRequest none (.ok response),
          .authenticated (accessTokenOf Reference.crates Reference.settings Reference.accessClaims)
            1790000030 (.ok identity)] s ∧
      identity.scope = .«private» ∧
      StartedByOwner Reference.crates Reference.settings
        [.completed Reference.completeEnv Reference.form approved,
          .exchanged Reference.tokenEnv Reference.codeRequest none (.ok response)]
        Reference.accessClaims.familyId := by
  obtain ⟨p, hp, hclaims, haccess⟩ := Reference.exists_preparePair_code
  have hnow : Reference.tokenEnv.now < Reference.record.expiresAt := by decide
  obtain ⟨approved, s, hrun, hfamily⟩ := exists_run_login Reference.mintedCode_form rfl rfl
    Reference.openCodeExchange_codeRequest (Reference.checkRecord_codeExchange hnow) hp rfl
  -- the access token is accepted
  have hlen : (accessTokenOf Reference.crates Reference.settings
      Reference.accessClaims).utf8ByteSize ≤ maxFormValueLength := by
    rw [utf8ByteSize_accessTokenOf, Reference.jsonSize_accessClaims]
    decide
  have hvalid : Reference.accessClaims.scopes.isValid = true := by decide
  have hnonempty : Reference.accessClaims.familyId ≠ "" := by decide +kernel
  have hexp : (1790000030 : UInt64) < Reference.accessClaims.expiresAt := by decide +kernel
  have hrefreshExp : (1790000030 : UInt64) < Reference.refreshClaims.expiresAt := by decide +kernel
  have hactive : s.refreshTokens.isActive Reference.accessClaims.familyId 1790000030 = true := by
    rw [hclaims] at hfamily
    exact RefreshTokenStore.isActive_iff.mpr ⟨_, hfamily, rfl, hrefreshExp⟩
  obtain ⟨identity, hauth, hscope⟩ :=
    exists_authenticateBearer hlen rfl hvalid hnonempty rfl hexp hactive
  have hprivate : identity.scope = .«private» := by
    rw [hscope]
    decide
  -- and it went out before
  have hissued := issued_exchanged Reference.tokenEnv Reference.codeRequest none
    (preparePair_eq_ok hp).1.refreshToken haccess
  have hmem : (⟨p.claims, Reference.accessClaims⟩ : Issued) ∈
      issuedTokens Reference.crates Reference.settings
        [.completed Reference.completeEnv Reference.form approved,
          .exchanged Reference.tokenEnv Reference.codeRequest none (.ok p.response)] :=
    List.mem_filterMap.mpr ⟨_, List.mem_of_getLast? rfl, hissued⟩
  have hideal : Ideal Reference.crates Reference.settings
      [.completed Reference.completeEnv Reference.form approved,
        .exchanged Reference.tokenEnv Reference.codeRequest none (.ok p.response)]
      (.authenticated (accessTokenOf Reference.crates Reference.settings Reference.accessClaims)
        1790000030 (.ok identity)) := by
    refine ⟨?_, ?_, ?_, ?_⟩
    · rintro token now result ⟨⟩ claims _
      exact ⟨_, hmem, rfl⟩
    · rintro _ _ _ _ ⟨⟩
    · rintro _ _ _ _ ⟨⟩
    · rintro _ _ _ _ ⟨⟩
  have hstep : ServerStep Reference.crates Reference.settings s (.authenticated
      (accessTokenOf Reference.crates Reference.settings Reference.accessClaims)
        1790000030 (.ok identity)) s := by
    rw [← hauth]
    exact .authenticated
  have hrun' := hrun.tail ⟨hideal, hstep⟩
  obtain ⟨claims, hverify, hstarted⟩ := (no_escalation hrun').1 _ _ _ _ [] rfl hprivate
  rw [verifyToken_accessTokenOf] at hverify
  rw [← Except.ok.inj hverify] at hstarted
  exact ⟨approved, p.response, identity, s, hrun', hprivate, hstarted⟩

end EngramMcp
