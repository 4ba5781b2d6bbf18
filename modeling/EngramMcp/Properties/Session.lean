import EngramMcp.OAuth.Reference
import EngramMcp.Properties.TokenLifetime

/-!
# A session goes on

The refresh token of a response is good until it expires. The client that holds it can exchange it
whatever happened in the meantime: other clients, other families, restarts of the server, and
attempts of its own that failed because the state could not be stored. Only two things end that:
an exchange of the token that was answered, and a replay of an older token of the family.

* `exists_installed` — the refresh token of a response, and its entry
* `StoreEffect.keeps_live` — what a call leaves alone
* `refresh_token_stays_good` — the property
-/

namespace EngramMcp

open Infra

variable {C : Crates} {S : OAuthSettings}

/-! ## The refresh token of a response -/

/-- The claims of the refresh token in a response to a client, and their entry in the store. -/
structure Installed (C : Crates) (S : OAuthSettings) (s : OAuthState) (client : RegisteredClient)
    (response : TokenResponse) (claims : RefreshTokenClaims) : Prop where
  token : response.refreshToken = refreshTokenOf C S claims
  version : claims.version = tokenClaimsVersion
  isValid : claims.scopes.isValid = true
  audience : claims.audience = S.resource
  nonempty : claims.familyId ≠ ""
  binding : claims.clientBinding = clientBinding C S client.clientId
  entry : s.refreshTokens.state.families.lookup claims.familyId
    = some ⟨refreshTokenIdHash C S claims.tokenId, claims.expiresAt, false⟩

theorem clientBinding_of_preparePair {env : TokenEnv} {scopes : ScopeGrant}
    {resource clientId : String} {p : PreparedTokens}
    (h : preparePair C S env scopes resource clientId = .ok p) :
    p.claims.clientBinding = clientBinding C S clientId := by
  unfold preparePair at h
  obtain ⟨familyId, -, h⟩ := bind_eq_ok.mp h
  obtain ⟨r, -, h⟩ := bind_eq_ok.mp h
  obtain ⟨tokenId, -, h⟩ := bind_eq_ok.mp h
  obtain rfl := Except.ok.inj h
  rfl

theorem clientBinding_of_prepareTokens {env : TokenEnv} {client : RegisteredClient}
    {claims : RefreshTokenClaims} {scopes : ScopeGrant} {p : PreparedTokens}
    (h : prepareTokens C S env client claims scopes = .ok p) :
    p.claims.clientBinding = clientBinding C S client.clientId := by
  unfold prepareTokens at h
  obtain ⟨r, -, h⟩ := bind_eq_ok.mp h
  obtain ⟨tokenId, -, h⟩ := bind_eq_ok.mp h
  obtain rfl := Except.ok.inj h
  rfl

/-- Well-formed tokens whose store call went through. -/
theorem PreparedTokens.WellFormed.installed {p : PreparedTokens} {k : String} {g : ScopeGrant}
    (hw : p.WellFormed C S k g) {client : RegisteredClient}
    (hbinding : p.claims.clientBinding = clientBinding C S client.clientId) {s : OAuthState}
    (hentry : s.refreshTokens.state.families.lookup k
      = some ⟨refreshTokenIdHash C S p.claims.tokenId, p.claims.expiresAt, false⟩) :
    Installed C S s client p.response p.claims where
  token := hw.refreshToken
  version := hw.version
  isValid := by rw [hw.scopes]; exact hw.isValid
  audience := hw.audience
  nonempty := by rw [hw.family]; exact hw.nonempty
  binding := hbinding
  entry := by rw [hw.family]; exact hentry

/-- **Every response installs its refresh token.** -/
theorem exists_installed {s s' : OAuthState} {env : TokenEnv} {request : TokenRequest}
    {header : Option String} {response : TokenResponse}
    (hx : exchangeToken C S s env request header = (s', .ok response)) :
    ∃ client claims, authenticateClient C S request header = .ok client ∧
      Installed C S s' client response claims := by
  have heff := exchangeToken_effect (C := C) (S := S) s env request header
  rw [hx] at heff
  generalize hres : Except.ok response = result at heff
  cases heff with
  | refused => cases hres
  | @redeemed x record p store answer hgrant hopen _ _ hp hcall =>
    cases answer with
    | error e => cases hres
    | ok _ =>
      obtain rfl := Except.ok.inj hres
      have hentry : store.state.families.lookup p.claims.familyId
          = some ⟨refreshTokenIdHash C S p.claims.tokenId, p.claims.expiresAt, false⟩ := by
        have hstore := effect_of_ok hcall
        generalize store.state = state at hstore
        cases hstore with
        | created => exact RefreshTokenState.lookup_set_self _ _ _
      exact ⟨x.client, p.claims, (openCodeExchange_eq_ok hopen).2.2.2.2.2,
        (preparePair_eq_ok hp).1.installed (clientBinding_of_preparePair hp) hentry⟩
  | @refreshed p store answer hgrant hp hcall =>
    cases answer with
    | error e => cases hres
    | ok _ =>
      obtain rfl := Except.ok.inj hres
      obtain ⟨client, scopes, hopen, -, -, htokens⟩ := prepareRotation_eq_ok hp
      obtain ⟨_, -, -, -, hclient, -⟩ := openRefreshToken_eq_ok.mp hopen
      have hentry : store.state.families.lookup p.presented.familyId
          = some ⟨refreshTokenIdHash C S p.tokens.claims.tokenId, p.tokens.claims.expiresAt,
            false⟩ := by
        have hstore := effect_of_ok hcall
        generalize store.state = state at hstore
        cases hstore with
        | rotated _ hr _ =>
          refine (RefreshTokenState.lookup_set_self _ _ _).trans ?_
          rw [hr]
      exact ⟨client, p.tokens.claims, hclient, (prepareTokens_eq_ok htokens).1.installed
        (clientBinding_of_prepareTokens htokens) hentry⟩

/-! ## What leaves a token alone -/

/-- The event uses up the token: it is exchanged for a new one, or an older one is replayed. -/
def ServerEvent.UsesUp (C : Crates) (S : OAuthSettings) (good : RefreshTokenClaims) :
    ServerEvent → Prop
  | .exchanged _ request _ result => request.grantType = "refresh_token" ∧ ∃ token claims,
    request.refreshToken = some token ∧
    verifyToken C S C.refreshClaims refreshTokenPrefix refreshTokenLabel token = .ok claims ∧
    claims.familyId = good.familyId ∧
    (refreshTokenIdHash C S claims.tokenId = refreshTokenIdHash C S good.tokenId →
      ∃ response, result = .ok response)
  | _ => False

/-- A call that rotates the family with its active token, and fails, leaves it alone; so does every
call that does not rotate it. -/
theorem StoreEffect.keeps_live {st st' : RefreshTokenState} {c : StoreCall}
    {r : Except OAuthError Unit} (h : StoreEffect st c r st') {k : String} {f : RefreshTokenFamily}
    (hf : st.families.lookup k = some f) (hr : f.revoked = false) (hlive : c.now < f.expiresAt)
    (hown : ∀ presented next expiresAt now, c = .rotate k presented next expiresAt now →
      f.activeTokenHash = presented ∧ r ≠ .ok ()) : st'.families.lookup k = some f := by
  have hfp : (st.pruned c.now).families.lookup k = some f :=
    RefreshTokenState.lookup_pruned_eq_some.mpr ⟨hf, hlive⟩
  by_cases hk : k = c.familyId
  · subst hk
    rcases h.lookup_live hf hr hlive with
      hsame | ⟨k, presented, next, expiresAt, now, rfl, hrotate⟩
    · exact hsame
    · obtain ⟨hpresented, hnot⟩ := hown presented next expiresAt now rfl
      cases h with
      | unknown hnone => exact absurd (hnone.symm.trans hfp) (by simp)
      | dead hg hgr =>
        obtain rfl := Option.some.inj (hg.symm.trans hfp)
        rw [hr] at hgr
        cases hgr
      | replayed hg _ hne =>
        obtain rfl := Option.some.inj (hg.symm.trans hfp)
        exact absurd hpresented hne
      | rotated => exact absurd rfl hnot
  · have hpruned := h.lookup_pruned hk (UInt64.le_refl c.now)
    exact (RefreshTokenState.lookup_pruned_eq_some.mp (hpruned.trans hfp)).1

/-- The entry of the token is as it was installed. -/
def IsGood (C : Crates) (S : OAuthSettings) (good : RefreshTokenClaims) (s : OAuthState) : Prop :=
  s.refreshTokens.InSync ∧ s.refreshTokens.state.families.lookup good.familyId
    = some ⟨refreshTokenIdHash C S good.tokenId, good.expiresAt, false⟩

/-- A call on the store that does not use up the token. -/
theorem IsGood.call {good : RefreshTokenClaims} {s : OAuthState} (hg : IsGood C S good s)
    {io : PersistIo} {c : StoreCall} {store : RefreshTokenStore} {answer : Except OAuthError Unit}
    (hcall : s.refreshTokens.call io c = (store, answer)) (hnow : c.now < good.expiresAt)
    (hown : ∀ presented next expiresAt now,
      c = .rotate good.familyId presented next expiresAt now →
      refreshTokenIdHash C S good.tokenId = presented ∧ answer ≠ .ok ())
    (codes : HashMap Digest AuthorizationCode) : IsGood C S good ⟨codes, store⟩ := by
  refine ⟨inSync_of_call hg.1 hcall, ?_⟩
  have heff := s.refreshTokens.call_effect io c
  rw [hcall] at heff
  rcases heff with heff | ⟨hstate, -⟩
  · exact heff.keeps_live hg.2 rfl hnow hown
  · show store.state.families.lookup good.familyId = _
    rw [show store.state = s.refreshTokens.state from hstate]
    exact hg.2

/-- **A step that does not use up the token leaves it good.** -/
theorem IsGood.step {good : RefreshTokenClaims} {s s' : OAuthState} {e : ServerEvent}
    (hg : IsGood C S good s)
    (hq : ¬e.UsesUp C S good ∧ ∀ u, e.Reads u → u < good.expiresAt)
    (hs : ServerStep C S s e s') : IsGood C S good s' := by
  obtain ⟨hunused, hclock⟩ := hq
  cases hs with
  | registered | began | authenticated => exact hg
  | completed hc =>
    unfold IsGood
    rw [refreshTokens_of_completed hc]
    exact hg
  | restarted hopen =>
    obtain ⟨hsync, hsame⟩ := RefreshTokenStore.open_inSync hg.1 hopen
    exact ⟨hsync, (hsame.2 _).trans hg.2⟩
  | @exchanged _ env request header result hx =>
    have heff := exchangeToken_effect (C := C) (S := S) s env request header
    rw [hx] at heff
    clear hx
    cases heff with
    | refused => exact hg
    | redeemed _ _ _ _ _ hcall =>
      refine hg.call hcall (hclock env.issuedAt (Or.inr (Or.inl rfl))) ?_ _
      intro _ _ _ _ he
      cases he
    | @refreshed p store answer hgrant hp hcall =>
      refine hg.call hcall (hclock env.now (Or.inl rfl)) ?_ _
      intro presented next expiresAt now he
      obtain ⟨hk, rfl, -, -, -⟩ := StoreCall.rotate.inj he
      obtain ⟨_, _, hopen, -⟩ := prepareRotation_eq_ok hp
      obtain ⟨token, ht, -, -, -, hv⟩ := openRefreshToken_eq_ok.mp hopen
      -- otherwise the call used up the token
      by_contra hnot
      refine hunused ⟨hgrant, token, p.presented, ht, hv, hk, fun hsame => ?_⟩
      cases answer with
      | ok _ => exact ⟨_, rfl⟩
      | error e => exact absurd ⟨hsame.symm, by simp⟩ hnot

/-! ## The property -/

/--
**A refresh token stays good.**

After a response was sent, in any run of the server in which no clock passes the expiry of the
refresh token, no refresh with that token is answered, and no other token of its family is
presented: the client can exchange it, for scopes it covers, and gets the next token of the family.
The token has to fit a form field, of 8192 bytes.
-/
theorem refresh_token_stays_good {pre post : List ServerEvent} {s : OAuthState}
    {env₀ env : TokenEnv} {request₀ request : TokenRequest} {header₀ header : Option String}
    {response₀ : TokenResponse} {claims : RefreshTokenClaims} {scopes : ScopeGrant}
    (hr : Run (fun _ => ServerStep C S) .start
      (pre ++ .exchanged env₀ request₀ header₀ (.ok response₀) :: post) s)
    (hclaims : verifyToken C S C.refreshClaims refreshTokenPrefix refreshTokenLabel
      response₀.refreshToken = .ok claims)
    (hunused : ∀ e ∈ post, ¬e.UsesUp C S claims)
    (hclock : ∀ e ∈ post, ∀ u, e.Reads u → u < claims.expiresAt)
    (hgrant : request.grantType = "refresh_token")
    (hclient : authenticateClient C S request header = authenticateClient C S request₀ header₀)
    (hresource : request.resource = S.resource)
    (htoken : request.refreshToken = some response₀.refreshToken)
    (hlen : response₀.refreshToken.utf8ByteSize ≤ maxFormValueLength)
    (hscopes : refreshedScopes claims request.scope = .ok scopes)
    (haccessDraw : env.accessDraw.isSome = true) (htokenDraw : env.tokenDraw.isSome = true)
    (hio : env.io = .completes) (hnow : env.now < claims.expiresAt) :
    ∃ s' response next, exchangeToken C S s env request header = (s', .ok response) ∧
      verifyToken C S C.refreshClaims refreshTokenPrefix refreshTokenLabel response.refreshToken
        = .ok next ∧ next.familyId = claims.familyId ∧ next.scopes = scopes := by
  obtain ⟨s₁, s₂, hpre, hstep, hpost⟩ := hr.split
  have hsync : s₂.refreshTokens.InSync := inSync_run (hpre.tail hstep)
  cases hstep with
  | exchanged hx =>
    obtain ⟨client, good, hclient₀, hgood⟩ := exists_installed hx
    obtain rfl : good = claims := by
      rw [hgood.token, verifyToken_refreshTokenOf] at hclaims
      exact Except.ok.inj hclaims
    have hlast : IsGood C S good s := by
      rw [show pre ++ ServerEvent.exchanged env₀ request₀ header₀ (.ok response₀) :: post
        = (pre ++ [.exchanged env₀ request₀ header₀ (.ok response₀)]) ++ post by simp] at hpost
      exact Steps.stays (fun _ _ _ _ hg hq hs => hg.step hq hs) ⟨hsync, hgood.entry⟩ hpost
        fun e he => ⟨hunused e he, hclock e he⟩
    have hcheck : checkRefreshClaims C S client good env.now = .ok () :=
      checkRefreshClaims_eq_ok.mpr
        ⟨hgood.version, hgood.isValid, hgood.audience, hnow, hgood.binding⟩
    obtain ⟨p, hp⟩ := (exists_prepareRotation_iff (hclient.trans hclient₀) hresource htoken hclaims
      hcheck hgood.nonempty).mpr ⟨hlen, ⟨scopes, hscopes⟩, haccessDraw, htokenDraw⟩
    obtain ⟨_, scopes', hopen, -, hscopes', htokens⟩ := prepareRotation_eq_ok hp
    obtain ⟨token, ht, -, -, -, hv⟩ := openRefreshToken_eq_ok.mp hopen
    obtain rfl := Option.some.inj (htoken.symm.trans ht)
    have hpresented : good = p.presented := Except.ok.inj (hclaims.symm.trans hv)
    rw [← hpresented] at hscopes' htokens
    obtain rfl := Except.ok.inj (hscopes.symm.trans hscopes')
    have hw := (prepareTokens_eq_ok htokens).1
    obtain ⟨store, hcall, -⟩ := RefreshTokenStore.call_rotate hlast.2 rfl
      (refreshTokenIdHash C S p.tokens.claims.tokenId) p.tokens.claims.expiresAt hnow
    have hrotate : rotateFamily C S s.refreshTokens env p = (store, .ok ()) := by
      rw [rotateFamily, hio, ← hpresented]
      exact hcall
    refine ⟨⟨s.authorizationCodes, store⟩, p.tokens.response, p.tokens.claims, ?_, ?_, hw.family,
      hw.scopes⟩
    · rw [exchangeToken_refresh hgrant, exchangeRefreshToken, hp]
      simp only [hrotate]
      rfl
    · rw [hw.refreshToken]
      exact verifyToken_refreshTokenOf _

/-- A refresh whose new state cannot be stored is not answered. -/
theorem not_answered_of_fails {s s' : OAuthState} {env : TokenEnv} {request : TokenRequest}
    {header : Option String} {response : TokenResponse} {step : PersistStep}
    (hgrant : request.grantType = "refresh_token") (hio : env.io = .fails step) :
    exchangeToken C S s env request header ≠ (s', .ok response) := by
  intro hx
  have heff := exchangeToken_effect (C := C) (S := S) s env request header
  rw [hx] at heff
  obtain ⟨p, -, -, hcall⟩ := heff.rotated_of_ok hgrant
  have hok := congrArg Prod.snd hcall
  rw [PreparedRotation.rotateCall, RefreshTokenStore.call, rotate_eq_ok_iff, hio] at hok
  cases hok.1

namespace Reference

/-- The first attempt to refresh: the disk is full. -/
def fullDiskEnv : TokenEnv := { refreshEnv with io := .fails (.write 0) }

/-- The client tries again, and gets the next token. -/
theorem refresh_token_stays_good_retry : ∃ s s' response next,
    exchangeToken crates settings s refreshEnv (refreshRequest none) none = (s', .ok response) ∧
    verifyToken crates settings crates.refreshClaims refreshTokenPrefix refreshTokenLabel
      response.refreshToken = .ok next ∧ next.familyId = refreshClaims.familyId ∧
    next.scopes = refreshClaims.scopes := by
  have hnow : tokenEnv.now < record.expiresAt := by decide
  obtain ⟨p, hp, hclaims, -⟩ := exists_preparePair_code
  obtain ⟨approved, s₁, hrun, -⟩ := exists_run_login mintedCode_form rfl rfl
    openCodeExchange_codeRequest (checkRecord_codeExchange hnow) hp rfl
  obtain ⟨s₂, result, hx⟩ : ∃ s₂ result, exchangeToken crates settings s₁ fullDiskEnv
    (refreshRequest none) none = (s₂, result) := ⟨_, _, Prod.mk.eta.symm⟩
  have hfailed : Run (fun _ => ServerStep crates settings) .start
      ([.completed completeEnv form approved] ++ .exchanged tokenEnv codeRequest none
        (.ok p.response) :: [.exchanged fullDiskEnv (refreshRequest none) none result]) s₂ :=
    (hrun.mono fun _ _ _ _ hs => hs.2).tail (.exchanged hx)
  have htoken : p.response.refreshToken = refreshTokenOf crates settings refreshClaims := by
    rw [(preparePair_eq_ok hp).1.refreshToken, hclaims]
  have hverify : verifyToken crates settings crates.refreshClaims refreshTokenPrefix
      refreshTokenLabel p.response.refreshToken = .ok refreshClaims := by
    rw [htoken]
    exact verifyToken_refreshTokenOf _
  have hunused : ¬(ServerEvent.exchanged fullDiskEnv (refreshRequest none) none result).UsesUp
      crates settings refreshClaims := by
    rintro ⟨-, token, claims, ht, hv, -, hanswer⟩
    obtain rfl := Option.some.inj ht
    rw [verifyToken_refreshTokenOf] at hv
    obtain rfl := Except.ok.inj hv
    obtain ⟨response, rfl⟩ := hanswer rfl
    exact not_answered_of_fails rfl rfl hx
  have hclock : ∀ u, (ServerEvent.exchanged fullDiskEnv (refreshRequest none) none result).Reads u →
      u < refreshClaims.expiresAt := by
    have hexp : (1790000100 : UInt64) < refreshClaims.expiresAt := by decide +kernel
    rintro u (rfl | rfl | rfl)
    · exact hexp
    · exact hexp
    · exact hexp
  have hsame : authenticateClient crates settings (refreshRequest none) none
      = authenticateClient crates settings codeRequest none := by
    rw [authenticateClient_clientId rfl rfl, authenticateClient_clientId rfl rfl]
  have hlen : p.response.refreshToken.utf8ByteSize ≤ maxFormValueLength := by
    rw [htoken]
    exact utf8ByteSize_refreshToken
  have hallow : refreshClaims.scopes.allows refreshClaims.scopes = true := by decide
  have hexp : refreshEnv.now < refreshClaims.expiresAt := by decide +kernel
  refine ⟨s₂, refresh_token_stays_good hfailed hverify ?_ ?_ rfl hsame rfl ?_ hlen
    (refreshedScopes_eq_ok.mpr ⟨rfl, hallow⟩) rfl rfl rfl hexp⟩
  · intro e he
    rw [List.mem_singleton.mp he]
    exact hunused
  · intro e he
    rw [List.mem_singleton.mp he]
    exact hclock
  · rw [htoken]
    rfl

end Reference

end EngramMcp
