import EngramMcp.Kb.Reference
import EngramMcp.OAuth.ServerRun
import EngramMcp.Properties.RefreshFrame

/-!
# The lifetime of an access token

A response of the token endpoint says for how many seconds its access token is good. The token
carries its own expiry, and it is accepted only while its family is live; the two lifetimes are
configured separately, each in its own range.

* `exists_granted` — what a response was granted for, and the entry of its family
* `isActive_calmStep` — a step without a replay leaves the family active
* `lifetime_honoured_iff` — the response keeps its word if and only if the family lives as long as
  the token, the token is short enough to be looked at, and the clock does not run out
-/

namespace EngramMcp

open Infra

/-! ## The configured lifetimes -/

/-- A configured access token lives for a minute at least and an hour at most. -/
theorem accessTokenTtl_mem_range {K : ConfigCrates} {lookup : Lookup} {config : OAuthConfig}
    (h : oauthFromLookup K lookup = .ok config) :
    60 ≤ config.accessTokenTtlSeconds.toNat ∧ config.accessTokenTtlSeconds.toNat ≤ 3600 := by
  unfold oauthFromLookup at h
  obtain ⟨issuer, _, h⟩ := bind_eq_ok.mp h
  obtain ⟨resource, _, h⟩ := bind_eq_ok.mp h
  obtain ⟨ownerSecret, _, h⟩ := bind_eq_ok.mp h
  obtain ⟨signingKey, _, h⟩ := bind_eq_ok.mp h
  obtain ⟨ttl, httl, h⟩ := bind_eq_ok.mp h
  obtain ⟨codeTtl, _, h⟩ := bind_eq_ok.mp h
  obtain ⟨dir, _, h⟩ := bind_eq_ok.mp h
  obtain ⟨refreshTtl, _, h⟩ := bind_eq_ok.mp h
  obtain ⟨_, _, h⟩ := bind_eq_ok.mp h
  obtain rfl := Except.ok.inj h
  have hrange := mem_range_of_parseInRange httl
  have hnat : (UInt64.ofNat ttl).toNat = ttl := UInt64.toNat_ofNat_of_lt' (by
    have hsize : UInt64.size = 18446744073709551616 := rfl
    omega)
  show 60 ≤ (UInt64.ofNat ttl).toNat ∧ (UInt64.ofNat ttl).toNat ≤ 3600
  rw [hnat]
  exact hrange

theorem toNat_saturatingAdd (a b : UInt64) :
    (saturatingAdd a b).toNat = min (a.toNat + b.toNat) (2 ^ 64 - 1) := by
  unfold saturatingAdd UInt64.ofNatClamp
  have hsize : UInt64.size = 18446744073709551616 := rfl
  split
  · rw [UInt64.toNat_ofNatLT]
    omega
  · rw [UInt64.toNat_ofNatLT]
    omega

/-! ## What a response is granted for -/

section

variable (C : Crates) (S : OAuthSettings)

/-- The claims of the access token of a response. -/
def grantedClaims (env : TokenEnv) (scopes : ScopeGrant) (familyId : String) (b : Digest) :
    AccessTokenClaims where
  version := tokenClaimsVersion
  tokenId := "ati_" ++ Base64.urlSafe.encode b.1
  familyId := familyId
  scopes := scopes
  audience := S.resource
  issuedAt := env.accessIssuedAt
  expiresAt := saturatingAdd env.accessIssuedAt S.accessTokenTtlSeconds

/-- The length of the access token of a response, from what it is granted for. -/
def accessTokenSize (env : TokenEnv) (scopes : ScopeGrant) (familyId : String) : Nat :=
  (4 * (140 + Json.escapedLength familyId + scopes.jsonSize + Json.escapedLength S.resource
    + (Nat.toDigits 10 env.accessIssuedAt.toNat).length
    + (Nat.toDigits 10 (saturatingAdd env.accessIssuedAt S.accessTokenTtlSeconds).toNat).length)
    + 2) / 3 + 47

/-- The scopes and the family a call is granted, and the reading of the clock that the expiry of
the family counts from. -/
inductive Granted (s : OAuthState) (env : TokenEnv) (request : TokenRequest)
    (header : Option String) : ScopeGrant → String → UInt64 → Prop
  | code {x : CodeExchange} {record : AuthorizationCode} {b : Digest} :
      request.grantType = "authorization_code" →
      openCodeExchange C S request header = .ok x →
      s.authorizationCodes.lookup (tokenHash C S x.code) = some record →
      env.familyDraw = some b →
      Granted s env request header record.scopes ("rf_" ++ Base64.urlSafe.encode b.1) env.issuedAt
  | refresh {client : RegisteredClient} {claims : RefreshTokenClaims} {scopes : ScopeGrant} :
      request.grantType = "refresh_token" →
      openRefreshToken C S request header = .ok (client, claims) →
      refreshedScopes claims request.scope = .ok scopes →
      Granted s env request header scopes claims.familyId env.now

/-- The response answers a call that was granted these scopes for this family. -/
structure TokenResponse.Answers (response : TokenResponse) (env : TokenEnv) (scopes : ScopeGrant)
    (familyId : String) : Prop where
  nonempty : familyId ≠ ""
  isValid : scopes.isValid = true
  expiresIn : response.expiresIn = S.accessTokenTtlSeconds
  accessToken : ∃ b, response.accessToken
    = accessTokenOf C S (grantedClaims S env scopes familyId b)

end

variable {C : Crates} {S : OAuthSettings}

/-- A call is granted one thing. -/
theorem Granted.unique {s : OAuthState} {env : TokenEnv} {request : TokenRequest}
    {header : Option String} {scopes scopes' : ScopeGrant} {k k' : String} {u u' : UInt64}
    (h : Granted C S s env request header scopes k u)
    (h' : Granted C S s env request header scopes' k' u') : scopes = scopes' ∧ k = k' ∧ u = u' := by
  cases h with
  | code hgrant hopen hrecord hdraw =>
    cases h' with
    | code _ hopen' hrecord' hdraw' =>
      obtain rfl := Except.ok.inj (hopen.symm.trans hopen')
      obtain rfl := Option.some.inj (hrecord.symm.trans hrecord')
      obtain rfl := Option.some.inj (hdraw.symm.trans hdraw')
      exact ⟨rfl, rfl, rfl⟩
    | refresh hgrant' => exact absurd (hgrant.symm.trans hgrant') (by decide)
  | refresh hgrant hopen hscopes =>
    cases h' with
    | code hgrant' => exact absurd (hgrant.symm.trans hgrant') (by decide)
    | refresh _ hopen' hscopes' =>
      obtain ⟨rfl, rfl⟩ := Prod.mk.inj (Except.ok.inj (hopen.symm.trans hopen'))
      obtain rfl := Except.ok.inj (hscopes.symm.trans hscopes')
      exact ⟨rfl, rfl, rfl⟩

theorem issueAccessToken_answer {env : TokenEnv} {scopes : ScopeGrant} {resource k : String}
    {r : String × UInt64}
    (h : issueAccessToken C S scopes resource k env.accessIssuedAt env.accessDraw = .ok r) :
    ∃ b, r = (accessTokenOf C S (grantedClaims S env scopes k b), S.accessTokenTtlSeconds) := by
  have hresource := (issueAccessToken_eq_ok h).1
  unfold issueAccessToken at h
  obtain ⟨_, _, h⟩ := bind_eq_ok.mp h
  obtain ⟨tokenId, hdraw, h⟩ := bind_eq_ok.mp h
  obtain ⟨b, _, rfl⟩ := randomValue_eq_ok.mp hdraw
  refine ⟨b, ?_⟩
  rw [← Except.ok.inj h, hresource]
  rfl

/-- The response of the code grant. -/
theorem answers_of_preparePair {env : TokenEnv} {scopes : ScopeGrant} {resource clientId : String}
    {p : PreparedTokens} (h : preparePair C S env scopes resource clientId = .ok p) :
    p.response.Answers C S env scopes p.claims.familyId ∧
      p.claims.expiresAt = saturatingAdd env.issuedAt S.refreshTokenTtlSeconds := by
  obtain ⟨hw, _⟩ := preparePair_eq_ok h
  unfold preparePair at h
  obtain ⟨k, _, h⟩ := bind_eq_ok.mp h
  obtain ⟨r, hr, h⟩ := bind_eq_ok.mp h
  obtain ⟨tokenId, _, h⟩ := bind_eq_ok.mp h
  obtain ⟨b, rfl⟩ := issueAccessToken_answer hr
  obtain rfl := Except.ok.inj h
  exact ⟨⟨hw.nonempty, hw.isValid, rfl, b, rfl⟩, rfl⟩

/-- The response of the refresh grant. -/
theorem answers_of_prepareTokens {env : TokenEnv} {client : RegisteredClient}
    {claims : RefreshTokenClaims} {scopes : ScopeGrant} {p : PreparedTokens}
    (h : prepareTokens C S env client claims scopes = .ok p) :
    p.response.Answers C S env scopes claims.familyId := by
  obtain ⟨hw, _⟩ := prepareTokens_eq_ok h
  unfold prepareTokens at h
  obtain ⟨r, hr, h⟩ := bind_eq_ok.mp h
  obtain ⟨tokenId, _, h⟩ := bind_eq_ok.mp h
  obtain ⟨b, rfl⟩ := issueAccessToken_answer hr
  obtain rfl := Except.ok.inj h
  exact ⟨hw.nonempty, hw.isValid, rfl, b, rfl⟩

/-- **What a response was granted for**, and the entry of its family. -/
theorem exists_granted {s s' : OAuthState} {env : TokenEnv} {request : TokenRequest}
    {header : Option String} {response : TokenResponse}
    (hx : exchangeToken C S s env request header = (s', .ok response)) :
    ∃ scopes k u, Granted C S s env request header scopes k u ∧
      response.Answers C S env scopes k ∧
      ∃ f, s'.refreshTokens.state.families.lookup k = some f ∧ f.revoked = false ∧
        f.expiresAt = saturatingAdd u S.refreshTokenTtlSeconds := by
  have heff := exchangeToken_effect (C := C) (S := S) s env request header
  rw [hx] at heff
  generalize hres : Except.ok response = result at heff
  cases heff with
  | refused => exact nomatch hres
  | @redeemed x record p store answer hgrant hopen hrecord _ hp hcall =>
    cases answer with
    | error e => exact nomatch hres
    | ok _ =>
      obtain rfl := Except.ok.inj hres
      obtain ⟨hanswers, hexp⟩ := answers_of_preparePair hp
      obtain ⟨_, ⟨b, hb, hfamily⟩, _⟩ := preparePair_eq_ok hp
      refine ⟨record.scopes, p.claims.familyId, env.issuedAt, ?_, hanswers, ?_⟩
      · rw [hfamily]
        exact .code hgrant hopen hrecord hb
      · have hstore := effect_of_ok hcall
        show ∃ f, store.state.families.lookup p.claims.familyId = some f ∧ _
        generalize store.state = state at hstore
        cases hstore with
        | created => exact ⟨_, RefreshTokenState.lookup_set_self _ _ _, rfl, hexp⟩
  | @refreshed p store answer hgrant hp hcall =>
    cases answer with
    | error e => exact nomatch hres
    | ok _ =>
      obtain rfl := Except.ok.inj hres
      obtain ⟨client, scopes, hopen, _, hscopes, htokens⟩ := prepareRotation_eq_ok hp
      refine ⟨scopes, p.presented.familyId, env.now, .refresh hgrant hopen hscopes,
        answers_of_prepareTokens htokens, ?_⟩
      have hstore := effect_of_ok hcall
      show ∃ f, store.state.families.lookup p.presented.familyId = some f ∧ _
      generalize store.state = state at hstore
      cases hstore with
      | rotated hf hr _ =>
        exact ⟨_, RefreshTokenState.lookup_set_self _ _ _, hr, expiresAt_of_prepareTokens htokens⟩

theorem utf8ByteSize_grantedClaims (env : TokenEnv) (scopes : ScopeGrant) (k : String)
    (b : Digest) : (accessTokenOf C S (grantedClaims S env scopes k b)).utf8ByteSize
      = accessTokenSize S env scopes k := by
  have hversion : (Nat.toDigits 10 tokenClaimsVersion.toNat).length = 1 := by decide
  have hati : Json.escapedLength "ati_" = 4 := by decide
  have hid : Json.escapedLength ("ati_" ++ Base64.urlSafe.encode b.1) = 47 := by
    rw [Json.escapedLength_append, escapedLength_encode, b.2, hati]
  rw [utf8ByteSize_accessTokenOf, AccessTokenClaims.jsonSize, accessTokenSize]
  simp only [grantedClaims, hversion, hid]

/-! ## Steps without a replay -/

/-- The readings of the clock in a step. -/
def ServerEvent.Reads : ServerEvent → UInt64 → Prop
  | .registered _ now _, u => u = now
  | .began _ now _, u => u = now
  | .completed env _ _, u => u = env.checkedAt ∨ u = env.issuedAt ∨ ∃ hash, u = env.prunedAt hash
  | .exchanged env _ _ _, u => u = env.now ∨ u = env.issuedAt ∨ u = env.accessIssuedAt
  | .authenticated _ now _, u => u = now
  | .restarted _, _ => False

/-- The step presents a refresh token of the family that is not its active one. -/
def ServerEvent.Replays (C : Crates) (S : OAuthSettings) (s : OAuthState) (k : String) :
    ServerEvent → Prop
  | .exchanged _ request _ _ => request.grantType = "refresh_token" ∧ ∃ token claims f,
    request.refreshToken = some token ∧
    verifyToken C S C.refreshClaims refreshTokenPrefix refreshTokenLabel token = .ok claims ∧
    claims.familyId = k ∧ s.refreshTokens.state.families.lookup k = some f ∧
    f.activeTokenHash ≠ refreshTokenIdHash C S claims.tokenId
  | _ => False

/-- A step between two points in time that replays no refresh token of the family. -/
structure CalmStep (C : Crates) (S : OAuthSettings) (k : String) (t now : UInt64)
    (s : OAuthState) (e : ServerEvent) (s' : OAuthState) : Prop where
  step : ServerStep C S s e s'
  calm : ¬e.Replays C S s k
  between : ∀ u, e.Reads u → t ≤ u ∧ u ≤ now

/-- **What a call does to a live family it names.** -/
theorem StoreEffect.lookup_live {st st' : RefreshTokenState} {c : StoreCall}
    {r : Except OAuthError Unit} (h : StoreEffect st c r st') {f : RefreshTokenFamily}
    (hf : st.families.lookup c.familyId = some f) (hr : f.revoked = false)
    (hlive : c.now < f.expiresAt) :
    st'.families.lookup c.familyId = some f ∨
      ∃ k presented next expiresAt now, c = .rotate k presented next expiresAt now ∧
        (f.activeTokenHash ≠ presented ∨ st'.families.lookup c.familyId
          = some { f with activeTokenHash := next, expiresAt := expiresAt }) := by
  have hfp : (st.pruned c.now).families.lookup c.familyId = some f :=
    RefreshTokenState.lookup_pruned_eq_some.mpr ⟨hf, hlive⟩
  cases h with
  | rejected => exact Or.inl hf
  | created hnone => exact absurd (hnone.symm.trans hfp) (by simp)
  | unknown hnone => exact absurd (hnone.symm.trans hfp) (by simp)
  | dead hg hgr =>
    obtain rfl := Option.some.inj (hg.symm.trans hfp)
    rw [hr] at hgr
    exact nomatch hgr
  | replayed hg _ hne =>
    obtain rfl := Option.some.inj (hg.symm.trans hfp)
    exact Or.inr ⟨_, _, _, _, _, rfl, Or.inl hne⟩
  | rotated hg _ _ =>
    obtain rfl := Option.some.inj (hg.symm.trans hfp)
    exact Or.inr ⟨_, _, _, _, _, rfl, Or.inr (RefreshTokenState.lookup_set_self _ _ _)⟩

/-- A call on the store leaves a family active, if a rotation of it presents the active token and
extends its life. -/
theorem isActive_call {store store' : RefreshTokenStore} {io : PersistIo} {c : StoreCall}
    {answer : Except OAuthError Unit} (hcall : store.call io c = (store', answer)) {k : String}
    {now : UInt64} (hactive : store.isActive k now = true) (hnow : c.now ≤ now)
    (hown : ∀ presented next expiresAt u, c = .rotate k presented next expiresAt u →
      now < expiresAt ∧ ∀ f, store.state.families.lookup k = some f →
        f.activeTokenHash = presented) : store'.isActive k now = true := by
  by_cases hk : k = c.familyId
  · obtain ⟨f, hf, hr, hlive⟩ := RefreshTokenStore.isActive_iff.mp hactive
    have heff := store.call_effect io c
    rw [hcall] at heff
    rcases heff with heff | ⟨hstate, _⟩
    · subst hk
      rcases heff.lookup_live hf hr (UInt64.lt_of_le_of_lt hnow hlive) with
        hsame | ⟨k, presented, next, expiresAt, u, rfl, hrotate⟩
      · exact RefreshTokenStore.isActive_iff.mpr ⟨f, hsame, hr, hlive⟩
      · obtain ⟨hexp, hpresented⟩ := hown presented next expiresAt u rfl
        rcases hrotate with hne | hnew
        · exact absurd (hpresented f hf) hne
        · exact RefreshTokenStore.isActive_iff.mpr ⟨_, hnew, hr, hexp⟩
    · refine RefreshTokenStore.isActive_iff.mpr ⟨f, ?_, hr, hlive⟩
      have hstate' : store'.state = store.state := hstate
      rw [hstate']
      exact hf
  · have hframe := isActive_eq_of_sameFrom (sameFrom_call store io c hk) hnow
    rw [hcall] at hframe
    rw [← hactive]
    exact hframe

/-- The consent page does not touch the store. -/
theorem refreshTokens_of_completed {s s' : OAuthState} {env : CompleteEnv} {form : ApprovalForm}
    {result : Except OAuthError AuthorizationRedirect}
    (hc : completeAuthorization C S s env form = (s', result)) :
    s'.refreshTokens = s.refreshTokens := by
  rw [← refreshTokens_completeAuthorization (C := C) (S := S) s, hc]

/-- **A step without a replay leaves the family active**, at any time before the lifetime of an
access token has passed. -/
theorem isActive_calmStep {k : String} {t now : UInt64} {s s' : OAuthState} {e : ServerEvent}
    (hle : S.accessTokenTtlSeconds ≤ S.refreshTokenTtlSeconds)
    (hnow : now.toNat < t.toNat + S.accessTokenTtlSeconds.toNat)
    (hclock : t.toNat + S.accessTokenTtlSeconds.toNat < 2 ^ 64)
    (hs : s.refreshTokens.InSync ∧ s.refreshTokens.isActive k now = true)
    (h : CalmStep C S k t now s e s') :
    s'.refreshTokens.InSync ∧ s'.refreshTokens.isActive k now = true := by
  obtain ⟨hsync, hactive⟩ := hs
  cases h.step with
  | registered => exact ⟨hsync, hactive⟩
  | began => exact ⟨hsync, hactive⟩
  | authenticated => exact ⟨hsync, hactive⟩
  | completed hc =>
    rw [refreshTokens_of_completed hc]
    exact ⟨hsync, hactive⟩
  | restarted hopen =>
    obtain ⟨hsync', hsame⟩ := RefreshTokenStore.open_inSync hsync hopen
    refine ⟨hsync', ?_⟩
    rw [← hactive]
    exact RefreshTokenStore.isActive_congr hsame k now
  | @exchanged _ env request header result hx =>
    have heff := exchangeToken_effect (C := C) (S := S) s env request header
    rw [hx] at heff
    have hreadsNow := h.between env.now (Or.inl rfl)
    have hreadsIssued := h.between env.issuedAt (Or.inr (Or.inl rfl))
    have hcalm := h.calm
    clear h hx
    cases heff with
    | refused _ => exact ⟨hsync, hactive⟩
    | redeemed _ _ _ _ _ hcall =>
      refine ⟨inSync_of_call hsync hcall, isActive_call hcall hactive hreadsIssued.2 ?_⟩
      intro presented next expiresAt u he
      exact nomatch he
    | @refreshed p store answer hgrant hp hcall =>
      obtain ⟨client, scopes, hopen, _, _, htokens⟩ := prepareRotation_eq_ok hp
      obtain ⟨token, ht, _, _, _, hv⟩ := openRefreshToken_eq_ok.mp hopen
      refine ⟨inSync_of_call hsync hcall, isActive_call hcall hactive hreadsNow.2 ?_⟩
      intro presented next expiresAt u he
      obtain ⟨hk, rfl, rfl, rfl, rfl⟩ := StoreCall.rotate.inj he
      refine ⟨?_, ?_⟩
      · -- the new expiry counts from a reading after `t`
        have hexp : p.tokens.claims.expiresAt = saturatingAdd env.now S.refreshTokenTtlSeconds :=
          expiresAt_of_prepareTokens htokens
        have htnow := UInt64.le_iff_toNat_le.mp hreadsNow.1
        have hle' := UInt64.le_iff_toNat_le.mp hle
        rw [hexp, UInt64.lt_iff_toNat_lt, toNat_saturatingAdd]
        omega
      · intro f hf
        by_contra hne
        exact hcalm ⟨hgrant, token, p.presented, f, ht, hv, hk, hf, hne⟩

/-! ## The property -/

/-- The response keeps its word: its access token is accepted as long as it says, whatever happens
in the meantime but a replay. -/
def Honoured (C : Crates) (S : OAuthSettings) (s : OAuthState) (t : UInt64)
    (response : TokenResponse) : Prop :=
  ∃ claims, verifyToken C S C.accessClaims accessTokenPrefix accessTokenLabel
      response.accessToken = .ok claims ∧
    ∀ now, t ≤ now → now.toNat < t.toNat + response.expiresIn.toNat →
    ∀ h s', Run (fun _ => CalmStep C S claims.familyId t now) s h s' →
      ∃ identity, authenticateBearer C S s' response.accessToken now = .ok identity

/-- The lifetimes fit: the family lives as long as the token, the clock does not run out, and the
token is one that `authenticate_bearer` looks at. -/
structure LifetimeFits (C : Crates) (S : OAuthSettings) (s : OAuthState) (env : TokenEnv)
    (request : TokenRequest) (header : Option String) : Prop where
  ttl : S.accessTokenTtlSeconds ≤ S.refreshTokenTtlSeconds
  clock : env.now.toNat + S.accessTokenTtlSeconds.toNat < 2 ^ 64
  length : ∀ scopes k u, Granted C S s env request header scopes k u →
    accessTokenSize S env scopes k ≤ maxFormValueLength

/-- The rest of what an accepted bearer token is. -/
theorem authenticateBearer_bounds {state : OAuthState} {token : String} {now : UInt64}
    {identity : OAuthIdentity} {claims : AccessTokenClaims}
    (h : authenticateBearer C S state token now = .ok identity)
    (hv : verifyToken C S C.accessClaims accessTokenPrefix accessTokenLabel token = .ok claims) :
    token.utf8ByteSize ≤ maxFormValueLength ∧ now < claims.expiresAt ∧
      state.refreshTokens.isActive claims.familyId now = true := by
  unfold authenticateBearer at h
  obtain ⟨_, hlen, h⟩ := bind_eq_ok.mp h
  obtain ⟨claims', hv', h⟩ := bind_eq_ok.mp h
  obtain ⟨_, hclaims, h⟩ := bind_eq_ok.mp h
  obtain ⟨_, hactive, _⟩ := bind_eq_ok.mp h
  obtain rfl := Except.ok.inj (hv.symm.trans (mapError_eq_ok.mp hv'))
  simp only [rejectIf_eq_ok, Bool.or_eq_false_iff, decide_eq_false_iff_not, Nat.not_lt] at hlen
  simp only [rejectIf_eq_ok, Bool.or_eq_false_iff, decide_eq_false_iff_not, UInt64.not_le]
    at hclaims
  rw [rejectIf_eq_ok, Bool.not_eq_false'] at hactive
  exact ⟨hlen.1, hclaims.2, hactive⟩

section

variable {s s' : OAuthState} {env : TokenEnv} {request : TokenRequest} {header : Option String}
  {response : TokenResponse}

/-- Lifetimes that fit are honoured. -/
theorem honoured_of_fits (hsync : s'.refreshTokens.InSync)
    (hx : exchangeToken C S s env request header = (s', .ok response))
    (hissued : env.now ≤ env.issuedAt) (haccess : env.now ≤ env.accessIssuedAt)
    (hfits : LifetimeFits C S s env request header) : Honoured C S s' env.now response := by
  obtain ⟨scopes, k, u, hgranted, hanswers, f, hf, hr, hexp⟩ := exists_granted hx
  obtain ⟨b, hb⟩ := hanswers.accessToken
  have hle := UInt64.le_iff_toNat_le.mp hfits.ttl
  have hclock := hfits.clock
  have hu : env.now ≤ u := by
    cases hgranted with
    | code => exact hissued
    | refresh => exact UInt64.le_refl _
  refine ⟨grantedClaims S env scopes k b, by rw [hb]; exact verifyToken_accessTokenOf _, ?_⟩
  intro now ht hnow h s'' hrun
  rw [hanswers.expiresIn] at hnow
  -- the family is live at that time, and no step in between ends it
  have hactive : s'.refreshTokens.isActive k now = true := by
    refine RefreshTokenStore.isActive_iff.mpr ⟨f, hf, hr, ?_⟩
    have hun := UInt64.le_iff_toNat_le.mp hu
    rw [hexp, UInt64.lt_iff_toNat_lt, toNat_saturatingAdd]
    omega
  have hinv : s''.refreshTokens.InSync ∧ s''.refreshTokens.isActive k now = true :=
    Steps.invariant (P := fun _ s => s.refreshTokens.InSync ∧ s.refreshTokens.isActive k now = true)
      (fun _ _ _ _ hs hstep => isActive_calmStep hfits.ttl hnow hclock hs hstep)
      ⟨hsync, hactive⟩ hrun
  have hlen : (accessTokenOf C S (grantedClaims S env scopes k b)).utf8ByteSize
      ≤ maxFormValueLength := by
    rw [utf8ByteSize_grantedClaims]
    exact hfits.length scopes k u hgranted
  have hunexpired : now < (grantedClaims S env scopes k b).expiresAt := by
    have han := UInt64.le_iff_toNat_le.mp haccess
    show now < saturatingAdd env.accessIssuedAt S.accessTokenTtlSeconds
    rw [UInt64.lt_iff_toNat_lt, toNat_saturatingAdd]
    omega
  rw [hb]
  obtain ⟨identity, hidentity, _⟩ := exists_authenticateBearer hlen rfl hanswers.isValid
    hanswers.nonempty rfl hunexpired hinv.2
  exact ⟨identity, hidentity⟩

/-- Lifetimes that are honoured fit. -/
theorem fits_of_honoured (hx : exchangeToken C S s env request header = (s', .ok response))
    (hissued : env.issuedAt = env.now) (hpos : 0 < S.accessTokenTtlSeconds.toNat)
    (h : Honoured C S s' env.now response) : LifetimeFits C S s env request header := by
  obtain ⟨scopes, k, u, hgranted, hanswers, f, hf, hr, hexp⟩ := exists_granted hx
  obtain ⟨b, hb⟩ := hanswers.accessToken
  obtain ⟨claims, hv, hword⟩ := h
  have hclaims : claims = grantedClaims S env scopes k b := by
    rw [hb, verifyToken_accessTokenOf] at hv
    exact (Except.ok.inj hv).symm
  -- at once, and with nothing in between
  have haccepted : ∀ now, env.now ≤ now →
      now.toNat < env.now.toNat + S.accessTokenTtlSeconds.toNat →
      response.accessToken.utf8ByteSize ≤ maxFormValueLength ∧ now < claims.expiresAt ∧
        s'.refreshTokens.isActive claims.familyId now = true := by
    intro now hle hlt
    rw [← hanswers.expiresIn] at hlt
    obtain ⟨identity, hidentity⟩ := hword now hle hlt [] s' .refl
    exact authenticateBearer_bounds hidentity hv
  have hu : u = env.now := by
    cases hgranted with
    | code => exact hissued
    | refresh => rfl
  have hclock : env.now.toNat + S.accessTokenTtlSeconds.toNat < 2 ^ 64 := by
    -- otherwise the token is promised for the last reading there is, when it has expired
    by_contra hover
    have hlast : (18446744073709551615 : UInt64).toNat = 2 ^ 64 - 1 := rfl
    have hmax := UInt64.toNat_lt env.now
    have hmax' := UInt64.toNat_lt claims.expiresAt
    obtain ⟨_, hlt, _⟩ := haccepted 18446744073709551615
      (UInt64.le_iff_toNat_le.mpr (by omega)) (by omega)
    have hlt' := UInt64.lt_iff_toNat_lt.mp hlt
    omega
  refine ⟨?_, hclock, ?_⟩
  · -- otherwise the token is promised for the time at which its family expires
    by_contra hgt
    rw [UInt64.le_iff_toNat_le] at hgt
    have hsum := toNat_saturatingAdd env.now S.refreshTokenTtlSeconds
    obtain ⟨_, _, hactive⟩ := haccepted (saturatingAdd env.now S.refreshTokenTtlSeconds)
      (UInt64.le_iff_toNat_le.mpr (by omega)) (by omega)
    obtain ⟨g, hg, _, hlt⟩ := RefreshTokenStore.isActive_iff.mp hactive
    have hfamily : claims.familyId = k := by rw [hclaims]; rfl
    rw [hfamily, hf] at hg
    rw [← Option.some.inj hg, hexp, hu] at hlt
    exact UInt64.lt_irrefl _ hlt
  · intro scopes' k' u' hgranted'
    obtain ⟨rfl, rfl, _⟩ := hgranted.unique hgranted'
    obtain ⟨hlen, _⟩ := haccepted env.now (UInt64.le_refl _) (by omega)
    rw [hb, utf8ByteSize_grantedClaims] at hlen
    exact hlen

end

/-- The file of the store is kept in every run. -/
theorem inSync_run {h : List ServerEvent} {s : OAuthState}
    (hr : Run (fun _ => ServerStep C S) .start h s) : s.refreshTokens.InSync := by
  refine Steps.invariant (P := fun _ s => s.refreshTokens.InSync) ?_
    RefreshTokenStore.inSync_fresh hr
  intro h s e s' hsync hs
  cases hs with
  | registered => exact hsync
  | began => exact hsync
  | authenticated => exact hsync
  | completed hc =>
    rw [refreshTokens_of_completed hc]
    exact hsync
  | restarted hopen => exact (RefreshTokenStore.open_inSync hsync hopen).1
  | @exchanged _ env request header result hx =>
    have heff := exchangeToken_effect (C := C) (S := S) s env request header
    rw [hx] at heff
    cases heff with
    | refused _ => exact hsync
    | redeemed _ _ _ _ _ hcall => exact inSync_of_call hsync hcall
    | refreshed _ _ hcall => exact inSync_of_call hsync hcall

/-- **The advertised lifetime.** It is honoured when the lifetimes fit; and of a call that starts
its family at the time it was made, only then. -/
theorem lifetime_honoured_iff {K : ConfigCrates} {fs : FileSystem} {lookup : Lookup}
    {config : Config K} (hconfig : Config.fromLookup K fs lookup = .ok config) {C : Crates}
    {h : List ServerEvent} {s s' : OAuthState} {env : TokenEnv} {request : TokenRequest}
    {header : Option String} {response : TokenResponse}
    (hrun : Run (fun _ => ServerStep C config.oauth.settings) .start h s)
    (hx : exchangeToken C config.oauth.settings s env request header = (s', .ok response))
    (hissued : env.now ≤ env.issuedAt) (haccess : env.now ≤ env.accessIssuedAt) :
    (LifetimeFits C config.oauth.settings s env request header →
      Honoured C config.oauth.settings s' env.now response) ∧
    (env.issuedAt = env.now → Honoured C config.oauth.settings s' env.now response →
      LifetimeFits C config.oauth.settings s env request header) := by
  have hsync : s'.refreshTokens.InSync := inSync_run (hrun.tail (.exchanged hx))
  have hpos : 0 < config.oauth.settings.accessTokenTtlSeconds.toNat := by
    have hrange := accessTokenTtl_mem_range (parts_of_fromLookup hconfig).1
    show 0 < config.oauth.accessTokenTtlSeconds.toNat
    omega
  exact ⟨honoured_of_fits hsync hx hissued haccess,
    fun heq => fits_of_honoured hx heq hpos⟩

/-! ## A login under two configurations -/

namespace Reference

/-- The variables of the server, with a lifetime for refresh tokens. -/
def lookup (refreshTtl : String) : Lookup := fun key =>
  [("KB_ROOT", "/kb"), ("KB_KEY_A", "tech-key"), ("KB_KEY_B", "private-key"),
    ("MCP_ALLOWED_HOSTS", "kb.example"), ("OAUTH_ISSUER", "https://kb.example"),
    ("OAUTH_RESOURCE", "https://kb.example/mcp"),
    ("OAUTH_OWNER_SECRET", "correct horse battery staple"),
    ("OAUTH_SIGNING_KEY", "0123456789abcdef0123456789abcdef"), ("OAUTH_STATE_DIR", "/state"),
    ("OAUTH_ACCESS_TOKEN_TTL_SECONDS", "3600"),
    ("OAUTH_REFRESH_TOKEN_TTL_SECONDS", refreshTtl)].lookup key

/-- The settings of the server, with a lifetime for refresh tokens. -/
def settingsWith (ttl : UInt64) : OAuthSettings := { settings with refreshTokenTtlSeconds := ttl }

/-- Checking the parameters of a code does not look at the lifetimes. -/
theorem openCodeExchange_settingsWith (ttl : UInt64) (request : TokenRequest)
    (header : Option String) : openCodeExchange crates (settingsWith ttl) request header
      = openCodeExchange crates settings request header := rfl

/-- Minting a code does not look at the lifetime of refresh tokens. -/
theorem mintedCode_settingsWith (ttl : UInt64) (env : CompleteEnv) (form : ApprovalForm) :
    mintedCode crates (settingsWith ttl) env form = mintedCode crates settings env form := rfl

/-- The owner logs in and the client redeems the code. -/
theorem exists_login (ttl : UInt64) : ∃ h s s' response,
    Run (fun _ => ServerStep crates (settingsWith ttl)) .start h s ∧
      exchangeToken crates (settingsWith ttl) s tokenEnv codeRequest none = (s', .ok response) ∧
      Granted crates (settingsWith ttl) s tokenEnv codeRequest none record.scopes
        ("rf_" ++ Base64.urlSafe.encode (draw 2).1) tokenEnv.issuedAt := by
  have hmint : mintedCode crates (settingsWith ttl) completeEnv form
      = some (codeExchange.code, record) := (mintedCode_settingsWith ttl _ _).trans mintedCode_form
  have hopen : openCodeExchange crates (settingsWith ttl) codeRequest none = .ok codeExchange :=
    (openCodeExchange_settingsWith ttl _ _).trans openCodeExchange_codeRequest
  have hvalid : record.scopes.isValid = true := by decide
  have hnow : tokenEnv.now < record.expiresAt := by decide
  have hfound := lookup_completeAuthorization hmint .start
  obtain ⟨p, hp⟩ : ∃ p, preparePair crates (settingsWith ttl) tokenEnv record.scopes record.resource
      codeExchange.client.clientId = .ok p := by
    obtain ⟨p, hp, _⟩ := exists_preparePair (C := crates) (S := settingsWith ttl) hvalid
      (show tokenEnv.familyDraw = some (draw 2) from rfl)
      (show tokenEnv.accessDraw = some (draw 3) from rfl)
      (show tokenEnv.tokenDraw = some (draw 4) from rfl) codeExchange.client.clientId
    exact ⟨p, hp⟩
  have hnew : (completeAuthorization crates (settingsWith ttl) .start completeEnv
      form).1.refreshTokens.state.families.lookup p.claims.familyId = none := by
    rw [refreshTokens_completeAuthorization]
    exact RefreshTokenState.lookup_default _
  have hgrant : codeRequest.grantType = "authorization_code" := rfl
  obtain ⟨s', hx, _⟩ := exists_exchange_code hgrant hopen hfound (checkRecord_codeExchange hnow) hp
    rfl hnew
  have hcomplete : completeAuthorization crates (settingsWith ttl) .start completeEnv form
      = ((completeAuthorization crates (settingsWith ttl) .start completeEnv form).1,
        (completeAuthorization crates (settingsWith ttl) .start completeEnv form).2) :=
    Prod.mk.eta.symm
  exact ⟨_, _, s', p.response, .single (.completed hcomplete), hx, .code rfl hopen hfound rfl⟩

/-- Its access token is a short one. -/
theorem accessTokenSize_login (ttl : UInt64) : accessTokenSize (settingsWith ttl) tokenEnv
    record.scopes ("rf_" ++ Base64.urlSafe.encode (draw 2).1) = 370 := by
  have hsize : (accessTokenOf crates (settingsWith ttl) accessClaims).utf8ByteSize = 370 := by
    rw [utf8ByteSize_accessTokenOf, jsonSize_accessClaims]
  rw [← hsize]
  exact (utf8ByteSize_grantedClaims tokenEnv record.scopes _ (draw 3)).symm

/-- The fields that the settings are made of. -/
def oauthFields (config : OAuthConfig) : List String × List UInt64 :=
  ([config.issuer, config.resource, config.ownerSecret, config.signingKey],
    [config.accessTokenTtlSeconds, config.authorizationCodeTtlSeconds,
      config.refreshTokenTtlSeconds])

/-- An accepted configuration with these fields gives these settings. -/
theorem exists_config {refreshTtl : String} {ttl : UInt64}
    (h : (Config.fromLookup Sample.configCrates (Sample.fileSystem Sample.publicKb)
        (lookup refreshTtl)).toOption.map (fun config => oauthFields config.oauth)
      = some (["https://kb.example", "https://kb.example/mcp", "correct horse battery staple",
        "0123456789abcdef0123456789abcdef"], [3600, 300, ttl])) :
    ∃ config, Config.fromLookup Sample.configCrates (Sample.fileSystem Sample.publicKb)
        (lookup refreshTtl) = .ok config ∧ config.oauth.settings = settingsWith ttl := by
  obtain ⟨config, hconfig, hfields⟩ := Option.map_eq_some_iff.mp h
  cases hc : Config.fromLookup Sample.configCrates (Sample.fileSystem Sample.publicKb)
      (lookup refreshTtl) with
  | error e =>
    rw [hc] at hconfig
    exact nomatch hconfig
  | ok c =>
    rw [hc] at hconfig
    obtain rfl : c = config := Option.some.inj hconfig
    simp only [oauthFields, Prod.mk.injEq, List.cons.injEq, and_true] at hfields
    obtain ⟨⟨h1, h2, h3, h4⟩, h5, h6, h7⟩ := hfields
    refine ⟨c, rfl, ?_⟩
    simp only [OAuthConfig.settings, h1, h2, h3, h4, h5, h6, h7]
    rfl

/-- Refresh tokens for thirty days. -/
theorem exists_config_month : ∃ config, Config.fromLookup Sample.configCrates
      (Sample.fileSystem Sample.publicKb) (lookup "2592000") = .ok config ∧
    config.oauth.settings = settingsWith 2592000 :=
  exists_config (by decide +kernel)

/-- Refresh tokens for a minute, the least that is accepted. -/
theorem exists_config_minute : ∃ config, Config.fromLookup Sample.configCrates
      (Sample.fileSystem Sample.publicKb) (lookup "60") = .ok config ∧
    config.oauth.settings = settingsWith 60 :=
  exists_config (by decide +kernel)

end Reference

/-- An access token of an hour, with refresh tokens for thirty days. -/
theorem lifetime_honoured_month : ∃ s s' response,
    exchangeToken Reference.crates (Reference.settingsWith 2592000) s Reference.tokenEnv
        Reference.codeRequest none = (s', .ok response) ∧
      Honoured Reference.crates (Reference.settingsWith 2592000) s' Reference.tokenEnv.now
        response := by
  obtain ⟨config, hconfig, hsettings⟩ := Reference.exists_config_month
  obtain ⟨h, s, s', response, hrun, hx, hgranted⟩ := Reference.exists_login 2592000
  have hfits : LifetimeFits Reference.crates (Reference.settingsWith 2592000) s
      Reference.tokenEnv Reference.codeRequest none := by
    refine ⟨by decide, by decide, ?_⟩
    intro scopes k u hgranted'
    obtain ⟨rfl, rfl, _⟩ := hgranted.unique hgranted'
    rw [Reference.accessTokenSize_login]
    decide
  rw [← hsettings] at hrun hx hfits ⊢
  exact ⟨s, s', response, hx,
    (lifetime_honoured_iff hconfig hrun hx (by decide) (by decide)).1 hfits⟩

/--
**A lifetime that is not kept**: an access token of an hour, with refresh tokens for a minute.
-/
theorem not_lifetime_honoured_minute : ∃ (config : Config Sample.configCrates) (s s' : OAuthState)
    (response : TokenResponse),
    Config.fromLookup Sample.configCrates (Sample.fileSystem Sample.publicKb)
        (Reference.lookup "60") = .ok config ∧
      (∃ h, Run (fun _ => ServerStep Reference.crates config.oauth.settings) .start h s) ∧
      exchangeToken Reference.crates config.oauth.settings s Reference.tokenEnv
        Reference.codeRequest none = (s', .ok response) ∧
      ¬ Honoured Reference.crates config.oauth.settings s' Reference.tokenEnv.now response := by
  obtain ⟨config, hconfig, hsettings⟩ := Reference.exists_config_minute
  obtain ⟨h, s, s', response, hrun, hx, _⟩ := Reference.exists_login 60
  rw [← hsettings] at hrun hx
  refine ⟨config, s, s', response, hconfig, ⟨h, hrun⟩, hx, ?_⟩
  intro hhonoured
  have hfits := (lifetime_honoured_iff hconfig hrun hx (by decide) (by decide)).2 rfl hhonoured
  have hle := hfits.ttl
  rw [hsettings] at hle
  exact absurd hle (by decide)

end EngramMcp
