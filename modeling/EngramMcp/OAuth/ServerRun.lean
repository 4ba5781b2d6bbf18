import EngramMcp.Infra.Run
import EngramMcp.OAuth.Token

/-!
# Runs of the server

Clients call the five endpoints in any order and with any fields, and the server may be restarted.
This file says what a step is, which tokens went out so far, and what that says about the state.

* `IdealStep` — a step in which no signature is forged and random values are new
* `ServerInv` — the invariant: where the codes and the families in the state come from
* `serverInv_run` — it holds after every run
-/

namespace EngramMcp

open Infra

/-- A call, with what it reads from outside and its answer; or a restart. -/
inductive ServerEvent
  | registered (request : RegistrationRequest) (now : UInt64)
      (result : Except OAuthError RegistrationResponse)
  | began (query : AuthorizationQuery) (now : UInt64) (result : Except OAuthError String)
  | completed (env : CompleteEnv) (form : ApprovalForm)
      (result : Except OAuthError AuthorizationRedirect)
  | exchanged (env : TokenEnv) (request : TokenRequest) (header : Option String)
      (result : Except OAuthError TokenResponse)
  | authenticated (token : String) (now : UInt64) (result : Except OAuthError OAuthIdentity)
  | restarted (reader : RefreshStateReader)

/-- A step of the server. Registrations and consent pages are not stored anywhere. -/
inductive ServerStep (C : Crates) (S : OAuthSettings) :
    OAuthState → ServerEvent → OAuthState → Prop
  | registered {s : OAuthState} {request : RegistrationRequest} {now : UInt64} :
      ServerStep C S s (.registered request now (registerClient C S request now)) s
  | began {s : OAuthState} {query : AuthorizationQuery} {now : UInt64} :
      ServerStep C S s (.began query now (beginAuthorization C S query now)) s
  | completed {s s' : OAuthState} {env : CompleteEnv} {form : ApprovalForm}
      {result : Except OAuthError AuthorizationRedirect} :
      completeAuthorization C S s env form = (s', result) →
      ServerStep C S s (.completed env form result) s'
  | exchanged {s s' : OAuthState} {env : TokenEnv} {request : TokenRequest}
      {header : Option String} {result : Except OAuthError TokenResponse} :
      exchangeToken C S s env request header = (s', result) →
      ServerStep C S s (.exchanged env request header result) s'
  | authenticated {s : OAuthState} {token : String} {now : UInt64} :
      ServerStep C S s (.authenticated token now (authenticateBearer C S s token now)) s
  | restarted {s : OAuthState} {reader : RefreshStateReader} {store : RefreshTokenStore} :
      RefreshTokenStore.open reader s.refreshTokens.dir = .ok store →
      ServerStep C S s (.restarted reader) ⟨∅, store⟩

/-- The server when it first starts, over an empty state directory. -/
def OAuthState.start : OAuthState := ⟨∅, .fresh⟩

/-! ## Tokens that went out -/

/-- The claims of a pair of tokens. -/
structure Issued where
  refresh : RefreshTokenClaims
  access : AccessTokenClaims

/-- The keyed hash under which the refresh token of a pair is stored. -/
def Issued.tokenIdHash (C : Crates) (S : OAuthSettings) (i : Issued) : String :=
  refreshTokenIdHash C S i.refresh.tokenId

/-- The pair of tokens that an event hands to a client. -/
def ServerEvent.issued (C : Crates) (S : OAuthSettings) : ServerEvent → Option Issued
  | .exchanged _ _ _ (.ok response) =>
    match verifyToken C S C.refreshClaims refreshTokenPrefix refreshTokenLabel
        response.refreshToken,
      verifyToken C S C.accessClaims accessTokenPrefix accessTokenLabel response.accessToken with
    | .ok refresh, .ok access => some ⟨refresh, access⟩
    | _, _ => none
  | _ => none

/-- The pairs of tokens handed out so far, in order. -/
def issuedTokens (C : Crates) (S : OAuthSettings) (h : List ServerEvent) : List Issued :=
  h.filterMap (ServerEvent.issued C S)

/-! ## Ideal cryptography -/

/--
Signatures are not forged, and random values are new.

A token with a valid signature is a string that went out before. The family and the token id that
an exchange draws are not those of a token that went out before, the latter up to its keyed hash.
-/
structure Ideal (C : Crates) (S : OAuthSettings) (h : List ServerEvent) (e : ServerEvent) :
    Prop where
  access : ∀ token now result, e = .authenticated token now result → ∀ claims,
    verifyToken C S C.accessClaims accessTokenPrefix accessTokenLabel token = .ok claims →
    ∃ i ∈ issuedTokens C S h, token = accessTokenOf C S i.access
  refresh : ∀ env request header result, e = .exchanged env request header result →
    ∀ token claims, request.refreshToken = some token →
    verifyToken C S C.refreshClaims refreshTokenPrefix refreshTokenLabel token = .ok claims →
    ∃ i ∈ issuedTokens C S h, token = refreshTokenOf C S i.refresh
  family : ∀ env request header result, e = .exchanged env request header result →
    ∀ k, randomValue "rf_" env.familyDraw = .ok k →
    ∀ i ∈ issuedTokens C S h, i.refresh.familyId ≠ k
  tokenId : ∀ env request header result, e = .exchanged env request header result →
    ∀ t, randomValue "rti_" env.tokenDraw = .ok t →
    ∀ i ∈ issuedTokens C S h, i.tokenIdHash C S ≠ refreshTokenIdHash C S t

/-- A step with ideal cryptography. -/
def IdealStep (C : Crates) (S : OAuthSettings) (h : List ServerEvent) (s : OAuthState)
    (e : ServerEvent) (s' : OAuthState) : Prop :=
  Ideal C S h e ∧ ServerStep C S s e s'

/-! ## Where codes and families come from -/

/-- An earlier form minted a code with this hash and this record. -/
def MintedByForm (C : Crates) (S : OAuthSettings) (h : List ServerEvent) (hash : Digest)
    (record : AuthorizationCode) : Prop :=
  ∃ env form result code, .completed env form result ∈ h ∧
    mintedCode C S env form = some (code, record) ∧ hash = tokenHash C S code

/-- The family was started by redeeming a code with this record. -/
def StartedFrom (C : Crates) (S : OAuthSettings) (h : List ServerEvent) (k : String)
    (record : AuthorizationCode) : Prop :=
  ∃ pre post env request header response x i,
    h = pre ++ .exchanged env request header (.ok response) :: post ∧
    request.grantType = "authorization_code" ∧
    openCodeExchange C S request header = .ok x ∧
    MintedByForm C S pre (tokenHash C S x.code) record ∧
    (ServerEvent.exchanged env request header (.ok response)).issued C S = some i ∧
    i.refresh.familyId = k

/-- What every pair of tokens that went out satisfies. -/
structure Issued.WellFormed (C : Crates) (S : OAuthSettings) (h : List ServerEvent) (i : Issued) :
    Prop where
  version : i.refresh.version = tokenClaimsVersion
  audience : i.refresh.audience = S.resource
  isValid : i.refresh.scopes.isValid = true
  nonempty : i.refresh.familyId ≠ ""
  scopes : i.access.scopes = i.refresh.scopes
  family : i.access.familyId = i.refresh.familyId
  started : ∃ record, StartedFrom C S h i.refresh.familyId record ∧
    i.refresh.scopes.accessScope ≤ record.scopes.accessScope

/-- `i` is the last pair of the family `k` in the list. -/
def IsLast (k : String) (l : List Issued) (i : Issued) : Prop :=
  ∃ l₁ l₂, l = l₁ ++ i :: l₂ ∧ i.refresh.familyId = k ∧ ∀ j ∈ l₂, j.refresh.familyId ≠ k

/-- The state in terms of the history. -/
structure ServerInv (C : Crates) (S : OAuthSettings) (h : List ServerEvent) (s : OAuthState) :
    Prop where
  inSync : s.refreshTokens.InSync
  /-- Every stored code was minted. -/
  codes : ∀ hash record, s.authorizationCodes.lookup hash = some record →
    MintedByForm C S h hash record
  /-- The stored hash of a family is that of its last token. -/
  last : ∀ k f, s.refreshTokens.state.families.lookup k = some f →
    ∃ i, IsLast k (issuedTokens C S h) i ∧
      f.activeTokenHash = i.tokenIdHash C S
  wellFormed : ∀ i ∈ issuedTokens C S h, i.WellFormed C S h
  /-- The keyed hash tells the refresh tokens apart. -/
  distinct : ((issuedTokens C S h).map (Issued.tokenIdHash C S)).Nodup
  /-- The scope along a family never rises. -/
  descending : (issuedTokens C S h).Pairwise fun i j =>
    i.refresh.familyId = j.refresh.familyId →
      j.refresh.scopes.accessScope ≤ i.refresh.scopes.accessScope

variable {C : Crates} {S : OAuthSettings}

/-! ## The history -/

theorem issuedTokens_append (h : List ServerEvent) (e : ServerEvent) :
    issuedTokens C S (h ++ [e]) = issuedTokens C S h ++ (e.issued C S).toList := by
  cases hc : e.issued C S <;> simp [issuedTokens, hc]

theorem MintedByForm.append {h : List ServerEvent} {hash : Digest} {record : AuthorizationCode}
    (hm : MintedByForm C S h hash record) (e : ServerEvent) :
    MintedByForm C S (h ++ [e]) hash record := by
  obtain ⟨env, form, result, code, hmem, hcode⟩ := hm
  exact ⟨env, form, result, code, List.mem_append_left _ hmem, hcode⟩

theorem StartedFrom.append {h : List ServerEvent} {k : String} {record : AuthorizationCode}
    (hs : StartedFrom C S h k record) (e : ServerEvent) : StartedFrom C S (h ++ [e]) k record := by
  obtain ⟨pre, post, env, request, header, response, x, i, rfl, hrest⟩ := hs
  exact ⟨pre, post ++ [e], env, request, header, response, x, i, by simp, hrest⟩

theorem Issued.WellFormed.append {h : List ServerEvent} {i : Issued}
    (hw : i.WellFormed C S h) (e : ServerEvent) : i.WellFormed C S (h ++ [e]) := by
  obtain ⟨record, hs, hle⟩ := hw.started
  exact { hw with started := ⟨record, hs.append e, hle⟩ }

/-- The last pair stays the last one when another family gets a pair, or none. -/
theorem IsLast.append {k : String} {l : List Issued} {i : Issued} (hl : IsLast k l i)
    {l' : List Issued} (hne : ∀ j ∈ l', j.refresh.familyId ≠ k) : IsLast k (l ++ l') i := by
  obtain ⟨l₁, l₂, rfl, hi, hlast⟩ := hl
  refine ⟨l₁, l₂ ++ l', by simp, hi, fun j hj => ?_⟩
  rcases List.mem_append.mp hj with hj | hj
  · exact hlast j hj
  · exact hne j hj

theorem IsLast.mem {k : String} {l : List Issued} {i : Issued} (hl : IsLast k l i) : i ∈ l := by
  obtain ⟨l₁, l₂, rfl, _, _⟩ := hl
  simp

/-- The last pair of a family has the lowest scope. -/
theorem IsLast.accessScope_le {k : String} {l : List Issued} {i : Issued} (hl : IsLast k l i)
    (hd : l.Pairwise fun i j => i.refresh.familyId = j.refresh.familyId →
      j.refresh.scopes.accessScope ≤ i.refresh.scopes.accessScope)
    {j : Issued} (hj : j ∈ l) (hk : j.refresh.familyId = k) :
    i.refresh.scopes.accessScope ≤ j.refresh.scopes.accessScope := by
  obtain ⟨l₁, l₂, rfl, hi, hlast⟩ := hl
  rcases List.mem_append.mp hj with hj | hj
  · exact (List.pairwise_append.mp hd).2.2 j hj i List.mem_cons_self (hk.trans hi.symm)
  · rcases List.mem_cons.mp hj with rfl | hj
    · exact AccessScope.le_refl _
    · exact absurd hk (hlast j hj)

/-! ## Quiet events, and events that hand out tokens -/

/-- An event that hands out nothing, adds no code but minted ones, and changes no hash. -/
theorem ServerInv.quiet {h : List ServerEvent} {s s' : OAuthState} {e : ServerEvent}
    (hi : ServerInv C S h s) (hnone : e.issued C S = none) (hsync : s'.refreshTokens.InSync)
    (hcodes : ∀ hash record, s'.authorizationCodes.lookup hash = some record →
      MintedByForm C S (h ++ [e]) hash record)
    (hfamilies : ∀ k f', s'.refreshTokens.state.families.lookup k = some f' →
      ∃ f, s.refreshTokens.state.families.lookup k = some f ∧
        f'.activeTokenHash = f.activeTokenHash) : ServerInv C S (h ++ [e]) s' := by
  have hissued : issuedTokens C S (h ++ [e]) = issuedTokens C S h := by
    rw [issuedTokens_append, hnone, Option.toList_none, List.append_nil]
  refine ⟨hsync, hcodes, ?_, ?_, ?_, ?_⟩
  · intro k f' hf'
    obtain ⟨f, hf, hhash⟩ := hfamilies k f' hf'
    obtain ⟨i, hlast, hactive⟩ := hi.last k f hf
    rw [hissued]
    exact ⟨i, hlast, hhash.trans hactive⟩
  · intro i hmem
    rw [hissued] at hmem
    exact (hi.wellFormed i hmem).append e
  · rw [hissued]
    exact hi.distinct
  · rw [hissued]
    exact hi.descending

/-- An event that hands out a pair, and installs its hash in the entry of its family. -/
theorem ServerInv.issue {h : List ServerEvent} {s s' : OAuthState} {e : ServerEvent} {i : Issued}
    (hi : ServerInv C S h s) (hsome : e.issued C S = some i) (hsync : s'.refreshTokens.InSync)
    (hcodes : ∀ hash record, s'.authorizationCodes.lookup hash = some record →
      s.authorizationCodes.lookup hash = some record)
    (hown : ∀ f, s'.refreshTokens.state.families.lookup i.refresh.familyId = some f →
      f.activeTokenHash = i.tokenIdHash C S)
    (hothers : ∀ k f, k ≠ i.refresh.familyId →
      s'.refreshTokens.state.families.lookup k = some f →
      s.refreshTokens.state.families.lookup k = some f)
    (hw : i.WellFormed C S (h ++ [e]))
    (hnew : ∀ j ∈ issuedTokens C S h, j.tokenIdHash C S ≠ i.tokenIdHash C S)
    (hle : ∀ j ∈ issuedTokens C S h, j.refresh.familyId = i.refresh.familyId →
      i.refresh.scopes.accessScope ≤ j.refresh.scopes.accessScope) :
    ServerInv C S (h ++ [e]) s' := by
  have hissued : issuedTokens C S (h ++ [e]) = issuedTokens C S h ++ [i] := by
    rw [issuedTokens_append, hsome, Option.toList_some]
  refine ⟨hsync, fun hash record hl => (hi.codes _ _ (hcodes _ _ hl)).append e, ?_, ?_, ?_, ?_⟩
  · intro k f hf
    rw [hissued]
    by_cases hk : k = i.refresh.familyId
    · subst hk
      exact ⟨i, ⟨_, [], rfl, rfl, by simp⟩, hown f hf⟩
    · obtain ⟨j, hlast, hactive⟩ := hi.last k f (hothers k f hk hf)
      refine ⟨j, hlast.append fun x hx => ?_, hactive⟩
      rw [List.mem_singleton.mp hx]
      exact Ne.symm hk
  · intro j hmem
    rw [hissued, List.mem_append, List.mem_singleton] at hmem
    rcases hmem with hmem | rfl
    · exact (hi.wellFormed j hmem).append e
    · exact hw
  · rw [hissued, List.map_append]
    refine hi.distinct.append (List.nodup_singleton _) ?_
    intro hash hmem hmem'
    obtain ⟨j, hj, rfl⟩ := List.mem_map.mp hmem
    exact hnew j hj (List.mem_singleton.mp hmem')
  · rw [hissued, List.pairwise_append]
    refine ⟨hi.descending, List.pairwise_singleton _ _, fun j hj i' hi' => ?_⟩
    rw [List.mem_singleton.mp hi']
    exact hle j hj

/-! ## The steps -/

theorem serverInv_start : ServerInv C S [] .start where
  inSync := RefreshTokenStore.inSync_fresh
  codes hash record h := by simp [OAuthState.start, AList.lookup_empty] at h
  last k f h := by
    rw [OAuthState.start, RefreshTokenStore.fresh, RefreshTokenState.lookup_default] at h
    exact absurd h (by simp)
  wellFormed i h := by simp [issuedTokens] at h
  distinct := by simp [issuedTokens]
  descending := by simp [issuedTokens]

/-- The pair in a response, from the claims it was made from. -/
theorem issued_exchanged (env : TokenEnv) (request : TokenRequest) (header : Option String)
    {response : TokenResponse} {refresh : RefreshTokenClaims} {access : AccessTokenClaims}
    (hr : response.refreshToken = refreshTokenOf C S refresh)
    (ha : response.accessToken = accessTokenOf C S access) :
    (ServerEvent.exchanged env request header (.ok response)).issued C S
      = some ⟨refresh, access⟩ := by
  simp only [ServerEvent.issued, hr, ha, verifyToken_refreshTokenOf, verifyToken_accessTokenOf]

/-- A presented refresh token with a valid signature has the claims of one that went out. -/
theorem exists_issued_of_presented {h : List ServerEvent} {env : TokenEnv} {request : TokenRequest}
    {header : Option String} {result : Except OAuthError TokenResponse}
    (hideal : Ideal C S h (.exchanged env request header result)) {token : String}
    {claims : RefreshTokenClaims} (ht : request.refreshToken = some token)
    (hv : verifyToken C S C.refreshClaims refreshTokenPrefix refreshTokenLabel token = .ok claims) :
    ∃ i ∈ issuedTokens C S h, i.refresh = claims := by
  obtain ⟨i, hmem, rfl⟩ := hideal.refresh _ _ _ _ rfl token claims ht hv
  rw [verifyToken_refreshTokenOf] at hv
  exact ⟨i, hmem, Except.ok.inj hv⟩

/-- Minting a code. -/
theorem ServerInv.complete {h : List ServerEvent} {s s' : OAuthState} {env : CompleteEnv}
    {form : ApprovalForm} {result : Except OAuthError AuthorizationRedirect}
    (hi : ServerInv C S h s) (hc : completeAuthorization C S s env form = (s', result)) :
    ServerInv C S (h ++ [.completed env form result]) s' := by
  have hs' : s' = (completeAuthorization C S s env form).1 := by rw [hc]
  rw [completeAuthorization_state] at hs'
  cases hmint : mintedCode C S env form with
  | none =>
    simp only [hmint] at hs'
    subst hs'
    exact hi.quiet rfl hi.inSync (fun hash record hl => (hi.codes hash record hl).append _)
      fun k f hf => ⟨f, hf, rfl⟩
  | some m =>
    obtain ⟨code, rec⟩ := m
    simp only [hmint] at hs'
    subst hs'
    refine hi.quiet rfl hi.inSync (fun hash record hl => ?_) fun k f hf => ⟨f, hf, rfl⟩
    rcases lookup_insertCode hl with ⟨rfl, rfl⟩ | ⟨_, hold⟩
    · exact ⟨env, form, result, code, by simp, hmint, rfl⟩
    · exact (hi.codes hash record hold).append _

/-- A call on the store that failed changed no hash. -/
theorem families_of_error {store store' : RefreshTokenStore} {io : PersistIo} {c : StoreCall}
    {e : OAuthError} (hcall : store.call io c = (store', .error e)) :
    ∀ k f', store'.state.families.lookup k = some f' →
      ∃ f, store.state.families.lookup k = some f ∧ f'.activeTokenHash = f.activeTokenHash := by
  intro k f' hf'
  have heff := store.call_effect io c
  rw [hcall] at heff
  rcases heff with heff | ⟨hstate, _⟩
  · exact heff.lookup_of_error hf'
  · rw [hstate] at hf'
    exact ⟨f', hf', rfl⟩

/-- A call on the store that succeeded had its effect. -/
theorem effect_of_ok {store store' : RefreshTokenStore} {io : PersistIo} {c : StoreCall}
    (hcall : store.call io c = (store', .ok ())) :
    StoreEffect store.state c (.ok ()) store'.state := by
  have heff := store.call_effect io c
  rw [hcall] at heff
  rcases heff with heff | ⟨_, hanswer⟩
  · exact heff
  · exact absurd hanswer (by simp)

theorem inSync_of_call {store store' : RefreshTokenStore} (h : store.InSync) {io : PersistIo}
    {c : StoreCall} {answer : Except OAuthError Unit} (hcall : store.call io c = (store', answer)) :
    store'.InSync := by
  have hsync := RefreshTokenStore.inSync_call h io c
  rwa [hcall] at hsync

/-- A code exchange that succeeds starts a family. -/
theorem ServerInv.redeem {h : List ServerEvent} {s : OAuthState} {env : TokenEnv}
    {request : TokenRequest} {header : Option String} {x : CodeExchange}
    {record : AuthorizationCode} {p : PreparedTokens} {store : RefreshTokenStore}
    (hi : ServerInv C S h s)
    (hideal : Ideal C S h (.exchanged env request header (.ok p.response)))
    (hgrant : request.grantType = "authorization_code")
    (hopen : openCodeExchange C S request header = .ok x)
    (hrecord : s.authorizationCodes.lookup (tokenHash C S x.code) = some record)
    (hp : preparePair C S env record.scopes record.resource x.client.clientId = .ok p)
    (hcall : s.refreshTokens.call env.io (p.createCall C S env.issuedAt) = (store, .ok ())) :
    ServerInv C S (h ++ [.exchanged env request header (.ok p.response)])
      ⟨s.authorizationCodes.erase (tokenHash C S x.code), store⟩ := by
  obtain ⟨hw, ⟨b, hb, hfamily⟩, b', hb', htokenId⟩ := preparePair_eq_ok hp
  obtain ⟨access, ha, hscopes, hfam⟩ := hw.accessToken
  have heff := effect_of_ok hcall
  have hissued := issued_exchanged env request header hw.refreshToken ha
  have hnewFamily := hideal.family _ _ _ _ rfl _ (randomValue_eq_ok.mpr ⟨b, hb, hfamily⟩)
  refine hi.issue hissued (inSync_of_call hi.inSync hcall) ?_ ?_ ?_ ?_ ?_ ?_
  · intro hash r hl
    exact lookup_takeCode (s := s) hl
  · exact fun f hf => heff.lookup_of_ok hf
  · exact fun k f hk hf => heff.lookup_ne hk hf
  · refine ⟨hw.version, hw.audience, ?_, hw.nonempty, ?_, hfam, record, ?_, ?_⟩
    · rw [hw.scopes]
      exact hw.isValid
    · rw [hscopes, hw.scopes]
    · exact ⟨h, [], env, request, header, p.response, x, _, rfl, hgrant, hopen,
        hi.codes _ _ hrecord, hissued, rfl⟩
    · rw [hw.scopes]
      exact AccessScope.le_refl _
  · exact hideal.tokenId _ _ _ _ rfl _ (randomValue_eq_ok.mpr ⟨b', hb', htokenId⟩)
  · exact fun j hj hk => absurd hk (hnewFamily j hj)

/-- A refresh that succeeds presented the last token of its family. -/
theorem ServerInv.refresh {h : List ServerEvent} {s : OAuthState} {env : TokenEnv}
    {request : TokenRequest} {header : Option String} {p : PreparedRotation}
    {store : RefreshTokenStore} (hi : ServerInv C S h s)
    (hideal : Ideal C S h (.exchanged env request header (.ok p.tokens.response)))
    (hp : prepareRotation C S env request header = .ok p)
    (hcall : s.refreshTokens.call env.io (p.rotateCall C S env.now) = (store, .ok ())) :
    ServerInv C S (h ++ [.exchanged env request header (.ok p.tokens.response)])
      ⟨s.authorizationCodes, store⟩ := by
  obtain ⟨client, scopes, hopen, _, hs, htokens⟩ := prepareRotation_eq_ok hp
  obtain ⟨token, ht, _, _, _, hv⟩ := openRefreshToken_eq_ok.mp hopen
  obtain ⟨_, hallow⟩ := refreshedScopes_eq_ok.mp hs
  obtain ⟨hw, b, hb, htokenId⟩ := prepareTokens_eq_ok htokens
  obtain ⟨access, ha, hscopes, hfam⟩ := hw.accessToken
  have heff := effect_of_ok hcall
  have hissued := issued_exchanged env request header hw.refreshToken ha
  -- the presented token is the last one of its family
  obtain ⟨i₀, hmem, hpresented⟩ := exists_issued_of_presented hideal ht hv
  obtain ⟨f, hf, hactive⟩ := heff.presented_of_ok
  obtain ⟨i₁, hlast, hhash⟩ := hi.last _ f hf
  have hi₀ : i₁ = i₀ := by
    refine List.inj_on_of_nodup_map hi.distinct hlast.mem hmem ?_
    rw [← hhash, hactive, Issued.tokenIdHash, hpresented]
  rw [hi₀] at hlast
  have hlow : p.tokens.claims.scopes.accessScope ≤ i₀.refresh.scopes.accessScope := by
    rw [hw.scopes, hpresented]
    exact ScopeGrant.accessScope_le_of_allows hallow
  refine hi.issue hissued (inSync_of_call hi.inSync hcall) (fun _ _ hl => hl) ?_ ?_ ?_ ?_ ?_
  · intro f hf
    rw [hw.family] at hf
    exact heff.lookup_of_ok hf
  · intro k f hk hf
    rw [hw.family] at hk
    exact heff.lookup_ne hk hf
  · obtain ⟨record, hstarted, hle⟩ := (hi.wellFormed i₀ hmem).started
    refine ⟨hw.version, hw.audience, ?_, ?_, ?_, ?_, record, ?_, ?_⟩
    · rw [hw.scopes]
      exact hw.isValid
    · rw [hw.family]
      exact hw.nonempty
    · rw [hscopes, hw.scopes]
    · rw [hfam, hw.family]
    · rw [hw.family, ← hpresented]
      exact hstarted.append _
    · exact AccessScope.le_trans hlow hle
  · exact hideal.tokenId _ _ _ _ rfl _ (randomValue_eq_ok.mpr ⟨b, hb, htokenId⟩)
  · intro j hj hk
    rw [hw.family] at hk
    exact AccessScope.le_trans hlow (hlast.accessScope_le hi.descending hj hk)

/-- A call of the token endpoint, whatever its effect. -/
theorem ServerInv.exchange {h : List ServerEvent} {s s' : OAuthState} {env : TokenEnv}
    {request : TokenRequest} {header : Option String} {result : Except OAuthError TokenResponse}
    (hi : ServerInv C S h s) (hideal : Ideal C S h (.exchanged env request header result))
    (heff : ExchangeEffect C S s env request header s' result) :
    ServerInv C S (h ++ [.exchanged env request header result]) s' := by
  cases heff with
  | refused hcodes =>
    exact hi.quiet rfl hi.inSync (fun hash r hl => (hi.codes _ _ (hcodes _ _ hl)).append _)
      fun k f hf => ⟨f, hf, rfl⟩
  | @redeemed x record p store answer hgrant hopen hrecord hcheck hp hcall =>
    cases answer with
    | ok u => exact hi.redeem hideal hgrant hopen hrecord hp hcall
    | error e =>
      refine hi.quiet rfl (inSync_of_call hi.inSync hcall) (fun hash r hl => ?_)
        (families_of_error hcall)
      exact (hi.codes _ _ (lookup_takeCode (s := s) hl)).append _
  | @refreshed p store answer hgrant hp hcall =>
    cases answer with
    | ok u => exact hi.refresh hideal hp hcall
    | error e =>
      exact hi.quiet rfl (inSync_of_call hi.inSync hcall)
        (fun hash r hl => (hi.codes _ _ hl).append _) (families_of_error hcall)

/-- **A step keeps the invariant.** -/
theorem serverInv_step {h : List ServerEvent} {s s' : OAuthState} {e : ServerEvent}
    (hi : ServerInv C S h s) (hs : IdealStep C S h s e s') : ServerInv C S (h ++ [e]) s' := by
  obtain ⟨hideal, hstep⟩ := hs
  cases hstep with
  | completed hc => exact hi.complete hc
  | @exchanged _ env request header result hx =>
    have heff := exchangeToken_effect (C := C) (S := S) s env request header
    rw [hx] at heff
    exact hi.exchange hideal heff
  | @restarted reader store hopen =>
    obtain ⟨hsync, hsame⟩ := RefreshTokenStore.open_inSync hi.inSync hopen
    refine hi.quiet rfl hsync (fun hash r hl => ?_) fun k f hf => ⟨f, ?_, rfl⟩
    · rw [AList.lookup_empty] at hl
      exact absurd hl (by simp)
    · rw [← hsame.2 k]
      exact hf
  | _ =>
    exact hi.quiet rfl hi.inSync (fun hash r hl => (hi.codes _ _ hl).append _)
      fun k f hf => ⟨f, hf, rfl⟩

theorem serverInv_run {h : List ServerEvent} {s : OAuthState}
    (hr : Run (IdealStep C S) .start h s) : ServerInv C S h s :=
  Steps.invariant (fun _ _ _ _ => serverInv_step) serverInv_start hr

/-! ## Families that the owner started -/

/--
The family was started by redeeming a code, and that code was minted by a form in which the owner
approved the private scope.
-/
def StartedByOwner (C : Crates) (S : OAuthSettings) (h : List ServerEvent) (k : String) : Prop :=
  ∃ pre post env request header response x i,
    h = pre ++ .exchanged env request header (.ok response) :: post ∧
    request.grantType = "authorization_code" ∧
    openCodeExchange C S request header = .ok x ∧
    (ServerEvent.exchanged env request header (.ok response)).issued C S = some i ∧
    i.refresh.familyId = k ∧
    ∃ completeEnv form result code record, .completed completeEnv form result ∈ pre ∧
      mintedCode C S completeEnv form = some (code, record) ∧
      tokenHash C S x.code = tokenHash C S code ∧
      form.decision = "approve" ∧ utf8 form.ownerSecret = S.ownerSecret ∧
      scopePrivate ∈ splitWhitespace form.scope

/-- A family with a private record was started by the owner. -/
theorem StartedFrom.startedByOwner {h : List ServerEvent} {k : String}
    {record : AuthorizationCode} (hs : StartedFrom C S h k record)
    (hprivate : record.scopes.accessScope = .«private») : StartedByOwner C S h k := by
  obtain ⟨pre, post, env, request, header, response, x, i, rfl, hgrant, hopen, hminted, hissued,
    hk⟩ := hs
  obtain ⟨completeEnv, form, result, code, hmem, hcode, hhash⟩ := hminted
  obtain ⟨hdecision, hsecret, hparse, _, _⟩ := mintedCode_eq_some hcode
  refine ⟨pre, post, env, request, header, response, x, i, rfl, hgrant, hopen, hissued, hk,
    completeEnv, form, result, code, record, hmem, hcode, hhash, hdecision, hsecret, ?_⟩
  exact (ScopeGrant.mem_of_parse hparse).mp (ScopeGrant.accessScope_eq_private_iff.mp hprivate)

/-- An accepted bearer token is one that went out, and its scope is that of its claims. -/
theorem exists_issued_of_authenticated {h : List ServerEvent} {s : OAuthState} {token : String}
    {now : UInt64} {identity : OAuthIdentity}
    (hideal : Ideal C S h (.authenticated token now (.ok identity)))
    (ha : authenticateBearer C S s token now = .ok identity) :
    ∃ i ∈ issuedTokens C S h, token = accessTokenOf C S i.access ∧
      identity.scope = i.access.scopes.accessScope := by
  obtain ⟨claims, hv, hscope, _⟩ := authenticateBearer_eq_ok ha
  obtain ⟨i, hmem, htoken⟩ := hideal.access _ _ _ rfl claims hv
  refine ⟨i, hmem, htoken, ?_⟩
  rw [htoken, verifyToken_accessTokenOf] at hv
  rw [hscope, ← Except.ok.inj hv]

/-! ## Logins and refreshes that succeed -/

/-- Completing an authorization draws nothing that has to be new here, and presents no token. -/
theorem ideal_completed {h : List ServerEvent} {env : CompleteEnv} {form : ApprovalForm}
    {result : Except OAuthError AuthorizationRedirect} :
    Ideal C S h (.completed env form result) := by
  refine ⟨?_, ?_, ?_, ?_⟩
  · rintro _ _ _ ⟨⟩
  · rintro _ _ _ _ ⟨⟩
  · rintro _ _ _ _ ⟨⟩
  · rintro _ _ _ _ ⟨⟩

/-- A refresh with a token that went out, which draws a new token id. -/
theorem ideal_refresh {h : List ServerEvent} {env : TokenEnv} {request : TokenRequest}
    {header : Option String} {result : Except OAuthError TokenResponse} {i : Issued} {b : Digest}
    (hmem : i ∈ issuedTokens C S h)
    (ht : request.refreshToken = some (refreshTokenOf C S i.refresh))
    (hfamily : env.familyDraw = none) (htoken : env.tokenDraw = some b)
    (hnew : ∀ j ∈ issuedTokens C S h, j.tokenIdHash C S
      ≠ refreshTokenIdHash C S ("rti_" ++ Base64.urlSafe.encode b.1)) :
    Ideal C S h (.exchanged env request header result) := by
  refine ⟨?_, ?_, ?_, ?_⟩
  · rintro _ _ _ ⟨⟩
  · rintro _ _ _ _ ⟨⟩ token claims ht' _
    exact ⟨i, hmem, Option.some.inj (ht'.symm.trans ht)⟩
  · rintro _ _ _ _ ⟨⟩ k hk
    obtain ⟨b', hb', _⟩ := randomValue_eq_ok.mp hk
    exact absurd (hfamily.symm.trans hb') (by simp)
  · rintro _ _ _ _ ⟨⟩ t ht'
    obtain ⟨b', hb', rfl⟩ := randomValue_eq_ok.mp ht'
    cases Option.some.inj (htoken.symm.trans hb')
    exact hnew

/-- Completing an authorization leaves the refresh-token store alone. -/
theorem refreshTokens_completeAuthorization (s : OAuthState) (env : CompleteEnv)
    (form : ApprovalForm) :
    (completeAuthorization C S s env form).1.refreshTokens = s.refreshTokens := by
  rw [completeAuthorization_state]
  split <;> rfl

/-- A code that is minted is in the map afterwards. -/
theorem lookup_completeAuthorization {env : CompleteEnv} {form : ApprovalForm} {code : String}
    {record : AuthorizationCode} (hmint : mintedCode C S env form = some (code, record))
    (s : OAuthState) : (completeAuthorization C S s env form).1.authorizationCodes.lookup
      (tokenHash C S code) = some record := by
  rw [completeAuthorization_state, hmint]
  exact AList.lookup_insert _

/-- A code is redeemed for a family with a new name. -/
theorem exists_exchange_code {s : OAuthState} {record : AuthorizationCode} {env : TokenEnv}
    {request : TokenRequest} {header : Option String} {x : CodeExchange} {p : PreparedTokens}
    (hgrant : request.grantType = "authorization_code")
    (hopen : openCodeExchange C S request header = .ok x)
    (hfound : s.authorizationCodes.lookup (tokenHash C S x.code) = some record)
    (hcheck : checkRecord C x record env.now = .ok ())
    (hp : preparePair C S env record.scopes record.resource x.client.clientId = .ok p)
    (hio : env.io = .completes)
    (hnew : s.refreshTokens.state.families.lookup p.claims.familyId = none) :
    ∃ s', exchangeToken C S s env request header = (s', .ok p.response) ∧
      s'.refreshTokens.state.families.lookup p.claims.familyId
        = some ⟨refreshTokenIdHash C S p.claims.tokenId, p.claims.expiresAt, false⟩ := by
  obtain ⟨store, hcall, hlookup⟩ := RefreshTokenStore.call_createFamily hnew
    (refreshTokenIdHash C S p.claims.tokenId) p.claims.expiresAt env.issuedAt
  have hcreate : (s.takeCode (tokenHash C S x.code)).1.refreshTokens.createFamily env.io
      p.claims.familyId (refreshTokenIdHash C S p.claims.tokenId) p.claims.expiresAt env.issuedAt
        = (store, .ok ()) := by
    rw [hio]
    exact hcall
  refine ⟨⟨s.authorizationCodes.erase (tokenHash C S x.code), store⟩, ?_, hlookup⟩
  rw [exchangeToken_code hgrant, exchangeAuthorizationCode, hopen]
  show redeem C S (s.takeCode (tokenHash C S x.code)).1 env x
    (s.takeCode (tokenHash C S x.code)).2 = _
  have hremoved : (s.takeCode (tokenHash C S x.code)).2 = some record := hfound
  rw [hremoved]
  exact redeem_of_prepared hcheck hp hcreate

/-- A code is minted and redeemed, and the new family is in the store. -/
theorem exists_run_login {completeEnv : CompleteEnv} {form : ApprovalForm}
    {record : AuthorizationCode} {env : TokenEnv} {request : TokenRequest}
    {header : Option String} {x : CodeExchange} {p : PreparedTokens}
    (hmint : mintedCode C S completeEnv form = some (x.code, record))
    (hgrant : request.grantType = "authorization_code") (hnone : request.refreshToken = none)
    (hopen : openCodeExchange C S request header = .ok x)
    (hcheck : checkRecord C x record env.now = .ok ())
    (hp : preparePair C S env record.scopes record.resource x.client.clientId = .ok p)
    (hio : env.io = .completes) :
    ∃ approved s, Run (IdealStep C S) .start
        [.completed completeEnv form approved, .exchanged env request header (.ok p.response)] s ∧
      s.refreshTokens.state.families.lookup p.claims.familyId
        = some ⟨refreshTokenIdHash C S p.claims.tokenId, p.claims.expiresAt, false⟩ := by
  let s₁ := (completeAuthorization C S .start completeEnv form).1
  let e₁ : ServerEvent := .completed completeEnv form
    (completeAuthorization C S .start completeEnv form).2
  have hnew : s₁.refreshTokens.state.families.lookup p.claims.familyId = none := by
    rw [show s₁.refreshTokens = OAuthState.start.refreshTokens from
      refreshTokens_completeAuthorization _ _ _]
    exact RefreshTokenState.lookup_default _
  obtain ⟨s₂, hexchange, hlookup⟩ := exists_exchange_code hgrant hopen
    (lookup_completeAuthorization hmint .start) hcheck hp hio hnew
  have hempty : issuedTokens C S [e₁] = [] := rfl
  have hideal₂ : Ideal C S [e₁] (.exchanged env request header (.ok p.response)) := by
    refine ⟨by rintro _ _ _ ⟨⟩, ?_, ?_, ?_⟩
    · rintro _ _ _ _ ⟨⟩ token claims ht
      exact absurd (hnone.symm.trans ht) (by simp)
    · rintro _ _ _ _ ⟨⟩ _ _ i hi
      rw [hempty] at hi
      exact absurd hi List.not_mem_nil
    · rintro _ _ _ _ ⟨⟩ _ _ i hi
      rw [hempty] at hi
      exact absurd hi List.not_mem_nil
  have hrun : Run (IdealStep C S) .start [e₁] s₁ := .single ⟨ideal_completed, .completed rfl⟩
  exact ⟨_, _, hrun.tail ⟨hideal₂, .exchanged hexchange⟩, hlookup⟩

/-- The active token of a live family is exchanged for a new one. -/
theorem exists_run_refresh {h : List ServerEvent} {s : OAuthState} {env : TokenEnv}
    {request : TokenRequest} {header : Option String} {p : PreparedRotation}
    {f : RefreshTokenFamily} (hrun : Run (IdealStep C S) .start h s)
    (hideal : Ideal C S h (.exchanged env request header (.ok p.tokens.response)))
    (hgrant : request.grantType = "refresh_token")
    (hp : prepareRotation C S env request header = .ok p) (hio : env.io = .completes)
    (hf : s.refreshTokens.state.families.lookup p.presented.familyId = some f)
    (hr : f.revoked = false) (hlive : env.now < f.expiresAt)
    (hactive : f.activeTokenHash = refreshTokenIdHash C S p.presented.tokenId) :
    ∃ s', Run (IdealStep C S) .start
        (h ++ [.exchanged env request header (.ok p.tokens.response)]) s' ∧
      s'.refreshTokens.state.families.lookup p.presented.familyId
        = some ⟨refreshTokenIdHash C S p.tokens.claims.tokenId, p.tokens.claims.expiresAt,
            false⟩ := by
  obtain ⟨store, hcall, hlookup⟩ := RefreshTokenStore.call_rotate hf hr
    (refreshTokenIdHash C S p.tokens.claims.tokenId) p.tokens.claims.expiresAt hlive
  have hrotate : rotateFamily C S s.refreshTokens env p = (store, .ok ()) := by
    rw [rotateFamily, hio, ← hactive]
    exact hcall
  have hexchange : exchangeToken C S s env request header
      = (⟨s.authorizationCodes, store⟩, .ok p.tokens.response) := by
    rw [exchangeToken_refresh hgrant, exchangeRefreshToken, hp]
    simp only [hrotate]
    rfl
  exact ⟨_, hrun.tail ⟨hideal, .exchanged hexchange⟩, hlookup⟩

/-- A login and a refresh: two pairs went out, and the second one is the active one. -/
theorem exists_run_rotated {completeEnv : CompleteEnv} {form : ApprovalForm}
    {record : AuthorizationCode} {env env' : TokenEnv} {request request' : TokenRequest}
    {header header' : Option String} {x : CodeExchange} {p : PreparedTokens}
    {q : PreparedRotation} {b : Digest}
    (hmint : mintedCode C S completeEnv form = some (x.code, record))
    (hgrant : request.grantType = "authorization_code") (hnone : request.refreshToken = none)
    (hopen : openCodeExchange C S request header = .ok x)
    (hcheck : checkRecord C x record env.now = .ok ())
    (hp : preparePair C S env record.scopes record.resource x.client.clientId = .ok p)
    (hio : env.io = .completes) (hgrant' : request'.grantType = "refresh_token")
    (ht : request'.refreshToken = some (refreshTokenOf C S p.claims))
    (hq : prepareRotation C S env' request' header' = .ok q) (hpresented : q.presented = p.claims)
    (hfamily : env'.familyDraw = none) (htoken : env'.tokenDraw = some b)
    (hnew : refreshTokenIdHash C S p.claims.tokenId
      ≠ refreshTokenIdHash C S ("rti_" ++ Base64.urlSafe.encode b.1))
    (hio' : env'.io = .completes) (hlive : env'.now < p.claims.expiresAt) :
    ∃ h s, Run (IdealStep C S) .start h s ∧
      (∃ access access', issuedTokens C S h
        = [⟨p.claims, access⟩, ⟨q.tokens.claims, access'⟩]) ∧
      s.refreshTokens.state.families.lookup p.claims.familyId
        = some ⟨refreshTokenIdHash C S q.tokens.claims.tokenId, q.tokens.claims.expiresAt,
            false⟩ := by
  obtain ⟨approved, s, hrun, hf⟩ := exists_run_login hmint hgrant hnone hopen hcheck hp hio
  obtain ⟨hw, _⟩ := preparePair_eq_ok hp
  obtain ⟨access, ha, _⟩ := hw.accessToken
  obtain ⟨_, _, _, _, _, htokens⟩ := prepareRotation_eq_ok hq
  obtain ⟨hw', _⟩ := prepareTokens_eq_ok htokens
  obtain ⟨access', ha', _⟩ := hw'.accessToken
  have hissued : issuedTokens C S [.completed completeEnv form approved,
      .exchanged env request header (.ok p.response)] = [⟨p.claims, access⟩] := by
    show issuedTokens C S ([.completed completeEnv form approved] ++ [_]) = _
    rw [issuedTokens_append, issued_exchanged env request header hw.refreshToken ha]
    rfl
  have hmem : (⟨p.claims, access⟩ : Issued) ∈ issuedTokens C S
      [.completed completeEnv form approved,
        .exchanged env request header (.ok p.response)] := by
    rw [hissued]
    exact List.mem_singleton_self _
  have hideal : Ideal C S [.completed completeEnv form approved,
      .exchanged env request header (.ok p.response)]
      (.exchanged env' request' header' (.ok q.tokens.response)) := by
    refine ideal_refresh hmem ht hfamily htoken fun j hj => ?_
    rw [hissued, List.mem_singleton] at hj
    rw [hj]
    exact hnew
  rw [← hpresented] at hf hlive ⊢
  obtain ⟨s', hrun', hf'⟩ := exists_run_refresh hrun hideal hgrant' hq hio' hf rfl hlive rfl
  refine ⟨_, s', hrun', ⟨access, access', ?_⟩, hf'⟩
  rw [issuedTokens_append, hissued, issued_exchanged env' request' header' hw'.refreshToken ha',
    hpresented]
  rfl

end EngramMcp
