import EngramMcp.OAuth.Reference
import EngramMcp.OAuth.ServerRun

/-!
# Replayed refresh tokens

A refresh token that is no longer the active one of its family is a sign of theft, and the family
is revoked. The detection is the last step of a long handler, and the scope field is looked at
before it.

* `replay_punished_iff` — a replay is punished if and only if nothing before the last step stops
  the request: the token is short enough, the scope field is granted, and the draws succeed
* `replay_not_punished` — a replay with an unknown scope
-/

namespace EngramMcp

open Infra

/-- The event accepts no token of the family. -/
def ServerEvent.Refuses (C : Crates) (S : OAuthSettings) (k : String) : ServerEvent → Prop
  | .exchanged _ request _ result => request.grantType = "refresh_token" → ∀ token claims,
    request.refreshToken = some token →
    verifyToken C S C.refreshClaims refreshTokenPrefix refreshTokenLabel token = .ok claims →
    claims.familyId = k → ∃ e, result = .error e
  | .authenticated token _ result => ∀ claims,
    verifyToken C S C.accessClaims accessTokenPrefix accessTokenLabel token = .ok claims →
    claims.familyId = k → ∃ e, result = .error e
  | _ => True

/-- A call of the token endpoint, with what it reads from outside. -/
structure RefreshCall where
  env : TokenEnv
  request : TokenRequest
  header : Option String

/-- What the call does to the state. -/
def RefreshCall.after (C : Crates) (S : OAuthSettings) (s : OAuthState) (c : RefreshCall) :
    OAuthState := (exchangeToken C S s c.env c.request c.header).1

/-- Its answer. -/
def RefreshCall.answer (C : Crates) (S : OAuthSettings) (s : OAuthState) (c : RefreshCall) :
    Except OAuthError TokenResponse := (exchangeToken C S s c.env c.request c.header).2

/-- The call as an event. -/
def RefreshCall.event (C : Crates) (S : OAuthSettings) (s : OAuthState) (c : RefreshCall) :
    ServerEvent := .exchanged c.env c.request c.header (c.answer C S s)

/--
The replay is punished: the call fails, the family is revoked, and from then on no refresh token
and no access token of it is accepted.
-/
def Punished (C : Crates) (S : OAuthSettings) (h : List ServerEvent) (s : OAuthState)
    (c : RefreshCall) (k : String) : Prop :=
  (∃ e, c.answer C S s = .error e) ∧
  (∃ f, (c.after C S s).refreshTokens.state.families.lookup k = some f ∧ f.revoked = true) ∧
  ∀ h' s', Steps (IdealStep C S) (h ++ [c.event C S s]) (c.after C S s) h' s' →
    (∀ now, s'.refreshTokens.isActive k now = false) ∧
    ∃ post, h' = h ++ [c.event C S s] ++ post ∧ ∀ e ∈ post, e.Refuses C S k

/--
An authentic replay: the client authenticates and names the resource, and the token has a valid
signature, is unexpired, is bound to the client, and is not the active one of its live family.
-/
structure Replay (C : Crates) (S : OAuthSettings) (s : OAuthState) (c : RefreshCall)
    (token : String) (claims : RefreshTokenClaims) : Prop where
  grant : c.request.grantType = "refresh_token"
  client : ∃ client, authenticateClient C S c.request c.header = .ok client ∧
    claims.clientBinding = clientBinding C S client.clientId
  resource : c.request.resource = S.resource
  presented : c.request.refreshToken = some token
  signature :
    verifyToken C S C.refreshClaims refreshTokenPrefix refreshTokenLabel token = .ok claims
  unexpired : c.env.now < claims.expiresAt
  stale : ∃ f, s.refreshTokens.state.families.lookup claims.familyId = some f ∧
    f.revoked = false ∧ c.env.now < f.expiresAt ∧
    f.activeTokenHash ≠ refreshTokenIdHash C S claims.tokenId

variable {C : Crates} {S : OAuthSettings}

/-! ## A dead family -/

/-- The family had a token, and there is no live entry of it. -/
structure FamilyDead (C : Crates) (S : OAuthSettings) (k : String) (h : List ServerEvent)
    (s : OAuthState) : Prop where
  issued : ∃ i ∈ issuedTokens C S h, i.refresh.familyId = k
  dead : s.refreshTokens.state.NoLiveEntry k

theorem FamilyDead.issued_append {k : String} {h : List ServerEvent} {s : OAuthState}
    (hd : FamilyDead C S k h s) (e : ServerEvent) :
    ∃ i ∈ issuedTokens C S (h ++ [e]), i.refresh.familyId = k := by
  obtain ⟨i, hmem, hk⟩ := hd.issued
  rw [issuedTokens_append]
  exact ⟨i, List.mem_append_left _ hmem, hk⟩

/-- One call on the store: no live entry appears, and no token of the family is rotated. -/
theorem noLiveEntry_call {store store' : RefreshTokenStore} {io : PersistIo} {c : StoreCall}
    {answer : Except OAuthError Unit} (hcall : store.call io c = (store', answer)) {k : String}
    (hd : store.state.NoLiveEntry k)
    (hc : ∀ hash expiresAt now, c ≠ .createFamily k hash expiresAt now) :
    store'.state.NoLiveEntry k ∧ ∀ presented next expiresAt now,
      c = .rotate k presented next expiresAt now → ∃ e, answer = .error e := by
  have heff := store.call_effect io c
  rw [hcall] at heff
  rcases heff with heff | ⟨hstate, hanswer⟩
  · obtain ⟨hdead, hrefused⟩ := heff.noLiveEntry hd fun _ _ _ he => absurd he (hc _ _ _)
    exact ⟨hdead, fun _ _ _ _ he => ⟨_, hrefused _ _ _ _ he⟩⟩
  · rw [RefreshTokenState.NoLiveEntry, hstate]
    exact ⟨hd, fun _ _ _ _ _ => ⟨_, hanswer⟩⟩

/-- A call of the token endpoint leaves the family dead and is refused. -/
theorem FamilyDead.exchange {k : String} {h : List ServerEvent} {s s' : OAuthState}
    {env : TokenEnv} {request : TokenRequest} {header : Option String}
    {result : Except OAuthError TokenResponse} (hd : FamilyDead C S k h s)
    (hideal : Ideal C S h (.exchanged env request header result))
    (heff : ExchangeEffect C S s env request header s' result) :
    s'.refreshTokens.state.NoLiveEntry k ∧
      (ServerEvent.exchanged env request header result).Refuses C S k := by
  obtain ⟨i, hmem, hk⟩ := hd.issued
  cases heff with
  | refused _ => exact ⟨hd.dead, fun _ _ _ _ _ _ => ⟨_, rfl⟩⟩
  | @redeemed x record p store answer hgrant _ _ _ hp hcall =>
    obtain ⟨_, ⟨b, hb, hfamily⟩, _⟩ := preparePair_eq_ok hp
    -- the new family has another name
    have hne : p.claims.familyId ≠ k := by
      rw [← hk]
      exact (hideal.family _ _ _ _ rfl _ (randomValue_eq_ok.mpr ⟨b, hb, hfamily⟩) i hmem).symm
    have hc : ∀ hash expiresAt now,
        p.createCall C S env.issuedAt ≠ .createFamily k hash expiresAt now := by
      intro hash expiresAt now he
      exact hne (StoreCall.createFamily.inj he).1
    exact ⟨(noLiveEntry_call hcall hd.dead hc).1,
      fun hg => absurd (hgrant.symm.trans hg) (by decide)⟩
  | @refreshed p store answer _ hp hcall =>
    have hc : ∀ hash expiresAt now,
        p.rotateCall C S env.now ≠ .createFamily k hash expiresAt now := by
      intro hash expiresAt now he
      exact StoreCall.noConfusion he
    obtain ⟨hdead, hrefused⟩ := noLiveEntry_call hcall hd.dead hc
    refine ⟨hdead, fun _ token claims ht hv hfamily => ?_⟩
    obtain ⟨client, scopes, hopen, _⟩ := prepareRotation_eq_ok hp
    obtain ⟨token', ht', _, _, _, hv'⟩ := openRefreshToken_eq_ok.mp hopen
    cases Option.some.inj (ht.symm.trans ht')
    have hclaims : claims = p.presented := Except.ok.inj (hv.symm.trans hv')
    obtain ⟨e, he⟩ := hrefused _ _ _ _ (by rw [← hfamily, hclaims]; rfl)
    exact ⟨e, by rw [he]; rfl⟩

/-- **A dead family stays dead**, and the step refuses it. -/
theorem familyDead_step {k : String} {h : List ServerEvent} {s s' : OAuthState} {e : ServerEvent}
    (hi : ServerInv C S h s) (hd : FamilyDead C S k h s) (hs : IdealStep C S h s e s') :
    FamilyDead C S k (h ++ [e]) s' ∧ e.Refuses C S k := by
  obtain ⟨hideal, hstep⟩ := hs
  have hissued := hd.issued_append e
  cases hstep with
  | registered => exact ⟨⟨hissued, hd.dead⟩, trivial⟩
  | began => exact ⟨⟨hissued, hd.dead⟩, trivial⟩
  | @completed _ env form result hc =>
    have hs' : s' = (completeAuthorization C S s env form).1 := by rw [hc]
    rw [completeAuthorization_state] at hs'
    refine ⟨⟨hissued, ?_⟩, trivial⟩
    cases hmint : mintedCode C S env form with
    | none =>
      simp only [hmint] at hs'
      rw [hs']
      exact hd.dead
    | some m =>
      simp only [hmint] at hs'
      rw [hs']
      exact hd.dead
  | @exchanged _ env request header result hx =>
    have heff := exchangeToken_effect (C := C) (S := S) s env request header
    rw [hx] at heff
    obtain ⟨hdead, hrefused⟩ := hd.exchange hideal heff
    exact ⟨⟨hissued, hdead⟩, hrefused⟩
  | @authenticated token now =>
    refine ⟨⟨hissued, hd.dead⟩, fun claims hv hk => ?_⟩
    cases hr : authenticateBearer C S s token now with
    | error e => exact ⟨e, rfl⟩
    | ok identity =>
      obtain ⟨claims', hv', _, hactive⟩ := authenticateBearer_eq_ok hr
      cases Except.ok.inj (hv.symm.trans hv')
      rw [hk, hd.dead.isActive] at hactive
      exact absurd hactive (by simp)
  | @restarted reader store hopen =>
    obtain ⟨_, hsame⟩ := RefreshTokenStore.open_inSync hi.inSync hopen
    refine ⟨⟨hissued, fun f hf => hd.dead f ?_⟩, trivial⟩
    rw [← hsame.2 k]
    exact hf

/-! ## The replay -/

/-- The checks on the claims hold for every token that went out, is unexpired and bound. -/
theorem Replay.checkRefreshClaims {s : OAuthState} {c : RefreshCall} {token : String}
    {claims : RefreshTokenClaims} (hr : Replay C S s c token claims) {h : List ServerEvent}
    {i : Issued} (hw : i.WellFormed C S h) (hi : i.refresh = claims) :
    ∃ client, authenticateClient C S c.request c.header = .ok client ∧
      checkRefreshClaims C S client claims c.env.now = .ok () := by
  obtain ⟨client, hclient, hbinding⟩ := hr.client
  subst hi
  exact ⟨client, hclient, checkRefreshClaims_eq_ok.mpr ⟨hw.version, hw.isValid, hw.audience,
    hr.unexpired, hbinding⟩⟩

/--
**Which replays are punished.** For every reachable state and every authentic replay, with a
`persist` that succeeds: the replay is punished if and only if the token has at most 8192 bytes,
the scope field is absent or granted, and the draws for the new tokens succeed.
-/
theorem replay_punished_iff {h : List ServerEvent} {s : OAuthState}
    (hrun : Run (IdealStep C S) .start h s) {c : RefreshCall} {token : String}
    {claims : RefreshTokenClaims} (hr : Replay C S s c token claims)
    (hideal : Ideal C S h (c.event C S s)) (hio : c.env.io = .completes) :
    Punished C S h s c claims.familyId ↔
      token.utf8ByteSize ≤ maxFormValueLength ∧
      (∃ scopes, refreshedScopes claims c.request.scope = .ok scopes) ∧
      c.env.accessDraw.isSome = true ∧ c.env.tokenDraw.isSome = true := by
  have hinv := serverInv_run hrun
  obtain ⟨i, hmem, hi⟩ := exists_issued_of_presented hideal hr.presented hr.signature
  have hw := hinv.wellFormed i hmem
  obtain ⟨client, hclient, hcheck⟩ := hr.checkRefreshClaims hw hi
  obtain ⟨f, hf, hlive, hunexpired, hstale⟩ := hr.stale
  rw [← exists_prepareRotation_iff hclient hr.resource hr.presented hr.signature hcheck
    (hi ▸ hw.nonempty)]
  have hcall : exchangeToken C S s c.env c.request c.header
      = exchangeRefreshToken C S s c.env c.request c.header := exchangeToken_refresh hr.grant
  constructor
  · rintro ⟨_, ⟨g, hg, hrevoked⟩, _⟩
    -- a request that is stopped earlier leaves the family as it was
    cases hp : prepareRotation C S c.env c.request c.header with
    | ok p => exact ⟨p, rfl⟩
    | error e =>
      rw [RefreshCall.after, hcall, exchangeRefreshToken, hp, hf, Option.some.injEq] at hg
      rw [← hg, hlive] at hrevoked
      exact absurd hrevoked (by simp)
  · rintro ⟨p, hp⟩
    obtain ⟨_, _, hopen, _⟩ := prepareRotation_eq_ok hp
    obtain ⟨token', ht', _, _, _, hv'⟩ := openRefreshToken_eq_ok.mp hopen
    cases Option.some.inj (hr.presented.symm.trans ht')
    have hclaims : claims = p.presented := Except.ok.inj (hr.signature.symm.trans hv')
    -- the last step finds the wrong hash
    obtain ⟨hanswer, hrevoked⟩ : (rotateFamily C S s.refreshTokens c.env p).2
          = .error .invalidGrant ∧
        ∃ g, (rotateFamily C S s.refreshTokens c.env p).1.state.families.lookup claims.familyId
          = some g ∧ g.revoked = true := by
      have heff := s.refreshTokens.call_completes (p.rotateCall C S c.env.now)
      rw [rotateFamily, hio, hclaims]
      rw [hclaims] at hf hstale
      exact heff.replay hf hlive hunexpired hstale
    have hafter : c.after C S s
        = ⟨s.authorizationCodes, (rotateFamily C S s.refreshTokens c.env p).1⟩ := by
      rw [RefreshCall.after, hcall, exchangeRefreshToken, hp]
    have herror : ∃ e, c.answer C S s = .error e := by
      rw [RefreshCall.answer, hcall, exchangeRefreshToken, hp]
      simp only [hanswer]
      exact ⟨_, rfl⟩
    have hrevoked' : ∃ g, (c.after C S s).refreshTokens.state.families.lookup claims.familyId
        = some g ∧ g.revoked = true := by
      rw [hafter]
      exact hrevoked
    refine ⟨herror, hrevoked', fun h' s' hsteps => ?_⟩
    have hstep : IdealStep C S h s (c.event C S s) (c.after C S s) := ⟨hideal, .exchanged rfl⟩
    obtain ⟨g, hg, hgr⟩ := hrevoked'
    have hdead : FamilyDead C S claims.familyId (h ++ [c.event C S s]) (c.after C S s) := by
      refine ⟨⟨i, ?_, by rw [hi]⟩, RefreshTokenState.NoLiveEntry.of_revoked hg hgr⟩
      rw [issuedTokens_append]
      exact List.mem_append_left _ hmem
    obtain ⟨⟨_, hdead'⟩, post, hh, hrefuses⟩ := Steps.forall_mem_suffix
      (P := fun h s => ServerInv C S h s ∧ FamilyDead C S claims.familyId h s)
      (Q := ServerEvent.Refuses C S claims.familyId)
      (fun h s e s' hp hs =>
        have hd := familyDead_step hp.1 hp.2 hs
        ⟨⟨serverInv_step hp.1 hs, hd.1⟩, hd.2⟩) ⟨serverInv_step hinv hstep, hdead⟩ hsteps
    exact ⟨fun now => hdead'.dead.isActive now, post, hh, hrefuses⟩

/-! ## A stolen token -/

/-- The first refresh token of a login again, after it was refreshed once. -/
def replayCall (scope : Option String) : RefreshCall where
  env := { Reference.refreshEnv with
    now := 1790000200
    accessDraw := some (Reference.draw 7)
    tokenDraw := some (Reference.draw 8) }
  request := Reference.refreshRequest scope
  header := none

/-- The keyed hash of the token id that was drawn from equal bytes. -/
def drawnHash (b : UInt8) : String :=
  refreshTokenIdHash Reference.crates Reference.settings
    ("rti_" ++ Base64.urlSafe.encode (Reference.draw b).1)

theorem drawnHash_ne : drawnHash 4 ≠ drawnHash 6 ∧ drawnHash 4 ≠ drawnHash 8 ∧
    drawnHash 6 ≠ drawnHash 8 := by decide +kernel

/-- A login and one refresh lead to a state in which the first token is a replay. -/
theorem exists_replay (scope : Option String) : ∃ h s,
    Run (IdealStep Reference.crates Reference.settings) .start h s ∧
    Replay Reference.crates Reference.settings s (replayCall scope)
      (refreshTokenOf Reference.crates Reference.settings Reference.refreshClaims)
      Reference.refreshClaims ∧
    Ideal Reference.crates Reference.settings h
      ((replayCall scope).event Reference.crates Reference.settings s) := by
  obtain ⟨h46, h48, h68⟩ := drawnHash_ne
  obtain ⟨p, hp, hclaims, _⟩ := Reference.exists_preparePair_code
  obtain ⟨q, hq, hpresented, htokenId, hexp⟩ := Reference.exists_prepareRotation_refresh
  have hnow : Reference.tokenEnv.now < Reference.record.expiresAt := by decide
  have hlive : Reference.refreshEnv.now < p.claims.expiresAt := by
    rw [hclaims]
    decide +kernel
  have hpresented' : (Reference.refreshRequest none).refreshToken
      = some (refreshTokenOf Reference.crates Reference.settings p.claims) := by
    rw [hclaims]
    rfl
  have hnew : refreshTokenIdHash Reference.crates Reference.settings p.claims.tokenId
      ≠ drawnHash 6 := by
    rw [hclaims]
    exact h46
  obtain ⟨h, s, hrun, ⟨access, access', hissued⟩, hfamily⟩ := exists_run_rotated
    Reference.mintedCode_form rfl rfl Reference.openCodeExchange_codeRequest
    (Reference.checkRecord_codeExchange hnow) hp rfl rfl hpresented' hq
    (hpresented.trans hclaims.symm) rfl rfl hnew rfl hlive
  rw [hclaims] at hissued hfamily
  have hmem : (⟨Reference.refreshClaims, access⟩ : Issued)
      ∈ issuedTokens Reference.crates Reference.settings h := by
    rw [hissued]
    exact List.mem_cons_self
  have hideal : Ideal Reference.crates Reference.settings h
      ((replayCall scope).event Reference.crates Reference.settings s) := by
    refine ideal_refresh hmem rfl rfl rfl fun j hj => ?_
    rw [hissued, List.mem_cons, List.mem_singleton] at hj
    rcases hj with rfl | rfl
    · exact h48
    · rw [Issued.tokenIdHash, htokenId]
      exact h68
  have hunexpired : (1790000200 : UInt64) < Reference.refreshClaims.expiresAt := by decide +kernel
  have hactive : (1790000200 : UInt64) < q.tokens.claims.expiresAt := by
    rw [hexp]
    decide +kernel
  have hstale : refreshTokenIdHash Reference.crates Reference.settings q.tokens.claims.tokenId
      ≠ drawnHash 4 := by
    rw [htokenId]
    exact h46.symm
  exact ⟨h, s, hrun, ⟨rfl, ⟨Reference.client, Reference.authenticateClient_clientId rfl rfl, rfl⟩,
    rfl, rfl, verifyToken_refreshTokenOf _, hunexpired, _, hfamily, rfl, hactive, hstale⟩, hideal⟩

/-- Without a scope field the replay is punished. -/
theorem replay_punished_reuse : ∃ h s,
    Run (IdealStep Reference.crates Reference.settings) .start h s ∧
    Punished Reference.crates Reference.settings h s (replayCall none)
      Reference.refreshClaims.familyId := by
  obtain ⟨h, s, hrun, hreplay, hideal⟩ := exists_replay none
  have hallow : Reference.refreshClaims.scopes.allows Reference.refreshClaims.scopes = true := by
    decide
  exact ⟨h, s, hrun, (replay_punished_iff hrun hreplay hideal rfl).mpr
    ⟨Reference.utf8ByteSize_refreshToken, ⟨_, refreshedScopes_eq_ok.mpr ⟨rfl, hallow⟩⟩, rfl, rfl⟩⟩

/-- **A replay that goes unpunished**: it asks for a scope that does not exist. -/
theorem replay_not_punished : ∃ h s token claims,
    Run (IdealStep Reference.crates Reference.settings) .start h s ∧
    Replay Reference.crates Reference.settings s (replayCall (some "kb:all")) token claims ∧
    Ideal Reference.crates Reference.settings h
      ((replayCall (some "kb:all")).event Reference.crates Reference.settings s) ∧
    ¬ Punished Reference.crates Reference.settings h s (replayCall (some "kb:all"))
      claims.familyId := by
  obtain ⟨h, s, hrun, hreplay, hideal⟩ := exists_replay (some "kb:all")
  refine ⟨h, s, _, _, hrun, hreplay, hideal, fun hpunished => ?_⟩
  obtain ⟨_, ⟨scopes, hs⟩, _⟩ := (replay_punished_iff hrun hreplay hideal rfl).mp hpunished
  have hparse : ScopeGrant.parse "kb:all" = .ok scopes := (refreshedScopes_eq_ok.mp hs).1
  have hrejected : ScopeGrant.parse "kb:all" = .error .invalidScope := by decide +kernel
  rw [hrejected] at hparse
  exact absurd hparse (by simp)

end EngramMcp
