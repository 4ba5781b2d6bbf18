import EngramMcp.OAuth.ServerRun
import EngramMcp.Properties.CodeSingleUse

/-!
# A code is good for the client it was minted for

`code_single_use` says what a redemption implies. This is the other direction: the first call that
presents a code, from the client it is bound to and before it expires, is answered, whatever other
calls do before it, and between its removal of the code and its end.

* `StoresCode.step` — what leaves a code in the map
* `code_redeemable` — the property
-/

namespace EngramMcp

open Infra

variable {C : Crates} {S : OAuthSettings}

/-- The map holds the code with this record. -/
def StoresCode (C : Crates) (S : OAuthSettings) (code : String) (record : AuthorizationCode)
    (s : CodeSystem) : Prop :=
  s.server.authorizationCodes.lookup (tokenHash C S code) = some record

/-- The event brings up no code with the hash of this one, and does not drop it as expired. -/
structure CodeEvent.Spares (C : Crates) (S : OAuthSettings) (code : String)
    (record : AuthorizationCode) (e : CodeEvent) : Prop where
  hash_ne : ∀ c ∈ e.codes C S, tokenHash C S code ≠ tokenHash C S c
  unexpired : ∀ env form result, e = .completed env form result →
    env.prunedAt (tokenHash C S code) < record.expiresAt

/-- **A step that spares a code leaves it in the map.** -/
theorem StoresCode.step {code : String} {record : AuthorizationCode} {s s' : CodeSystem}
    {e : CodeEvent} (hs : StoresCode C S code record s) (hq : e.Spares C S code record)
    (h : CodeStep C S s e s') : StoresCode C S code record s' := by
  unfold StoresCode at hs ⊢
  cases h with
  | @completed state state' pending env form result hc =>
    have hstate : state' = (completeAuthorization C S state env form).1 := by rw [hc]
    rw [completeAuthorization_state] at hstate
    cases hmint : mintedCode C S env form with
    | none =>
      rw [hmint] at hstate
      rw [hstate]
      exact hs
    | some m =>
      obtain ⟨c, rec⟩ := m
      rw [hmint] at hstate
      have hne : tokenHash C S code ≠ tokenHash C S c :=
        hq.hash_ne c (by simp [CodeEvent.codes, hmint])
      rw [hstate]
      show (HashMap.retain _ _ |>.insert _ _).lookup _ = _
      rw [AList.lookup_insert_ne hne, HashMap.lookup_retain_eq_some]
      exact ⟨hs, decide_eq_true (hq.unexpired env form result rfl)⟩
  | @took state state' pending r hopen ht =>
    have hne : tokenHash C S code ≠ tokenHash C S r.x.code :=
      hq.hash_ne r.x.code (List.mem_singleton_self _)
    rw [← (Prod.mk.inj ht).1]
    exact (AList.lookup_erase_ne hne).trans hs
  | finished hred =>
    have hcodes := congrArg (fun p => p.1.authorizationCodes) hred
    rw [authorizationCodes_redeem] at hcodes
    rw [← hcodes]
    exact hs
  | other hcodes =>
    rw [hcodes]
    exact hs

/-- In a run with fresh codes, the events up to the first one that presents a code spare it. -/
theorem spares_of_first {store : RefreshTokenStore} {pre mid post : List CodeEvent}
    {s : CodeSystem} {env : CompleteEnv} {form : ApprovalForm}
    {result : Except OAuthError AuthorizationRedirect} {code : String} {record : AuthorizationCode}
    (hr : Run (FreshCodeStep C S) (.start store)
      (pre ++ .completed env form result :: (mid ++ post)) s)
    (hmint : mintedCode C S env form = some (code, record))
    (hfirst : ∀ q, .took q ∈ mid → q.x.code ≠ code)
    (hlive : ∀ env' form' result', .completed env' form' result' ∈ mid →
      env'.prunedAt (tokenHash C S code) < record.expiresAt) {e : CodeEvent} (he : e ∈ mid) :
    e.Spares C S code record := by
  have hbrought : code ∈ CodeEvent.codes C S (.completed env form result) := by
    simp [CodeEvent.codes, hmint]
  refine ⟨fun c hc hhash => ?_, fun env' form' result' heq => hlive env' form' result' (heq ▸ he)⟩
  obtain ⟨before, after, rfl⟩ := List.append_of_mem he
  have hseen : code ∈ seenCodes C S (pre ++ .completed env form result :: before) :=
    List.mem_flatMap.mpr ⟨_, by simp, hbrought⟩
  have hsplit : Run (FreshCodeStep C S) (.start store)
      ((pre ++ .completed env form result :: before) ++ e :: (after ++ post)) s := by
    simpa using hr
  obtain ⟨_, _, _, ⟨hfresh, _⟩, _⟩ := hsplit.split
  obtain rfl := hfresh.collisionFree code hseen c hc hhash
  cases e with
  | completed env' form' result' => exact hfresh.minted env' form' result' rfl code hc hseen
  | took q => exact hfirst q he (List.mem_singleton.mp hc).symm
  | finished | other => cases hc

/-! ## The property -/

/-- A request that is bound to a record passes the checks on it. -/
theorem checkRecord_of_boundTo {r : Redemption} {now : UInt64} {record : AuthorizationCode}
    (hopen : openCodeExchange C S r.request r.header = .ok r.x)
    (hbound : BoundTo C S r now record) : checkRecord C r.x record now = .ok () := by
  obtain ⟨-, huri, hverifier, hres, -, hclient⟩ := openCodeExchange_eq_ok hopen
  obtain ⟨-, ⟨client, hclient', hid⟩, huri', hres', hnow, verifier, hverifier', hmin, hmax, hplain,
    hchallenge⟩ := hbound
  obtain rfl := Except.ok.inj (hclient'.symm.trans hclient)
  obtain rfl := Option.some.inj (hverifier.symm.trans hverifier')
  have hvalid : validCodeVerifier r.x.codeVerifier = true := by
    simp only [validCodeVerifier, Bool.and_eq_true, decide_eq_true_eq, List.all_eq_true]
    exact ⟨⟨hmin, hmax⟩, hplain⟩
  exact checkRecord_eq_ok.mpr ⟨hnow, hid.symm, Option.some.inj (huri'.symm.trans huri),
    hres'.symm.trans hres, verifyPkce_iff.mpr ⟨hvalid, hchallenge⟩⟩

/-- The first call that presents a code finds its record. -/
theorem removed_of_first {store : RefreshTokenStore} {pre mid post : List CodeEvent}
    {s : CodeSystem} {env : CompleteEnv} {form : ApprovalForm}
    {approved : Except OAuthError AuthorizationRedirect} {code : String}
    {record : AuthorizationCode} {r : Redemption}
    (hr : Run (FreshCodeStep C S) (.start store)
      (pre ++ .completed env form approved :: (mid ++ .took r :: post)) s)
    (hmint : mintedCode C S env form = some (code, record)) (hcode : r.x.code = code)
    (hfirst : ∀ q, .took q ∈ mid → q.x.code ≠ code)
    (hlive : ∀ env' form' result', .completed env' form' result' ∈ mid →
      env'.prunedAt (tokenHash C S code) < record.expiresAt) :
    openCodeExchange C S r.request r.header = .ok r.x ∧ r.removed = some record := by
  obtain ⟨s₃, s₄, hbefore, ⟨-, htook⟩, -⟩ : ∃ s₃ s₄, Run (FreshCodeStep C S) (.start store)
      (pre ++ .completed env form approved :: mid) s₃ ∧
      FreshCodeStep C S (pre ++ .completed env form approved :: mid) s₃ (.took r) s₄ ∧
      Steps (FreshCodeStep C S) ((pre ++ .completed env form approved :: mid) ++ [.took r]) s₄
        ((pre ++ .completed env form approved :: mid) ++ .took r :: post) s := by
    refine Run.split ?_
    simpa using hr
  obtain ⟨s₁, s₂, -, ⟨-, hminted⟩, hmid⟩ := hbefore.split
  have hstored : StoresCode C S code record s₂ := by
    cases hminted with
    | @completed state state' _ _ _ _ hc =>
      have hlookup := lookup_completeAuthorization hmint state
      rw [hc] at hlookup
      exact hlookup
  -- what comes in between leaves the code in the map
  have hfound : StoresCode C S code record s₃ := by
    rw [show pre ++ CodeEvent.completed env form approved :: mid
      = (pre ++ [.completed env form approved]) ++ mid by simp] at hmid
    exact Steps.stays (fun _ _ _ _ hs hq hstep => hs.step hq hstep.2) hstored hmid
      fun e he => spares_of_first hr hmint hfirst hlive he
  cases htook with
  | took hopen ht =>
    refine ⟨hopen, (Prod.mk.inj ht).2.symm.trans ?_⟩
    rw [hcode]
    exact hfound

/-- A call that is bound to the record it removed is answered with tokens of its scopes. -/
theorem exists_redeem_of_boundTo {r : Redemption} {record : AuthorizationCode} {env : TokenEnv}
    {state : OAuthState} {b b' b'' : Digest}
    (hopen : openCodeExchange C S r.request r.header = .ok r.x)
    (hbound : BoundTo C S r env.now record) (hscopes : record.scopes.isValid = true)
    (hresource : record.resource = S.resource) (hfamilyDraw : env.familyDraw = some b)
    (haccessDraw : env.accessDraw = some b') (htokenDraw : env.tokenDraw = some b'')
    (hio : env.io = .completes)
    (hnew : state.refreshTokens.state.families.lookup ("rf_" ++ Base64.urlSafe.encode b.1)
      = none) :
    ∃ state' response access refresh,
      redeem C S state env r.x (some record) = (state', .ok response) ∧
      verifyToken C S C.accessClaims accessTokenPrefix accessTokenLabel response.accessToken
        = .ok access ∧ access.scopes = record.scopes ∧
      verifyToken C S C.refreshClaims refreshTokenPrefix refreshTokenLabel response.refreshToken
        = .ok refresh ∧ refresh.scopes = record.scopes := by
  obtain ⟨p, hp, hclaims, haccess⟩ := exists_preparePair (C := C) (S := S) hscopes hfamilyDraw
    haccessDraw htokenDraw r.x.client.clientId
  rw [← hresource] at hp
  have hnew' : state.refreshTokens.state.families.lookup p.claims.familyId = none := by
    rw [hclaims]
    exact hnew
  obtain ⟨store', hcall, -⟩ := RefreshTokenStore.call_createFamily hnew'
    (refreshTokenIdHash C S p.claims.tokenId) p.claims.expiresAt env.issuedAt
  have hcreate : state.refreshTokens.createFamily env.io p.claims.familyId
      (refreshTokenIdHash C S p.claims.tokenId) p.claims.expiresAt env.issuedAt
        = (store', .ok ()) := by
    rw [hio]
    exact hcall
  obtain ⟨access, hverify, hgranted⟩ : ∃ access, verifyToken C S C.accessClaims accessTokenPrefix
      accessTokenLabel p.response.accessToken = .ok access ∧ access.scopes = record.scopes :=
    ⟨_, by rw [haccess]; exact verifyToken_accessTokenOf _, rfl⟩
  refine ⟨_, p.response, access, p.claims,
    redeem_of_prepared (checkRecord_of_boundTo hopen hbound) hp hcreate, hverify, hgranted, ?_,
    by rw [hclaims]⟩
  rw [(preparePair_eq_ok hp).1.refreshToken]
  exact verifyToken_refreshTokenOf _

/--
**A code is redeemed by its client.**

In every interleaving: a form minted a code, a call is the first to present it, and when codes were
dropped in between it had not expired. If the request of the call is bound to the record of the
code, and the call comes to its checks before the code expires, it is answered with an access token
and a refresh token, both of exactly the scopes that the owner granted.
-/
theorem code_redeemable {store : RefreshTokenStore} {pre mid post : List CodeEvent}
    {s : CodeSystem} {env : CompleteEnv} {form : ApprovalForm}
    {approved : Except OAuthError AuthorizationRedirect} {code : String}
    {record : AuthorizationCode} {r : Redemption} {tokenEnv : TokenEnv} {b b' b'' : Digest}
    (hr : Run (FreshCodeStep C S) (.start store)
      (pre ++ .completed env form approved :: (mid ++ .took r :: post)) s)
    (hmint : mintedCode C S env form = some (code, record)) (hcode : r.x.code = code)
    (hfirst : ∀ q, .took q ∈ mid → q.x.code ≠ code)
    (hlive : ∀ env' form' result', .completed env' form' result' ∈ mid →
      env'.prunedAt (tokenHash C S code) < record.expiresAt)
    (hpending : r ∈ s.pending) (hbound : BoundTo C S r tokenEnv.now record)
    (hfamilyDraw : tokenEnv.familyDraw = some b) (haccessDraw : tokenEnv.accessDraw = some b')
    (htokenDraw : tokenEnv.tokenDraw = some b'') (hio : tokenEnv.io = .completes)
    (hnew : s.server.refreshTokens.state.families.lookup ("rf_" ++ Base64.urlSafe.encode b.1)
      = none) :
    ∃ s' response access refresh, CodeStep C S s (.finished r tokenEnv (.ok response)) s' ∧
      verifyToken C S C.accessClaims accessTokenPrefix accessTokenLabel response.accessToken
        = .ok access ∧ access.scopes = record.scopes ∧
      verifyToken C S C.refreshClaims refreshTokenPrefix refreshTokenLabel response.refreshToken
        = .ok refresh ∧ refresh.scopes = record.scopes := by
  obtain ⟨hopen, hremoved⟩ := removed_of_first hr hmint hcode hfirst hlive
  obtain ⟨-, -, hparse, hresource, -⟩ := mintedCode_eq_some hmint
  -- the rest of the call does not look at the map
  obtain ⟨state', response, access, refresh, hredeem, htokens⟩ :=
    exists_redeem_of_boundTo hopen hbound (ScopeGrant.isValid_of_parse hparse) hresource
      hfamilyDraw haccessDraw htokenDraw hio hnew
  rw [← hremoved] at hredeem
  obtain ⟨server, pending⟩ := s
  obtain ⟨l₁, l₂, rfl⟩ := List.append_of_mem hpending
  exact ⟨_, response, access, refresh, .finished hredeem, htokens⟩

/-- A code is minted, and a call removes it. -/
theorem exists_run_taken {env : CompleteEnv} {form : ApprovalForm} {code : String}
    {record : AuthorizationCode} {request : TokenRequest} {x : CodeExchange}
    (hmint : mintedCode C S env form = some (code, record))
    (hopen : openCodeExchange C S request none = .ok x) (hx : x.code = code) :
    ∃ approved s, Run (FreshCodeStep C S) (.start .fresh)
        [.completed env form approved, .took ⟨request, none, x, some record⟩] s ∧
      s.pending = [⟨request, none, x, some record⟩] ∧
      ∀ k, s.server.refreshTokens.state.families.lookup k = none := by
  subst hx
  obtain ⟨s₁, approved, hc⟩ : ∃ s₁ approved, completeAuthorization C S ⟨∅, .fresh⟩ env form
    = (s₁, approved) := ⟨_, _, Prod.mk.eta.symm⟩
  have hfound : s₁.authorizationCodes.lookup (tokenHash C S x.code) = some record := by
    rw [show s₁ = (completeAuthorization C S ⟨∅, .fresh⟩ env form).1 by rw [hc]]
    exact lookup_completeAuthorization hmint _
  have hcodes : CodeEvent.codes C S (.completed env form approved) = [x.code] := by
    rw [CodeEvent.codes, hmint]
    rfl
  have hfresh₁ : FreshCodes C S [] (.completed env form approved) :=
    ⟨by simp [seenCodes], by simp [seenCodes]⟩
  have hfresh₂ : FreshCodes C S [.completed env form approved]
      (.took ⟨request, none, x, some record⟩) :=
    freshCodes_of_one_code x.code (by simp [seenCodes, hcodes])
      (fun c hc => List.mem_singleton.mp hc) (fun _ _ _ h => by cases h)
  have hminted : Run (FreshCodeStep C S) (.start .fresh) [.completed env form approved] ⟨s₁, []⟩ :=
    .single ⟨hfresh₁, .completed hc⟩
  refine ⟨approved, _, hminted.tail ⟨hfresh₂, .took hopen (Prod.ext rfl hfound)⟩, rfl, fun k => ?_⟩
  show s₁.refreshTokens.state.families.lookup k = none
  rw [show s₁ = (completeAuthorization C S ⟨∅, .fresh⟩ env form).1 by rw [hc],
    refreshTokens_completeAuthorization]
  exact RefreshTokenState.lookup_default k

/-- The client redeems its code. -/
theorem code_redeemable_login : ∃ s s' response access refresh,
    CodeStep Reference.crates Reference.settings s
      (.finished ⟨Reference.codeRequest, none, Reference.codeExchange, some Reference.record⟩
        Reference.tokenEnv (.ok response)) s' ∧
    verifyToken Reference.crates Reference.settings Reference.crates.accessClaims
      accessTokenPrefix accessTokenLabel response.accessToken = .ok access ∧
    access.scopes = Reference.record.scopes ∧
    verifyToken Reference.crates Reference.settings Reference.crates.refreshClaims
      refreshTokenPrefix refreshTokenLabel response.refreshToken = .ok refresh ∧
    refresh.scopes = Reference.record.scopes := by
  obtain ⟨approved, s, hrun, hpending, hnew⟩ := exists_run_taken Reference.mintedCode_form
    Reference.openCodeExchange_codeRequest rfl
  have hnow : Reference.tokenEnv.now < Reference.record.expiresAt := by decide
  have hbound : BoundTo Reference.crates Reference.settings
      ⟨Reference.codeRequest, none, Reference.codeExchange, some Reference.record⟩
      Reference.tokenEnv.now Reference.record :=
    boundTo_of_checks Reference.openCodeExchange_codeRequest
      (Reference.checkRecord_codeExchange hnow)
  have hmem : (⟨Reference.codeRequest, none, Reference.codeExchange, some Reference.record⟩ :
      Redemption) ∈ s.pending := by
    rw [hpending]
    exact List.mem_singleton_self _
  have hrun' : Run (FreshCodeStep Reference.crates Reference.settings) (.start .fresh)
      ([] ++ .completed Reference.completeEnv Reference.form approved :: ([] ++ .took
        ⟨Reference.codeRequest, none, Reference.codeExchange, some Reference.record⟩ :: [])) s :=
    hrun
  exact ⟨s, code_redeemable hrun' Reference.mintedCode_form rfl
    (fun _ h => absurd h List.not_mem_nil) (fun _ _ _ h => absurd h List.not_mem_nil)
    hmem hbound rfl rfl rfl rfl (hnew _)⟩

end EngramMcp
