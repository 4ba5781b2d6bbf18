import EngramMcp.Http.ServiceRun

/-!
# What the requests of a run were let in with

A request that is being served was let in with a credential, and the audit log calls it by the
fingerprint of this credential.

* `serviceInv_run` — the credentials of the requests
-/

namespace EngramMcp

open Infra ServiceState

variable {W : ServiceCrates} {A : App} {before : List ServerEvent}

/-! ## Requests after a step -/

theorem getElem?_setPhase {s : ServiceState} {i : Nat} {r : ServiceRequest}
    (hr : s.requests[i]? = some r) (phase : Phase) (records : List AuditRecord) (j : Nat) :
    (s.setPhase i r phase records).requests[j]?
      = if j = i then some { r with phase } else s.requests[j]? := by
  show (s.requests.set i { r with phase })[j]? = _
  by_cases hj : j = i
  · subst hj
    rw [if_pos rfl, List.getElem?_set_self (List.getElem?_eq_some_iff.mp hr).1]
  · rw [if_neg hj, List.getElem?_set_ne (Ne.symm hj)]

theorem getElem?_receive {s : ServiceState} {request : HttpRequest} {j : Nat} {r : ServiceRequest}
    (h : (s.receive request).requests[j]? = some r) :
    s.requests[j]? = some r ∨
      (j = s.requests.length ∧ r = ⟨request, s.requestCounter + 1, .received⟩) := by
  have happend : (s.requests ++ [⟨request, s.requestCounter + 1, .received⟩])[j]? = some r := h
  rw [List.getElem?_append] at happend
  split at happend
  · exact Or.inl happend
  · next hj =>
    obtain ⟨hlt, hget⟩ := List.getElem?_eq_some_iff.mp happend
    rw [List.length_singleton] at hlt
    exact Or.inr ⟨by omega, by simpa using hget.symm⟩

/-- What a step does to the phase of a request. -/
inductive PhaseMove (W : ServiceCrates) (A : App) (s : ServiceState) (e : ServiceEvent) (j : Nat)
    (r : ServiceRequest) : Phase → Prop
  | same : PhaseMove W A s e j r r.phase
  | authenticated {now : UInt64} {subject : AuthSubject} :
      r.phase = .received → e = .authenticate j now →
      Authenticator.authenticateHeaders W.oauth A.authenticator s.oauth r.request.headers now
        = .ok subject →
      PhaseMove W A s e j r (.authenticated subject)
  | rejected {response : HttpResponse} : PhaseMove W A s e j r (.rejected response)
  | admitted {subject : AuthSubject} {now : ℚ} : r.phase = .authenticated subject →
      e = .checkRate j now → (s.rateLimiter.check subject now).2 = .ok () →
      PhaseMove W A s e j r (.admitted (contextOf A r subject))
  | served {context : AuditContext} {phase : Phase} : r.phase.context? = some context →
      phase.context? = some context → PhaseMove W A s e j r phase

/-- A request after a step is new, or was there, and its phase moved on. -/
theorem ServiceMove.request {s s' : ServiceState} {e : ServiceEvent} (h : ServiceMove W A s e s')
    {j : Nat} {r' : ServiceRequest} (hr' : s'.requests[j]? = some r') :
    (j = s.requests.length ∧ ∃ request, r' = ⟨request, s.requestCounter + 1, .received⟩) ∨
      ∃ r, s.requests[j]? = some r ∧ r'.request = r.request ∧ r'.id = r.id ∧
        PhaseMove W A s e j r r'.phase := by
  -- only the request whose turn it is moves
  have hset : ∀ {i : Nat} {r : ServiceRequest} {phase : Phase}, s.requests[i]? = some r →
      s'.requests = s.requests.set i { r with phase } → PhaseMove W A s e i r phase →
      ∃ r, s.requests[j]? = some r ∧ r'.request = r.request ∧ r'.id = r.id ∧
        PhaseMove W A s e j r r'.phase := by
    intro i r phase hr hs' hmove
    have hget := getElem?_setPhase hr phase [] j
    rw [show (s.setPhase i r phase []).requests = s'.requests from hs'.symm, hr'] at hget
    split at hget
    · next hj =>
      subst hj
      obtain rfl := Option.some.inj hget
      exact ⟨r, hr, rfl, rfl, hmove⟩
    · exact ⟨r', hget.symm, rfl, rfl, .same⟩
  cases h with
  | idle | oauth | advanced => exact Or.inr ⟨r', hr', rfl, rfl, .same⟩
  | @received request =>
    rcases getElem?_receive hr' with hold | ⟨hj, rfl⟩
    · exact Or.inr ⟨r', hold, rfl, rfl, .same⟩
    · exact Or.inl ⟨hj, request, rfl⟩
  | authenticated hr hphase hok => exact Or.inr (hset hr rfl (.authenticated hphase rfl hok))
  | unauthorized hr _ _ => exact Or.inr (hset hr rfl .rejected)
  | admitted hr hphase hcheck =>
    exact Or.inr (hset hr rfl (.admitted hphase rfl (congrArg Prod.snd hcheck)))
  | rateLimited hr _ _ => exact Or.inr (hset hr rfl .rejected)
  | read hr hphase | refused hr hphase | begun hr hphase | returned hr hphase
  | completed hr hphase =>
    exact Or.inr (hset hr rfl (.served (by rw [hphase]; rfl) rfl))

/-- The context of a request stays. -/
theorem ServiceMove.exists_context {s s' : ServiceState} {e : ServiceEvent}
    (h : ServiceMove W A s e s') {j : Nat} {r : ServiceRequest} {context : AuditContext}
    (hr : s.requests[j]? = some r) (hcontext : r.phase.context? = some context) :
    ∃ r', s'.requests[j]? = some r' ∧ r'.phase.context? = some context := by
  have hset : ∀ {i : Nat} {r₀ : ServiceRequest} {phase : Phase}, s.requests[i]? = some r₀ →
      s'.requests = s.requests.set i { r₀ with phase } →
      (∀ context, r₀.phase.context? = some context → phase.context? = some context) →
      ∃ r', s'.requests[j]? = some r' ∧ r'.phase.context? = some context := by
    intro i r₀ phase hr₀ hs' hphase
    have hget := getElem?_setPhase hr₀ phase [] j
    rw [show (s.setPhase i r₀ phase []).requests = s'.requests from hs'.symm] at hget
    rw [hget]
    split
    · next hj =>
      subst hj
      obtain rfl := Option.some.inj (hr₀.symm.trans hr)
      exact ⟨_, rfl, hphase context hcontext⟩
    · exact ⟨r, hr, hcontext⟩
  cases h with
  | idle | oauth | advanced => exact ⟨r, hr, hcontext⟩
  | received =>
    refine ⟨r, ?_, hcontext⟩
    exact (List.getElem?_append_left (List.getElem?_eq_some_iff.mp hr).1).trans hr
  | authenticated hr₀ hphase | unauthorized hr₀ hphase | admitted hr₀ hphase
  | rateLimited hr₀ hphase =>
    exact hset hr₀ rfl fun _ h => by rw [hphase] at h; cases h
  | read hr₀ hphase | refused hr₀ hphase | begun hr₀ hphase | returned hr₀ hphase
  | completed hr₀ hphase =>
    exact hset hr₀ rfl fun _ h => by rw [hphase] at h; exact h

/-! ## Credentials -/

/-- What a request was let in with: the scope of its credential, and its fingerprint. -/
inductive LetIn (W : ServiceCrates) (A : App) (history : List ServerEvent) (headers : HeaderMap) :
    AccessScope → String → Prop
  | keyA : Authenticator.HasKey headers A.authenticator.apiKeys.keyA →
      LetIn W A history headers .tech A.authenticator.apiKeys.fingerprintA
  | keyB : Authenticator.HasKey headers A.authenticator.apiKeys.keyB →
      LetIn W A history headers .private A.authenticator.apiKeys.fingerprintB
  /-- A token with the private scope comes from a grant of the owner. -/
  | bearer {token : String} {claims : AccessTokenClaims} :
      A.authenticator.presentedToken headers = some (A.settings, token) →
      verifyToken W.oauth A.settings W.oauth.accessClaims accessTokenPrefix accessTokenLabel token
        = .ok claims →
      (claims.scopes.accessScope = .private →
        StartedByOwner W.oauth A.settings history claims.familyId) →
      LetIn W A history headers claims.scopes.accessScope
        (hex (auditFingerprint W.oauth A.settings (tokenHash W.oauth A.settings token)))

theorem StartedByOwner.append {C : Crates} {S : OAuthSettings} {h : List ServerEvent} {k : String}
    (hs : StartedByOwner C S h k) (more : List ServerEvent) :
    StartedByOwner C S (h ++ more) k := by
  obtain ⟨pre, post, env, request, header, response, x, i, rfl, hrest⟩ := hs
  exact ⟨pre, post ++ more, env, request, header, response, x, i, by simp, hrest⟩

theorem LetIn.append {history : List ServerEvent} {headers : HeaderMap} {scope : AccessScope}
    {fingerprint : String} (h : LetIn W A history headers scope fingerprint)
    (more : List ServerEvent) : LetIn W A (history ++ more) headers scope fingerprint := by
  cases h with
  | keyA hkey => exact .keyA hkey
  | keyB hkey => exact .keyB hkey
  | bearer htoken hv howner => exact .bearer htoken hv fun hp => (howner hp).append more

/-- A bearer token that is accepted with the private scope comes from a grant of the owner. -/
theorem startedByOwner_of_authenticated {C : Crates} {S : OAuthSettings} {h : List ServerEvent}
    {s : OAuthState} {token : String} {now : UInt64} {identity : OAuthIdentity}
    {claims : AccessTokenClaims} (hinv : ServerInv C S h s)
    (hideal : Ideal C S h (.authenticated token now (.ok identity)))
    (ha : authenticateBearer C S s token now = .ok identity)
    (hv : verifyToken C S C.accessClaims accessTokenPrefix accessTokenLabel token = .ok claims)
    (hprivate : claims.scopes.accessScope = .private) :
    StartedByOwner C S h claims.familyId := by
  obtain ⟨i, hmem, rfl, -⟩ := exists_issued_of_authenticated hideal ha
  rw [verifyToken_accessTokenOf] at hv
  obtain rfl := Except.ok.inj hv
  have hw := hinv.wellFormed i hmem
  obtain ⟨record, hstarted, hle⟩ := hw.started
  rw [hw.family]
  refine hstarted.startedByOwner (AccessScope.eq_private_of_le ?_)
  rw [← hprivate, hw.scopes]
  exact hle

/-- A request that is let in. -/
theorem letIn_of_authenticated {history : List ServerEvent} {s : ServiceState} {i : Nat}
    {r : ServiceRequest} {now : UInt64} {subject : AuthSubject}
    (hinv : ServerInv W.oauth A.settings history s.oauth) (hr : s.requests[i]? = some r)
    (hphase : r.phase = .received)
    (hok : Authenticator.authenticateHeaders W.oauth A.authenticator s.oauth r.request.headers now
      = .ok subject)
    (hideal : ∀ call ∈ s.serverEvent W A (.authenticate i now),
      Ideal W.oauth A.settings history call) :
    LetIn W A history r.request.headers subject.scope
      (A.authenticator.fingerprint subject.credentialId) := by
  rcases Authenticator.authenticateHeaders_eq_ok hok with ⟨hkey, rfl⟩ | ⟨hkey, rfl⟩ |
    ⟨settings, token, identity, htoken, hidentity, rfl⟩
  · exact .keyA hkey
  · exact .keyB hkey
  · obtain rfl := A.settings_of_presentedToken htoken
    obtain ⟨claims, hv, hscope, -⟩ := authenticateBearer_eq_ok hidentity
    have hcall : s.serverEvent W A (.authenticate i now)
        = some (.authenticated token now (.ok identity)) := by
      unfold ServiceState.serverEvent
      simp only [hr, hphase, htoken, Option.map_some, hidentity]
    rw [Authenticator.fingerprint_subjectOf hidentity]
    show LetIn W A history r.request.headers identity.scope _
    rw [hscope]
    exact .bearer htoken hv fun hprivate =>
      startedByOwner_of_authenticated hinv (hideal _ hcall) hidentity hv hprivate

/-- Every request that was let in has a credential. -/
structure ServiceInv (W : ServiceCrates) (A : App) (history : List ServerEvent)
    (s : ServiceState) : Prop where
  subject : ∀ (i : Nat) (r : ServiceRequest) (subject : AuthSubject),
    s.requests[i]? = some r → r.phase = .authenticated subject →
    LetIn W A history r.request.headers subject.scope
      (A.authenticator.fingerprint subject.credentialId)
  context : ∀ (i : Nat) (r : ServiceRequest) (context : AuditContext),
    s.requests[i]? = some r → r.phase.context? = some context →
    context.requestId = r.id ∧
      LetIn W A history r.request.headers context.scope context.credentialFingerprint

theorem serviceInv_step {history : List ServerEvent} {s : ServiceState} {e : ServiceEvent}
    (hserver : ServerInv W.oauth A.settings history s.oauth)
    (hideal : ∀ call ∈ s.serverEvent W A e, Ideal W.oauth A.settings history call)
    (hinv : ServiceInv W A history s) (more : List ServerEvent) :
    ServiceInv W A (history ++ more) (s.step W A e).1 := by
  have hmove := serviceMove_step (W := W) (A := A) s e
  refine ⟨fun j r' subject hr' hphase' => ?_, fun j r' context hr' hcontext => ?_⟩
  · rcases hmove.request hr' with ⟨-, request, rfl⟩ | ⟨r, hr, hrequest, -, hphases⟩
    · cases hphase'
    · rw [hrequest]
      rw [hphase'] at hphases
      generalize hnew : Phase.authenticated subject = phase at hphases
      cases hphases with
      | same => exact (hinv.subject j r subject hr hnew.symm).append more
      | authenticated hreceived he hok =>
        cases hnew
        subst he
        exact (letIn_of_authenticated hserver hr hreceived hok hideal).append more
      | rejected | admitted => cases hnew
      | served _ hcontext =>
        rw [← hnew] at hcontext
        cases hcontext
  · rcases hmove.request hr' with ⟨-, request, rfl⟩ | ⟨r, hr, hrequest, hid, hphases⟩
    · cases hcontext
    · rw [hrequest, hid]
      generalize hnew : r'.phase = phase at hphases hcontext
      cases hphases with
      | same =>
        obtain ⟨hsame, hletIn⟩ := hinv.context j r context hr hcontext
        exact ⟨hsame, hletIn.append more⟩
      | authenticated | rejected => cases hcontext
      | @admitted subject _ hsubject =>
        cases hcontext
        exact ⟨rfl, (hinv.subject j r subject hr hsubject).append more⟩
      | @served context' _ hbefore hafter =>
        rw [hcontext] at hafter
        obtain rfl := Option.some.inj hafter
        obtain ⟨hsame, hletIn⟩ := hinv.context j r context hr hbefore
        exact ⟨hsame, hletIn.append more⟩

/-- **The credentials of the requests of a run.** -/
theorem serviceInv_run {s₀ s : ServiceState} {h : List ServiceLabel} (h0 : s₀.requests = [])
    (hbefore : Run (IdealStep W.oauth A.settings) .start before s₀.oauth)
    (hr : ServiceRun W A before s₀ h s) : ServiceInv W A (before ++ oauthHistory h) s := by
  refine (Steps.invariant (P := fun h s => ServiceRun W A before s₀ h s ∧
    ServiceInv W A (before ++ oauthHistory h) s) ?_ ⟨.refl, ?_⟩ hr).2
  · rintro h s l s' ⟨hrun, hinv⟩ hstep
    refine ⟨hrun.tail hstep, ?_⟩
    obtain ⟨rfl, hcall, hideal⟩ := hstep
    rw [oauthHistory_append, ← List.append_assoc]
    rw [hcall] at hideal
    exact serviceInv_step (serverInv_run (oauthRun_of_serviceRun hbefore hrun)) hideal hinv _
  · refine ⟨fun i r subject hr => ?_, fun i r context hr => ?_⟩
    · rw [h0] at hr
      cases hr
    · rw [h0] at hr
      cases hr

end EngramMcp
