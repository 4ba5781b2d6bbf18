import EngramMcp.Http.Service

/-!
# Runs of the service

What a step of the service can do, and what its runs are to the OAuth part and to the inbox.

* `serviceMove_step` — the moves: each is one branch of the middleware or of the server
* `oauthRun_of_serviceRun` — the OAuth part of a run is a run of the OAuth server
* `notesFrom_of_serviceRun` — the notes of a run are a run of the inbox
-/

namespace EngramMcp

open Infra ServiceState

/-- What a step does. -/
inductive ServiceMove (W : ServiceCrates) (A : App) (s : ServiceState) :
    ServiceEvent → ServiceState → Prop
  /-- The request is not ready for the step. -/
  | idle {e : ServiceEvent} : ServiceMove W A s e s
  | oauth {call : OAuthCall} :
      ServiceMove W A s (.oauth call) { s with oauth := (call.run W.oauth A.settings s.oauth).1 }
  | received {request : HttpRequest} : ServiceMove W A s (.receive request) (s.receive request)
  | authenticated {i : Nat} {r : ServiceRequest} {now : UInt64} {subject : AuthSubject} :
      s.requests[i]? = some r → r.phase = .received →
      Authenticator.authenticateHeaders W.oauth A.authenticator s.oauth r.request.headers now
        = .ok subject →
      ServiceMove W A s (.authenticate i now) (s.setPhase i r (.authenticated subject) [])
  | unauthorized {i : Nat} {r : ServiceRequest} {now : UInt64} {e : AuthError} :
      s.requests[i]? = some r → r.phase = .received →
      Authenticator.authenticateHeaders W.oauth A.authenticator s.oauth r.request.headers now
        = .error e →
      ServiceMove W A s (.authenticate i now)
        (s.setPhase i r (.rejected (unauthorizedMcpResponse A.settings))
          [.rejected r.id r.request.method r.request.path 401 "unauthorized"])
  | admitted {i : Nat} {r : ServiceRequest} {now : ℚ} {subject : AuthSubject}
      {rateLimiter : RateLimiter} :
      s.requests[i]? = some r → r.phase = .authenticated subject →
      s.rateLimiter.check subject now = (rateLimiter, .ok ()) →
      ServiceMove W A s (.checkRate i now)
        ({ s with rateLimiter }.setPhase i r (.admitted (contextOf A r subject)) [])
  | rateLimited {i : Nat} {r : ServiceRequest} {now : ℚ} {subject : AuthSubject}
      {rateLimiter : RateLimiter} :
      s.requests[i]? = some r → r.phase = .authenticated subject →
      s.rateLimiter.check subject now = (rateLimiter, .error .rateLimitExceeded) →
      ServiceMove W A s (.checkRate i now)
        ({ s with rateLimiter }.setPhase i r (.rejected (secured ⟨429, [], []⟩))
          [.rejected r.id r.request.method r.request.path 429 "rate_limited"])
  /-- A call that reads, or does nothing. -/
  | read {i : Nat} {r : ServiceRequest} {context : AuditContext} {env : CallEnv}
      {records : List AuditRecord} {response : HttpResponse} :
      s.requests[i]? = some r → r.phase = .admitted context →
      records.length ≤ 1 →
      (∀ record ∈ records, ∃ operation outcome id, record = .tool context operation outcome id) →
      (W.transport.Calls r.request "append_note" → ∃ answer : ToolAnswer,
        response = W.transport.toolResponse r.request answer ∧ answer.succeeded = false) →
      ServiceMove W A s (.dispatch i env) (s.setPhase i r (.answered context response) records)
  /-- A note is refused by the write limiter. -/
  | refused {i : Nat} {r : ServiceRequest} {context : AuditContext} {env : CallEnv}
      {inbox : InboxSupport} {limiter : WriteRateLimiter} {attempted : Nat}
      {answer : ToolAnswer} :
      s.requests[i]? = some r → r.phase = .admitted context →
      s.server.inbox = some inbox → context.scope = .private →
      inbox.notes.limiter.check env.instant = (limiter, .error .rateLimitExceeded) →
      answer.succeeded = false →
      ServiceMove W A s (.dispatch i env)
        ((s.withNotes inbox { inbox.notes with limiter }).setPhase i r
          (.answered context (W.transport.toolResponse r.request answer))
          [.toolWrite context "append_note" "rate_limited" none attempted])
  /-- A call of `create_note` begins. -/
  | begun {i : Nat} {r : ServiceRequest} {context : AuditContext} {env : CallEnv}
      {inbox : InboxSupport} {limiter : WriteRateLimiter} {request : NoteRequest} :
      s.requests[i]? = some r → r.phase = .admitted context →
      s.server.inbox = some inbox → context.scope = .private →
      inbox.notes.limiter.check env.instant = (limiter, .ok ()) →
      W.transport.AsksFor r.request request →
      request.fingerprint = context.credentialFingerprint →
      ServiceMove W A s (.dispatch i env)
        ((s.withNotes inbox ⟨limiter, inbox.notes.inbox.step W.toYaml inbox.store
            (.call request)⟩).setPhase i r
          (.writing context request.body.utf8ByteSize inbox.notes.inbox.calls.length) [])
  /-- A call of `create_note` goes on. -/
  | advanced {i : Nat} {r : ServiceRequest} {context : AuditContext} {attempted call : Nat}
      {faults : Faults} {inbox : InboxSupport} :
      s.requests[i]? = some r → r.phase = .writing context attempted call →
      s.server.inbox = some inbox →
      ServiceMove W A s (.advance i faults)
        (s.withNotes inbox (inbox.notes.step W.toYaml inbox.store (.advance call faults)))
  /-- It returns. -/
  | returned {i : Nat} {r : ServiceRequest} {context : AuditContext} {attempted call : Nat}
      {faults : Faults} {inbox : InboxSupport} {request : NoteRequest}
      {noteCall : NoteCall} {result : Except InboxError CreatedNote} :
      s.requests[i]? = some r → r.phase = .writing context attempted call →
      s.server.inbox = some inbox →
      inbox.notes.inbox.calls[call]? = some (request, noteCall) → noteCall.result = some result →
      ServiceMove W A s (.advance i faults)
        (s.setPhase i r (.answered context (W.transport.toolResponse r.request
            (KnowledgeBaseServer.finishNote inbox.store context attempted result).2))
          [(KnowledgeBaseServer.finishNote inbox.store context attempted result).1])
  | completed {i : Nat} {r : ServiceRequest} {context : AuditContext} {response : HttpResponse} :
      s.requests[i]? = some r → r.phase = .answered context response →
      ServiceMove W A s (.complete i)
        (s.setPhase i r (.served context (secured response))
          [.completed context r.request.method r.request.path (secured response).status
            (contentLength (secured response))])

variable {W : ServiceCrates} {A : App}

/-! ## Each step is a move -/

theorem authenticate_move {s : ServiceState} {i : Nat} {r : ServiceRequest} {now : UInt64}
    (hr : s.requests[i]? = some r) (hphase : r.phase = .received) :
    ServiceMove W A s (.authenticate i now) (ServiceState.authenticate W A s i r now).1 := by
  unfold ServiceState.authenticate
  split
  · next subject hsubject => exact .authenticated hr hphase hsubject
  · next e he => exact .unauthorized hr hphase he

theorem checkRate_move {s : ServiceState} {i : Nat} {r : ServiceRequest} {subject : AuthSubject}
    {now : ℚ} (hr : s.requests[i]? = some r) (hphase : r.phase = .authenticated subject) :
    ServiceMove W A s (.checkRate i now) (ServiceState.checkRate A s i r subject now).1 := by
  unfold ServiceState.checkRate
  rcases hcheck : s.rateLimiter.check subject now with ⟨rateLimiter, ⟨⟨⟩⟩ | ⟨⟨⟩⟩⟩
  · exact .rateLimited hr hphase hcheck
  · exact .admitted hr hphase hcheck

theorem dispatch_move {s : ServiceState} {i : Nat} {r : ServiceRequest} {context : AuditContext}
    {env : CallEnv} (hr : s.requests[i]? = some r) (hphase : r.phase = .admitted context) :
    ServiceMove W A s (.dispatch i env) (ServiceState.dispatch W s i r context env) := by
  have hsilent : ∀ response, (¬W.transport.Calls r.request "append_note") →
      ServiceMove W A s (.dispatch i env) (s.setPhase i r (.answered context response) []) :=
    fun response hother => .read hr hphase (Nat.zero_le 1) (fun _ h => absurd h List.not_mem_nil)
      fun hcalls => absurd hcalls hother
  unfold ServiceState.dispatch
  split
  · next hcalled =>
    exact hsilent _ fun ⟨_, hcalls⟩ => by rw [hcalled] at hcalls; cases hcalls
  · next hcalled =>
    exact hsilent _ fun ⟨_, hcalls⟩ => by rw [hcalled] at hcalls; cases hcalls
  · next name arguments hcalled =>
    have heffect : CallEffect W.toYaml s.server env context name _ _ _ :=
      KnowledgeBaseServer.callTool_effect (M := W.transport.toRmcp) (K := W.kb) name arguments
    rcases hcall : s.server.callTool W.transport.toRmcp W.kb W.toYaml env context name arguments
      with ⟨server, progress⟩
    rw [hcall] at heffect
    cases heffect with
    | read hlen hrecords hfails =>
      refine .read hr hphase hlen hrecords fun ⟨_, hcalls⟩ => ⟨_, rfl, hfails ?_⟩
      rw [hcalled] at hcalls
      exact (McpCall.callTool.inj hcalls).1
    | refused hinbox hprivate hcheck hfails =>
      exact .refused hr hphase hinbox hprivate hcheck hfails
    | begun hinbox hprivate hcheck hasks hfingerprint =>
      exact .begun hr hphase hinbox hprivate hcheck ⟨name, arguments, hcalled, hasks⟩ hfingerprint

theorem advance_move {s : ServiceState} {i : Nat} {r : ServiceRequest} {context : AuditContext}
    {attempted call : Nat} {faults : Faults} (hr : s.requests[i]? = some r)
    (hphase : r.phase = .writing context attempted call) :
    ServiceMove W A s (.advance i faults)
      (ServiceState.advance W s i r context attempted call faults) := by
  unfold ServiceState.advance
  split
  · exact .idle
  · next inbox hinbox =>
    split
    · next result hresult =>
      obtain ⟨⟨request, noteCall⟩, hcall, hanswer⟩ := Option.bind_eq_some_iff.mp hresult
      exact .returned hr hphase hinbox hcall hanswer
    · exact .advanced hr hphase hinbox

/-- **What a step does.** -/
theorem serviceMove_step (s : ServiceState) (e : ServiceEvent) :
    ServiceMove W A s e (s.step W A e).1 := by
  cases e with
  | oauth call => exact .oauth
  | receive request => exact .received
  | authenticate i now =>
    unfold ServiceState.step
    simp only
    split
    · next r hr =>
      split
      · next hphase => exact authenticate_move hr hphase
      · exact .idle
    · exact .idle
  | checkRate i now =>
    unfold ServiceState.step
    simp only
    split
    · next r hr =>
      split
      · next subject hphase => exact checkRate_move hr hphase
      · exact .idle
    · exact .idle
  | dispatch i env =>
    unfold ServiceState.step
    simp only
    split
    · next r hr =>
      split
      · next context hphase => exact dispatch_move hr hphase
      · exact .idle
    · exact .idle
  | advance i faults =>
    unfold ServiceState.step
    simp only
    split
    · next r hr =>
      split
      · next context attempted call hphase => exact advance_move hr hphase
      · exact .idle
    · exact .idle
  | complete i =>
    unfold ServiceState.step
    simp only
    split
    · next r hr =>
      split
      · next context response hphase => exact .completed hr hphase
      · exact .idle
    · exact .idle

/-! ## The OAuth part -/

theorem oauthHistory_append (h : List ServiceLabel) (l : ServiceLabel) :
    oauthHistory (h ++ [l]) = oauthHistory h ++ l.call.toList := by
  cases hc : l.call <;> simp [oauthHistory, hc]

/-- A call of an OAuth endpoint is a step of the OAuth server. -/
theorem serverStep_run (C : Crates) (S : OAuthSettings) (state : OAuthState) (call : OAuthCall) :
    ServerStep C S state (call.run C S state).2 (call.run C S state).1 := by
  cases call with
  | register request now => exact .registered
  | begin query now => exact .began
  | complete env form => exact .completed rfl
  | exchange env request headers => exact .exchanged rfl

/-- Only the OAuth endpoints change the OAuth state. -/
theorem ServiceMove.oauth_eq {s s' : ServiceState} {e : ServiceEvent} (h : ServiceMove W A s e s')
    (hne : ∀ call, e ≠ .oauth call) : s'.oauth = s.oauth := by
  cases h with
  | @oauth call => exact absurd rfl (hne call)
  | _ => rfl

/-- What an event is to the OAuth part: a step of the OAuth server, or nothing. -/
theorem serverEvent_step (s : ServiceState) (e : ServiceEvent) :
    (∃ call, s.serverEvent W A e = some call ∧
      ServerStep W.oauth A.settings s.oauth call (s.step W A e).1.oauth) ∨
    (s.serverEvent W A e = none ∧ (s.step W A e).1.oauth = s.oauth) := by
  cases e with
  | oauth call => exact Or.inl ⟨_, rfl, serverStep_run W.oauth A.settings s.oauth call⟩
  | authenticate i now =>
    have hmove : ServiceMove W A s (.authenticate i now) _ := serviceMove_step s _
    have hsame := hmove.oauth_eq fun _ h => by cases h
    rw [hsame]
    unfold ServiceState.serverEvent
    simp only
    split
    · next r _ =>
      split
      · cases htoken : A.authenticator.presentedToken r.request.headers with
        | none => exact Or.inr ⟨rfl, trivial⟩
        | some presented =>
          obtain ⟨settings, token⟩ := presented
          obtain rfl : settings = A.settings := A.settings_of_presentedToken htoken
          exact Or.inl ⟨_, rfl, .authenticated⟩
      · exact Or.inr ⟨rfl, trivial⟩
    · exact Or.inr ⟨rfl, trivial⟩
  | receive request => exact Or.inr ⟨rfl, rfl⟩
  | checkRate | dispatch | advance | complete =>
    exact Or.inr ⟨rfl, (serviceMove_step (W := W) (A := A) s _).oauth_eq fun _ h => by cases h⟩

/-- **The OAuth part of a run is a run of the OAuth server.** -/
theorem oauthRun_of_serviceRun {before : List ServerEvent} {s₀ s : ServiceState}
    {h : List ServiceLabel} (hbefore : Run (IdealStep W.oauth A.settings) .start before s₀.oauth)
    (hr : ServiceRun W A before s₀ h s) :
    Run (IdealStep W.oauth A.settings) .start (before ++ oauthHistory h) s.oauth := by
  refine Steps.invariant (P := fun h s =>
    Run (IdealStep W.oauth A.settings) .start (before ++ oauthHistory h) s.oauth) ?_ ?_ hr
  · rintro h s l s' hrun ⟨rfl, hcall, hideal⟩
    rw [oauthHistory_append, ← List.append_assoc]
    rcases serverEvent_step (W := W) (A := A) s l.event with ⟨call, hsome, hstep⟩ | ⟨hnone, hsame⟩
    · rw [hsome] at hcall
      rw [hcall] at hideal ⊢
      exact hrun.tail ⟨hideal call rfl, hstep⟩
    · rw [hcall, hnone, hsame, Option.toList_none, List.append_nil]
      exact hrun
  · rw [show oauthHistory [] = [] from rfl, List.append_nil]
    exact hbefore

/-! ## The notes -/

/--
An event of the service is one of the notes, or none. A call goes on in a step of its request.
-/
theorem ServiceMove.notes {s s' : ServiceState} {e : ServiceEvent} (h : ServiceMove W A s e s') :
    s'.server = s.server ∨ ∃ inbox event, s.server.inbox = some inbox ∧
      s'.server = s.server.withNotes inbox (inbox.notes.step W.toYaml inbox.store event) ∧
      ∀ call faults, event = .advance call faults → ∃ (i : Nat) (r : ServiceRequest)
        (context : AuditContext) (attempted : Nat), e = .advance i faults ∧
        s.requests[i]? = some r ∧ r.phase = .writing context attempted call := by
  cases h with
  | @refused _ _ _ env inbox limiter _ _ _ _ hinbox _ hcheck =>
    refine Or.inr ⟨inbox, .appendNote env.instant ⟨"", "", none, "", 0⟩, hinbox, ?_,
      fun _ _ he => by cases he⟩
    show s.server.withNotes inbox _ = s.server.withNotes inbox (inbox.notes.appendNote _ _ _ _)
    unfold NoteServer.appendNote
    rw [hcheck]
  | @begun _ _ _ env inbox limiter request _ _ hinbox _ hcheck _ _ =>
    refine Or.inr ⟨inbox, .appendNote env.instant request, hinbox, ?_,
      fun _ _ he => by cases he⟩
    show s.server.withNotes inbox _ = s.server.withNotes inbox (inbox.notes.appendNote _ _ _ _)
    rw [NoteServer.appendNote_of_ok hcheck]
  | @advanced i r context attempted call faults inbox hr hphase hinbox =>
    refine Or.inr ⟨inbox, .advance call faults, hinbox, rfl, ?_⟩
    rintro _ _ ⟨⟩
    exact ⟨i, r, context, attempted, rfl, hr, hphase⟩
  | _ => exact Or.inl rfl

/-- The inbox of a state is the one that the service started with, after a run of its notes. -/
def NotesFrom (toYaml : FrontMatterWriter) (start inbox : Option InboxSupport) : Prop :=
  match start with
  | none => inbox = none
  | some inbox₀ => ∃ events notes, inbox = some ⟨inbox₀.store, notes⟩ ∧
    NoteRun toYaml inbox₀.store inbox₀.notes events notes

/-- **The notes of a run are a run of the inbox.** -/
theorem notesFrom_of_serviceRun {before : List ServerEvent} {s₀ s : ServiceState}
    {h : List ServiceLabel} (hr : ServiceRun W A before s₀ h s) :
    NotesFrom W.toYaml s₀.server.inbox s.server.inbox := by
  refine Steps.invariant (P := fun _ s => NotesFrom W.toYaml s₀.server.inbox s.server.inbox)
    ?_ ?_ hr
  · rintro h s l s' hnotes ⟨rfl, -, -⟩
    rcases (serviceMove_step (W := W) (A := A) s l.event).notes with hsame |
      ⟨inbox, event, hinbox, hnext, -⟩
    · rw [hsame]
      exact hnotes
    · rw [hnext]
      rw [hinbox] at hnotes
      cases hstart : s₀.server.inbox with
      | none =>
        rw [hstart] at hnotes
        exact absurd hnotes (Option.some_ne_none inbox)
      | some inbox₀ =>
        rw [hstart] at hnotes
        obtain ⟨events, notes, hsome, hrun⟩ := hnotes
        obtain rfl := Option.some.inj hsome
        exact ⟨_, _, rfl, hrun.tail rfl⟩
  · unfold NotesFrom
    split
    · assumption
    · next inbox₀ hstart => exact ⟨[], inbox₀.notes, hstart, .refl⟩

end EngramMcp
