import EngramMcp.Http.Reference
import EngramMcp.Infra.Unwinding
import EngramMcp.Properties.Noninterference

/-!
# What a client with the tech scope can see

Two services with the same keys may hold different private documents, and one of them may have an
inbox where the other has none. Whatever is done with the private scope in one of them or in the
other, everybody else is answered alike: at the OAuth endpoints, when a request is refused, and
when it is served with the tech scope.

What private requests do is hidden, not that they arrive: they are numbered with the others, and
use up the rate limit of their credential.

What the directory walker reports is taken to depend on the directory it is given alone, so it reads
no ignore files of the directories above.

* `techView_unwinding` — two services that look alike go on looking alike
* `tech_view` — the answers in two runs
-/

namespace EngramMcp

open Infra ServiceState

variable {W : ServiceCrates} {A : App}

/-! ## What is hidden -/

/-- The context with which the request `i` is served. -/
abbrev ServiceState.context : ServiceState → Nat → Option AuditContext :=
  ServiceState.view fun r => r.phase.context?

/-- An event by which a private request is served. -/
def hiddenFromTech (s : ServiceState) : ServiceEvent → Bool
  | .dispatch i _ | .advance i _ | .complete i =>
    (s.context i).any fun context => context.scope.allowsPrivate
  | _ => false

/-- The service as a client without the private scope sees it. -/
def techView (W : ServiceCrates) (A : App) : Machine ServiceState ServiceEvent ServiceAnswer where
  step s e := s.step W A e
  hidden := hiddenFromTech

/-- The request that an event serves. -/
def ServiceEvent.serves : ServiceEvent → Option Nat
  | .dispatch i _ | .advance i _ | .complete i => some i
  | _ => none

/-- A request keeps the context with which it is served. -/
theorem context_after {s : ServiceState} {i : Nat} {context : AuditContext}
    (h : s.context i = some context) (es : List ServiceEvent) :
    ((techView W A).after s es).context i = some context := by
  induction es generalizing s with
  | nil => exact h
  | cons e es ih =>
    obtain ⟨r, hr, hcontext⟩ := Option.bind_eq_some_iff.mp h
    obtain ⟨r', hr', hcontext'⟩ :=
      (serviceMove_step (W := W) (A := A) s e).exists_context hr hcontext
    exact ih ((view_eq _ hr').trans hcontext')

/-- Either all events that serve a request are hidden, or none. -/
theorem visible_of_serves {s : ServiceState} {i : Nat} {context : AuditContext}
    (h : s.context i = some context) {es : List ServiceEvent}
    (hes : ∀ e ∈ es, e.serves = some i) :
    (techView W A).visible s es = if context.scope.allowsPrivate then [] else es := by
  induction es generalizing s with
  | nil => exact (ite_self _).symm
  | cons e es ih =>
    obtain ⟨he, hes⟩ := List.forall_mem_cons.mp hes
    have hhidden : (techView W A).hidden s e = context.scope.allowsPrivate := by
      cases e with
      | dispatch | advance | complete =>
        cases he
        exact (congrArg (Option.any _) h).trans rfl
      | oauth | receive | authenticate | checkRate => cases he
    have hrest := ih (context_after (W := W) (A := A) h [e]) hes
    cases hscope : context.scope.allowsPrivate with
    | true =>
      rw [Machine.visible_cons_hidden (hhidden.trans hscope)]
      exact hrest.trans (if_pos hscope)
    | false =>
      rw [Machine.visible_cons_seen (hhidden.trans hscope)]
      exact congrArg (e :: ·) (hrest.trans (if_neg (by rw [hscope]; decide)))

/-- The same event in two services. When a tool is called they hold the same public documents. -/
inductive TechAlike (store store' : DocumentStore) : ServiceEvent → ServiceEvent → Prop
  | same {e : ServiceEvent} : (∀ i env, e ≠ .dispatch i env) → TechAlike store store' e e
  | dispatch {i : Nat} {env env' : CallEnv} : AgreeOn .tech store env.fs store' env'.fs →
      TechAlike store store' (.dispatch i env) (.dispatch i env')

/-- The same phase, or two phases of a request that is served with the private scope. -/
inductive PhaseAlike : Phase → Phase → Prop
  | same {phase : Phase} : phase.writing? = none → PhaseAlike phase phase
  | «private» {phase phase' : Phase} {context : AuditContext} :
      phase.context? = some context → phase'.context? = some context →
      context.scope = .private → PhaseAlike phase phase'

/-- The same request in two services. -/
structure RequestAlike (r r' : ServiceRequest) : Prop where
  request : r.request = r'.request
  id : r.id = r'.id
  phase : PhaseAlike r.phase r'.phase

/-- Two services that look alike. -/
structure LooksAlike (store store' : DocumentStore) (s s' : ServiceState) : Prop where
  oauth : s.oauth = s'.oauth
  rateLimiter : s.rateLimiter = s'.rateLimiter
  requestCounter : s.requestCounter = s'.requestCounter
  store_left : s.server.store = store
  store_right : s'.server.store = store'
  maxSearchResponseBytes : s.server.maxSearchResponseBytes = s'.server.maxSearchResponseBytes
  length : s.requests.length = s'.requests.length
  request : ∀ (i : Nat) (r r' : ServiceRequest), s.requests[i]? = some r →
    s'.requests[i]? = some r' → RequestAlike r r'

theorem PhaseAlike.symm {phase phase' : Phase} (h : PhaseAlike phase phase') :
    PhaseAlike phase' phase := by
  cases h with
  | same hidle => exact .same hidle
  | «private» h h' hprivate => exact .private h' h hprivate

theorem PhaseAlike.context_eq {phase phase' : Phase} (h : PhaseAlike phase phase') :
    phase.context? = phase'.context? := by
  cases h with
  | same => rfl
  | «private» h h' => rw [h, h']

namespace LooksAlike

variable {store store' : DocumentStore} {s s' : ServiceState}

theorem symm (h : LooksAlike store store' s s') : LooksAlike store' store s' s where
  oauth := h.oauth.symm
  rateLimiter := h.rateLimiter.symm
  requestCounter := h.requestCounter.symm
  store_left := h.store_right
  store_right := h.store_left
  maxSearchResponseBytes := h.maxSearchResponseBytes.symm
  length := h.length.symm
  request i r r' hr hr' := by
    obtain ⟨hrequest, hid, hphase⟩ := h.request i r' r hr' hr
    exact ⟨hrequest.symm, hid.symm, hphase.symm⟩

/-- A request is in both services. -/
theorem exists_request (h : LooksAlike store store' s s') {i : Nat} {r : ServiceRequest}
    (hr : s.requests[i]? = some r) : ∃ r', s'.requests[i]? = some r' ∧ RequestAlike r r' := by
  have hlt := (List.getElem?_eq_some_iff.mp hr).1
  rw [h.length] at hlt
  have hr' := List.getElem?_eq_getElem hlt
  exact ⟨_, hr', h.request i r _ hr hr'⟩

/-- Or in none. -/
theorem getElem?_eq_none (h : LooksAlike store store' s s') {i : Nat}
    (hr : s.requests[i]? = none) : s'.requests[i]? = none := by
  rw [List.getElem?_eq_none_iff] at hr ⊢
  rw [← h.length]
  exact hr

/-- A request moves on in both services. -/
theorem moved (h : LooksAlike store store' s s') {i : Nat} {r r' : ServiceRequest}
    {phase phase' : Phase} (hr : s.requests[i]? = some r) (hr' : s'.requests[i]? = some r')
    (hphase : PhaseAlike phase phase') (records records' : List AuditRecord) :
    LooksAlike store store' (s.setPhase i r phase records)
      (s'.setPhase i r' phase' records') where
  oauth := h.oauth
  rateLimiter := h.rateLimiter
  requestCounter := h.requestCounter
  store_left := h.store_left
  store_right := h.store_right
  maxSearchResponseBytes := h.maxSearchResponseBytes
  length := by
    show (s.requests.set _ _).length = (s'.requests.set _ _).length
    rw [List.length_set, List.length_set, h.length]
  request j q q' hq hq' := by
    rw [getElem?_setPhase hr] at hq
    rw [getElem?_setPhase hr'] at hq'
    split at hq
    · next hj =>
      rw [if_pos hj] at hq'
      obtain rfl := Option.some.inj hq
      obtain rfl := Option.some.inj hq'
      obtain ⟨hrequest, hid, -⟩ := h.request i r r' hr hr'
      exact ⟨hrequest, hid, hphase⟩
    · next hj =>
      rw [if_neg hj] at hq'
      exact h.request j q q' hq hq'

/-- A private request moves on in one of them. -/
theorem moved_left (h : LooksAlike store store' s s') {i : Nat} {r : ServiceRequest}
    {phase : Phase} {context : AuditContext} (hr : s.requests[i]? = some r)
    (hcontext : r.phase.context? = some context) (hprivate : context.scope = .private)
    (hphase : phase.context? = some context) (records : List AuditRecord) :
    LooksAlike store store' (s.setPhase i r phase records) s' where
  oauth := h.oauth
  rateLimiter := h.rateLimiter
  requestCounter := h.requestCounter
  store_left := h.store_left
  store_right := h.store_right
  maxSearchResponseBytes := h.maxSearchResponseBytes
  length := by
    show (s.requests.set _ _).length = s'.requests.length
    rw [List.length_set, h.length]
  request j q q' hq hq' := by
    rw [getElem?_setPhase hr] at hq
    split at hq
    · next hj =>
      subst hj
      obtain rfl := Option.some.inj hq
      obtain ⟨hrequest, hid, hold⟩ := h.request j r q' hr hq'
      exact ⟨hrequest, hid, .private hphase (hold.context_eq.symm.trans hcontext) hprivate⟩
    · exact h.request j q q' hq hq'

/-- The inbox of one of them changes. -/
theorem withNotes (h : LooksAlike store store' s s') (inbox : InboxSupport) (notes : NoteServer) :
    LooksAlike store store' (s.withNotes inbox notes) s' :=
  ⟨h.oauth, h.rateLimiter, h.requestCounter, h.store_left, h.store_right,
    h.maxSearchResponseBytes, h.length, h.request⟩

/-! ## Hidden events -/

/-- A hidden event is a step of a private request. -/
theorem hidden_left (h : LooksAlike store store' s s') {e : ServiceEvent}
    (hhidden : hiddenFromTech s e = true) : LooksAlike store store' (s.step W A e).1 s' := by
  have hcontext : ∀ {i : Nat} {r : ServiceRequest} {context : AuditContext},
      (s.context i).any (fun context => context.scope.allowsPrivate) = true →
      s.requests[i]? = some r → r.phase.context? = some context → context.scope = .private := by
    intro i r context hany hr hc
    rw [ServiceState.context, view_eq _ hr, hc] at hany
    exact AccessScope.allowsPrivate_iff.mp hany
  have hmove := serviceMove_step (W := W) (A := A) s e
  generalize (s.step W A e).1 = t at hmove ⊢
  cases hmove with
  | idle => exact h
  | oauth | received | authenticated | unauthorized | admitted | rateLimited => cases hhidden
  | read hr hphase | completed hr hphase =>
    have hc := congrArg Phase.context? hphase
    exact h.moved_left hr hc (hcontext hhidden hr hc) rfl _
  | refused hr hphase | begun hr hphase =>
    have hc := congrArg Phase.context? hphase
    exact (h.withNotes _ _).moved_left hr hc (hcontext hhidden hr hc) rfl _
  | advanced => exact h.withNotes _ _
  | returned hr hphase =>
    have hc := congrArg Phase.context? hphase
    exact h.moved_left hr hc (hcontext hhidden hr hc) rfl _

end LooksAlike

/-! ## The tools -/

section

variable {K : KbCrates} {server server' : KnowledgeBaseServer} {env env' : CallEnv}
  {context : AuditContext}

theorem AgreeOn.read_eq {scope : AccessScope} {store store' : DocumentStore}
    {fs fs' : FileSystem} (h : AgreeOn scope store fs store' fs') (id : DocumentId) :
    store.read K fs scope id = store'.read K fs' scope id := by
  unfold DocumentStore.read
  rw [h.maxReadBytes, h.readLimited_eq]

theorem search_tech (h : AgreeOn context.scope server.store env.fs server'.store env'.fs)
    (hmax : server.maxSearchResponseBytes = server'.maxSearchResponseBytes)
    (arguments : SearchArguments) : server.search K env.fs context arguments
      = server'.search K env'.fs context arguments := by
  unfold KnowledgeBaseServer.search
  rw [hmax, h.search_eq]

theorem fetch_tech (h : AgreeOn context.scope server.store env.fs server'.store env'.fs)
    (arguments : FetchArguments) : server.fetch K env.fs context arguments
      = server'.fetch K env'.fs context arguments := by
  unfold KnowledgeBaseServer.fetch
  split
  · rfl
  · rw [h.read_eq]

/-- A tool call with the tech scope has its answer at once, and two services give the same. -/
theorem callTool_tech (M : Rmcp) (toYaml : FrontMatterWriter) (htech : context.scope = .tech)
    (h : AgreeOn .tech server.store env.fs server'.store env'.fs)
    (hmax : server.maxSearchResponseBytes = server'.maxSearchResponseBytes) (name : String)
    (arguments : M.Arguments) : ∃ records answer,
      server.callTool M K toYaml env context name arguments = (server, .answered records answer) ∧
      server'.callTool M K toYaml env' context name arguments
        = (server', .answered records answer) := by
  rw [← htech] at h
  have hinvisible : ∀ server : KnowledgeBaseServer,
      server.appendNoteIsVisible (some context.scope) = false := by
    intro server
    rw [htech]
    exact Bool.and_false _
  unfold KnowledgeBaseServer.callTool
  by_cases hname : name = "append_note"
  · rw [if_pos ⟨hname, hinvisible server⟩, if_pos ⟨hname, hinvisible server'⟩]
    exact ⟨[], .error toolNotFound, rfl, rfl⟩
  · rw [if_neg fun hn => hname hn.1, if_neg fun hn => hname hn.1]
    unfold KnowledgeBaseServer.routeTool
    split
    · split
      · exact ⟨_, _, rfl, rfl⟩
      · rw [search_tech h hmax]
        exact ⟨_, _, rfl, rfl⟩
    · split
      · exact ⟨_, _, rfl, rfl⟩
      · rw [fetch_tech h]
        exact ⟨_, _, rfl, rfl⟩
    · exact absurd rfl hname
    · exact ⟨_, _, rfl, rfl⟩

end

/-! ## Visible events -/

/-- The next step of a request that is served does not authenticate it, nor check its rate. -/
theorem step_of_context {s : ServiceState} {i : Nat} {r : ServiceRequest} {context : AuditContext}
    (hr : s.requests[i]? = some r) (hc : r.phase.context? = some context) :
    (∀ now, s.step W A (.authenticate i now) = (s, none)) ∧
      ∀ now, s.step W A (.checkRate i now) = (s, none) := by
  unfold ServiceState.step
  simp only [hr]
  generalize r.phase = phase at hc
  cases phase with
  | received | authenticated | rejected => cases hc
  | admitted | writing | answered | served => exact ⟨fun _ => rfl, fun _ => rfl⟩

namespace LooksAlike

variable {store store' : DocumentStore} {s s' : ServiceState}

/-- Both services take a step and answer alike. -/
def StepAlike (store store' : DocumentStore)
    (p p' : ServiceState × Option ServiceAnswer) : Prop :=
  LooksAlike store store' p.1 p'.1 ∧ p.2 = p'.2

theorem step_oauth (h : LooksAlike store store' s s') (call : OAuthCall) :
    StepAlike store store' (s.step W A (.oauth call)) (s'.step W A (.oauth call)) := by
  unfold ServiceState.step
  simp only [h.oauth]
  exact ⟨⟨rfl, h.rateLimiter, h.requestCounter, h.store_left, h.store_right,
    h.maxSearchResponseBytes, h.length, h.request⟩, rfl⟩

theorem step_receive (h : LooksAlike store store' s s') (request : HttpRequest) :
    StepAlike store store' (s.step W A (.receive request)) (s'.step W A (.receive request)) := by
  refine ⟨⟨h.oauth, h.rateLimiter, ?_, h.store_left, h.store_right, h.maxSearchResponseBytes, ?_,
    ?_⟩, rfl⟩
  · show s.requestCounter + 1 = s'.requestCounter + 1
    rw [h.requestCounter]
  · show (s.requests ++ [_]).length = (s'.requests ++ [_]).length
    rw [List.length_append, List.length_append, h.length]
    rfl
  · intro i r r' hr hr'
    rcases getElem?_receive hr with hold | ⟨rfl, rfl⟩
    · have hlt := (List.getElem?_eq_some_iff.mp hold).1
      rcases getElem?_receive hr' with hold' | ⟨hi, -⟩
      · exact h.request i r r' hold hold'
      · rw [hi, h.length] at hlt
        exact absurd hlt (lt_irrefl _)
    · rcases getElem?_receive hr' with hold' | ⟨-, rfl⟩
      · have hlt := (List.getElem?_eq_some_iff.mp hold').1
        rw [h.length] at hlt
        exact absurd hlt (lt_irrefl _)
      · exact ⟨rfl, by rw [h.requestCounter], .same rfl⟩

theorem step_authenticate (h : LooksAlike store store' s s') (i : Nat) (now : UInt64) :
    StepAlike store store' (s.step W A (.authenticate i now))
      (s'.step W A (.authenticate i now)) := by
  cases hr : s.requests[i]? with
  | none =>
    unfold ServiceState.step
    simp only [hr, h.getElem?_eq_none hr]
    exact ⟨h, rfl⟩
  | some r =>
    obtain ⟨r', hr', hrequest, hid, hphase⟩ := h.exists_request hr
    generalize hp : r.phase = phase at hphase
    generalize hp' : r'.phase = phase' at hphase
    cases hphase with
    | «private» hc hc' =>
      subst hp hp'
      rw [(step_of_context hr hc).1, (step_of_context hr' hc').1]
      exact ⟨h, rfl⟩
    | same =>
      unfold ServiceState.step
      simp only [hr, hr', hp, hp']
      split
      · unfold ServiceState.authenticate
        rw [h.oauth, hrequest]
        split
        · exact ⟨h.moved hr hr' (.same rfl) _ _, rfl⟩
        · exact ⟨h.moved hr hr' (.same rfl) _ _, rfl⟩
      · exact ⟨h, rfl⟩

theorem step_checkRate (h : LooksAlike store store' s s') (i : Nat) (now : ℚ) :
    StepAlike store store' (s.step W A (.checkRate i now)) (s'.step W A (.checkRate i now)) := by
  cases hr : s.requests[i]? with
  | none =>
    unfold ServiceState.step
    simp only [hr, h.getElem?_eq_none hr]
    exact ⟨h, rfl⟩
  | some r =>
    obtain ⟨r', hr', hrequest, hid, hphase⟩ := h.exists_request hr
    generalize hp : r.phase = phase at hphase
    generalize hp' : r'.phase = phase' at hphase
    cases hphase with
    | «private» hc hc' =>
      subst hp hp'
      rw [(step_of_context hr hc).2, (step_of_context hr' hc').2]
      exact ⟨h, rfl⟩
    | same =>
      unfold ServiceState.step
      simp only [hr, hr', hp, hp']
      split
      · next subject _ =>
        unfold ServiceState.checkRate
        rw [← h.rateLimiter]
        have hlimited : LooksAlike store store'
            { s with rateLimiter := (s.rateLimiter.check subject now).1 }
            { s' with rateLimiter := (s.rateLimiter.check subject now).1 } :=
          ⟨h.oauth, rfl, h.requestCounter, h.store_left, h.store_right,
            h.maxSearchResponseBytes, h.length, h.request⟩
        have hcontext : contextOf A r' subject = contextOf A r subject := by
          rw [contextOf, contextOf, hid]
        rcases hcheck : s.rateLimiter.check subject now with ⟨rateLimiter, ⟨⟨⟩⟩ | ⟨⟨⟩⟩⟩
        · rw [hcheck] at hlimited
          exact ⟨hlimited.moved hr hr' (.same rfl) _ _, rfl⟩
        · rw [hcheck] at hlimited
          simp only [hcontext]
          exact ⟨hlimited.moved hr hr' (.same rfl) _ _, rfl⟩
      · exact ⟨h, rfl⟩

/-- A request whose steps are seen is in the same phase in both services. -/
theorem exists_seen (h : LooksAlike store store' s s') {i : Nat} {r : ServiceRequest}
    (hseen : ((s.context i).any fun context => context.scope.allowsPrivate) = false)
    (hr : s.requests[i]? = some r) : ∃ r', s'.requests[i]? = some r' ∧ r'.request = r.request ∧
      r'.phase = r.phase ∧ r.phase.writing? = none ∧
      ∀ context, r.phase.context? = some context → context.scope = .tech := by
  obtain ⟨r', hr', hrequest, hid, hphase⟩ := h.exists_request hr
  rw [ServiceState.context, view_eq _ hr] at hseen
  have htech : ∀ context, r.phase.context? = some context → context.scope = .tech := by
    intro context hc
    rw [hc] at hseen
    cases hscope : context.scope with
    | tech => rfl
    | «private» =>
      rw [Option.any_some, hscope] at hseen
      cases hseen
  refine ⟨r', hr', hrequest.symm, ?_⟩
  generalize hp : r.phase = phase at hphase htech
  generalize hp' : r'.phase = phase' at hphase
  cases hphase with
  | same hidle => exact ⟨rfl, hidle, htech⟩
  | «private» hc _ hprivate =>
    rw [htech _ hc] at hprivate
    cases hprivate

theorem step_dispatch (h : LooksAlike store store' s s') (i : Nat) {env env' : CallEnv}
    (hagree : AgreeOn .tech store env.fs store' env'.fs)
    (hseen : hiddenFromTech s (.dispatch i env) = false) :
    StepAlike store store' (s.step W A (.dispatch i env)) (s'.step W A (.dispatch i env')) := by
  unfold ServiceState.step
  cases hr : s.requests[i]? with
  | none =>
    simp only [hr, h.getElem?_eq_none hr]
    exact ⟨h, rfl⟩
  | some r =>
    obtain ⟨r', hr', hrequest, hphase, -, htech⟩ := h.exists_seen hseen hr
    simp only [hr, hr', hphase]
    split
    · next context hadmitted =>
      have hscope := htech context (by rw [hadmitted]; rfl)
      rw [← h.store_left, ← h.store_right] at hagree
      unfold ServiceState.dispatch
      rw [hrequest]
      split
      · exact ⟨h.moved hr hr' (.same rfl) _ _, rfl⟩
      · have hlist : ∀ server : KnowledgeBaseServer,
            server.listTools (some context.scope) = ["search", "fetch"] := by
          intro server
          rw [hscope, KnowledgeBaseServer.listTools, KnowledgeBaseServer.appendNoteIsVisible,
            show Option.any AccessScope.allowsPrivate (some .tech) = false from rfl,
            Bool.and_false]
          rfl
        rw [hlist, hlist]
        exact ⟨h.moved hr hr' (.same rfl) _ _, rfl⟩
      · next name arguments _ =>
        obtain ⟨records, answer, hleft, hright⟩ := callTool_tech (K := W.kb)
          W.transport.toRmcp W.toYaml hscope hagree h.maxSearchResponseBytes name arguments
        rw [hleft, hright]
        exact ⟨h.moved hr hr' (.same rfl) _ _, rfl⟩
    · exact ⟨h, rfl⟩

theorem step_advance (h : LooksAlike store store' s s') (i : Nat) (faults : Faults)
    (hseen : hiddenFromTech s (.advance i faults) = false) :
    StepAlike store store' (s.step W A (.advance i faults))
      (s'.step W A (.advance i faults)) := by
  unfold ServiceState.step
  cases hr : s.requests[i]? with
  | none =>
    simp only [hr, h.getElem?_eq_none hr]
    exact ⟨h, rfl⟩
  | some r =>
    obtain ⟨r', hr', -, hphase, hidle, -⟩ := h.exists_seen hseen hr
    simp only [hr, hr', hphase]
    split
    · next hwriting =>
      rw [hwriting] at hidle
      cases hidle
    · exact ⟨h, rfl⟩

theorem step_complete (h : LooksAlike store store' s s') (i : Nat)
    (hseen : hiddenFromTech s (.complete i) = false) :
    StepAlike store store' (s.step W A (.complete i)) (s'.step W A (.complete i)) := by
  unfold ServiceState.step
  cases hr : s.requests[i]? with
  | none =>
    simp only [hr, h.getElem?_eq_none hr]
    exact ⟨h, rfl⟩
  | some r =>
    obtain ⟨r', hr', -, hphase, -, -⟩ := h.exists_seen hseen hr
    simp only [hr, hr', hphase]
    split
    · exact ⟨h.moved hr hr' (.same rfl) _ _, rfl⟩
    · exact ⟨h, rfl⟩

end LooksAlike

/-- **Services that look alike go on looking alike.** -/
theorem techView_unwinding (W : ServiceCrates) (A : App) (store store' : DocumentStore) :
    Unwinding (techView W A) (techView W A) (TechAlike store store') (LooksAlike store store') where
  left h hhidden := h.hidden_left hhidden
  right h hhidden := (h.symm.hidden_left hhidden).symm
  both := by
    intro s s' e d h hseen _ halike
    show LooksAlike.StepAlike store store' (s.step W A e) (s'.step W A d)
    cases halike with
    | dispatch hagree => exact h.step_dispatch _ hagree hseen
    | same hne =>
      cases e with
      | oauth call => exact h.step_oauth call
      | receive request => exact h.step_receive request
      | authenticate i now => exact h.step_authenticate i now
      | checkRate i now => exact h.step_checkRate i now
      | dispatch i env => exact absurd rfl (hne i env)
      | advance i faults => exact h.step_advance i faults hseen
      | complete i => exact h.step_complete i hseen

/-! ## The property -/

variable {K K' : ConfigCrates}

/--
**What is done with the private scope cannot be seen without it.**

Two services have the same keys, limits and OAuth state, and the same public documents whenever a
tool is called with the tech scope. Two runs of them that differ in what private requests do show
everybody else the same answers, if what the walker reports depends on the directory it is given.
-/
theorem tech_view (D : Service W K) (D' : Service W K') (happ : D.app = D'.app)
    (hoauth : D.start.oauth = D'.start.oauth)
    (hlimit : D.start.rateLimiter = D'.start.rateLimiter)
    (hmax : D.start.server.maxSearchResponseBytes = D'.start.server.maxSearchResponseBytes)
    {es ds : List ServiceEvent}
    (hseen : List.Forall₂ (TechAlike D.start.server.store D'.start.server.store)
      ((techView W D.app).visible D.start es) ((techView W D.app).visible D'.start ds)) :
    (techView W D.app).observed D.start es = (techView W D'.app).observed D'.start ds := by
  have hstart : LooksAlike D.start.server.store D'.start.server.store D.start D'.start := by
    have hrequests := D.starts.requests
    have hrequests' := D'.starts.requests
    obtain ⟨_, _, -, -, hleft⟩ := D.start_eq
    obtain ⟨_, _, -, -, hright⟩ := D'.start_eq
    refine ⟨hoauth, hlimit, ?_, rfl, rfl, hmax, ?_, fun i r r' hr _ => ?_⟩
    · rw [hleft, hright]
    · rw [hrequests, hrequests']
    · rw [hrequests] at hr
      cases hr
  rw [← happ]
  exact (techView_unwinding W D.app _ _).observed_eq hstart hseen

namespace Sample

/-- The owner is about to file a note, and another client to search. -/
def admittedEvents : List ServiceEvent :=
  [.receive (keyRequest "private-key" (toolCall "append_note" noteArguments)),
    .authenticate 0 1790000000, .checkRate 0 1,
    .receive (keyRequest "tech-key" (toolCall "search" Sample.searchArguments)),
    .authenticate 1 1790000000, .checkRate 1 1]

/-- The note is filed. -/
def filedEvents : List ServiceEvent :=
  [.dispatch 0 ⟨fileSystem emptyKb, 1, 1786592700000000000⟩,
    .advance 0 Faults.none, .advance 0 Faults.none, .advance 0 Faults.none,
    .advance 0 Faults.none, .complete 0]

/-- The other client searches the knowledge base as it is then. -/
def searchedEvents (kb : Node) : List ServiceEvent :=
  [.dispatch 1 ⟨fileSystem kb, 2, 1786592700000000000⟩, .complete 1]

/-- Both requests are let in, each with its scope. -/
theorem admitted_facts : (techView serviceCrates app).mask service.start admittedEvents
      = List.replicate 6 false ∧
    (((techView serviceCrates app).after service.start admittedEvents).context 0).any
      (fun context => context.scope.allowsPrivate) = true ∧
    (((techView serviceCrates app).after service.start admittedEvents).context 1).any
      (fun context => !context.scope.allowsPrivate) = true := by
  decide +kernel

/-- What the other client sees. -/
theorem visible_searched (filed : List ServiceEvent) (hfiled : ∀ e ∈ filed, e.serves = some 0)
    (kb : Node) :
    (techView serviceCrates app).visible service.start
        (admittedEvents ++ filed ++ searchedEvents kb)
      = admittedEvents ++ searchedEvents kb := by
  obtain ⟨hmask, howner, hother⟩ := admitted_facts
  obtain ⟨c, hc, hprivate⟩ := (Option.any_eq_true _ _).mp howner
  obtain ⟨c', hc', htech⟩ := (Option.any_eq_true _ _).mp hother
  have hsearched : ∀ e ∈ searchedEvents kb, e.serves = some 1 := by
    simp [searchedEvents, ServiceEvent.serves]
  have hadmitted : (techView serviceCrates app).visible service.start admittedEvents
      = admittedEvents := by
    rw [Machine.visible_eq, hmask]
    rfl
  rw [Machine.visible_append, Machine.visible_append, hadmitted, visible_of_serves hc hfiled,
    if_pos hprivate, List.append_nil, Machine.after_append,
    visible_of_serves (context_after hc' filed) hsearched,
    if_neg (by rw [Bool.not_eq_true, ← Bool.not_eq_true', htech])]

theorem service_store : service.start.server.store.root = [kbDir] ∧
    "90_private" ∉ service.start.server.store.scopeRoots .tech := by
  decide +kernel

theorem agreeOn_tech : AgreeOn .tech service.start.server.store (fileSystem publicKb)
    service.start.server.store (fileSystem privateKb) := by
  have hroot : ∀ kb, service.start.server.store.rootFd (fileSystem kb) = kb := by
    intro kb
    rw [DocumentStore.rootFd, service_store.1]
    rfl
  have hchild : ∀ d : String, d ≠ "90_private" →
      publicKb.child (utf8 d) = privateKb.child (utf8 d) := by
    intro d hd
    refine (Node.child_append ?_).symm
    simpa [name] using hd
  refine ⟨rfl, rfl, rfl, ?_, fun d hd => ?_⟩
  · rw [hroot, hroot]
    exact hchild _ (by decide)
  · rw [hroot, hroot]
    refine hchild d ?_
    rintro rfl
    exact service_store.2 hd

/-- A note that is filed, and a private directory that cannot be listed, change no other answer. -/
theorem tech_view_note : (techView serviceCrates service.app).observed service.start
      (admittedEvents ++ filedEvents ++ searchedEvents publicKb)
    = (techView serviceCrates service.app).observed service.start
      (admittedEvents ++ searchedEvents privateKb) := by
  refine tech_view service service rfl rfl rfl rfl ?_
  have hfiled : ∀ e ∈ filedEvents, e.serves = some 0 := by
    simp [filedEvents, ServiceEvent.serves]
  have hnone := visible_searched [] (fun e he => by cases he) privateKb
  rw [List.append_nil] at hnone
  rw [service_app, visible_searched filedEvents hfiled, hnone]
  have hadmitted : ∀ e ∈ admittedEvents, ∀ i env, e ≠ .dispatch i env := by
    rintro e he i env rfl
    simp [admittedEvents] at he
  refine List.rel_append (List.forall₂_same.mpr fun e he => .same (hadmitted e he)) ?_
  exact .cons (.dispatch agreeOn_tech) (.cons (.same fun _ _ h => by cases h) .nil)

end Sample

end EngramMcp
