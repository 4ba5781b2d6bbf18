import EngramMcp.Http.Tools
import EngramMcp.Kb.Config
import EngramMcp.OAuth.ServerRun

/-!
# The service

`http.rs`: how a request passes through `authenticate_mcp_request`, and what `router` sets up.

Requests are served side by side. A request is cut where it takes a lock, reads a clock or calls
the file system, so any other request may come in between: its number, its authentication, the
rate limit, the tool call, each step of `create_note`, and the last line of the audit log.
A client may go away; its request then stays where it is, or the call that it made goes on.

* `ServiceState.step` — what an event does
* `ServiceRun` — the runs, in which no signature is forged
* `router` — the state in which the service starts
-/

namespace EngramMcp

open Infra

/-! ## Requests and responses -/

/-- A request to `/mcp`. -/
structure HttpRequest where
  method : String
  path : String
  headers : HeaderMap
  body : Bytes

/-- A response. -/
structure HttpResponse where
  status : Nat
  headers : HeaderMap
  body : Bytes

/-- What the transport finds in a request. -/
inductive McpCall (Arguments : Type)
  | callTool (name : String) (arguments : Arguments)
  | listTools
  /-- Anything that it answers by itself. -/
  | other

/-- The transport of `rmcp`: it reads a request, and writes the answer of the server. -/
structure Transport extends Rmcp where
  call : HttpRequest → McpCall Arguments
  toolResponse : HttpRequest → ToolAnswer → HttpResponse
  listResponse : HttpRequest → List String → HttpResponse
  otherResponse : HttpRequest → HttpResponse

/-- A request that asks for this note. -/
def Transport.AsksFor (T : Transport) (r : HttpRequest) (request : NoteRequest) : Prop :=
  ∃ name arguments, T.call r = .callTool name arguments ∧ T.toRmcp.AsksFor name arguments request

/-- A request that calls this tool. -/
def Transport.Calls (T : Transport) (r : HttpRequest) (name : String) : Prop :=
  ∃ arguments, T.call r = .callTool name arguments

/-- The crates of the service. -/
structure ServiceCrates where
  oauth : Crates
  kb : KbCrates
  toYaml : FrontMatterWriter
  transport : Transport

/-- `HeaderValue::from_str`. -/
def headerValueFromStr (text : String) : Option Bytes :=
  if (utf8 text).all fun b => (0x20 ≤ b && b != 0x7F) || b == 0x09 then some (utf8 text) else none

/-- `secured`. -/
def secured (response : HttpResponse) : HttpResponse :=
  { response with
    headers := (response.headers.insert "cache-control" (utf8 "no-store")).insert
      "x-content-type-options" (utf8 "nosniff") }

/-- `protected_resource_metadata_url`. -/
def protectedResourceMetadataUrl (S : OAuthSettings) : String :=
  S.issuer ++ "/.well-known/oauth-protected-resource"

/-- `unauthorized_mcp_response`. -/
def unauthorizedMcpResponse (S : OAuthSettings) : HttpResponse :=
  let response := secured ⟨401, [], []⟩
  let challenge := "Bearer resource_metadata=\"" ++ protectedResourceMetadataUrl S ++
    "\", scope=\"" ++ scopeTech ++ " " ++ scopePrivate ++ "\""
  match headerValueFromStr challenge with
  | some value => { response with headers := response.headers.insert "www-authenticate" value }
  | none => response

/-- The bytes of a response, by its `Content-Length`. -/
def contentLength (response : HttpResponse) : Nat :=
  (((response.headers.get "content-length").bind toStr).bind (parseUnsigned (2 ^ 64))).getD 0

/-! ## The state -/

/-- How far a request has come. -/
inductive Phase
  /-- It has its number. -/
  | received
  | authenticated (subject : AuthSubject)
  /-- It passed the rate limit, and waits to be served. -/
  | admitted (context : AuditContext)
  /-- A call of `create_note` is under way. -/
  | writing (context : AuditContext) (attempted call : Nat)
  /-- The server has answered. -/
  | answered (context : AuditContext) (response : HttpResponse)
  | served (context : AuditContext) (response : HttpResponse)
  | rejected (response : HttpResponse)

/-- The context with which a request is served. -/
def Phase.context? : Phase → Option AuditContext
  | admitted context | writing context _ _ | answered context _ | served context _ => some context
  | received | authenticated _ | rejected _ => none

/-- A request that has arrived. -/
structure ServiceRequest where
  request : HttpRequest
  id : UInt64
  phase : Phase

/-- The parts of `AppState` that never change. -/
structure App where
  authenticator : Authenticator
  settings : OAuthSettings
  shared : authenticator.oauth = some settings

/-- Bearer tokens are checked with the settings of the OAuth endpoints. -/
theorem App.settings_of_presentedToken (A : App) {headers : HeaderMap} {settings : OAuthSettings}
    {token : String} (h : A.authenticator.presentedToken headers = some (settings, token)) :
    settings = A.settings := by
  unfold Authenticator.presentedToken at h
  rw [A.shared] at h
  split at h
  · next hshared =>
    obtain ⟨_, -, hpair⟩ := Option.map_eq_some_iff.mp h
    rw [← (Prod.mk.inj hpair).1, Option.some.inj hshared]
  · cases h

/-- The parts that do: those of `AppState`, the server, the requests and the audit log. -/
structure ServiceState where
  oauth : OAuthState
  rateLimiter : RateLimiter
  requestCounter : UInt64
  server : KnowledgeBaseServer
  requests : List ServiceRequest
  auditLog : List AuditRecord

/-- A call of one of the OAuth endpoints, with what it reads from outside. -/
inductive OAuthCall
  | register (request : RegistrationRequest) (now : UInt64)
  | begin (query : AuthorizationQuery) (now : UInt64)
  | complete (env : CompleteEnv) (form : ApprovalForm)
  | exchange (env : TokenEnv) (request : TokenRequest) (headers : HeaderMap)

/-- The call with its answer, and the state after it. -/
def OAuthCall.run (C : Crates) (S : OAuthSettings) (state : OAuthState) :
    OAuthCall → OAuthState × ServerEvent
  | .register request now => (state, .registered request now (registerClient C S request now))
  | .begin query now => (state, .began query now (beginAuthorization C S query now))
  | .complete env form =>
    let (state', result) := completeAuthorization C S state env form
    (state', .completed env form result)
  | .exchange env request headers =>
    let header := (headers.get "authorization").bind toStr
    let (state', result) := exchangeToken C S state env request header
    (state', .exchanged env request header result)

/-- An OAuth call, a request that arrives, or the next step of one that has arrived. -/
inductive ServiceEvent
  | oauth (call : OAuthCall)
  | receive (request : HttpRequest)
  | authenticate (i : Nat) (now : UInt64)
  | checkRate (i : Nat) (now : ℚ)
  | dispatch (i : Nat) (env : CallEnv)
  | advance (i : Nat) (faults : Faults)
  | complete (i : Nat)

/-- What a client is sent. -/
inductive ServiceAnswer
  | oauth (answered : ServerEvent)
  | mcp (i : Nat) (response : HttpResponse)

namespace ServiceState

variable (W : ServiceCrates) (A : App)

/-- The request `i` is in a phase, and lines are added to the audit log. -/
def setPhase (s : ServiceState) (i : Nat) (r : ServiceRequest) (phase : Phase)
    (records : List AuditRecord) : ServiceState :=
  { s with
    requests := s.requests.set i { r with phase }
    auditLog := s.auditLog ++ records }

/-- The notes of the inbox change. -/
def withNotes (s : ServiceState) (inbox : InboxSupport) (notes : NoteServer) : ServiceState :=
  { s with server := s.server.withNotes inbox notes }

/-- A request arrives and gets its number. -/
def receive (s : ServiceState) (request : HttpRequest) : ServiceState :=
  { s with
    requestCounter := s.requestCounter + 1
    requests := s.requests ++ [⟨request, s.requestCounter + 1, .received⟩] }

/-- `authenticate_headers`. -/
def authenticate (s : ServiceState) (i : Nat) (r : ServiceRequest) (now : UInt64) :
    ServiceState × Option ServiceAnswer :=
  match Authenticator.authenticateHeaders W.oauth A.authenticator s.oauth r.request.headers now with
  | .ok subject => (s.setPhase i r (.authenticated subject) [], none)
  | .error _ =>
    let response := unauthorizedMcpResponse A.settings
    (s.setPhase i r (.rejected response)
      [.rejected r.id r.request.method r.request.path 401 "unauthorized"], some (.mcp i response))

/-- The `AuditContext` of a request. -/
def contextOf (r : ServiceRequest) (subject : AuthSubject) : AuditContext :=
  ⟨r.id, A.authenticator.fingerprint subject.credentialId, subject.scope⟩

/-- `rate_limiter.check`. -/
def checkRate (s : ServiceState) (i : Nat) (r : ServiceRequest) (subject : AuthSubject) (now : ℚ) :
    ServiceState × Option ServiceAnswer :=
  let (rateLimiter, admitted) := s.rateLimiter.check subject now
  match admitted with
  | .ok () =>
    ({ s with rateLimiter }.setPhase i r (.admitted (contextOf A r subject)) [], none)
  | .error .rateLimitExceeded =>
    let response := secured ⟨429, [], []⟩
    ({ s with rateLimiter }.setPhase i r (.rejected response)
      [.rejected r.id r.request.method r.request.path 429 "rate_limited"],
      some (.mcp i response))

/-- The transport calls the server, up to the first step of `create_note`. -/
def dispatch (s : ServiceState) (i : Nat) (r : ServiceRequest) (context : AuditContext)
    (env : CallEnv) : ServiceState :=
  match W.transport.call r.request with
  | .other => s.setPhase i r (.answered context (W.transport.otherResponse r.request)) []
  | .listTools =>
    s.setPhase i r (.answered context (W.transport.listResponse r.request
      (s.server.listTools (some context.scope)))) []
  | .callTool name arguments =>
    match s.server.callTool W.transport.toRmcp W.kb W.toYaml env context name arguments with
    | (server, .answered records answer) =>
      { s with server }.setPhase i r
        (.answered context (W.transport.toolResponse r.request answer)) records
    | (server, .writing attempted call) =>
      { s with server }.setPhase i r (.writing context attempted call) []

/-- The next step of `create_note`, or its return. -/
def advance (s : ServiceState) (i : Nat) (r : ServiceRequest) (context : AuditContext)
    (attempted call : Nat) (faults : Faults) : ServiceState :=
  match s.server.inbox with
  | none => s
  | some inbox =>
    match (inbox.notes.inbox.calls[call]?).bind fun entry => entry.2.result with
    | some result =>
      let (record, answer) := KnowledgeBaseServer.finishNote inbox.store context attempted result
      s.setPhase i r (.answered context (W.transport.toolResponse r.request answer)) [record]
    | none => s.withNotes inbox (inbox.notes.step W.toYaml inbox.store (.advance call faults))

/-- The response leaves. -/
def complete (s : ServiceState) (i : Nat) (r : ServiceRequest) (context : AuditContext)
    (response : HttpResponse) : ServiceState × Option ServiceAnswer :=
  let response := secured response
  (s.setPhase i r (.served context response)
    [.completed context r.request.method r.request.path response.status (contentLength response)],
    some (.mcp i response))

/-- What an event does. A step that a request is not ready for does nothing. -/
def step (s : ServiceState) : ServiceEvent → ServiceState × Option ServiceAnswer
  | .oauth call =>
    let (oauth, answered) := call.run W.oauth A.settings s.oauth
    ({ s with oauth }, some (.oauth answered))
  | .receive request => (s.receive request, none)
  | .authenticate i now =>
    match s.requests[i]? with
    | some r =>
      match r.phase with
      | .received => authenticate W A s i r now
      | _ => (s, none)
    | none => (s, none)
  | .checkRate i now =>
    match s.requests[i]? with
    | some r =>
      match r.phase with
      | .authenticated subject => checkRate A s i r subject now
      | _ => (s, none)
    | none => (s, none)
  | .dispatch i env =>
    match s.requests[i]? with
    | some r =>
      match r.phase with
      | .admitted context => (dispatch W s i r context env, none)
      | _ => (s, none)
    | none => (s, none)
  | .advance i faults =>
    match s.requests[i]? with
    | some r =>
      match r.phase with
      | .writing context attempted call =>
        (advance W s i r context attempted call faults, none)
      | _ => (s, none)
    | none => (s, none)
  | .complete i =>
    match s.requests[i]? with
    | some r =>
      match r.phase with
      | .answered context response => complete s i r context response
      | _ => (s, none)
    | none => (s, none)

/-- What an event is to the OAuth part of the service. -/
def serverEvent (s : ServiceState) : ServiceEvent → Option ServerEvent
  | .oauth call => some (call.run W.oauth A.settings s.oauth).2
  | .authenticate i now =>
    match s.requests[i]? with
    | some r =>
      match r.phase with
      | .received =>
        (A.authenticator.presentedToken r.request.headers).map fun (settings, token) =>
          .authenticated token now (authenticateBearer W.oauth settings s.oauth token now)
      | _ => none
    | none => none
  | _ => none

end ServiceState

/-! ## Runs -/

/-- An event, and what it is to the OAuth part. -/
structure ServiceLabel where
  event : ServiceEvent
  call : Option ServerEvent

/-- The OAuth part of a history. -/
def oauthHistory (h : List ServiceLabel) : List ServerEvent := h.filterMap ServiceLabel.call

/-- A step, after what happened to the OAuth part before the service started. -/
def ServiceStep (W : ServiceCrates) (A : App) (before : List ServerEvent) (h : List ServiceLabel)
    (s : ServiceState) (l : ServiceLabel) (s' : ServiceState) : Prop :=
  s' = (s.step W A l.event).1 ∧ l.call = s.serverEvent W A l.event ∧
    ∀ call ∈ l.call, Ideal W.oauth A.settings (before ++ oauthHistory h) call

/-- One event after another. -/
abbrev ServiceRun (W : ServiceCrates) (A : App) (before : List ServerEvent) (s₀ : ServiceState) :
    List ServiceLabel → ServiceState → Prop :=
  Run (ServiceStep W A before) s₀

/-! ## Starting -/

/-- `RouterError`. -/
inductive RouterError
  | store (source : StoreError)
  | oauth (source : OAuthError)

/-- The `inbox` of a configuration: one that cannot be opened is left out. -/
def openInbox {K : ConfigCrates} (fs : FileSystem) (config : Config K) (now : ℚ) :
    Option InboxSupport :=
  match config.inbox with
  | none => none
  | some settings =>
    match InboxStore.open fs settings.root config.kbRoot settings.maxNoteBytes
        settings.maxTotalBytes with
    | .error _ => none
    | .ok store => some ⟨store, .new settings.writesPerHour now (store.rootFd fs)⟩

/-- `OAuthBearerAuthenticator::new`, on the files of the state directory. -/
def OAuthState.new (K : ConfigCrates) (reader : RefreshStateReader) (dir : StateDir)
    (config : OAuthConfig) : Except OAuthError OAuthState :=
  match config.validate K with
  | .error _ => .error .invalidConfiguration
  | .ok () => (RefreshTokenStore.open reader dir).map fun store => ⟨∅, store⟩

/-- The fixed parts of `AppState`. -/
def App.new (W : ServiceCrates) {K : ConfigCrates} (config : Config K) : App where
  authenticator := .withOAuth W.oauth (utf8 config.keyA) (utf8 config.keyB) config.oauth.settings
  settings := config.oauth.settings
  shared := rfl

/-- `router`: the state in which the service starts. -/
def router {K : ConfigCrates} (reader : RefreshStateReader) (dir : StateDir) (fs : FileSystem)
    (now : ℚ) (config : Config K) : Except RouterError ServiceState :=
  match DocumentStore.new fs config.kbRoot config.maxReadBytes config.maxSearchFileBytes
      config.scopeDirectories with
  | .error e => .error (.store e)
  | .ok store =>
    match OAuthState.new K reader dir config.oauth with
    | .error e => .error (.oauth e)
    | .ok oauth =>
      .ok {
        oauth
        rateLimiter := .new config.rateLimitPerMinute config.rateLimitBurst
        requestCounter := 0
        server := ⟨store, config.maxSearchResponseBytes, openInbox fs config now⟩
        requests := []
        auditLog := [] }

end EngramMcp
