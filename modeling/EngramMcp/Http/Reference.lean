import EngramMcp.Http.Started

/-!
# A service that runs

The service of the small knowledge base in `Kb/Reference`, with its inbox. Its transport knows a
few requests, and reads them as the real one does.

* `Sample.service` — the service, which has never run before
* `Sample.run_noteEvents` — a run of it, in which the owner files a note
-/

namespace EngramMcp

open Infra ServiceState

/-- Whether none of these events reaches the OAuth part. -/
def ServiceState.quiet (W : ServiceCrates) (A : App) : ServiceState → List ServiceEvent → Bool
  | _, [] => true
  | s, e :: es => (s.serverEvent W A e).isNone && quiet W A (s.step W A e).1 es

/-- Such events are a run, whatever the assumptions about signatures are. -/
theorem steps_of_quiet {W : ServiceCrates} {A : App} {before : List ServerEvent}
    {h₀ : List ServiceLabel} {s₀ : ServiceState} (es : List ServiceEvent) {h : List ServiceLabel}
    {s : ServiceState} (hr : Steps (ServiceStep W A before) h₀ s₀ h s)
    (hquiet : s.quiet W A es = true) :
    Steps (ServiceStep W A before) h₀ s₀ (h ++ es.map (⟨·, none⟩))
      (es.foldl (fun s e => (s.step W A e).1) s) := by
  induction es generalizing h s with
  | nil =>
    rw [List.map_nil, List.append_nil]
    exact hr
  | cons e es ih =>
    obtain ⟨hnone, hrest⟩ := Bool.and_eq_true_iff.mp hquiet
    have hcall : none = s.serverEvent W A e := (Option.isNone_iff_eq_none.mp hnone).symm
    have hstep : ServiceStep W A before h s ⟨e, none⟩ (s.step W A e).1 :=
      ⟨rfl, hcall, fun _ hmem => by cases hmem⟩
    rw [List.map_cons, ← List.singleton_append, ← List.append_assoc]
    exact ih (hr.tail hstep) hrest

namespace Sample

/-! ## Requests -/

/-- A tool call as it is sent. -/
def toolCall (name arguments : String) : String :=
  "\x7b\"jsonrpc\":\"2.0\",\"id\":1,\"method\":\"tools/call\",\"params\":\x7b\"name\":\"" ++ name ++
    "\",\"arguments\":" ++ arguments ++ "\x7d\x7d"

/-- The note to be filed. -/
def noteArguments : String := "\x7b\"title\":\"Rust\",\"body\":\"x\"\x7d"

def searchArguments : String := "\x7b\"query\":\"owned data\"\x7d"

def fetchArguments : String := "\x7b\"id\":\"10_tech/rust.md\"\x7d"

/-! ## Responses -/

/-- A JSON-RPC response. -/
def rpcText (member : Json.Text) : Json.Text :=
  Json.obj [Json.member "jsonrpc" (Json.str "2.0"), Json.member "id" (Json.num 1), member]

/-- The result of a tool. -/
def resultText (result : CallToolResult) : Json.Text :=
  rpcText (Json.member "result" (Json.obj [
    Json.member "content" (Json.arr (result.content.map fun text =>
      Json.obj [Json.member "type" (Json.str "text"), Json.member "text" (Json.str text)])),
    Json.member "structuredContent" result.structuredContent,
    Json.member "isError" (Json.bool result.isError)]))

/-- An error, with its code. -/
def errorText : ErrorData → Json.Text
  | .invalidParams message => rpcText (Json.member "error" (Json.obj [
      Json.member "code" "-32602".toList, Json.member "message" (Json.str message)]))
  | .internalError message => rpcText (Json.member "error" (Json.obj [
      Json.member "code" "-32603".toList, Json.member "message" (Json.str message)]))

/-- The transport, on these requests. -/
def transport : Transport where
  Arguments := String
  searchArguments arguments :=
    if arguments = Sample.searchArguments then .ok ⟨"owned data", none⟩
    else .error (.invalidParams "failed to deserialize parameters")
  fetchArguments arguments :=
    if arguments = Sample.fetchArguments then .ok ⟨"10_tech/rust.md"⟩
    else .error (.invalidParams "failed to deserialize parameters")
  appendNoteArguments arguments :=
    if arguments = noteArguments then .ok ⟨"Rust", "x", none⟩
    else .error (.invalidParams "failed to deserialize parameters")
  call r :=
    if r.body = utf8 (toolCall "append_note" noteArguments) then
      .callTool "append_note" noteArguments
    else if r.body = utf8 (toolCall "search" Sample.searchArguments) then
      .callTool "search" Sample.searchArguments
    else .other
  toolResponse _ answer := ⟨200, [("content-type", utf8 "application/json")],
    utf8 (String.ofList (match answer with
      | .ok result => resultText result
      | .error e => errorText e))⟩
  listResponse _ names := ⟨200, [("content-type", utf8 "application/json")],
    utf8 (String.join names)⟩
  otherResponse _ := ⟨400, [], []⟩

/-- The crates of the service. -/
def serviceCrates : ServiceCrates := ⟨Reference.crates, kbCrates, writePlain, transport⟩

/-! ## The service -/

deriving instance DecidableEq for InboxConfig, OAuthConfig

/-- Scope directories are compared by the two sets. -/
instance : DecidableEq ScopeDirectories := fun a b =>
  decidable_of_iff (a.public = b.public ∧ a.private = b.private) (by cases a; cases b; simp)

/-- Configurations are compared field by field. -/
instance : DecidableEq (Config configCrates) := fun a b =>
  have : DecidableEq configCrates.SocketAddr := inferInstanceAs (DecidableEq String)
  decidable_of_iff (a.kbRoot = b.kbRoot ∧ a.scopeDirectories = b.scopeDirectories ∧
    a.keyA = b.keyA ∧ a.keyB = b.keyB ∧ a.bindAddr = b.bindAddr ∧
    a.allowedHosts = b.allowedHosts ∧ a.allowedOrigins = b.allowedOrigins ∧
    a.maxReadBytes = b.maxReadBytes ∧ a.maxSearchResponseBytes = b.maxSearchResponseBytes ∧
    a.maxSearchFileBytes = b.maxSearchFileBytes ∧ a.rateLimitPerMinute = b.rateLimitPerMinute ∧
    a.rateLimitBurst = b.rateLimitBurst ∧ a.oauth = b.oauth ∧ a.inbox = b.inbox)
    (by cases a; cases b; simp)

/-- The configuration, with the documented layout. -/
def config : Config configCrates where
  kbRoot := utf8 "/kb"
  scopeDirectories := scopeDirectories
  keyA := "tech-key"
  keyB := "private-key"
  bindAddr := "0.0.0.0:8080"
  allowedHosts := .collect ["engram.example.test"]
  allowedOrigins := .collect []
  maxReadBytes := 65536
  maxSearchResponseBytes := 24576
  maxSearchFileBytes := 1048576
  rateLimitPerMinute := 60
  rateLimitBurst := 10
  oauth := {
    issuer := "https://engram.example.test"
    resource := "https://engram.example.test/mcp"
    ownerSecret := "owner-secret-for-config-test"
    signingKey := "signing-key-for-config-test-with-sufficient-length"
    accessTokenTtlSeconds := 900
    authorizationCodeTtlSeconds := 300
    refreshStateDir := utf8 "/state"
    refreshTokenTtlSeconds := 1209600 }
  inbox := some ⟨utf8 "/kb/99_inbox", 10, 32768, 8388608⟩

theorem config_eq : Config.fromLookup configCrates (fileSystem emptyKb) (lookup "/kb/99_inbox")
    = .ok config := by
  decide +kernel

/-- The service that `router` starts, if it does. -/
def startService : Option (Service serviceCrates configCrates) :=
  match router_eq : router .strict OAuthState.start.refreshTokens.dir (fileSystem emptyKb) 0
      config with
  | .error _ => none
  | .ok start => some {
      fs := fileSystem emptyKb
      lookup := lookup "/kb/99_inbox"
      config, config_eq
      earlier := []
      earlierState := .start
      earlier_run := .refl
      reader := .strict
      now := 0
      start, router_eq }

/-- The service. -/
def service : Service serviceCrates configCrates := startService.get (by decide +kernel)

theorem of_startService {D : Service serviceCrates configCrates} (h : startService = some D) :
    D.now = 0 ∧ D.config = config := by
  unfold startService at h
  split at h
  · cases h
  · cases h
    exact ⟨rfl, rfl⟩

theorem service_now : service.now = 0 := (of_startService (Option.some_get _).symm).1

theorem service_config : service.config = config := (of_startService (Option.some_get _).symm).2

/-- The fixed parts of a service, from the fingerprints of its keys. -/
def appWith (config : Config configCrates) (fingerprintA fingerprintB : String) : App where
  authenticator := {
    apiKeys := ⟨utf8 config.keyA, utf8 config.keyB, fingerprintA, fingerprintB⟩
    oauth := some config.oauth.settings }
  settings := config.oauth.settings
  shared := rfl

theorem app_new {config : Config configCrates} {fingerprintA fingerprintB : String}
    (hA : keyFingerprint Reference.crates (deriveAuditSalt Reference.crates (utf8 config.keyA))
      (utf8 config.keyA) = fingerprintA)
    (hB : keyFingerprint Reference.crates (deriveAuditSalt Reference.crates (utf8 config.keyA))
      (utf8 config.keyB) = fingerprintB) :
    App.new serviceCrates config = appWith config fingerprintA fingerprintB := by
  subst hA hB
  rfl

/-- The fixed parts of this one. -/
def app : App := appWith config "700f772559d2d4a1" "841b564d6f7c8179"

theorem service_app : service.app = app := by
  rw [Service.app, service_config, app]
  exact app_new (by decide +kernel) (by decide +kernel)

/-- A request with an API key. -/
def keyRequest (key body : String) : HttpRequest :=
  ⟨"POST", "/mcp", [("x-api-key", utf8 key)], utf8 body⟩

/-- The owner files a note. -/
def noteEvents : List ServiceEvent :=
  [.receive (keyRequest "private-key" (toolCall "append_note" noteArguments)),
    .authenticate 0 1790000000, .checkRate 0 1,
    .dispatch 0 ⟨fileSystem emptyKb, 1, 1786592700000000000⟩,
    .advance 0 Faults.none, .advance 0 Faults.none, .advance 0 Faults.none,
    .advance 0 Faults.none, .complete 0]

/-- The state when the note is filed. -/
def noteState : ServiceState :=
  noteEvents.foldl (fun s e => (s.step serviceCrates app e).1) service.start

/-- The state when the call of `create_note` has begun. -/
def begunState : ServiceState :=
  (noteEvents.take 4).foldl (fun s e => (s.step serviceCrates app e).1) service.start

/-- What there is to see of the two runs, evaluated once. -/
theorem noteState_facts : noteState.requests.length = 1 ∧
    noteState.auditLog.any (fun record => record.filed.isSome) = true ∧
    noteState.server.inbox.any (fun inbox => (inbox.notes.inbox.dir.at [note]).isSome &&
      ((inbox.store.rootFd service.fs).at [note]).isNone) = true ∧
    noteState.requests.all (fun r => match r.phase with
      | .served _ _ => true
      | _ => false) = true ∧
    (begunState.writer 0).isSome = true ∧
    service.start.quiet serviceCrates app noteEvents = true ∧
    service.start.quiet serviceCrates app (noteEvents.take 4) = true := by
  decide +kernel

/-- The run that leads there. -/
theorem run_noteEvents : service.RunsTo (noteEvents.map (⟨·, none⟩)) noteState := by
  obtain ⟨-, -, -, -, -, hquiet, -⟩ := noteState_facts
  rw [Service.RunsTo, service_app]
  exact steps_of_quiet noteEvents .refl hquiet

theorem run_begun : service.RunsTo ((noteEvents.take 4).map (⟨·, none⟩)) begunState := by
  obtain ⟨-, -, -, -, -, -, hquiet⟩ := noteState_facts
  rw [Service.RunsTo, service_app]
  exact steps_of_quiet (noteEvents.take 4) .refl hquiet

end Sample

end EngramMcp
