import EngramMcp.Http.Authenticator
import EngramMcp.Kb.AppendNote
import EngramMcp.Kb.Search

/-!
# The tools

`server.rs` and `audit.rs`: the three tools, what they answer, and what they write to the audit log.

`append_note` is cut where `create_note` is, so a call of it can be under way
while other requests are served. The read tools are one step.

* `callTool_effect` — what a tool call does
-/

namespace EngramMcp

open Infra

/-! ## The audit log -/

/-- `AuditContext`. -/
structure AuditContext where
  requestId : UInt64
  credentialFingerprint : String
  scope : AccessScope
  deriving DecidableEq

/-- A line of the audit log, without the time that a request took. -/
inductive AuditRecord
  | rejected (requestId : UInt64) (method path : String) (status : Nat) (outcome : String)
  | completed (context : AuditContext) (method path : String) (status bytes : Nat)
  | tool (context : AuditContext) (operation outcome : String) (documentId : Option String)
  | toolWrite (context : AuditContext) (operation outcome : String) (documentId : Option String)
      (bytes : Nat)
  deriving DecidableEq

/-- The request that a record is about. -/
def AuditRecord.requestId : AuditRecord → UInt64
  | .rejected requestId _ _ _ _ => requestId
  | .completed context _ _ _ _ | .tool context _ _ _ | .toolWrite context _ _ _ _ =>
    context.requestId

/-! ## Arguments and answers -/

/-- `SearchArguments`. -/
structure SearchArguments where
  query : String
  limit : Option Nat

/-- `FetchArguments`. -/
structure FetchArguments where
  id : String

/-- `AppendNoteArguments`. -/
structure AppendNoteArguments where
  title : String
  body : String
  occurred : Option String

/-- `ErrorData` of `rmcp`. -/
inductive ErrorData
  | invalidParams (message : String)
  | internalError (message : String)
  deriving DecidableEq

/-- `CallToolResult` of `rmcp`; the content is text blocks. -/
structure CallToolResult where
  content : List String
  structuredContent : Json.Text
  isError : Bool
  deriving DecidableEq

/-- What a tool answers. -/
abbrev ToolAnswer := Except ErrorData CallToolResult

/-- Whether an answer is the result of the tool, and not an error. -/
def ToolAnswer.succeeded : ToolAnswer → Bool
  | .ok result => !result.isError
  | .error _ => false

/-- `FetchMetadata`. -/
structure FetchMetadata where
  path : String
  description : String
  updated : Option String

/-- `FetchResponse`. -/
structure FetchResponse where
  id : DocumentId
  title : String
  text : String
  metadata : FetchMetadata
  truncated : Bool

/-- `AppendNoteResponse`. -/
structure AppendNoteResponse where
  id : String
  created : String
  bytes : Nat

/-- `fetch_response`. -/
def fetchResponse (document : FetchedDocument) : FetchResponse where
  id := document.id
  title := document.metadata.title
  text := document.text
  metadata := ⟨document.id.value, document.metadata.description, document.metadata.updated⟩
  truncated := document.truncated

/-- `append_note_response`. -/
def appendNoteResponse (note : CreatedNote) : AppendNoteResponse where
  id := note.id
  created := note.created
  bytes := note.bytes

/-! ## JSON values

`serde_json::to_value` keeps the members of an object in the order of their names. -/

/-- `to_value` of a search response. -/
def SearchMetadata.toValue (m : SearchMetadata) : Json.Text :=
  Json.obj [Json.member "description" (Json.str m.description),
    Json.member "line_end" (Json.num m.lineEnd),
    Json.member "line_start" (Json.num m.lineStart),
    Json.member "path" (Json.str m.path)]

@[inherit_doc SearchMetadata.toValue]
def SearchResult.toValue (r : SearchResult) : Json.Text :=
  Json.obj [Json.member "id" (Json.str r.id.value),
    Json.member "metadata" r.metadata.toValue,
    Json.member "snippet" (Json.str r.snippet),
    Json.member "title" (Json.str r.title)]

@[inherit_doc SearchMetadata.toValue]
def SearchResponse.toValue (r : SearchResponse) : Json.Text :=
  Json.obj [Json.member "results" (Json.arr (r.results.map SearchResult.toValue)),
    Json.member "truncated" (Json.bool r.truncated)]

/-- `to_value` of a fetched document. -/
def FetchMetadata.toValue (m : FetchMetadata) : Json.Text :=
  Json.obj [Json.member "description" (Json.str m.description),
    Json.member "path" (Json.str m.path),
    Json.member "updated" (Json.opt Json.str m.updated)]

@[inherit_doc FetchMetadata.toValue]
def FetchResponse.toValue (r : FetchResponse) : Json.Text :=
  Json.obj [Json.member "id" (Json.str r.id.value),
    Json.member "metadata" r.metadata.toValue,
    Json.member "text" (Json.str r.text),
    Json.member "title" (Json.str r.title),
    Json.member "truncated" (Json.bool r.truncated)]

/-- `to_value` of a note that was filed. -/
def AppendNoteResponse.toValue (r : AppendNoteResponse) : Json.Text :=
  Json.obj [Json.member "bytes" (Json.num r.bytes),
    Json.member "created" (Json.str r.created),
    Json.member "id" (Json.str r.id)]

/-- `structured`: the text block is the structured content. -/
def structured (value : Json.Text) : CallToolResult := ⟨[String.ofList value], value, false⟩

/-- `CallToolResult::structured_error`. -/
def structuredError (value : Json.Text) : CallToolResult := ⟨[String.ofList value], value, true⟩

/-- `json!({ "error": code })`. -/
def errorValue (code : String) : Json.Text := Json.obj [Json.member "error" (Json.str code)]

/-- `internal_error`. -/
def internalError (context : AuditContext) : CallToolResult :=
  structuredError (Json.obj [Json.member "error" (Json.str "internal_error"),
    Json.member "request_id" (Json.num context.requestId.toNat)])

/-- `tool_not_found`. -/
def toolNotFound : ErrorData := .invalidParams "tool not found"

/-! ## The server -/

/-- The crate `rmcp`: the arguments of a tool call are JSON until they are read as a struct. -/
structure Rmcp where
  Arguments : Type
  searchArguments : Arguments → Except ErrorData SearchArguments
  fetchArguments : Arguments → Except ErrorData FetchArguments
  appendNoteArguments : Arguments → Except ErrorData AppendNoteArguments

/-- A tool call that asks for this note. -/
def Rmcp.AsksFor (M : Rmcp) (name : String) (arguments : M.Arguments) (request : NoteRequest) :
    Prop :=
  name = "append_note" ∧ M.appendNoteArguments arguments
    = .ok ⟨request.title, request.body, request.occurred⟩

/-- `InboxSupport`: the directory, and its limiter with the calls that it let through. -/
structure InboxSupport where
  store : InboxStore
  notes : NoteServer

/-- `KnowledgeBaseServer`. -/
structure KnowledgeBaseServer where
  store : DocumentStore
  maxSearchResponseBytes : Nat
  inbox : Option InboxSupport

/-- What a tool call reads from outside. -/
structure CallEnv where
  /-- The knowledge base. -/
  fs : FileSystem
  /-- The reading of the clock in `WriteRateLimiter::check`. -/
  instant : ℚ
  /-- `SystemTime::now()`, in nanoseconds from the epoch. -/
  systemTime : Int

/-- `SEARCH_RESPONSE_WRAPPER_BYTES`. -/
def searchResponseWrapperBytes : Nat := 1024

/-- A tool call has its answer, or a call of `create_note` goes on. -/
inductive ToolProgress
  | answered (records : List AuditRecord) (answer : ToolAnswer)
  | writing (attempted : Nat) (call : Nat)

namespace KnowledgeBaseServer

/-- `append_note_is_visible`. -/
def appendNoteIsVisible (server : KnowledgeBaseServer) (scope : Option AccessScope) : Bool :=
  server.inbox.isSome && scope.any AccessScope.allowsPrivate

/-- `search`. -/
def search (K : KbCrates) (server : KnowledgeBaseServer) (fs : FileSystem)
    (context : AuditContext) (arguments : SearchArguments) : List AuditRecord × ToolAnswer :=
  match server.store.search K fs context.scope arguments.query arguments.limit
      (server.maxSearchResponseBytes - searchResponseWrapperBytes) with
  | .ok response =>
    ([.tool context "search" "ok" none], .ok (structured response.toValue))
  | .error .invalidQuery =>
    ([.tool context "search" "invalid_query" none], .error (.invalidParams "invalid search query"))
  | .error _ =>
    ([.tool context "search" "internal_error" none], .ok (internalError context))

/-- `fetch`. -/
def fetch (K : KbCrates) (server : KnowledgeBaseServer) (fs : FileSystem)
    (context : AuditContext) (arguments : FetchArguments) : List AuditRecord × ToolAnswer :=
  match DocumentId.parse arguments.id with
  | .error _ => ([], .error (.invalidParams "invalid document id"))
  | .ok id =>
    match server.store.read K fs context.scope id with
    | .ok document =>
      ([.tool context "fetch" "ok" (some id.value)],
        .ok (structured (fetchResponse document).toValue))
    | .error .notFound =>
      ([.tool context "fetch" "not_found" (some id.value)],
        .ok (structuredError (errorValue "not_found")))
    | .error _ =>
      ([.tool context "fetch" "internal_error" (some id.value)], .ok (internalError context))

/-- The server after an event of its notes. -/
def withNotes (server : KnowledgeBaseServer) (inbox : InboxSupport) (notes : NoteServer) :
    KnowledgeBaseServer :=
  { server with inbox := some { inbox with notes } }

/-- `append_note` up to the first step of `create_note`. -/
def appendNote (toYaml : FrontMatterWriter) (server : KnowledgeBaseServer) (env : CallEnv)
    (context : AuditContext) (arguments : AppendNoteArguments) :
    KnowledgeBaseServer × ToolProgress :=
  match server.inbox.filter fun _ => context.scope.allowsPrivate with
  | none => (server, .answered [] (.error toolNotFound))
  | some inbox =>
    let attempted := arguments.body.utf8ByteSize
    let notes := inbox.notes.appendNote toYaml inbox.store env.instant
      ⟨arguments.title, arguments.body, arguments.occurred, context.credentialFingerprint,
        env.systemTime⟩
    match (inbox.notes.limiter.check env.instant).2 with
    | .error .rateLimitExceeded =>
      (server.withNotes inbox notes,
        .answered [.toolWrite context "append_note" "rate_limited" none attempted]
          (.ok (structuredError (errorValue "rate_limited"))))
    | .ok () =>
      (server.withNotes inbox notes, .writing attempted inbox.notes.inbox.calls.length)

/-- `append_note` after `create_note` returned. -/
def finishNote (store : InboxStore) (context : AuditContext) (attempted : Nat) :
    Except InboxError CreatedNote → AuditRecord × ToolAnswer
  | .ok note =>
    (.toolWrite context "append_note" "ok" (some note.id) note.bytes,
      .ok (structured (appendNoteResponse note).toValue))
  | .error .invalidTitle =>
    (.toolWrite context "append_note" "invalid_title" none attempted,
      .error (.invalidParams "invalid note title"))
  | .error .invalidBody =>
    (.toolWrite context "append_note" "invalid_body" none attempted,
      .error (.invalidParams "invalid note body"))
  | .error .invalidOccurred =>
    (.toolWrite context "append_note" "invalid_occurred" none attempted,
      .error (.invalidParams "invalid occurred date; use YYYY-MM-DD"))
  | .error .noteTooLarge =>
    (.toolWrite context "append_note" "note_too_large" none attempted,
      .ok (structuredError (Json.obj [Json.member "error" (Json.str "note_too_large"),
        Json.member "max_bytes" (Json.num store.maxNoteBytes)])))
  | .error .quotaExceeded =>
    (.toolWrite context "append_note" "quota_exceeded" none attempted,
      .ok (structuredError (errorValue "quota_exceeded")))
  | .error _ =>
    (.toolWrite context "append_note" "internal_error" none attempted,
      .ok (internalError context))

/-- `list_tools`: the names, in their order. -/
def listTools (server : KnowledgeBaseServer) (scope : Option AccessScope) : List String :=
  ["search", "fetch"] ++ (if server.appendNoteIsVisible scope then ["append_note"] else [])

/-- The router of the tools, which knows all three. -/
def routeTool (M : Rmcp) (K : KbCrates) (toYaml : FrontMatterWriter) (server : KnowledgeBaseServer)
    (env : CallEnv) (context : AuditContext) (arguments : M.Arguments) :
    String → KnowledgeBaseServer × ToolProgress
  | "search" =>
    match M.searchArguments arguments with
    | .error e => (server, .answered [] (.error e))
    | .ok arguments =>
      let (records, answer) := server.search K env.fs context arguments
      (server, .answered records answer)
  | "fetch" =>
    match M.fetchArguments arguments with
    | .error e => (server, .answered [] (.error e))
    | .ok arguments =>
      let (records, answer) := server.fetch K env.fs context arguments
      (server, .answered records answer)
  | "append_note" =>
    match M.appendNoteArguments arguments with
    | .error e => (server, .answered [] (.error e))
    | .ok arguments => server.appendNote toYaml env context arguments
  | _ => (server, .answered [] (.error toolNotFound))

/-- `call_tool`. -/
def callTool (M : Rmcp) (K : KbCrates) (toYaml : FrontMatterWriter) (server : KnowledgeBaseServer)
    (env : CallEnv) (context : AuditContext) (name : String) (arguments : M.Arguments) :
    KnowledgeBaseServer × ToolProgress :=
  if name = "append_note" ∧ server.appendNoteIsVisible (some context.scope) = false then
    (server, .answered [] (.error toolNotFound))
  else server.routeTool M K toYaml env context arguments name

end KnowledgeBaseServer

/-! ## What a call does -/

/--
The effect of a tool call.

Reading changes nothing. A call that the write limiter refuses changes the limiter only, and one
that it admits begins a call of `create_note`; both are made with the private scope. The note is
one that `Asks` allows. No answer says at once that a note was filed.
-/
inductive CallEffect (toYaml : FrontMatterWriter) (server : KnowledgeBaseServer) (env : CallEnv)
    (context : AuditContext) (name : String) (Asks : NoteRequest → Prop) :
    KnowledgeBaseServer → ToolProgress → Prop
  | read {records : List AuditRecord} {answer : ToolAnswer} :
      records.length ≤ 1 →
      (∀ record ∈ records, ∃ operation outcome id,
        record = .tool context operation outcome id) →
      (name = "append_note" → answer.succeeded = false) →
      CallEffect toYaml server env context name Asks server (.answered records answer)
  | refused {inbox : InboxSupport} {limiter : WriteRateLimiter} {attempted : Nat}
      {answer : ToolAnswer} :
      server.inbox = some inbox → context.scope = .private →
      inbox.notes.limiter.check env.instant = (limiter, .error .rateLimitExceeded) →
      answer.succeeded = false →
      CallEffect toYaml server env context name Asks
        (server.withNotes inbox { inbox.notes with limiter })
        (.answered [.toolWrite context "append_note" "rate_limited" none attempted] answer)
  | begun {inbox : InboxSupport} {limiter : WriteRateLimiter} {request : NoteRequest} :
      server.inbox = some inbox → context.scope = .private →
      inbox.notes.limiter.check env.instant = (limiter, .ok ()) →
      Asks request → request.fingerprint = context.credentialFingerprint →
      CallEffect toYaml server env context name Asks
        (server.withNotes inbox
          ⟨limiter, inbox.notes.inbox.step toYaml inbox.store (.call request)⟩)
        (.writing request.body.utf8ByteSize inbox.notes.inbox.calls.length)

variable {M : Rmcp} {K : KbCrates} {toYaml : FrontMatterWriter} {server : KnowledgeBaseServer}
  {env : CallEnv} {context : AuditContext} {name : String} {Asks : NoteRequest → Prop}

/-- A call that fails without a record changes nothing. -/
theorem CallEffect.silent {answer : ToolAnswer} (hfails : answer.succeeded = false) :
    CallEffect toYaml server env context name Asks server (.answered [] answer) :=
  .read (Nat.zero_le 1) (fun _ h => absurd h List.not_mem_nil) fun _ => hfails

/-- A call that reads has one record. -/
theorem CallEffect.recorded {operation outcome : String} {id : Option String}
    {answer : ToolAnswer} (hname : name ≠ "append_note") :
    CallEffect toYaml server env context name Asks server
      (.answered [.tool context operation outcome id] answer) :=
  .read Nat.le.refl (fun _ h => ⟨operation, outcome, id, List.mem_singleton.mp h⟩)
    fun h => absurd h hname

namespace KnowledgeBaseServer

theorem search_effect (hname : name ≠ "append_note") (arguments : SearchArguments) :
    CallEffect toYaml server env context name Asks server
      (.answered (server.search K env.fs context arguments).1
        (server.search K env.fs context arguments).2) := by
  unfold search
  split
  · exact .recorded hname
  · exact .recorded hname
  · exact .recorded hname

theorem fetch_effect (hname : name ≠ "append_note") (arguments : FetchArguments) :
    CallEffect toYaml server env context name Asks server
      (.answered (server.fetch K env.fs context arguments).1
        (server.fetch K env.fs context arguments).2) := by
  unfold fetch
  split
  · exact .silent rfl
  · split
    · exact .recorded hname
    · exact .recorded hname
    · exact .recorded hname

theorem appendNote_effect {arguments : AppendNoteArguments}
    (hasks : ∀ fingerprint now, Asks ⟨arguments.title, arguments.body, arguments.occurred,
      fingerprint, now⟩) :
    CallEffect toYaml server env context name Asks
      (server.appendNote toYaml env context arguments).1
      (server.appendNote toYaml env context arguments).2 := by
  unfold appendNote
  split
  · exact .silent rfl
  · next inbox hinbox =>
    obtain ⟨hsome, hscope⟩ := Option.filter_eq_some_iff.mp hinbox
    have hprivate := AccessScope.allowsPrivate_iff.mp hscope
    rcases hcheck : inbox.notes.limiter.check env.instant with ⟨limiter, ⟨⟨⟩⟩ | ⟨⟨⟩⟩⟩
    · have hnotes : ∀ request, inbox.notes.appendNote toYaml inbox.store env.instant request
          = { inbox.notes with limiter } := by
        intro request
        unfold NoteServer.appendNote
        rw [hcheck]
      simp only [hnotes]
      exact .refused hsome hprivate hcheck rfl
    · simp only [NoteServer.appendNote_of_ok hcheck]
      refine CallEffect.begun hsome hprivate hcheck (hasks _ _) ?_
      rfl

/-- **What a tool call does.** -/
theorem callTool_effect (name : String) (arguments : M.Arguments) :
    CallEffect toYaml server env context name (M.AsksFor name arguments)
      (server.callTool M K toYaml env context name arguments).1
      (server.callTool M K toYaml env context name arguments).2 := by
  unfold callTool
  split
  · exact .silent rfl
  · unfold routeTool
    split
    · split
      · exact .silent rfl
      · exact search_effect (by decide) _
    · split
      · exact .silent rfl
      · exact fetch_effect (by decide) _
    · split
      · exact .silent rfl
      · next harguments => exact appendNote_effect fun _ _ => ⟨rfl, harguments⟩
    · exact .silent rfl

end KnowledgeBaseServer

end EngramMcp
