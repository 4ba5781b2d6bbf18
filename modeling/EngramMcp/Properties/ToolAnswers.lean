import EngramMcp.Http.Answers
import EngramMcp.Http.Reference
import EngramMcp.Properties.FetchAfterSearch
import EngramMcp.Properties.ScopedSearch

/-!
# From a search to a document

A client sees the text of an answer and nothing else. From the text of a search it reads the results
back, and with the id of any of them it gets a document: an answer that is no error, and whose text
reads back as the document with this id.

* `Service.settings_of_run` — the settings of a service never change
* `search_answer` — the property
-/

namespace EngramMcp

open Infra ServiceState

variable {W : ServiceCrates} {K : ConfigCrates} {A : App}

/-! ## The settings of a service -/

/-- No step changes the settings of the server. -/
theorem ServiceMove.settings {s s' : ServiceState} {e : ServiceEvent} (h : ServiceMove W A s e s') :
    s'.server.store = s.server.store ∧
      s'.server.maxSearchResponseBytes = s.server.maxSearchResponseBytes := by
  cases h <;> exact ⟨rfl, rfl⟩

/-- The range in which `MAX_SEARCH_RESPONSE_BYTES` is accepted. -/
theorem maxSearchResponseBytes_mem_range {fs : FileSystem} {lookup : Lookup} {config : Config K}
    (h : Config.fromLookup K fs lookup = .ok config) :
    8192 ≤ config.maxSearchResponseBytes ∧ config.maxSearchResponseBytes ≤ 65536 := by
  unfold Config.fromLookup at h
  obtain ⟨_, _, h⟩ := bind_eq_ok.mp h
  obtain ⟨_, h⟩ := guard_eq_ok.mp h
  obtain ⟨_, _, h⟩ := bind_eq_ok.mp h
  obtain ⟨_, _, h⟩ := bind_eq_ok.mp h
  obtain ⟨_, _, h⟩ := bind_eq_ok.mp h
  obtain ⟨_, h⟩ := guard_eq_ok.mp h
  split at h
  · obtain ⟨_, _, h⟩ := bind_eq_ok.mp h
    obtain ⟨_, h⟩ := guard_eq_ok.mp h
    obtain ⟨_, _, h⟩ := bind_eq_ok.mp h
    obtain ⟨maxSearchResponseBytes, hmax, h⟩ := bind_eq_ok.mp h
    obtain ⟨_, _, h⟩ := bind_eq_ok.mp h
    obtain ⟨_, _, h⟩ := bind_eq_ok.mp h
    obtain ⟨_, _, h⟩ := bind_eq_ok.mp h
    obtain ⟨_, _, h⟩ := bind_eq_ok.mp h
    obtain ⟨_, _, h⟩ := bind_eq_ok.mp h
    obtain rfl := Except.ok.inj h
    exact mem_range_of_parseInRange hmax
  · cases h

/-- The settings of a service are those of its configuration. -/
theorem Service.settings_of_run (D : Service W K) {h : List ServiceLabel} {s : ServiceState}
    (hr : D.RunsTo h s) : s.server.store = D.start.server.store ∧
      s.server.maxSearchResponseBytes = D.config.maxSearchResponseBytes ∧
      s.server.store.maxReadBytes ≤ s.server.store.maxSearchFileBytes := by
  have hsame : s.server.store = D.start.server.store ∧
      s.server.maxSearchResponseBytes = D.start.server.maxSearchResponseBytes := by
    refine Steps.invariant (P := fun _ s => s.server.store = D.start.server.store ∧
      s.server.maxSearchResponseBytes = D.start.server.maxSearchResponseBytes) ?_ ⟨rfl, rfl⟩ hr
    rintro h s l s' ⟨hstore, hmax⟩ ⟨rfl, -, -⟩
    obtain ⟨hstore', hmax'⟩ := (serviceMove_step (W := W) (A := D.app) s l.event).settings
    exact ⟨hstore'.trans hstore, hmax'.trans hmax⟩
  obtain ⟨store, oauth, hstore, -, hstart⟩ := D.start_eq
  obtain ⟨hread, hfile⟩ := DocumentStore.limits_of_new hstore
  rw [hsame.1, hsame.2, hstart]
  refine ⟨rfl, rfl, ?_⟩
  show store.maxReadBytes ≤ store.maxSearchFileBytes
  rw [hread, hfile]
  exact limits_of_fromLookup D.config_eq

theorem DocumentStore.id_of_read {C : KbCrates} {store : DocumentStore} {fs : FileSystem}
    {scope : AccessScope} {id : DocumentId} {document : FetchedDocument}
    (h : store.read C fs scope id = .ok document) : document.id = id := by
  have hsame : { store with maxSearchFileBytes := store.maxReadBytes }.readForSearch C fs scope id
      = .ok document := h
  exact id_of_readForSearch hsame

/-! ## Answers -/

/-- A page fits. -/
theorem jsonLength_page_le {maxResponseBytes : Nat} (hmax : 32 ≤ maxResponseBytes)
    (ranking : List ScoredResult) (limit : Nat) :
    (page limit maxResponseBytes ranking).jsonLength ≤ maxResponseBytes := by
  obtain ⟨_, _, _, _, hlen⟩ := takeFitting_spec (ranking.take limit)
    ((jsonLength_nil_le (decide (limit < ranking.length))).trans hmax)
  exact hlen

namespace KnowledgeBaseServer

variable {M : Rmcp} {C : KbCrates} {toYaml : FrontMatterWriter} {server : KnowledgeBaseServer}
  {env : CallEnv} {context : AuditContext} {arguments : M.Arguments}

/-- What a search answers when it is no error. -/
theorem exists_search_of_callTool {server' : KnowledgeBaseServer} {records : List AuditRecord}
    {result : CallToolResult} (h : server.callTool M C toYaml env context "search" arguments
      = (server', .answered records (.ok result))) (hok : result.isError = false) :
    ∃ (search : SearchArguments) (response : SearchResponse),
      server.store.search C env.fs context.scope search.query search.limit
        (server.maxSearchResponseBytes - searchResponseWrapperBytes) = .ok response ∧
      result = structured response.toValue := by
  have hname : "search" ≠ "append_note" := by decide
  rw [callTool, if_neg fun hn => hname hn.1] at h
  simp only [routeTool] at h
  split at h
  · obtain ⟨-, hprogress⟩ := Prod.mk.inj h
    obtain ⟨-, hanswer⟩ := ToolProgress.answered.inj hprogress
    cases hanswer
  · next search _ =>
    obtain ⟨-, hprogress⟩ := Prod.mk.inj h
    obtain ⟨-, hanswer⟩ := ToolProgress.answered.inj hprogress
    unfold KnowledgeBaseServer.search at hanswer
    split at hanswer
    · next response hsearch =>
      exact ⟨search, response, hsearch, (Except.ok.inj hanswer).symm⟩
    · cases hanswer
    · rw [← Except.ok.inj hanswer] at hok
      cases hok

/-- What a search that succeeds answers. -/
theorem callTool_search {search : SearchArguments} {response : SearchResponse}
    (harguments : M.searchArguments arguments = .ok search)
    (hsearch : server.store.search C env.fs context.scope search.query search.limit
      (server.maxSearchResponseBytes - searchResponseWrapperBytes) = .ok response) :
    server.callTool M C toYaml env context "search" arguments
      = (server, .answered [.tool context "search" "ok" none]
        (.ok (structured response.toValue))) := by
  have hname : "search" ≠ "append_note" := by decide
  rw [callTool, if_neg fun hn => hname hn.1]
  simp only [routeTool, harguments, KnowledgeBaseServer.search, hsearch]

/-- What a fetch answers for an id that can be read. -/
theorem callTool_fetch {id : DocumentId} {document : FetchedDocument}
    (harguments : M.fetchArguments arguments = .ok ⟨id.value⟩)
    (hread : server.store.read C env.fs context.scope id = .ok document) :
    server.callTool M C toYaml env context "fetch" arguments
      = (server, .answered [.tool context "fetch" "ok" (some id.value)]
        (.ok (structured (fetchResponse document).toValue))) := by
  have hname : "fetch" ≠ "append_note" := by decide
  rw [callTool, if_neg fun hn => hname hn.1]
  simp only [routeTool, harguments, fetch, DocumentId.parse_eq_ok id.accepted, hread]

end KnowledgeBaseServer

/-! ## The property -/

/--
**What a client finds it can read.** In two states of a service, with the same knowledge base and
the same scope: a search that is answered without an error has one text, which keeps within the
configured size. It reads back as a list of results, and a call of `fetch` with the id of any of
them is answered with a text that reads back as the document with this id.
-/
theorem search_answer (D : Service W K) {h h' : List ServiceLabel} {s s' : ServiceState}
    (hr : D.RunsTo h s) (hr' : D.RunsTo h' s') {server : KnowledgeBaseServer}
    {env env' : CallEnv} {context context' : AuditContext} {arguments : W.transport.Arguments}
    {records : List AuditRecord} {result : CallToolResult}
    (hsearch : s.server.callTool W.transport.toRmcp W.kb W.toYaml env context "search" arguments
      = (server, .answered records (.ok result)))
    (hok : result.isError = false) (hfs : env'.fs = env.fs)
    (hscope : context'.scope = context.scope) :
    ∃ text response, result.content = [text] ∧
      text.utf8ByteSize + searchResponseWrapperBytes ≤ D.config.maxSearchResponseBytes ∧
      Json.readAll readSearchResponse text.toList = some response ∧
      ∀ r ∈ response.results, ∀ arguments' : W.transport.Arguments,
        W.transport.fetchArguments arguments' = .ok ⟨r.id.value⟩ →
        ∃ fetched text' document,
          s'.server.callTool W.transport.toRmcp W.kb W.toYaml env' context' "fetch" arguments'
            = (s'.server, .answered [.tool context' "fetch" "ok" (some r.id.value)] (.ok fetched)) ∧
          fetched.isError = false ∧ fetched.content = [text'] ∧
          Json.readAll readFetchResponse text'.toList = some document ∧
          document.id = r.id ∧ document.metadata.path = r.id.value := by
  obtain ⟨hstore, hmax, hle⟩ := D.settings_of_run hr
  obtain ⟨hstore', -, -⟩ := D.settings_of_run hr'
  obtain ⟨search, response, hfound, rfl⟩ :=
    KnowledgeBaseServer.exists_search_of_callTool hsearch hok
  obtain ⟨text, hcontent, hsize, hread⟩ := exists_text_structured reads_searchResponse response
  refine ⟨text, response, congrArg CallToolResult.content hcontent, ?_, hread, ?_⟩
  · obtain ⟨_, ranking, -, -, rfl⟩ := exists_page hfound
    have hrange := (maxSearchResponseBytes_mem_range D.config_eq).1
    rw [← hmax] at hrange ⊢
    have hwrapper : searchResponseWrapperBytes = 1024 := rfl
    have hroom : 32 ≤ s.server.maxSearchResponseBytes - searchResponseWrapperBytes := by omega
    rw [hsize, utf8Len_toValue]
    have hfits := jsonLength_page_le hroom ranking (search.limit.getD defaultLimit)
    omega
  · intro r hmem arguments' harguments
    obtain ⟨_, -, hall⟩ := DocumentStore.scored_of_mem_search hfound
    obtain ⟨_, document, hdocument, -, -⟩ := hall r hmem
    obtain ⟨fetched, hfetched, -⟩ := DocumentStore.readLimited_mono hle hdocument
    have hread' : s'.server.store.read W.kb env'.fs context'.scope r.id = .ok fetched := by
      rw [hstore', ← hstore, hfs, hscope]
      exact hfetched
    obtain ⟨text', hcontent', -, hback⟩ :=
      exists_text_structured reads_fetchResponse (fetchResponse fetched)
    have hid : fetched.id = r.id := DocumentStore.id_of_read hread'
    exact ⟨_, text', fetchResponse fetched,
      KnowledgeBaseServer.callTool_fetch harguments hread', rfl,
      congrArg CallToolResult.content hcontent', hback, hid,
      congrArg DocumentId.value hid⟩

namespace Sample

/-- A call with the tech scope. -/
def techContext : AuditContext := ⟨1, "0a1b", .tech⟩

def publicEnv : CallEnv := ⟨fileSystem publicKb, 0, 1786592700000000000⟩

/-- The client searches, and fetches what it found after a note was filed. -/
theorem search_answer_note : ∃ (text : String) (response : SearchResponse)
    (fetched : CallToolResult) (text' : String) (document : FetchResponse),
    Json.readAll readSearchResponse text.toList = some response ∧
    noteState.server.callTool transport.toRmcp kbCrates writePlain publicEnv techContext "fetch"
        Sample.fetchArguments
      = (noteState.server, .answered [.tool techContext "fetch" "ok" (some "10_tech/rust.md")]
        (.ok fetched)) ∧
    fetched.content = [text'] ∧ Json.readAll readFetchResponse text'.toList = some document ∧
    document.metadata.path = "10_tech/rust.md" := by
  have hfound : ((service.start.server.store.search kbCrates publicEnv.fs .tech "owned data" none
      (service.start.server.maxSearchResponseBytes - searchResponseWrapperBytes)).toOption.any
        fun response => response.results.any fun r => r.id.value == "10_tech/rust.md") = true := by
    decide +kernel
  obtain ⟨response, hsearch, hany⟩ := (Option.any_eq_true _ _).mp hfound
  obtain ⟨r, hr, hid⟩ := List.any_eq_true.mp hany
  rw [beq_iff_eq] at hid
  have hquery : transport.searchArguments searchArguments = .ok ⟨"owned data", none⟩ := by
    simp [transport]
  have hcall : service.start.server.callTool transport.toRmcp kbCrates writePlain publicEnv
      techContext "search" searchArguments = (service.start.server,
        .answered [.tool techContext "search" "ok" none] (.ok (structured response.toValue))) :=
    KnowledgeBaseServer.callTool_search hquery (toOption_eq_some_iff.mp hsearch)
  obtain ⟨text, response', hcontent, -, hread, hfetch⟩ :=
    search_answer service .refl run_noteEvents hcall rfl rfl rfl
  -- the text reads back as this response
  obtain ⟨written, hwritten, -, hback⟩ := exists_text_structured reads_searchResponse response
  obtain rfl : written = text := by
    rw [hwritten] at hcontent
    exact (List.cons.inj hcontent).1
  obtain rfl := Option.some.inj (hback.symm.trans hread)
  have harguments : transport.fetchArguments Sample.fetchArguments = .ok ⟨r.id.value⟩ := by
    simp [transport, hid]
  obtain ⟨fetched, text', document, hfetched, -, hcontent', hback, -, hpath⟩ :=
    hfetch r hr Sample.fetchArguments harguments
  rw [hid] at hfetched hpath
  exact ⟨written, response, fetched, text', document, hread, hfetched, hcontent', hback, hpath⟩

end Sample

end EngramMcp
