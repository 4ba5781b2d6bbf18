import EngramMcp.Infra.Json
import EngramMcp.Kb.Document

/-!
# Search

`search.rs`: every readable document of the scope is scored against the terms, the matches are
ranked, and as many of the first as fit are returned.

* `DocumentStore.search_congr` — a search depends on the listed ids and on what reading them gives
-/

namespace EngramMcp

open Infra

/-- `SearchMetadata`. -/
structure SearchMetadata where
  path : String
  description : String
  lineStart : Nat
  lineEnd : Nat
  deriving DecidableEq

/-- `SearchResult`. -/
structure SearchResult where
  id : DocumentId
  title : String
  snippet : String
  metadata : SearchMetadata
  deriving DecidableEq

/-- `SearchResponse`. -/
structure SearchResponse where
  results : List SearchResult
  truncated : Bool
  deriving DecidableEq

/-- `ScoredResult`. -/
structure ScoredResult where
  score : UInt32
  result : SearchResult

def SearchMetadata.toJson (m : SearchMetadata) : Json.Text :=
  Json.obj [Json.member "path" (Json.str m.path),
    Json.member "description" (Json.str m.description),
    Json.member "line_start" (Json.num m.lineStart),
    Json.member "line_end" (Json.num m.lineEnd)]

def SearchResult.toJson (r : SearchResult) : Json.Text :=
  Json.obj [Json.member "id" (Json.str r.id.value),
    Json.member "title" (Json.str r.title),
    Json.member "snippet" (Json.str r.snippet),
    Json.member "metadata" r.metadata.toJson]

def SearchResponse.toJson (r : SearchResponse) : Json.Text :=
  Json.obj [Json.member "results" (Json.arr (r.results.map SearchResult.toJson)),
    Json.member "truncated" (Json.bool r.truncated)]

/-- `serde_json::to_vec(&response).len()`. -/
def SearchResponse.jsonLength (r : SearchResponse) : Nat := utf8Len r.toJson

/-- `MAX_LIMIT`. -/
def maxLimit : Nat := 20

/-- `DEFAULT_LIMIT`. -/
def defaultLimit : Nat := 10

/-- `MAX_SNIPPET_CHARS`. -/
def maxSnippetChars : Nat := 600

/-- `parse_terms`. -/
def parseTerms (C : KbCrates) (query : String) : Except StoreError (List String) :=
  if 256 < query.utf8ByteSize then .error .invalidQuery
  else
    let terms := (splitWhitespace query).map C.toLowercase
    if terms = [] then .error .invalidQuery else .ok terms

/-- The terms of a query that is not too long are its words in lower case. -/
theorem parseTerms_eq_ok {C : KbCrates} {query : String} {terms : List String}
    (h : parseTerms C query = .ok terms) :
    query.utf8ByteSize ≤ 256 ∧ terms = (splitWhitespace query).map C.toLowercase := by
  unfold parseTerms at h
  split at h
  · cases h
  · next hlen =>
    simp only at h
    split at h
    · cases h
    · exact ⟨Nat.le_of_not_lt hlen, (Except.ok.inj h).symm⟩

/-- `snippet`: the lines around the first match, and their numbers. -/
def snippet (C : KbCrates) (text firstTerm : String) : String × Nat × Nat :=
  let lines := lines text
  let matchIndex := (lines.findIdx? fun line => containsStr (C.toLowercase line) firstTerm).getD 0
  let start := matchIndex - 2
  let stop := min (matchIndex + 3) lines.length
  let snippet := "\n".intercalate ((lines.take stop).drop start)
  let snippet :=
    if maxSnippetChars < snippet.length then
      (String.ofList (snippet.toList.take maxSnippetChars)).push '…'
    else snippet
  (snippet, start + 1, stop)

/-- `u32::from(condition) * weight`. -/
def weigh (condition : Bool) (weight : UInt32) : UInt32 := if condition then weight else 0

/-- `score_document`: nothing unless every term occurs somewhere. -/
def scoreDocument (C : KbCrates) (terms : List String) (document : FetchedDocument) :
    Option ScoredResult :=
  let path := C.toLowercase document.id.value
  let title := C.toLowercase document.metadata.title
  let description := C.toLowercase document.metadata.description
  let text := C.toLowercase document.text
  if !terms.all (fun term => containsStr path term || containsStr title term ||
      containsStr description term || containsStr text term) then none
  else
    let score := terms.foldl (fun score term =>
      score + weigh (containsStr path term) 100 + weigh (containsStr title term) 80
        + weigh (containsStr description term) 50 + weigh (containsStr text term) 10) 0
    let (snippet, lineStart, lineEnd) := snippet C document.text (terms.headD "")
    some ⟨score, document.id, document.metadata.title, snippet, document.id.value,
      document.metadata.description, lineStart, lineEnd⟩

/-- Scoring the candidates: one that is not found is left out, any other error ends the search. -/
def scoreAll (C : KbCrates) (terms : List String)
    (read : DocumentId → Except StoreError FetchedDocument) :
    List DocumentId → Except StoreError (List ScoredResult)
  | [] => .ok []
  | id :: rest =>
    match read id with
    | .ok document =>
      match scoreDocument C terms document with
      | some scored => (scoreAll C terms read rest).map (scored :: ·)
      | none => scoreAll C terms read rest
    | .error .notFound => scoreAll C terms read rest
    | .error e => .error e

/-- The order of the ranking: by score descending, then by id. -/
def ranksBefore (left right : ScoredResult) : Bool :=
  decide (right.score < left.score) ||
    (decide (left.score = right.score) && decide (left.result.id.value ≤ right.result.id.value))

/-- The results that fit; the first that does not ends the list. -/
def takeFitting (maxResponseBytes : Nat) (truncated : Bool) (results : List SearchResult) :
    List ScoredResult → SearchResponse
  | [] => ⟨results, truncated⟩
  | scored :: rest =>
    let candidate : SearchResponse := ⟨results ++ [scored.result], truncated⟩
    if maxResponseBytes < candidate.jsonLength then ⟨results, true⟩
    else takeFitting maxResponseBytes truncated candidate.results rest

namespace DocumentStore

/-- `search`. -/
def search (C : KbCrates) (store : DocumentStore) (fs : FileSystem) (scope : AccessScope)
    (query : String) (limit : Option Nat) (maxResponseBytes : Nat) :
    Except StoreError SearchResponse :=
  match parseTerms C query with
  | .error e => .error e
  | .ok terms =>
    let limit := limit.getD defaultLimit
    if ¬(1 ≤ limit ∧ limit ≤ maxLimit) then .error .invalidQuery
    else
      match store.candidateIds C fs scope with
      | .error e => .error e
      | .ok ids =>
        match scoreAll C terms (store.readForSearch C fs scope) ids with
        | .error e => .error e
        | .ok scored =>
          let ranked := scored.insertionSort (fun a b => ranksBefore a b = true)
          .ok (takeFitting maxResponseBytes (decide (limit < ranked.length)) []
            (ranked.take limit))

/-- A search depends on the listed ids and on what reading them gives. -/
theorem search_congr {C : KbCrates} {store store' : DocumentStore} {fs fs' : FileSystem}
    {scope : AccessScope} (hids : store.candidateIds C fs scope = store'.candidateIds C fs' scope)
    (hread : ∀ id, store.readForSearch C fs scope id = store'.readForSearch C fs' scope id)
    (query : String) (limit : Option Nat) (maxResponseBytes : Nat) :
    store.search C fs scope query limit maxResponseBytes
      = store'.search C fs' scope query limit maxResponseBytes := by
  unfold search
  rw [hids, show store.readForSearch C fs scope = store'.readForSearch C fs' scope from
    funext hread]

end DocumentStore

end EngramMcp
