import EngramMcp.Http.Tools

/-!
# What a client reads

An answer of a tool is JSON text. A client that reads it gets the response back: the results of a
search with their ids, a fetched document, a note that was filed.

* `reads_searchResponse`, `reads_fetchResponse`, `reads_appendNoteResponse` — the round trips
* `utf8Len_toValue` — the text is as long as the one that `search` measured
-/

namespace EngramMcp

open Infra Json

/-! ## Search -/

/-- Reads an id; other strings are not accepted. -/
def readDocumentId : Reader DocumentId := fun s =>
  (readStr s).bind fun r => (DocumentId.parse r.1).toOption.map fun id => (id, r.2)

theorem reads_documentId : Reads readDocumentId fun id => str id.value := by
  intro id rest hs
  rw [readDocumentId, reads_str _ _ hs, Option.bind_some, DocumentId.parse_eq_ok id.accepted]
  rfl

/-- Reads what `SearchMetadata.toValue` writes. -/
def readSearchMetadata : Reader SearchMetadata :=
  (readField '{' "description" readStr).andThen fun description =>
    (readField ',' "line_end" readNum).andThen fun lineEnd =>
      (readField ',' "line_start" readNum).andThen fun lineStart =>
        (readField ',' "path" readStr).andThen fun path =>
          closing ⟨path, description, lineStart, lineEnd⟩

theorem reads_searchMetadata : Reads readSearchMetadata SearchMetadata.toValue := by
  intro m rest _
  rw [SearchMetadata.toValue, obj_cons_cons]
  simp only [List.flatMap_cons, List.flatMap_nil, List.cons_append, List.append_assoc,
    List.nil_append]
  rw [readSearchMetadata, readField_andThen reads_str _ (stops_comma _),
    readField_andThen reads_num _ (stops_comma _), readField_andThen reads_num _ (stops_comma _),
    readField_andThen reads_str _ (stops_brace _), closing_eq]

/-- Reads what `SearchResult.toValue` writes. -/
def readSearchResult : Reader SearchResult :=
  (readField '{' "id" readDocumentId).andThen fun id =>
    (readField ',' "metadata" readSearchMetadata).andThen fun metadata =>
      (readField ',' "snippet" readStr).andThen fun snippet =>
        (readField ',' "title" readStr).andThen fun title =>
          closing ⟨id, title, snippet, metadata⟩

theorem reads_searchResult : Reads readSearchResult SearchResult.toValue := by
  intro r rest _
  rw [SearchResult.toValue, obj_cons_cons]
  simp only [List.flatMap_cons, List.flatMap_nil, List.cons_append, List.append_assoc,
    List.nil_append]
  rw [readSearchResult, readField_andThen reads_documentId _ (stops_comma _),
    readField_andThen reads_searchMetadata _ (stops_comma _),
    readField_andThen reads_str _ (stops_comma _), readField_andThen reads_str _ (stops_brace _),
    closing_eq]

/-- Reads what `SearchResponse.toValue` writes. -/
def readSearchResponse : Reader SearchResponse :=
  (readField '{' "results" (readBracketed '[' ']' readSearchResult)).andThen fun results =>
    (readField ',' "truncated" readBool).andThen fun truncated => closing ⟨results, truncated⟩

theorem reads_searchResults : Reads (readBracketed '[' ']' readSearchResult)
    fun results => arr (results.map SearchResult.toValue) :=
  reads_bracketed (by decide) (by decide) reads_searchResult fun _ => ⟨'{', _, rfl, by decide⟩

/-- **A search response is read back from its text.** -/
theorem reads_searchResponse : Reads readSearchResponse SearchResponse.toValue := by
  intro r rest _
  rw [SearchResponse.toValue, obj_cons_cons]
  simp only [List.flatMap_nil, List.cons_append, List.append_assoc, List.nil_append]
  rw [readSearchResponse, readField_andThen reads_searchResults _ (stops_comma _),
    readField_andThen reads_bool _ (stops_brace _), closing_eq]

/-! ### Its length -/

theorem utf8Len_searchMetadata (m : SearchMetadata) : utf8Len m.toValue = utf8Len m.toJson := by
  unfold SearchMetadata.toValue SearchMetadata.toJson
  rw [utf8Len_obj, utf8Len_obj]
  simp only [List.map_cons, List.map_nil, List.sum_cons, List.sum_nil, List.length_cons]
  omega

theorem utf8Len_searchResult (r : SearchResult) : utf8Len r.toValue = utf8Len r.toJson := by
  unfold SearchResult.toValue SearchResult.toJson
  rw [utf8Len_obj, utf8Len_obj]
  simp only [List.map_cons, List.map_nil, List.sum_cons, List.sum_nil, List.length_cons,
    utf8Len_member, utf8Len_searchMetadata]
  omega

/-- **The text is as long as the one that `search` measured**: only the order of the members
differs. -/
theorem utf8Len_toValue (r : SearchResponse) : utf8Len r.toValue = r.jsonLength := by
  have hresults : utf8Len (arr (r.results.map SearchResult.toValue))
      = utf8Len (arr (r.results.map SearchResult.toJson)) := by
    rw [utf8Len_arr, utf8Len_arr, List.length_map, List.length_map, List.map_map, List.map_map]
    rw [show utf8Len ∘ SearchResult.toValue = utf8Len ∘ SearchResult.toJson from
      funext utf8Len_searchResult]
  unfold SearchResponse.jsonLength SearchResponse.toValue SearchResponse.toJson
  rw [utf8Len_obj, utf8Len_obj]
  simp only [List.map_cons, List.map_nil, List.sum_cons, List.sum_nil, List.length_cons,
    utf8Len_member, hresults]

/-! ## Fetch -/

/-- Reads what `FetchMetadata.toValue` writes. -/
def readFetchMetadata : Reader FetchMetadata :=
  (readField '{' "description" readStr).andThen fun description =>
    (readField ',' "path" readStr).andThen fun path =>
      (readField ',' "updated" (readOpt readStr)).andThen fun updated =>
        closing ⟨path, description, updated⟩

theorem reads_fetchMetadata : Reads readFetchMetadata FetchMetadata.toValue := by
  intro m rest _
  rw [FetchMetadata.toValue, obj_cons_cons]
  simp only [List.flatMap_cons, List.flatMap_nil, List.cons_append, List.append_assoc,
    List.nil_append]
  rw [readFetchMetadata, readField_andThen reads_str _ (stops_comma _),
    readField_andThen reads_str _ (stops_comma _),
    readField_andThen reads_opt_str _ (stops_brace _), closing_eq]

/-- Reads what `FetchResponse.toValue` writes. -/
def readFetchResponse : Reader FetchResponse :=
  (readField '{' "id" readDocumentId).andThen fun id =>
    (readField ',' "metadata" readFetchMetadata).andThen fun metadata =>
      (readField ',' "text" readStr).andThen fun text =>
        (readField ',' "title" readStr).andThen fun title =>
          (readField ',' "truncated" readBool).andThen fun truncated =>
            closing ⟨id, title, text, metadata, truncated⟩

/-- **A fetched document is read back from its text.** -/
theorem reads_fetchResponse : Reads readFetchResponse FetchResponse.toValue := by
  intro r rest _
  rw [FetchResponse.toValue, obj_cons_cons]
  simp only [List.flatMap_cons, List.flatMap_nil, List.cons_append, List.append_assoc,
    List.nil_append]
  rw [readFetchResponse, readField_andThen reads_documentId _ (stops_comma _),
    readField_andThen reads_fetchMetadata _ (stops_comma _),
    readField_andThen reads_str _ (stops_comma _), readField_andThen reads_str _ (stops_comma _),
    readField_andThen reads_bool _ (stops_brace _), closing_eq]

/-! ## A note -/

/-- Reads what `AppendNoteResponse.toValue` writes. -/
def readAppendNoteResponse : Reader AppendNoteResponse :=
  (readField '{' "bytes" readNum).andThen fun bytes =>
    (readField ',' "created" readStr).andThen fun created =>
      (readField ',' "id" readStr).andThen fun id => closing ⟨id, created, bytes⟩

/-- **What is said about a note that was filed is read back.** -/
theorem reads_appendNoteResponse : Reads readAppendNoteResponse AppendNoteResponse.toValue := by
  intro r rest _
  rw [AppendNoteResponse.toValue, obj_cons_cons]
  simp only [List.flatMap_cons, List.flatMap_nil, List.cons_append, List.append_assoc,
    List.nil_append]
  rw [readAppendNoteResponse, readField_andThen reads_num _ (stops_comma _),
    readField_andThen reads_str _ (stops_comma _), readField_andThen reads_str _ (stops_brace _),
    closing_eq]

/-! ## The text of an answer -/

/-- The text block of a structured answer is read back. -/
theorem exists_text_structured {α : Type} {p : Json.Reader α} {w : α → Json.Text}
    (hp : Json.Reads p w) (a : α) : ∃ text : String,
      structured (w a) = ⟨[text], text.toList, false⟩ ∧ text.utf8ByteSize = utf8Len (w a) ∧
      Json.readAll p text.toList = some a := by
  refine ⟨String.ofList (w a), ?_, ?_, ?_⟩
  · rw [structured, String.toList_ofList]
  · rw [← utf8Len_toList, String.toList_ofList]
  · rw [String.toList_ofList]
    exact Json.readAll_eq hp a

end EngramMcp
