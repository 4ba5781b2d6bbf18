import EngramMcp.Properties.SearchRanking
import EngramMcp.Properties.Truncation

/-!
# Fetching what a search returned

A search reads more of a file than a fetch does. Both cut a long file at the end of the longest
text among the bytes they read, and the fetch has no more bytes than the search. So what the search
could read the fetch can read too, and it sees the beginning of the same text.

* `readUtf8Limited_mono` — reading under two limits
* `fetch_after_search` — the property
-/

namespace EngramMcp

open Infra

/-- What can be read under one limit can be read under a smaller one, as the beginning of it. -/
theorem readUtf8Limited_mono {readError : Option Errno} {content : Bytes} {small large : Nat}
    (hle : small ≤ large) {long : String} {cutLong : Bool}
    (h : readUtf8Limited readError content large = .ok (long, cutLong)) :
    ∃ short cutShort, readUtf8Limited readError content small = .ok (short, cutShort) ∧
      short.toList <+: long.toList := by
  cases readError with
  | some e => exact nomatch h
  | none =>
    rcases readUtf8Limited_cases content large with ⟨hfits, hlarge⟩ | ⟨hcut, text, htext, hlarge⟩
    · -- the file fits under the larger limit, so all of it is text
      rw [h] at hlarge
      cases hs : fromUtf8 content with
      | none => rw [hs] at hlarge; exact nomatch hlarge
      | some s =>
        rw [hs] at hlarge
        obtain ⟨rfl, -⟩ := Prod.mk.inj (Except.ok.inj hlarge)
        obtain rfl := fromUtf8_eq_some_iff.mp hs
        obtain ⟨short, cutShort, hsmall, -, hlongest, -⟩ := readUtf8Limited_exact hs small
        exact ⟨short, cutShort, hsmall, utf8_prefix_iff.mp hlongest.isPrefix⟩
    · -- both limits cut it
      rw [h] at hlarge
      obtain ⟨rfl, -⟩ := Prod.mk.inj (Except.ok.inj hlarge)
      rcases readUtf8Limited_cases content small with ⟨hfits, -⟩ | ⟨-, short, hshort, hsmall⟩
      · omega
      · exact ⟨short, true, hsmall, hshort.mono htext (List.take_prefix_take_left hle)⟩

namespace DocumentStore

variable {C : KbCrates} {store : DocumentStore} {fs : FileSystem} {scope : AccessScope}

/-- The same for documents. -/
theorem readLimited_mono {id : DocumentId} {small large : Nat} (hle : small ≤ large)
    {document : FetchedDocument} (h : store.readLimited C fs scope id large = .ok document) :
    ∃ fetched, store.readLimited C fs scope id small = .ok fetched ∧
      fetched.text.toList <+: document.text.toList := by
  unfold readLimited at h ⊢
  split at h
  · exact nomatch h
  · next hallowed =>
    rw [if_neg hallowed]
    split at h
    · exact nomatch h
    · next readError content hopen =>
      split at h
      · exact nomatch h
      · next long cutLong hread =>
        obtain rfl := Except.ok.inj h
        obtain ⟨short, cutShort, hshort, hprefix⟩ := readUtf8Limited_mono hle hread
        simp only [hshort]
        exact ⟨_, rfl, hprefix⟩

/-- The limits of a store that was opened. -/
theorem limits_of_new {root : Bytes} {maxReadBytes maxSearchFileBytes : Nat}
    {dirs : ScopeDirectories}
    (h : DocumentStore.new fs root maxReadBytes maxSearchFileBytes dirs = .ok store) :
    store.maxReadBytes = maxReadBytes ∧ store.maxSearchFileBytes = maxSearchFileBytes := by
  unfold DocumentStore.new at h
  split at h
  · exact nomatch h
  · split at h
    · exact nomatch h
    · split at h
      · exact nomatch h
      · split at h
        · exact nomatch h
        · obtain rfl := Except.ok.inj h
          exact ⟨rfl, rfl⟩

end DocumentStore

/-- An accepted configuration lets a search read no less than a fetch. -/
theorem limits_of_fromLookup {C : ConfigCrates} {fs : FileSystem} {lookup : Lookup}
    {config : Config C} (h : Config.fromLookup C fs lookup = .ok config) :
    config.maxReadBytes ≤ config.maxSearchFileBytes := by
  unfold Config.fromLookup at h
  obtain ⟨_, _, h⟩ := bind_eq_ok.mp h
  obtain ⟨_, h⟩ := guard_eq_ok.mp h
  obtain ⟨_, _, h⟩ := bind_eq_ok.mp h
  obtain ⟨_, _, h⟩ := bind_eq_ok.mp h
  obtain ⟨_, _, h⟩ := bind_eq_ok.mp h
  obtain ⟨_, h⟩ := guard_eq_ok.mp h
  split at h
  · obtain ⟨_, _, h⟩ := bind_eq_ok.mp h
    obtain ⟨_, h⟩ := guard_eq_ok.mp h
    obtain ⟨maxReadBytes, _, h⟩ := bind_eq_ok.mp h
    obtain ⟨_, _, h⟩ := bind_eq_ok.mp h
    obtain ⟨maxSearchFileBytes, hsearch, h⟩ := bind_eq_ok.mp h
    obtain ⟨_, _, h⟩ := bind_eq_ok.mp h
    obtain ⟨_, _, h⟩ := bind_eq_ok.mp h
    obtain ⟨_, _, h⟩ := bind_eq_ok.mp h
    obtain ⟨_, _, h⟩ := bind_eq_ok.mp h
    obtain rfl := Except.ok.inj h
    exact (mem_range_of_parseInRange hsearch).1
  · exact nomatch h

/-- Only results of the ranking are returned. -/
theorem mem_takeFitting {maxResponseBytes : Nat} {truncated : Bool} {rest : List ScoredResult}
    {results : List SearchResult} {r : SearchResult}
    (h : r ∈ (takeFitting maxResponseBytes truncated results rest).results) :
    r ∈ results ∨ ∃ scored ∈ rest, scored.result = r := by
  induction rest generalizing results with
  | nil => exact Or.inl h
  | cons scored rest ih =>
    unfold takeFitting at h
    simp only at h
    split at h
    · exact Or.inl h
    · rcases ih h with hr | ⟨found, hfound, hr⟩
      · rcases List.mem_append.mp hr with hr | hr
        · exact Or.inl hr
        · exact Or.inr ⟨scored, List.mem_cons_self, (List.mem_singleton.mp hr).symm⟩
      · exact Or.inr ⟨found, List.mem_cons_of_mem _ hfound, hr⟩

/-- A result comes from a document that was read and scored. -/
theorem DocumentStore.scored_of_mem_search {C : KbCrates} {store : DocumentStore}
    {fs : FileSystem} {scope : AccessScope} {query : String} {limit : Option Nat}
    {maxResponseBytes : Nat} {response : SearchResponse}
    (h : store.search C fs scope query limit maxResponseBytes = .ok response) :
    ∃ terms, parseTerms C query = .ok terms ∧ ∀ r ∈ response.results, ∃ scored document,
      store.readForSearch C fs scope r.id = .ok document ∧
      scoreDocument C terms document = some scored ∧ scored.result = r := by
  obtain ⟨terms, ids, all, hterms, -, hall, rfl⟩ := DocumentStore.search_eq_ok h
  refine ⟨terms, hterms, ?_⟩
  intro r hr
  rcases mem_takeFitting hr with hnil | ⟨scored, hscored, rfl⟩
  · exact absurd hnil List.not_mem_nil
  · have hmem := (List.mem_insertionSort _).mp (List.mem_of_mem_take hscored)
    obtain ⟨id, -, document, hread, hscore⟩ := (mem_scoreAll_iff hall).mp hmem
    have hid := ((scoreDocument_spec hterms document).2 scored hscore).2.1
    rw [DocumentStore.id_of_readForSearch hread] at hid
    exact ⟨scored, document, by rw [hid]; exact hread, hscore, rfl⟩

/-- Whatever a search returns can be fetched, as the beginning of the text that was scored. -/
theorem fetch_after_search {K : ConfigCrates} {C : KbCrates} {fs₀ fs : FileSystem}
    {lookup : Lookup} {config : Config K} {store : DocumentStore} {scope : AccessScope}
    {query : String} {limit : Option Nat} {maxResponseBytes : Nat} {response : SearchResponse}
    (hconfig : Config.fromLookup K fs₀ lookup = .ok config)
    (hstore : DocumentStore.new fs₀ config.kbRoot config.maxReadBytes config.maxSearchFileBytes
      config.scopeDirectories = .ok store)
    (hsearch : store.search C fs scope query limit maxResponseBytes = .ok response) :
    ∃ terms, parseTerms C query = .ok terms ∧ ∀ r ∈ response.results,
      DocumentId.parse r.id.value = .ok r.id ∧
      ∃ scored document fetched,
        store.readForSearch C fs scope r.id = .ok document ∧
        scoreDocument C terms document = some scored ∧ scored.result = r ∧
        store.read C fs scope r.id = .ok fetched ∧
        fetched.text.toList <+: document.text.toList := by
  obtain ⟨terms, hterms, hall⟩ := DocumentStore.scored_of_mem_search hsearch
  obtain ⟨hread, hfile⟩ := DocumentStore.limits_of_new hstore
  refine ⟨terms, hterms, fun r hr => ⟨DocumentId.parse_eq_ok r.id.accepted, ?_⟩⟩
  obtain ⟨scored, document, hdocument, hscore, hresult⟩ := hall r hr
  have hle : store.maxReadBytes ≤ store.maxSearchFileBytes := by
    rw [hread, hfile]
    exact limits_of_fromLookup hconfig
  obtain ⟨fetched, hfetched, hprefix⟩ := DocumentStore.readLimited_mono hle hdocument
  exact ⟨scored, document, fetched, hdocument, hscore, hresult, hfetched, hprefix⟩

theorem toOption_eq_some_iff {ε α : Type} {x : Except ε α} {a : α} :
    x.toOption = some a ↔ x = .ok a := by
  cases x <;> simp [Except.toOption]

/-- The one document about the query, on a server with the default settings. -/
theorem fetch_after_search_sample :
    ∃ (store : DocumentStore) (response : SearchResponse),
      response.results.map (fun r => r.id.value) = ["10_tech/rust.md"] ∧
      ∃ terms, parseTerms Sample.kbCrates "rust DATA" = .ok terms ∧ ∀ r ∈ response.results,
        DocumentId.parse r.id.value = .ok r.id ∧
        ∃ scored document fetched,
          store.readForSearch Sample.kbCrates (Sample.fileSystem Sample.publicKb) .tech r.id
            = .ok document ∧
          scoreDocument Sample.kbCrates terms document = some scored ∧ scored.result = r ∧
          store.read Sample.kbCrates (Sample.fileSystem Sample.publicKb) .tech r.id
            = .ok fetched ∧
          fetched.text.toList <+: document.text.toList := by
  have hrun : ((Config.fromLookup Sample.configCrates (Sample.fileSystem Sample.publicKb)
      (Sample.lookup "/kb/99_inbox")).toOption.bind fun config =>
        (DocumentStore.new (Sample.fileSystem Sample.publicKb) config.kbRoot config.maxReadBytes
          config.maxSearchFileBytes config.scopeDirectories).toOption.bind fun store =>
            (store.search Sample.kbCrates (Sample.fileSystem Sample.publicKb) .tech "rust DATA"
              none 4096).toOption.map fun response =>
                response.results.map fun r => r.id.value) = some ["10_tech/rust.md"] := by
    decide +kernel
  obtain ⟨config, hconfig, hrun⟩ := Option.bind_eq_some_iff.mp hrun
  obtain ⟨store, hstore, hrun⟩ := Option.bind_eq_some_iff.mp hrun
  obtain ⟨response, hresponse, hids⟩ := Option.map_eq_some_iff.mp hrun
  exact ⟨store, response, hids, fetch_after_search (toOption_eq_some_iff.mp hconfig)
    (toOption_eq_some_iff.mp hstore) (toOption_eq_some_iff.mp hresponse)⟩

end EngramMcp
