import EngramMcp.Infra.Lowercase
import EngramMcp.Properties.SearchRanking

/-!
# Verbatim occurrences

A search lowers the terms of a query and the fields of a document separately. A term that a field
has verbatim is found in it, unless a sigma of the term is at the end of a word in the one and not
in the other. That depends on the term alone: it has a sigma that is *exposed*, or it is found
wherever it stands.

* `matches_iff_standsIn` — what the comparison in lower case compares
* `exists_document_of_exposed` — an exposed term is not found in every document that has it
* `verbatim_found_iff` — when a document that has every term is found
-/

namespace EngramMcp

open Infra

variable {C : KbCrates} {U : CaseTables}

/-- The fields that a document is searched in. -/
def FetchedDocument.searchedFields (document : FetchedDocument) : List String :=
  [document.id.value, document.metadata.title, document.metadata.description, document.text]

/-- Each term of the query, as typed, stands in a field. -/
def HasVerbatim (query : String) (document : FetchedDocument) : Prop :=
  ∀ term ∈ splitWhitespace query, ∃ field ∈ document.searchedFields, containsStr field term = true

/-- A document matches the terms in lower case if each stands in a field up to case. -/
theorem matches_iff_standsIn (hlower : C.toLowercase = U.toLowercase) {query : String}
    {terms : List String} (hterms : parseTerms C query = .ok terms) (document : FetchedDocument) :
    Matches C terms document ↔ ∀ term ∈ splitWhitespace query,
      ∃ field ∈ document.searchedFields, U.StandsIn term.toList field.toList := by
  obtain ⟨-, rfl⟩ := parseTerms_eq_ok hterms
  have hin (field term : String) : containsStr (C.toLowercase field) (C.toLowercase term) = true ↔
      U.StandsIn term.toList field.toList := by
    rw [hlower, CaseTables.containsStr_toLowercase, CaseTables.toLowercase, String.toList_ofList,
      CaseTables.standsIn_iff]
  rw [Matches, List.forall_mem_map]
  simp only [hin, FetchedDocument.searchedFields]

theorem exists_scored_iff {query : String} {terms : List String}
    (hterms : parseTerms C query = .ok terms) (document : FetchedDocument) :
    (∃ scored, scoreDocument C terms document = some scored) ↔ Matches C terms document := by
  obtain ⟨hfound, hmatches⟩ := scoreDocument_spec hterms document
  constructor
  · rintro ⟨scored, h⟩
    exact (hmatches scored h).1
  · exact hfound

/-- For a term with an exposed sigma there is a document that has it in its text and is not found
for it. -/
theorem exists_document_of_exposed {term : String} (h : U.Exposed term.toList) :
    ∃ document : FetchedDocument, containsStr document.text term = true ∧
      ∀ field ∈ document.searchedFields, ¬U.StandsIn term.toList field.toList := by
  obtain ⟨text, htext, hnot⟩ := CaseTables.exists_text_of_exposed h
  refine ⟨⟨⟨"10_tech/a.md", by decide +kernel⟩, String.ofList text, ⟨"", "", none⟩, false⟩, ?_, ?_⟩
  · rw [containsStr, decide_eq_true_eq, String.toList_ofList]
    rcases htext with rfl | rfl
    · exact (List.prefix_append _ _).isInfix
    · exact (List.suffix_cons _ _).isInfix
  · have hascii (s : String) (hs : s.toList.all (fun c => decide (c.toNat < 0x80)) = true) :
        ¬U.StandsIn term.toList s.toList :=
      CaseTables.not_standsIn_of_ascii h fun c hc => of_decide_eq_true (List.all_eq_true.mp hs c hc)
    intro field hfield
    simp only [FetchedDocument.searchedFields, List.mem_cons, List.not_mem_nil, or_false] at hfield
    rcases hfield with rfl | rfl | rfl | rfl
    · exact hascii _ (by decide +kernel)
    · exact hascii _ (by decide +kernel)
    · exact hascii _ (by decide +kernel)
    · rw [String.toList_ofList, CaseTables.standsIn_iff]
      exact hnot

/-- **A verbatim occurrence that is not found**: a document that has every term of the query is
found if and only if each term with an exposed sigma stands in a field up to case, with the same
sigmas at the end of a word. -/
theorem verbatim_found_iff (hlower : C.toLowercase = U.toLowercase) {query : String}
    {terms : List String} (hterms : parseTerms C query = .ok terms) (document : FetchedDocument) :
    (HasVerbatim query document → ∃ scored, scoreDocument C terms document = some scored) ↔
      (∃ term ∈ splitWhitespace query, ∀ field ∈ document.searchedFields,
        containsStr field term = false) ∨
      ∀ term ∈ splitWhitespace query, U.Exposed term.toList →
        ∃ field ∈ document.searchedFields, U.StandsIn term.toList field.toList := by
  rw [exists_scored_iff hterms, matches_iff_standsIn hlower hterms]
  by_cases hverbatim : HasVerbatim query document
  · have hnot : ¬∃ term ∈ splitWhitespace query, ∀ field ∈ document.searchedFields,
        containsStr field term = false := by
      rintro ⟨term, hterm, hnone⟩
      obtain ⟨field, hfield, hin⟩ := hverbatim term hterm
      rw [hnone field hfield] at hin
      exact Bool.false_ne_true hin
    constructor
    · intro h
      refine Or.inr fun term hterm _ => h hverbatim term hterm
    · intro h _ term hterm
      by_cases hexposed : U.Exposed term.toList
      · exact h.resolve_left hnot term hterm hexposed
      · obtain ⟨field, hfield, hin⟩ := hverbatim term hterm
        exact ⟨field, hfield, CaseTables.standsIn_of_infix hexposed (of_decide_eq_true hin)⟩
  · refine iff_of_true (fun h => absurd h hverbatim) (Or.inl ?_)
    unfold HasVerbatim at hverbatim
    push Not at hverbatim
    simpa using hverbatim

namespace Sample

/-- A document about road signs. -/
def roadSigns : FetchedDocument where
  id := ⟨"10_tech/signs.md", by decide +kernel⟩
  text := "ΟΔΟΣΗΜΑΝΣΗ\n"
  metadata := ⟨"Signs", "", none⟩
  truncated := false

end Sample

/-- The term ends in a sigma, and in the text its word goes on. -/
theorem verbatim_not_found : HasVerbatim "ΟΔΟΣ" Sample.roadSigns ∧
    parseTerms Sample.greekCrates "ΟΔΟΣ" = .ok ["οδος"] ∧
    scoreDocument Sample.greekCrates ["οδος"] Sample.roadSigns = none := by
  unfold HasVerbatim
  exact ⟨by decide +kernel, rfl, Option.isNone_iff_eq_none.mp (by decide +kernel)⟩

theorem verbatim_found_iff_signs : (HasVerbatim "ΟΔΟΣ" Sample.roadSigns →
      ∃ scored, scoreDocument Sample.greekCrates ["οδος"] Sample.roadSigns = some scored) ↔
    (∃ term ∈ splitWhitespace "ΟΔΟΣ", ∀ field ∈ Sample.roadSigns.searchedFields,
      containsStr field term = false) ∨
    ∀ term ∈ splitWhitespace "ΟΔΟΣ", Sample.caseTables.Exposed term.toList →
      ∃ field ∈ Sample.roadSigns.searchedFields,
        Sample.caseTables.StandsIn term.toList field.toList :=
  verbatim_found_iff rfl (by rfl) Sample.roadSigns

end EngramMcp
