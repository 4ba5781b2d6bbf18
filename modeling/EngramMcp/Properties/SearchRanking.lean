import EngramMcp.Kb.Reference
import EngramMcp.Kb.Search

/-!
# What a search returns

The ranking of a query lists every readable candidate that matches, once, by score and then by
id. A search returns its first entries: no more than the limit and no more than fit, and it says
so when something is missing.

* `mem_candidateIds_iff` — the candidates are the index and what the walks found
* `checkedScore_eq` — no addition of a score overflows
* `isRanking_sorted` — scoring and sorting the candidates gives the ranking
* `takeFitting_spec` — where the size check may cut the list
* `search_honest` — the property
-/

namespace EngramMcp

open Infra

/-! ## Candidates -/

theorem DocumentId.value_injective : Function.Injective DocumentId.value := by
  rintro ⟨v, hv⟩ ⟨w, hw⟩ h
  cases h
  rfl

/-- A successful pass over a list collects a result for each entry. -/
theorem exists_mapM_of_mem {ε α β : Type} {f : α → Except ε β} {l : List α} {l' : List β}
    (h : l.mapM f = .ok l') {x : α} (hx : x ∈ l) : ∃ y ∈ l', f x = .ok y := by
  induction l generalizing l' with
  | nil => simp at hx
  | cons z l ih =>
    rw [List.mapM_cons, bind_eq_ok] at h
    obtain ⟨w, hw, h⟩ := h
    obtain ⟨ws, hws, h⟩ := bind_eq_ok.mp h
    cases h
    rcases List.mem_cons.mp hx with rfl | hx
    · exact ⟨w, List.mem_cons_self, hw⟩
    · obtain ⟨y, hy, he⟩ := ih hws hx
      exact ⟨y, List.mem_cons_of_mem _ hy, he⟩

theorem mem_destutter_ne {α : Type} [DecidableEq α] {l : List α} {a : α} :
    a ∈ l.destutter (· ≠ ·) ↔ a ∈ l := by
  cases l with
  | nil => simp
  | cons b l =>
    rw [List.destutter_cons']
    induction l generalizing b with
    | nil => simp
    | cons c l ih =>
      rw [List.destutter'_cons]
      split
      · rw [List.mem_cons, ih, List.mem_cons (a := a) (b := b)]
      · next hbc =>
        rw [not_not] at hbc
        subst hbc
        rw [ih, List.mem_cons, List.mem_cons, List.mem_cons, ← or_assoc, or_self]

/-- Neighbours that differ in a list that does not fall: the list rises. -/
theorem pairwise_lt_of_isChain {α β : Type} [LinearOrder β] {f : α → β}
    (hf : Function.Injective f) {l : List α} (hle : l.Pairwise fun a b => f a ≤ f b)
    (hne : l.IsChain (· ≠ ·)) : l.Pairwise fun a b => f a < f b := by
  induction l with
  | nil => exact List.Pairwise.nil
  | cons a l ih =>
    rw [List.pairwise_cons] at hle ⊢
    refine ⟨fun b hb => ?_, ih hle.2 hne.tail⟩
    cases l with
    | nil => simp at hb
    | cons c l =>
      have hac : f a < f c :=
        lt_of_le_of_ne (hle.1 c List.mem_cons_self) fun h =>
          (List.isChain_cons_cons.mp hne).1 (hf h)
      rcases List.mem_cons.mp hb with rfl | hb
      · exact hac
      · exact hac.trans_le (List.rel_of_pairwise_cons hle.2 hb)

namespace DocumentStore

variable {C : KbCrates} {store : DocumentStore} {fs : FileSystem} {scope : AccessScope}

/-- The ids that a scope can find: the index, and the Markdown files of its walks. -/
def IsCandidate (C : KbCrates) (store : DocumentStore) (fs : FileSystem) (scope : AccessScope)
    (id : DocumentId) : Prop :=
  (hasIndex (store.rootFd fs) = true ∧ id.value = "INDEX.md") ∨
  ∃ top ∈ store.scopeRoots scope, ∃ name directory,
    (store.rootFd fs).child (utf8 top) = .ok (name, directory) ∧
      ∃ entry ∈ C.walk directory, entryId top entry = .ok (some id)

theorem mem_indexIds_iff {kb : Node} {ids : List DocumentId} (h : indexIds kb = .ok ids)
    {id : DocumentId} : id ∈ ids ↔ hasIndex kb = true ∧ id.value = "INDEX.md" := by
  unfold indexIds at h
  split at h
  · next hindex =>
    cases hp : DocumentId.parse "INDEX.md" with
    | error e => rw [hp] at h; cases h
    | ok parsed =>
      rw [hp] at h
      cases h
      have hvalue := DocumentId.value_of_parse hp
      rw [List.mem_singleton]
      constructor
      · rintro rfl
        exact ⟨hindex, hvalue⟩
      · rintro ⟨-, hid⟩
        exact DocumentId.value_injective (hid.trans hvalue.symm)
  · next hindex =>
    cases h
    simp [hindex]

theorem mem_topLevelIds_iff {kb : Node} {top : String} {ids : List DocumentId}
    (h : topLevelIds C kb top = .ok ids) {id : DocumentId} :
    id ∈ ids ↔ ∃ name directory, kb.child (utf8 top) = .ok (name, directory) ∧
      ∃ entry ∈ C.walk directory, entryId top entry = .ok (some id) := by
  unfold topLevelIds at h
  split at h
  · next hchild =>
    cases h
    refine ⟨fun hm => by simp at hm, ?_⟩
    rintro ⟨name, directory, hc, -⟩
    rw [hchild] at hc
    cases hc
  · next name directory hchild =>
    cases hw : (C.walk directory).mapM (entryId top) with
    | error e => rw [hw] at h; cases h
    | ok found =>
      rw [hw] at h
      cases h
      rw [List.mem_filterMap]
      constructor
      · rintro ⟨o, ho, hsome⟩
        rw [id_eq] at hsome
        subst hsome
        exact ⟨name, directory, hchild, exists_of_mem_mapM hw ho⟩
      · rintro ⟨name', directory', hc, entry, hentry, he⟩
        rw [hchild] at hc
        cases hc
        obtain ⟨o, ho, he'⟩ := exists_mapM_of_mem hw hentry
        rw [he] at he'
        cases he'
        exact ⟨some id, ho, rfl⟩

/-- The candidates are the index and what the walks found. -/
theorem mem_candidateIds_iff {ids : List DocumentId} (h : store.candidateIds C fs scope = .ok ids)
    {id : DocumentId} : id ∈ ids ↔ store.IsCandidate C fs scope id := by
  obtain ⟨index, hindex, h⟩ := bind_eq_ok.mp h
  obtain ⟨lists, hlists, h⟩ := bind_eq_ok.mp h
  cases h
  rw [mem_destutter_ne, List.mem_insertionSort, List.mem_append, mem_indexIds_iff hindex,
    List.mem_flatten]
  refine or_congr_right ?_
  constructor
  · rintro ⟨l, hl, hid⟩
    obtain ⟨top, htop, hwalk⟩ := exists_of_mem_mapM hlists hl
    exact ⟨top, htop, (mem_topLevelIds_iff hwalk).mp hid⟩
  · rintro ⟨top, htop, hid⟩
    obtain ⟨l, hl, hwalk⟩ := exists_mapM_of_mem hlists htop
    exact ⟨l, hl, (mem_topLevelIds_iff hwalk).mpr hid⟩

/-- The candidates come in the order of their ids, each once. -/
theorem sorted_candidateIds {ids : List DocumentId}
    (h : store.candidateIds C fs scope = .ok ids) :
    ids.Pairwise fun a b => a.value < b.value := by
  obtain ⟨index, -, h⟩ := bind_eq_ok.mp h
  obtain ⟨lists, -, h⟩ := bind_eq_ok.mp h
  cases h
  generalize index ++ lists.flatten = found
  have htotal : Std.Total fun a b : DocumentId => a.value ≤ b.value :=
    ⟨fun a b => le_total a.value b.value⟩
  have htrans : IsTrans DocumentId fun a b => a.value ≤ b.value :=
    ⟨fun a b c => le_trans⟩
  have hle := List.pairwise_insertionSort (fun a b : DocumentId => a.value ≤ b.value) found
  exact pairwise_lt_of_isChain DocumentId.value_injective
    (hle.sublist (List.destutter_sublist _ _)) (List.isChain_destutter _ _)

end DocumentStore

/-! ## Scores -/

/-- A document that has every term in its path, its title, its description or its text. -/
def Matches (C : KbCrates) (terms : List String) (document : FetchedDocument) : Prop :=
  ∀ term ∈ terms, ∃ field ∈ [document.id.value, document.metadata.title,
    document.metadata.description, document.text], containsStr (C.toLowercase field) term = true

/-- `u32::checked_add`. -/
def checkedAdd (a b : UInt32) : Option UInt32 :=
  if a.toNat + b.toNat < 2 ^ 32 then some (a + b) else none

/-- The score of a document, and nothing if one of its additions overflows. -/
def checkedScore (C : KbCrates) (terms : List String) (document : FetchedDocument) :
    Option UInt32 :=
  terms.foldlM (fun score term => do
    let score ← checkedAdd score
      (weigh (containsStr (C.toLowercase document.id.value) term) 100)
    let score ← checkedAdd score
      (weigh (containsStr (C.toLowercase document.metadata.title) term) 80)
    let score ← checkedAdd score
      (weigh (containsStr (C.toLowercase document.metadata.description) term) 50)
    checkedAdd score (weigh (containsStr (C.toLowercase document.text) term) 10)) 0

theorem weigh_le (condition : Bool) (weight : UInt32) :
    (weigh condition weight).toNat ≤ weight.toNat := by
  cases condition with
  | true => exact le_rfl
  | false => exact Nat.zero_le _

/-- Four weights of at most 240 fit when there is room for 240. -/
theorem checkedAdd_four {s a b c d : UInt32} (ha : a.toNat ≤ 100) (hb : b.toNat ≤ 80)
    (hc : c.toNat ≤ 50) (hd : d.toNat ≤ 10) (hs : s.toNat + 240 < 2 ^ 32) :
    (do
      let s ← checkedAdd s a
      let s ← checkedAdd s b
      let s ← checkedAdd s c
      checkedAdd s d) = some (s + a + b + c + d) ∧ (s + a + b + c + d).toNat ≤ s.toNat + 240 := by
  have h1 : (s + a).toNat = s.toNat + a.toNat := by rw [UInt32.toNat_add]; omega
  have h2 : (s + a + b).toNat = s.toNat + a.toNat + b.toNat := by
    rw [UInt32.toNat_add, h1]; omega
  have h3 : (s + a + b + c).toNat = s.toNat + a.toNat + b.toNat + c.toNat := by
    rw [UInt32.toNat_add, h2]; omega
  have h4 : (s + a + b + c + d).toNat = s.toNat + a.toNat + b.toNat + c.toNat + d.toNat := by
    rw [UInt32.toNat_add, h3]; omega
  refine ⟨?_, by omega⟩
  have g1 : checkedAdd s a = some (s + a) := if_pos (by omega)
  have g2 : checkedAdd (s + a) b = some (s + a + b) := if_pos (by omega)
  have g3 : checkedAdd (s + a + b) c = some (s + a + b + c) := if_pos (by omega)
  have g4 : checkedAdd (s + a + b + c) d = some (s + a + b + c + d) := if_pos (by omega)
  simp only [g1, g2, g3, g4, Option.bind_eq_bind, Option.bind_some]

/-- No addition of a score overflows while the terms have room for 240 each. -/
theorem foldlM_checkedAdd {path title description text : String → Bool} (terms : List String)
    {s : UInt32} (hs : s.toNat + 240 * terms.length < 2 ^ 32) :
    terms.foldlM (fun score term => do
      let score ← checkedAdd score (weigh (path term) 100)
      let score ← checkedAdd score (weigh (title term) 80)
      let score ← checkedAdd score (weigh (description term) 50)
      checkedAdd score (weigh (text term) 10)) s
    = some (terms.foldl (fun score term => score + weigh (path term) 100 + weigh (title term) 80
        + weigh (description term) 50 + weigh (text term) 10) s) := by
  induction terms generalizing s with
  | nil => rfl
  | cons term rest ih =>
    rw [List.length_cons] at hs
    obtain ⟨hsum, hle⟩ := checkedAdd_four (weigh_le (path term) 100) (weigh_le (title term) 80)
      (weigh_le (description term) 50) (weigh_le (text term) 10)
      (show s.toNat + 240 < 2 ^ 32 by omega)
    rw [List.foldlM_cons, hsum, List.foldl_cons]
    exact ih (by omega)

theorem length_le_utf8Len (l : List Char) : l.length ≤ utf8Len l := by
  induction l with
  | nil => exact le_rfl
  | cons c l ih =>
    have hc := Char.utf8Size_pos c
    rw [List.length_cons, utf8Len_cons]
    omega

theorem length_splitOnP_le {α : Type} (p : α → Bool) (l : List α) :
    (l.splitOnP p).length ≤ l.length + 1 := by
  induction l with
  | nil => simp
  | cons x l ih =>
    rw [List.splitOnP_cons_eq_if_modifyHead]
    split
    · simpa using ih
    · rw [List.length_modifyHead, List.length_cons]
      omega

/-- A query has no more terms than bytes, and a byte for the end. -/
theorem length_le_of_parseTerms {C : KbCrates} {query : String} {terms : List String}
    (h : parseTerms C query = .ok terms) : terms.length ≤ 257 := by
  obtain ⟨hlen, rfl⟩ := parseTerms_eq_ok h
  have hsplit := length_splitOnP_le isWhitespace query.toList
  have hfilter := List.length_filter_le (fun piece => decide (piece ≠ []))
    (query.toList.splitOnP isWhitespace)
  have hchars : query.toList.length ≤ query.utf8ByteSize := by
    rw [← utf8Len_toList]
    exact length_le_utf8Len _
  rw [List.length_map, splitWhitespace, List.length_map]
  omega

/-- What scoring a document answers. -/
theorem scoreDocument_spec {C : KbCrates} {query : String} {terms : List String}
    (hterms : parseTerms C query = .ok terms) (document : FetchedDocument) :
    (Matches C terms document → ∃ scored, scoreDocument C terms document = some scored) ∧
    ∀ scored, scoreDocument C terms document = some scored →
      Matches C terms document ∧ scored.result.id = document.id ∧
        checkedScore C terms document = some scored.score := by
  have hall : terms.all (fun term => containsStr (C.toLowercase document.id.value) term ||
        containsStr (C.toLowercase document.metadata.title) term ||
        containsStr (C.toLowercase document.metadata.description) term ||
        containsStr (C.toLowercase document.text) term) = true ↔ Matches C terms document := by
    simp [List.all_eq_true, Matches, or_assoc]
  have hlen := length_le_of_parseTerms hterms
  unfold scoreDocument
  simp only
  constructor
  · intro hm
    rw [if_neg (by rw [hall.mpr hm]; simp)]
    exact ⟨_, rfl⟩
  · intro scored h
    split at h
    · simp at h
    · next hmatch =>
      cases h
      rw [Bool.not_eq_true, Bool.not_eq_false'] at hmatch
      refine ⟨hall.mp hmatch, rfl, ?_⟩
      exact foldlM_checkedAdd terms (by simp only [UInt32.toNat_zero]; omega)

/-! ## The ranking -/

theorem scoreAll_sublist {C : KbCrates} {terms : List String}
    {read : DocumentId → Except StoreError FetchedDocument} {ids : List DocumentId}
    {scored : List ScoredResult} (hread : ∀ id document, read id = .ok document → document.id = id)
    (hscore : ∀ document found, scoreDocument C terms document = some found →
      found.result.id = document.id)
    (h : scoreAll C terms read ids = .ok scored) :
    (scored.map fun s => s.result.id).Sublist ids := by
  induction ids generalizing scored with
  | nil => cases h; exact List.Sublist.slnil
  | cons id rest ih =>
    unfold scoreAll at h
    split at h
    · next document hdoc =>
      split at h
      · next found hfound =>
        cases hr : scoreAll C terms read rest with
        | error e => rw [hr] at h; cases h
        | ok more =>
          rw [hr] at h
          cases h
          rw [List.map_cons, hscore _ _ hfound, hread _ _ hdoc]
          exact (ih hr).cons_cons id
      · exact (ih h).cons id
    · exact (ih h).cons id
    · simp at h

theorem mem_scoreAll_iff {C : KbCrates} {terms : List String}
    {read : DocumentId → Except StoreError FetchedDocument} {ids : List DocumentId}
    {scored : List ScoredResult} (h : scoreAll C terms read ids = .ok scored)
    {found : ScoredResult} :
    found ∈ scored ↔ ∃ id ∈ ids, ∃ document, read id = .ok document ∧
      scoreDocument C terms document = some found := by
  induction ids generalizing scored with
  | nil => cases h; simp
  | cons id rest ih =>
    unfold scoreAll at h
    simp only [List.mem_cons, exists_eq_or_imp]
    split at h
    · next document hdoc =>
      split at h
      · -- the first document matches
        next first hfirst =>
        cases hr : scoreAll C terms read rest with
        | error e => rw [hr] at h; cases h
        | ok more =>
          rw [hr] at h
          cases h
          rw [List.mem_cons, ih hr]
          refine or_congr_left ⟨?_, ?_⟩
          · rintro rfl
            exact ⟨document, hdoc, hfirst⟩
          · rintro ⟨document', hdoc', hfound⟩
            rw [hdoc] at hdoc'
            cases hdoc'
            rw [hfirst] at hfound
            exact (Option.some.inj hfound).symm
      · -- it was read and does not match
        next hnone =>
        rw [ih h]
        refine (or_iff_right ?_).symm
        rintro ⟨document', hdoc', hfound⟩
        rw [hdoc] at hdoc'
        cases hdoc'
        rw [hnone] at hfound
        cases hfound
    · -- it is gone, and the search goes on without it
      next hnot =>
      rw [ih h]
      refine (or_iff_right ?_).symm
      rintro ⟨document, hdoc, -⟩
      rw [hnot] at hdoc
      cases hdoc
    · simp at h

/-- By score from the highest, and by id where the scores are equal. -/
def Before (left right : ScoredResult) : Prop :=
  right.score < left.score ∨
    left.score = right.score ∧ left.result.id.value < right.result.id.value

theorem DocumentStore.id_of_readForSearch {C : KbCrates} {store : DocumentStore}
    {fs : FileSystem} {scope : AccessScope} {id : DocumentId} {document : FetchedDocument}
    (h : store.readForSearch C fs scope id = .ok document) : document.id = id := by
  unfold readForSearch readLimited at h
  split at h
  · simp at h
  · split at h
    · simp at h
    · split at h
      · simp at h
      · cases h
        rfl

/--
The ranking of a search: every candidate that can be read and matches, once and with a score that
did not overflow, by score and then by id.
-/
structure DocumentStore.IsRanking (C : KbCrates) (store : DocumentStore) (fs : FileSystem)
    (scope : AccessScope) (terms : List String) (ranking : List ScoredResult) : Prop where
  sorted : ranking.Pairwise Before
  once : (ranking.map fun scored => scored.result.id).Nodup
  sound : ∀ scored ∈ ranking, store.IsCandidate C fs scope scored.result.id ∧
    ∃ document, store.readForSearch C fs scope scored.result.id = .ok document ∧
      Matches C terms document ∧ scoreDocument C terms document = some scored ∧
      checkedScore C terms document = some scored.score
  complete : ∀ id document, store.IsCandidate C fs scope id →
    store.readForSearch C fs scope id = .ok document → Matches C terms document →
    ∃ scored ∈ ranking, scored.result.id = id

theorem ranksBefore_total (a b : ScoredResult) :
    ranksBefore a b = true ∨ ranksBefore b a = true := by
  unfold ranksBefore
  simp only [Bool.or_eq_true, Bool.and_eq_true, decide_eq_true_eq]
  rcases Nat.lt_trichotomy a.score.toNat b.score.toNat with hs | hs | hs
  · exact Or.inr (Or.inl (UInt32.lt_iff_toNat_lt.mpr hs))
  · have he : a.score = b.score := UInt32.toNat_inj.mp hs
    rcases le_total a.result.id.value b.result.id.value with hid | hid
    · exact Or.inl (Or.inr ⟨he, hid⟩)
    · exact Or.inr (Or.inr ⟨he.symm, hid⟩)
  · exact Or.inl (Or.inl (UInt32.lt_iff_toNat_lt.mpr hs))

theorem ranksBefore_trans {a b c : ScoredResult} (hab : ranksBefore a b = true)
    (hbc : ranksBefore b c = true) : ranksBefore a c = true := by
  unfold ranksBefore at *
  simp only [Bool.or_eq_true, Bool.and_eq_true, decide_eq_true_eq] at *
  rcases hab with hab | ⟨hab, hid⟩
  · rcases hbc with hbc | ⟨hbc, -⟩
    · exact Or.inl (UInt32.lt_trans hbc hab)
    · exact Or.inl (hbc ▸ hab)
  · rcases hbc with hbc | ⟨hbc, hid'⟩
    · exact Or.inl (hab ▸ hbc)
    · exact Or.inr ⟨hab.trans hbc, hid.trans hid'⟩

/-- Scoring the candidates and sorting the matches gives the ranking. -/
theorem DocumentStore.isRanking_sorted {C : KbCrates} {store : DocumentStore} {fs : FileSystem}
    {scope : AccessScope} {query : String} {terms : List String} {ids : List DocumentId}
    {scored : List ScoredResult} (hterms : parseTerms C query = .ok terms)
    (hids : store.candidateIds C fs scope = .ok ids)
    (hscored : scoreAll C terms (store.readForSearch C fs scope) ids = .ok scored) :
    store.IsRanking C fs scope terms
      (scored.insertionSort fun a b => ranksBefore a b = true) := by
  have hperm := List.perm_insertionSort (fun a b => ranksBefore a b = true) scored
  have hids' : ids.Nodup := by
    refine (sorted_candidateIds hids).imp ?_
    rintro a b hlt rfl
    exact lt_irrefl _ hlt
  have hnodup : (scored.map fun s => s.result.id).Nodup :=
    (scoreAll_sublist (fun _ _ => id_of_readForSearch)
      (fun document found hf => ((scoreDocument_spec hterms document).2 found hf).2.1)
      hscored).nodup hids'
  have honce := (hperm.map fun s => s.result.id).nodup_iff.mpr hnodup
  refine ⟨?_, honce, ?_, ?_⟩
  · have htotal : Std.Total fun a b => ranksBefore a b = true := ⟨ranksBefore_total⟩
    have htrans : IsTrans ScoredResult fun a b => ranksBefore a b = true :=
      ⟨fun _ _ _ => ranksBefore_trans⟩
    have hsorted := List.pairwise_insertionSort (fun a b => ranksBefore a b = true) scored
    have hne := List.pairwise_map.mp honce
    refine (hsorted.and hne).imp ?_
    rintro a b ⟨hab, hid⟩
    unfold ranksBefore at hab
    simp only [Bool.or_eq_true, Bool.and_eq_true, decide_eq_true_eq] at hab
    rcases hab with hab | ⟨hab, hle⟩
    · exact Or.inl hab
    · exact Or.inr ⟨hab, lt_of_le_of_ne hle fun h => hid (DocumentId.value_injective h)⟩
  · intro found hfound
    obtain ⟨id, hid, document, hread, hscore⟩ :=
      (mem_scoreAll_iff hscored).mp (hperm.mem_iff.mp hfound)
    obtain ⟨hmatch, hfid, hchecked⟩ := (scoreDocument_spec hterms document).2 found hscore
    rw [hfid, id_of_readForSearch hread]
    exact ⟨(mem_candidateIds_iff hids).mp hid, document, hread, hmatch, hscore, hchecked⟩
  · intro id document hid hread hmatch
    have hspec := scoreDocument_spec hterms document
    obtain ⟨found, hfound⟩ := hspec.1 hmatch
    refine ⟨found, hperm.mem_iff.mpr ((mem_scoreAll_iff hscored).mpr ?_), ?_⟩
    · exact ⟨id, (mem_candidateIds_iff hids).mpr hid, document, hread, hfound⟩
    · rw [(hspec.2 found hfound).2.1, id_of_readForSearch hread]

/-! ## What fits -/

theorem jsonLength_eq (r : SearchResponse) :
    r.jsonLength = utf8Len (Json.arr (r.results.map SearchResult.toJson)) +
      utf8Len (Json.bool r.truncated) + 25 := by
  have hr : Json.escapedLength "results" = 7 := by decide
  have ht : Json.escapedLength "truncated" = 9 := by decide
  unfold SearchResponse.jsonLength SearchResponse.toJson
  rw [Json.utf8Len_obj]
  simp only [List.map_cons, List.map_nil, List.sum_cons, List.sum_nil, List.length_cons,
    List.length_nil, Json.utf8Len_member, hr, ht]
  omega

/-- Saying that something is missing does not make a response longer. -/
theorem jsonLength_true_le (results : List SearchResult) (truncated : Bool) :
    (SearchResponse.mk results true).jsonLength
      ≤ (SearchResponse.mk results truncated).jsonLength := by
  have h : utf8Len (Json.bool true) ≤ utf8Len (Json.bool truncated) := by cases truncated <;> decide
  rw [jsonLength_eq, jsonLength_eq]
  simp only
  omega

theorem jsonLength_nil_le (truncated : Bool) :
    (SearchResponse.mk [] truncated).jsonLength ≤ 32 := by
  cases truncated <;> decide

/-- Where the size check may cut the list. -/
theorem takeFitting_spec {maxResponseBytes : Nat} {truncated : Bool} (rest : List ScoredResult)
    {results : List SearchResult}
    (hfit : (SearchResponse.mk results truncated).jsonLength ≤ maxResponseBytes) :
    ∃ k ≤ rest.length,
      (takeFitting maxResponseBytes truncated results rest).results
        = results ++ (rest.take k).map ScoredResult.result ∧
      (takeFitting maxResponseBytes truncated results rest).truncated
        = (truncated || decide (k < rest.length)) ∧
      (takeFitting maxResponseBytes truncated results rest).jsonLength ≤ maxResponseBytes := by
  induction rest generalizing results with
  | nil => exact ⟨0, le_rfl, by simp [takeFitting], by simp [takeFitting], hfit⟩
  | cons scored rest ih =>
    unfold takeFitting
    simp only
    split
    · -- the first that does not fit: the list ends before it
      refine ⟨0, Nat.zero_le _, by simp, by simp, ?_⟩
      exact (jsonLength_true_le results truncated).trans hfit
    · next hle =>
      obtain ⟨k, hk, hres, htrunc, hlen⟩ := ih (Nat.le_of_not_lt hle)
      refine ⟨k + 1, by rw [List.length_cons]; omega, ?_, ?_, hlen⟩
      · rw [hres, List.take_succ_cons, List.map_cons, List.append_assoc, List.singleton_append]
      · rw [htrunc]
        simp

/-! ## The property -/

/-- A readable candidate that matches and is not among the results. -/
def DocumentStore.Misses (C : KbCrates) (store : DocumentStore) (fs : FileSystem)
    (scope : AccessScope) (terms : List String) (results : List SearchResult) : Prop :=
  ∃ id document, store.IsCandidate C fs scope id ∧
    store.readForSearch C fs scope id = .ok document ∧ Matches C terms document ∧
    id ∉ results.map SearchResult.id

/-- A response that returns a prefix of the ranking and says whether it is all of it. -/
structure DocumentStore.HonestPrefix (C : KbCrates) (store : DocumentStore) (fs : FileSystem)
    (scope : AccessScope) (terms : List String) (limit maxResponseBytes : Nat)
    (response : SearchResponse) : Prop where
  isPrefix : ∃ ranking, store.IsRanking C fs scope terms ranking ∧
    response.results <+: ranking.map ScoredResult.result
  length_le : response.results.length ≤ limit
  truncated_iff : response.truncated = true ↔ store.Misses C fs scope terms response.results
  jsonLength_le : response.jsonLength ≤ maxResponseBytes

/-- The first results of a ranking miss something exactly when they are not all of it. -/
theorem DocumentStore.misses_take_iff {C : KbCrates} {store : DocumentStore} {fs : FileSystem}
    {scope : AccessScope} {terms : List String} {ranking : List ScoredResult}
    (h : store.IsRanking C fs scope terms ranking) (k : Nat) :
    store.Misses C fs scope terms ((ranking.take k).map ScoredResult.result)
      ↔ k < ranking.length := by
  have hids : ∀ l : List ScoredResult, (l.map ScoredResult.result).map SearchResult.id
      = l.map fun scored => scored.result.id := fun l => by rw [List.map_map]; rfl
  unfold Misses
  rw [hids]
  constructor
  · rintro ⟨id, document, hid, hread, hmatch, hmissing⟩
    by_contra hk
    rw [List.take_of_length_le (not_lt.mp hk)] at hmissing
    obtain ⟨scored, hscored, rfl⟩ := h.complete id document hid hread hmatch
    exact hmissing (List.mem_map_of_mem hscored)
  · -- the first result that was left out is missing
    intro hk
    have hmem : ranking[k] ∈ ranking := List.getElem_mem hk
    obtain ⟨hid, document, hread, hmatch, -⟩ := h.sound _ hmem
    refine ⟨_, document, hid, hread, hmatch, fun hin => ?_⟩
    have honce := h.once
    rw [← List.take_append_drop k ranking, List.map_append, List.nodup_append] at honce
    refine honce.2.2 _ hin _ ?_ rfl
    rw [List.drop_eq_getElem_cons hk, List.map_cons]
    exact List.mem_cons_self

/-- What a search that succeeds returns. -/
theorem DocumentStore.search_eq_ok {C : KbCrates} {store : DocumentStore} {fs : FileSystem}
    {scope : AccessScope} {query : String} {limit : Option Nat} {maxResponseBytes : Nat}
    {response : SearchResponse}
    (h : store.search C fs scope query limit maxResponseBytes = .ok response) :
    ∃ terms ids scored, parseTerms C query = .ok terms ∧
      store.candidateIds C fs scope = .ok ids ∧
      scoreAll C terms (store.readForSearch C fs scope) ids = .ok scored ∧
      response = takeFitting maxResponseBytes
        (decide (limit.getD defaultLimit
          < (scored.insertionSort fun a b => ranksBefore a b = true).length)) []
        ((scored.insertionSort fun a b => ranksBefore a b = true).take
          (limit.getD defaultLimit)) := by
  unfold search at h
  split at h
  · exact nomatch h
  · next terms hterms =>
    simp only at h
    split at h
    · exact nomatch h
    · split at h
      · exact nomatch h
      · next ids hids =>
        split at h
        · exact nomatch h
        · next scored hscored =>
          exact ⟨terms, ids, scored, hterms, hids, hscored, (Except.ok.inj h).symm⟩

/-- A search that succeeds returns an honest prefix of the ranking of its query. -/
theorem search_honest {C : KbCrates} {store : DocumentStore} {fs : FileSystem}
    {scope : AccessScope} {query : String} {limit : Option Nat} {maxResponseBytes : Nat}
    {response : SearchResponse} (hmax : 32 ≤ maxResponseBytes)
    (h : store.search C fs scope query limit maxResponseBytes = .ok response) :
    ∃ terms, parseTerms C query = .ok terms ∧
      store.HonestPrefix C fs scope terms (limit.getD defaultLimit) maxResponseBytes response := by
  obtain ⟨terms, ids, scored, hterms, hids, hscored, rfl⟩ := DocumentStore.search_eq_ok h
  refine ⟨terms, hterms, ?_⟩
  have hranking := DocumentStore.isRanking_sorted hterms hids hscored
  generalize scored.insertionSort (fun a b => ranksBefore a b = true) = ranking at hranking ⊢
  generalize limit.getD defaultLimit = limit
  -- the empty list fits, so the check of the size only ever cuts the list short
  have hfit : (SearchResponse.mk [] (decide (limit < ranking.length))).jsonLength
      ≤ maxResponseBytes := (jsonLength_nil_le _).trans hmax
  obtain ⟨k, hk, hres, htrunc, hlen⟩ := takeFitting_spec (ranking.take limit) hfit
  rw [List.length_take] at hk htrunc
  rw [List.nil_append, List.take_take, Nat.min_eq_left (hk.trans (Nat.min_le_left _ _))] at hres
  refine ⟨⟨ranking, hranking, ?_⟩, ?_, ?_, hlen⟩
  · rw [hres]
    exact (List.take_prefix k ranking).map _
  · rw [hres, List.length_map, List.length_take]
    omega
  · rw [hres, htrunc, DocumentStore.misses_take_iff hranking]
    simp only [Bool.or_eq_true, decide_eq_true_eq]
    omega

/-- The one document about the query, in a response with room for it. -/
theorem search_honest_sample : ∃ response,
    Sample.store.search Sample.kbCrates (Sample.fileSystem Sample.publicKb) .tech "rust DATA"
      (some 5) 4096 = .ok response ∧
    ∃ terms, parseTerms Sample.kbCrates "rust DATA" = .ok terms ∧
      Sample.store.HonestPrefix Sample.kbCrates (Sample.fileSystem Sample.publicKb) .tech terms 5
        4096 response := by
  have hok : ((Sample.store.search Sample.kbCrates (Sample.fileSystem Sample.publicKb) .tech
      "rust DATA" (some 5) 4096).toOption.map fun r => r.results.length) = some 1 := by
    decide +kernel
  cases h : Sample.store.search Sample.kbCrates (Sample.fileSystem Sample.publicKb) .tech
      "rust DATA" (some 5) 4096 with
  | error e => rw [h] at hok; simp [Except.toOption] at hok
  | ok response => exact ⟨response, rfl, search_honest (by decide) h⟩

end EngramMcp
