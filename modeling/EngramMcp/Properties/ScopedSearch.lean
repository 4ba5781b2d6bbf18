import EngramMcp.Properties.OddFile

/-!
# The ranking decides

There is one ranking for a query, and the response is cut from it. So it does not matter in which
order the file system lists its directories; and a search with the tech scope is a search with the
private scope from whose ranking the private documents are taken out, before anything is cut off.

* `IsRanking.unique` — a query has one ranking
* `search_tech_eq_filter` — what the tech scope finds, from what the private scope finds
* `search_walk_order` — the order of the walks does not matter
-/

namespace EngramMcp

open Infra DocumentStore

variable {C : KbCrates} {store : DocumentStore} {fs : FileSystem} {scope : AccessScope}
  {query : String} {terms : List String}

/-! ## One ranking -/

/-- The entries of a ranking are the scores of the candidates that can be read. -/
theorem DocumentStore.IsRanking.mem_iff {ranking : List ScoredResult}
    (hr : store.IsRanking C fs scope terms ranking) (hterms : parseTerms C query = .ok terms)
    {scored : ScoredResult} : scored ∈ ranking ↔ ∃ id document, store.IsCandidate C fs scope id ∧
      store.readForSearch C fs scope id = .ok document ∧
      scoreDocument C terms document = some scored := by
  constructor
  · intro hmem
    obtain ⟨hid, document, hread, -, hscore, -⟩ := hr.sound scored hmem
    exact ⟨_, document, hid, hread, hscore⟩
  · rintro ⟨id, document, hid, hread, hscore⟩
    obtain ⟨hmatch, -⟩ := (scoreDocument_spec hterms document).2 scored hscore
    obtain ⟨other, hother, rfl⟩ := hr.complete id document hid hread hmatch
    obtain ⟨-, document', hread', -, hscore', -⟩ := hr.sound other hother
    obtain rfl := Except.ok.inj (hread.symm.trans hread')
    obtain rfl := Option.some.inj (hscore.symm.trans hscore')
    exact hother

/-- **A query has one ranking.** -/
theorem DocumentStore.IsRanking.unique {ranking ranking' : List ScoredResult}
    (hr : store.IsRanking C fs scope terms ranking)
    (hr' : store.IsRanking C fs scope terms ranking')
    (hterms : parseTerms C query = .ok terms) : ranking = ranking' := by
  have hanti : Std.Antisymm Before := ⟨fun a b hab hba => absurd hba hab.asymm⟩
  have hirrefl : Std.Irrefl Before := ⟨fun a ha => ha.asymm ha⟩
  refine hr.sorted.eq_of_mem_iff hr'.sorted fun scored => ?_
  rw [hr.mem_iff hterms, hr'.mem_iff hterms]

/-- What a search returns of a ranking. -/
def page (limit maxResponseBytes : Nat) (ranking : List ScoredResult) : SearchResponse :=
  takeFitting maxResponseBytes (decide (limit < ranking.length)) [] (ranking.take limit)

/-- A search that succeeds returns a page of the ranking. -/
theorem exists_page {limit : Option Nat} {maxResponseBytes : Nat} {response : SearchResponse}
    (h : store.search C fs scope query limit maxResponseBytes = .ok response) :
    ∃ terms ranking, parseTerms C query = .ok terms ∧ store.IsRanking C fs scope terms ranking ∧
      response = page (limit.getD defaultLimit) maxResponseBytes ranking := by
  obtain ⟨terms, ids, scored, hterms, hids, hscored, rfl⟩ := search_eq_ok h
  exact ⟨terms, _, hterms, isRanking_sorted hterms hids hscored, rfl⟩

/-! ## The tech scope -/

/-- The entry of a walk for its own root is a file only where the root is one. -/
def KbCrates.WalksRoot (C : KbCrates) : Prop :=
  ∀ directory entry, .ok entry ∈ C.walk directory → entry.relative = [] → entry.isFile = true →
    directory.isFile = true

theorem scopeRoots_tech_subset (store : DocumentStore) :
    store.scopeRoots .tech ⊆ store.scopeRoots .private := by
  intro d hd
  unfold scopeRoots at hd ⊢
  rw [show AccessScope.allowsPrivate .tech = false from rfl, if_neg Bool.false_ne_true,
    List.append_nil] at hd
  exact List.mem_append_left _ hd

theorem isAllowed_private {id : DocumentId} (h : store.isAllowed .tech id = true) :
    store.isAllowed .private id = true := by
  rw [isAllowed_iff] at h ⊢
  rcases h with hindex | ⟨d, hd, htop⟩
  · exact Or.inl hindex
  · exact Or.inr ⟨d, scopeRoots_tech_subset store hd, htop⟩

theorem isAllowed_of_isCandidate {id : DocumentId} (h : store.IsCandidate C fs scope id) :
    store.isAllowed scope id = true := by
  rw [isAllowed_iff]
  rcases h with ⟨-, hid⟩ | ⟨top, htop, _, _, -, entry, -, hentry⟩
  · exact Or.inl hid
  · exact Or.inr ⟨top, htop, topLevel_of_entryId (safe_of_mem_scopeRoots htop) hentry⟩

/-- A walk that comes by the index walks a regular file. -/
theorem hasIndex_of_entryId (hwalk : C.WalksRoot) {kb : Node} {top : String}
    (hsafe : isSafeTopLevelDirectory top = true) {name : Name} {directory : Node}
    (hchild : kb.child (utf8 top) = .ok (name, directory)) {entry : Except String WalkEntry}
    (hentry : entry ∈ C.walk directory) {id : DocumentId}
    (hid : entryId top entry = .ok (some id)) (hvalue : id.value = "INDEX.md") :
    hasIndex kb = true := by
  obtain ⟨file, rfl, hnote, htext⟩ := entryId_eq_some hid
  -- the path of the entry has one segment
  have hnames : ∀ seg ∈ utf8 top :: file.relative.map fun name =>
      utf8 (fromUtf8Lossy name.bytes), IsName seg := by
    rw [List.forall_mem_cons, List.forall_mem_map]
    exact ⟨isName_of_isSafe hsafe, fun name _ => name.isName.fromUtf8Lossy⟩
  have hpath : utf8 id.value = [slash].intercalate (utf8 top :: file.relative.map fun name =>
      utf8 (fromUtf8Lossy name.bytes)) := by
    rw [← htext, entryPath, idText_intercalate hsafe, utf8_intercalate, List.map_cons, List.map_map]
    rfl
  have hsegments :=
    segments_intercalate (List.cons_ne_nil _ _) fun seg hseg => (hnames seg hseg).2.1
  rw [← hpath, hvalue, show segments (utf8 "INDEX.md") = [utf8 "INDEX.md"] by decide +kernel]
    at hsegments
  obtain ⟨htop, hrelative⟩ := List.cons.inj hsegments
  have hisFile := hwalk directory file hentry (List.map_eq_nil_iff.mp hrelative.symm) hnote.1
  unfold hasIndex
  rw [htop, hchild]
  exact hisFile

/-- The candidates of the tech scope are those of the private scope that it may read. -/
theorem isCandidate_tech_iff (hwalk : C.WalksRoot) {id : DocumentId} :
    store.IsCandidate C fs .tech id ↔
      store.IsCandidate C fs .private id ∧ store.isAllowed .tech id = true := by
  constructor
  · intro h
    refine ⟨?_, isAllowed_of_isCandidate h⟩
    rcases h with hindex | ⟨top, htop, hfound⟩
    · exact Or.inl hindex
    · exact Or.inr ⟨top, scopeRoots_tech_subset store htop, hfound⟩
  · rintro ⟨hindex | ⟨top, htop, name, directory, hchild, entry, hentry, hid⟩, hallowed⟩
    · exact Or.inl hindex
    · have hsafe := safe_of_mem_scopeRoots htop
      rcases isAllowed_iff.mp hallowed with hvalue | ⟨d, hd, htopLevel⟩
      · exact Or.inl ⟨hasIndex_of_entryId hwalk hsafe hchild hentry hid hvalue, hvalue⟩
      · rw [topLevel_of_entryId hsafe hid] at htopLevel
        obtain rfl := Option.some.inj htopLevel
        exact Or.inr ⟨top, hd, name, directory, hchild, entry, hentry, hid⟩

/-- Both scopes read the same where both may read. -/
theorem readLimited_tech {id : DocumentId} (h : store.isAllowed .tech id = true) (maxBytes : Nat) :
    store.readLimited C fs .tech id maxBytes = store.readLimited C fs .private id maxBytes := by
  unfold readLimited
  rw [h, isAllowed_private h]

/-- The tech ranking is the private one without what the tech scope may not read. -/
theorem DocumentStore.IsRanking.filter_tech (hwalk : C.WalksRoot) {ranking : List ScoredResult}
    (hr : store.IsRanking C fs .private terms ranking) : store.IsRanking C fs .tech terms
      (ranking.filter fun scored => store.isAllowed .tech scored.result.id) where
  sorted := hr.sorted.filter _
  once := hr.once.sublist (List.filter_sublist.map _)
  sound scored hscored := by
    obtain ⟨hmem, hallowed⟩ := List.mem_filter.mp hscored
    obtain ⟨hid, document, hread, hrest⟩ := hr.sound scored hmem
    refine ⟨(isCandidate_tech_iff hwalk).mpr ⟨hid, hallowed⟩, document, ?_, hrest⟩
    exact (readLimited_tech hallowed _).trans hread
  complete id document hid hread hmatch := by
    obtain ⟨hprivate, hallowed⟩ := (isCandidate_tech_iff hwalk).mp hid
    have hread' := (readLimited_tech hallowed _).symm.trans hread
    obtain ⟨scored, hmem, rfl⟩ := hr.complete id document hprivate hread' hmatch
    exact ⟨scored, List.mem_filter.mpr ⟨hmem, hallowed⟩, rfl⟩

/-- When the private scope can search, so can the tech scope. -/
theorem search_tech_isOk (hwalk : C.WalksRoot) {limit : Option Nat} {maxResponseBytes : Nat}
    (h : ∃ response, store.search C fs .private query limit maxResponseBytes = .ok response) :
    ∃ response, store.search C fs .tech query limit maxResponseBytes = .ok response := by
  obtain ⟨hquery, hids, hread⟩ := search_isOk_iff.mp h
  refine search_isOk_iff.mpr ⟨hquery, ?_, fun id hid => ?_⟩
  · rw [candidateIds_isOk_iff] at hids ⊢
    exact fun top htop => hids top (scopeRoots_tech_subset store htop)
  · obtain ⟨hprivate, hallowed⟩ := (isCandidate_tech_iff hwalk).mp hid
    rw [readForSearch, readLimited_tech hallowed]
    exact hread id hprivate

/--
**What the tech scope finds.** When a search with the private scope succeeds, the same search with
the tech scope does: its response is cut from the ranking of the private scope without the entries
that the tech scope may not read. And the tech scope fetches what it may read as the private scope
does, and nothing else.
-/
theorem search_tech_eq_filter (hwalk : C.WalksRoot) :
    (∀ (limit : Option Nat) (maxResponseBytes : Nat) (response : SearchResponse),
      store.search C fs .private query limit maxResponseBytes = .ok response →
      ∃ terms ranking, parseTerms C query = .ok terms ∧
        store.IsRanking C fs .private terms ranking ∧
        response = page (limit.getD defaultLimit) maxResponseBytes ranking ∧
        store.search C fs .tech query limit maxResponseBytes
          = .ok (page (limit.getD defaultLimit) maxResponseBytes
            (ranking.filter fun scored => store.isAllowed .tech scored.result.id))) ∧
    ∀ id, store.read C fs .tech id
      = if store.isAllowed .tech id then store.read C fs .private id else .error .notFound := by
  refine ⟨fun limit maxResponseBytes response h => ?_, fun id => ?_⟩
  · obtain ⟨terms, ranking, hterms, hr, hresponse⟩ := exists_page h
    obtain ⟨response', htech⟩ := search_tech_isOk hwalk ⟨response, h⟩
    obtain ⟨terms', ranking', hterms', hr', rfl⟩ := exists_page htech
    obtain rfl := Except.ok.inj (hterms.symm.trans hterms')
    rw [hr'.unique (hr.filter_tech hwalk) hterms] at htech
    exact ⟨terms, ranking, hterms, hr, hresponse, htech⟩
  · split
    · next hallowed => exact readLimited_tech hallowed _
    · next hallowed =>
      rw [DocumentStore.read, readLimited, Bool.not_eq_true _ |>.mp hallowed]
      rfl

namespace Sample

/-- Entries of a walk are below its root. -/
theorem isPrefix_of_mem_walk {depth : Nat} {path : List Name} {node : Node} {entry : WalkEntry}
    (h : .ok entry ∈ walk depth path node) : path <+: entry.relative := by
  induction depth generalizing path node with
  | zero => cases h
  | succ depth ih =>
    match node with
    | .file .. | .special _ =>
      rw [walk, List.mem_singleton] at h
      rw [Except.ok.inj h]
    | .dir (some _) _ _ =>
      rw [walk, List.mem_cons, List.mem_singleton] at h
      rcases h with h | h
      · rw [Except.ok.inj h]
      · cases h
    | .dir none _ entries =>
      rcases mem_walk_dir.mp h with h | ⟨e, -, -, hbelow⟩
      · rw [Except.ok.inj h]
      · exact (List.prefix_append path [e.1]).trans (ih hbelow)

theorem walksRoot : kbCrates.WalksRoot := by
  intro directory entry hentry hrelative hfile
  have hmem : .ok entry ∈ walk (15 + 1) [] directory := hentry
  match directory with
  | .file .. => rfl
  | .special _ =>
    rw [walk, List.mem_singleton] at hmem
    rw [Except.ok.inj hmem] at hfile
    cases hfile
  | .dir (some _) _ _ =>
    rw [walk, List.mem_cons, List.mem_singleton] at hmem
    rcases hmem with hmem | hmem
    · rw [Except.ok.inj hmem] at hfile
      cases hfile
    · cases hmem
  | .dir none _ entries =>
    rcases mem_walk_dir.mp hmem with h | ⟨e, -, -, hbelow⟩
    · rw [Except.ok.inj h] at hfile
      cases hfile
    · have hprefix := isPrefix_of_mem_walk hbelow
      rw [hrelative, List.prefix_nil] at hprefix
      exact absurd hprefix (List.append_ne_nil_of_right_ne_nil _ (List.cons_ne_nil _ _))

end Sample

/-- The tech scope does not find the private document. -/
theorem search_tech_eq_filter_diary : ∃ response terms ranking,
    Sample.store.search Sample.kbCrates (Sample.fileSystem Sample.scopedKb) .private "rust DATA"
      (some 5) 4096 = .ok response ∧
    parseTerms Sample.kbCrates "rust DATA" = .ok terms ∧
    Sample.store.IsRanking Sample.kbCrates (Sample.fileSystem Sample.scopedKb) .private terms
      ranking ∧
    response = page 5 4096 ranking ∧
    Sample.store.search Sample.kbCrates (Sample.fileSystem Sample.scopedKb) .tech "rust DATA"
        (some 5) 4096
      = .ok (page 5 4096
        (ranking.filter fun scored => Sample.store.isAllowed .tech scored.result.id)) := by
  have hok : ((Sample.store.search Sample.kbCrates (Sample.fileSystem Sample.scopedKb) .private
      "rust DATA" (some 5) 4096).toOption.map fun r => r.results.length) = some 2 := by
    decide +kernel
  cases h : Sample.store.search Sample.kbCrates (Sample.fileSystem Sample.scopedKb) .private
      "rust DATA" (some 5) 4096 with
  | error e =>
    rw [h] at hok
    cases hok
  | ok response =>
    obtain ⟨terms, ranking, hterms, hr, hresponse, htech⟩ :=
      (search_tech_eq_filter Sample.walksRoot).1 _ _ _ h
    exact ⟨response, terms, ranking, rfl, hterms, hr, hresponse, htech⟩

/-! ## The order of the walks -/

section

variable {walk : Node → List (Except String WalkEntry)}

theorem isCandidate_walk_iff (hwalk : ∀ directory entry,
      entry ∈ walk directory ↔ entry ∈ C.walk directory) {id : DocumentId} :
    store.IsCandidate { C with walk } fs scope id ↔ store.IsCandidate C fs scope id := by
  unfold IsCandidate
  simp only [hwalk]

/-- The candidates are listed in one order. -/
theorem candidateIds_walk (hwalk : ∀ directory entry,
      entry ∈ walk directory ↔ entry ∈ C.walk directory) {ids : List DocumentId}
    (h : store.candidateIds C fs scope = .ok ids) :
    store.candidateIds { C with walk } fs scope = .ok ids := by
  obtain ⟨ids', h'⟩ : ∃ ids', store.candidateIds { C with walk } fs scope = .ok ids' := by
    have hok := candidateIds_isOk_iff.mp ⟨ids, h⟩
    refine candidateIds_isOk_iff.mpr fun top htop name directory hchild entry hentry => ?_
    exact hok top htop name directory hchild entry ((hwalk directory entry).mp hentry)
  have hanti : Std.Antisymm fun a b : DocumentId => a.value < b.value :=
    ⟨fun a b hab hba => absurd hba (lt_asymm hab)⟩
  have hirrefl : Std.Irrefl fun a b : DocumentId => a.value < b.value := ⟨fun a => lt_irrefl _⟩
  have heq : ids' = ids := by
    refine (sorted_candidateIds h').eq_of_mem_iff (sorted_candidateIds h) fun id => ?_
    rw [mem_candidateIds_iff h', mem_candidateIds_iff h, isCandidate_walk_iff hwalk]
  rw [h', heq]

/--
**The order of the walks does not matter.** Two walkers that list the same entries, in any order
and any number of times, give the same response, or none.
-/
theorem search_walk_order (hwalk : ∀ directory entry,
      entry ∈ walk directory ↔ entry ∈ C.walk directory) (limit : Option Nat)
    (maxResponseBytes : Nat) :
    (store.search { C with walk } fs scope query limit maxResponseBytes).toOption
      = (store.search C fs scope query limit maxResponseBytes).toOption := by
  have hparse : parseTerms { C with walk } query = parseTerms C query := rfl
  have hscore : ∀ terms, scoreAll { C with walk } terms
      (store.readForSearch { C with walk } fs scope)
        = scoreAll C terms (store.readForSearch C fs scope) := by
    intro terms
    funext ids
    induction ids with
    | nil => rfl
    | cons id rest ih =>
      rw [scoreAll, scoreAll, ih]
      rfl
  unfold search
  rw [hparse]
  cases parseTerms C query with
  | error e => rfl
  | ok terms =>
    simp only
    split
    · rfl
    · rw [hscore]
      cases hids : store.candidateIds C fs scope with
      | ok ids => rw [candidateIds_walk hwalk hids]
      | error e =>
        -- the other walker reports an error as well, maybe another one
        cases hids' : store.candidateIds { C with walk } fs scope with
        | error e' => rfl
        | ok ids =>
          have hback : store.candidateIds C fs scope = .ok ids :=
            candidateIds_walk (C := { C with walk }) (fun d entry => (hwalk d entry).symm) hids'
          rw [hback] at hids
          cases hids

/-- A walker that goes backwards. -/
theorem search_walk_order_reverse :
    (Sample.store.search { Sample.kbCrates with walk := fun d => (Sample.kbCrates.walk d).reverse }
        (Sample.fileSystem Sample.publicKb) .tech "rust DATA" (some 5) 4096).toOption
      = (Sample.store.search Sample.kbCrates (Sample.fileSystem Sample.publicKb) .tech "rust DATA"
        (some 5) 4096).toOption :=
  search_walk_order (fun _ _ => List.mem_reverse) (some 5) 4096

end

end EngramMcp
