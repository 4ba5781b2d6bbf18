import EngramMcp.Infra.LossyUtf8
import EngramMcp.Properties.SearchRanking
import EngramMcp.Properties.Truncation

/-!
# When a search succeeds

A search ends with the first entry that it cannot take: one that the walk reports as an error, a
Markdown file whose path is no id, or a candidate that is there and does not read as text. Without
these it succeeds.

* `search_isOk_iff` — when a search succeeds
* `isTolerable_readForSearch_iff` — which candidates are not in its way
* `entryId_eq_some` — the entries that ids are made from
-/

namespace EngramMcp

open Infra

/-! ## When a search succeeds -/

theorem mapM_isOk_iff {ε α β : Type} {f : α → Except ε β} {l : List α} :
    (∃ l', l.mapM f = .ok l') ↔ ∀ x ∈ l, ∃ y, f x = .ok y := by
  constructor
  · rintro ⟨l', h⟩ x hx
    obtain ⟨y, -, hy⟩ := exists_mapM_of_mem h hx
    exact ⟨y, hy⟩
  · intro h
    induction l with
    | nil => exact ⟨[], rfl⟩
    | cons x l ih =>
      rw [List.forall_mem_cons] at h
      obtain ⟨⟨y, hy⟩, hrest⟩ := h
      obtain ⟨l', hl'⟩ := ih hrest
      refine ⟨y :: l', ?_⟩
      rw [List.mapM_cons, hy, hl']
      rfl

/-- An answer that does not end a search. -/
def IsTolerable {α : Type} (answer : Except StoreError α) : Prop :=
  ∀ e, answer = .error e → e = .notFound

theorem scoreAll_isOk_iff {C : KbCrates} {terms : List String}
    {read : DocumentId → Except StoreError FetchedDocument} {ids : List DocumentId} :
    (∃ scored, scoreAll C terms read ids = .ok scored) ↔ ∀ id ∈ ids, IsTolerable (read id) := by
  induction ids with
  | nil => exact iff_of_true ⟨[], rfl⟩ (by simp)
  | cons id rest ih =>
    rw [List.forall_mem_cons, ← ih, scoreAll]
    cases hread : read id with
    | ok document =>
      have htolerable : IsTolerable (Except.ok (ε := StoreError) document) := by
        intro e he
        cases he
      simp only [htolerable, true_and]
      cases scoreDocument C terms document with
      | none => exact Iff.rfl
      | some scored =>
        cases scoreAll C terms read rest with
        | error e => simp [Except.map]
        | ok more => simp [Except.map]
    | error e =>
      by_cases he : e = .notFound
      · subst he
        have htolerable : IsTolerable (Except.error (α := FetchedDocument) StoreError.notFound) :=
          fun e he => (Except.error.inj he).symm
        simp only [htolerable, true_and]
      · refine iff_of_false ?_ fun h => he (h.1 e rfl)
        cases e with
        | notFound => exact absurd rfl he
        | invalidDocumentId | invalidUtf8 | invalidQuery | safeOpenUnavailable | io =>
          rintro ⟨scored, h⟩
          cases h

namespace DocumentStore

variable {C : KbCrates} {store : DocumentStore} {fs : FileSystem} {scope : AccessScope}

theorem topLevelIds_isOk_iff {kb : Node} {top : String} :
    (∃ ids, topLevelIds C kb top = .ok ids) ↔
      ∀ name directory, kb.child (utf8 top) = .ok (name, directory) →
        ∀ entry ∈ C.walk directory, ∃ o, entryId top entry = .ok o := by
  unfold topLevelIds
  cases hchild : kb.child (utf8 top) with
  | error e => exact iff_of_true ⟨[], rfl⟩ fun _ _ h => nomatch h
  | ok found =>
    obtain ⟨name, directory⟩ := found
    simp only [Except.ok.injEq, Prod.mk.injEq]
    constructor
    · rintro ⟨ids, h⟩ _ _ ⟨rfl, rfl⟩
      refine mapM_isOk_iff.mp ?_
      cases hw : (C.walk directory).mapM (entryId top) with
      | error e =>
        rw [hw] at h
        exact nomatch h
      | ok found => exact ⟨found, rfl⟩
    · intro h
      obtain ⟨found, hw⟩ := mapM_isOk_iff.mpr (h name directory ⟨rfl, rfl⟩)
      exact ⟨_, by rw [hw]; rfl⟩

theorem indexIds_isOk (kb : Node) : ∃ ids, indexIds kb = .ok ids := by
  have hcheck : DocumentId.check "INDEX.md" = .ok () := by decide +kernel
  unfold indexIds
  split
  · rw [DocumentId.parse_eq_ok hcheck]
    exact ⟨_, rfl⟩
  · exact ⟨_, rfl⟩

/-- The candidates can be listed when every entry of every walk can. -/
theorem candidateIds_isOk_iff :
    (∃ ids, store.candidateIds C fs scope = .ok ids) ↔
      ∀ top ∈ store.scopeRoots scope, ∀ name directory,
        (store.rootFd fs).child (utf8 top) = .ok (name, directory) →
        ∀ entry ∈ C.walk directory, ∃ o, entryId top entry = .ok o := by
  simp only [← topLevelIds_isOk_iff]
  rw [← mapM_isOk_iff]
  obtain ⟨index, hindex⟩ := indexIds_isOk (store.rootFd fs)
  unfold candidateIds
  constructor
  · rintro ⟨ids, h⟩
    obtain ⟨_, _, h⟩ := bind_eq_ok.mp h
    obtain ⟨lists, hlists, _⟩ := bind_eq_ok.mp h
    exact ⟨lists, hlists⟩
  · rintro ⟨lists, hlists⟩
    exact ⟨_, bind_eq_ok.mpr ⟨index, hindex, bind_eq_ok.mpr ⟨lists, hlists, rfl⟩⟩⟩

/-- A search of a query succeeds when the candidates can be listed and none is in the way. -/
theorem search_isOk_iff {query : String} {limit : Option Nat} {maxResponseBytes : Nat} :
    (∃ response, store.search C fs scope query limit maxResponseBytes = .ok response) ↔
      ((∃ terms, parseTerms C query = .ok terms) ∧
        1 ≤ limit.getD defaultLimit ∧ limit.getD defaultLimit ≤ maxLimit) ∧
      (∃ ids, store.candidateIds C fs scope = .ok ids) ∧
      ∀ id, store.IsCandidate C fs scope id → IsTolerable (store.readForSearch C fs scope id) := by
  constructor
  · rintro ⟨response, h⟩
    have hlimit : 1 ≤ limit.getD defaultLimit ∧ limit.getD defaultLimit ≤ maxLimit := by
      by_contra hlimit
      unfold search at h
      split at h
      · exact nomatch h
      · simp only at h
        rw [if_pos hlimit] at h
        exact nomatch h
    obtain ⟨terms, ids, scored, hterms, hids, hscored, -⟩ := search_eq_ok h
    refine ⟨⟨⟨terms, hterms⟩, hlimit⟩, ⟨ids, hids⟩, ?_⟩
    intro id hid
    exact scoreAll_isOk_iff.mp ⟨scored, hscored⟩ id ((mem_candidateIds_iff hids).mpr hid)
  · rintro ⟨⟨⟨terms, hterms⟩, hlimit⟩, ⟨ids, hids⟩, hread⟩
    have hscores : ∃ scored, scoreAll C terms (store.readForSearch C fs scope) ids = .ok scored :=
      scoreAll_isOk_iff.mpr fun id hid => hread id ((mem_candidateIds_iff hids).mp hid)
    obtain ⟨scored, hscored⟩ := hscores
    unfold search
    simp only [hterms, hids, hscored]
    rw [if_neg (not_not.mpr hlimit)]
    exact ⟨_, rfl⟩

end DocumentStore

/-! ## What is found at an id -/

/-- Opening what a path led to. -/
def openFound (found : Except Errno Node) : Except StoreError (Option Errno × Bytes) :=
  match found with
  | .error e => .error (mapOpenError e)
  | .ok node =>
    match node.openError with
    | some e => .error (mapOpenError e)
    | none =>
      match node with
      | .file _ readError content => .ok (readError, content)
      | _ => .error .notFound

theorem openRegularFile_eq {kb : Node} {id : DocumentId}
    (h : ∀ seg ∈ segments id.path, IsName seg) :
    DocumentStore.openRegularFile kb id = openFound (descend kb (segments id.path)) := by
  rw [← resolveBeneath_eq_descend h]
  unfold DocumentStore.openRegularFile openFound
  cases resolveBeneath kb id.path with
  | error e => rfl
  | ok trail => rfl

/-- What is at an id is text, as far as a search reads it; or nothing is there. -/
def DocumentStore.Readable (store : DocumentStore) (kb : Node) (id : DocumentId) : Prop :=
  match openRegularFile kb id with
  | .error e => e = .notFound
  | .ok (readError, content) =>
    readError = none ∧ (store.maxSearchFileBytes < content.length ∨ IsUtf8 content)

theorem readUtf8Limited_isOk_iff {readError : Option Errno} {content : Bytes} {maxBytes : Nat} :
    (∃ answer, readUtf8Limited readError content maxBytes = .ok answer) ↔
      readError = none ∧ (maxBytes < content.length ∨ IsUtf8 content) := by
  cases readError with
  | some e =>
    refine iff_of_false ?_ fun h => nomatch h.1
    rintro ⟨answer, h⟩
    exact nomatch h
  | none =>
    simp only [true_and, isUtf8_iff]
    rcases readUtf8Limited_cases content maxBytes with ⟨hfit, hread⟩ | ⟨hlong, text, -, hread⟩
    · rw [hread, or_iff_right (by omega)]
      cases fromUtf8 content with
      | none => simp
      | some text => simp
    · exact iff_of_true ⟨_, hread⟩ (Or.inl hlong)

/-- No answer of the read itself says that there was nothing. -/
theorem readUtf8Limited_ne_notFound {readError : Option Errno} {content : Bytes}
    {maxBytes : Nat} : readUtf8Limited readError content maxBytes ≠ .error .notFound := by
  unfold readUtf8Limited
  split
  · exact nofun
  · simp only
    split
    · exact nofun
    · exact nofun

theorem isTolerable_readForSearch_iff {C : KbCrates} {store : DocumentStore} {fs : FileSystem}
    {scope : AccessScope} {id : DocumentId} (hallowed : store.isAllowed scope id = true) :
    IsTolerable (store.readForSearch C fs scope id) ↔ store.Readable (store.rootFd fs) id := by
  unfold DocumentStore.Readable DocumentStore.readForSearch DocumentStore.readLimited
  rw [hallowed, if_neg (by decide)]
  cases DocumentStore.openRegularFile (store.rootFd fs) id with
  | error e => exact ⟨fun h => h e rfl, fun h e' he => (Except.error.inj he) ▸ h⟩
  | ok opened =>
    obtain ⟨readError, content⟩ := opened
    simp only
    rw [← readUtf8Limited_isOk_iff]
    cases hread : readUtf8Limited readError content store.maxSearchFileBytes with
    | ok answer => exact iff_of_true (fun e he => nomatch he) ⟨answer, rfl⟩
    | error e =>
      refine iff_of_false ?_ ?_
      · intro h
        rw [h e rfl] at hread
        exact readUtf8Limited_ne_notFound hread
      · rintro ⟨answer, h⟩
        exact nomatch h

/-! ## Entries of a walk -/

/-- The path below the root of an entry of a walk. -/
def entryPath (top : Bytes) (entry : WalkEntry) : Bytes :=
  [slash].intercalate (top :: entry.relative.map Name.bytes)

/-- A Markdown file. -/
def IsNote (top : Bytes) (entry : WalkEntry) : Prop :=
  entry.isFile = true ∧ (extension (entryPath top entry)).bind fromUtf8 = some "md"

/-- A walk comes by a Markdown file whose id has the text. -/
def ListsText (C : KbCrates) (kb : Node) (top : Bytes) (text : String) : Prop :=
  ∃ name directory, kb.child top = .ok (name, directory) ∧
    ∃ entry, .ok entry ∈ C.walk directory ∧ IsNote top entry ∧ idText (entryPath top entry) = text

theorem entryId_of_isNote {top : String} {entry : WalkEntry} (h : IsNote (utf8 top) entry) :
    entryId top (.ok entry)
      = (DocumentId.parse (idText (entryPath (utf8 top) entry))).map some := by
  have hext := h.2
  unfold entryPath at hext
  unfold entryId
  simp only [h.1, hext]
  rfl

theorem entryId_of_not_isNote {top : String} {entry : WalkEntry}
    (h : ¬IsNote (utf8 top) entry) : entryId top (.ok entry) = .ok none := by
  unfold IsNote entryPath at h
  unfold entryId
  simp only
  split
  · rfl
  · next hfile =>
    rw [Bool.not_eq_true, Bool.not_eq_false'] at hfile
    exact if_pos fun hext => h ⟨hfile, hext⟩

/-- The entries that an id is made from. -/
theorem entryId_eq_some {top : String} {entry : Except String WalkEntry} {id : DocumentId}
    (h : entryId top entry = .ok (some id)) :
    ∃ file, entry = .ok file ∧ IsNote (utf8 top) file ∧
      idText (entryPath (utf8 top) file) = id.value := by
  cases entry with
  | error text => exact nomatch h
  | ok file =>
    by_cases hnote : IsNote (utf8 top) file
    · rw [entryId_of_isNote hnote] at h
      cases hp : DocumentId.parse (idText (entryPath (utf8 top) file)) with
      | error e =>
        rw [hp] at h
        exact nomatch h
      | ok parsed =>
        rw [hp] at h
        obtain rfl := Option.some.inj (Except.ok.inj h)
        exact ⟨file, rfl, hnote, (DocumentId.value_of_parse hp).symm⟩
    · rw [entryId_of_not_isNote hnote] at h
      exact nomatch h

/-- The path of a candidate is made of names. -/
theorem isName_of_isCandidate {C : KbCrates} {store : DocumentStore} {fs : FileSystem}
    {scope : AccessScope} {id : DocumentId} (h : store.IsCandidate C fs scope id) :
    ∀ seg ∈ segments id.path, IsName seg := by
  rcases h with ⟨-, hindex⟩ | ⟨top, htop, name, directory, -, entry, -, hentry⟩
  · unfold DocumentId.path
    rw [hindex]
    decide +kernel
  · have hsafe := isName_of_isSafe (DocumentStore.safe_of_mem_scopeRoots htop)
    obtain ⟨file, -, -, hid⟩ := entryId_eq_some hentry
    have hnames : ∀ seg ∈ utf8 top :: file.relative.map fun name =>
        utf8 (fromUtf8Lossy name.bytes), IsName seg := by
      rw [List.forall_mem_cons, List.forall_mem_map]
      exact ⟨hsafe, fun name _ => name.isName.fromUtf8Lossy⟩
    have hpath : id.path = [slash].intercalate (utf8 top :: file.relative.map fun name =>
        utf8 (fromUtf8Lossy name.bytes)) := by
      unfold DocumentId.path
      rw [← hid, entryPath, DocumentStore.idText_intercalate
        (DocumentStore.safe_of_mem_scopeRoots htop), utf8_intercalate, List.map_cons, List.map_map]
      rfl
    rw [hpath, segments_intercalate (List.cons_ne_nil _ _) fun seg hseg => (hnames seg hseg).2.1]
    exact hnames

/-- An id spells its own path. -/
theorem idText_path {id : DocumentId} (h : ∀ seg ∈ segments id.path, IsName seg) :
    idText id.path = id.value := by
  have hgood := (DocumentId.check_eq_ok_iff.mp id.accepted).2.2.2.2
  have hcomponents : components id.path = (segments id.path).map .normal := by
    conv_lhs => rw [← intercalate_segments id.path]
    exact components_intercalate h
  have hsegs : (segments id.path).map (fun seg => utf8 (fromUtf8Lossy seg)) = segments id.path := by
    refine (List.map_congr_left fun seg hseg => ?_).trans (List.map_id _)
    obtain ⟨text, htext, -⟩ := hgood (.normal seg) (by
      rw [show components (utf8 id.value) = _ from hcomponents]
      exact List.mem_map_of_mem hseg)
    rw [Component.normal.inj htext, fromUtf8Lossy_utf8]
    rfl
  refine utf8_injective ?_
  unfold idText
  rw [hcomponents, List.map_map, utf8_intercalate, List.map_map]
  exact (congrArg _ hsegs).trans (intercalate_segments id.path)

end EngramMcp
