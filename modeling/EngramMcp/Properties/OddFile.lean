import EngramMcp.Properties.SearchSuccess

/-!
# One more file

A file that is added below a directory of a scope is at most one more candidate, and nothing that
could be read before is read differently. So a search that succeeded goes on as before, with at
most one more match, exactly when the new file is not in its way: the walk leaves it out, or its
path is an id and what is found at this id is text or nothing.

* `openFound_insert` — a new file is seen under its own path only
* `isCandidate_addTo` — the candidates after a file was added
* `odd_file` — the property
-/

namespace EngramMcp

open Infra

/-! ## A new file in the tree -/

/-- A directory without an entry of the name. -/
def HasRoom (node : Node) (path : List Name) (name : Name) : Prop :=
  ∃ openError searchError entries,
    node.at path = some (.dir openError searchError entries) ∧ entries.lookup name = none

/-- Below a file there is nothing. -/
theorem descend_file {leaf : Node} (hleaf : leaf.isFile = true) {segs : List Bytes}
    (hsegs : segs ≠ []) : descend leaf segs = .error .notdir := by
  cases leaf with
  | file o r content =>
    cases segs with
    | nil => exact absurd rfl hsegs
    | cons seg rest => rfl
  | dir => exact nomatch hleaf
  | special => exact nomatch hleaf

/-- A new file is seen under its own path only. -/
theorem openFound_insert {name : Name} {leaf : Node} (hleaf : leaf.isFile = true)
    {path : List Name} {node : Node} {segs : List Bytes} (hroom : HasRoom node path name)
    (hne : segs ≠ path.map Name.bytes ++ [name.bytes]) :
    openFound (descend (node.modify (Node.insert name leaf) path) segs)
      = openFound (descend node segs) := by
  induction path generalizing node segs with
  | nil =>
    obtain ⟨o, s, entries, hat, hfree⟩ := hroom
    obtain rfl := Option.some.inj hat
    rw [Node.modify, Node.insert]
    cases segs with
    | nil => rfl
    | cons seg rest =>
      rw [descend, descend]
      by_cases hseg : seg = name.bytes
      · subst hseg
        cases s with
        | some e => rfl
        | none =>
          have hnew : (entries ++ [(name, leaf)]).lookup name = some leaf := by
            rw [List.lookup_append, hfree]
            simp
          have hrest : rest ≠ [] := by
            rintro rfl
            exact hne rfl
          rw [Node.child_dir hnew]
          unfold Node.child
          rw [Name.parse_eq_ok.mpr rfl]
          simp only [hfree]
          -- below a file as below nothing
          rw [descend_file hleaf hrest]
          rfl
      · rw [Node.child_append (by simpa using hseg)]
  | cons first path ih =>
    obtain ⟨o, s, entries, hat, hfree⟩ := hroom
    cases node with
    | file => cases hat
    | special => cases hat
    | dir openError searchError files =>
      cases segs with
      | nil => rfl
      | cons seg rest =>
        rw [descend, descend, Node.child_modify]
        cases hchild : (Node.dir openError searchError files).child seg with
        | error e => rfl
        | ok entry =>
          obtain ⟨key, found⟩ := entry
          obtain ⟨hkey, hfound⟩ := Node.child_eq_ok hchild
          simp only [Except.map]
          by_cases hfirst : key = first
          · subst hfirst
            rw [if_pos rfl]
            refine ih ⟨o, s, entries, ?_, hfree⟩ fun hrest => hne ?_
            · rw [← List.singleton_append, Node.at_append, hfound] at hat
              exact hat
            · rw [← hkey, hrest]
              rfl
          · rw [if_neg hfirst]

/-- Before, there was nothing under its path. -/
theorem descend_ne_ok {name : Name} {path : List Name} {node found : Node}
    (hroom : HasRoom node path name) :
    descend node (path.map Name.bytes ++ [name.bytes]) ≠ .ok found := by
  intro h
  obtain ⟨o, s, entries, hdir, hfree⟩ := hroom
  have hfound := at_of_descend (path ++ [name]) node (by rw [List.map_append]; exact h)
  rw [Node.at_append, hdir, Option.bind_some, Node.at, hfree] at hfound
  cases hfound

theorem isFile_modify_insert (name : Name) (leaf : Node) (path : List Name) (node : Node) :
    (node.modify (Node.insert name leaf) path).isFile = node.isFile := by
  cases path with
  | nil => cases node <;> rfl
  | cons first rest => cases node <;> rfl

/-! ## The file -/

/-- A regular file with a name that ends in `.md`, and the place for it. -/
structure NewFile where
  /-- The top-level directory. -/
  top : Name
  /-- The directories below it. -/
  below : List Name
  name : Name
  openError : Option Errno
  readError : Option Errno
  content : Bytes
  isMarkdown : utf8 ".md" <:+ name.bytes

namespace NewFile

def node (file : NewFile) : Node := .file file.openError file.readError file.content

/-- The path below the root, with the name. -/
def path (file : NewFile) : List Name := file.top :: (file.below ++ [file.name])

/-- The text that a walk makes of the path. -/
def idText (file : NewFile) : String :=
  EngramMcp.idText ([slash].intercalate (file.path.map Name.bytes))

/-- What a walk of the top-level directory yields for the file, unless it leaves it out. -/
def entry (file : NewFile) : WalkEntry := ⟨file.below ++ [file.name], true⟩

/-- The file system with the file. -/
def addTo (file : NewFile) (store : DocumentStore) (fs : FileSystem) : FileSystem :=
  { fs with
    root := fs.root.modify (Node.insert file.name file.node)
      (store.root ++ file.top :: file.below) }

/-- The scope sees the top-level directory, and the directory of the file has room for it. -/
structure Fits (file : NewFile) (store : DocumentStore) (fs : FileSystem) (scope : AccessScope) :
    Prop where
  visible : ∃ d ∈ store.scopeRoots scope, file.top.bytes = utf8 d
  hasRoom : HasRoom (store.rootFd fs) (file.top :: file.below) file.name

end NewFile

/-- The walker lists what it listed before; of a new Markdown file it yields one entry at most. -/
def KbCrates.WalksFiles (C : KbCrates) : Prop :=
  ∀ (file : NewFile) (directory : Node), HasRoom directory file.below file.name →
    (∀ entry ∈ C.walk directory,
      entry ∈ C.walk (directory.modify (Node.insert file.name file.node) file.below)) ∧
    ∀ entry ∈ C.walk (directory.modify (Node.insert file.name file.node) file.below),
      entry ∈ C.walk directory ∨ entry = .ok file.entry

section

variable {C : KbCrates} {store : DocumentStore} {fs : FileSystem} {scope : AccessScope}
  {file : NewFile} {id : DocumentId}

theorem NewFile.Fits.rootFd_addTo (h : file.Fits store fs scope) :
    store.rootFd (file.addTo store fs)
      = (store.rootFd fs).modify (Node.insert file.name file.node) (file.top :: file.below) := by
  obtain ⟨o, s, entries, hat, -⟩ := h.hasRoom
  unfold DocumentStore.rootFd at hat ⊢
  unfold NewFile.addTo
  simp only [Node.at_modify_append]
  cases hroot : fs.root.at store.root with
  | some kb => rfl
  | none =>
    -- nothing is below a root that is gone
    rw [hroot] at hat
    exact nomatch hat

/-- The top-level directories after the file was added, and what their walks yield. -/
theorem exists_child_addTo (hwalk : C.WalksFiles) (h : file.Fits store fs scope) {top : Bytes}
    {name : Name} {directory : Node}
    (hchild : (store.rootFd fs).child top = .ok (name, directory)) :
    ∃ directory', (store.rootFd (file.addTo store fs)).child top = .ok (name, directory') ∧
      (∀ entry ∈ C.walk directory, entry ∈ C.walk directory') ∧
      ∀ entry ∈ C.walk directory', entry ∈ C.walk directory ∨
        (top = file.top.bytes ∧ entry = .ok file.entry) := by
  rw [h.rootFd_addTo, Node.child_modify, hchild]
  simp only [Except.map]
  obtain ⟨hname, hat⟩ := Node.child_eq_ok hchild
  by_cases htop : name = file.top
  · have hroom : HasRoom directory file.below file.name := by
      obtain ⟨o, s, entries, hdir, hfree⟩ := h.hasRoom
      rw [← List.singleton_append, Node.at_append, ← htop, hat] at hdir
      exact ⟨o, s, entries, hdir, hfree⟩
    obtain ⟨hold, hnew⟩ := hwalk file directory hroom
    rw [if_pos htop]
    refine ⟨_, rfl, hold, ?_⟩
    intro entry hentry
    exact (hnew entry hentry).imp_right fun he => ⟨by rw [← hname, htop], he⟩
  · rw [if_neg htop]
    exact ⟨directory, rfl, fun _ he => he, fun _ he => Or.inl he⟩

/-- There are no other top-level directories. -/
theorem exists_child_of_addTo (h : file.Fits store fs scope) {top : Bytes} {name : Name}
    {directory' : Node}
    (hchild : (store.rootFd (file.addTo store fs)).child top = .ok (name, directory')) :
    ∃ directory, (store.rootFd fs).child top = .ok (name, directory) := by
  rw [h.rootFd_addTo, Node.child_modify] at hchild
  cases hold : (store.rootFd fs).child top with
  | error e =>
    rw [hold] at hchild
    exact nomatch hchild
  | ok found =>
    rw [hold] at hchild
    obtain ⟨rfl, -⟩ := Prod.mk.inj (Except.ok.inj hchild)
    exact ⟨found.2, rfl⟩

/-- A walk after the file was added, and the walk before it. -/
theorem exists_walk_of_addTo (hwalk : C.WalksFiles) (h : file.Fits store fs scope) {top : Bytes}
    {name : Name} {directory' : Node}
    (hchild : (store.rootFd (file.addTo store fs)).child top = .ok (name, directory')) :
    ∃ directory, (store.rootFd fs).child top = .ok (name, directory) ∧
      ∀ entry ∈ C.walk directory', entry ∈ C.walk directory ∨
        (top = file.top.bytes ∧ entry = .ok file.entry) := by
  obtain ⟨directory, hold⟩ := exists_child_of_addTo h hchild
  obtain ⟨found, hfound, -, hentries⟩ := exists_child_addTo hwalk h hold
  rw [hchild] at hfound
  obtain ⟨-, rfl⟩ := Prod.mk.inj (Except.ok.inj hfound)
  exact ⟨directory, hold, hentries⟩

theorem hasIndex_addTo (h : file.Fits store fs scope) :
    DocumentStore.hasIndex (store.rootFd (file.addTo store fs))
      = DocumentStore.hasIndex (store.rootFd fs) := by
  unfold DocumentStore.hasIndex
  rw [h.rootFd_addTo, Node.child_modify]
  cases (store.rootFd fs).child (utf8 "INDEX.md") with
  | error e => rfl
  | ok found =>
    simp only [Except.map]
    split
    · exact isFile_modify_insert ..
    · rfl

/-! ## Candidates -/

theorem entryPath_entry (file : NewFile) :
    entryPath file.top.bytes file.entry = [slash].intercalate (file.path.map Name.bytes) := rfl

/-- A candidate stays one. -/
theorem isCandidate_addTo (hwalk : C.WalksFiles) (h : file.Fits store fs scope)
    (hid : store.IsCandidate C fs scope id) :
    store.IsCandidate C (file.addTo store fs) scope id := by
  rcases hid with ⟨hindex, hid⟩ | ⟨top, htop, name, directory, hchild, entry, hentry, hid⟩
  · exact Or.inl ⟨by rw [hasIndex_addTo h]; exact hindex, hid⟩
  · obtain ⟨directory', hchild', hold, -⟩ := exists_child_addTo hwalk h hchild
    exact Or.inr ⟨top, htop, name, directory', hchild', entry, hold entry hentry, hid⟩

/-- The file is the only new candidate. -/
theorem isCandidate_of_addTo (hwalk : C.WalksFiles) (h : file.Fits store fs scope)
    (hid : store.IsCandidate C (file.addTo store fs) scope id) :
    store.IsCandidate C fs scope id ∨ id.value = file.idText := by
  rcases hid with ⟨hindex, hid⟩ | ⟨top, htop, name, directory', hchild, entry, hentry, hid⟩
  · exact Or.inl (Or.inl ⟨by rw [← hasIndex_addTo h]; exact hindex, hid⟩)
  · obtain ⟨directory, hold, hentries⟩ := exists_walk_of_addTo hwalk h hchild
    rcases hentries entry hentry with he | ⟨hbytes, rfl⟩
    · exact Or.inl (Or.inr ⟨top, htop, name, directory, hold, entry, he, hid⟩)
    · obtain ⟨found, hfound, -, hvalue⟩ := entryId_eq_some hid
      obtain rfl := Except.ok.inj hfound
      rw [hbytes, entryPath_entry] at hvalue
      exact Or.inr hvalue.symm

/-- An id that has the text of the file comes from the directory of the file. -/
theorem listsText_of_isCandidate {fs' : FileSystem} (h : file.Fits store fs scope)
    (hid : store.IsCandidate C fs' scope id) (hvalue : id.value = file.idText) :
    ListsText C (store.rootFd fs') file.top.bytes file.idText := by
  obtain ⟨d, hd, htop⟩ := h.visible
  have hsafe := DocumentStore.safe_of_mem_scopeRoots hd
  have htext : file.idText = "/".intercalate
      (d :: (file.below ++ [file.name]).map fun name => fromUtf8Lossy name.bytes) := by
    rw [← DocumentStore.idText_intercalate hsafe, ← htop]
    rfl
  have hpath : id.path = [slash].intercalate (utf8 d ::
      ((file.below ++ [file.name]).map fun name => fromUtf8Lossy name.bytes).map utf8) := by
    unfold DocumentId.path
    rw [hvalue, htext, utf8_intercalate, List.map_cons]
  rcases hid with ⟨-, hindex⟩ | ⟨top, htopmem, name, directory, hchild, entry, hentry, hid⟩
  · -- the index is not in a directory
    have hslash : slash ∈ id.path := by
      rw [hpath]
      cases file.below with
      | nil => simp [List.intercalate_cons_cons]
      | cons next below => simp [List.intercalate_cons_cons]
    unfold DocumentId.path at hslash
    rw [hindex] at hslash
    exact absurd hslash (by decide +kernel)
  · have htoplevel : id.topLevel = some d := by
      rw [DocumentId.topLevel_eq_some_iff, hpath]
      exact head?_names_intercalate (isName_of_isSafe hsafe) _
    obtain rfl : top = d := by
      rw [DocumentStore.topLevel_of_entryId (DocumentStore.safe_of_mem_scopeRoots htopmem) hid]
        at htoplevel
      exact Option.some.inj htoplevel
    obtain ⟨found, rfl, hnote, hfound⟩ := entryId_eq_some hid
    rw [htop]
    exact ⟨name, directory, hchild, found, hentry, hnote, hfound.trans hvalue⟩

/-- What is read at any other path is what was read before. -/
theorem readForSearch_addTo (h : file.Fits store fs scope)
    (hnames : ∀ seg ∈ segments id.path, IsName seg)
    (hne : segments id.path ≠ file.path.map Name.bytes) :
    store.readForSearch C (file.addTo store fs) scope id = store.readForSearch C fs scope id := by
  have hopen : DocumentStore.openRegularFile (store.rootFd (file.addTo store fs)) id
      = DocumentStore.openRegularFile (store.rootFd fs) id := by
    rw [openRegularFile_eq hnames, openRegularFile_eq hnames, h.rootFd_addTo]
    refine openFound_insert rfl h.hasRoom fun hpath => hne ?_
    rw [hpath]
    simp [NewFile.path]
  unfold DocumentStore.readForSearch DocumentStore.readLimited
  rw [hopen]

/-- The id that spells the path of the file is the one that the walk makes of it. -/
theorem value_eq_idText (hnames : ∀ seg ∈ segments id.path, IsName seg)
    (hpath : segments id.path = file.path.map Name.bytes) : id.value = file.idText := by
  rw [← idText_path hnames, NewFile.idText, ← hpath, intercalate_segments]

/-- Before, there was no document under the path of the file. -/
theorem readForSearch_ne_ok (h : file.Fits store fs scope)
    (hnames : ∀ seg ∈ segments id.path, IsName seg)
    (hpath : segments id.path = file.path.map Name.bytes) (document : FetchedDocument) :
    store.readForSearch C fs scope id ≠ .ok document := by
  have hsegs : segments id.path
      = (file.top :: file.below).map Name.bytes ++ [file.name.bytes] := by
    rw [hpath]
    simp [NewFile.path]
  intro hread
  unfold DocumentStore.readForSearch DocumentStore.readLimited at hread
  rw [openRegularFile_eq hnames, hsegs] at hread
  cases hfound : descend (store.rootFd fs)
      ((file.top :: file.below).map Name.bytes ++ [file.name.bytes]) with
  | ok found => exact descend_ne_ok h.hasRoom hfound
  | error e =>
    rw [hfound] at hread
    split at hread
    · exact nomatch hread
    · exact nomatch hread

end

/-! ## The property -/

/--
The file is not in the way of a search: the walk leaves it out, or its path is an id and what is
found at this id is text or nothing. The walk may come by another file of the same text.
-/
def NewFile.Harmless (file : NewFile) (C : KbCrates) (store : DocumentStore) (fs : FileSystem) :
    Prop :=
  ListsText C (store.rootFd (file.addTo store fs)) file.top.bytes file.idText →
    ∃ id, DocumentId.parse file.idText = .ok id ∧
      store.Readable (store.rootFd (file.addTo store fs)) id

/--
The search still succeeds, every match is still one and keeps its place among the others, and the
file is at most one more.
-/
structure NewFile.SearchSurvives (file : NewFile) (C : KbCrates) (store : DocumentStore)
    (fs : FileSystem) (scope : AccessScope) (query : String) (limit : Option Nat)
    (maxResponseBytes : Nat) : Prop where
  succeeds : ∃ response,
    store.search C (file.addTo store fs) scope query limit maxResponseBytes = .ok response
  keeps : ∀ terms ranking, parseTerms C query = .ok terms →
    store.IsRanking C fs scope terms ranking →
    ∃ ranking', store.IsRanking C (file.addTo store fs) scope terms ranking' ∧
      ranking.Sublist ranking' ∧ ranking'.length ≤ ranking.length + 1 ∧
      ∀ scored ∈ ranking', scored ∈ ranking ∨ scored.result.id.value = file.idText

section

variable {C : KbCrates} {store : DocumentStore} {fs : FileSystem} {scope : AccessScope}
  {file : NewFile} {query : String} {limit : Option Nat} {maxResponseBytes : Nat}

theorem search_addTo_isOk_iff (hwalk : C.WalksFiles) (h : file.Fits store fs scope)
    (hsearch : ∃ response, store.search C fs scope query limit maxResponseBytes = .ok response) :
    (∃ response,
      store.search C (file.addTo store fs) scope query limit maxResponseBytes = .ok response) ↔
      file.Harmless C store fs := by
  obtain ⟨hquery, hids, hread⟩ := DocumentStore.search_isOk_iff.mp hsearch
  rw [DocumentStore.search_isOk_iff, and_iff_right hquery]
  constructor
  · rintro ⟨⟨ids, hids'⟩, hread'⟩ ⟨name, directory, hchild, entry, hentry, hnote, htext⟩
    obtain ⟨d, hd, htop⟩ := h.visible
    rw [htop] at hchild hnote htext
    obtain ⟨o, ho⟩ := DocumentStore.candidateIds_isOk_iff.mp ⟨ids, hids'⟩ d hd name directory
      hchild (.ok entry) hentry
    cases hp : DocumentId.parse file.idText with
    | error e =>
      rw [entryId_of_isNote hnote, htext, hp] at ho
      exact nomatch ho
    | ok id =>
      have hid : store.IsCandidate C (file.addTo store fs) scope id :=
        Or.inr ⟨d, hd, name, directory, hchild, .ok entry, hentry, by
          rw [entryId_of_isNote hnote, htext, hp]; rfl⟩
      have hallowed := DocumentStore.allowed_of_mem_candidateIds hids'
        ((DocumentStore.mem_candidateIds_iff hids').mpr hid)
      exact ⟨id, rfl, (isTolerable_readForSearch_iff hallowed).mp (hread' id hid)⟩
  · intro hharmless
    have hids' : ∃ ids, store.candidateIds C (file.addTo store fs) scope = .ok ids := by
      rw [DocumentStore.candidateIds_isOk_iff]
      intro d hd name directory hchild entry hentry
      obtain ⟨old, hold, hentries⟩ := exists_walk_of_addTo hwalk h hchild
      rcases hentries entry hentry with he | ⟨hbytes, rfl⟩
      · exact DocumentStore.candidateIds_isOk_iff.mp hids d hd name old hold entry he
      · by_cases hnote : IsNote (utf8 d) file.entry
        · have htext : idText (entryPath (utf8 d) file.entry) = file.idText := by
            rw [hbytes, entryPath_entry]
            rfl
          obtain ⟨id, hp, -⟩ := hharmless (by
            rw [← hbytes]
            exact ⟨name, directory, hchild, file.entry, hentry, hnote, htext⟩)
          exact ⟨some id, by rw [entryId_of_isNote hnote, htext, hp]; rfl⟩
        · exact ⟨none, entryId_of_not_isNote hnote⟩
    refine ⟨hids', ?_⟩
    intro id hid
    obtain ⟨ids, hids'⟩ := hids'
    by_cases hvalue : id.value = file.idText
    · obtain ⟨id', hp, hreadable⟩ := hharmless (listsText_of_isCandidate h hid hvalue)
      obtain rfl : id' = id := DocumentId.value_injective
        ((DocumentId.value_of_parse hp).trans hvalue.symm)
      exact (isTolerable_readForSearch_iff (DocumentStore.allowed_of_mem_candidateIds hids'
        ((DocumentStore.mem_candidateIds_iff hids').mpr hid))).mpr hreadable
    · -- another candidate: it was one before, and it reads the same
      have hnames := isName_of_isCandidate hid
      rw [readForSearch_addTo h hnames fun hpath => hvalue (value_eq_idText hnames hpath)]
      exact hread id ((isCandidate_of_addTo hwalk h hid).resolve_right hvalue)

/-- What was ranked before is ranked afterwards. -/
theorem mem_ranking_addTo (hwalk : C.WalksFiles) (h : file.Fits store fs scope)
    {terms : List String} {ranking ranking' : List ScoredResult}
    (hr : store.IsRanking C fs scope terms ranking)
    (hr' : store.IsRanking C (file.addTo store fs) scope terms ranking') {scored : ScoredResult}
    (hmem : scored ∈ ranking) : scored ∈ ranking' := by
  obtain ⟨hid, document, hread, hmatch, hscore, -⟩ := hr.sound scored hmem
  have hnames := isName_of_isCandidate hid
  have hsame := readForSearch_addTo (C := C) h hnames fun hpath =>
    readForSearch_ne_ok h hnames hpath document hread
  obtain ⟨found, hfound, hsameId⟩ := hr'.complete scored.result.id document
    (isCandidate_addTo hwalk h hid) (hsame.trans hread) hmatch
  obtain ⟨-, document', hread', -, hscore', -⟩ := hr'.sound found hfound
  rw [hsameId, hsame, hread] at hread'
  obtain rfl := Except.ok.inj hread'
  obtain rfl := Option.some.inj (hscore.symm.trans hscore')
  exact hfound

/-- Only the file is ranked besides. -/
theorem mem_ranking_of_addTo (hwalk : C.WalksFiles) (h : file.Fits store fs scope)
    {terms : List String} {ranking ranking' : List ScoredResult}
    (hr : store.IsRanking C fs scope terms ranking)
    (hr' : store.IsRanking C (file.addTo store fs) scope terms ranking') {scored : ScoredResult}
    (hmem : scored ∈ ranking') : scored ∈ ranking ∨ scored.result.id.value = file.idText := by
  by_cases hvalue : scored.result.id.value = file.idText
  · exact Or.inr hvalue
  · obtain ⟨hid, document, hread, hmatch, hscore, -⟩ := hr'.sound scored hmem
    have hnames := isName_of_isCandidate hid
    have hsame := readForSearch_addTo (C := C) h hnames fun hpath =>
      hvalue (value_eq_idText hnames hpath)
    obtain ⟨found, hfound, hsameId⟩ := hr.complete scored.result.id document
      ((isCandidate_of_addTo hwalk h hid).resolve_right hvalue) (hsame.symm.trans hread) hmatch
    obtain ⟨-, document', hread', -, hscore', -⟩ := hr.sound found hfound
    rw [hsameId, ← hsame, hread] at hread'
    obtain rfl := Except.ok.inj hread'
    obtain rfl := Option.some.inj (hscore.symm.trans hscore')
    exact Or.inl hfound

/-- No two entries come before each other. -/
theorem Before.asymm {a b : ScoredResult} (hab : Before a b) : ¬Before b a := by
  rintro (hscore | ⟨hscore, hid⟩)
  · rcases hab with hab | ⟨hab, -⟩
    · exact UInt32.lt_asymm hscore hab
    · exact UInt32.lt_irrefl _ (hab ▸ hscore)
  · rcases hab with hab | ⟨-, hid'⟩
    · exact UInt32.lt_irrefl _ (hscore ▸ hab)
    · exact lt_asymm hid hid'

/-- A ranking that has the entries of another one has them in its order. -/
theorem sublist_of_ranked {l l' : List ScoredResult} (hl : l.Pairwise Before)
    (hl' : l'.Pairwise Before) (hsub : l ⊆ l') : l.Sublist l' := by
  have hanti : Std.Antisymm Before := ⟨fun a b hab hba => absurd hba hab.asymm⟩
  have hirrefl : Std.Irrefl Before := ⟨fun a ha => ha.asymm ha⟩
  exact List.sublist_of_subperm_of_pairwise (List.subperm_of_subset hl.nodup hsub) hl hl'

/--
A search that succeeded goes on as before, with the new file as one more match at most, exactly
when the file is not in its way.
-/
theorem odd_file (hwalk : C.WalksFiles) (h : file.Fits store fs scope)
    (hsearch : ∃ response, store.search C fs scope query limit maxResponseBytes = .ok response) :
    file.SearchSurvives C store fs scope query limit maxResponseBytes ↔
      file.Harmless C store fs := by
  rw [← search_addTo_isOk_iff hwalk h hsearch]
  refine ⟨fun hs => hs.succeeds, fun hs => ⟨hs, ?_⟩⟩
  intro terms ranking hterms hr
  obtain ⟨response, hok⟩ := hs
  obtain ⟨terms', ids, scored, hterms', hids, hscored, -⟩ := DocumentStore.search_eq_ok hok
  obtain rfl := Except.ok.inj (hterms.symm.trans hterms')
  have hr' := DocumentStore.isRanking_sorted hterms hids hscored
  generalize scored.insertionSort (fun a b => ranksBefore a b = true) = ranking' at hr'
  have hadded : ∀ found ∈ ranking', found ∈ ranking ∨ found.result.id.value = file.idText :=
    fun found hfound => mem_ranking_of_addTo hwalk h hr hr' hfound
  refine ⟨ranking', hr', ?_, ?_, hadded⟩
  · exact sublist_of_ranked hr.sorted hr'.sorted fun found hfound =>
      mem_ranking_addTo hwalk h hr hr' hfound
  · -- the texts of the ids differ, and all but one of them were there
    have hvalue : Function.Injective DocumentId.value := DocumentId.value_injective
    have honce : (ranking'.map fun s => s.result.id.value).Nodup := by
      have hmap := hr'.once.map hvalue
      rw [List.map_map] at hmap
      exact hmap
    have hsub : (ranking'.map fun s => s.result.id.value)
        ⊆ file.idText :: ranking.map fun s => s.result.id.value := by
      intro value hmem
      obtain ⟨found, hfound, rfl⟩ := List.mem_map.mp hmem
      rcases hadded found hfound with hold | hnew
      · exact List.mem_cons_of_mem _ (List.mem_map_of_mem hold)
      · exact List.mem_cons.mpr (Or.inl hnew)
    have hlen := (List.subperm_of_subset honce hsub).length_le
    rw [List.length_cons, List.length_map, List.length_map] at hlen
    exact hlen

end

/-! ## A small knowledge base -/

namespace Sample

/-- What a walk of the sample yields below a directory that can be listed. -/
theorem mem_walk_dir {depth : Nat} {path : List Name} {searchError : Option Errno}
    {entries : List (Name × Node)} {found : Except String WalkEntry} :
    found ∈ walk (depth + 1) path (.dir none searchError entries) ↔
      found = .ok ⟨path, false⟩ ∨ ∃ entry ∈ entries, entry.1.bytes.head? ≠ some dot ∧
        found ∈ walk depth (path ++ [entry.1]) entry.2 := by
  rw [walk, List.mem_cons, List.mem_flatMap]
  refine or_congr_right (exists_congr fun entry => and_congr_right fun _ => ?_)
  split
  · next hdot => simp [hdot]
  · next hdot => simp [hdot]

theorem mem_walk_file {depth : Nat} {path : List Name} {leaf : Node} (hleaf : leaf.isFile = true)
    {found : Except String WalkEntry} (h : found ∈ walk depth path leaf) :
    found = .ok ⟨path, true⟩ := by
  cases leaf with
  | dir => exact nomatch hleaf
  | special => exact nomatch hleaf
  | file =>
    cases depth with
    | zero => exact absurd h List.not_mem_nil
    | succ depth => exact List.mem_singleton.mp h

/-- A walk of the sample yields a new file once, or leaves it out. -/
theorem mem_walk_insert (name : Name) {leaf : Node} (hleaf : leaf.isFile = true) (depth : Nat)
    (path below : List Name) (node : Node) :
    (∀ found ∈ walk depth path node,
      found ∈ walk depth path (node.modify (Node.insert name leaf) below)) ∧
    ∀ found ∈ walk depth path (node.modify (Node.insert name leaf) below),
      found ∈ walk depth path node ∨ found = .ok ⟨path ++ (below ++ [name]), true⟩ := by
  induction depth generalizing path below node with
  | zero => exact ⟨fun _ h => h, fun _ h => Or.inl h⟩
  | succ depth ih =>
    cases node with
    | file => cases below <;> exact ⟨fun _ h => h, fun _ h => Or.inl h⟩
    | special => cases below <;> exact ⟨fun _ h => h, fun _ h => Or.inl h⟩
    | dir openError searchError entries =>
      cases openError with
      | some e => cases below <;> exact ⟨fun _ h => h, fun _ h => Or.inl h⟩
      | none =>
        cases below with
        | nil =>
          rw [Node.modify, Node.insert]
          constructor
          · intro found h
            rw [mem_walk_dir] at h ⊢
            refine h.imp_right ?_
            rintro ⟨entry, hentry, hfound⟩
            exact ⟨entry, List.mem_append_left _ hentry, hfound⟩
          · intro found h
            rw [mem_walk_dir] at h ⊢
            rcases h with h | ⟨entry, hentry, hdot, hfound⟩
            · exact Or.inl (Or.inl h)
            · rcases List.mem_append.mp hentry with hentry | hentry
              · exact Or.inl (Or.inr ⟨entry, hentry, hdot, hfound⟩)
              · rw [List.mem_singleton.mp hentry] at hfound
                exact Or.inr (mem_walk_file hleaf hfound)
        | cons first below =>
          rw [Node.modify]
          constructor
          · intro found h
            rw [mem_walk_dir] at h ⊢
            refine h.imp_right ?_
            rintro ⟨entry, hentry, hdot, hfound⟩
            refine ⟨_, List.mem_map_of_mem hentry, ?_⟩
            split
            · exact ⟨hdot, (ih (path ++ [entry.1]) below entry.2).1 found hfound⟩
            · exact ⟨hdot, hfound⟩
          · intro found h
            rw [mem_walk_dir] at h ⊢
            rcases h with h | ⟨changed, hchanged, hdot, hfound⟩
            · exact Or.inl (Or.inl h)
            · obtain ⟨entry, hentry, rfl⟩ := List.mem_map.mp hchanged
              split at hfound
              · next hfirst =>
                rw [if_pos hfirst] at hdot
                rcases (ih (path ++ [entry.1]) below entry.2).2 found hfound with hold | hnew
                · exact Or.inl (Or.inr ⟨entry, hentry, hdot, hold⟩)
                · rw [hnew, hfirst]
                  simp
              · next hfirst =>
                rw [if_neg hfirst] at hdot
                exact Or.inl (Or.inr ⟨entry, hentry, hdot, hfound⟩)

theorem walksFiles : kbCrates.WalksFiles := by
  intro file directory _
  have hleaf : file.node.isFile = true := rfl
  exact mem_walk_insert file.name hleaf 16 [] file.below directory

/-- A new file beside the one document. -/
def newFile (name : Name) (content : Bytes)
    (isMarkdown : utf8 ".md" <:+ name.bytes := by decide +kernel) : NewFile :=
  ⟨techDir, [], name, none, none, content, isMarkdown⟩

theorem fits (name : Name) (content : Bytes) (isMarkdown : utf8 ".md" <:+ name.bytes)
    (hnew : name ≠ rustDocument) :
    (newFile name content isMarkdown).Fits store (fileSystem publicKb) .tech where
  visible := ⟨"10_tech", by decide +kernel, rfl⟩
  hasRoom := by
    refine ⟨none, none, [(rustDocument, file "---\ntitle: Rust\n---\n\nOwned data.\n")],
      rfl, ?_⟩
    show List.lookup name _ = none
    simp [hnew]

/-- One with a name that is not plain. -/
def textFile : NewFile := newFile (name "Grüße: 1.md") (utf8 "Rust\n")

theorem check_textFile : DocumentId.check textFile.idText = .ok () := by decide +kernel

theorem search_isOk : ∃ response, store.search kbCrates (fileSystem publicKb) .tech "rust DATA"
    (some 5) 4096 = .ok response := by
  have hok : (store.search kbCrates (fileSystem publicKb) .tech "rust DATA" (some 5)
      4096).toOption.isSome = true := by decide +kernel
  cases h : store.search kbCrates (fileSystem publicKb) .tech "rust DATA" (some 5) 4096 with
  | error e => rw [h] at hok; exact nomatch hok
  | ok response => exact ⟨response, rfl⟩

end Sample

/-- A text file beside the one document. -/
theorem odd_file_text :
    Sample.textFile.SearchSurvives Sample.kbCrates Sample.store
      (Sample.fileSystem Sample.publicKb) .tech "rust DATA" (some 5) 4096 := by
  have hfits : Sample.textFile.Fits Sample.store (Sample.fileSystem Sample.publicKb) .tech :=
    Sample.fits _ _ _ (by decide +kernel)
  refine (odd_file Sample.walksFiles hfits Sample.search_isOk).mpr fun _ => ?_
  have hopen : DocumentStore.openRegularFile (Sample.store.rootFd
      (Sample.textFile.addTo Sample.store (Sample.fileSystem Sample.publicKb)))
      ⟨_, Sample.check_textFile⟩ = .ok (none, utf8 "Rust\n") := by decide +kernel
  refine ⟨_, DocumentId.parse_eq_ok Sample.check_textFile, ?_⟩
  unfold DocumentStore.Readable
  rw [hopen]
  exact ⟨rfl, Or.inr ⟨"Rust\n", rfl⟩⟩

/-- A file that is not text ends a search that succeeded, and so does one with a backslash in its
name. -/
theorem odd_file_stops_search :
    Sample.kbCrates.WalksFiles ∧
    (∃ response, Sample.store.search Sample.kbCrates (Sample.fileSystem Sample.publicKb) .tech
      "rust DATA" (some 5) 4096 = .ok response) ∧
    ∀ file ∈ [Sample.newFile (Sample.name "blob.md") [0x80],
        Sample.newFile (Sample.name "a\\b.md") (utf8 "Rust\n")],
      file.Fits Sample.store (Sample.fileSystem Sample.publicKb) .tech ∧
      ¬file.SearchSurvives Sample.kbCrates Sample.store (Sample.fileSystem Sample.publicKb) .tech
        "rust DATA" (some 5) 4096 := by
  refine ⟨Sample.walksFiles, Sample.search_isOk, ?_⟩
  intro file hfile
  constructor
  · simp only [List.mem_cons, List.not_mem_nil, or_false] at hfile
    rcases hfile with rfl | rfl
    · exact Sample.fits _ _ _ (by decide +kernel)
    · exact Sample.fits _ _ _ (by decide +kernel)
  · intro hs
    obtain ⟨response, hok⟩ := hs.succeeds
    have hstop : (Sample.store.search Sample.kbCrates (file.addTo Sample.store
        (Sample.fileSystem Sample.publicKb)) .tech "rust DATA" (some 5) 4096).toOption.isNone
          = true := by
      simp only [List.mem_cons, List.not_mem_nil, or_false] at hfile
      rcases hfile with rfl | rfl
      · decide +kernel
      · decide +kernel
    rw [hok] at hstop
    exact nomatch hstop

end EngramMcp
