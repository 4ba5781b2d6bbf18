import EngramMcp.Infra.FileSystem
import EngramMcp.Kb.Scope
import EngramMcp.OAuth.Scope
import Mathlib.Data.List.Destutter
import Mathlib.Data.List.Sort

/-!
# Documents

`document.rs`: document ids, which of them a scope may read, and reading one.

The store keeps the canonical root and a descriptor of it. Both name one directory, so every
access is a walk from that directory.

* `DocumentId.check_eq_ok_iff` — what `DocumentId::parse` accepts
* `DocumentStore.isAllowed_iff` — what a scope may read
* `DocumentStore.allowed_of_mem_candidateIds` — a listed id is an allowed one
-/

namespace EngramMcp

open Infra

/-- `std::io::Error`. -/
inductive IoError
  | errno (e : Errno)
  | other (text : String)
  deriving DecidableEq, Repr

/-- `StoreError`. -/
inductive StoreError
  | notFound
  | invalidDocumentId
  | invalidUtf8
  | invalidQuery
  | safeOpenUnavailable
  | io (source : IoError)
  deriving DecidableEq, Repr

/-- The YAML a document may begin with. -/
structure FrontMatter where
  title : Option String
  description : Option String
  updated : Option String

/-- An entry of a directory walk: its path below the directory, and whether it is a file. -/
structure WalkEntry where
  relative : List Name
  isFile : Bool

/-- The crates and the part of the standard library that reading and searching rest on. -/
structure KbCrates where
  /-- `ignore::WalkBuilder`: it lists what is below the directory it is given, and that alone. -/
  walk : Node → List (Except String WalkEntry)
  /-- `serde_yaml::from_str`. -/
  frontMatter : String → Option FrontMatter
  /-- `str::to_lowercase`. -/
  toLowercase : String → String

/-! ## Document ids -/

/-- A drive letter at the head of a path. -/
def hasDriveLetter : Bytes → Bool
  | b :: c :: _ =>
    ((0x41 ≤ b && b ≤ 0x5A) || (0x61 ≤ b && b ≤ 0x7A)) && c == ascii ':'
  | _ => false

/-- The components of an id: names that are text and do not begin with `.`. -/
def checkComponents : List Component → Except StoreError Unit
  | [] => .ok ()
  | .normal segment :: rest =>
    match fromUtf8 segment with
    | none => .error .invalidDocumentId
    | some segment =>
      if segment.toList.head? = some '.' then .error .invalidDocumentId else checkComponents rest
  | _ :: _ => .error .invalidDocumentId

/-- The checks of `DocumentId::parse`. -/
def DocumentId.check (value : String) : Except StoreError Unit :=
  if value = "" ∨ 512 < value.utf8ByteSize ∨ '\x00' ∈ value.toList then
    .error .invalidDocumentId
  else if value.toList.head? = some '/' ∨ value.toList.head? = some '\\' ∨
      '\\' ∈ value.toList then
    .error .invalidDocumentId
  else if hasDriveLetter (utf8 value) then .error .invalidDocumentId
  else if (extension (utf8 value)).bind fromUtf8 ≠ some "md" then .error .invalidDocumentId
  else checkComponents (components (utf8 value))

/-- `DocumentId`: a string that `parse` accepted. -/
structure DocumentId where
  value : String
  accepted : DocumentId.check value = .ok ()
  deriving DecidableEq

namespace DocumentId

/-- `DocumentId::parse`. -/
def parse (value : String) : Except StoreError DocumentId :=
  match h : check value with
  | .ok () => .ok ⟨value, h⟩
  | .error e => .error e

/-- `DocumentId::path`. -/
def path (id : DocumentId) : Bytes := utf8 id.value

/-- `DocumentId::top_level`. -/
def topLevel (id : DocumentId) : Option String :=
  match (components id.path).head? with
  | some (.normal value) => fromUtf8 value
  | _ => none

theorem value_of_parse {s : String} {id : DocumentId} (h : parse s = .ok id) : id.value = s := by
  unfold parse at h
  split at h
  · cases h; rfl
  · simp at h

theorem parse_eq_ok {s : String} (h : check s = .ok ()) : parse s = .ok ⟨s, h⟩ := by
  unfold parse
  split
  · rfl
  · next e he => rw [h] at he; cases he

/-- A component that an id may have. -/
def GoodComponent (c : Component) : Prop :=
  ∃ segment : String, c = .normal (utf8 segment) ∧ segment.toList.head? ≠ some '.'

theorem checkComponents_eq_ok_iff {cs : List Component} :
    checkComponents cs = .ok () ↔ ∀ c ∈ cs, GoodComponent c := by
  induction cs with
  | nil => simp [checkComponents]
  | cons c cs ih =>
    rw [List.forall_mem_cons]
    cases c with
    | normal name =>
      unfold checkComponents
      cases hs : fromUtf8 name with
      | none =>
        refine ⟨fun h => by simp at h, ?_⟩
        rintro ⟨⟨segment, hc, -⟩, -⟩
        cases hc
        rw [fromUtf8_utf8] at hs
        cases hs
      | some segment =>
        have hname := fromUtf8_eq_some_iff.mp hs
        simp only
        split
        · next hdot =>
          refine ⟨fun h => by simp at h, ?_⟩
          rintro ⟨⟨segment', hc, hd⟩, -⟩
          cases hc
          rw [utf8_injective hname] at hdot
          exact absurd hdot hd
        · next hdot =>
          rw [ih]
          exact ⟨fun h => ⟨⟨segment, by rw [hname], hdot⟩, h⟩, fun h => h.2⟩
    | rootDir | curDir | parentDir =>
      refine ⟨fun h => by simp [checkComponents] at h, ?_⟩
      rintro ⟨⟨segment, hc, -⟩, -⟩
      cases hc

/-- What `DocumentId::parse` accepts. -/
theorem check_eq_ok_iff {value : String} :
    check value = .ok () ↔
      (value ≠ "" ∧ value.utf8ByteSize ≤ 512 ∧ '\x00' ∉ value.toList) ∧
      (value.toList.head? ≠ some '/' ∧ value.toList.head? ≠ some '\\' ∧ '\\' ∉ value.toList) ∧
      hasDriveLetter (utf8 value) = false ∧
      (extension (utf8 value)).bind fromUtf8 = some "md" ∧
      ∀ c ∈ components (utf8 value), GoodComponent c := by
  rw [← checkComponents_eq_ok_iff]
  unfold check
  constructor
  · intro h
    split at h
    · simp at h
    · next h1 =>
      split at h
      · simp at h
      · next h2 =>
        split at h
        · simp at h
        · next h3 =>
          split at h
          · simp at h
          · next h4 =>
            push Not at h1 h2 h4
            exact ⟨h1, h2, by simpa using h3, h4, h⟩
  · rintro ⟨h1, h2, h3, h4, h5⟩
    rw [if_neg (by push Not; exact h1), if_neg (by push Not; exact h2), if_neg (by simp [h3]),
      if_neg (by simpa using h4)]
    exact h5

theorem exists_normal (id : DocumentId) : ∀ c ∈ components id.path, ∃ n, c = .normal n := by
  intro c hc
  obtain ⟨segment, rfl, -⟩ := (check_eq_ok_iff.mp id.accepted).2.2.2.2 c hc
  exact ⟨utf8 segment, rfl⟩

/-- The components of an id are the names the kernel looks up. -/
theorem components_path (id : DocumentId) : components id.path = (names id.path).map .normal :=
  components_of_all_normal id.exists_normal

theorem path_ne_nil (id : DocumentId) : id.path ≠ [] := fun h =>
  (check_eq_ok_iff.mp id.accepted).1.1 (utf8_eq_nil_iff.mp h)

theorem names_ne_nil (id : DocumentId) : names id.path ≠ [] := by
  intro h
  have hext := (check_eq_ok_iff.mp id.accepted).2.2.2.1
  have hf : fileName id.path = none := by
    unfold fileName
    rw [components_path, h]
    rfl
  unfold extension at hext
  rw [show fileName (utf8 id.value) = none from hf] at hext
  simp at hext

/-- The top level of an id is its first name. -/
theorem topLevel_eq_some_iff {id : DocumentId} {d : String} :
    id.topLevel = some d ↔ (names id.path).head? = some (utf8 d) := by
  unfold topLevel
  rw [components_path, List.head?_map]
  cases (names id.path).head? with
  | none => simp
  | some n =>
    simp only [Option.map_some, Option.some.injEq]
    rw [fromUtf8_eq_some_iff]
    exact eq_comm

/-- A name that an id may have. -/
def Spellable (name : Name) : Prop :=
  (fromUtf8 name.bytes).isSome = true ∧ name.bytes.head? ≠ some dot ∧ ascii '\\' ∉ name.bytes

/-- The id that spells a path of names. -/
def spell (path : List Name) : String :=
  "/".intercalate (path.map fun name => (fromUtf8 name.bytes).getD "")

theorem utf8_spell {path : List Name} (h : ∀ name ∈ path, Spellable name) :
    utf8 (spell path) = [slash].intercalate (path.map Name.bytes) := by
  unfold spell
  rw [utf8_intercalate, List.map_map]
  congr 1
  refine List.map_congr_left fun name hn => ?_
  obtain ⟨text, ht⟩ := Option.isSome_iff_exists.mp (h name hn).1
  rw [Function.comp_apply, ht, Option.getD_some]
  exact fromUtf8_eq_some_iff.mp ht

theorem spellable_of_mem_names {id : DocumentId} {name : Name} (h : name.bytes ∈ names id.path) :
    Spellable name := by
  have hcheck := check_eq_ok_iff.mp id.accepted
  have hmem : Component.normal name.bytes ∈ components id.path := by
    rw [id.components_path]
    exact List.mem_map_of_mem h
  obtain ⟨segment, hseg, hdot⟩ := hcheck.2.2.2.2 _ hmem
  rw [Component.normal.injEq] at hseg
  refine ⟨?_, ?_, ?_⟩
  · rw [hseg, fromUtf8_utf8]; rfl
  · rw [hseg]
    exact fun hc => hdot ((head?_utf8_iff (by decide)).mp hc)
  · intro hc
    have hb := mem_of_mem_names h hc
    exact hcheck.2.1.2.2 ((mem_utf8_iff (by decide)).mp hb)

/-- A byte of a spelled path is a separator or a byte of one of its names. -/
theorem mem_intercalate_map {path : List Name} {b : UInt8}
    (h : b ∈ [slash].intercalate (path.map Name.bytes)) :
    b = slash ∨ ∃ name ∈ path, b ∈ name.bytes := by
  induction path with
  | nil => simp at h
  | cons name rest ih =>
    cases rest with
    | nil =>
      refine Or.inr ⟨name, List.mem_cons_self, ?_⟩
      simpa using h
    | cons next rest =>
      rw [List.map_cons, List.map_cons, List.intercalate_cons_cons, List.append_assoc,
        List.mem_append, List.singleton_append, List.mem_cons] at h
      rcases h with h | h | h
      · exact Or.inr ⟨name, List.mem_cons_self, h⟩
      · exact Or.inl h
      · rcases ih h with hs | ⟨n, hn, hb⟩
        · exact Or.inl hs
        · exact Or.inr ⟨n, List.mem_cons_of_mem _ hn, hb⟩

/-- A spelled path is no drive path when its first name has no colon. -/
theorem hasDriveLetter_intercalate {top : Name} {rest : List Name}
    (hcolon : ascii ':' ∉ top.bytes) :
    hasDriveLetter ([slash].intercalate ((top :: rest).map Name.bytes)) = false := by
  have hsep : (slash == ascii ':') = false := by decide
  cases hb : top.bytes with
  | nil => exact absurd hb top.isName.1
  | cons b more =>
    rw [hb] at hcolon
    rw [List.map_cons, hb]
    cases more with
    | nil =>
      cases rest with
      | nil => rfl
      | cons next rest =>
        rw [List.map_cons, List.intercalate_cons_cons]
        simp [hasDriveLetter, hsep]
    | cons c more =>
      have hc : (c == ascii ':') = false := by
        rw [beq_eq_false_iff_ne]
        rintro rfl
        exact hcolon (by simp)
      cases rest with
      | nil => simp [hasDriveLetter, hc]
      | cons next rest =>
        rw [List.map_cons, List.intercalate_cons_cons]
        simp [hasDriveLetter, hc]

/-- An id that spells the path of a Markdown file is accepted. -/
theorem check_spell {top note : Name} {below : List Name} {stem : Bytes}
    (hspell : ∀ name ∈ top :: (below ++ [note]), Spellable name)
    (hcolon : ascii ':' ∉ top.bytes) (hstem : stem ≠ [])
    (hnote : note.bytes = stem ++ dot :: utf8 "md")
    (hlen : ([slash].intercalate ((top :: (below ++ [note])).map Name.bytes)).length ≤ 512) :
    check (spell (top :: (below ++ [note]))) = .ok () := by
  have hutf8 := utf8_spell hspell
  have hnames : ∀ b ∈ (top :: (below ++ [note])).map Name.bytes, IsName b := by
    intro b hb
    obtain ⟨name, -, rfl⟩ := List.mem_map.mp hb
    exact name.isName
  have hhead : (utf8 (spell (top :: (below ++ [note])))).head? = top.bytes.head? := by
    rw [hutf8, List.map_cons, head?_intercalate top.isName.1]
  have hmem : ∀ c : Char, c.toNat < 128 → ascii c ≠ slash →
      (∀ name ∈ top :: (below ++ [note]), ascii c ∉ name.bytes) →
      c ∉ (spell (top :: (below ++ [note]))).toList := by
    intro c hc hslash hall hin
    have hb := (mem_utf8_iff hc).mpr hin
    rw [hutf8] at hb
    rcases mem_intercalate_map hb with hb | ⟨name, hn, hb⟩
    · exact hslash hb
    · exact hall name hn hb
  have hbackslash := hmem '\\' (by decide) (by decide) fun name hn => (hspell name hn).2.2
  rw [check_eq_ok_iff]
  refine ⟨⟨?_, ?_, ?_⟩, ⟨?_, ?_, hbackslash⟩, ?_, ?_, ?_⟩
  · intro h0
    rw [h0, show utf8 "" = [] from rfl] at hhead
    exact top.isName.1 (List.head?_eq_none_iff.mp hhead.symm)
  · rw [← length_utf8, hutf8]
    exact hlen
  · exact hmem '\x00' (by decide) (by decide) fun name _ => name.nul_not_mem
  · intro hc
    have hb := (head?_utf8_iff (by decide)).mpr hc
    rw [hhead] at hb
    exact top.isName.2.1 (List.mem_of_head? hb)
  · exact fun hc => hbackslash (List.mem_of_head? hc)
  · rw [hutf8]
    exact hasDriveLetter_intercalate hcolon
  · have hfile : fileName (utf8 (spell (top :: (below ++ [note])))) = some note.bytes := by
      rw [hutf8, ← List.cons_append, List.map_append]
      refine fileName_intercalate (fun m hm => ?_) note.isName
      exact hnames m (by rw [← List.cons_append, List.map_append]; exact List.mem_append_left _ hm)
    unfold extension
    rw [hfile, Option.bind_some, hnote,
      rsplitFileAtDot_append hstem (by decide +kernel) (by decide +kernel)]
    simp
  · intro c hc
    rw [hutf8, components_intercalate hnames] at hc
    obtain ⟨b, hb, rfl⟩ := List.mem_map.mp hc
    obtain ⟨name, hn, rfl⟩ := List.mem_map.mp hb
    obtain ⟨htext, hdot, -⟩ := hspell name hn
    obtain ⟨text, ht⟩ := Option.isSome_iff_exists.mp htext
    have hbytes := fromUtf8_eq_some_iff.mp ht
    refine ⟨text, by rw [hbytes], ?_⟩
    rw [← hbytes] at hdot
    exact fun h => hdot ((head?_utf8_iff (by decide)).mpr h)

end DocumentId

/-! ## The store -/

/-- `DocumentMetadata`. -/
structure DocumentMetadata where
  title : String
  description : String
  updated : Option String
  deriving DecidableEq

/-- `FetchedDocument`. -/
structure FetchedDocument where
  id : DocumentId
  text : String
  metadata : DocumentMetadata
  truncated : Bool
  deriving DecidableEq

/-- `DocumentStore`. -/
structure DocumentStore where
  /-- The canonical root, as a path of names. -/
  root : List Name
  scopeDirectories : ScopeDirectories
  maxReadBytes : Nat
  maxSearchFileBytes : Nat
  deriving DecidableEq

/-- `map_open_error`. -/
def mapOpenError (e : Errno) : StoreError :=
  match e with
  | .noent | .notdir | .loop | .xdev => .notFound
  | e => .io (.errno e)

/-- The bytes without as many of the last as it takes to be well formed. -/
def popIllFormed : Bytes → Bytes
  | [] => []
  | b :: rest => if (fromUtf8 (b :: rest).reverse).isSome then b :: rest else popIllFormed rest

/-- `read_utf8_limited`. -/
def readUtf8Limited (readError : Option Errno) (content : Bytes) (maxBytes : Nat) :
    Except StoreError (String × Bool) :=
  match readError with
  | some e => .error (.io (.errno e))
  | none =>
    let bytes := content.take (maxBytes + 1)
    let truncated := decide (maxBytes < bytes.length)
    let bytes := if truncated then (popIllFormed (bytes.take maxBytes).reverse).reverse else bytes
    match fromUtf8 bytes with
    | some text => .ok (text, truncated)
    | none => .error .invalidUtf8

/-- `parse_metadata`. -/
def parseMetadata (C : KbCrates) (text : String) (id : DocumentId) : DocumentMetadata :=
  let fallbackTitle := ((fileStem id.path).bind fromUtf8).getD "Untitled"
  match stripPrefix "---\n" text with
  | none => ⟨fallbackTitle, "", none⟩
  | some rest =>
    match beforeFirst "\n---\n".toList rest.toList with
    | none => ⟨fallbackTitle, "", none⟩
    | some block =>
      match C.frontMatter (String.ofList block) with
      | some frontMatter =>
        ⟨frontMatter.title.getD fallbackTitle, frontMatter.description.getD "",
          frontMatter.updated⟩
      | none => ⟨fallbackTitle, "", none⟩

/-- The text of a path below the root: its components, joined by `/`. -/
def idText (relative : Bytes) : String :=
  "/".intercalate ((components relative).map fun component => fromUtf8Lossy component.asOsStr)

/-- The id of an entry of the walk below a top-level directory, when it is a Markdown file. -/
def entryId (topLevel : String) (entry : Except String WalkEntry) :
    Except StoreError (Option DocumentId) :=
  match entry with
  | .error text => .error (.io (.other text))
  | .ok entry =>
    let relative := [slash].intercalate (utf8 topLevel :: entry.relative.map Name.bytes)
    if !entry.isFile then .ok none
    else if (extension relative).bind fromUtf8 ≠ some "md" then .ok none
    else (DocumentId.parse (idText relative)).map some

/-- The Markdown files below a top-level directory; a missing directory has none. -/
def topLevelIds (C : KbCrates) (kb : Node) (topLevel : String) :
    Except StoreError (List DocumentId) :=
  match kb.child (utf8 topLevel) with
  | .error _ => .ok []
  | .ok (_, directory) =>
    ((C.walk directory).mapM (entryId topLevel)).map fun ids => ids.filterMap id

namespace DocumentStore

/-- `DocumentStore::new`. -/
def new (fs : FileSystem) (root : Bytes) (maxReadBytes maxSearchFileBytes : Nat)
    (scopeDirectories : ScopeDirectories) : Except StoreError DocumentStore :=
  match fs.metadata root with
  | .error e => .error (.io (.errno e))
  | .ok node =>
    if !node.isDir then .error .notFound
    else
      match fs.canonicalize root with
      | .error e => .error (.io (.errno e))
      | .ok canonicalRoot =>
        match node.openError with
        | some e => .error (.io (.errno e))
        | none => .ok ⟨canonicalRoot, scopeDirectories, maxReadBytes, maxSearchFileBytes⟩

/-- The directory behind `root_fd`. The descriptor of a directory that is gone finds nothing. -/
def rootFd (store : DocumentStore) (fs : FileSystem) : Node :=
  (fs.root.at store.root).getD (.dir none none [])

/-- `is_allowed`. -/
def isAllowed (store : DocumentStore) (scope : AccessScope) (id : DocumentId) : Bool :=
  if id.value = "INDEX.md" then true
  else
    match id.topLevel with
    | some directory =>
      store.scopeDirectories.allowsPublic directory ||
        (scope.allowsPrivate && store.scopeDirectories.allowsPrivate directory)
    | none => false

/-- `open_regular_file`: what `read_to_end` on the opened file answers. -/
def openRegularFile (kb : Node) (id : DocumentId) : Except StoreError (Option Errno × Bytes) :=
  match resolveBeneath kb id.path with
  | .error e => .error (mapOpenError e)
  | .ok trail =>
    let node := trail.current kb
    match node.openError with
    | some e => .error (mapOpenError e)
    | none =>
      match node with
      | .file _ readError content => .ok (readError, content)
      | _ => .error .notFound

/-- `read_limited`. -/
def readLimited (C : KbCrates) (store : DocumentStore) (fs : FileSystem) (scope : AccessScope)
    (id : DocumentId) (maxBytes : Nat) : Except StoreError FetchedDocument :=
  if !store.isAllowed scope id then .error .notFound
  else
    match openRegularFile (store.rootFd fs) id with
    | .error e => .error e
    | .ok (readError, content) =>
      match readUtf8Limited readError content maxBytes with
      | .error e => .error e
      | .ok (text, truncated) => .ok ⟨id, text, parseMetadata C text id, truncated⟩

/-- `read`. -/
def read (C : KbCrates) (store : DocumentStore) (fs : FileSystem) (scope : AccessScope)
    (id : DocumentId) : Except StoreError FetchedDocument :=
  store.readLimited C fs scope id store.maxReadBytes

/-- `read_for_search`. -/
def readForSearch (C : KbCrates) (store : DocumentStore) (fs : FileSystem) (scope : AccessScope)
    (id : DocumentId) : Except StoreError FetchedDocument :=
  store.readLimited C fs scope id store.maxSearchFileBytes

/-- Whether `INDEX.md` is a regular file. -/
def hasIndex (kb : Node) : Bool :=
  match kb.child (utf8 "INDEX.md") with
  | .ok (_, node) => node.isFile
  | .error _ => false

/-- The id of the index, when there is one. -/
def indexIds (kb : Node) : Except StoreError (List DocumentId) :=
  if hasIndex kb then (DocumentId.parse "INDEX.md").map ([·]) else .ok []

/-- The directories that `candidate_ids` walks. -/
def scopeRoots (store : DocumentStore) (scope : AccessScope) : List String :=
  store.scopeDirectories.public.toList ++
    if scope.allowsPrivate then store.scopeDirectories.private.toList else []

/-- `candidate_ids`. -/
def candidateIds (C : KbCrates) (store : DocumentStore) (fs : FileSystem) (scope : AccessScope) :
    Except StoreError (List DocumentId) := do
  let index ← indexIds (store.rootFd fs)
  let ids ← (store.scopeRoots scope).mapM (topLevelIds C (store.rootFd fs))
  .ok (((index ++ ids.flatten).insertionSort (fun a b => a.value ≤ b.value)).destutter (· ≠ ·))

/-! ## What a scope may read -/

theorem isAllowed_iff {store : DocumentStore} {scope : AccessScope} {id : DocumentId} :
    store.isAllowed scope id = true ↔
      id.value = "INDEX.md" ∨ ∃ d ∈ store.scopeRoots scope, id.topLevel = some d := by
  have hmem : ∀ d, d ∈ store.scopeRoots scope ↔
      (store.scopeDirectories.allowsPublic d ||
        (scope.allowsPrivate && store.scopeDirectories.allowsPrivate d)) = true := by
    intro d
    unfold scopeRoots ScopeDirectories.allowsPublic ScopeDirectories.allowsPrivate
    cases scope.allowsPrivate <;> simp [BTreeSet.mem_def]
  unfold isAllowed
  by_cases h : id.value = "INDEX.md"
  · simp [h]
  · rw [if_neg h]
    cases ht : id.topLevel with
    | none => simp [h]
    | some d =>
      constructor
      · intro ha
        exact Or.inr ⟨d, (hmem d).mpr ha, rfl⟩
      · rintro (hc | ⟨d', hd', he⟩)
        · exact absurd hc h
        · cases he
          exact (hmem d).mp hd'

theorem idText_intercalate {top : String} (hsafe : isSafeTopLevelDirectory top = true)
    (relative : List Name) :
    idText ([slash].intercalate (utf8 top :: relative.map Name.bytes))
      = "/".intercalate (top :: relative.map fun name => fromUtf8Lossy name.bytes) := by
  have hnames : ∀ n ∈ utf8 top :: relative.map Name.bytes, IsName n := by
    intro n hn
    rcases List.mem_cons.mp hn with rfl | hn
    · exact isName_of_isSafe hsafe
    · obtain ⟨name, -, rfl⟩ := List.mem_map.mp hn
      exact name.isName
  unfold idText
  rw [components_intercalate hnames]
  simp [Component.asOsStr, Function.comp_def]

/-- The top level of an id made from an entry is the directory that was walked. -/
theorem topLevel_of_entryId {top : String} (hsafe : isSafeTopLevelDirectory top = true)
    {entry : Except String WalkEntry} {id : DocumentId} (h : entryId top entry = .ok (some id)) :
    id.topLevel = some top := by
  unfold entryId at h
  split at h
  · simp at h
  · next entry =>
    simp only [idText_intercalate hsafe] at h
    split at h
    · simp at h
    · split at h
      · simp at h
      · cases hp : DocumentId.parse
            ("/".intercalate (top :: entry.relative.map fun name => fromUtf8Lossy name.bytes)) with
        | error e => rw [hp] at h; cases h
        | ok parsed =>
          rw [hp] at h
          cases h
          rw [DocumentId.topLevel_eq_some_iff, DocumentId.path, DocumentId.value_of_parse hp,
            utf8_intercalate, List.map_cons]
          exact head?_names_intercalate (isName_of_isSafe hsafe) _

/-- What a successful pass over a list collected. -/
theorem exists_of_mem_mapM {ε α β : Type} {f : α → Except ε β} {l : List α} {l' : List β}
    (h : l.mapM f = .ok l') {y : β} (hy : y ∈ l') : ∃ x ∈ l, f x = .ok y := by
  induction l generalizing l' with
  | nil =>
    rw [List.mapM_nil] at h
    cases h
    simp at hy
  | cons x l ih =>
    rw [List.mapM_cons, bind_eq_ok] at h
    obtain ⟨z, hz, h⟩ := h
    obtain ⟨zs, hzs, h⟩ := bind_eq_ok.mp h
    cases h
    rcases List.mem_cons.mp hy with rfl | hy
    · exact ⟨x, List.mem_cons_self, hz⟩
    · obtain ⟨w, hw, he⟩ := ih hzs hy
      exact ⟨w, List.mem_cons_of_mem _ hw, he⟩

theorem safe_of_mem_scopeRoots {store : DocumentStore} {scope : AccessScope} {d : String}
    (h : d ∈ store.scopeRoots scope) : isSafeTopLevelDirectory d = true := by
  unfold scopeRoots at h
  rcases List.mem_append.mp h with h | h
  · exact store.scopeDirectories.public_safe d h
  · split at h
    · exact store.scopeDirectories.private_safe d h
    · simp at h

/-- An id that `candidate_ids` lists is one that the scope may read. -/
theorem allowed_of_mem_candidateIds {C : KbCrates} {store : DocumentStore} {fs : FileSystem}
    {scope : AccessScope} {ids : List DocumentId} (h : store.candidateIds C fs scope = .ok ids)
    {id : DocumentId} (hid : id ∈ ids) : store.isAllowed scope id = true := by
  obtain ⟨index, hindex, h⟩ := bind_eq_ok.mp h
  obtain ⟨lists, hlists, h⟩ := bind_eq_ok.mp h
  cases h
  have hmem : id ∈ index ++ lists.flatten :=
    (List.mem_insertionSort _).mp ((List.destutter_sublist _ _).subset hid)
  rw [isAllowed_iff]
  rcases List.mem_append.mp hmem with hm | hm
  · refine Or.inl ?_
    unfold indexIds at hindex
    split at hindex
    · cases hp : DocumentId.parse "INDEX.md" with
      | error e => rw [hp] at hindex; cases hindex
      | ok parsed =>
        rw [hp] at hindex
        cases hindex
        rw [List.mem_singleton.mp hm]
        exact DocumentId.value_of_parse hp
    · cases hindex
      simp at hm
  · refine Or.inr ?_
    obtain ⟨l, hl, hidl⟩ := List.mem_flatten.mp hm
    obtain ⟨top, htop, hwalk⟩ := exists_of_mem_mapM hlists hl
    refine ⟨top, htop, ?_⟩
    unfold topLevelIds at hwalk
    split at hwalk
    · cases hwalk
      simp at hidl
    · next name directory _ =>
      cases hw : (C.walk directory).mapM (entryId top) with
      | error e => rw [hw] at hwalk; cases hwalk
      | ok entries =>
        rw [hw] at hwalk
        cases hwalk
        obtain ⟨entry, hentry, hsome⟩ := List.mem_filterMap.mp hidl
        rw [id_eq] at hsome
        subst hsome
        obtain ⟨walked, -, he⟩ := exists_of_mem_mapM hw hentry
        exact topLevel_of_entryId (safe_of_mem_scopeRoots htop) he

end DocumentStore

end EngramMcp
