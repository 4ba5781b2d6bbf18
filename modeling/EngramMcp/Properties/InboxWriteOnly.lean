import EngramMcp.Kb.Config
import EngramMcp.Kb.Document
import EngramMcp.Kb.Inbox
import EngramMcp.Kb.Reference

/-!
# Who can read the inbox

A note is invisible when no id that some scope may read resolves to its file. `InboxStore::open`
refuses an inbox that is the knowledge base or contains it. An inbox below a top-level directory
that is served passes, and then the notes can be read back.

* `served_of_resolves` — an id that reaches a note shows that the inbox is served
* `exists_id_of_served` — from a served inbox every note can be read
* `inbox_write_only_iff` — notes stay invisible exactly when the inbox is not served
-/

namespace EngramMcp

open Infra DocumentId

/-- A server that started with a note inbox: what `main` and `router` have set up. -/
structure Startup (C : ConfigCrates) where
  fs : FileSystem
  lookup : Lookup
  config : Config C
  settings : InboxConfig
  store : DocumentStore
  inbox : InboxStore
  config_eq : Config.fromLookup C fs lookup = .ok config
  settings_eq : config.inbox = some settings
  store_eq : DocumentStore.new fs config.kbRoot config.maxReadBytes config.maxSearchFileBytes
    config.scopeDirectories = .ok store
  inbox_eq : InboxStore.open fs settings.root config.kbRoot settings.maxNoteBytes
    settings.maxTotalBytes = .ok inbox

/-- What `main` and `router` set up, when the server starts with a note inbox. -/
def start (C : ConfigCrates) (fs : FileSystem) (lookup : Lookup) : Option (Startup C) :=
  match config_eq : Config.fromLookup C fs lookup with
  | .error _ => none
  | .ok config =>
    match settings_eq : config.inbox with
    | none => none
    | some settings =>
      match store_eq : DocumentStore.new fs config.kbRoot config.maxReadBytes
          config.maxSearchFileBytes config.scopeDirectories with
      | .error _ => none
      | .ok store =>
        match inbox_eq : InboxStore.open fs settings.root config.kbRoot settings.maxNoteBytes
            settings.maxTotalBytes with
        | .error _ => none
        | .ok inbox => some {
            fs, lookup, config, settings, store, inbox, config_eq, settings_eq, store_eq, inbox_eq }

/-- An id resolves to the file at a path. -/
def Resolves (store : DocumentStore) (fs : FileSystem) (id : DocumentId) (path : List Name) :
    Prop :=
  ∃ trail, resolveBeneath (store.rootFd fs) id.path = .ok trail ∧ store.root ++ trail.names = path

/-- No scope has an id for the file at a path, and no scope lists one. -/
def Invisible (C : KbCrates) (store : DocumentStore) (fs : FileSystem) (path : List Name) : Prop :=
  ∀ scope,
    (∀ id, store.isAllowed scope id = true → ¬Resolves store fs id path) ∧
    ∀ ids, store.candidateIds C fs scope = .ok ids → ∀ id ∈ ids, ¬Resolves store fs id path

/-- There is a regular file at a path. -/
def HasFile (fs : FileSystem) (path : List Name) : Prop :=
  ∃ node, fs.root.at path = some node ∧ node.isFile = true

/--
The inbox lies at or below a top-level directory that some scope may read, and the path of the
note from the root of the knowledge base is one that an id can spell.
-/
def Served (store : DocumentStore) (inbox : InboxStore) (note : Name) : Prop :=
  ∃ (top : Name) (below : List Name),
    inbox.root = store.root ++ top :: below ∧
    (∃ d ∈ store.scopeRoots .private, top.bytes = utf8 d) ∧
    (∀ name ∈ below, Spellable name) ∧
    ([slash].intercalate ((top :: (below ++ [note])).map Name.bytes)).length ≤ 512

theorem root_of_new {fs : FileSystem} {root : Bytes} {maxReadBytes maxSearchFileBytes : Nat}
    {dirs : ScopeDirectories} {store : DocumentStore}
    (h : DocumentStore.new fs root maxReadBytes maxSearchFileBytes dirs = .ok store) :
    fs.canonicalize root = .ok store.root := by
  unfold DocumentStore.new at h
  split at h
  · simp at h
  · split at h
    · simp at h
    · split at h
      · simp at h
      · next canonical hc =>
        split at h
        · simp at h
        · cases h; exact hc

/-- The inbox is not the knowledge base. -/
theorem Startup.inbox_root_ne {C : ConfigCrates} (S : Startup C) :
    ¬S.inbox.root <+: S.store.root :=
  InboxStore.not_isPrefix_of_open S.inbox_eq (root_of_new S.store_eq)

/-! ## An id that reaches a note -/

/-- The names that an id resolves to are the names it is made of. -/
theorem map_bytes_names {kb : Node} {id : DocumentId} {trail : Trail}
    (h : resolveBeneath kb id.path = .ok trail) : trail.names.map Name.bytes = names id.path := by
  have hdd := (segments_of_all_normal id.exists_normal).2.2
  unfold resolveBeneath at h
  split at h
  · simp at h
  · split at h
    · simp at h
    · have hw := names_walk (segments id.path) [] trail hdd h
      simpa [Trail.names, names] using hw

theorem mem_scopeRoots_private {store : DocumentStore} {scope : AccessScope} {d : String}
    (h : d ∈ store.scopeRoots scope) : d ∈ store.scopeRoots .private := by
  unfold DocumentStore.scopeRoots at h ⊢
  rcases List.mem_append.mp h with h | h
  · exact List.mem_append_left _ h
  · cases scope with
    | tech => simp [AccessScope.allowsPrivate] at h
    | «private» => exact List.mem_append_right _ h

/-- An id that reaches a note shows that the inbox is served. -/
theorem served_of_resolves {store : DocumentStore} {inbox : InboxStore} {fs : FileSystem}
    {scope : AccessScope} {id : DocumentId} {note : Name} (hne : ¬inbox.root <+: store.root)
    (hallowed : store.isAllowed scope id = true)
    (hres : Resolves store fs id (inbox.root ++ [note])) : Served store inbox note := by
  obtain ⟨trail, hres, hpath⟩ := hres
  have hnames := map_bytes_names hres
  -- the trail ends with the note, and what is before it leads to the inbox
  obtain ⟨below, hbelow⟩ : ∃ below, trail.names = below ++ [note] := by
    rcases List.eq_nil_or_concat trail.names with hnil | ⟨below, last, hl⟩
    · rw [hnil] at hnames
      exact absurd hnames.symm id.names_ne_nil
    · rw [hl, List.concat_eq_append, ← List.append_assoc] at hpath
      obtain ⟨-, hlast⟩ := List.append_inj' hpath rfl
      cases hlast
      exact ⟨below, by rw [hl, List.concat_eq_append]⟩
  rw [hbelow, ← List.append_assoc] at hpath
  obtain ⟨hroot, -⟩ := List.append_inj' hpath rfl
  cases below with
  | nil =>
    rw [List.append_nil] at hroot
    exact absurd (hroot ▸ List.prefix_rfl) hne
  | cons top below =>
    rw [hbelow] at hnames
    have htop : ∃ d ∈ store.scopeRoots .private, top.bytes = utf8 d := by
      rcases DocumentStore.isAllowed_iff.mp hallowed with hi | ⟨d, hd, ht⟩
      · -- the index is one name, the path of a note is at least two
        have hone : names id.path = [utf8 "INDEX.md"] := by
          rw [DocumentId.path, hi]
          decide +kernel
        rw [hone] at hnames
        have hlen := congrArg List.length hnames
        simp at hlen
      · have hhead := DocumentId.topLevel_eq_some_iff.mp ht
        rw [← hnames] at hhead
        exact ⟨d, mem_scopeRoots_private hd, by simpa using hhead⟩
    refine ⟨top, below, hroot.symm, htop, ?_, ?_⟩
    · intro name hname
      have hmem : name.bytes ∈ names id.path := by
        rw [← hnames]
        exact List.mem_map_of_mem (by simp [hname])
      exact spellable_of_mem_names hmem
    · have hle := length_intercalate_names_le id.path
      rw [← hnames] at hle
      refine le_trans hle ?_
      rw [DocumentId.path, length_utf8]
      exact (DocumentId.check_eq_ok_iff.mp id.accepted).1.2.1

/-! ## A note of a served inbox -/

/-- A note name is a Markdown file name that an id may have. -/
theorem spellable_of_isSafeFileName {name : String} {note : Name}
    (hsafe : isSafeFileName name = true) (hbytes : note.bytes = utf8 name) :
    Spellable note ∧ ∃ stem, stem ≠ [] ∧ note.bytes = stem ++ dot :: utf8 "md" := by
  unfold isSafeFileName at hsafe
  simp only [Bool.and_eq_true, decide_eq_true_eq] at hsafe
  obtain ⟨⟨⟨⟨-, -⟩, hdot⟩, hall⟩, hmd⟩ := hsafe
  refine ⟨⟨?_, ?_, ?_⟩, ?_⟩
  · rw [hbytes, fromUtf8_utf8]; rfl
  · rw [hbytes]
    exact fun hc => hdot ((head?_utf8_iff (by decide)).mp hc)
  · rw [hbytes]
    intro hc
    have hb := List.all_eq_true.mp hall _ hc
    exact absurd hb (by decide)
  · obtain ⟨stem, hstem⟩ := hmd
    have hname : name = String.ofList stem ++ ".md" := by
      rw [← String.toList_inj, ← hstem]
      simp
    refine ⟨utf8 (String.ofList stem), ?_, ?_⟩
    · intro h0
      have hnil : String.ofList stem = "" := utf8_eq_nil_iff.mp h0
      rw [hname, hnil] at hdot
      exact hdot (by decide)
    · rw [hbytes, hname, utf8_append]
      congr 1

/-- A served top level is a name that an id may have, and it has no colon. -/
theorem spellable_of_scopeRoot {store : DocumentStore} {scope : AccessScope} {top : Name}
    {d : String} (hd : d ∈ store.scopeRoots scope) (hbytes : top.bytes = utf8 d) :
    Spellable top ∧ ascii ':' ∉ top.bytes := by
  obtain ⟨-, -, hdot, hmem⟩ :=
    isSafeTopLevelDirectory_iff.mp (DocumentStore.safe_of_mem_scopeRoots hd)
  rw [Spellable, hbytes, fromUtf8_utf8]
  refine ⟨⟨rfl, ?_, ?_⟩, ?_⟩
  · exact fun hc => hdot ((head?_utf8_iff (by decide)).mp hc)
  · exact fun hc => hmem '\\' ((mem_utf8_iff (by decide)).mp hc) (by decide)
  · exact fun hc => hmem ':' ((mem_utf8_iff (by decide)).mp hc) (by decide)

/-- From a served inbox every note can be read, by a file system that has it in place. -/
theorem exists_id_of_served {store : DocumentStore} {inbox : InboxStore} {note : Name}
    {name : String} (hsafe : isSafeFileName name = true) (hbytes : note.bytes = utf8 name)
    (hserved : Served store inbox note) :
    ∃ later id, HasFile later (inbox.root ++ [note]) ∧ store.isAllowed .private id = true ∧
      Resolves store later id (inbox.root ++ [note]) := by
  obtain ⟨top, below, hroot, ⟨d, hd, htop⟩, hbelow, hlen⟩ := hserved
  obtain ⟨hnote, stem, hstem, hmd⟩ := spellable_of_isSafeFileName hsafe hbytes
  obtain ⟨htopspell, hcolon⟩ := spellable_of_scopeRoot hd htop
  have hspell : ∀ n ∈ top :: (below ++ [note]), Spellable n := by
    intro n hn
    rcases List.mem_cons.mp hn with rfl | hn
    · exact htopspell
    · rcases List.mem_append.mp hn with hn | hn
      · exact hbelow n hn
      · rw [List.mem_singleton.mp hn]; exact hnote
  let id : DocumentId :=
    ⟨spell (top :: (below ++ [note])), check_spell hspell hcolon hstem hmd hlen⟩
  have hpath : id.path = [slash].intercalate ((top :: (below ++ [note])).map Name.bytes) :=
    utf8_spell hspell
  have hnoteroot : inbox.root ++ [note] = store.root ++ top :: (below ++ [note]) := by
    rw [hroot]; simp
  -- the file system that has the note and nothing else
  let leaf : Node := .file none none []
  let later : FileSystem := ⟨Node.branch leaf (inbox.root ++ [note]), [], fun _ => true⟩
  refine ⟨later, id, ⟨leaf, ?_, rfl⟩, ?_, ?_⟩
  · have hat := Node.at_branch leaf (inbox.root ++ [note]) []
    rw [List.append_nil] at hat
    exact hat
  · refine DocumentStore.isAllowed_iff.mpr (Or.inr ⟨d, hd, ?_⟩)
    rw [DocumentId.topLevel_eq_some_iff, hpath, List.map_cons,
      head?_names_intercalate top.isName, htop]
  · have hfd : store.rootFd later = Node.branch leaf (top :: (below ++ [note])) := by
      unfold DocumentStore.rootFd
      rw [show later.root = Node.branch leaf (store.root ++ top :: (below ++ [note])) from
        congrArg _ hnoteroot, Node.at_branch, Option.getD_some]
    obtain ⟨trail, hwalk, hnames⟩ : ∃ trail, walk true (store.rootFd later) []
        ((top :: (below ++ [note])).map Name.bytes) = .ok trail ∧
          trail.names = Trail.names [] ++ top :: (below ++ [note]) :=
      walk_branch leaf (top :: (below ++ [note])) [] hfd
    refine ⟨trail, ?_, ?_⟩
    · have hseg : segments id.path = (top :: (below ++ [note])).map Name.bytes := by
        rw [hpath]
        refine segments_intercalate (by simp) fun b hb => ?_
        obtain ⟨n, -, rfl⟩ := List.mem_map.mp hb
        exact n.isName.2.1
      have hhead : id.path.head? ≠ some slash := by
        rw [hpath, List.map_cons, head?_intercalate top.isName.1]
        exact head?_ne_slash top.isName.2.1
      unfold resolveBeneath
      rw [if_neg id.path_ne_nil, if_neg hhead, hseg]
      exact hwalk
    · rw [hnames, hnoteroot]
      rfl

/-! ## Notes stay invisible exactly when the inbox is not served -/

/--
A note stays invisible, in every later state of the file system in which it is still there,
exactly when the inbox is not served.
-/
theorem inbox_write_only_iff {CC : ConfigCrates} (C : KbCrates) (S : Startup CC)
    {toYaml : FrontMatterWriter} {faults : Faults} {fs : FileSystem} {dir' : Node}
    {title body : String} {occurred : Option String} {fingerprint : String} {now : Int}
    {note : CreatedNote} {name : Name}
    (hnote : S.inbox.createNote toYaml faults (S.inbox.rootFd fs) title body occurred fingerprint
      now = (.ok note, dir'))
    (hname : utf8 note.id = utf8 (inboxIdPrefix ++ "/") ++ name.bytes) :
    (∀ later, HasFile later (S.inbox.root ++ [name]) →
      Invisible C S.store later (S.inbox.root ++ [name])) ↔
    ¬Served S.store S.inbox name := by
  obtain ⟨text, entry, contents, hid, -, hbytes, hsafe, -⟩ := InboxStore.created_of_createNote hnote
  have hentry : name.bytes = utf8 text := by
    rw [hid, utf8_append] at hname
    exact (List.append_cancel_left hname).symm
  constructor
  · intro hinvisible hserved
    obtain ⟨later, id, hfile, hallowed, hres⟩ := exists_id_of_served hsafe hentry hserved
    exact (hinvisible later hfile .private).1 id hallowed hres
  · intro hnot later _ scope
    have hno : ∀ id, S.store.isAllowed scope id = true →
        ¬Resolves S.store later id (S.inbox.root ++ [name]) := fun id hallowed hres =>
      hnot (served_of_resolves S.inbox_root_ne hallowed hres)
    refine ⟨hno, fun ids hids id hid => hno id ?_⟩
    exact DocumentStore.allowed_of_mem_candidateIds hids hid

/-- The documented layout, an inbox in `99_inbox` of the knowledge base, is not served. -/
theorem not_served_of_inboxIdPrefix {store : DocumentStore} {inbox : InboxStore} {note top : Name}
    {below : List Name} (htop : top.bytes = utf8 inboxIdPrefix)
    (hroot : inbox.root = store.root ++ top :: below) : ¬Served store inbox note := by
  rintro ⟨top', below', hroot', ⟨d, hd, htop'⟩, -, -⟩
  rw [hroot, List.append_cancel_left_eq, List.cons.injEq] at hroot'
  rw [← hroot'.1, htop, utf8_inj] at htop'
  subst htop'
  unfold DocumentStore.scopeRoots at hd
  rcases List.mem_append.mp hd with hd | hd
  · exact store.scopeDirectories.inbox_not_mem.1 hd
  · exact store.scopeDirectories.inbox_not_mem.2 hd

section

open Sample

theorem rootFd_inbox {root : List Name} (h : root ∈ [[kbDir, projectsDir],
    [kbDir, inboxDir]]) : (inbox root).rootFd (fileSystem emptyKb) = dir [] := by
  have hne : (inboxDir == projectsDir) = false := by decide +kernel
  simp only [List.mem_cons, List.not_mem_nil, or_false] at h
  rcases h with rfl | rfl <;>
    simp [InboxStore.rootFd, inbox, fileSystem, emptyKb, dir, Node.at, List.lookup_cons, hne]

/-- A server with the documented layout: its notes stay invisible. -/
theorem inbox_write_only_documented : ∃ S : Startup configCrates,
    S.inbox.root = [kbDir, inboxDir] ∧ ∀ later,
      HasFile later (S.inbox.root ++ [note]) →
        Invisible kbCrates S.store later (S.inbox.root ++ [note]) := by
  have hstart : (start configCrates (fileSystem emptyKb) (lookup "/kb/99_inbox")).map
      (fun S => (S.store, S.inbox)) = some (store, inbox [kbDir, inboxDir]) := by
    decide +kernel
  have hname : utf8 (inboxIdPrefix ++ "/2026-08-13-034500-rust.md")
      = utf8 (inboxIdPrefix ++ "/") ++ note.bytes := by
    decide +kernel
  have hserved : ¬Served store (inbox [kbDir, inboxDir]) note :=
    not_served_of_inboxIdPrefix rfl rfl
  obtain ⟨S, -, hS⟩ := Option.map_eq_some_iff.mp hstart
  obtain ⟨hstore, hinbox⟩ := Prod.mk.inj hS
  have hnote : S.inbox.createNote writePlain .none (S.inbox.rootFd (fileSystem emptyKb)) "Rust" "x"
      none "0a1b" 1786592700000000000
      = (.ok ⟨inboxIdPrefix ++ "/2026-08-13-034500-rust.md", 95, "2026-08-13T03:45:00Z"⟩,
        (append [kbDir, inboxDir]).2) := by
    rw [hinbox, rootFd_inbox (by simp)]
    rw [← append_eq_ok [kbDir, inboxDir]]
    change append [kbDir, inboxDir] = _
    exact Prod.mk.eta.symm
  refine ⟨S, by rw [hinbox]; rfl, (inbox_write_only_iff kbCrates S hnote hname).mpr ?_⟩
  rw [hstore, hinbox]
  exact hserved

/-- The file system after a note was appended to `/kb/20_projects`. -/
def afterAppend : FileSystem :=
  let root := [kbDir, projectsDir]
  { fileSystem emptyKb with
    root := (fileSystem emptyKb).root.modify (fun _ => (append root).2) root }

/-- A server whose inbox is a public directory: its notes can be read by `kb:tech`. -/
theorem inbox_not_write_only : ∃ S : Startup configCrates,
    (S.inbox.createNote writePlain .none (S.inbox.rootFd (fileSystem emptyKb)) "Rust" "x" none
        "0a1b" 1786592700000000000).1
      = .ok ⟨"99_inbox/2026-08-13-034500-rust.md", 95, "2026-08-13T03:45:00Z"⟩ ∧
    (∃ id, id.value = "20_projects/2026-08-13-034500-rust.md" ∧
      S.store.isAllowed .tech id = true ∧
      Resolves S.store afterAppend id (S.inbox.root ++ [note])) ∧
    ¬Invisible kbCrates S.store afterAppend (S.inbox.root ++ [note]) := by
  have hstart : (start configCrates (fileSystem emptyKb) (lookup "/kb/20_projects")).map
      (fun S => (S.store, S.inbox)) = some (store, inbox [kbDir, projectsDir]) := by
    decide +kernel
  have hres : (resolveBeneath (store.rootFd afterAppend)
      (utf8 "20_projects/2026-08-13-034500-rust.md")).map Trail.names
        = .ok [projectsDir, note] := by
    decide +kernel
  obtain ⟨S, -, hS⟩ := Option.map_eq_some_iff.mp hstart
  obtain ⟨hstore, hinbox⟩ := Prod.mk.inj hS
  have hid : ∃ id, id.value = "20_projects/2026-08-13-034500-rust.md" ∧
      S.store.isAllowed .tech id = true ∧
      Resolves S.store afterAppend id (S.inbox.root ++ [note]) := by
    rw [hstore, hinbox]
    refine ⟨⟨"20_projects/2026-08-13-034500-rust.md", by decide +kernel⟩, rfl,
      by decide +kernel, ?_⟩
    cases hr : resolveBeneath (store.rootFd afterAppend)
        (utf8 "20_projects/2026-08-13-034500-rust.md") with
    | error e => rw [hr] at hres; cases hres
    | ok trail =>
      rw [hr] at hres
      exact ⟨trail, hr, by rw [Except.ok.inj hres]; rfl⟩
  refine ⟨S, ?_, hid, ?_⟩
  · rw [hinbox, rootFd_inbox (by simp)]
    exact append_eq_ok _
  · obtain ⟨id, -, hallowed, hres⟩ := hid
    exact fun hinv => (hinv .tech).1 id hallowed hres

end

end EngramMcp
