import EngramMcp.Infra.UnixPath

/-!
# A file tree and how the kernel walks it

Directories, regular files and other nodes, without links and without case folding. A node may
refuse to be opened, searched or read, with the error number it answers with.

A walk keeps the trail of the entries it went through, so `..` has somewhere to go back to.

* `walk_congr` — below its first entry a walk without `..` does not depend on the tree around it
* `names_walk` — the names of a walk without `..` are the pieces of the path that are names
* `at_modify`, `at_modify_ne` — changing the node at a path, seen from that path and from another
-/

namespace Infra

/-- The error numbers the program tells apart, and the others. -/
inductive Errno
  | noent
  | notdir
  | loop
  | xdev
  | exist
  | nametoolong
  | inval
  | other (code : Nat)
  deriving DecidableEq, Repr

/-- The name of a directory entry: at most `NAME_MAX` bytes and no NUL. -/
structure Name where
  bytes : Bytes
  isName : IsName bytes
  length_le : bytes.length ≤ 255
  nul_not_mem : 0 ∉ bytes
  deriving DecidableEq

namespace Name

@[ext] theorem ext {m n : Name} (h : m.bytes = n.bytes) : m = n := by
  cases m; cases n; cases h; rfl

/-- A segment as a name. A path has no NUL, so only its length can be wrong. -/
def parse (seg : Bytes) : Except Errno Name :=
  if h1 : seg.length ≤ 255 then
    if h2 : IsName seg ∧ 0 ∉ seg then .ok ⟨seg, h2.1, h1, h2.2⟩ else .error .inval
  else .error .nametoolong

theorem parse_eq_ok {seg : Bytes} {n : Name} : parse seg = .ok n ↔ n.bytes = seg := by
  constructor
  · intro h
    unfold parse at h
    split at h
    · split at h
      · cases h; rfl
      · simp at h
    · simp at h
  · rintro rfl
    unfold parse
    rw [dif_pos n.length_le, dif_pos ⟨n.isName, n.nul_not_mem⟩]

end Name

/-- A node of the file tree. -/
inductive Node
  /-- A regular file. -/
  | file (openError readError : Option Errno) (content : Bytes)
  /-- A directory. -/
  | dir (openError searchError : Option Errno) (entries : List (Name × Node))
  /-- A FIFO, socket or device. -/
  | special (openError : Option Errno)

namespace Node

/-- What opening the node for reading answers, when it fails. -/
def openError : Node → Option Errno
  | file e _ _ => e
  | dir e _ _ => e
  | special e => e

/-- `Metadata::is_file`. -/
def isFile : Node → Bool
  | file .. => true
  | _ => false

/-- `Metadata::is_dir`. -/
def isDir : Node → Bool
  | dir .. => true
  | _ => false

/-- Looking a name up in a directory. -/
def child (node : Node) (seg : Bytes) : Except Errno (Name × Node) :=
  match node with
  | dir _ (some searchError) _ => .error searchError
  | dir _ none entries =>
    match Name.parse seg with
    | .error e => .error e
    | .ok name =>
      match entries.lookup name with
      | some found => .ok (name, found)
      | none => .error .noent
  | _ => .error .notdir

/-- The node at a path of names, whatever the permissions on the way. -/
def «at» : Node → List Name → Option Node
  | node, [] => some node
  | dir _ _ entries, name :: rest => (entries.lookup name).bind fun found => found.at rest
  | _, _ :: _ => none

/-- The tree with `f` applied to the node at a path. -/
def modify (f : Node → Node) : Node → List Name → Node
  | node, [] => f node
  | dir openError searchError entries, name :: rest =>
    dir openError searchError
      (entries.map fun entry => if entry.1 = name then (entry.1, modify f entry.2 rest) else entry)
  | node, _ :: _ => node

/-- The directory with one more entry. -/
def insert (name : Name) (leaf : Node) : Node → Node
  | dir openError searchError entries => dir openError searchError (entries ++ [(name, leaf)])
  | node => node

theorem child_eq_ok {node found : Node} {seg : Bytes} {name : Name}
    (h : node.child seg = .ok (name, found)) : name.bytes = seg ∧ node.at [name] = some found := by
  unfold child at h
  split at h
  · simp at h
  · next e entries =>
    split at h
    · simp at h
    · next parsed hp =>
      split at h
      · next n hl =>
        cases h
        exact ⟨Name.parse_eq_ok.mp hp, by rw [«at», hl]; rfl⟩
      · simp at h
  · simp at h

theorem child_dir {e : Option Errno} {entries : List (Name × Node)} {name : Name} {found : Node}
    (h : entries.lookup name = some found) :
    (dir e none entries).child name.bytes = .ok (name, found) := by
  unfold child
  simp only [Name.parse_eq_ok.mpr rfl, h]

/-- Entries of other names make no difference to a lookup. -/
theorem child_append {e s : Option Errno} {entries extra : List (Name × Node)} {seg : Bytes}
    (h : seg ∉ extra.map fun entry => entry.1.bytes) :
    (dir e s (entries ++ extra)).child seg = (dir e s entries).child seg := by
  have hnone : ∀ name : Name, name.bytes = seg → extra.lookup name = none := by
    intro name hname
    rw [List.lookup_eq_none_iff]
    intro entry hentry
    rw [bne_iff_ne]
    rintro rfl
    exact h (List.mem_map.mpr ⟨entry, hentry, hname⟩)
  cases s with
  | some err => rfl
  | none =>
    unfold child
    cases hp : Name.parse seg with
    | error err => rfl
    | ok name =>
      simp only [List.lookup_append, hnone name (Name.parse_eq_ok.mp hp), Option.or_none]

theorem lookup_map_modify (f : Node → Node) (name : Name) (rest : List Name) :
    ∀ entries : List (Name × Node),
    (entries.map fun entry =>
        if entry.1 = name then (entry.1, modify f entry.2 rest) else entry).lookup name
      = (entries.lookup name).map fun found => modify f found rest
  | [] => rfl
  | (key, node) :: entries => by
    rw [List.map_cons]
    by_cases hk : key = name
    · subst hk
      rw [if_pos rfl, List.lookup_cons_self, List.lookup_cons_self]
      rfl
    · rw [if_neg hk]
      have hb : (name == key) = false := by simpa using Ne.symm hk
      rw [List.lookup_cons, hb, List.lookup_cons, hb]
      exact lookup_map_modify f name rest entries

/-- A path goes through the node at each of its prefixes. -/
theorem at_append : ∀ (path more : List Name) (node : Node),
    node.at (path ++ more) = (node.at path).bind fun found => found.at more
  | [], _, _ => rfl
  | _ :: _, _, file .. => rfl
  | _ :: _, _, special _ => rfl
  | name :: rest, more, dir _ _ entries => by
    rw [List.cons_append, «at», «at»]
    cases entries.lookup name with
    | none => rfl
    | some next => exact at_append rest more next

theorem lookup_map_modify_ne (f : Node → Node) {name other : Name} (hne : other ≠ name)
    (rest : List Name) (entries : List (Name × Node)) :
    (entries.map fun entry =>
        if entry.1 = name then (entry.1, modify f entry.2 rest) else entry).lookup other
      = entries.lookup other := by
  induction entries with
  | nil => rfl
  | cons entry entries ih =>
    rw [List.map_cons, List.lookup_cons, List.lookup_cons, ih]
    by_cases hn : entry.1 = name
    · have hb : (other == entry.1) = false := by rw [hn]; simpa using hne
      rw [if_pos hn, hb]
    · rw [if_neg hn]

/-- Changing the node at a path, seen from a node on the way. -/
theorem at_modify_append (f : Node → Node) : ∀ (path more : List Name) (node : Node),
    (modify f node (path ++ more)).at path = (node.at path).map fun found => modify f found more
  | [], _, _ => rfl
  | _ :: _, _, file .. => rfl
  | _ :: _, _, special _ => rfl
  | name :: rest, more, dir _ _ entries => by
    rw [List.cons_append, modify, «at», «at», lookup_map_modify]
    cases entries.lookup name with
    | none => rfl
    | some next => exact at_modify_append f rest more next

/-- Looking a name up after a change below an entry. -/
theorem child_modify (f : Node → Node) (name : Name) (rest : List Name) (node : Node)
    (seg : Bytes) :
    (modify f node (name :: rest)).child seg = (node.child seg).map fun entry =>
      (entry.1, if entry.1 = name then modify f entry.2 rest else entry.2) := by
  cases node with
  | file => rfl
  | special => rfl
  | dir openError searchError entries =>
    cases searchError with
    | some e => rfl
    | none =>
      rw [modify]
      unfold child
      cases Name.parse seg with
      | error e => rfl
      | ok other =>
        simp only
        by_cases hother : other = name
        · subst hother
          rw [lookup_map_modify]
          cases entries.lookup other with
          | none => rfl
          | some found => simp [Except.map]
        · rw [lookup_map_modify_ne f hother]
          cases entries.lookup other with
          | none => rfl
          | some found => simp [Except.map, hother]

/-- Changing the node at a path, seen from that path. -/
theorem at_modify (f : Node → Node) (path more : List Name) (node found : Node)
    (h : node.at path = some found) :
    (modify f node path).at (path ++ more) = (f found).at more := by
  have hpath := at_modify_append f path [] node
  rw [List.append_nil, h] at hpath
  rw [at_append, hpath]
  rfl

/-- Changing one entry leaves the others alone. -/
theorem at_modify_ne (f : Node → Node) {name other : Name} (hne : other ≠ name)
    (rest more : List Name) (node : Node) :
    (modify f node (name :: rest)).at (other :: more) = node.at (other :: more) := by
  cases node with
  | file => rfl
  | special => rfl
  | dir e s entries => rw [modify, «at», «at», lookup_map_modify_ne f hne]

/-- The tree that has `leaf` at a path and nothing else. -/
def branch (leaf : Node) : List Name → Node
  | [] => leaf
  | name :: rest => dir none none [(name, branch leaf rest)]

theorem at_branch (leaf : Node) : ∀ path more : List Name,
    (branch leaf (path ++ more)).at path = some (branch leaf more)
  | [], _ => rfl
  | name :: rest, more => by
    rw [List.cons_append, branch, «at», List.lookup_cons_self]
    exact at_branch leaf rest more

end Node

/-! ## Walking -/

/-- The entries a walk went through, the last one first. -/
abbrev Trail := List (Name × Node)

/-- Where the walk stands. -/
def Trail.current (start : Node) : Trail → Node
  | [] => start
  | (_, node) :: _ => node

/-- The path of a trail. -/
def Trail.names (trail : Trail) : List Name := (trail.map Prod.fst).reverse

/--
One segment of a path. Every segment needs a directory to stand in, and every one but the empty
needs the permission to search it. `beneath` is `RESOLVE_BENEATH`.
-/
def step (beneath : Bool) (start : Node) (trail : Trail) (seg : Bytes) : Except Errno Trail :=
  match trail.current start with
  | .dir _ searchError _ =>
    if seg = [] then .ok trail
    else if seg = [dot] ∨ seg = [dot, dot] then
      match searchError with
      | some e => .error e
      | none =>
        if seg = [dot] then .ok trail
        else
          match trail with
          | [] => if beneath then .error .xdev else .ok []
          | _ :: up => .ok up
    else ((trail.current start).child seg).map (· :: trail)
  | _ => .error .notdir

/-- The segments of a path, one after the other. -/
def walk (beneath : Bool) (start : Node) : Trail → List Bytes → Except Errno Trail
  | trail, [] => .ok trail
  | trail, seg :: rest =>
    match step beneath start trail seg with
    | .ok trail => walk beneath start trail rest
    | .error e => .error e

/-- Resolution from a directory descriptor with `RESOLVE_BENEATH`. -/
def resolveBeneath (start : Node) (path : Bytes) : Except Errno Trail :=
  if path = [] then .error .noent
  else if path.head? = some slash then .error .xdev
  else walk true start [] (segments path)

/-- The node that a path of names leads to, with the permissions on the way. -/
def descend : Node → List Bytes → Except Errno Node
  | node, [] => .ok node
  | node, seg :: rest =>
    match node.child seg with
    | .ok entry => descend entry.2 rest
    | .error e => .error e

/-- A file system as one process sees it. -/
structure FileSystem where
  root : Node
  /-- The working directory. -/
  cwd : List Name
  /-- Whether the process may create entries in a directory. -/
  writable : List Name → Bool

/-- Resolution of a path by the process. -/
def FileSystem.resolve (fs : FileSystem) (path : Bytes) : Except Errno Trail :=
  if path = [] then .error .noent
  else if 0 ∈ path then .error .inval
  else
    walk false fs.root []
      ((if isAbsolute path then [] else fs.cwd.map Name.bytes) ++ segments path)

/-- `fs::metadata`, as far as the kind of the node goes. -/
def FileSystem.metadata (fs : FileSystem) (path : Bytes) : Except Errno Node :=
  (fs.resolve path).map (Trail.current fs.root)

/-- `fs::canonicalize`. Without links the canonical path is the trail of the walk. -/
def FileSystem.canonicalize (fs : FileSystem) (path : Bytes) : Except Errno (List Name) :=
  (fs.resolve path).map Trail.names

/-! ## Walks without `..` -/

section

variable {beneath : Bool} {start start' : Node} {trail trail' : Trail} {seg : Bytes}

theorem step_name (h0 : seg ≠ []) (h1 : seg ≠ [dot]) (h2 : seg ≠ [dot, dot]) :
    step beneath start trail seg = ((trail.current start).child seg).map (· :: trail) := by
  unfold step
  cases hc : trail.current start with
  | dir e s entries =>
    simp only
    rw [if_neg h0, if_neg (by simp [h1, h2])]
  | file e r content => simp [Node.child, Except.map]
  | special e => simp [Node.child, Except.map]

theorem step_name_ne_nil (hname : IsName seg) (h : step beneath start trail seg = .ok trail') :
    trail' ≠ [] := by
  rw [step_name hname.1 hname.2.2.1 hname.2.2.2] at h
  cases hc : (trail.current start).child seg with
  | error e => rw [hc] at h; cases h
  | ok entry => rw [hc] at h; cases h; simp

/-- A step either stays or goes to one more entry. -/
theorem step_cases (h2 : seg ≠ [dot, dot]) (h : step beneath start trail seg = .ok trail') :
    (trail' = trail ∧ (seg = [] ∨ seg = [dot])) ∨
    (seg ≠ [] ∧ seg ≠ [dot] ∧ ∃ name node, name.bytes = seg ∧ trail' = (name, node) :: trail) := by
  by_cases h0 : seg = []
  · subst h0
    unfold step at h
    split at h
    · simp only [if_true, Except.ok.injEq] at h
      exact Or.inl ⟨h.symm, Or.inl rfl⟩
    · simp at h
  by_cases h1 : seg = [dot]
  · subst h1
    unfold step at h
    split at h
    · rw [if_neg (by simp), if_pos (Or.inl rfl)] at h
      split at h
      · simp at h
      · simp only [if_true, Except.ok.injEq] at h
        exact Or.inl ⟨h.symm, Or.inr rfl⟩
    · simp at h
  · rw [step_name h0 h1 h2] at h
    cases hc : (trail.current start).child seg with
    | error e => rw [hc] at h; cases h
    | ok entry =>
      rw [hc] at h
      cases h
      exact Or.inr ⟨h0, h1, entry.1, entry.2, (Node.child_eq_ok hc).1, rfl⟩

/-- A step inside the tree does not look at where the walk started. -/
theorem step_congr (ht : trail ≠ []) :
    step beneath start trail seg = step beneath start' trail seg := by
  cases trail with
  | nil => exact absurd rfl ht
  | cons entry up => rfl

theorem step_ne_nil (ht : trail ≠ []) (h2 : seg ≠ [dot, dot])
    (h : step beneath start trail seg = .ok trail') : trail' ≠ [] := by
  rcases step_cases h2 h with ⟨rfl, -⟩ | ⟨-, -, name, node, -, rfl⟩
  · exact ht
  · simp

/-- Below its first entry a walk without `..` does not depend on the tree around it. -/
theorem walk_congr : ∀ (segs : List Bytes) (trail : Trail), trail ≠ [] → [dot, dot] ∉ segs →
    walk beneath start trail segs = walk beneath start' trail segs
  | [], _, _, _ => rfl
  | seg :: rest, trail, ht, h => by
    rw [List.mem_cons, not_or] at h
    have h2 : seg ≠ [dot, dot] := Ne.symm h.1
    have hstep : step beneath start trail seg = step beneath start' trail seg := step_congr ht
    unfold walk
    rw [hstep]
    cases hs : step beneath start' trail seg with
    | error e => rfl
    | ok next => exact walk_congr rest next (step_ne_nil ht h2 hs) h.2

theorem walk_ne_nil : ∀ (segs : List Bytes) (trail : Trail), trail ≠ [] → [dot, dot] ∉ segs →
    walk beneath start trail segs = .ok trail' → trail' ≠ []
  | [], trail, ht, _, h => by
    rw [walk, Except.ok.injEq] at h
    rwa [← h]
  | seg :: rest, trail, ht, hd, h => by
    rw [List.mem_cons, not_or] at hd
    unfold walk at h
    split at h
    · next next hs =>
      exact walk_ne_nil rest next (step_ne_nil ht (Ne.symm hd.1) hs) hd.2 h
    · simp at h

/-- A path that begins with a name is resolved inside the entry of that name. -/
theorem resolveBeneath_congr {path name : Bytes} {more : List Bytes}
    (hseg : segments path = name :: more) (hname : IsName name) (hdd : [dot, dot] ∉ more)
    (hchild : start.child name = start'.child name) :
    resolveBeneath start path = resolveBeneath start' path := by
  have hstep : step true start [] name = step true start' [] name := by
    rw [step_name hname.1 hname.2.2.1 hname.2.2.2, step_name hname.1 hname.2.2.1 hname.2.2.2]
    exact congrArg _ hchild
  have hwalk : walk true start [] (name :: more) = walk true start' [] (name :: more) := by
    unfold walk
    rw [hstep]
    cases hs : step true start' [] name with
    | error e => rfl
    | ok trail =>
      refine walk_congr more trail ?_ hdd
      exact step_name_ne_nil hname hs
  unfold resolveBeneath
  rw [hseg, hwalk]

/-- Where a walk of names ends. -/
theorem walk_eq_descend : ∀ (segs : List Bytes) (trail : Trail), (∀ seg ∈ segs, IsName seg) →
    (walk beneath start trail segs).map (Trail.current start) = descend (trail.current start) segs
  | [], _, _ => rfl
  | seg :: rest, trail, h => by
    rw [List.forall_mem_cons] at h
    unfold walk descend
    rw [step_name h.1.1 h.1.2.2.1 h.1.2.2.2]
    cases (trail.current start).child seg with
    | error e => rfl
    | ok entry => exact walk_eq_descend rest (entry :: trail) h.2

/-- What is found under a path of names is at this path. -/
theorem at_of_descend {found : Node} : ∀ (path : List Name) (node : Node),
    descend node (path.map Name.bytes) = .ok found → node.at path = some found
  | [], _, h => congrArg some (Except.ok.inj h)
  | first :: rest, node, h => by
    rw [List.map_cons, descend] at h
    split at h
    · next entry hchild =>
      obtain ⟨key, next⟩ := entry
      obtain ⟨hkey, hnext⟩ := Node.child_eq_ok hchild
      obtain rfl : key = first := Name.ext hkey
      rw [← List.singleton_append, Node.at_append, hnext]
      exact at_of_descend rest next h
    · exact nomatch h

/-- What a path of names resolves to. -/
theorem resolveBeneath_eq_descend {path : Bytes} (h : ∀ seg ∈ segments path, IsName seg) :
    (resolveBeneath start path).map (Trail.current start) = descend start (segments path) := by
  have hne : path ≠ [] := by
    rintro rfl
    exact (h [] (by decide)).1 rfl
  have hhead : path.head? ≠ some slash := by
    intro hslash
    cases path with
    | nil => exact nomatch hslash
    | cons b rest =>
      obtain rfl := Option.some.inj hslash
      refine (h [] ?_).1 rfl
      unfold segments
      rw [List.splitOn_eq_splitOnP, List.splitOnP_cons_eq_if_modifyHead]
      simp
  unfold resolveBeneath
  rw [if_neg hne, if_neg hhead, walk_eq_descend _ _ h]
  rfl

/-- The trail of such a path has an entry. -/
theorem resolveBeneath_ne_nil {path name : Bytes} {more : List Bytes}
    (hseg : segments path = name :: more) (hname : IsName name) (hdd : [dot, dot] ∉ more)
    (h : resolveBeneath start path = .ok trail) : trail ≠ [] := by
  unfold resolveBeneath at h
  split at h
  · simp at h
  · split at h
    · simp at h
    · rw [hseg, walk] at h
      split at h
      · next next hs => exact walk_ne_nil more next (step_name_ne_nil hname hs) hdd h
      · simp at h

/-- The names of a walk without `..` are the pieces of the path that are names. -/
theorem names_walk : ∀ (segs : List Bytes) (trail trail' : Trail), [dot, dot] ∉ segs →
    walk beneath start trail segs = .ok trail' →
    trail'.names.map Name.bytes = trail.names.map Name.bytes
      ++ segs.filter fun seg => decide (seg ≠ [] ∧ seg ≠ [dot])
  | [], trail, trail', _, h => by
    rw [walk, Except.ok.injEq] at h
    subst h
    simp
  | seg :: rest, trail, trail', hd, h => by
    rw [List.mem_cons, not_or] at hd
    unfold walk at h
    split at h
    · next next hs =>
      rw [names_walk rest next trail' hd.2 h]
      rcases step_cases (Ne.symm hd.1) hs with ⟨rfl, h0⟩ | ⟨h0, h1, name, node, rfl, rfl⟩
      · rw [List.filter_cons, if_neg (by rcases h0 with rfl | rfl <;> simp)]
      · rw [List.filter_cons, if_pos (by simp [h0, h1])]
        simp [Trail.names]
    · simp at h

/-- A walk along names that are there. -/
theorem walk_branch (leaf : Node) : ∀ (path : List Name) (trail : Trail),
    trail.current start = Node.branch leaf path →
    ∃ trail', walk beneath start trail (path.map Name.bytes) = .ok trail' ∧
      trail'.names = trail.names ++ path
  | [], trail, _ => ⟨trail, rfl, by simp⟩
  | name :: rest, trail, h => by
    have hn := name.isName
    have hchild : (trail.current start).child name.bytes
        = .ok (name, Node.branch leaf rest) := by
      rw [h, Node.branch]
      exact Node.child_dir (by simp)
    obtain ⟨trail', hw, hnames⟩ :=
      walk_branch leaf rest ((name, Node.branch leaf rest) :: trail) rfl
    refine ⟨trail', ?_, ?_⟩
    · rw [List.map_cons, walk, step_name hn.1 hn.2.2.1 hn.2.2.2, hchild]
      exact hw
    · rw [hnames]
      simp [Trail.names]

end

end Infra
