import EngramMcp.Infra.Lowercase
import EngramMcp.Kb.Config
import EngramMcp.Kb.Document
import EngramMcp.Kb.Inbox

/-!
# A knowledge base

Concrete crates and a small file system. The walker and the YAML functions do on it what the real
ones do: hidden files are skipped, an unreadable directory is an error, plain scalars are written
without quotes.
-/

namespace EngramMcp.Sample

open Infra

/-! ## Crates -/

/-- The walk below a directory, at most `depth` directories deep. -/
def walk : Nat → List Name → Node → List (Except String WalkEntry)
  | 0, _, _ => []
  | _ + 1, path, .file .. => [.ok ⟨path, true⟩]
  | _ + 1, path, .special _ => [.ok ⟨path, false⟩]
  | _ + 1, path, .dir (some _) _ _ => [.ok ⟨path, false⟩, .error "Permission denied (os error 13)"]
  | depth + 1, path, .dir none _ entries =>
    .ok ⟨path, false⟩ :: entries.flatMap fun entry =>
      if entry.1.bytes.head? = some dot then [] else walk depth (path ++ [entry.1]) entry.2

/-- The value of a key in a block of plain scalars. -/
def plainValue (key : String) (block : List String) : Option String :=
  block.findSome? fun line => stripPrefix (key ++ ": ") line

/-- `serde_yaml::from_str` on a block of plain scalars. -/
def readPlain (block : String) : Option FrontMatter :=
  some ⟨plainValue "title" (lines block), plainValue "description" (lines block),
    plainValue "updated" (lines block)⟩

/-- `serde_yaml::to_string` on plain scalars. -/
def writePlain (note : NoteFrontMatter) : Option String :=
  some ("title: " ++ note.title ++ "\ncreated: " ++ note.created ++ "\n" ++
    (match note.occurred with
      | some occurred => "occurred: " ++ occurred ++ "\n"
      | none => "") ++
    "source: " ++ note.source ++ "\nfingerprint: " ++ note.fingerprint ++ "\n")

/-- The crates of the read side, on ASCII text. -/
def kbCrates : KbCrates where
  walk := walk 16 []
  frontMatter := readPlain
  toLowercase s := String.ofList (s.toList.map toAsciiLowercase)

/-- The lower case of ASCII and of the Greek capital letters. -/
def lowerGreek (c : Char) : Char :=
  if c.toNat < 0x80 then toAsciiLowercase c
  else if 0x391 ≤ c.toNat ∧ c.toNat ≤ 0x3A9 ∧ c.toNat ≠ 0x3A2 then Char.ofNat (c.toNat + 0x20)
  else c

/-- The characters of ASCII that are `Case_Ignorable`. -/
def asciiCaseIgnorable : List Char := [Char.ofNat 0x27, '.', ':', '^', Char.ofNat 0x60]

theorem eq_newline_of_lowerGreek {c : Char} (h : lowerGreek c = '\n') : c = '\n' := by
  have hascii : ∀ n < 0x80, toAsciiLowercase (Char.ofNat n) = '\n' → Char.ofNat n = '\n' := by
    decide +kernel
  have hgreek : ∀ n < 0x1A, Char.ofNat (0x391 + n + 0x20) ≠ '\n' := by decide +kernel
  unfold lowerGreek at h
  split at h
  · next hc =>
    rw [← Char.ofNat_toNat c] at h ⊢
    exact hascii _ hc h
  · split at h
    · next hc =>
      have hne := hgreek (c.toNat - 0x391) (by omega)
      rw [show 0x391 + (c.toNat - 0x391) = c.toNat by omega] at hne
      exact absurd h hne
    · exact h

/-- The tables of ASCII and of the Greek letters. -/
def caseTables : CaseTables where
  lower c := [lowerGreek c]
  cased c := c.isAlpha || (0x391 ≤ c.toNat && c.toNat ≤ 0x3C9)
  caseIgnorable c := decide (c ∈ asciiCaseIgnorable)
  lower_ascii h := by rw [lowerGreek, if_pos h]
  lower_caseIgnorable {c} h := by
    have hall : asciiCaseIgnorable.all (fun c => decide ([lowerGreek c] = [c])) = true := by
      decide +kernel
    exact of_decide_eq_true (List.all_eq_true.mp hall c (of_decide_eq_true h))
  eq_newline_of_mem h := eq_newline_of_lowerGreek (List.mem_singleton.mp h).symm
  sigma := by decide
  letter := by decide
  newline := by decide
  ellipsis := by decide

/-- The crates of the read side, on ASCII and Greek text. -/
def greekCrates : KbCrates := { kbCrates with toLowercase := caseTables.toLowercase }

example : caseTables.toLowercase "ΟΔΟΣ Σ. Α.Σ!" = "οδος σ. α.ς!" := by decide +kernel

/-- A plain `https` URL: its host and its path. -/
def parseHttps (value : String) : Option (String × String) :=
  (stripPrefix "https://" value).map fun rest =>
    let host := rest.toList.takeWhile (· != '/')
    let path := rest.toList.dropWhile (· != '/')
    (String.ofList host, if path = [] then "/" else String.ofList path)

/-- The crates of the configuration, on plain `https` URLs and an address that is not looked at. -/
def configCrates : ConfigCrates where
  Url := String × String
  Origin := String
  SocketAddr := String
  parseUrl := parseHttps
  scheme _ := "https"
  hostStr u := some u.1
  path u := u.2
  query _ := none
  fragment _ := none
  origin u := u.1
  parseSocketAddr := some

/-! ## A file system -/

/-- A file name as an entry name. -/
def name (s : String) (h : IsName (utf8 s) := by decide +kernel)
    (hlen : (utf8 s).length ≤ 255 := by decide +kernel) (hnul : 0 ∉ utf8 s := by decide +kernel) :
    Name :=
  ⟨utf8 s, h, hlen, hnul⟩

/-- The directories of the knowledge base, and the document in it. -/
def kbDir : Name := name "kb"

def projectsDir : Name := name "20_projects"

def inboxDir : Name := name "99_inbox"

def techDir : Name := name "10_tech"

def rustDocument : Name := name "rust.md"

/-- A readable file. -/
def file (text : String) : Node := .file none none (utf8 text)

/-- A readable directory. -/
def dir (entries : List (Name × Node)) : Node := .dir none none entries

/-- The entries of a knowledge base with one public document. -/
def publicEntries : List (Name × Node) :=
  [(name "INDEX.md", file "# KB Index\n"),
    (techDir, dir [(rustDocument, file "---\ntitle: Rust\n---\n\nOwned data.\n")])]

/-- A knowledge base with nothing else. -/
def publicKb : Node := dir publicEntries

/-- The same with a private directory that cannot be listed. -/
def privateKb : Node :=
  dir (publicEntries ++
    [(name "90_private", .dir (some (.other 13)) none [(name "diary.md", file "Private note\n")])])

/-- A knowledge base with a public and a private document about Rust. -/
def scopedKb : Node :=
  dir (publicEntries ++ [(name "90_private", dir [(name "diary.md",
    file "---\ntitle: Rust diary\n---\n\nPrivate data.\n")])])

/-- A knowledge base with two empty directories. -/
def emptyKb : Node := dir [(projectsDir, dir []), (inboxDir, dir [])]

/-- A file system that has a knowledge base at `/kb`. -/
def fileSystem (kb : Node) : FileSystem := ⟨dir [(kbDir, kb)], [], fun _ => true⟩

/-- The scope directories a server has when none are configured. -/
def scopeDirectories : ScopeDirectories where
  «public» := .collect defaultKbPublicDirs
  «private» := .collect defaultKbPrivateDirs
  public_ne := by decide +kernel
  private_ne := by decide +kernel
  public_safe := List.all_eq_true.mp (by decide +kernel)
  private_safe := List.all_eq_true.mp (by decide +kernel)
  disjoint d hd := of_decide_eq_true (List.all_eq_true.mp
    (show (BTreeSet.collect defaultKbPublicDirs).toList.all
      (fun d => decide (d ∉ BTreeSet.collect defaultKbPrivateDirs)) = true by decide +kernel) d hd)
  inbox_not_mem := by decide +kernel

/-- The store of a server with the default settings. -/
def store : DocumentStore := ⟨[kbDir], scopeDirectories, 65536, 1048576⟩

/-- The inbox of a server with the default settings. -/
def inbox (root : List Name) : InboxStore := ⟨root, 32768, 8388608⟩

/-- A note, and the directory that held nothing before it. -/
def append (root : List Name) : Except InboxError CreatedNote × Node :=
  (inbox root).createNote writePlain .none (dir []) "Rust" "x" none "0a1b" 1786592700000000000

/-- The file name of the note. -/
def note : Name := name "2026-08-13-034500-rust.md"

theorem append_eq_ok (root : List Name) : (append root).1
    = .ok ⟨inboxIdPrefix ++ "/2026-08-13-034500-rust.md", 95, "2026-08-13T03:45:00Z"⟩ := by
  have h : (append []).1
      = .ok ⟨inboxIdPrefix ++ "/2026-08-13-034500-rust.md", 95, "2026-08-13T03:45:00Z"⟩ := by
    decide +kernel
  have hroot : (inbox root).createNote writePlain = (inbox []).createNote writePlain :=
    InboxStore.createNote_congr rfl rfl
  rw [← h, append, append, hroot]

/-- The variables of a server whose inbox is the given directory. -/
def lookup (inboxRoot : String) : Lookup := fun key =>
  [("KB_ROOT", "/kb"), ("KB_KEY_A", "tech-key"), ("KB_KEY_B", "private-key"),
    ("MCP_ALLOWED_HOSTS", "engram.example.test"),
    ("OAUTH_ISSUER", "https://engram.example.test"),
    ("OAUTH_RESOURCE", "https://engram.example.test/mcp"),
    ("OAUTH_OWNER_SECRET", "owner-secret-for-config-test"),
    ("OAUTH_SIGNING_KEY", "signing-key-for-config-test-with-sufficient-length"),
    ("OAUTH_STATE_DIR", "/state"), ("INBOX_ROOT", inboxRoot)].lookup key

end EngramMcp.Sample
