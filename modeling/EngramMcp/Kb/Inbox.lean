import EngramMcp.Infra.FileSystem
import EngramMcp.Kb.Scope
import EngramMcp.OAuth.Scope

/-!
# The inbox

`inbox.rs`, the only writable surface of the server: a note becomes one new file in one
directory, under a name that the server makes up from the clock and the title.

Integers are the source's fixed-width ones and wrap as a release build does. A call works on the
directory behind its descriptor. `Faults` says which of its file-system steps fail.

* `created_of_createNote` — what a successful call leaves behind
-/

namespace EngramMcp

open Infra

/-- `InboxError`. -/
inductive InboxError
  | invalidTitle
  | invalidBody
  | invalidOccurred
  | noteTooLarge
  | quotaExceeded
  | nameExhausted
  | unavailable
  | invalidFileName
  | io (source : Errno)
  deriving DecidableEq, Repr

/-- `CreatedNote`. -/
structure CreatedNote where
  id : String
  bytes : Nat
  created : String
  deriving DecidableEq

/-- `InboxStore`. -/
structure InboxStore where
  /-- The canonical root, as a path of names. -/
  root : List Name
  maxNoteBytes : Nat
  maxTotalBytes : Nat
  deriving DecidableEq

/-- `NoteFrontMatter`. -/
structure NoteFrontMatter where
  title : String
  created : String
  occurred : Option String
  source : String
  fingerprint : String

/-- `serde_yaml::to_string` on a front matter. -/
abbrev FrontMatterWriter := NoteFrontMatter → Option String

/-- `MAX_TITLE_CHARS`. -/
def maxTitleChars : Nat := 200

/-- `MAX_SLUG_CHARS`. -/
def maxSlugChars : Nat := 40

/-- `FALLBACK_SLUG`. -/
def fallbackSlug : String := "note"

/-- `MAX_NAME_ATTEMPTS`. -/
def maxNameAttempts : Nat := 64

/-- `NOTE_SOURCE`. -/
def noteSource : String := "mcp:append_note"

/-! ## Input -/

/-- `char::is_control`, the Unicode category `Cc`. -/
def isControl (c : Char) : Bool := c.toNat < 0x20 || (0x7F ≤ c.toNat && c.toNat ≤ 0x9F)

/-- `normalize_title`. -/
def normalizeTitle (title : String) : Except InboxError String :=
  let title := trim title
  if title = "" ∨ maxTitleChars < title.length then .error .invalidTitle
  else if title.toList.any isControl then .error .invalidTitle
  else .ok title

/-- `validate_body`. -/
def validateBody (body : String) (maxNoteBytes : Nat) : Except InboxError Unit :=
  if trim body = "" ∨ '\x00' ∈ body.toList then .error .invalidBody
  else if maxNoteBytes < body.utf8ByteSize then .error .noteTooLarge
  else .ok ()

/-- `u8::is_ascii_digit`. -/
def isAsciiDigit (b : UInt8) : Bool := 0x30 ≤ b && b ≤ 0x39

/-- The number that two digits write. -/
def twoDigits (a b : UInt8) : Nat := 10 * (a.toNat - 0x30) + (b.toNat - 0x30)

/-- `validate_occurred`: ten bytes of the form `YYYY-MM-DD`. -/
def validateOccurred (value : String) : Except InboxError String :=
  match utf8 value with
  | [y0, y1, y2, y3, h0, m0, m1, h1, d0, d1] =>
    if h0 = ascii '-' ∧ h1 = ascii '-' ∧ [y0, y1, y2, y3, m0, m1, d0, d1].all isAsciiDigit then
      let month := twoDigits m0 m1
      let day := twoDigits d0 d1
      if (1 ≤ month ∧ month ≤ 12) ∧ (1 ≤ day ∧ day ≤ 31) then .ok value
      else .error .invalidOccurred
    else .error .invalidOccurred
  | _ => .error .invalidOccurred

/-! ## The calendar -/

/-- `unix_seconds`, of a clock reading in nanoseconds from the epoch. -/
def unixSeconds (now : Int) : Int64 :=
  if 0 ≤ now then Int64.ofInt (min (now / 10 ^ 9) (2 ^ 63 - 1))
  else -Int64.ofInt (min (-now / 10 ^ 9) (2 ^ 63 - 1))

/-- `civil_from_days`. -/
def civilFromDays (days : Int64) : Int64 × UInt32 × UInt32 :=
  let shifted := days + 719468
  let era := (if 0 ≤ shifted then shifted else shifted - 146096) / 146097
  let dayOfEra := (shifted - era * 146097).toUInt64
  let yearOfEra :=
    (dayOfEra - dayOfEra / 1460 + dayOfEra / 36524 - dayOfEra / 146096) / 365
  let year := yearOfEra.toInt64 + era * 400
  let dayOfYear := dayOfEra - (365 * yearOfEra + yearOfEra / 4 - yearOfEra / 100)
  let shiftedMonth := (5 * dayOfYear + 2) / 153
  let day := (dayOfYear - (153 * shiftedMonth + 2) / 5 + 1).toUInt32
  let month := (if shiftedMonth < 10 then shiftedMonth + 3 else shiftedMonth - 9).toUInt32
  (if month ≤ 2 then year + 1 else year, month, day)

/-- `utc_parts`: year, month, day, hour, minute and second. -/
def utcParts (seconds : Int64) : Int64 × UInt32 × UInt32 × UInt32 × UInt32 × UInt32 :=
  let days := Int64.ofInt (seconds.toInt / 86400)
  let timeOfDay := Int64.ofInt (seconds.toInt % 86400)
  let (year, month, day) := civilFromDays days
  (year, month, day, (timeOfDay / 3600).toInt32.toUInt32, (timeOfDay / 60 % 60).toInt32.toUInt32,
    (timeOfDay % 60).toInt32.toUInt32)

example : utcParts 951782400 = (2000, 2, 29, 0, 0, 0) := by decide

/-- A number with zeros in front, `{:0width}`. -/
def zeroPadded (width n : Nat) : String :=
  let digits := Nat.toDigits 10 n
  String.ofList (List.replicate (width - digits.length) '0' ++ digits)

/-- A year, `{:04}`. The sign counts towards the width. -/
def paddedYear (year : Int64) : String :=
  if year < 0 then "-" ++ zeroPadded 3 year.toInt.natAbs else zeroPadded 4 year.toInt.natAbs

/-- Two digits, `{:02}`. -/
def padded (n : UInt32) : String := zeroPadded 2 n.toNat

/-- `rfc3339_utc`. -/
def rfc3339Utc (seconds : Int64) : String :=
  let (year, month, day, hour, minute, second) := utcParts seconds
  paddedYear year ++ "-" ++ padded month ++ "-" ++ padded day ++ "T" ++ padded hour ++ ":" ++
    padded minute ++ ":" ++ padded second ++ "Z"

/-! ## Names -/

/-- The loop of `slug` over the characters of the title. -/
def slugLoop : List Char → List Char → Bool → List Char
  | [], slug, _ => slug
  | character :: rest, slug, separator =>
    let character := toAsciiLowercase character
    if ('a' ≤ character ∧ character ≤ 'z') ∨ ('0' ≤ character ∧ character ≤ '9') then
      if maxSlugChars ≤ slug.length then slug
      else
        let slug := if separator ∧ slug ≠ [] then slug ++ ['-'] else slug
        if maxSlugChars ≤ slug.length then slug
        else slugLoop rest (slug ++ [character]) false
    else slugLoop rest slug true

/-- `slug`. -/
def slug (title : String) : String :=
  let slug := ((slugLoop title.toList [] false).reverse.dropWhile (· == '-')).reverse
  if slug = [] then fallbackSlug else String.ofList slug

example : slug "  ../../etc/passwd  " = "etc-passwd" := by decide

/-- `note_file_name`. -/
def noteFileName (seconds : Int64) (slug : String) (attempt : Nat) : String :=
  let (year, month, day, hour, minute, second) := utcParts seconds
  let suffix :=
    if attempt = 0 then "" else "-" ++ String.ofList (Nat.toDigits 10 (attempt + 1))
  paddedYear year ++ "-" ++ padded month ++ "-" ++ padded day ++ "-" ++ padded hour ++
    padded minute ++ padded second ++ "-" ++ slug ++ suffix ++ ".md"

/-- The bytes that a note name is made of. -/
def isNameByte (b : UInt8) : Bool :=
  (0x61 ≤ b && b ≤ 0x7A) || isAsciiDigit b || b == ascii '-' || b == dot

/-- `is_safe_file_name`. -/
def isSafeFileName (name : String) : Bool :=
  decide (name ≠ "") && decide (name.utf8ByteSize ≤ 255) &&
    decide (name.toList.head? ≠ some '.') && (utf8 name).all isNameByte &&
    decide (".md".toList <:+ name.toList)

/-! ## Writing -/

/-- `str::trim_end_matches` on a character. -/
def trimEndMatches (c : Char) (s : String) : String :=
  String.ofList (s.toList.reverse.dropWhile (· == c)).reverse

/-- `render_note`. -/
def renderNote (toYaml : FrontMatterWriter) (title created : String) (occurred : Option String)
    (fingerprint body : String) : Except InboxError String :=
  match toYaml ⟨title, created, occurred, noteSource, fingerprint⟩ with
  | none => .error .invalidTitle
  | some frontMatter =>
    let frontMatter := trimEndMatches '\n' ((stripPrefix "---\n" frontMatter).getD frontMatter)
    if containsStr frontMatter "\n---" then .error .invalidTitle
    else
      let note := "---\n" ++ frontMatter ++ "\n---\n\n" ++ body
      .ok (if note.toList.getLast? = some '\n' then note else note ++ "\n")

/-- The errors that say what is wrong with the input. -/
def InboxError.ofInput : List InboxError :=
  [.invalidTitle, .invalidBody, .invalidOccurred, .noteTooLarge]

theorem normalizeTitle_eq_error {title : String} {e : InboxError}
    (h : normalizeTitle title = .error e) : e ∈ InboxError.ofInput := by
  unfold normalizeTitle at h
  simp only at h
  split at h
  · cases h
    decide
  · split at h
    · cases h
      decide
    · exact nomatch h

theorem validateBody_eq_error {body : String} {maxNoteBytes : Nat} {e : InboxError}
    (h : validateBody body maxNoteBytes = .error e) : e ∈ InboxError.ofInput := by
  unfold validateBody at h
  split at h
  · cases h
    decide
  · split at h
    · cases h
      decide
    · exact nomatch h

theorem validateOccurred_eq_error {value : String} {e : InboxError}
    (h : validateOccurred value = .error e) : e ∈ InboxError.ofInput := by
  have hall : e = .invalidOccurred := by
    unfold validateOccurred at h
    split at h
    · split at h
      · simp only at h
        split at h
        · exact nomatch h
        · exact (Except.error.inj h).symm
      · exact (Except.error.inj h).symm
    · exact (Except.error.inj h).symm
  rw [hall]
  decide

theorem renderNote_eq_error {toYaml : FrontMatterWriter} {title created : String}
    {occurred : Option String} {fingerprint body : String} {e : InboxError}
    (h : renderNote toYaml title created occurred fingerprint body = .error e) :
    e ∈ InboxError.ofInput := by
  unfold renderNote at h
  split at h
  · cases h
    decide
  · simp only at h
    split at h
    · cases h
      decide
    · exact nomatch h

/-- The file-system steps of a call that fail, with the error they answer. -/
structure Faults where
  scan : Option Errno
  create : Name → Option Errno
  /-- A write that stops after some bytes. -/
  write : Option (Nat × Errno)
  sync : Option Errno

/-- A call on which nothing fails. -/
def Faults.none : Faults := ⟨.none, fun _ => .none, .none, .none⟩

/-- `u64::saturating_add`, as a number. -/
def saturatingAddU64 (a b : Nat) : Nat := min (a + b) (2 ^ 64 - 1)

/-- The size that `used_bytes` counts for an entry. -/
def fileSize : Node → Nat
  | .file _ _ content => content.length
  | _ => 0

/-- `used_bytes`. -/
def usedBytes (scan : Option Errno) (dir : Node) : Except InboxError Nat :=
  match scan, dir with
  | some e, _ => .error (.io e)
  | none, .dir (some e) _ _ => .error (.io e)
  | none, .dir none searchError entries =>
    match searchError, entries with
    | some e, _ :: _ => .error (.io e)
    | _, entries =>
      .ok (entries.foldl (fun total entry => saturatingAddU64 total (fileSize entry.2)) 0)
  | none, _ => .error (.io .notdir)

/-- `create_exclusive`: the directory with a new empty file, or nothing if the name is taken. -/
def createExclusive (create : Name → Option Errno) (dir : Node) (name : String) :
    Except InboxError (Option (Name × Node)) :=
  if !isSafeFileName name then .error .invalidFileName
  else
    match dir with
    | .dir _ (some e) _ => .error (.io e)
    | .dir openError none entries =>
      match Name.parse (utf8 name) with
      | .error e => .error (.io e)
      | .ok entry =>
        if (entries.lookup entry).isSome then .ok none
        else
          match create entry with
          | some e => .error (.io e)
          | none =>
            .ok (some (entry, .dir openError none (entries ++ [(entry, .file none none [])])))
    | _ => .error (.io .notdir)

/-- The directory after `contents` was written to the new file. -/
def writeFile (dir : Node) (entry : Name) (contents : Bytes) : Node :=
  dir.modify (fun _ => .file none none contents) [entry]

/-- What is in the file after `write_all`: the contents, or what was written of them. -/
def Faults.written (faults : Faults) (contents : Bytes) : Bytes :=
  match faults.write with
  | some (count, _) => contents.take count
  | .none => contents

theorem Faults.written_prefix (faults : Faults) (contents : Bytes) :
    faults.written contents <+: contents := by
  unfold Faults.written
  split
  · exact List.take_prefix _ _
  · exact List.prefix_refl _

/-- `write_all` and `sync_all`. -/
def writeNote (faults : Faults) (dir : Node) (entry : Name) (contents : Bytes) :
    Except InboxError Unit × Node :=
  match faults.write with
  | some (written, e) => (.error (.io e), writeFile dir entry (contents.take written))
  | none =>
    match faults.sync with
    | some e => (.error (.io e), writeFile dir entry contents)
    | none => (.ok (), writeFile dir entry contents)

/-- The note is written, or the file is left with what was written of it. -/
theorem writeNote_cases (faults : Faults) (dir : Node) (entry : Name) (contents : Bytes) :
    (faults.write = none ∧ faults.sync = none ∧
      writeNote faults dir entry contents = (.ok (), writeFile dir entry contents)) ∨
    ∃ errno, ¬(faults.write = none ∧ faults.sync = none) ∧
      writeNote faults dir entry contents
        = (.error (.io errno), writeFile dir entry (faults.written contents)) := by
  unfold writeNote Faults.written
  cases hwrite : faults.write with
  | some fault => exact Or.inr ⟨fault.2, fun h => (nomatch h.1), rfl⟩
  | none =>
    cases hsync : faults.sync with
    | some errno => exact Or.inr ⟨errno, fun h => (nomatch h.2), rfl⟩
    | none => exact Or.inl ⟨rfl, rfl, rfl⟩

/-- The loop over the file names: the first that is free is taken. -/
def writeFirstFree (faults : Faults) (dir : Node) (contents : Bytes) :
    List String → Except InboxError String × Node
  | [] => (.error .nameExhausted, dir)
  | name :: rest =>
    match createExclusive faults.create dir name with
    | .error e => (.error e, dir)
    | .ok none => writeFirstFree faults dir contents rest
    | .ok (some (entry, dir')) =>
      match writeNote faults dir' entry contents with
      | (.error e, dir'') => (.error e, dir'')
      | (.ok (), dir'') => (.ok name, dir'')

theorem usedBytes_eq_error {scan : Option Errno} {dir : Node} {e : InboxError}
    (h : usedBytes scan dir = .error e) : ∃ errno, e = .io errno := by
  unfold usedBytes at h
  split at h
  · exact ⟨_, (Except.error.inj h).symm⟩
  · exact ⟨_, (Except.error.inj h).symm⟩
  · split at h
    · exact ⟨_, (Except.error.inj h).symm⟩
    · exact nomatch h
  · exact ⟨_, (Except.error.inj h).symm⟩

/-- Why `create_exclusive` fails: the name, or a system call. -/
theorem createExclusive_eq_error {create : Name → Option Errno} {dir : Node} {name : String}
    {e : InboxError} (h : createExclusive create dir name = .error e) :
    (isSafeFileName name = false ∧ e = .invalidFileName) ∨ ∃ errno, e = .io errno := by
  unfold createExclusive at h
  split at h
  · next hbad => exact Or.inl ⟨by simpa using hbad, (Except.error.inj h).symm⟩
  · right
    split at h
    · exact ⟨_, (Except.error.inj h).symm⟩
    · split at h
      · exact ⟨_, (Except.error.inj h).symm⟩
      · split at h
        · exact nomatch h
        · split at h
          · exact ⟨_, (Except.error.inj h).symm⟩
          · exact nomatch h
    · exact ⟨_, (Except.error.inj h).symm⟩

/-- What `create_exclusive` leaves behind when it made a file. -/
theorem createExclusive_eq_some {create : Name → Option Errno} {dir dir' : Node} {name : String}
    {entry : Name} (h : createExclusive create dir name = .ok (some (entry, dir'))) :
    isSafeFileName name = true ∧ entry.bytes = utf8 name ∧ dir.at [entry] = none ∧
      dir'.at [entry] = some (.file none none []) := by
  unfold createExclusive at h
  split at h
  · simp at h
  · next hsafe =>
    split at h
    · simp at h
    · next openError entries =>
      split at h
      · simp at h
      · next parsed hp =>
        split at h
        · simp at h
        · next hfree =>
          split at h
          · simp at h
          · have hnone : entries.lookup parsed = none := Option.not_isSome_iff_eq_none.mp hfree
            cases h
            refine ⟨by simpa using hsafe, Name.parse_eq_ok.mp hp, ?_, ?_⟩
            · rw [Node.at, hnone]; rfl
            · rw [Node.at, List.lookup_append, hnone, Option.none_or, List.lookup_cons_self]
              rfl
    · simp at h

/-- What the loop over the names leaves behind when it succeeds. -/
theorem writeFirstFree_eq_ok {faults : Faults} {dir dir' : Node} {contents : Bytes}
    {names : List String} {name : String}
    (h : writeFirstFree faults dir contents names = (.ok name, dir')) :
    ∃ entry : Name, entry.bytes = utf8 name ∧ name ∈ names ∧ isSafeFileName name = true ∧
      dir.at [entry] = none ∧ dir'.at [entry] = some (.file none none contents) := by
  induction names with
  | nil => simp [writeFirstFree] at h
  | cons first rest ih =>
    unfold writeFirstFree at h
    split at h
    · simp at h
    · obtain ⟨entry, he, hm, hrest⟩ := ih h
      exact ⟨entry, he, List.mem_cons_of_mem _ hm, hrest⟩
    · next entry made hmade =>
      obtain ⟨hsafe, hbytes, hfree, hnew⟩ := createExclusive_eq_some hmade
      split at h
      · simp at h
      · next written hw =>
        obtain ⟨hname, rfl⟩ := Prod.mk.inj h
        cases hname
        refine ⟨entry, hbytes, List.mem_cons_self, hsafe, hfree, ?_⟩
        unfold writeNote at hw
        split at hw
        · simp at hw
        · split at hw
          · simp at hw
          · obtain ⟨-, rfl⟩ := Prod.mk.inj hw
            have hat := Node.at_modify (fun _ => .file none none contents) [entry] [] made _ hnew
            simpa [writeFile, Node.at] using hat

namespace InboxStore

/-- Whether a directory is, or contains, the knowledge base. -/
def liesIn (fs : FileSystem) (kbRoot : Bytes) (root : List Name) : Bool :=
  match fs.canonicalize kbRoot with
  | .ok kbRoot => decide (root <+: kbRoot)
  | .error _ => false

/-- `InboxStore::open`. -/
def «open» (fs : FileSystem) (root kbRoot : Bytes) (maxNoteBytes maxTotalBytes : Nat) :
    Except InboxError InboxStore :=
  match fs.resolve root with
  | .error e => .error (.io e)
  | .ok trail =>
    if !(trail.current fs.root).isDir then .error .unavailable
    else if liesIn fs kbRoot trail.names then .error .unavailable
    else if !fs.writable trail.names then .error .unavailable
    else
      match (trail.current fs.root).openError with
      | some e => .error (.io e)
      | none => .ok ⟨trail.names, maxNoteBytes, maxTotalBytes⟩

/-- The directory behind `root_fd`. -/
def rootFd (store : InboxStore) (fs : FileSystem) : Node :=
  (fs.root.at store.root).getD (.dir none none [])

/-- What a call prepares before it touches the directory. -/
structure Prepared where
  created : String
  contents : Bytes
  names : List String

/-- The first half of `create_note`: checking the input and rendering the note. -/
def prepareNote (toYaml : FrontMatterWriter) (store : InboxStore) (title body : String)
    (occurred : Option String) (fingerprint : String) (now : Int) :
    Except InboxError Prepared := do
  let title ← normalizeTitle title
  validateBody body store.maxNoteBytes
  let occurred ← occurred.mapM validateOccurred
  let seconds := unixSeconds now
  let created := rfc3339Utc seconds
  let contents ← renderNote toYaml title created occurred fingerprint body
  .ok {
    created
    contents := utf8 contents
    names := (List.range maxNameAttempts).map (noteFileName seconds (slug title)) }

/-- A call that prepares nothing says what is wrong with its input. -/
theorem prepareNote_eq_error {toYaml : FrontMatterWriter} {store : InboxStore}
    {title body : String} {occurred : Option String} {fingerprint : String} {now : Int}
    {e : InboxError}
    (h : store.prepareNote toYaml title body occurred fingerprint now = .error e) :
    e ∈ InboxError.ofInput := by
  rcases bind_eq_error.mp h with h | ⟨title, -, h⟩
  · exact normalizeTitle_eq_error h
  rcases bind_eq_error.mp h with h | ⟨-, -, h⟩
  · exact validateBody_eq_error h
  rcases bind_eq_error.mp h with h | ⟨occurred, -, h⟩
  · cases occurred with
    | none => exact nomatch h
    | some value =>
      rcases bind_eq_error.mp h with h | ⟨_, -, h⟩
      · exact validateOccurred_eq_error h
      · exact nomatch h
  rcases bind_eq_error.mp h with h | ⟨_, -, h⟩
  · exact renderNote_eq_error h
  · exact nomatch h

/-- The second half of `create_note`: the quota and the file. -/
def storeNote (store : InboxStore) (faults : Faults) (dir : Node) (prepared : Prepared) :
    Except InboxError CreatedNote × Node :=
  match usedBytes faults.scan dir with
  | .error e => (.error e, dir)
  | .ok used =>
    if store.maxTotalBytes < saturatingAddU64 used prepared.contents.length then
      (.error .quotaExceeded, dir)
    else
      match writeFirstFree faults dir prepared.contents prepared.names with
      | (.error e, dir') => (.error e, dir')
      | (.ok name, dir') =>
        (.ok ⟨inboxIdPrefix ++ "/" ++ name, prepared.contents.length, prepared.created⟩, dir')

/-- `create_note`, with the directory it leaves behind. -/
def createNote (toYaml : FrontMatterWriter) (store : InboxStore) (faults : Faults) (dir : Node)
    (title body : String) (occurred : Option String) (fingerprint : String) (now : Int) :
    Except InboxError CreatedNote × Node :=
  match store.prepareNote toYaml title body occurred fingerprint now with
  | .error e => (.error e, dir)
  | .ok prepared => store.storeNote faults dir prepared

/-- Where the directory lies makes no difference to a call. -/
theorem createNote_congr {toYaml : FrontMatterWriter} {store store' : InboxStore}
    (hnote : store.maxNoteBytes = store'.maxNoteBytes)
    (htotal : store.maxTotalBytes = store'.maxTotalBytes) :
    store.createNote toYaml = store'.createNote toYaml := by
  funext faults dir title body occurred fingerprint now
  unfold createNote prepareNote storeNote
  rw [hnote, htotal]

/-- What an inbox that was opened is. -/
theorem open_eq_ok {fs : FileSystem} {root kbRoot : Bytes} {maxNoteBytes maxTotalBytes : Nat}
    {store : InboxStore}
    (h : InboxStore.open fs root kbRoot maxNoteBytes maxTotalBytes = .ok store) :
    liesIn fs kbRoot store.root = false ∧ store.maxNoteBytes = maxNoteBytes ∧
      store.maxTotalBytes = maxTotalBytes := by
  unfold InboxStore.open at h
  split at h
  · exact nomatch h
  · split at h
    · exact nomatch h
    · split at h
      · exact nomatch h
      · next hnot =>
        split at h
        · exact nomatch h
        · split at h
          · exact nomatch h
          · obtain rfl := Except.ok.inj h
            exact ⟨Bool.not_eq_true _ ▸ hnot, rfl, rfl⟩

/-- The knowledge base does not lie in an inbox that was opened. -/
theorem not_isPrefix_of_open {fs : FileSystem} {root kbRoot : Bytes}
    {maxNoteBytes maxTotalBytes : Nat} {store : InboxStore} {canonical : List Name}
    (h : InboxStore.open fs root kbRoot maxNoteBytes maxTotalBytes = .ok store)
    (hkb : fs.canonicalize kbRoot = .ok canonical) : ¬store.root <+: canonical := by
  have hnot := (open_eq_ok h).1
  unfold liesIn at hnot
  rw [hkb] at hnot
  exact of_decide_eq_false hnot

/-- What a successful call leaves behind: one new file, with a safe name and the whole note. -/
theorem created_of_createNote {toYaml : FrontMatterWriter} {store : InboxStore} {faults : Faults}
    {dir dir' : Node} {title body : String} {occurred : Option String} {fingerprint : String}
    {now : Int} {note : CreatedNote}
    (h : store.createNote toYaml faults dir title body occurred fingerprint now
      = (.ok note, dir')) :
    ∃ (name : String) (entry : Name) (contents : Bytes), note.id = inboxIdPrefix ++ "/" ++ name ∧
      note.bytes = contents.length ∧ entry.bytes = utf8 name ∧ isSafeFileName name = true ∧
      dir.at [entry] = none ∧ dir'.at [entry] = some (.file none none contents) := by
  unfold createNote at h
  split at h
  · simp at h
  · next prepared _ =>
    unfold storeNote at h
    split at h
    · simp at h
    · split at h
      · simp at h
      · split at h
        · simp at h
        · next name _ hw =>
          obtain ⟨hnote, rfl⟩ := Prod.mk.inj h
          cases hnote
          obtain ⟨entry, hbytes, -, hsafe, hfree, hnew⟩ := writeFirstFree_eq_ok hw
          exact ⟨name, entry, prepared.contents, rfl, rfl, hbytes, hsafe, hfree, hnew⟩

end InboxStore

end EngramMcp
