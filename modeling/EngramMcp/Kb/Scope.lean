import EngramMcp.Infra.BTreeSet
import EngramMcp.Infra.UnixPath

/-!
# Scope directories

`ScopeDirectories` of `config.rs`: which top-level directories of the knowledge base each scope
may read. A value can only be built through `new`, so its checks are fields here.

* `isName_of_isSafe` — a safe directory name is one name of the file system
-/

namespace EngramMcp

open Infra

/-- `ConfigError`. -/
inductive ConfigError
  | missing (key : String)
  | empty (key : String)
  | invalidKbRoot
  | duplicateKeys
  | invalidScopeDirectories (key : String)
  | overlappingScopeDirectories
  | inboxDirectoryInScope
  | invalidBindAddress
  | invalidInteger (key : String)
  | outOfRange (key : String)
  | missingAllowedHosts
  | invalidOAuthIssuer
  | invalidOAuthResource
  | weakSecret (key : String)
  | invalidOAuthStateDir
  | invalidInboxRoot
  deriving DecidableEq, Repr

/-- `INBOX_ID_PREFIX`. -/
def inboxIdPrefix : String := "99_inbox"

/-- `is_safe_top_level_directory`. -/
def isSafeTopLevelDirectory (value : String) : Bool :=
  if value = "" ∨ 128 < value.utf8ByteSize ∨ value.toList.head? = some '.' ∨
      value.toList.any (fun c => ['/', '\\', '\x00', ':'].contains c) then
    false
  else
    (match (components (utf8 value)).head? with
      | some (.normal _) => true
      | _ => false) && (components (utf8 value)).length == 1

theorem isSafeTopLevelDirectory_iff {value : String} :
    isSafeTopLevelDirectory value = true ↔ value ≠ "" ∧ value.utf8ByteSize ≤ 128 ∧
      value.toList.head? ≠ some '.' ∧ ∀ c ∈ value.toList, c ∉ ['/', '\\', '\x00', ':'] := by
  have hany : ¬value.toList.any (fun c => ['/', '\\', '\x00', ':'].contains c) = true ↔
      ∀ c ∈ value.toList, c ∉ ['/', '\\', '\x00', ':'] := by
    simp only [List.any_eq_true, List.contains_iff_mem, not_exists, not_and]
  unfold isSafeTopLevelDirectory
  constructor
  · intro h
    split at h
    · simp at h
    · next hn =>
      rw [not_or, not_or, not_or, not_lt, hany] at hn
      exact hn
  · rintro ⟨h0, hlen, hdot, hmem⟩
    rw [if_neg (by rw [not_or, not_or, not_or, not_lt, hany]; exact ⟨h0, hlen, hdot, hmem⟩)]
    rw [components_name (isName_utf8 h0 hdot fun hc => hmem '/' hc (by decide))]
    rfl

/-- A safe directory name is one name of the file system. -/
theorem isName_of_isSafe {value : String} (h : isSafeTopLevelDirectory value = true) :
    IsName (utf8 value) := by
  obtain ⟨h0, -, hdot, hmem⟩ := isSafeTopLevelDirectory_iff.mp h
  exact isName_utf8 h0 hdot fun hc => hmem '/' hc (by decide)

/-- `ScopeDirectories`, with what `ScopeDirectories::new` checks. -/
structure ScopeDirectories where
  «public» : BTreeSet String
  «private» : BTreeSet String
  public_ne : «public».isEmpty = false
  private_ne : «private».isEmpty = false
  public_safe : ∀ d ∈ «public».toList, isSafeTopLevelDirectory d = true
  private_safe : ∀ d ∈ «private».toList, isSafeTopLevelDirectory d = true
  disjoint : ∀ d ∈ «public».toList, d ∉ «private»
  inbox_not_mem : inboxIdPrefix ∉ «public» ∧ inboxIdPrefix ∉ «private»
  deriving DecidableEq

namespace ScopeDirectories

/-- `ScopeDirectories::new`. -/
def new («public» «private» : BTreeSet String) : Except ConfigError ScopeDirectories :=
  if h1 : «public».isEmpty = true ∨
      «public».toList.any (fun d => !isSafeTopLevelDirectory d) = true then
    .error (.invalidScopeDirectories "KB_PUBLIC_DIRS")
  else if h2 : «private».isEmpty = true ∨
      «private».toList.any (fun d => !isSafeTopLevelDirectory d) = true then
    .error (.invalidScopeDirectories "KB_PRIVATE_DIRS")
  else if h3 : «public».toList.any (fun d => decide (d ∈ «private»)) = true then
    .error .overlappingScopeDirectories
  else if h4 : inboxIdPrefix ∈ «public» ∨ inboxIdPrefix ∈ «private» then
    .error .inboxDirectoryInScope
  else
    .ok {
      «public» := «public»
      «private» := «private»
      public_ne := by rw [not_or] at h1; simpa using h1.1
      private_ne := by rw [not_or] at h2; simpa using h2.1
      public_safe := by rw [not_or] at h1; simpa using h1.2
      private_safe := by rw [not_or] at h2; simpa using h2.2
      disjoint := by simpa using h3
      inbox_not_mem := not_or.mp h4 }

/-- `allows_public`. -/
def allowsPublic (dirs : ScopeDirectories) (directory : String) : Bool :=
  decide (directory ∈ dirs.public)

/-- `allows_private`. -/
def allowsPrivate (dirs : ScopeDirectories) (directory : String) : Bool :=
  decide (directory ∈ dirs.private)

end ScopeDirectories

end EngramMcp
