import EngramMcp.Infra.FileSystem
import EngramMcp.Kb.Scope
import EngramMcp.OAuth.Signing

/-!
# Configuration

`Config::from_lookup` of `config.rs`: the settings, read from named variables in a fixed order.
The first variable that is missing, malformed or out of range decides the error.

* `mem_range_of_parseInRange` — a number that was accepted lies in its range
* `parts_of_fromLookup` — the OAuth part and the inbox part of an accepted configuration
-/

namespace EngramMcp

open Infra

/-- The `url` crate and the address parser, as far as the configuration uses them. -/
structure ConfigCrates where
  Url : Type
  Origin : Type
  [originDecidableEq : DecidableEq Origin]
  SocketAddr : Type
  parseUrl : String → Option Url
  scheme : Url → String
  hostStr : Url → Option String
  path : Url → String
  query : Url → Option String
  fragment : Url → Option String
  origin : Url → Origin
  parseSocketAddr : String → Option SocketAddr

attribute [instance] ConfigCrates.originDecidableEq

/-- The variables, by name. -/
abbrev Lookup := String → Option String

/-- `OAuthConfig`. -/
structure OAuthConfig where
  issuer : String
  resource : String
  ownerSecret : String
  signingKey : String
  accessTokenTtlSeconds : UInt64
  authorizationCodeTtlSeconds : UInt64
  refreshStateDir : Bytes
  refreshTokenTtlSeconds : UInt64

/-- The settings that `OAuthBearerAuthenticator::new` copies from the configuration. -/
def OAuthConfig.settings (config : OAuthConfig) : OAuthSettings where
  issuer := config.issuer
  resource := config.resource
  ownerSecret := utf8 config.ownerSecret
  signingKey := utf8 config.signingKey
  accessTokenTtlSeconds := config.accessTokenTtlSeconds
  authorizationCodeTtlSeconds := config.authorizationCodeTtlSeconds
  refreshTokenTtlSeconds := config.refreshTokenTtlSeconds

/-- `InboxConfig`. -/
structure InboxConfig where
  root : Bytes
  writesPerHour : Nat
  maxNoteBytes : Nat
  maxTotalBytes : Nat

/-- `Config`. -/
structure Config (C : ConfigCrates) where
  kbRoot : Bytes
  scopeDirectories : ScopeDirectories
  keyA : String
  keyB : String
  bindAddr : C.SocketAddr
  allowedHosts : BTreeSet String
  allowedOrigins : BTreeSet String
  maxReadBytes : Nat
  maxSearchResponseBytes : Nat
  maxSearchFileBytes : Nat
  rateLimitPerMinute : Nat
  rateLimitBurst : Nat
  oauth : OAuthConfig
  inbox : Option InboxConfig

/-! ## Reading variables -/

/-- `required`. -/
def required (lookup : Lookup) (key : String) : Except ConfigError String :=
  match lookup key with
  | some value => if trim value ≠ "" then .ok value else .error (.empty key)
  | none => .error (.missing key)

/-- `optional`. -/
def optional (lookup : Lookup) (key : String) : Option String :=
  (lookup key).filter fun value => trim value ≠ ""

/-- `parse_set`. -/
def parseSet (value : String) : BTreeSet String :=
  .collect (((splitOnChar ',' value).map trim).filter (· ≠ ""))

/-- The loop of `parse_directory_set`: the first name that is not safe ends it. -/
def checkDirectories (key : String) : List String → Except ConfigError Unit
  | [] => .ok ()
  | directory :: rest =>
    if !isSafeTopLevelDirectory directory then .error (.invalidScopeDirectories key)
    else checkDirectories key rest

/-- `parse_directory_set`. -/
def parseDirectorySet (lookup : Lookup) (key : String) (default : List String) :
    Except ConfigError (BTreeSet String) :=
  let value := (optional lookup key).getD (",".intercalate default)
  let directories := (splitOnChar ',' value).map trim
  match checkDirectories key directories with
  | .error e => .error e
  | .ok () =>
    if directories = [] then .error (.invalidScopeDirectories key) else .ok (.collect directories)

/-- `str::parse` at an unsigned type with the given number of values. -/
def parseUnsigned (bound : Nat) (s : String) : Option Nat :=
  let digits := if s.toList.head? = some '+' then s.toList.drop 1 else s.toList
  if digits ≠ [] ∧ digits.all Char.isDigit then
    let value := digits.foldl (fun n c => 10 * n + (c.toNat - '0'.toNat)) 0
    if value < bound then some value else none
  else none

/-- `parse_usize`, `parse_u32` and `parse_u64`, which differ in the number of values. -/
def parseInRange (bound : Nat) (lookup : Lookup) (key : String) (default min max : Nat) :
    Except ConfigError Nat :=
  let inRange := fun value =>
    if min ≤ value ∧ value ≤ max then .ok value else .error (.outOfRange key)
  match optional lookup key with
  | none => inRange default
  | some text =>
    match parseUnsigned bound text with
    | none => .error (.invalidInteger key)
    | some value => inRange value

/-- `parse_usize`. -/
def parseUsize : Lookup → String → Nat → Nat → Nat → Except ConfigError Nat :=
  parseInRange (2 ^ 64)

/-- `parse_u32`. -/
def parseU32 : Lookup → String → Nat → Nat → Nat → Except ConfigError Nat :=
  parseInRange (2 ^ 32)

/-- `parse_u64`. -/
def parseU64 : Lookup → String → Nat → Nat → Nat → Except ConfigError Nat :=
  parseInRange (2 ^ 64)

/-- A number that was accepted lies in its range. -/
theorem mem_range_of_parseInRange {bound : Nat} {lookup : Lookup} {key : String}
    {default min max n : Nat} (h : parseInRange bound lookup key default min max = .ok n) :
    min ≤ n ∧ n ≤ max := by
  have hrange : ∀ m : Nat, (if min ≤ m ∧ m ≤ max then Except.ok m
      else Except.error (ConfigError.outOfRange key)) = .ok n → min ≤ n ∧ n ≤ max := by
    intro m hm
    split at hm
    · next hr => cases hm; exact hr
    · simp at hm
  unfold parseInRange at h
  split at h
  · exact hrange _ h
  · split at h
    · simp at h
    · exact hrange _ h

/-! ## The configuration -/

/-- `OAuthConfig::validate`. -/
def OAuthConfig.validate (C : ConfigCrates) (config : OAuthConfig) : Except ConfigError Unit :=
  match C.parseUrl config.issuer with
  | none => .error .invalidOAuthIssuer
  | some issuer =>
    if C.scheme issuer ≠ "https" ∨ (C.hostStr issuer).isNone ∨ C.path issuer ≠ "/" ∨
        (C.query issuer).isSome ∨ (C.fragment issuer).isSome ∨
        config.issuer.toList.getLast? = some '/' then
      .error .invalidOAuthIssuer
    else
      match C.parseUrl config.resource with
      | none => .error .invalidOAuthResource
      | some resource =>
        if C.scheme resource ≠ "https" ∨ (C.hostStr resource).isNone ∨
            (C.query resource).isSome ∨ (C.fragment resource).isSome ∨
            C.origin resource ≠ C.origin issuer then
          .error .invalidOAuthResource
        else if config.ownerSecret.utf8ByteSize < 20 then .error (.weakSecret "OAUTH_OWNER_SECRET")
        else if config.signingKey.utf8ByteSize < 32 then .error (.weakSecret "OAUTH_SIGNING_KEY")
        else if !isAbsolute config.refreshStateDir then .error .invalidOAuthStateDir
        else .ok ()

/-- `DEFAULT_KB_PUBLIC_DIRS`. -/
def defaultKbPublicDirs : List String := ["10_tech", "20_projects"]

/-- `DEFAULT_KB_PRIVATE_DIRS`. -/
def defaultKbPrivateDirs : List String := ["90_private"]

/-- The scope directories part of `Config::from_lookup`. -/
def scopeDirectoriesFromLookup (lookup : Lookup) : Except ConfigError ScopeDirectories := do
  let «public» ← parseDirectorySet lookup "KB_PUBLIC_DIRS" defaultKbPublicDirs
  let «private» ← parseDirectorySet lookup "KB_PRIVATE_DIRS" defaultKbPrivateDirs
  ScopeDirectories.new «public» «private»

/-- The OAuth part of `Config::from_lookup`. -/
def oauthFromLookup (C : ConfigCrates) (lookup : Lookup) : Except ConfigError OAuthConfig := do
  let issuer ← required lookup "OAUTH_ISSUER"
  let resource ← required lookup "OAUTH_RESOURCE"
  let ownerSecret ← required lookup "OAUTH_OWNER_SECRET"
  let signingKey ← required lookup "OAUTH_SIGNING_KEY"
  let accessTokenTtlSeconds ← parseU64 lookup "OAUTH_ACCESS_TOKEN_TTL_SECONDS" 900 60 3600
  let authorizationCodeTtlSeconds ←
    parseU64 lookup "OAUTH_AUTHORIZATION_CODE_TTL_SECONDS" 300 60 600
  let refreshStateDir ← required lookup "OAUTH_STATE_DIR"
  let refreshTokenTtlSeconds ←
    parseU64 lookup "OAUTH_REFRESH_TOKEN_TTL_SECONDS" 1209600 60 2592000
  let oauth : OAuthConfig := {
    issuer, resource, ownerSecret, signingKey
    accessTokenTtlSeconds := .ofNat accessTokenTtlSeconds
    authorizationCodeTtlSeconds := .ofNat authorizationCodeTtlSeconds
    refreshStateDir := utf8 refreshStateDir
    refreshTokenTtlSeconds := .ofNat refreshTokenTtlSeconds }
  oauth.validate C
  .ok oauth

/-- The inbox part of `Config::from_lookup`. -/
def inboxFromLookup (lookup : Lookup) : Except ConfigError (Option InboxConfig) :=
  match optional lookup "INBOX_ROOT" with
  | none => .ok none
  | some root =>
    if !isAbsolute (utf8 root) then .error .invalidInboxRoot
    else do
      let writesPerHour ← parseU32 lookup "INBOX_WRITES_PER_HOUR" 10 1 100
      let maxNoteBytes ← parseUsize lookup "INBOX_MAX_NOTE_BYTES" 32768 1024 32768
      let maxTotalBytes ← parseU64 lookup "INBOX_MAX_TOTAL_BYTES" 8388608 65536 67108864
      .ok (some ⟨utf8 root, writesPerHour, maxNoteBytes, maxTotalBytes⟩)

/-- `Path::is_dir`. -/
def isDir (fs : FileSystem) (path : Bytes) : Bool :=
  match fs.metadata path with
  | .ok node => node.isDir
  | .error _ => false

/-- `Config::from_lookup`. -/
def Config.fromLookup (C : ConfigCrates) (fs : FileSystem) (lookup : Lookup) :
    Except ConfigError (Config C) := do
  let kbRoot ← required lookup "KB_ROOT"
  if !isDir fs (utf8 kbRoot) then throw .invalidKbRoot
  let scopeDirectories ← scopeDirectoriesFromLookup lookup
  let keyA ← required lookup "KB_KEY_A"
  let keyB ← required lookup "KB_KEY_B"
  if keyA = keyB then throw .duplicateKeys
  let some bindAddr := C.parseSocketAddr ((optional lookup "MCP_BIND_ADDR").getD "0.0.0.0:8080")
    | throw .invalidBindAddress
  let allowedHosts := parseSet (← required lookup "MCP_ALLOWED_HOSTS")
  if allowedHosts.isEmpty then throw .missingAllowedHosts
  let allowedOrigins := ((optional lookup "ALLOWED_ORIGINS").map parseSet).getD (.collect [])
  let maxReadBytes ← parseUsize lookup "MAX_READ_BYTES" 65536 8192 262144
  let maxSearchResponseBytes ← parseUsize lookup "MAX_SEARCH_RESPONSE_BYTES" 24576 8192 65536
  let maxSearchFileBytes ←
    parseUsize lookup "MAX_SEARCH_FILE_BYTES" 1048576 maxReadBytes (4 * 1024 * 1024)
  let rateLimitPerMinute ← parseU32 lookup "RATE_LIMIT_PER_MINUTE" 60 1 600
  let rateLimitBurst ← parseU32 lookup "RATE_LIMIT_BURST" 10 1 rateLimitPerMinute
  let oauth ← oauthFromLookup C lookup
  let inbox ← inboxFromLookup lookup
  .ok {
    kbRoot := utf8 kbRoot
    scopeDirectories, keyA, keyB, bindAddr, allowedHosts, allowedOrigins, maxReadBytes
    maxSearchResponseBytes, maxSearchFileBytes, rateLimitPerMinute, rateLimitBurst, oauth, inbox }

/-- A check that throws did not throw. -/
theorem guard_eq_ok {ε α : Type} {c : Prop} [Decidable c] {e : ε} {next : Unit → Except ε α}
    {a : α} : (if c then throw e >>= next else next ()) = .ok a ↔ ¬c ∧ next () = .ok a := by
  by_cases hc : c
  · rw [if_pos hc]
    exact ⟨fun h => absurd h (by simp [throw, throwThe, MonadExceptOf.throw, bind, Except.bind]),
      fun h => absurd hc h.1⟩
  · rw [if_neg hc]
    exact ⟨fun h => ⟨hc, h⟩, fun h => h.2⟩

/-- The OAuth part and the inbox part of an accepted configuration. -/
theorem parts_of_fromLookup {C : ConfigCrates} {fs : FileSystem} {lookup : Lookup}
    {config : Config C} (h : Config.fromLookup C fs lookup = .ok config) :
    oauthFromLookup C lookup = .ok config.oauth ∧
      inboxFromLookup lookup = .ok config.inbox := by
  unfold Config.fromLookup at h
  obtain ⟨_, _, h⟩ := bind_eq_ok.mp h
  obtain ⟨_, h⟩ := guard_eq_ok.mp h
  obtain ⟨_, _, h⟩ := bind_eq_ok.mp h
  obtain ⟨_, _, h⟩ := bind_eq_ok.mp h
  obtain ⟨_, _, h⟩ := bind_eq_ok.mp h
  obtain ⟨_, h⟩ := guard_eq_ok.mp h
  split at h
  · obtain ⟨_, _, h⟩ := bind_eq_ok.mp h
    obtain ⟨_, h⟩ := guard_eq_ok.mp h
    obtain ⟨_, _, h⟩ := bind_eq_ok.mp h
    obtain ⟨_, _, h⟩ := bind_eq_ok.mp h
    obtain ⟨_, _, h⟩ := bind_eq_ok.mp h
    obtain ⟨_, _, h⟩ := bind_eq_ok.mp h
    obtain ⟨_, _, h⟩ := bind_eq_ok.mp h
    obtain ⟨oauth, hoauth, h⟩ := bind_eq_ok.mp h
    obtain ⟨inbox, hinbox, h⟩ := bind_eq_ok.mp h
    obtain rfl := Except.ok.inj h
    exact ⟨hoauth, hinbox⟩
  · exact nomatch h

end EngramMcp
