import EngramMcp.Infra.Host
import EngramMcp.OAuth.Reference

/-!
# Redirect URIs

A web application may be sent to an `https` URI, a native one also to an `http` URI of the machine
it runs on. `validate_redirect_uri` compares the text of the host with `localhost`, `127.0.0.1` and
`::1`. The text of an IPv6 host stands in square brackets, so the last comparison never succeeds.

* `validateRedirectUri_eq_ok_iff` — what is accepted, by the text of the host
* `localHost_iff` — the hosts that the comparison finds
* `redirect_policy_iff` — the URIs that are treated as the policy says
-/

namespace EngramMcp

open Infra

/--
How the `url` crate spells the host of a URL. A domain has no colon, and of a web URL none looks
like an IPv4 address.
-/
structure UrlCrate.SpellsHosts (U : UrlCrate) (host : U.Url → Option Host) : Prop where
  none : ∀ uri, host uri = none → U.hostStr uri = none
  domain : ∀ uri name, host uri = some (.domain name) → U.hostStr uri = some name
  ipv4 : ∀ uri octets, host uri = some (.ipv4 octets) → U.hostStr uri = some (ipv4Text octets)
  ipv6 : ∀ uri segments, host uri = some (.ipv6 segments) →
    ∃ address, U.hostStr uri = some ("[" ++ address ++ "]")
  colon_not_mem : ∀ uri name, host uri = some (.domain name) → ':' ∉ name.toList
  ne_ipv4Text : ∀ uri name octets, U.scheme uri = "http" ∨ U.scheme uri = "https" →
    host uri = some (.domain name) → name ≠ ipv4Text octets

/-- `127.0.0.1`. -/
def ipv4Loopback : Host := .ipv4 #v[127, 0, 0, 1]

/-- `::1`. -/
def ipv6Loopback : Host := .ipv6 #v[0, 0, 0, 0, 0, 0, 0, 1]

/-- The machine that a native application runs on. -/
def IsLocal (host : Host) : Prop :=
  host = .domain "localhost" ∨ host = ipv4Loopback ∨ host = ipv6Loopback

/-- A URI of up to 2048 bytes that parses, without fragment, user name and password. -/
structure IsPlainUri (U : UrlCrate) (value : String) (uri : U.Url) : Prop where
  length_le : value.utf8ByteSize ≤ 2048
  parses : U.parse value = some uri
  fragment : U.fragment uri = none
  username : U.username uri = ""
  password : U.password uri = none

/-- What is accepted, by the text of the host. -/
theorem validateRedirectUri_eq_ok_iff {U : UrlCrate} {value : String} {uri : U.Url}
    (h : IsPlainUri U value uri) (applicationType : String) :
    validateRedirectUri U value applicationType = .ok () ↔
      (U.scheme uri = "https" ∧ (U.hostStr uri).isSome = true) ∨
        (applicationType = "native" ∧ U.scheme uri = "http" ∧
          localHost (U.hostStr uri) = true) := by
  have hlen : rejectIf (decide (value.utf8ByteSize > 2048)) OAuthError.invalidClient = .ok () := by
    rw [rejectIf_eq_ok, decide_eq_false_iff_not]
    exact Nat.not_lt.mpr h.length_le
  have hplain : rejectIf ((U.fragment uri).isSome || U.username uri != ""
      || (U.password uri).isSome) OAuthError.invalidClient = .ok () := by
    rw [h.fragment, h.username, h.password]
    rfl
  have hvalidate : validateRedirectUri U value applicationType =
      if U.scheme uri == "https" && (U.hostStr uri).isSome then .ok ()
      else if applicationType == "native" && U.scheme uri == "http"
          && localHost (U.hostStr uri) then
        .ok ()
      else .error .invalidClient := by
    unfold validateRedirectUri
    rw [hlen, h.parses]
    show (rejectIf _ _ >>= fun _ => _) = _
    rw [hplain]
    rfl
  rw [hvalidate]
  by_cases hs : U.scheme uri = "https" ∧ (U.hostStr uri).isSome = true
  · rw [if_pos (by simpa using hs)]
    exact iff_of_true rfl (Or.inl hs)
  · rw [if_neg (by simpa using hs), or_iff_right hs]
    by_cases hl : applicationType = "native" ∧ U.scheme uri = "http" ∧
        localHost (U.hostStr uri) = true
    · rw [if_pos (by simpa [and_assoc] using hl)]
      exact iff_of_true rfl hl
    · rw [if_neg (by simpa [and_assoc] using hl)]
      exact iff_of_false (by simp) hl

/-! ## Hosts and their texts -/

theorem localHost_eq_true_iff {text : Option String} : localHost text = true ↔
    text = some "localhost" ∨ text = some "127.0.0.1" ∨ text = some "::1" := by
  unfold localHost
  split
  · exact iff_of_true rfl (Or.inl rfl)
  · exact iff_of_true rfl (Or.inr (Or.inl rfl))
  · exact iff_of_true rfl (Or.inr (Or.inr rfl))
  · next h1 h2 h3 =>
    refine iff_of_false Bool.false_ne_true ?_
    rintro (h | h | h)
    · exact h1 h
    · exact h2 h
    · exact h3 h

section

variable {U : UrlCrate} {host : U.Url → Option Host} {uri : U.Url}

/-- A URL has a host if it has the text of one. -/
theorem isSome_hostStr_iff (h : U.SpellsHosts host) :
    (U.hostStr uri).isSome = true ↔ (host uri).isSome = true := by
  cases hhost : host uri with
  | none =>
    rw [h.none uri hhost]
    exact Iff.rfl
  | some found =>
    refine iff_of_true ?_ rfl
    cases found with
    | domain name => rw [h.domain uri name hhost]; rfl
    | ipv4 octets => rw [h.ipv4 uri octets hhost]; rfl
    | ipv6 segments =>
      obtain ⟨address, htext⟩ := h.ipv6 uri segments hhost
      rw [htext]
      rfl

/-- The comparison finds a local host, unless it is an IPv6 address. -/
theorem localHost_iff (h : U.SpellsHosts host) (hscheme : U.scheme uri = "http") :
    localHost (U.hostStr uri) = true ↔
      host uri = some (.domain "localhost") ∨ host uri = some ipv4Loopback := by
  have hloopback : ipv4Text #v[127, 0, 0, 1] = "127.0.0.1" := by decide
  rw [localHost_eq_true_iff]
  cases hhost : host uri with
  | none =>
    rw [h.none uri hhost]
    simp
  | some found =>
    cases found with
    | domain name =>
      have hcolon := h.colon_not_mem uri name hhost
      have hipv4 := h.ne_ipv4Text uri name #v[127, 0, 0, 1] (Or.inl hscheme) hhost
      rw [hloopback] at hipv4
      have hipv6 : name ≠ "::1" := by
        rintro rfl
        exact hcolon (by decide)
      rw [h.domain uri name hhost]
      simp [hipv4, hipv6, ipv4Loopback]
    | ipv4 octets =>
      -- the other two texts are not made of digits and dots
      have hletters : ∀ {text : String}, ipv4Text octets = text →
          ∀ c ∈ text.toList, c.isDigit = true ∨ c = '.' := by
        rintro text rfl c hc
        exact mem_ipv4Text hc
      have hlocalhost : ipv4Text octets ≠ "localhost" := fun he =>
        absurd (hletters he 'l' (by decide)) (by decide)
      have hipv6 : ipv4Text octets ≠ "::1" := fun he =>
        absurd (hletters he ':' (by decide)) (by decide)
      rw [h.ipv4 uri octets hhost, ← hloopback]
      simp [hlocalhost, hipv6, ipv4Text_inj, ipv4Loopback]
    | ipv6 segments =>
      obtain ⟨address, htext⟩ := h.ipv6 uri segments hhost
      have hbracket : ∀ {text : String}, "[" ++ address ++ "]" = text →
          text.toList.head? = some '[' := by
        rintro text rfl
        simp [String.toList_append]
      have hne : ∀ text : String, text.toList.head? ≠ some '[' → "[" ++ address ++ "]" ≠ text :=
        fun text hhead he => hhead (hbracket he)
      rw [htext]
      simp [hne "localhost" (by decide), hne "127.0.0.1" (by decide), hne "::1" (by decide),
        ipv4Loopback]

end

/-! ## The policy -/

/--
A web application may register `https` URIs with a host, a native one also `http` URIs of a local
host. What was registered is accepted again.
-/
structure FollowsPolicy (C : Crates) (host : C.url.Url → Option Host) (value : String)
    (uri : C.url.Url) : Prop where
  web : validateRedirectUri C.url value "web" = .ok () ↔
    C.url.scheme uri = "https" ∧ (host uri).isSome = true
  native : validateRedirectUri C.url value "native" = .ok () ↔
    (C.url.scheme uri = "https" ∧ (host uri).isSome = true) ∨
      (C.url.scheme uri = "http" ∧ ∃ found, host uri = some found ∧ IsLocal found)
  stable : ∀ applicationType, validateRedirectUri C.url value applicationType = .ok () →
    recheckRedirectUri C value = .ok ()

/-- The policy is followed for all URIs but the `http` ones of the IPv6 loopback address. -/
theorem redirect_policy_iff {C : Crates} {host : C.url.Url → Option Host}
    (hhost : C.url.SpellsHosts host) {value : String} {uri : C.url.Url}
    (h : IsPlainUri C.url value uri) :
    FollowsPolicy C host value uri ↔
      ¬(C.url.scheme uri = "http" ∧ host uri = some ipv6Loopback) := by
  have hweb := validateRedirectUri_eq_ok_iff h "web"
  have hnative := validateRedirectUri_eq_ok_iff h "native"
  rw [isSome_hostStr_iff hhost] at hweb hnative
  constructor
  · rintro hpolicy ⟨hscheme, hloopback⟩
    have haccepts := hpolicy.native.mpr (Or.inr ⟨hscheme, _, hloopback, Or.inr (Or.inr rfl)⟩)
    rcases hnative.mp haccepts with ⟨hs, -⟩ | ⟨-, -, hlocal⟩
    · rw [hscheme] at hs
      exact absurd hs (by decide)
    · rw [localHost_iff hhost hscheme, hloopback] at hlocal
      simp [ipv6Loopback, ipv4Loopback] at hlocal
  · intro hnot
    refine ⟨?_, ?_, fun applicationType hok => recheckRedirectUri_of_validate hok⟩
    · rw [hweb]
      refine or_iff_left ?_
      rintro ⟨hne, -⟩
      exact absurd hne (by decide)
    · rw [hnative]
      refine or_congr_right ?_
      rw [and_iff_right rfl]
      refine and_congr_right fun hscheme => ?_
      rw [localHost_iff hhost hscheme]
      constructor
      · rintro (hd | hv)
        · exact ⟨_, hd, Or.inl rfl⟩
        · exact ⟨_, hv, Or.inr (Or.inl rfl)⟩
      · rintro ⟨found, hfound, rfl | rfl | rfl⟩
        · exact Or.inl hfound
        · exact Or.inr hfound
        · exact absurd ⟨hscheme, hfound⟩ hnot

/-! ## URLs of local hosts -/

namespace Reference

/-- The hosts that are covered: plain names and the two loopback addresses. -/
def hostOf (text : List Char) : Option Host :=
  if text = "[::1]".toList then some ipv6Loopback
  else if text = "127.0.0.1".toList then some ipv4Loopback
  else if text ≠ [] ∧ text.all Char.isLower = true then some (.domain (String.ofList text))
  else none

/-- A URL of a covered host. -/
structure WebUrl where
  scheme : String
  hostText : List Char
  covered : (hostOf hostText).isSome = true
  path : List Char
  query : String
  deriving DecidableEq

/-- Parses `http://host/path` and `https://host/path`. -/
def parseWeb (value : String) : Option WebUrl :=
  let scheme := if startsWith "https://" value then "https" else "http"
  (stripPrefix (scheme ++ "://") value).bind fun rest =>
    let text := rest.toList.takeWhile (· != '/')
    let path := rest.toList.dropWhile (· != '/')
    if h : (hostOf text).isSome = true ∧ path ≠ [] ∧ path.all pathChar = true then
      some ⟨scheme, text, h.1, path, ""⟩
    else none

/-- The `url` crate on these URLs. -/
def webUrl : UrlCrate where
  Url := WebUrl
  parse := parseWeb
  scheme u := u.scheme
  hostStr u := some (String.ofList u.hostText)
  fragment _ := none
  username _ := ""
  password _ := none
  appendPair u name value :=
    { u with query := (if u.query = "" then "" else u.query ++ "&")
        ++ formEncode name ++ "=" ++ formEncode value }
  toStr u := u.scheme ++ "://" ++ String.ofList u.hostText ++ String.ofList u.path
    ++ (if u.query = "" then "" else "?" ++ u.query)

/-- The host of such a URL. -/
def webHost (u : WebUrl) : Option Host := hostOf u.hostText

theorem hostOf_cases {text : List Char} {host : Host} (h : hostOf text = some host) :
    (text = "[::1]".toList ∧ host = ipv6Loopback) ∨
      (text = "127.0.0.1".toList ∧ host = ipv4Loopback) ∨
      ((∀ c ∈ text, c.isLower = true) ∧ host = .domain (String.ofList text)) := by
  unfold hostOf at h
  split at h
  · next ht => exact Or.inl ⟨ht, (Option.some.inj h).symm⟩
  · split at h
    · next ht => exact Or.inr (Or.inl ⟨ht, (Option.some.inj h).symm⟩)
    · split at h
      · next ht =>
        exact Or.inr (Or.inr ⟨List.all_eq_true.mp ht.2, (Option.some.inj h).symm⟩)
      · exact nomatch h

theorem spellsHosts_webUrl : webUrl.SpellsHosts webHost where
  none u h := by
    have hcovered : (webHost u).isSome = true := u.covered
    rw [h] at hcovered
    exact nomatch hcovered
  domain u name h := by
    rcases hostOf_cases h with ⟨-, h⟩ | ⟨-, h⟩ | ⟨-, h⟩
    · exact nomatch h
    · exact nomatch h
    · rw [Host.domain.inj h]
      rfl
  ipv4 u octets h := by
    rcases hostOf_cases h with ⟨-, h⟩ | ⟨ht, h⟩ | ⟨-, h⟩
    · exact nomatch h
    · rw [Host.ipv4.inj h]
      exact congrArg (fun text => some (String.ofList text)) ht
    · exact nomatch h
  ipv6 u segments h := by
    rcases hostOf_cases h with ⟨ht, -⟩ | ⟨-, h⟩ | ⟨-, h⟩
    · exact ⟨"::1", congrArg (fun text => some (String.ofList text)) ht⟩
    · exact nomatch h
    · exact nomatch h
  colon_not_mem u name h hcolon := by
    rcases hostOf_cases h with ⟨-, h⟩ | ⟨-, h⟩ | ⟨hlower, h⟩
    · exact nomatch h
    · exact nomatch h
    · rw [Host.domain.inj h, String.toList_ofList] at hcolon
      exact absurd (hlower _ hcolon) (by decide)
  ne_ipv4Text u name octets _ h htext := by
    rcases hostOf_cases h with ⟨-, h⟩ | ⟨-, h⟩ | ⟨hlower, h⟩
    · exact nomatch h
    · exact nomatch h
    · have hdot := dot_mem_ipv4Text octets
      rw [← htext, Host.domain.inj h, String.toList_ofList] at hdot
      exact absurd (hlower _ hdot) (by decide)

/-- The crates of the server, with these URLs. -/
def webCrates : Crates := { crates with url := webUrl }

/-- `http://127.0.0.1/callback`. -/
def ipv4Uri : WebUrl := ⟨"http", "127.0.0.1".toList, by decide, "/callback".toList, ""⟩

/-- `http://[::1]/callback`. -/
def ipv6Uri : WebUrl := ⟨"http", "[::1]".toList, by decide, "/callback".toList, ""⟩

theorem isPlainUri_ipv4Uri :
    IsPlainUri webCrates.url "http://127.0.0.1/callback" ipv4Uri where
  length_le := by decide
  parses := show parseWeb "http://127.0.0.1/callback" = some ipv4Uri by decide +kernel
  fragment := rfl
  username := rfl
  password := rfl

theorem isPlainUri_ipv6Uri : IsPlainUri webCrates.url "http://[::1]/callback" ipv6Uri where
  length_le := by decide
  parses := show parseWeb "http://[::1]/callback" = some ipv6Uri by decide +kernel
  fragment := rfl
  username := rfl
  password := rfl

end Reference

/-- A native application at the IPv4 loopback address. -/
theorem redirect_policy_ipv4 :
    FollowsPolicy Reference.webCrates Reference.webHost "http://127.0.0.1/callback"
        Reference.ipv4Uri ↔
      ¬(Reference.webCrates.url.scheme Reference.ipv4Uri = "http" ∧
        Reference.webHost Reference.ipv4Uri = some ipv6Loopback) :=
  redirect_policy_iff Reference.spellsHosts_webUrl Reference.isPlainUri_ipv4Uri

/-- A native application at the IPv6 loopback address is refused. -/
theorem redirect_policy_not_ipv6 :
    ¬∀ (C : Crates) (host : C.url.Url → Option Host) (value : String) (uri : C.url.Url),
      C.url.SpellsHosts host → IsPlainUri C.url value uri → FollowsPolicy C host value uri := by
  intro h
  have hpolicy := h Reference.webCrates Reference.webHost "http://[::1]/callback"
    Reference.ipv6Uri Reference.spellsHosts_webUrl Reference.isPlainUri_ipv6Uri
  have haccepts := hpolicy.native.mpr
    (Or.inr ⟨rfl, ipv6Loopback, by decide, Or.inr (Or.inr rfl)⟩)
  have hrefused : validateRedirectUri Reference.webCrates.url "http://[::1]/callback" "native"
      = .error .invalidClient := by decide +kernel
  rw [hrefused] at haccepts
  exact nomatch haccepts

end EngramMcp
