import EngramMcp.Infra.Html
import EngramMcp.OAuth.Authorization

/-!
# The consent page

The consent page carries strings that clients choose: their id, the redirect URI and the resource
between tags, the signed request in quotes. `escape_html` takes the characters out of them that
could end the text or the value they stand in. So the page has the same tags and the same attributes
whatever they are, and it says what they are.

* `decode_escapeHtml` — what is read of an escaped string is the string
* `tokens_renderApprovalPage` — what is read of the page
* `scrapeRequest_renderApprovalPage` — where the signed request is found
* `consent_page_not_injected` — the property
-/

namespace EngramMcp

open Infra Html

/-! ## Escaped strings -/

/-- A character that is not left as it is becomes the reference that stands for it. -/
theorem escapeHtmlChar_cases (c : Char) :
    (∃ name, (name, c) ∈ references ∧ escapeHtmlChar c = reference name) ∨
      ((c ≠ '&' ∧ c ≠ '<' ∧ c ≠ '>' ∧ c ≠ '"' ∧ c.toNat ≠ 0x27) ∧ escapeHtmlChar c = [c]) := by
  unfold escapeHtmlChar
  by_cases hamp : c = '&'
  · subst hamp
    exact Or.inl ⟨"amp".toList, by decide, by decide⟩
  by_cases hlt : c = '<'
  · subst hlt
    exact Or.inl ⟨"lt".toList, by decide, by decide⟩
  by_cases hgt : c = '>'
  · subst hgt
    exact Or.inl ⟨"gt".toList, by decide, by decide⟩
  by_cases hquot : c = '"'
  · subst hquot
    exact Or.inl ⟨"quot".toList, by decide, by decide⟩
  by_cases hapos : c.toNat = 0x27
  · obtain rfl : c = Char.ofNat 0x27 := by rw [← hapos, Char.ofNat_toNat]
    exact Or.inl ⟨"#x27".toList, by decide, by decide⟩
  · rw [if_neg hamp, if_neg hlt, if_neg hgt, if_neg hquot, if_neg hapos]
    exact Or.inr ⟨⟨hamp, hlt, hgt, hquot, hapos⟩, rfl⟩

theorem escapeHtml_append (v w : String) : escapeHtml (v ++ w) = escapeHtml v ++ escapeHtml w := by
  unfold escapeHtml
  rw [String.toList_append, List.flatMap_append, String.ofList_append]

/-- What is read of an escaped string is the string. -/
theorem decode_escapeHtml (v : String) : decode (escapeHtml v).toList = v.toList := by
  rw [escapeHtml, String.toList_ofList]
  induction v.toList with
  | nil => rfl
  | cons c l ih =>
    rw [List.flatMap_cons]
    rcases escapeHtmlChar_cases c with ⟨name, hmem, hc⟩ | ⟨⟨hamp, -⟩, hc⟩
    · rw [hc, decode_reference hmem, ih]
    · rw [hc, List.singleton_append, decode_cons hamp, ih]

/-- A character that stands in no reference. -/
def Special (c : Char) : Prop := c = '<' ∨ c = '>' ∨ c = '"' ∨ c.toNat = 0x27

instance (c : Char) : Decidable (Special c) :=
  inferInstanceAs (Decidable (c = '<' ∨ c = '>' ∨ c = '"' ∨ c.toNat = 0x27))

theorem not_special_of_mem_reference {name : List Char} {c d : Char}
    (h : (name, c) ∈ references) (hd : d ∈ reference name) : ¬Special d := by
  have hall : references.all (fun entry =>
      (reference entry.1).all fun d => decide ¬Special d) = true := by decide
  exact of_decide_eq_true (List.all_eq_true.mp (List.all_eq_true.mp hall _ h) d hd)

/-- An escaped string has no special character. -/
theorem not_special_of_mem_escapeHtml {v : String} {d : Char} (h : d ∈ (escapeHtml v).toList) :
    ¬Special d := by
  rw [escapeHtml, String.toList_ofList, List.mem_flatMap] at h
  obtain ⟨c, -, hd⟩ := h
  rcases escapeHtmlChar_cases c with ⟨name, hmem, hc⟩ | ⟨⟨-, hlt, hgt, hquot, hapos⟩, hc⟩
  · rw [hc] at hd
    exact not_special_of_mem_reference hmem hd
  · rw [hc] at hd
    obtain rfl := List.mem_singleton.mp hd
    rintro (h | h | h | h)
    · exact hlt h
    · exact hgt h
    · exact hquot h
    · exact hapos h

theorem lt_not_mem_escapeHtml (v : String) : '<' ∉ (escapeHtml v).toList :=
  fun h => not_special_of_mem_escapeHtml h (Or.inl rfl)

theorem quote_not_mem_escapeHtml (v : String) : '"' ∉ (escapeHtml v).toList :=
  fun h => not_special_of_mem_escapeHtml h (Or.inr (Or.inr (Or.inl rfl)))

theorem amp_not_mem_of_reference {name : List Char} {c : Char} (h : (name, c) ∈ references) :
    '&' ∉ name ++ [';'] := by
  have hall : references.all (fun entry => decide ('&' ∉ entry.1 ++ [';'])) = true := by decide
  exact of_decide_eq_true (List.all_eq_true.mp hall _ h)

/-- Each `&` of an escaped string begins a reference. -/
theorem reference_of_suffix {v : String} {rest : List Char}
    (h : '&' :: rest <:+ (escapeHtml v).toList) :
    ∃ name c, (name, c) ∈ references ∧ reference name <+: '&' :: rest := by
  rw [escapeHtml, String.toList_ofList] at h
  generalize v.toList = l at h
  induction l with
  | nil => exact absurd (List.suffix_nil.mp h) (List.cons_ne_nil _ _)
  | cons c l ih =>
    rw [List.flatMap_cons] at h
    rcases List.suffix_or_suffix_of_suffix h (List.suffix_append _ _) with hrest | ⟨t, ht⟩
    · exact ih hrest
    cases t with
    | nil =>
      rw [List.nil_append] at ht
      exact ih (by rw [← ht])
    | cons d t =>
      -- it begins within the text of the character
      obtain rfl : d = '&' := (List.cons.inj ht).1
      rw [← ht] at h
      have hsuffix : '&' :: t <:+ escapeHtmlChar c := by
        obtain ⟨front, hfront⟩ := h
        rw [← List.append_assoc] at hfront
        exact ⟨front, List.append_cancel_right hfront⟩
      rcases escapeHtmlChar_cases c with ⟨name, hmem, hc⟩ | ⟨⟨hamp, -⟩, hc⟩
      · rw [hc, reference, List.suffix_cons_iff] at hsuffix
        rcases hsuffix with hwhole | htail
        · exact ⟨name, c, hmem, by rw [← ht, reference, hwhole]; exact List.prefix_append _ _⟩
        · exact absurd (htail.subset List.mem_cons_self) (amp_not_mem_of_reference hmem)
      · rw [hc] at hsuffix
        have hin := hsuffix.subset List.mem_cons_self
        exact absurd (List.mem_singleton.mp hin).symm hamp

/-! ## The page that is read -/

/-- The page up to the text of the client id. -/
def topTokens : List Token :=
  [.text "", .tag "!doctype" [("html", "")], .text "", .tag "html" [("lang", "en")],
    .text "", .tag "head" [], .text "", .tag "meta" [("charset", "utf-8")],
    .text "", .tag "meta" [("name", "viewport"), ("content", "width=device-width,initial-scale=1")],
    .text "", .tag "title" [], .text "Engram MCP authorization", .tag "/title" [],
    .text "", .tag "/head" [], .text "", .tag "body" [], .text "", .tag "main" [],
    .text "", .tag "h1" [], .text "Authorize Engram MCP", .tag "/h1" [],
    .text "", .tag "p" [], .text "Client: ", .tag "code" []]

/-- From there to the text of the redirect URI. -/
def redirectTokens : List Token :=
  [.tag "/code" [], .text "", .tag "/p" [], .text "", .tag "p" [], .text "Redirect URI: ",
    .tag "code" []]

/-- From there to the text of the resource. -/
def resourceTokens : List Token :=
  [.tag "/code" [], .text "", .tag "/p" [], .text "", .tag "p" [], .text "Resource: ",
    .tag "code" []]

/-- From there to the signed request. -/
def formTokens : List Token :=
  [.tag "/code" [], .text "", .tag "/p" [], .text "",
    .tag "form" [("method", "post"), ("action", "/oauth/authorize")], .text ""]

/-- From there to the scopes. -/
def ownerTokens : List Token :=
  [.text "", .tag "label" [], .text "Owner secret ",
    .tag "input" [("type", "password"), ("name", "owner_secret"),
      ("autocomplete", "current-password"), ("required", "")],
    .text "", .tag "/label" [], .text "", .tag "fieldset" [], .text "", .tag "legend" [],
    .text "Grant scope", .tag "/legend" []]

/-- The option of one scope. -/
def optionTokens (index : Nat) (scope : String) : List Token :=
  [.text "", .tag "label" [], .text "",
    .tag "input" ([("type", "radio"), ("name", "scope"), ("value", scope)]
      ++ (if index = 0 then [("checked", "")] else [])),
    .text (" " ++ scope), .tag "/label" []]

/-- From the scopes to the end of the page. -/
def endTokens : List Token :=
  [.text "", .tag "/fieldset" [], .text "",
    .tag "button" [("type", "submit"), ("name", "decision"), ("value", "approve")],
    .text "Approve", .tag "/button" [], .text "",
    .tag "button" [("type", "submit"), ("name", "decision"), ("value", "deny")],
    .text "Deny", .tag "/button" [], .text "", .tag "/form" [], .text "", .tag "/main" [],
    .text "", .tag "/body" [], .text "", .tag "/html" []]

/-- The page of a request that a client chose. -/
def approvalTokens (request : String) (approval : SignedApprovalRequest) : List Token :=
  topTokens ++ (.text approval.clientId :: redirectTokens)
    ++ (.text approval.redirectUri :: resourceTokens) ++ (.text approval.resource :: formTokens)
    ++ (.tag "input" [("type", "hidden"), ("name", "request"), ("value", request)] :: ownerTokens)
    ++ [Token.text "", .tag "br" []].intercalate
      (approval.requestedScopes.values.mapIdx optionTokens)
    ++ endTokens

/-- An escaped string between tags is its text. -/
theorem advance_escapeHtml_text (v : String) {l rest : List Char} {next last : State}
    {out more : List Token}
    (hl : l.head? = some '<' ∧ advance (.text []) l = (next, .text "" :: out))
    (hrest : advance next rest = (last, more)) :
    advance (.text []) ((escapeHtml v).toList ++ (l ++ rest))
      = (last, .text v :: (out ++ more)) := by
  have htext := advance_text [] (lt_not_mem_escapeHtml v)
  rw [List.nil_append] at htext
  have htag := advance_text_tag (escapeHtml v).toList hl.1 hl.2
  rw [decode_escapeHtml, String.ofList_toList] at htag
  exact advance_trans htext (advance_trans htag hrest)

/-- An escaped string in quotes is the value. -/
theorem advance_escapeHtml_quoted (tag : OpenTag) (name : List Char) (v : String) {l : List Char}
    {next : State} {out : List Token} (hl : l.head? = some '"')
    (h : advance (.beforeAttribute ⟨tag.name, tag.attributes ++ [(String.ofList name, v)]⟩) l.tail
      = (next, out)) :
    advance (.quoted '"' tag name []) ((escapeHtml v).toList ++ l) = (next, out) := by
  have hvalue := advance_quoted tag name [] (quote_not_mem_escapeHtml v)
  rw [List.nil_append] at hvalue
  have hend := advance_quote tag name (escapeHtml v).toList hl
  rw [OpenTag.add, decode_escapeHtml, String.ofList_toList, h] at hend
  exact advance_trans hvalue hend

/-- An escaped string that is the last value of its tag. -/
theorem advance_escapeHtml_last (tag : OpenTag) (name : List Char) (v : String)
    {l rest : List Char} {last : State} {out more : List Token}
    (hl : l.head? = some '"' ∧ l.tail.head? = some '>'
      ∧ advance (.text []) l.tail.tail = (.text [], out))
    (hrest : advance (.text []) rest = (last, more)) :
    advance (.quoted '"' tag name []) ((escapeHtml v).toList ++ (l ++ rest))
      = (last, .tag (String.ofList tag.name) (tag.attributes ++ [(String.ofList name, v)])
        :: (out ++ more)) := by
  obtain ⟨hquote, hend, hout⟩ := hl
  obtain ⟨l, rfl⟩ := List.head?_eq_some_iff.mp hquote
  obtain ⟨l, rfl⟩ := List.head?_eq_some_iff.mp hend
  refine advance_escapeHtml_quoted tag name v rfl (advance_tag_end _ rfl ?_)
  exact advance_trans hout hrest

/-- The pieces of an option. -/
theorem toList_scopeOption (index : Nat) (scope : String) : (scopeOption index scope).toList
    = "<label><input type=\"radio\" name=\"scope\" value=\"".toList ++ ((escapeHtml scope).toList
      ++ '"' :: (((if index = 0 then " checked" else "").toList ++ "> ".toList)
        ++ ((escapeHtml scope).toList ++ "</label>".toList))) := by
  unfold scopeOption
  simp only [String.toList_append, List.append_assoc]
  rfl

/-- The option of a scope. -/
theorem advance_scopeOption (index : Nat) (scope : String) :
    advance (.text []) (scopeOption index scope).toList = (.text [], optionTokens index scope) := by
  have hopen : advance (.text []) "<label><input type=\"radio\" name=\"scope\" value=\"".toList
      = (.quoted '"' ⟨"input".toList, [("type", "radio"), ("name", "scope")]⟩ "value".toList [],
        [.text "", .tag "label" [], .text ""]) := by decide +kernel
  have hchecked (tag : OpenTag) : advance (.beforeAttribute tag)
      ((if index = 0 then " checked" else "").toList ++ "> ".toList) = (.text [' '],
        [.tag (String.ofList tag.name)
          (tag.attributes ++ (if index = 0 then [("checked", "")] else []))]) := by
    split
    · rfl
    · rw [List.append_nil]; rfl
  have hclose : advance (.text []) "</label>".toList
      = (.text [], [.text "", .tag "/label" []]) := by decide +kernel
  have hread := advance_text [' '] (lt_not_mem_escapeHtml scope)
  rw [List.singleton_append] at hread
  have htext := advance_trans hread
    (advance_text_tag (' ' :: (escapeHtml scope).toList) (by decide) hclose)
  have hspace : String.ofList (' ' :: scope.toList) = " " ++ scope := by
    rw [← String.toList_inj]
    simp
  rw [decode_cons (by decide), decode_escapeHtml, hspace] at htext
  have hrest := advance_trans (hchecked ⟨"input".toList,
    [("type", "radio"), ("name", "scope")] ++ [(String.ofList "value".toList, scope)]⟩) htext
  have hvalue := advance_escapeHtml_quoted ⟨"input".toList, [("type", "radio"), ("name", "scope")]⟩
    "value".toList scope (List.head?_cons (a := '"')) hrest
  have hall := advance_trans hopen hvalue
  rw [toList_scopeOption, hall]
  rfl

theorem advance_scopeOptions (scopes : List String) :
    advance (.text []) ("<br>".intercalate (scopes.mapIdx scopeOption)).toList
      = (.text [], [Token.text "", .tag "br" []].intercalate (scopes.mapIdx optionTokens)) := by
  rw [toList_intercalate]
  refine advance_intercalate (by decide +kernel) ?_
  rw [List.mapIdx_eq_zipIdx_map, List.mapIdx_eq_zipIdx_map, List.map_map, List.forall₂_map_left_iff,
    List.forall₂_map_right_iff, List.forall₂_same]
  intro entry _
  exact advance_scopeOption entry.2 entry.1

set_option maxRecDepth 2000 in
/-- What is read of the page. -/
theorem tokens_renderApprovalPage (request : String) (approval : SignedApprovalRequest) :
    tokens (renderApprovalPage request approval) = approvalTokens request approval := by
  suffices h : advance (.text []) (renderApprovalPage request approval).toList
      = (.text [], approvalTokens request approval) from congrArg Prod.snd h
  unfold renderApprovalPage approvalTokens
  simp only [String.toList_append, List.append_assoc]
  refine advance_trans (of_literal (advance (.text []) · = (State.text [], topTokens)) rfl
    (by decide +kernel)) ?_
  -- between tags: the id, the redirect URI and the resource
  refine advance_escapeHtml_text _ (of_literal (fun l => l.head? = some '<'
    ∧ advance (.text []) l = (State.text [], .text "" :: redirectTokens)) rfl
    (by decide +kernel)) ?_
  refine advance_escapeHtml_text _ (of_literal (fun l => l.head? = some '<'
    ∧ advance (.text []) l = (State.text [], .text "" :: resourceTokens)) rfl
    (by decide +kernel)) ?_
  refine advance_escapeHtml_text _ (of_literal (fun l => l.head? = some '<'
    ∧ advance (.text []) l = (State.quoted '"' ⟨"input".toList,
      [("type", "hidden"), ("name", "request")]⟩ "value".toList [], .text "" :: formTokens)) rfl
    (by decide +kernel)) ?_
  -- in quotes: the signed request
  refine advance_escapeHtml_last _ _ _ (of_literal (fun l => l.head? = some '"'
    ∧ l.tail.head? = some '>' ∧ advance (.text []) l.tail.tail = (State.text [], ownerTokens)) rfl
    (by decide +kernel)) ?_
  refine advance_trans (advance_scopeOptions _) ?_
  exact of_literal (advance (.text []) · = (State.text [], endTokens)) rfl (by decide +kernel)

/-! ## The signed request -/

/-- The pattern of `approval_request`. -/
def requestPattern : List Char := "name=\"request\" value=\"".toList

/-- `approval_request` of the tests: the text from the pattern to the next quote. -/
def scrapeRequest (html : String) : Option String :=
  (afterFirst requestPattern html.toList).map fun rest =>
    String.ofList (rest.takeWhile (· != '"'))

/-- The pattern does not stand in an escaped string. -/
theorem not_infix_escapeHtml (v : String) : ¬requestPattern <:+: (escapeHtml v).toList := by
  intro h
  have hquot : '"' ∈ requestPattern := by decide +kernel
  exact quote_not_mem_escapeHtml v (h.subset hquot)

/-- The pattern is looked for behind a fixed piece without it, and behind the string after it. -/
theorem afterFirst_escapeHtml {piece rest : List Char} (v : String)
    (hpiece : ¬requestPattern <:+: piece ∧ piece.getLast? = some '>')
    (hrest : rest.head? = some '<') :
    afterFirst requestPattern (piece ++ ((escapeHtml v).toList ++ rest))
      = afterFirst requestPattern rest := by
  have hgt : '>' ∉ requestPattern := by decide +kernel
  have hlt : '<' ∉ requestPattern := by decide +kernel
  rw [afterFirst_append_of_boundary hgt hpiece.1 (Or.inl hpiece.2),
    afterFirst_append_of_boundary hlt (not_infix_escapeHtml v) (Or.inr hrest)]

set_option maxRecDepth 2000 in
/-- The signed request is found first, as it stands in the page. -/
theorem scrapeRequest_renderApprovalPage (request : String) (approval : SignedApprovalRequest) :
    scrapeRequest (renderApprovalPage request approval) = some (escapeHtml request) := by
  suffices h : ∃ rest, afterFirst requestPattern (renderApprovalPage request approval).toList
      = some ((escapeHtml request).toList ++ '"' :: rest) by
    obtain ⟨rest, h⟩ := h
    rw [scrapeRequest, h, Option.map_some,
      takeWhile_ne_append (quote_not_mem_escapeHtml request), String.ofList_toList]
  unfold renderApprovalPage
  simp only [String.toList_append, List.append_assoc]
  -- it is not in front of the id, the redirect URI and the resource, nor in them
  rw [afterFirst_escapeHtml _ (of_literal (fun l => ¬requestPattern <:+: l
    ∧ l.getLast? = some '>') rfl (by decide +kernel)) rfl]
  rw [afterFirst_escapeHtml _ (of_literal (fun l => ¬requestPattern <:+: l
    ∧ l.getLast? = some '>') rfl (by decide +kernel)) rfl]
  rw [afterFirst_escapeHtml _ (of_literal (fun l => ¬requestPattern <:+: l
    ∧ l.getLast? = some '>') rfl (by decide +kernel)) rfl]
  rw [afterFirst_append_of_some (of_literal (afterFirst requestPattern · = some []) rfl
    (by decide +kernel)), List.nil_append]
  exact ⟨_, rfl⟩

/-! ## The property -/

/-- The consent page has what a client says as text and as the value of the hidden field, and no
tag and no attribute besides those that it has for every client. -/
theorem consent_page_not_injected :
    (∀ v, (∀ c ∈ (escapeHtml v).toList, c ≠ '<' ∧ c ≠ '>' ∧ c ≠ '"' ∧ c.toNat ≠ 0x27) ∧
      (∀ rest, '&' :: rest <:+ (escapeHtml v).toList →
        ∃ name c, (name, c) ∈ references ∧ reference name <+: '&' :: rest) ∧
      decode (escapeHtml v).toList = v.toList) ∧
    Function.Injective escapeHtml ∧
    (∀ v w, escapeHtml (v ++ w) = escapeHtml v ++ escapeHtml w) ∧
    ∀ request approval,
      (∃ value, scrapeRequest (renderApprovalPage request approval) = some value ∧
        decode value.toList = request.toList) ∧
      tokens (renderApprovalPage request approval) = approvalTokens request approval ∧
      ∀ request' clientId redirectUri resource,
        (tokens (renderApprovalPage request' { approval with
          clientId := clientId, redirectUri := redirectUri, resource := resource })).map Token.shape
          = (tokens (renderApprovalPage request approval)).map Token.shape := by
  refine ⟨fun v => ⟨?_, ?_, decode_escapeHtml v⟩, ?_, escapeHtml_append, fun request approval =>
    ⟨?_, tokens_renderApprovalPage request approval, ?_⟩⟩
  · intro c hc
    have h := not_special_of_mem_escapeHtml hc
    simp only [Special, not_or] at h
    exact h
  · intro rest h
    exact reference_of_suffix h
  · intro v w h
    rw [← String.toList_inj, ← decode_escapeHtml v, h, decode_escapeHtml]
  · exact ⟨_, scrapeRequest_renderApprovalPage request approval, decode_escapeHtml request⟩
  · intro request' clientId redirectUri resource
    rw [tokens_renderApprovalPage, tokens_renderApprovalPage]
    simp only [approvalTokens, List.map_append, List.map_cons]
    rfl

end EngramMcp
