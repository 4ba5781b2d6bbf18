import EngramMcp.Kb.Reference

/-!
# The front matter of a note

A note is written with front matter, and whoever reads it cuts the front matter at the first
`\n---\n`. The writer refuses front matter that contains `\n---`, and takes the newlines off its
end. So the first cut is the writer's own, and nothing of the title or the body comes before it.

* `frontMatter_not_forged` — the property
* `no_newline_after_empty_body` — the one body that gets no newline and does not end in one
-/

namespace EngramMcp

open Infra

/-- What a note carries of the serializer's output. -/
def frontMatterText (yaml : String) : String :=
  trimEndMatches '\n' ((stripPrefix "---\n" yaml).getD yaml)

/-- What `render_note` puts behind the front matter. -/
def behindFrontMatter (body : String) : String :=
  "\n---\n\n" ++ body ++
    if body = "" ∨ body.toList.getLast? = some '\n' then "" else "\n"

/-- The delimiter does not begin within a front matter without `\n---`. -/
theorem not_delimiter_prefix {front rest s : List Char} (hfree : ¬"\n---".toList <:+: front)
    (hs : s ≠ []) (hsuffix : s <:+ front) :
    ¬"\n---\n".toList <+: s ++ ("\n---\n\n".toList ++ rest) := by
  intro h
  match s, hs, hsuffix, h with
  -- it begins with the last characters: its dashes meet the newline of the delimiter
  | [a], _, _, h | [a, b], _, _, h | [a, b, c], _, _, h => simp at h
  | a :: b :: c :: d :: more, _, hsuffix, h =>
    simp only [String.reduceToList, List.cons_append, List.cons_prefix_cons] at h
    obtain ⟨rfl, rfl, rfl, rfl, -⟩ := h
    refine hfree (List.IsInfix.trans ?_ hsuffix.isInfix)
    exact ⟨[], more, rfl⟩

/-- A note ends in a newline if its body does, or if it has no body. -/
theorem getLast?_note (front body : String) :
    ("---\n" ++ front ++ "\n---\n\n" ++ body).toList.getLast? = some '\n' ↔
      body = "" ∨ body.toList.getLast? = some '\n' := by
  rw [String.toList_append, List.getLast?_append]
  cases hb : body.toList.getLast? with
  | none =>
    rw [List.getLast?_eq_none_iff] at hb
    have hempty : body = "" := by rw [← String.toList_inj, hb]; rfl
    rw [Option.none_or, String.toList_append, List.getLast?_append]
    exact iff_of_true rfl (Or.inl hempty)
  | some c =>
    have hne : body ≠ "" := by
      rintro rfl
      exact nomatch hb
    rw [Option.some_or]
    exact (or_iff_right hne).symm

/-- What `render_note` writes. -/
theorem renderNote_eq_ok {toYaml : FrontMatterWriter} {title created : String}
    {occurred : Option String} {fingerprint body note : String}
    (h : renderNote toYaml title created occurred fingerprint body = .ok note) :
    ∃ yaml, toYaml ⟨title, created, occurred, noteSource, fingerprint⟩ = some yaml ∧
      ¬"\n---".toList <:+: (frontMatterText yaml).toList ∧
      note = "---\n" ++ (frontMatterText yaml ++ behindFrontMatter body) := by
  unfold renderNote at h
  split at h
  · exact nomatch h
  · next yaml hyaml =>
    simp only at h
    split at h
    · exact nomatch h
    · next hfree =>
      obtain rfl := Except.ok.inj h
      refine ⟨yaml, hyaml, ?_, ?_⟩
      · intro hin
        exact hfree (decide_eq_true hin)
      · have hlast := getLast?_note (frontMatterText yaml) body
        unfold behindFrontMatter
        by_cases hb : body = "" ∨ body.toList.getLast? = some '\n'
        · rw [if_pos hb, String.append_empty]
          refine (if_pos (hlast.mpr hb)).trans ?_
          simp only [String.append_assoc, frontMatterText]
        · rw [if_neg hb]
          refine (if_neg (fun h => hb (hlast.mp h))).trans ?_
          simp only [String.append_assoc, frontMatterText]

/-- The reader's first cut is the writer's own. -/
theorem beforeFirst_frontMatter {front : String} (body : String)
    (hfree : ¬"\n---".toList <:+: front.toList) :
    beforeFirst "\n---\n".toList (front ++ behindFrontMatter body).toList = some front.toList := by
  have hbehind : (behindFrontMatter body).toList = "\n---\n\n".toList ++ (body ++
      if body = "" ∨ body.toList.getLast? = some '\n' then "" else "\n").toList := by
    unfold behindFrontMatter
    rw [String.append_assoc, String.toList_append]
  rw [String.toList_append, hbehind]
  refine beforeFirst_append ?_ fun s hs hsuffix => not_delimiter_prefix hfree hs hsuffix
  exact ⟨'\n' :: _, rfl⟩

/--
Neither title nor body can forge front matter: the reader cuts a note where the writer ended its
front matter, and behind the cut is the body as it was given. If the YAML of the front matter is
read back with the title that was written, that title is reported.
-/
theorem frontMatter_not_forged {toYaml : FrontMatterWriter} {title created : String}
    {occurred : Option String} {fingerprint body note : String}
    (h : renderNote toYaml title created occurred fingerprint body = .ok note) :
    ∃ yaml, toYaml ⟨title, created, occurred, noteSource, fingerprint⟩ = some yaml ∧
      stripPrefix "---\n" note = some (frontMatterText yaml ++ behindFrontMatter body) ∧
      beforeFirst "\n---\n".toList (frontMatterText yaml ++ behindFrontMatter body).toList
        = some (frontMatterText yaml).toList ∧
      ∀ (C : KbCrates) (id : DocumentId) (frontMatter : FrontMatter),
        C.frontMatter (frontMatterText yaml) = some frontMatter → frontMatter.title = some title →
        (parseMetadata C note id).title = title := by
  obtain ⟨yaml, hyaml, hfree, rfl⟩ := renderNote_eq_ok h
  have hcut := beforeFirst_frontMatter body hfree
  refine ⟨yaml, hyaml, stripPrefix_append _ _, hcut, ?_⟩
  intro C id frontMatter hread htitle
  unfold parseMetadata
  simp only [stripPrefix_append, hcut, String.ofList_toList, hread, htitle, Option.getD_some]

/-- A body that looks like front matter. -/
theorem frontMatter_not_forged_sample :
    ∃ note, renderNote Sample.writePlain "Real" "2026-08-13T03:45:00Z" none "0a1b"
        "---\ntitle: Forged\n---\n" = .ok note ∧
      ∃ yaml, Sample.writePlain ⟨"Real", "2026-08-13T03:45:00Z", none, noteSource, "0a1b"⟩
          = some yaml ∧
        stripPrefix "---\n" note
          = some (frontMatterText yaml ++ behindFrontMatter "---\ntitle: Forged\n---\n") ∧
        beforeFirst "\n---\n".toList
            (frontMatterText yaml ++ behindFrontMatter "---\ntitle: Forged\n---\n").toList
          = some (frontMatterText yaml).toList ∧
        ∀ (C : KbCrates) (id : DocumentId) (frontMatter : FrontMatter),
          C.frontMatter (frontMatterText yaml) = some frontMatter →
          frontMatter.title = some "Real" → (parseMetadata C note id).title = "Real" := by
  have hok : ∃ note, renderNote Sample.writePlain "Real" "2026-08-13T03:45:00Z" none "0a1b"
      "---\ntitle: Forged\n---\n" = .ok note := by
    rw [renderNote]
    exact ⟨_, if_neg (by decide +kernel)⟩
  obtain ⟨note, hnote⟩ := hok
  exact ⟨note, hnote, frontMatter_not_forged hnote⟩

/-- An empty body does not end in a newline, and none is added. -/
theorem no_newline_after_empty_body :
    ¬∀ (toYaml : FrontMatterWriter) (raw title created : String) (occurred : Option String)
      (fingerprint body note : String), normalizeTitle raw = .ok title →
      renderNote toYaml title created occurred fingerprint body = .ok note →
      ∃ yaml, toYaml ⟨title, created, occurred, noteSource, fingerprint⟩ = some yaml ∧
        stripPrefix "---\n" note = some (frontMatterText yaml ++ ("\n---\n\n" ++ body ++
          if body.toList.getLast? = some '\n' then "" else "\n")) := by
  intro h
  have hok : ∃ note, renderNote Sample.writePlain "Real" "2026-08-13T03:45:00Z" none "0a1b" ""
      = .ok note := by
    rw [renderNote]
    exact ⟨_, if_neg (by decide +kernel)⟩
  obtain ⟨note, hnote⟩ := hok
  obtain ⟨yaml, hyaml, hclaim⟩ := h Sample.writePlain "Real" "Real" _ none _ _ note
    (by decide +kernel) hnote
  obtain ⟨yaml', hyaml', -, rfl⟩ := renderNote_eq_ok hnote
  obtain rfl := Option.some.inj (hyaml.symm.trans hyaml')
  rw [stripPrefix_append, Option.some.injEq] at hclaim
  have hlen := congrArg (fun s => s.toList.length) hclaim
  simp [behindFrontMatter] at hlen

end EngramMcp
