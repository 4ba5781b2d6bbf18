import EngramMcp.Infra.Lexical
import EngramMcp.Kb.Reference

/-!
# Path confinement

A document id is checked three times over: as a string, as the components of a path and by its
extension. The kernel follows its raw segments. Whatever the three checks let through leads to a
Markdown name at or below an entry that the scope may read.

* `endsWithMd_of_accepted` — the last name of an id ends in `.md`
* `confined_of_allowed` — the property
* `confined_trail` — the same of the file that the kernel opens
-/

namespace EngramMcp

open Infra

/-- The parts of a file name that is cut at its last dot. -/
theorem eq_append_of_rsplitFileAtDot {file before after : Bytes}
    (h : rsplitFileAtDot file = (some before, some after)) : file = before ++ dot :: after := by
  unfold rsplitFileAtDot at h
  split at h
  · simp at h
  · have hsplit := List.takeWhile_append_dropWhile (p := (· != dot)) (l := file.reverse)
    split at h
    · simp at h
    · next b rest hdrop =>
      split at h
      · simp at h
      · have hb : b = dot := by
          have hhead := List.head?_dropWhile_not (· != dot) file.reverse
          rw [hdrop] at hhead
          simpa using hhead
        simp only [Prod.mk.injEq, Option.some.injEq] at h
        rw [hdrop, hb] at hsplit
        -- the name was cut from its end
        have hfile := congrArg List.reverse hsplit
        rw [List.reverse_reverse, List.reverse_append, List.reverse_cons, List.append_assoc]
          at hfile
        rw [← hfile, ← h.1, ← h.2]
        rfl

namespace DocumentId

theorem fileName_path (id : DocumentId) : fileName id.path = (names id.path).getLast? := by
  unfold fileName
  rw [components_path, List.getLast?_map]
  cases (names id.path).getLast? <;> rfl

/-- The last name of an id ends in `.md`. -/
theorem endsWithMd_of_accepted (id : DocumentId) :
    ∃ name, (names id.path).getLast? = some name ∧ utf8 ".md" <:+ name := by
  have hext := (check_eq_ok_iff.mp id.accepted).2.2.2.1
  obtain ⟨after, hafter, hmd⟩ := Option.bind_eq_some_iff.mp hext
  unfold extension at hafter
  rw [show fileName (utf8 id.value) = _ from id.fileName_path] at hafter
  obtain ⟨name, hname, hafter⟩ := Option.bind_eq_some_iff.mp hafter
  refine ⟨name, hname, ?_⟩
  cases hr : rsplitFileAtDot name with
  | mk left right =>
    rw [hr] at hafter
    obtain ⟨before, rfl, rfl⟩ := Option.bind_eq_some_iff.mp hafter
    have hdotmd : utf8 ".md" = dot :: utf8 "md" := by decide +kernel
    rw [eq_append_of_rsplitFileAtDot hr, ← fromUtf8_eq_some_iff.mp hmd, hdotmd]
    exact List.suffix_append _ _

/-- A name of an id does not begin with a dot. -/
theorem head?_ne_dot {id : DocumentId} {name : Bytes} (h : name ∈ names id.path) :
    name.head? ≠ some dot := by
  have hmem : Component.normal name ∈ components id.path := by
    rw [id.components_path]
    exact List.mem_map_of_mem h
  obtain ⟨segment, hseg, hdot⟩ := (check_eq_ok_iff.mp id.accepted).2.2.2.2 _ hmem
  cases hseg
  exact fun hc => hdot ((head?_utf8_iff (by decide)).mp hc)

/-- Following the segments of an id leads to its names, without a step up. -/
theorem resolveLexically_path (id : DocumentId) :
    resolveLexically id.path = some (names id.path) ∧
      LexicalStep.up ∉ lexicalSteps id.path := by
  obtain ⟨hroot, -, hparent⟩ := segments_of_all_normal id.exists_normal
  refine ⟨resolveLexically_of_not_mem hroot hparent, fun hup => ?_⟩
  obtain ⟨seg, hseg, hstep⟩ := List.mem_map.mp hup
  rw [lexicalStep_eq_up hstep] at hseg
  exact hparent hseg

end DocumentId

/-- The first names that a scope may go through: `INDEX.md` by itself, or one of its directories. -/
def DocumentStore.Reaches (store : DocumentStore) (scope : AccessScope) (first : Bytes)
    (rest : List Bytes) : Prop :=
  (first = utf8 "INDEX.md" ∧ rest = []) ∨
  (∃ d ∈ store.scopeDirectories.public, first = utf8 d) ∨
  scope = .private ∧ ∃ d ∈ store.scopeDirectories.private, first = utf8 d

theorem names_index : names (utf8 "INDEX.md") = [utf8 "INDEX.md"] := by decide +kernel

/-- The names of an id that a scope may read. -/
theorem DocumentStore.reaches_of_allowed {store : DocumentStore} {scope : AccessScope}
    {id : DocumentId} (h : store.isAllowed scope id = true) :
    ∃ first rest, names id.path = first :: rest ∧ store.Reaches scope first rest := by
  rcases isAllowed_iff.mp h with hindex | ⟨d, hd, htop⟩
  · refine ⟨_, [], ?_, Or.inl ⟨rfl, rfl⟩⟩
    rw [DocumentId.path, hindex, names_index]
  · have hhead := DocumentId.topLevel_eq_some_iff.mp htop
    obtain ⟨rest, hrest⟩ := List.head?_eq_some_iff.mp hhead
    refine ⟨utf8 d, rest, hrest, Or.inr ?_⟩
    unfold scopeRoots at hd
    rcases List.mem_append.mp hd with hd | hd
    · exact Or.inl ⟨d, hd, rfl⟩
    · cases scope with
      | tech => simp [AccessScope.allowsPrivate] at hd
      | «private» => exact Or.inr ⟨rfl, d, hd, rfl⟩

/-- An id that was accepted and is allowed leads to a Markdown name the scope may read. -/
theorem confined_of_allowed {store : DocumentStore} {scope : AccessScope} {s : String}
    {id : DocumentId} (hparse : DocumentId.parse s = .ok id)
    (hallowed : store.isAllowed scope id = true) :
    (∃ first rest, resolveLexically (utf8 s) = some (first :: rest) ∧
      store.Reaches scope first rest ∧
      ∃ last, (first :: rest).getLast? = some last ∧ utf8 ".md" <:+ last) ∧
    LexicalStep.up ∉ lexicalSteps (utf8 s) ∧
    (∀ seg ∈ segments (utf8 s), seg ≠ [dot] → seg.head? ≠ some dot) ∧
    '\x00' ∉ s.toList ∧ '\\' ∉ s.toList := by
  obtain rfl := DocumentId.value_of_parse hparse
  have hcheck := DocumentId.check_eq_ok_iff.mp id.accepted
  obtain ⟨hresolve, hup⟩ := id.resolveLexically_path
  obtain ⟨first, rest, hnames, hreach⟩ := DocumentStore.reaches_of_allowed hallowed
  obtain ⟨last, hlast, hmd⟩ := id.endsWithMd_of_accepted
  rw [hnames] at hresolve hlast
  refine ⟨⟨first, rest, hresolve, hreach, last, hlast, hmd⟩, hup, ?_, hcheck.1.2.2,
    hcheck.2.1.2.2⟩
  -- an empty segment begins with nothing, and all the others are names
  intro seg hseg hdot
  by_cases h0 : seg = []
  · simp [h0]
  · exact DocumentId.head?_ne_dot (List.mem_filter.mpr ⟨hseg, by simp [h0, hdot]⟩)

/-- A public document whose id has empty segments and inner and trailing dots. -/
def Sample.dottedId : DocumentId := ⟨"10_tech//./rust.md/.", by decide +kernel⟩

theorem confined_of_allowed_dottedId :
    (∃ first rest, resolveLexically (utf8 Sample.dottedId.value) = some (first :: rest) ∧
      Sample.store.Reaches .tech first rest ∧
      ∃ last, (first :: rest).getLast? = some last ∧ utf8 ".md" <:+ last) ∧
    LexicalStep.up ∉ lexicalSteps (utf8 Sample.dottedId.value) ∧
    (∀ seg ∈ segments (utf8 Sample.dottedId.value), seg ≠ [dot] → seg.head? ≠ some dot) ∧
    '\x00' ∉ Sample.dottedId.value.toList ∧ '\\' ∉ Sample.dottedId.value.toList :=
  have hallowed : Sample.store.isAllowed .tech Sample.dottedId = true := by decide +kernel
  confined_of_allowed (DocumentId.parse_eq_ok Sample.dottedId.accepted) hallowed

/-- The file that the kernel opens for an allowed id lies where the id leads. -/
theorem confined_trail {store : DocumentStore} {scope : AccessScope} {kb : Node}
    {id : DocumentId} {trail : Trail} (hallowed : store.isAllowed scope id = true)
    (h : resolveBeneath kb id.path = .ok trail) :
    ∃ first rest, trail.names.map Name.bytes = first :: rest ∧ store.Reaches scope first rest := by
  obtain ⟨first, rest, hnames, hreach⟩ := DocumentStore.reaches_of_allowed hallowed
  have hkernel := resolveLexically_of_resolveBeneath h
  rw [id.resolveLexically_path.1, hnames, Option.some.injEq] at hkernel
  exact ⟨first, rest, hkernel.symm, hreach⟩

end EngramMcp
