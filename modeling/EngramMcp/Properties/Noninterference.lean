import EngramMcp.Kb.Reference
import EngramMcp.Kb.Search

/-!
# What a scope cannot see

Two knowledge bases that agree on `INDEX.md` and on the directories of a scope answer every
request of that scope alike, whatever else they hold: files that the scope may not read do not
change the ranking, the truncation or the error of a search.

An access goes through the first name of the id. A scope may only read ids whose first name is
one of the names on which the two agree, and a path without `..` does not leave the entry it
begins with.

* `openRegularFile_congr` — reading depends on the entry of the first name only
* `AgreeOn.candidateIds_eq`, `AgreeOn.readLimited_eq` — the two stores list and read alike
* `tech_noninterference` — the property for `kb:tech`
-/

namespace EngramMcp

open Infra DocumentStore

/--
Two stores with the same settings whose knowledge bases agree on everything that a scope may
see. Their roots may differ, and so may all other entries.
-/
structure AgreeOn (scope : AccessScope) (store : DocumentStore) (fs : FileSystem)
    (store' : DocumentStore) (fs' : FileSystem) : Prop where
  scopeDirectories : store.scopeDirectories = store'.scopeDirectories
  maxReadBytes : store.maxReadBytes = store'.maxReadBytes
  maxSearchFileBytes : store.maxSearchFileBytes = store'.maxSearchFileBytes
  index : (store.rootFd fs).child (utf8 "INDEX.md") = (store'.rootFd fs').child (utf8 "INDEX.md")
  roots : ∀ d ∈ store.scopeRoots scope,
    (store.rootFd fs).child (utf8 d) = (store'.rootFd fs').child (utf8 d)

theorem mapM_congr {ε α β : Type} {f g : α → Except ε β} {l : List α}
    (h : ∀ x ∈ l, f x = g x) : l.mapM f = l.mapM g := by
  induction l with
  | nil => rfl
  | cons x l ih =>
    rw [List.mapM_cons, List.mapM_cons, h x List.mem_cons_self,
      ih fun y hy => h y (List.mem_cons_of_mem _ hy)]

/-- Reading depends on the entry of the first name only. -/
theorem openRegularFile_congr {kb kb' : Node} {id : DocumentId} {name : Bytes}
    (hhead : (names id.path).head? = some name) (hchild : kb.child name = kb'.child name) :
    openRegularFile kb id = openRegularFile kb' id := by
  obtain ⟨n, more, hseg, hname, hdd, hn⟩ :=
    exists_segments_of_all_normal id.path_ne_nil id.exists_normal
  rw [hhead, Option.some.injEq] at hn
  subst hn
  unfold openRegularFile
  rw [resolveBeneath_congr hseg hname hdd hchild]
  cases hr : resolveBeneath kb' id.path with
  | error e => rfl
  | ok trail =>
    cases trail with
    | nil => exact absurd rfl (resolveBeneath_ne_nil hseg hname hdd hr)
    | cons entry up => rfl

/-- The first name of an id that a scope may read. -/
theorem head?_names_of_isAllowed {store : DocumentStore} {scope : AccessScope} {id : DocumentId}
    (h : store.isAllowed scope id = true) :
    (names id.path).head? = some (utf8 "INDEX.md") ∨
      ∃ d ∈ store.scopeRoots scope, (names id.path).head? = some (utf8 d) := by
  rcases isAllowed_iff.mp h with hi | ⟨d, hd, ht⟩
  · left
    rw [DocumentId.path, hi]
    decide +kernel
  · right
    exact ⟨d, hd, DocumentId.topLevel_eq_some_iff.mp ht⟩

namespace AgreeOn

variable {C : KbCrates} {scope : AccessScope} {store store' : DocumentStore}
  {fs fs' : FileSystem}

theorem scopeRoots_eq (h : AgreeOn scope store fs store' fs') :
    store.scopeRoots scope = store'.scopeRoots scope := by
  unfold scopeRoots
  rw [h.scopeDirectories]

theorem isAllowed_eq (h : AgreeOn scope store fs store' fs') (id : DocumentId) :
    store.isAllowed scope id = store'.isAllowed scope id := by
  unfold isAllowed
  rw [h.scopeDirectories]

theorem indexIds_eq (h : AgreeOn scope store fs store' fs') :
    indexIds (store.rootFd fs) = indexIds (store'.rootFd fs') := by
  unfold indexIds hasIndex
  rw [h.index]

/-- The two stores list the same ids, or fail with the same error. -/
theorem candidateIds_eq (h : AgreeOn scope store fs store' fs') :
    store.candidateIds C fs scope = store'.candidateIds C fs' scope := by
  have hwalk : (store.scopeRoots scope).mapM (topLevelIds C (store.rootFd fs))
      = (store.scopeRoots scope).mapM (topLevelIds C (store'.rootFd fs')) := by
    refine mapM_congr fun d hd => ?_
    unfold topLevelIds
    rw [h.roots d hd]
  unfold candidateIds
  rw [h.indexIds_eq, hwalk, h.scopeRoots_eq]

/-- The two stores read the same document, or fail with the same error. -/
theorem readLimited_eq (h : AgreeOn scope store fs store' fs') (id : DocumentId)
    (maxBytes : Nat) :
    store.readLimited C fs scope id maxBytes = store'.readLimited C fs' scope id maxBytes := by
  unfold readLimited
  rw [← h.isAllowed_eq id]
  cases ha : store.isAllowed scope id with
  | false => rfl
  | true =>
    have hopen : openRegularFile (store.rootFd fs) id
        = openRegularFile (store'.rootFd fs') id := by
      rcases head?_names_of_isAllowed ha with hi | ⟨d, hd, hn⟩
      · exact openRegularFile_congr hi h.index
      · exact openRegularFile_congr hn (h.roots d hd)
    rw [hopen]

/-- A search of the scope gives the same result or the same error. -/
theorem search_eq (h : AgreeOn scope store fs store' fs') (query : String) (limit : Option Nat)
    (maxResponseBytes : Nat) :
    store.search C fs scope query limit maxResponseBytes
      = store'.search C fs' scope query limit maxResponseBytes := by
  refine search_congr h.candidateIds_eq (fun id => ?_) query limit maxResponseBytes
  unfold readForSearch
  rw [h.maxSearchFileBytes, h.readLimited_eq]

/-- Fetching gives the same result or the same error, for every spelling of an id. -/
theorem fetch_eq (h : AgreeOn scope store fs store' fs') (value : String) :
    (DocumentId.parse value >>= store.read C fs scope)
      = (DocumentId.parse value >>= store'.read C fs' scope) := by
  have hread : store.read C fs scope = store'.read C fs' scope := by
    funext id
    unfold DocumentStore.read
    rw [h.maxReadBytes, h.readLimited_eq]
  rw [hread]

end AgreeOn

/--
Two knowledge bases that agree on `INDEX.md` and on everything under the public directories give
`kb:tech` the same answers: the same results or the same error for every search, and the same
document or the same error for every string that is fetched.
-/
theorem tech_noninterference {C : KbCrates} {store store' : DocumentStore} {fs fs' : FileSystem}
    (hdirs : store.scopeDirectories = store'.scopeDirectories)
    (hread : store.maxReadBytes = store'.maxReadBytes)
    (hsearch : store.maxSearchFileBytes = store'.maxSearchFileBytes)
    (hindex : (store.rootFd fs).child (utf8 "INDEX.md")
      = (store'.rootFd fs').child (utf8 "INDEX.md"))
    (hpublic : ∀ d ∈ store.scopeDirectories.public,
      (store.rootFd fs).child (utf8 d) = (store'.rootFd fs').child (utf8 d)) :
    (∀ (query : String) (limit : Option Nat) (maxResponseBytes : Nat),
      store.search C fs .tech query limit maxResponseBytes
        = store'.search C fs' .tech query limit maxResponseBytes) ∧
    ∀ value : String, (DocumentId.parse value >>= store.read C fs .tech)
      = (DocumentId.parse value >>= store'.read C fs' .tech) := by
  have hagree : AgreeOn .tech store fs store' fs' := by
    refine ⟨hdirs, hread, hsearch, hindex, fun d hd => hpublic d (BTreeSet.mem_def.mpr ?_)⟩
    unfold scopeRoots at hd
    simpa [AccessScope.allowsPrivate] using hd
  exact ⟨hagree.search_eq, hagree.fetch_eq⟩

section

open Sample

/-- A private directory that cannot be listed does not change a search by `kb:tech`. -/
theorem tech_noninterference_unreadable :
    (∀ (query : String) (limit : Option Nat) (maxResponseBytes : Nat),
      Sample.store.search kbCrates (fileSystem publicKb) .tech query limit maxResponseBytes
        = Sample.store.search kbCrates (fileSystem privateKb) .tech query limit maxResponseBytes) ∧
    ∀ value : String,
      (DocumentId.parse value >>= Sample.store.read kbCrates (fileSystem publicKb) .tech)
        = (DocumentId.parse value >>= Sample.store.read kbCrates (fileSystem privateKb) .tech) := by
  have hroot : ∀ kb, Sample.store.rootFd (fileSystem kb) = kb := by
    intro kb
    simp [DocumentStore.rootFd, Sample.store, fileSystem, dir, Node.at]
  have hchild : ∀ d : String, d ≠ "90_private" →
      publicKb.child (utf8 d) = privateKb.child (utf8 d) := by
    intro d hd
    refine (Node.child_append ?_).symm
    simpa [name] using hd
  refine tech_noninterference rfl rfl rfl ?_ fun d hd => ?_
  · rw [hroot, hroot]
    exact hchild _ (by decide)
  · rw [hroot, hroot]
    refine hchild d ?_
    rintro rfl
    exact absurd hd (by decide +kernel)

end

end EngramMcp
