import EngramMcp.Infra.Utf8

/-!
# Paths

`std::path` on Unix and the segments the kernel walks. A path is a byte string; both sides cut
it at `/`, and they differ in what they do with the pieces. The kernel sees every piece.
`Path::components` drops the empty ones and every `.` but a leading one.

* `components_intercalate` — the components of names joined by `/` are these names
* `length_intercalate_names_le` — the joined names of a path are no longer than the path
-/

namespace Infra

/-- The separator. -/
def slash : UInt8 := ascii '/'

/-- The byte `.`. -/
def dot : UInt8 := ascii '.'

/-- What stands between the separators, empty pieces included. -/
def segments (p : Bytes) : List Bytes := p.splitOn slash

/-- `std::path::Component`. -/
inductive Component
  | rootDir
  | curDir
  | parentDir
  | normal (name : Bytes)
  deriving DecidableEq, Repr

/-- `Component::as_os_str`. -/
def Component.asOsStr : Component → Bytes
  | rootDir => [slash]
  | curDir => [dot]
  | parentDir => [dot, dot]
  | normal name => name

/-- `Components::parse_single_component`. -/
def parseSingleComponent (seg : Bytes) : Option Component :=
  if seg = [] ∨ seg = [dot] then none
  else if seg = [dot, dot] then some .parentDir
  else some (.normal seg)

/-- What `components` yields before the first separator is dealt with: `/`, or a leading `.`. -/
def firstComponent (p : Bytes) : List Component :=
  if p.head? = some slash then [.rootDir]
  else if (segments p).head? = some [dot] then [.curDir]
  else []

/-- `Path::components`. -/
def components (p : Bytes) : List Component :=
  firstComponent p ++ (segments p).filterMap parseSingleComponent

/-- `Path::file_name`. -/
def fileName (p : Bytes) : Option Bytes :=
  match (components p).getLast? with
  | some (.normal name) => some name
  | _ => none

/-- `rsplit_file_at_dot`: the part before the last dot and the part after it. -/
def rsplitFileAtDot (file : Bytes) : Option Bytes × Option Bytes :=
  if file = [dot, dot] then (some file, none)
  else
    match file.reverse.dropWhile (· != dot) with
    | [] => (none, some file)
    | _ :: before =>
      if before = [] then (some file, none)
      else (some before.reverse, some (file.reverse.takeWhile (· != dot)).reverse)

/-- `Path::extension`. -/
def extension (p : Bytes) : Option Bytes :=
  (fileName p).bind fun file =>
    let (before, after) := rsplitFileAtDot file
    before.bind fun _ => after

/-- `Path::file_stem`. -/
def fileStem (p : Bytes) : Option Bytes :=
  (fileName p).bind fun file =>
    let (before, after) := rsplitFileAtDot file
    before.or after

/-- `Path::is_absolute`. -/
def isAbsolute (p : Bytes) : Bool := p.head? == some slash

/-! ## Names -/

/-- A name of a directory entry: one segment that `Path` and the kernel both take as a name. -/
def IsName (b : Bytes) : Prop :=
  b ≠ [] ∧ slash ∉ b ∧ b ≠ [dot] ∧ b ≠ [dot, dot]

instance (b : Bytes) : Decidable (IsName b) := inferInstanceAs (Decidable (_ ∧ _))

theorem IsName.parseSingleComponent {b : Bytes} (h : IsName b) :
    parseSingleComponent b = some (.normal b) := by
  obtain ⟨h0, -, h1, h2⟩ := h
  unfold Infra.parseSingleComponent
  rw [if_neg (by simp [h0, h1]), if_neg h2]

/-- No piece contains the separator. -/
theorem slash_not_mem_of_mem_segments {p seg : Bytes} (h : seg ∈ segments p) : slash ∉ seg := by
  unfold segments at h
  rw [List.splitOn_eq_splitOnP] at h
  induction p generalizing seg with
  | nil =>
    rw [List.splitOnP_nil, List.mem_singleton] at h
    simp [h]
  | cons x p ih =>
    rw [List.splitOnP_cons_eq_if_modifyHead] at h
    by_cases hx : x = slash
    · rw [if_pos (by rw [hx]; exact beq_self_eq_true _)] at h
      rcases List.mem_cons.mp h with rfl | h
      · simp
      · exact ih h
    · rw [if_neg (by simpa using hx)] at h
      cases hs : p.splitOnP (· == slash) with
      | nil => exact absurd hs (List.splitOnP_ne_nil _ p)
      | cons s rest =>
        rw [hs, List.modifyHead_cons] at h
        rw [hs] at ih
        rcases List.mem_cons.mp h with rfl | h
        · intro hm
          rcases List.mem_cons.mp hm with hm | hm
          · exact hx hm.symm
          · exact ih List.mem_cons_self hm
        · exact ih (List.mem_cons_of_mem _ h)

@[simp] theorem intercalate_segments (p : Bytes) : [slash].intercalate (segments p) = p :=
  List.intercalate_splitOn slash

theorem segments_ne_nil (p : Bytes) : segments p ≠ [] := List.splitOn_ne_nil slash p

theorem segments_intercalate {names : List Bytes} (hne : names ≠ [])
    (h : ∀ n ∈ names, slash ∉ n) : segments ([slash].intercalate names) = names :=
  List.splitOn_intercalate slash h hne

theorem segments_of_not_mem {p : Bytes} (h : slash ∉ p) : segments p = [p] :=
  List.splitOn_eq_singleton h

theorem head?_intercalate {n : Bytes} {names : List Bytes} (hn : n ≠ []) :
    ([slash].intercalate (n :: names)).head? = n.head? := by
  cases names with
  | nil => rw [List.intercalate_singleton]
  | cons m rest =>
    rw [List.intercalate_cons_cons, List.append_assoc, List.head?_append_of_ne_nil _ hn]

theorem head?_ne_slash {n : Bytes} (h : slash ∉ n) : n.head? ≠ some slash :=
  fun hh => h (List.mem_of_head? hh)

/-- The components of names joined by `/` are these names. -/
theorem components_intercalate {names : List Bytes} (h : ∀ n ∈ names, IsName n) :
    components ([slash].intercalate names) = names.map .normal := by
  cases names with
  | nil => decide
  | cons n rest =>
    have hn : IsName n := h n List.mem_cons_self
    have hseg : segments ([slash].intercalate (n :: rest)) = n :: rest :=
      segments_intercalate (by simp) fun m hm => (h m hm).2.1
    have hfirst : firstComponent ([slash].intercalate (n :: rest)) = [] := by
      unfold firstComponent
      rw [hseg, head?_intercalate hn.1, if_neg (head?_ne_slash hn.2.1)]
      rw [if_neg (by simpa using hn.2.2.1)]
    unfold components
    rw [hfirst, hseg, List.nil_append]
    have hall : ∀ l : List Bytes, (∀ m ∈ l, IsName m) →
        l.filterMap parseSingleComponent = l.map .normal := by
      intro l
      induction l with
      | nil => intro _; rfl
      | cons m l ih =>
        intro hl
        rw [List.filterMap_cons, (hl m List.mem_cons_self).parseSingleComponent, List.map_cons,
          ih fun x hx => hl x (List.mem_cons_of_mem _ hx)]
    exact hall _ h

/-- A text that is not empty, does not begin with `.` and has no `/` is a name. -/
theorem isName_utf8 {s : String} (h0 : s ≠ "") (hdot : s.toList.head? ≠ some '.')
    (hslash : '/' ∉ s.toList) : IsName (utf8 s) := by
  refine ⟨fun hc => h0 (utf8_eq_nil_iff.mp hc), fun hc => ?_, fun hc => ?_, fun hc => ?_⟩
  · exact hslash ((mem_utf8_iff (by decide)).mp hc)
  · exact hdot ((head?_utf8_iff (by decide)).mp (by rw [hc]; rfl))
  · exact hdot ((head?_utf8_iff (by decide)).mp (by rw [hc]; rfl))

/-- A name by itself is a path of one component. -/
theorem components_name {n : Bytes} (h : IsName n) : components n = [.normal n] := by
  have hone : ∀ m ∈ [n], IsName m := by simpa using h
  simpa using components_intercalate hone

theorem fileName_intercalate {names : List Bytes} {n : Bytes} (h : ∀ m ∈ names, IsName m)
    (hn : IsName n) : fileName ([slash].intercalate (names ++ [n])) = some n := by
  unfold fileName
  rw [components_intercalate (by
    intro m hm
    rcases List.mem_append.mp hm with hm | hm
    · exact h m hm
    · rw [List.mem_singleton.mp hm]; exact hn)]
  simp

/-- A file name with an extension. -/
theorem rsplitFileAtDot_append {stem ext : Bytes} (hstem : stem ≠ []) (hext : dot ∉ ext)
    (hne : ext ≠ []) : rsplitFileAtDot (stem ++ dot :: ext) = (some stem, some ext) := by
  have hdots : stem ++ dot :: ext ≠ [dot, dot] := by
    intro h
    have hlen := congrArg List.length h
    have h1 := List.length_pos_iff.mpr hstem
    have h2 := List.length_pos_iff.mpr hne
    simp only [List.length_append, List.length_cons, List.length_nil] at hlen
    omega
  have hrev : (stem ++ dot :: ext).reverse = ext.reverse ++ dot :: stem.reverse := by simp
  have hmem : dot ∉ ext.reverse := by simpa using hext
  unfold rsplitFileAtDot
  rw [if_neg hdots, hrev, dropWhile_ne_append hmem, takeWhile_ne_append hmem]
  simp [hstem]

/-! ## Paths of names only -/

/-- The pieces of a path that the kernel looks up as names. -/
def names (p : Bytes) : List Bytes :=
  (segments p).filter fun seg => decide (seg ≠ [] ∧ seg ≠ [dot])

/--
A path whose components are all normal: it is relative, does not begin with `.`, and no piece
of it is `..`.
-/
theorem segments_of_all_normal {p : Bytes} (h : ∀ c ∈ components p, ∃ n, c = .normal n) :
    p.head? ≠ some slash ∧ (segments p).head? ≠ some [dot] ∧ [dot, dot] ∉ segments p := by
  have hfirst : firstComponent p = [] := by
    cases hf : firstComponent p with
    | nil => rfl
    | cons c rest =>
      obtain ⟨n, rfl⟩ := h c (by rw [components, hf]; simp)
      unfold firstComponent at hf
      split at hf
      · simp at hf
      · split at hf <;> simp at hf
  unfold firstComponent at hfirst
  split at hfirst
  · simp at hfirst
  · next h1 =>
    split at hfirst
    · simp at hfirst
    · next h2 =>
      refine ⟨h1, h2, fun hm => ?_⟩
      have hp : Component.parentDir ∈ components p := by
        unfold components
        exact List.mem_append_right _ (List.mem_filterMap.mpr ⟨_, hm, by decide⟩)
      obtain ⟨n, hn⟩ := h _ hp
      cases hn

/-- The components of such a path are its names. -/
theorem components_of_all_normal {p : Bytes} (h : ∀ c ∈ components p, ∃ n, c = .normal n) :
    components p = (names p).map .normal := by
  obtain ⟨h1, h2, h3⟩ := segments_of_all_normal h
  have hfirst : firstComponent p = [] := by rw [firstComponent, if_neg h1, if_neg h2]
  have hall : ∀ l : List Bytes, [dot, dot] ∉ l → l.filterMap parseSingleComponent
      = (l.filter fun seg => decide (seg ≠ [] ∧ seg ≠ [dot])).map .normal := by
    intro l
    induction l with
    | nil => intro _; rfl
    | cons seg l ih =>
      intro hl
      rw [List.mem_cons, not_or] at hl
      rw [List.filterMap_cons, List.filter_cons, ih hl.2]
      unfold parseSingleComponent
      by_cases hs : seg = [] ∨ seg = [dot]
      · rw [if_pos hs, if_neg (by rcases hs with rfl | rfl <;> simp)]
      · rw [if_neg hs, if_neg (Ne.symm hl.1)]
        rw [not_or] at hs
        rw [if_pos (by simpa using hs), List.map_cons]
  unfold components
  rw [hfirst, List.nil_append, hall _ h3]
  rfl

/-- Such a path begins with a name. -/
theorem exists_segments_of_all_normal {p : Bytes} (hne : p ≠ [])
    (h : ∀ c ∈ components p, ∃ n, c = .normal n) :
    ∃ n more, segments p = n :: more ∧ IsName n ∧ [dot, dot] ∉ more ∧
      (names p).head? = some n := by
  obtain ⟨hslash, hdot, hdd⟩ := segments_of_all_normal h
  cases hs : segments p with
  | nil => exact absurd hs (segments_ne_nil p)
  | cons n more =>
    rw [hs] at hdot hdd
    rw [List.mem_cons, not_or] at hdd
    -- an empty first piece would be an empty path or a leading separator
    have hn0 : n ≠ [] := by
      rintro rfl
      have hp := intercalate_segments p
      rw [hs] at hp
      cases more with
      | nil => rw [List.intercalate_singleton] at hp; exact hne hp.symm
      | cons m more =>
        rw [List.intercalate_cons_cons, List.nil_append] at hp
        rw [← hp] at hslash
        exact hslash rfl
    have hname : IsName n := by
      refine ⟨hn0, slash_not_mem_of_mem_segments (p := p) (by rw [hs]; simp), ?_, Ne.symm hdd.1⟩
      simpa using hdot
    refine ⟨n, more, rfl, hname, hdd.2, ?_⟩
    unfold names
    rw [hs, List.filter_cons, if_pos (by simp [hname.1, hname.2.2.1])]
    rfl

/-- The first name of a path that begins with a name. -/
theorem head?_names_intercalate {n : Bytes} (h : IsName n) (rest : List Bytes) :
    (names ([slash].intercalate (n :: rest))).head? = some n := by
  have hseg : ∃ more, segments ([slash].intercalate (n :: rest)) = n :: more := by
    cases rest with
    | nil =>
      rw [List.intercalate_singleton]
      exact ⟨[], segments_of_not_mem h.2.1⟩
    | cons m rest =>
      rw [List.intercalate_cons_cons, List.append_assoc, List.singleton_append]
      exact ⟨_, List.splitOn_append_cons_self_of_not_mem h.2.1 _⟩
  obtain ⟨more, hmore⟩ := hseg
  unfold names
  rw [hmore, List.filter_cons, if_pos (by simp [h.1, h.2.2.1])]
  rfl

/-- Joining texts and joining their bytes is the same. -/
theorem utf8_intercalate (l : List String) :
    utf8 ("/".intercalate l) = [slash].intercalate (l.map utf8) := by
  have hs : utf8 "/" = [slash] := by decide +kernel
  induction l with
  | nil => rfl
  | cons s l ih =>
    cases l with
    | nil => simp
    | cons t l =>
      rw [String.intercalate_cons_cons, utf8_append, utf8_append, ih, hs, List.map_cons,
        List.map_cons, List.map_cons, List.intercalate_cons_cons]

/-! ## Lengths -/

theorem length_intercalate_add_one {l : List Bytes} (h : l ≠ []) :
    ([slash].intercalate l).length + 1 = (l.map List.length).sum + l.length := by
  induction l with
  | nil => exact absurd rfl h
  | cons x l ih =>
    cases l with
    | nil => simp
    | cons y l =>
      have ih := ih (by simp)
      rw [List.intercalate_cons_cons]
      simp only [List.length_append, List.map_cons, List.sum_cons, List.length_cons,
        List.length_nil] at ih ⊢
      omega

theorem sum_length_le {l l' : List Bytes} (h : l.Sublist l') :
    (l.map List.length).sum ≤ (l'.map List.length).sum := by
  induction h with
  | slnil => exact le_rfl
  | cons x _ ih => simp only [List.map_cons, List.sum_cons]; omega
  | cons_cons x _ ih => simp only [List.map_cons, List.sum_cons]; omega

/-- Leaving pieces out does not make a path longer. -/
theorem length_intercalate_sublist {l l' : List Bytes} (h : l.Sublist l') :
    ([slash].intercalate l).length ≤ ([slash].intercalate l').length := by
  by_cases hl : l = []
  · subst hl; simp
  · have hl' : l' ≠ [] := by
      rintro rfl
      exact hl (List.sublist_nil.mp h)
    have h1 := length_intercalate_add_one hl
    have h2 := length_intercalate_add_one hl'
    have hsum : (l.map List.length).sum ≤ (l'.map List.length).sum := sum_length_le h
    have hlen := h.length_le
    omega

/-- The joined names of a path are no longer than the path. -/
theorem length_intercalate_names_le (p : Bytes) :
    ([slash].intercalate (names p)).length ≤ p.length := by
  have h := length_intercalate_sublist (List.filter_sublist (l := segments p)
    (p := fun seg => decide (seg ≠ [] ∧ seg ≠ [dot])))
  rw [intercalate_segments] at h
  exact h

theorem mem_intercalate {l : List Bytes} {n : Bytes} {b : UInt8} (hn : n ∈ l) (hb : b ∈ n) :
    b ∈ [slash].intercalate l := by
  induction l with
  | nil => simp at hn
  | cons x l ih =>
    cases l with
    | nil =>
      rw [List.mem_singleton.mp hn] at hb
      simpa using hb
    | cons y l =>
      rw [List.intercalate_cons_cons, List.mem_append, List.mem_append]
      rcases List.mem_cons.mp hn with rfl | hn
      · exact Or.inl (Or.inl hb)
      · exact Or.inr (ih hn)

/-- A byte of a piece is a byte of the path. -/
theorem mem_of_mem_names {p n : Bytes} {b : UInt8} (hn : n ∈ names p) (hb : b ∈ n) : b ∈ p := by
  rw [← intercalate_segments p]
  exact mem_intercalate (List.mem_filter.mp hn).1 hb

end Infra
