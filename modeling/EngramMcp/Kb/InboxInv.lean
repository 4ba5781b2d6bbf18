import EngramMcp.Kb.InboxRun

/-!
# What a run leaves in the inbox

Any number of calls of `create_note` run side by side, cut into their steps. Every event
leaves the directory as it is, adds one empty file under a name that was absent, or writes a file,
in part or as a whole, for the call that added it (`step_files`). So the directory is the one at the
start and one file of its own for each call that got that far.

* `inboxInv_run` — the directory of a run, as a map
* `callInv_run` — the names that a call tried, and what it found there
* `kept_of_steps` — what is there stays
-/

namespace EngramMcp

open Infra InboxStore

variable {toYaml : FrontMatterWriter} {store : InboxStore}

namespace InboxState

/-- The file that a call made, as it is now. -/
def file? (s : InboxState) (i : Nat) : Option (Name × Node) :=
  (s.calls[i]?).bind fun entry => entry.2.file?

theorem file?_eq {s : InboxState} {i : Nat} {request : NoteRequest} {call : NoteCall}
    (h : s.calls[i]? = some (request, call)) : s.file? i = call.file? := by
  rw [file?, h, Option.bind_some]

theorem file?_begin (store : InboxStore) (request : NoteRequest) :
    (store.begin toYaml request).file? = none := by
  unfold InboxStore.begin
  split <;> rfl

theorem file?_append {s : InboxState} (dir : Node) (request : NoteRequest) :
    file? ⟨dir, s.calls ++ [(request, store.begin toYaml request)]⟩ = s.file? := by
  funext i
  unfold file?
  rcases Nat.lt_trichotomy i s.calls.length with h | h | h
  · rw [List.getElem?_append_left h]
  · subst h
    rw [List.getElem?_concat_length, List.getElem?_eq_none le_rfl, Option.bind_some,
      Option.bind_none, file?_begin]
  · rw [List.getElem?_eq_none (by rw [List.length_append, List.length_singleton]; omega),
      List.getElem?_eq_none h.le]

theorem file?_set {s : InboxState} {i : Nat} {request : NoteRequest} {call : NoteCall}
    (h : s.calls[i]? = some (request, call)) (dir : Node) (call' : NoteCall) :
    file? ⟨dir, s.calls.set i (request, call')⟩ = Function.update s.file? i call'.file? := by
  obtain ⟨hi, -⟩ := List.getElem?_eq_some_iff.mp h
  funext j
  unfold file?
  by_cases hj : j = i
  · subst hj
    rw [List.getElem?_set_self hi, Function.update_self]
    rfl
  · rw [List.getElem?_set_ne (Ne.symm hj), Function.update_of_ne hj]

end InboxState

/-- What an event does to the directory and to the files of the calls. -/
inductive FileStep (s s' : InboxState) : Prop
  | quiet : s'.dir = s.dir → s'.file? = s.file? → FileStep s s'
  | created (i : Nat) (entry : Name) : s.file? i = none → AddsFile s.dir s'.dir entry [] →
      s'.file? = Function.update s.file? i (some (entry, .file none none [])) → FileStep s s'
  | written (i : Nat) (entry : Name) (contents : Bytes) :
      s.file? i = some (entry, .file none none []) → s'.dir = writeFile s.dir entry contents →
      s'.file? = Function.update s.file? i (some (entry, .file none none contents)) →
      FileStep s s'

theorem step_files (toYaml : FrontMatterWriter) (store : InboxStore) (s : InboxState)
    (e : InboxEvent) : FileStep s (s.step toYaml store e) := by
  rcases InboxState.step_cases toYaml store s e with ⟨request, -, hs⟩ | ⟨_, _, -, -, hs⟩ |
    ⟨i, faults, request, call, call', dir', -, hi, hstep, hs⟩
  · rw [hs]
    exact .quiet rfl (InboxState.file?_append _ request)
  · rw [hs]
    exact .quiet rfl rfl
  · have hfile := InboxState.file?_eq hi
    rw [hs]
    have hset := InboxState.file?_set hi dir' call'
    -- a step that touches no file leaves the file of the call as it is
    have hquiet : call'.file? = call.file? →
        InboxState.file? ⟨dir', s.calls.set i (request, call')⟩ = s.file? := fun he => by
      rw [hset, he, ← hfile, Function.update_eq_self]
    cases hstep with
    | scanFailed => exact .quiet rfl (hquiet rfl)
    | refused => exact .quiet rfl (hquiet rfl)
    | admitted => exact .quiet rfl (hquiet rfl)
    | exhausted => exact .quiet rfl (hquiet rfl)
    | createFailed => exact .quiet rfl (hquiet rfl)
    | taken => exact .quiet rfl (hquiet rfl)
    | created hbytes hadds => exact .created i _ hfile hadds hset
    | written => exact .written i _ _ hfile rfl hset
    | writeFailed => exact .written i _ _ hfile rfl hset
    | returned => exact .quiet rfl (hquiet rfl)
    | leftBehind => exact .quiet rfl (hquiet rfl)
    | failed => exact .quiet rfl (hquiet rfl)

/-- The directory is the one at the start and one file for each call that made one. -/
structure InboxInv (dir₀ : Node) (s : InboxState) : Prop where
  kept : ∀ name node, dir₀.at [name] = some node → s.dir.at [name] = some node
  owned : ∀ i entry node, s.file? i = some (entry, node) → s.dir.at [entry] = some node
  absent : ∀ i entry node, s.file? i = some (entry, node) → dir₀.at [entry] = none
  distinct : ∀ i j entry node node', s.file? i = some (entry, node) →
    s.file? j = some (entry, node') → i = j
  covered : ∀ name node, s.dir.at [name] = some node →
    dir₀.at [name] = some node ∨ ∃ i, s.file? i = some (name, node)

/-- The file of one call changes and everything else stays. -/
theorem InboxInv.update {dir₀ : Node} {s s' : InboxState} {i : Nat} {entry : Name} {node : Node}
    (h : InboxInv dir₀ s) (hfile : s'.file? = Function.update s.file? i (some (entry, node)))
    (hdir : ∀ other, s'.dir.at [other] = if other = entry then some node else s.dir.at [other])
    (habsent : dir₀.at [entry] = none)
    (howner : ∀ j node', s.file? j = some (entry, node') → j = i)
    (hold : ∀ other node', s.file? i = some (other, node') → other = entry) : InboxInv dir₀ s' := by
  have hself : s'.file? i = some (entry, node) := by rw [hfile, Function.update_self]
  have hother : ∀ j, j ≠ i → s'.file? j = s.file? j := fun j hj => by
    rw [hfile, Function.update_of_ne hj]
  -- the other calls have other files
  have hne : ∀ j e n, j ≠ i → s.file? j = some (e, n) → e ≠ entry := by
    rintro j e n hj hf rfl
    exact hj (howner j n hf)
  refine ⟨fun name n hn => ?_, fun j e n hf => ?_, fun j e n hf => ?_, fun j k e n n' hj hk => ?_,
    fun name n hn => ?_⟩
  · rw [hdir, if_neg (by rintro rfl; rw [habsent] at hn; cases hn)]
    exact h.kept name n hn
  · by_cases hj : j = i
    · subst hj
      rw [hself] at hf
      cases hf
      rw [hdir, if_pos rfl]
    · rw [hother j hj] at hf
      rw [hdir, if_neg (hne j e n hj hf)]
      exact h.owned j e n hf
  · by_cases hj : j = i
    · subst hj
      rw [hself] at hf
      cases hf
      exact habsent
    · rw [hother j hj] at hf
      exact h.absent j e n hf
  · by_cases hji : j = i <;> by_cases hki : k = i
    · rw [hji, hki]
    · subst hji
      rw [hself] at hj
      cases hj
      rw [hother k hki] at hk
      exact absurd rfl (hne k _ n' hki hk)
    · subst hki
      rw [hself] at hk
      cases hk
      rw [hother j hji] at hj
      exact absurd rfl (hne j _ n hji hj)
    · rw [hother j hji] at hj
      rw [hother k hki] at hk
      exact h.distinct j k e n n' hj hk
  · rw [hdir] at hn
    split at hn
    · next he =>
      subst he
      cases hn
      exact Or.inr ⟨i, hself⟩
    · next he =>
      rcases h.covered name n hn with h0 | ⟨j, hj⟩
      · exact Or.inl h0
      · refine Or.inr ⟨j, ?_⟩
        by_cases hji : j = i
        · subst hji
          exact absurd (hold name n hj) he
        · rw [hother j hji]
          exact hj

theorem InboxInv.step {dir₀ : Node} {s : InboxState} (h : InboxInv dir₀ s) (e : InboxEvent) :
    InboxInv dir₀ (s.step toYaml store e) := by
  rcases step_files toYaml store s e with
    ⟨hdir, hfile⟩ | ⟨i, entry, hnone, hadds, hfile⟩ | ⟨i, entry, contents, hsome, hdir, hfile⟩
  · obtain ⟨hkept, howned, habsent, hdistinct, hcovered⟩ := h
    rw [← hdir] at hkept howned hcovered
    rw [← hfile] at howned habsent hdistinct hcovered
    exact ⟨hkept, howned, habsent, hdistinct, hcovered⟩
  · have hfree := hadds.at_eq_none
    refine h.update hfile hadds.at_eq ?_ ?_ ?_
    · cases h0 : dir₀.at [entry] with
      | none => rfl
      | some node => rw [h.kept entry node h0] at hfree; cases hfree
    · intro j node' hj
      rw [h.owned j entry node' hj] at hfree
      cases hfree
    · intro other node' hi
      rw [hnone] at hi
      cases hi
  · have hthere := h.owned i entry _ hsome
    refine h.update hfile ?_ (h.absent i entry _ hsome) ?_ ?_
    · rw [hdir]
      exact at_writeFile (by rw [hthere]; rfl)
    · exact fun j node' hj => h.distinct j i entry _ _ hj hsome
    · intro other node' hi
      rw [hsome] at hi
      cases hi
      rfl

/-- Before the first call. -/
theorem inboxInv_nil (dir : Node) : InboxInv dir ⟨dir, []⟩ :=
  ⟨fun _ _ => id, nofun, nofun, nofun, fun _ _ => Or.inl⟩

theorem inboxInv_run {s₀ s : InboxState} {h : List InboxEvent} (h0 : s₀.calls = [])
    (hr : InboxRun toYaml store s₀ h s) : InboxInv s₀.dir s := by
  obtain ⟨dir, calls⟩ := s₀
  obtain rfl : calls = [] := h0
  refine Steps.invariant (P := fun _ s => InboxInv dir s) ?_ (inboxInv_nil dir) hr
  rintro h s e s' hinv rfl
  exact hinv.step e

/-! ## What a call keeps -/

/-- A call goes on: with its file, which stays as it is once the write is over. -/
def NoteCall.Later (call call' : NoteCall) : Prop :=
  ∀ entry node, call.file? = some (entry, node) →
    ∃ node', call'.file? = some (entry, node') ∧
      ((∃ prepared name, call = .writing prepared name entry) ∨ call' = call)

theorem NoteCall.later_refl (call : NoteCall) : call.Later call :=
  fun _ node hf => ⟨node, hf, Or.inr rfl⟩

theorem NoteStep.later {faults : Faults} {dir dir' : Node} {call call' : NoteCall}
    (h : NoteStep store faults dir call call' dir') : call.Later call' := by
  intro entry node hf
  cases h with
  | written | writeFailed =>
    cases hf
    exact ⟨_, rfl, Or.inl ⟨_, _, rfl⟩⟩
  | returned | leftBehind => exact ⟨node, hf, Or.inr rfl⟩
  | scanFailed | refused | admitted | exhausted | createFailed | taken | created | failed =>
    cases hf

theorem NoteCall.Later.trans {c c' c'' : NoteCall} (h1 : c.Later c') (h2 : c'.Later c'') :
    c.Later c'' := by
  intro entry node hf
  obtain ⟨node', hf', hw | rfl⟩ := h1 entry node hf
  · obtain ⟨node'', hf'', -⟩ := h2 entry node' hf'
    exact ⟨node'', hf'', Or.inl hw⟩
  · exact h2 entry node hf

/-- A call that was made stays in its place, with its arguments. -/
theorem later_of_steps {t s : InboxState} {pre h : List InboxEvent}
    (hr : Steps (fun _ s e s' => s' = s.step toYaml store e) pre t h s) {i : Nat}
    {request : NoteRequest} {call : NoteCall} (hi : t.calls[i]? = some (request, call)) :
    ∃ call', s.calls[i]? = some (request, call') ∧ call.Later call' := by
  refine Steps.invariant (P := fun _ s => ∃ call', s.calls[i]? = some (request, call') ∧
    call.Later call') ?_ ⟨call, hi, call.later_refl⟩ hr
  rintro h s e s' ⟨call₁, hs, hlater⟩ rfl
  rcases InboxState.step_cases toYaml store s e with ⟨request', -, hstep⟩ |
    ⟨_, _, -, -, hstep⟩ | ⟨j, faults, request', callj, call', dir', -, hj, hnote, hstep⟩
  · rw [hstep]
    refine ⟨call₁, ?_, hlater⟩
    rw [List.getElem?_append_left (List.getElem?_eq_some_iff.mp hs).1]
    exact hs
  · rw [hstep]
    exact ⟨call₁, hs, hlater⟩
  · rw [hstep]
    by_cases hij : i = j
    · subst hij
      rw [hs] at hj
      cases hj
      refine ⟨call', ?_, hlater.trans hnote.later⟩
      exact List.getElem?_set_self (List.getElem?_eq_some_iff.mp hs).1
    · exact ⟨call₁, by rw [List.getElem?_set_ne (Ne.symm hij)]; exact hs, hlater⟩

/-- The file of a call that has yet to write it. -/
def InboxState.Unwritten (s : InboxState) (name : Name) : Prop :=
  ∃ (i : Nat) (request : NoteRequest) (prepared : Prepared) (fileName : String),
    s.calls[i]? = some (request, NoteCall.writing prepared fileName name)

/-- What is in the directory at some point of a run stays, and so does the content of every file
but those that are not written yet. -/
theorem kept_of_steps {s₀ t s : InboxState} {pre h : List InboxEvent} (h0 : s₀.calls = [])
    (hpre : InboxRun toYaml store s₀ pre t)
    (hr : Steps (fun _ s e s' => s' = s.step toYaml store e) pre t h s) {name : Name} {node : Node}
    (hn : t.dir.at [name] = some node) :
    (s.dir.at [name]).isSome = true ∧ (¬t.Unwritten name → s.dir.at [name] = some node) := by
  have hs := inboxInv_run h0 (hpre.trans hr)
  rcases (inboxInv_run h0 hpre).covered name node hn with hinit | ⟨i, hi⟩
  · have hkept := hs.kept name node hinit
    exact ⟨by rw [hkept]; rfl, fun _ => hkept⟩
  · obtain ⟨⟨request, call⟩, hcall, hfile⟩ := Option.bind_eq_some_iff.mp hi
    obtain ⟨call', hcall', hlater⟩ := later_of_steps hr hcall
    obtain ⟨node', hfile', hsame⟩ := hlater name node hfile
    have hthere := hs.owned i name node' (by rw [InboxState.file?_eq hcall']; exact hfile')
    refine ⟨by rw [hthere]; rfl, fun hwritten => ?_⟩
    rcases hsame with ⟨prepared, fileName, rfl⟩ | rfl
    · exact absurd ⟨i, request, prepared, fileName, hcall⟩ hwritten
    · rw [hfile] at hfile'
      cases hfile'
      exact hthere

/-! ## The names that a call tries -/

/-- The next name of a call. -/
def InboxState.Tries (s : InboxState) (i : Nat) (name : String) : Prop :=
  ∃ (request : NoteRequest) (prepared : Prepared) (rest : List String),
    s.calls[i]? = some (request, NoteCall.creating prepared (name :: rest))

/-- In the run a call tried a name while the directory had an entry of that name. -/
def TakenWhenTried (toYaml : FrontMatterWriter) (store : InboxStore) (s₀ : InboxState)
    (h : List InboxEvent) (i : Nat) (name : String) : Prop :=
  ∃ pre faults post t, h = pre ++ .advance i faults :: post ∧
    InboxRun toYaml store s₀ pre t ∧ t.Tries i name ∧
    ∃ entry : Name, entry.bytes = utf8 name ∧ (t.dir.at [entry]).isSome = true

/-- In the run a call tried a name that was absent, and added a file of that name. -/
def CreatedWhenTried (toYaml : FrontMatterWriter) (store : InboxStore) (s₀ : InboxState)
    (h : List InboxEvent) (i : Nat) (name : String) : Prop :=
  ∃ pre faults post t, h = pre ++ .advance i faults :: post ∧
    InboxRun toYaml store s₀ pre t ∧ t.Tries i name ∧
    ∃ entry : Name, entry.bytes = utf8 name ∧
      AddsFile t.dir (t.step toYaml store (.advance i faults)).dir entry []

/-- The names that a call tried before, each taken. -/
def Tried (toYaml : FrontMatterWriter) (store : InboxStore) (s₀ : InboxState)
    (h : List InboxEvent) (i : Nat) (names : List String) : Prop :=
  ∀ name ∈ names, TakenWhenTried toYaml store s₀ h i name

section

variable {s₀ : InboxState} {h : List InboxEvent} {i : Nat}

theorem TakenWhenTried.snoc {name : String} (ht : TakenWhenTried toYaml store s₀ h i name)
    (e : InboxEvent) : TakenWhenTried toYaml store s₀ (h ++ [e]) i name := by
  obtain ⟨pre, faults, post, t, rfl, hrest⟩ := ht
  exact ⟨pre, faults, post ++ [e], t, by simp, hrest⟩

theorem CreatedWhenTried.snoc {name : String} (hc : CreatedWhenTried toYaml store s₀ h i name)
    (e : InboxEvent) : CreatedWhenTried toYaml store s₀ (h ++ [e]) i name := by
  obtain ⟨pre, faults, post, t, rfl, hrest⟩ := hc
  exact ⟨pre, faults, post ++ [e], t, by simp, hrest⟩

end

/-- What `create_note` prepares for a request. -/
def Prepares (toYaml : FrontMatterWriter) (store : InboxStore) (request : NoteRequest)
    (prepared : Prepared) : Prop :=
  store.prepareNote toYaml request.title request.body request.occurred request.fingerprint
    request.now = .ok prepared

/-- The first name that was free, and the file that the call made under it. -/
structure Found (toYaml : FrontMatterWriter) (store : InboxStore) (s₀ : InboxState)
    (h : List InboxEvent) (i : Nat) (request : NoteRequest) (prepared : Prepared) (name : String)
    (entry : Name) : Prop where
  prepares : Prepares toYaml store request prepared
  bytes_eq : entry.bytes = utf8 name
  first : ∃ tried rest, prepared.names = tried ++ name :: rest ∧
    Tried toYaml store s₀ h i tried
  created : CreatedWhenTried toYaml store s₀ h i name

/-- In the run a call came to write its file, and the write or the sync failed. -/
def FailedToWrite (toYaml : FrontMatterWriter) (store : InboxStore) (s₀ : InboxState)
    (h : List InboxEvent) (i : Nat) (entry : Name) : Prop :=
  ∃ pre faults post t, h = pre ++ .advance i faults :: post ∧
    InboxRun toYaml store s₀ pre t ∧
    (∃ (request : NoteRequest) (prepared : Prepared) (name : String),
      t.calls[i]? = some (request, NoteCall.writing prepared name entry)) ∧
    ¬(faults.write = none ∧ faults.sync = none)

/-- A file that a call made and could not write, with what was written of the note. -/
structure LeftBehind (toYaml : FrontMatterWriter) (store : InboxStore) (s₀ : InboxState)
    (h : List InboxEvent) (i : Nat) (request : NoteRequest) (prepared : Prepared) (name : String)
    (entry : Name) (written : Bytes) (e : InboxError) : Prop where
  found : Found toYaml store s₀ h i request prepared name entry
  isPrefix : written <+: prepared.contents
  error_eq : ∃ errno, e = .io errno
  failed : FailedToWrite toYaml store s₀ h i entry

/-- What the place where a call stands says about its past. -/
def CallInv (toYaml : FrontMatterWriter) (store : InboxStore) (s₀ : InboxState)
    (h : List InboxEvent) (i : Nat) (request : NoteRequest) : NoteCall → Prop
  | .scanning prepared => Prepares toYaml store request prepared
  | .creating prepared left => Prepares toYaml store request prepared ∧
    ∃ tried, prepared.names = tried ++ left ∧ Tried toYaml store s₀ h i tried
  | .writing prepared name entry => Found toYaml store s₀ h i request prepared name entry
  | .returned prepared name entry => Found toYaml store s₀ h i request prepared name entry
  | .writeFailed prepared name entry written e =>
    LeftBehind toYaml store s₀ h i request prepared name entry written e
  | .failed e => e = .nameExhausted →
    ∃ prepared, Prepares toYaml store request prepared ∧
      Tried toYaml store s₀ h i prepared.names

section

variable {s₀ : InboxState} {h : List InboxEvent} {i : Nat} {request : NoteRequest}

theorem Tried.snoc {names : List String} (ht : Tried toYaml store s₀ h i names) (e : InboxEvent) :
    Tried toYaml store s₀ (h ++ [e]) i names :=
  fun name hn => (ht name hn).snoc e

theorem Found.snoc {prepared : Prepared} {name : String} {entry : Name}
    (hfound : Found toYaml store s₀ h i request prepared name entry) (e : InboxEvent) :
    Found toYaml store s₀ (h ++ [e]) i request prepared name entry := by
  obtain ⟨hp, hbytes, ⟨tried, rest, hnames, ht⟩, hcreated⟩ := hfound
  exact ⟨hp, hbytes, ⟨tried, rest, hnames, ht.snoc e⟩, hcreated.snoc e⟩

theorem FailedToWrite.snoc {entry : Name} (hf : FailedToWrite toYaml store s₀ h i entry)
    (e : InboxEvent) : FailedToWrite toYaml store s₀ (h ++ [e]) i entry := by
  obtain ⟨pre, faults, post, t, rfl, hrest⟩ := hf
  exact ⟨pre, faults, post ++ [e], t, by simp, hrest⟩

theorem CallInv.snoc {call : NoteCall} (hc : CallInv toYaml store s₀ h i request call)
    (e : InboxEvent) : CallInv toYaml store s₀ (h ++ [e]) i request call := by
  cases call with
  | scanning prepared => exact hc
  | creating prepared left =>
    obtain ⟨hp, tried, hnames, ht⟩ := hc
    exact ⟨hp, tried, hnames, ht.snoc e⟩
  | writing prepared name entry | returned prepared name entry => exact Found.snoc hc e
  | writeFailed prepared name entry written error =>
    obtain ⟨hfound, hprefix, herror, hfailed⟩ := hc
    exact ⟨hfound.snoc e, hprefix, herror, hfailed.snoc e⟩
  | failed error =>
    intro he
    obtain ⟨prepared, hp, ht⟩ := hc he
    exact ⟨prepared, hp, ht.snoc e⟩

/-- No input is refused for want of a name. -/
theorem prepareNote_ne_nameExhausted (store : InboxStore) (request : NoteRequest) :
    store.prepareNote toYaml request.title request.body request.occurred request.fingerprint
      request.now ≠ .error .nameExhausted := by
  intro h
  exact absurd (InboxStore.prepareNote_eq_error h) (by decide)

theorem usedBytes_ne_nameExhausted (scan : Option Errno) (dir : Node) :
    usedBytes scan dir ≠ .error .nameExhausted := by
  intro h
  obtain ⟨errno, he⟩ := usedBytes_eq_error h
  exact nomatch he

theorem createExclusive_ne_nameExhausted (create : Name → Option Errno) (dir : Node)
    (name : String) : createExclusive create dir name ≠ .error .nameExhausted := by
  intro h
  rcases createExclusive_eq_error h with ⟨-, he⟩ | ⟨errno, he⟩
  · exact nomatch he
  · exact nomatch he

/-- Neither the input nor a system call says that the names are exhausted. -/
theorem callInv_begin : CallInv toYaml store s₀ h i request (store.begin toYaml request) := by
  unfold InboxStore.begin
  cases hp : store.prepareNote toYaml request.title request.body request.occurred
      request.fingerprint request.now with
  | ok prepared => exact hp
  | error e =>
    rintro rfl
    exact absurd hp (prepareNote_ne_nameExhausted store request)

/-- One step of a call that has a past. -/
theorem CallInv.advance {s : InboxState} {call call' : NoteCall} {dir' : Node}
    {faults : Faults} (hr : InboxRun toYaml store s₀ h s)
    (hi : s.calls[i]? = some (request, call)) (hstep : NoteStep store faults s.dir call call' dir')
    (hdir : (s.step toYaml store (.advance i faults)).dir = dir')
    (hc : CallInv toYaml store s₀ h i request call) :
    CallInv toYaml store s₀ (h ++ [.advance i faults]) i request call' := by
  cases hstep with
  | scanFailed hu =>
    rintro rfl
    exact absurd hu (usedBytes_ne_nameExhausted _ _)
  | refused => exact nofun
  | admitted => exact ⟨hc, [], rfl, fun _ hn => by simp at hn⟩
  | exhausted =>
    obtain ⟨hp, tried, hnames, ht⟩ := hc
    rw [List.append_nil] at hnames
    exact fun _ => ⟨_, hp, by rw [hnames]; exact ht.snoc _⟩
  | createFailed hcreate =>
    rintro rfl
    exact absurd hcreate (createExclusive_ne_nameExhausted _ _ _)
  | @taken prepared name rest entry hbytes htaken =>
    -- one more name was tried
    obtain ⟨hp, tried, hnames, ht⟩ := hc
    refine ⟨hp, tried ++ [name], by simp [hnames], fun n hn => ?_⟩
    rcases List.mem_append.mp hn with hn | hn
    · exact (ht n hn).snoc _
    · rw [List.mem_singleton.mp hn]
      exact ⟨h, faults, [], s, rfl, hr, ⟨request, prepared, rest, hi⟩, entry, hbytes, htaken⟩
  | @created prepared name rest entry _ hbytes hadds =>
    -- the file is made by this very step
    obtain ⟨hp, tried, hnames, ht⟩ := hc
    refine ⟨hp, hbytes, ⟨tried, rest, hnames, ht.snoc _⟩, h, faults, [], s, rfl, hr,
      ⟨request, prepared, rest, hi⟩, entry, hbytes, ?_⟩
    rw [hdir]
    exact hadds
  | written => exact CallInv.snoc hc _
  | @writeFailed prepared name entry _ _ hfault hprefix =>
    -- the file is left behind by this very step
    exact ⟨Found.snoc hc _, hprefix, ⟨_, rfl⟩, h, faults, [], s, rfl, hr,
      ⟨request, prepared, name, hi⟩, hfault⟩
  | returned => exact CallInv.snoc hc _
  | leftBehind => exact CallInv.snoc hc _
  | failed => exact CallInv.snoc hc _

/-- The past of every call of a run. -/
theorem callInv_run {s : InboxState} (h0 : s₀.calls = []) (hr : InboxRun toYaml store s₀ h s) :
    ∀ i request call, s.calls[i]? = some (request, call) →
      CallInv toYaml store s₀ h i request call := by
  refine (Steps.invariant (P := fun h s => InboxRun toYaml store s₀ h s ∧
    ∀ i request call, s.calls[i]? = some (request, call) →
      CallInv toYaml store s₀ h i request call) ?_ ⟨.refl, ?_⟩ hr).2
  · rintro h s e s' ⟨hr, hinv⟩ rfl
    refine ⟨hr.tail rfl, fun i request call hi => ?_⟩
    rcases InboxState.step_cases toYaml store s e with ⟨request', -, hs⟩ | ⟨_, _, -, -, hs⟩ |
      ⟨j, faults, request', callj, call', dir', rfl, hj, hnote, hs⟩
    · rw [hs, List.getElem?_append] at hi
      split at hi
      · exact (hinv i request call hi).snoc e
      · obtain ⟨rfl, rfl⟩ := Prod.mk.inj (List.mem_singleton.mp (List.mem_of_getElem? hi))
        exact callInv_begin
    · rw [hs] at hi
      exact (hinv i request call hi).snoc e
    · rw [hs] at hi
      by_cases hij : i = j
      · subst hij
        rw [List.getElem?_set_self (List.getElem?_eq_some_iff.mp hj).1] at hi
        cases hi
        exact (hinv i request callj hj).advance hr hj hnote (by rw [hs])
      · rw [List.getElem?_set_ne (Ne.symm hij)] at hi
        exact (hinv i request call hi).snoc _
  · intro i request call hi
    rw [h0] at hi
    cases hi

end

/-! ## Answers -/

/-- The rendered note of a request and its 64 candidate names. -/
def Renders (toYaml : FrontMatterWriter) (request : NoteRequest) (prepared : Prepared) : Prop :=
  ∃ title occurred note, normalizeTitle request.title = .ok title ∧
    renderNote toYaml title (rfc3339Utc (unixSeconds request.now)) occurred request.fingerprint
      request.body = .ok note ∧
    prepared.contents = utf8 note ∧
    prepared.names
      = (List.range maxNameAttempts).map (noteFileName (unixSeconds request.now) (slug title))

theorem renders_of_prepares {request : NoteRequest} {prepared : Prepared}
    (h : Prepares toYaml store request prepared) : Renders toYaml request prepared := by
  unfold Prepares InboxStore.prepareNote at h
  obtain ⟨title, htitle, h⟩ := bind_eq_ok.mp h
  obtain ⟨_, -, h⟩ := bind_eq_ok.mp h
  obtain ⟨occurred, -, h⟩ := bind_eq_ok.mp h
  obtain ⟨note, hnote, h⟩ := bind_eq_ok.mp h
  obtain rfl := Except.ok.inj h
  exact ⟨title, occurred, note, htitle, hnote, rfl, rfl⟩

/-- A call has answered. -/
def InboxState.Answered (s : InboxState) (i : Nat) (request : NoteRequest)
    (answer : Except InboxError CreatedNote) : Prop :=
  ∃ call : NoteCall, s.calls[i]? = some (request, call) ∧ call.result = some answer

/-- The states that can follow, with the events on the way. -/
abbrev InboxSteps (toYaml : FrontMatterWriter) (store : InboxStore) :=
  Steps (fun (_ : List InboxEvent) s e s' => s' = InboxState.step toYaml store s e)

/-- A call that answered with a note stands at its file. -/
theorem returned_of_answered {s : InboxState} {i : Nat} {request : NoteRequest}
    {note : CreatedNote} (h : s.Answered i request (.ok note)) :
    ∃ (prepared : Prepared) (name : String) (entry : Name),
      s.calls[i]? = some (request, NoteCall.returned prepared name entry) ∧
      note = ⟨inboxIdPrefix ++ "/" ++ name, prepared.contents.length, prepared.created⟩ := by
  obtain ⟨call, hi, hresult⟩ := h
  cases call with
  | returned prepared name entry =>
    cases hresult
    exact ⟨prepared, name, entry, hi, rfl⟩
  | scanning | creating | writing | writeFailed | failed => cases hresult

end EngramMcp
