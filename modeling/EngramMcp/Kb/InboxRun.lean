import EngramMcp.Infra.Run
import EngramMcp.Kb.Inbox

/-!
# Calls of `create_note` side by side

Between two steps of one `create_note` any number of others may run. A step is the scan of the
directory as a whole, or one exclusive create, or the write with its sync. Each of them may fail; a
write that fails leaves a file with the beginning of the note.

* `NoteStep` — what one step of a call can do
* `exists_iterate_advance` — a call that is not interrupted does what `store_note` does
-/

namespace EngramMcp

open Infra InboxStore

/-- The arguments of a call. -/
structure NoteRequest where
  title : String
  body : String
  occurred : Option String
  fingerprint : String
  now : Int

/-- Where a call of `create_note` stands. -/
inductive NoteCall
  /-- Before `used_bytes`. -/
  | scanning (prepared : Prepared)
  /-- In the loop over the file names, with the names that were not tried yet. -/
  | creating (prepared : Prepared) (left : List String)
  /-- The file is created and still empty. -/
  | writing (prepared : Prepared) (name : String) (entry : Name)
  /-- The note is written. -/
  | returned (prepared : Prepared) (name : String) (entry : Name)
  /-- The write or the sync failed, and the file is left behind. -/
  | writeFailed (prepared : Prepared) (name : String) (entry : Name) (written : Bytes)
      (e : InboxError)
  | failed (e : InboxError)

/-- What the call answered, when it did. -/
def NoteCall.result : NoteCall → Option (Except InboxError CreatedNote)
  | returned prepared name _ =>
    some (.ok ⟨inboxIdPrefix ++ "/" ++ name, prepared.contents.length, prepared.created⟩)
  | writeFailed _ _ _ _ e | failed e => some (.error e)
  | _ => none

/-- The file that the call made, as it is now. -/
def NoteCall.file? : NoteCall → Option (Name × Node)
  | writing _ _ entry => some (entry, .file none none [])
  | returned prepared _ entry => some (entry, .file none none prepared.contents)
  | writeFailed _ _ entry written _ => some (entry, .file none none written)
  | _ => none

namespace InboxStore

/-- The first half of `create_note`, which touches no file. -/
def begin (toYaml : FrontMatterWriter) (store : InboxStore) (request : NoteRequest) : NoteCall :=
  match store.prepareNote toYaml request.title request.body request.occurred request.fingerprint
      request.now with
  | .error e => .failed e
  | .ok prepared => .scanning prepared

/-- The next step of a call, which may fail. -/
def advance (store : InboxStore) (faults : Faults) (dir : Node) :
    NoteCall → NoteCall × Node
  | .scanning prepared =>
    match usedBytes faults.scan dir with
    | .error e => (.failed e, dir)
    | .ok used =>
      if store.maxTotalBytes < saturatingAddU64 used prepared.contents.length then
        (.failed .quotaExceeded, dir)
      else (.creating prepared prepared.names, dir)
  | .creating _ [] => (.failed .nameExhausted, dir)
  | .creating prepared (name :: rest) =>
    match createExclusive faults.create dir name with
    | .error e => (.failed e, dir)
    | .ok none => (.creating prepared rest, dir)
    | .ok (some (entry, dir')) => (.writing prepared name entry, dir')
  | .writing prepared name entry =>
    match writeNote faults dir entry prepared.contents with
    | (.error e, dir') =>
      (.writeFailed prepared name entry (faults.written prepared.contents) e, dir')
    | (.ok (), dir') => (.returned prepared name entry, dir')
  | call => (call, dir)

end InboxStore

/-- The inbox with the calls made so far, each with its arguments. -/
structure InboxState where
  dir : Node
  calls : List (NoteRequest × NoteCall)

/-- A call is made, or one of them goes on. -/
inductive InboxEvent
  | call (request : NoteRequest)
  | advance (i : Nat) (faults : Faults)

/-- What an event does. -/
def InboxState.step (toYaml : FrontMatterWriter) (store : InboxStore) (s : InboxState) :
    InboxEvent → InboxState
  | .call request => { s with calls := s.calls ++ [(request, store.begin toYaml request)] }
  | .advance i faults =>
    match s.calls[i]? with
    | none => s
    | some (request, call) =>
      let (call', dir') := store.advance faults s.dir call
      ⟨dir', s.calls.set i (request, call')⟩

/-- One event after another. -/
abbrev InboxRun (toYaml : FrontMatterWriter) (store : InboxStore) (s₀ : InboxState) :
    List InboxEvent → InboxState → Prop :=
  Run (fun _ s e s' => s' = s.step toYaml store e) s₀

/-! ## What a step does -/

/-- A directory after a file was added. -/
def AddsFile (dir dir' : Node) (entry : Name) (content : Bytes) : Prop :=
  ∃ openError entries, dir = .dir openError none entries ∧ entries.lookup entry = none ∧
    dir' = .dir openError none (entries ++ [(entry, .file none none content)])

theorem createExclusive_eq_ok {create : Name → Option Errno} {dir : Node} {name : String}
    {found : Option (Name × Node)} (h : createExclusive create dir name = .ok found) :
    ∃ entry : Name, entry.bytes = utf8 name ∧
      ((found = none ∧ (dir.at [entry]).isSome = true) ∨
        ∃ dir', found = some (entry, dir') ∧ AddsFile dir dir' entry []) := by
  unfold createExclusive at h
  split at h
  · simp at h
  · split at h
    · simp at h
    · next openError entries =>
      split at h
      · simp at h
      · next parsed hp =>
        refine ⟨parsed, Name.parse_eq_ok.mp hp, ?_⟩
        split at h
        · next htaken =>
          cases h
          refine Or.inl ⟨rfl, ?_⟩
          obtain ⟨node, hnode⟩ := Option.isSome_iff_exists.mp htaken
          rw [Node.at, hnode]
          rfl
        · next hfree =>
          split at h
          · simp at h
          · cases h
            exact Or.inr ⟨_, rfl, openError, entries, rfl,
              Option.not_isSome_iff_eq_none.mp hfree, rfl⟩
    · simp at h

/-- What the next step of a call can do. -/
inductive NoteStep (store : InboxStore) (faults : Faults) (dir : Node) :
    NoteCall → NoteCall → Node → Prop
  | scanFailed {prepared : Prepared} {e : InboxError} : usedBytes faults.scan dir = .error e →
      NoteStep store faults dir (.scanning prepared) (.failed e) dir
  | refused {prepared : Prepared} {used : Nat} : usedBytes faults.scan dir = .ok used →
      store.maxTotalBytes < saturatingAddU64 used prepared.contents.length →
      NoteStep store faults dir (.scanning prepared) (.failed .quotaExceeded) dir
  | admitted {prepared : Prepared} {used : Nat} : usedBytes faults.scan dir = .ok used →
      saturatingAddU64 used prepared.contents.length ≤ store.maxTotalBytes →
      NoteStep store faults dir (.scanning prepared) (.creating prepared prepared.names) dir
  | exhausted {prepared : Prepared} :
      NoteStep store faults dir (.creating prepared []) (.failed .nameExhausted) dir
  | createFailed {prepared : Prepared} {name : String} {rest : List String} {e : InboxError} :
      createExclusive faults.create dir name = .error e →
      NoteStep store faults dir (.creating prepared (name :: rest)) (.failed e) dir
  | taken {prepared : Prepared} {name : String} {rest : List String} {entry : Name} :
      entry.bytes = utf8 name → (dir.at [entry]).isSome = true →
      NoteStep store faults dir (.creating prepared (name :: rest)) (.creating prepared rest) dir
  | created {prepared : Prepared} {name : String} {rest : List String} {entry : Name}
      {dir' : Node} : entry.bytes = utf8 name → AddsFile dir dir' entry [] →
      NoteStep store faults dir (.creating prepared (name :: rest)) (.writing prepared name entry)
        dir'
  | written {prepared : Prepared} {name : String} {entry : Name} :
      faults.write = none → faults.sync = none →
      NoteStep store faults dir (.writing prepared name entry) (.returned prepared name entry)
        (writeFile dir entry prepared.contents)
  | writeFailed {prepared : Prepared} {name : String} {entry : Name} {written : Bytes}
      {errno : Errno} : ¬(faults.write = none ∧ faults.sync = none) →
      written <+: prepared.contents →
      NoteStep store faults dir (.writing prepared name entry)
        (.writeFailed prepared name entry written (.io errno)) (writeFile dir entry written)
  | returned {prepared : Prepared} {name : String} {entry : Name} :
      NoteStep store faults dir (.returned prepared name entry) (.returned prepared name entry) dir
  | leftBehind {prepared : Prepared} {name : String} {entry : Name} {written : Bytes}
      {e : InboxError} : NoteStep store faults dir (.writeFailed prepared name entry written e)
        (.writeFailed prepared name entry written e) dir
  | failed {e : InboxError} : NoteStep store faults dir (.failed e) (.failed e) dir

theorem noteStep_advance (store : InboxStore) (faults : Faults) (dir : Node) (call : NoteCall) :
    NoteStep store faults dir call (store.advance faults dir call).1
      (store.advance faults dir call).2 := by
  cases call with
  | scanning prepared =>
    unfold InboxStore.advance
    cases hu : usedBytes faults.scan dir with
    | error e => exact .scanFailed hu
    | ok used =>
      simp only
      split
      · next hlt => exact .refused hu hlt
      · next hle => exact .admitted hu (not_lt.mp hle)
  | creating prepared left =>
    cases left with
    | nil => exact .exhausted
    | cons name rest =>
      unfold InboxStore.advance
      simp only
      cases hc : createExclusive faults.create dir name with
      | error e => exact .createFailed hc
      | ok found =>
        obtain ⟨entry, hbytes, ⟨rfl, htaken⟩ | ⟨dir', rfl, hadds⟩⟩ := createExclusive_eq_ok hc
        · exact .taken hbytes htaken
        · exact .created hbytes hadds
  | writing prepared name entry =>
    unfold InboxStore.advance
    rcases writeNote_cases faults dir entry prepared.contents with
      ⟨hwrite, hsync, hw⟩ | ⟨errno, hfault, hw⟩
    · simp only [hw]
      exact .written hwrite hsync
    · simp only [hw]
      exact .writeFailed hfault (faults.written_prefix _)
  | returned prepared name entry => exact .returned
  | writeFailed prepared name entry written e => exact .leftBehind
  | failed e => exact .failed

/-- An event makes a call, or does nothing, or is the step of one call. -/
theorem InboxState.step_cases (toYaml : FrontMatterWriter) (store : InboxStore) (s : InboxState)
    (e : InboxEvent) :
    (∃ request, e = .call request ∧
      s.step toYaml store e = ⟨s.dir, s.calls ++ [(request, store.begin toYaml request)]⟩) ∨
    (∃ i faults, e = .advance i faults ∧ s.calls[i]? = none ∧
      s.step toYaml store e = s) ∨
    ∃ i faults request call call' dir', e = .advance i faults ∧
      s.calls[i]? = some (request, call) ∧ NoteStep store faults s.dir call call' dir' ∧
      s.step toYaml store e = ⟨dir', s.calls.set i (request, call')⟩ := by
  cases e with
  | call request => exact Or.inl ⟨request, rfl, rfl⟩
  | advance i faults =>
    right
    cases hi : s.calls[i]? with
    | none => exact Or.inl ⟨i, faults, rfl, hi, by simp only [step, hi]⟩
    | some entry =>
      refine Or.inr ⟨i, faults, entry.1, entry.2, _, _, rfl, hi,
        noteStep_advance store faults s.dir entry.2, ?_⟩
      simp only [step, hi]

/-! ## Files that are added -/

theorem ne_of_lookup_eq_none {entries : List (Name × Node)} {entry : Name}
    (h : entries.lookup entry = none) {e : Name × Node} (he : e ∈ entries) : e.1 ≠ entry := by
  have hne := List.lookup_eq_none_iff.mp h e he
  rw [bne_iff_ne] at hne
  exact Ne.symm hne

theorem AddsFile.at_eq {dir dir' : Node} {entry : Name} {content : Bytes}
    (h : AddsFile dir dir' entry content) (other : Name) :
    dir'.at [other] = if other = entry then some (.file none none content) else dir.at [other] := by
  obtain ⟨openError, entries, rfl, hfree, rfl⟩ := h
  rw [Node.at, Node.at, List.lookup_append]
  by_cases ho : other = entry
  · subst ho
    rw [if_pos rfl, hfree, Option.none_or, List.lookup_cons_self]
    rfl
  · have hb : (other == entry) = false := by simpa using ho
    rw [if_neg ho, List.lookup_cons, hb, List.lookup_nil, Option.or_none]

theorem AddsFile.at_eq_none {dir dir' : Node} {entry : Name} {content : Bytes}
    (h : AddsFile dir dir' entry content) : dir.at [entry] = none := by
  obtain ⟨openError, entries, rfl, hfree, -⟩ := h
  rw [Node.at, hfree]
  rfl

theorem at_writeFile {dir : Node} {entry : Name} {content : Bytes}
    (h : (dir.at [entry]).isSome = true) (other : Name) :
    (writeFile dir entry content).at [other]
      = if other = entry then some (.file none none content) else dir.at [other] := by
  unfold writeFile
  by_cases ho : other = entry
  · subst ho
    obtain ⟨node, hnode⟩ := Option.isSome_iff_exists.mp h
    rw [if_pos rfl]
    exact Node.at_modify (fun _ => .file none none content) [other] [] dir node hnode
  · rw [if_neg ho]
    exact Node.at_modify_ne _ ho [] [] dir

/-- Writing a file of a name that the directory has once. -/
theorem writeFile_eq {openError searchError : Option Errno} {before after : List (Name × Node)}
    {entry : Name} (node : Node) (content : Bytes)
    (h : ∀ other ∈ before ++ after, other.1 ≠ entry) :
    writeFile (.dir openError searchError (before ++ (entry, node) :: after)) entry content
      = .dir openError searchError (before ++ (entry, .file none none content) :: after) := by
  have hmap : ∀ entries : List (Name × Node), (∀ other ∈ entries, other.1 ≠ entry) →
      (entries.map fun e => if e.1 = entry then
        (e.1, Node.modify (fun _ => .file none none content) e.2 []) else e) = entries := by
    intro entries he
    conv_rhs => rw [← List.map_id entries]
    exact List.map_congr_left fun e hm => if_neg (he e hm)
  unfold writeFile
  rw [Node.modify, List.map_append, List.map_cons, if_pos rfl,
    hmap before fun e he => h e (List.mem_append_left _ he),
    hmap after fun e he => h e (List.mem_append_right _ he)]
  rfl

/-- Writing the file that was just added. -/
theorem AddsFile.writeFile {dir dir' : Node} {entry : Name} {content content' : Bytes}
    (h : AddsFile dir dir' entry content) :
    AddsFile dir (writeFile dir' entry content') entry content' := by
  obtain ⟨openError, entries, rfl, hfree, rfl⟩ := h
  refine ⟨openError, entries, rfl, hfree, writeFile_eq _ _ ?_⟩
  rw [List.append_nil]
  exact fun e he => ne_of_lookup_eq_none hfree he

/-! ## A call by itself -/

/-- The steps of one call, one after the other. -/
def InboxStore.advanceAlone (store : InboxStore) (faults : Faults) (p : NoteCall × Node) :
    NoteCall × Node := store.advance faults p.2 p.1

theorem exists_iterate_creating (store : InboxStore) (faults : Faults) (prepared : Prepared)
    (names : List String) (dir : Node) :
    ∃ k call, (store.advanceAlone faults)^[k] (.creating prepared names, dir)
        = (call, (writeFirstFree faults dir prepared.contents names).2) ∧
      call.result = some ((writeFirstFree faults dir prepared.contents names).1.map fun name =>
        ⟨inboxIdPrefix ++ "/" ++ name, prepared.contents.length, prepared.created⟩) := by
  induction names with
  | nil => exact ⟨1, .failed .nameExhausted, rfl, rfl⟩
  | cons name rest ih =>
    have hstep : store.advanceAlone faults (.creating prepared (name :: rest), dir)
        = match createExclusive faults.create dir name with
          | .error e => (.failed e, dir)
          | .ok none => (.creating prepared rest, dir)
          | .ok (some (entry, dir')) => (.writing prepared name entry, dir') := rfl
    unfold writeFirstFree
    cases hc : createExclusive faults.create dir name with
    | error e =>
      rw [hc] at hstep
      exact ⟨1, .failed e, by rw [Function.iterate_one, hstep], rfl⟩
    | ok found =>
      rw [hc] at hstep
      cases found with
      | none =>
        obtain ⟨k, call, hk, hresult⟩ := ih
        exact ⟨k + 1, call, by rw [Function.iterate_succ_apply, hstep, hk], hresult⟩
      | some made =>
        have hwrite : store.advanceAlone faults (.writing prepared name made.1, made.2)
            = match writeNote faults made.2 made.1 prepared.contents with
              | (.error e, dir') =>
                (.writeFailed prepared name made.1 (faults.written prepared.contents) e, dir')
              | (.ok (), dir') => (.returned prepared name made.1, dir') := rfl
        have htwo (call : NoteCall) (dir' : Node)
            (hlast : store.advanceAlone faults (.writing prepared name made.1, made.2)
              = (call, dir')) :
            (store.advanceAlone faults)^[2] (.creating prepared (name :: rest), dir)
              = (call, dir') := by
          rw [Function.iterate_succ_apply, hstep]
          exact hlast
        rcases writeNote_cases faults made.2 made.1 prepared.contents with
          ⟨-, -, hnote⟩ | ⟨errno, -, hnote⟩
        · rw [hnote] at hwrite
          simp only [hnote]
          exact ⟨2, _, htwo _ _ hwrite, rfl⟩
        · rw [hnote] at hwrite
          simp only [hnote]
          exact ⟨2, _, htwo _ _ hwrite, rfl⟩

/-- A call that is not interrupted does what `store_note` does. -/
theorem exists_iterate_advance (store : InboxStore) (faults : Faults) (prepared : Prepared)
    (dir : Node) :
    ∃ k call, (store.advanceAlone faults)^[k] (.scanning prepared, dir)
        = (call, (store.storeNote faults dir prepared).2) ∧
      call.result = some (store.storeNote faults dir prepared).1 := by
  have hstep : store.advanceAlone faults (.scanning prepared, dir)
      = match usedBytes faults.scan dir with
        | .error e => (.failed e, dir)
        | .ok used =>
          if store.maxTotalBytes < saturatingAddU64 used prepared.contents.length then
            (.failed .quotaExceeded, dir)
          else (.creating prepared prepared.names, dir) := rfl
  unfold InboxStore.storeNote
  cases hu : usedBytes faults.scan dir with
  | error e =>
    rw [hu] at hstep
    exact ⟨1, .failed e, by rw [Function.iterate_one, hstep], rfl⟩
  | ok used =>
    rw [hu] at hstep
    by_cases hquota : store.maxTotalBytes < saturatingAddU64 used prepared.contents.length
    · simp only [if_pos hquota] at hstep ⊢
      exact ⟨1, .failed .quotaExceeded, by rw [Function.iterate_one, hstep], rfl⟩
    · simp only [if_neg hquota] at hstep ⊢
      obtain ⟨k, call, hk, hresult⟩ :=
        exists_iterate_creating store faults prepared prepared.names dir
      refine ⟨k + 1, call, ?_, ?_⟩
      · rw [Function.iterate_succ_apply, hstep, hk]
        cases writeFirstFree faults dir prepared.contents prepared.names with
        | mk answer dir' => cases answer <;> rfl
      · rw [hresult]
        cases writeFirstFree faults dir prepared.contents prepared.names with
        | mk answer dir' => cases answer <;> rfl

end EngramMcp
