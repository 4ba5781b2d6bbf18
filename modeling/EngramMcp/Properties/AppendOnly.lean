import EngramMcp.Kb.InboxInv

/-!
# The inbox only grows

Any number of calls of `create_note` run side by side, cut into their steps, any of which may fail.
What is in the directory stays, a note is added under the first of its names that was free when
tried, and nothing else is added but the beginning of a note that could not be written.

* `append_only` — the property
-/

namespace EngramMcp

open Infra InboxStore

variable {toYaml : FrontMatterWriter} {store : InboxStore}

/-- The inbox is append-only over every interleaving of calls that begins in a directory. -/
structure AppendOnly (toYaml : FrontMatterWriter) (store : InboxStore) (s₀ : InboxState) :
    Prop where
  /-- What is there stays, with its content if it is written. -/
  kept : ∀ pre t h s, InboxRun toYaml store s₀ pre t → InboxSteps toYaml store pre t h s →
    ∀ name node, t.dir.at [name] = some node →
      (s.dir.at [name]).isSome = true ∧ (¬t.Unwritten name → s.dir.at [name] = some node)
  /-- No step of a call touches what was there before the call. -/
  untouched : ∀ pre t request h s faults, InboxRun toYaml store s₀ pre t →
    InboxSteps toYaml store (pre ++ [.call request]) (t.step toYaml store (.call request)) h s →
    ∀ name, (t.dir.at [name]).isSome = true →
      (s.step toYaml store (.advance t.calls.length faults)).dir.at [name] = s.dir.at [name]
  /-- A successful call added one file, under the first of its names that was free when tried. -/
  added : ∀ h s, InboxRun toYaml store s₀ h s → ∀ i request note,
    s.Answered i request (.ok note) → ∃ prepared name entry,
      Renders toYaml request prepared ∧ Found toYaml store s₀ h i request prepared name entry ∧
      s₀.dir.at [entry] = none ∧ s.dir.at [entry] = some (.file none none prepared.contents) ∧
      note = ⟨inboxIdPrefix ++ "/" ++ name, prepared.contents.length, prepared.created⟩
  distinct : ∀ h s, InboxRun toYaml store s₀ h s → ∀ i j request request' note note',
    i ≠ j → s.Answered i request (.ok note) → s.Answered j request' (.ok note') →
    note.id ≠ note'.id
  /-- Nothing else was added. -/
  covered : ∀ h s, InboxRun toYaml store s₀ h s → ∀ name node, s.dir.at [name] = some node →
    s₀.dir.at [name] = some node ∨ ∃ (i : Nat) (request : NoteRequest) (call : NoteCall),
      s.calls[i]? = some (request, call) ∧ call.file? = some (name, node)
  /-- A file is left with less than its note only where the write failed, or the sync. -/
  unfinished : ∀ h s, InboxRun toYaml store s₀ h s → ∀ i request prepared name entry written e,
    s.calls[i]? = some (request, .writeFailed prepared name entry written e) →
    written <+: prepared.contents ∧ FailedToWrite toYaml store s₀ h i entry
  /-- A call gives up only after all of its 64 names were taken when tried. -/
  exhausted : ∀ h s, InboxRun toYaml store s₀ h s → ∀ i request,
    s.Answered i request (.error .nameExhausted) → ∃ prepared, Renders toYaml request prepared ∧
      prepared.names.length = 64 ∧ Tried toYaml store s₀ h i prepared.names

/-- The step of a call leaves every entry alone that is not its own file. -/
theorem at_step_advance {dir₀ : Node} {s : InboxState} {i : Nat} {faults : Faults} {name : Name}
    (hinv : InboxInv dir₀ s) (hthere : (s.dir.at [name]).isSome = true)
    (hfile : ∀ node, s.file? i ≠ some (name, node)) :
    (s.step toYaml store (.advance i faults)).dir.at [name] = s.dir.at [name] := by
  rcases InboxState.step_cases toYaml store s (.advance i faults) with ⟨_, hcall, -⟩ |
    ⟨_, _, -, -, hs⟩ | ⟨j, _, request, call, call', dir', he, hi, hnote, hs⟩
  · cases hcall
  · rw [hs]
  · cases he
    rw [InboxState.file?_eq hi] at hfile
    rw [hs]
    cases hnote with
    | created _ hadds =>
      have hne : name ≠ _ := fun hc => by
        rw [hc, hadds.at_eq_none] at hthere
        cases hthere
      rw [hadds.at_eq, if_neg hne]
    | @written prepared fileName entry | @writeFailed prepared fileName entry =>
      have howned := hinv.owned i entry _ (InboxState.file?_eq hi)
      rw [at_writeFile (by rw [howned]; rfl), if_neg]
      rintro rfl
      exact hfile _ rfl
    | scanFailed | refused | admitted | exhausted | createFailed | taken | returned | leftBehind
    | failed => rfl

/-- What was there before a call is not its file. -/
theorem file?_ne_of_present {s₀ t s : InboxState} {pre h : List InboxEvent} {request : NoteRequest}
    (h0 : s₀.calls = []) (hpre : InboxRun toYaml store s₀ pre t)
    (hr : InboxSteps toYaml store (pre ++ [.call request])
      (t.step toYaml store (.call request)) h s)
    {name : Name} (hthere : (t.dir.at [name]).isSome = true) (node : Node) :
    s.file? t.calls.length ≠ some (name, node) := by
  intro hfile
  have hcalled : InboxRun toYaml store s₀ (pre ++ [.call request]) _ := hpre.tail rfl
  have hinv := inboxInv_run h0 (hcalled.trans hr)
  obtain ⟨found, hfound⟩ := Option.isSome_iff_exists.mp hthere
  rcases (inboxInv_run h0 hpre).covered name found hfound with hinit | ⟨j, hj⟩
  · rw [hinv.absent _ name node hfile] at hinit
    cases hinit
  · -- the file of an earlier call is still its own
    obtain ⟨⟨request', call⟩, hcall, hjfile⟩ := Option.bind_eq_some_iff.mp hj
    have hlt : j < t.calls.length := (List.getElem?_eq_some_iff.mp hcall).1
    have hcall' : (t.step toYaml store (.call request)).calls[j]? = some (request', call) := by
      show (t.calls ++ [_])[j]? = _
      rw [List.getElem?_append_left hlt]
      exact hcall
    obtain ⟨call', hlast, hlater⟩ := later_of_steps hr hcall'
    obtain ⟨node', hnode', -⟩ := hlater name found hjfile
    have hj' := InboxState.file?_eq hlast
    rw [hnode'] at hj'
    exact absurd (hinv.distinct _ _ name _ _ hj' hfile) hlt.ne

/-- The inbox is append-only. -/
theorem append_only (toYaml : FrontMatterWriter) (store : InboxStore) (dir : Node) :
    AppendOnly toYaml store ⟨dir, []⟩ where
  kept pre t h s hpre hr name node hn := kept_of_steps rfl hpre hr hn
  untouched pre t request h s faults hpre hr name hthere := by
    have hcalled : InboxRun toYaml store ⟨dir, []⟩ (pre ++ [.call request]) _ := hpre.tail rfl
    obtain ⟨node, hn⟩ := Option.isSome_iff_exists.mp hthere
    have hpresent := (kept_of_steps rfl hcalled hr hn).1
    exact at_step_advance (inboxInv_run rfl (hcalled.trans hr)) hpresent
      (file?_ne_of_present rfl hpre hr hthere)
  added h s hr i request note hanswer := by
    obtain ⟨prepared, name, entry, hi, rfl⟩ := returned_of_answered hanswer
    have hfound : Found _ _ _ _ _ _ _ _ _ := callInv_run rfl hr i request _ hi
    have hinv := inboxInv_run rfl hr
    have hfile := InboxState.file?_eq hi
    exact ⟨prepared, name, entry, renders_of_prepares hfound.prepares, hfound,
      hinv.absent i entry _ hfile, hinv.owned i entry _ hfile, rfl⟩
  distinct h s hr i j request request' note note' hij hanswer hanswer' := by
    obtain ⟨prepared, name, entry, hi, rfl⟩ := returned_of_answered hanswer
    obtain ⟨prepared', name', entry', hj, rfl⟩ := returned_of_answered hanswer'
    intro hid
    have hname : name = name' := by simpa using hid
    have hfound : Found _ _ _ _ _ _ _ _ _ := callInv_run rfl hr i request _ hi
    have hfound' : Found _ _ _ _ _ _ _ _ _ := callInv_run rfl hr j request' _ hj
    have hentry : entry = entry' :=
      Name.ext (by rw [hfound.bytes_eq, hfound'.bytes_eq, hname])
    subst hentry
    exact hij ((inboxInv_run rfl hr).distinct i j entry _ _ (InboxState.file?_eq hi)
      (InboxState.file?_eq hj))
  covered h s hr name node hn := by
    rcases (inboxInv_run rfl hr).covered name node hn with hinit | ⟨i, hi⟩
    · exact Or.inl hinit
    · obtain ⟨⟨request, call⟩, hcall, hfile⟩ := Option.bind_eq_some_iff.mp hi
      exact Or.inr ⟨i, request, call, hcall, hfile⟩
  unfinished h s hr i request prepared name entry written e hi := by
    have hleft : LeftBehind _ _ _ _ _ _ _ _ _ _ _ := callInv_run rfl hr i request _ hi
    exact ⟨hleft.isPrefix, hleft.failed⟩
  exhausted h s hr i request hanswer := by
    obtain ⟨call, hi, hresult⟩ := hanswer
    cases call with
    | failed e =>
      cases hresult
      obtain ⟨prepared, hp, ht⟩ := callInv_run rfl hr i request _ hi rfl
      have hrenders := renders_of_prepares hp
      obtain ⟨_, _, _, -, -, -, hnames⟩ := hrenders
      exact ⟨prepared, renders_of_prepares hp, by rw [hnames]; simp [maxNameAttempts], ht⟩
    | writeFailed =>
      cases hresult
      have hleft : LeftBehind _ _ _ _ _ _ _ _ _ _ _ := callInv_run rfl hr i request _ hi
      obtain ⟨errno, he⟩ := hleft.error_eq
      cases he
    | scanning | creating | writing | returned => cases hresult

end EngramMcp
