import EngramMcp.Kb.InboxRun
import EngramMcp.Kb.Reference

/-!
# What a failed append leaves behind

`create_note` returns early when writing or syncing its new file fails, and the file stays. All
other failures come before the file is made.

* `writeFirstFree_of_reaches` — the file that the loop over the names makes
* `all_or_nothing_iff` — an append is all or nothing exactly when the file, once made, is written
-/

namespace EngramMcp

open Infra InboxStore

/-- The inbox holds the same entries with the same contents. -/
def SameEntries (dir dir' : Node) : Prop := ∀ name : Name, dir'.at [name] = dir.at [name]

/-- The inbox holds one more entry, a file with the given content. -/
def OneMore (dir dir' : Node) (content : Bytes) : Prop :=
  ∃ entry : Name, dir.at [entry] = none ∧ dir'.at [entry] = some (.file none none content) ∧
    ∀ other : Name, other ≠ entry → dir'.at [other] = dir.at [other]

/-- Either the call succeeded and one complete note was added, or it failed and nothing changed. -/
def AllOrNothing (toYaml : FrontMatterWriter) (store : InboxStore) (dir : Node)
    (request : NoteRequest) (outcome : Except InboxError CreatedNote × Node) : Prop :=
  (∃ note prepared, outcome.1 = .ok note ∧
    store.prepareNote toYaml request.title request.body request.occurred request.fingerprint
      request.now = .ok prepared ∧
    note.bytes = prepared.contents.length ∧ OneMore dir outcome.2 prepared.contents) ∨
  ∃ e, outcome.1 = .error e ∧ SameEntries dir outcome.2

/-- One of the names is free, and every name before it is taken. -/
def ReachesFree (create : Name → Option Errno) (dir : Node) : List String → Prop
  | [] => False
  | name :: rest =>
    (∃ made, createExclusive create dir name = .ok (some made)) ∨
    (createExclusive create dir name = .ok none ∧ ReachesFree create dir rest)

/-- The call gets as far as making its file: the input is fine, the quota allows the note, and
the loop over the names finds a free one. -/
def MakesFile (toYaml : FrontMatterWriter) (store : InboxStore) (faults : Faults) (dir : Node)
    (request : NoteRequest) : Prop :=
  ∃ prepared used,
    store.prepareNote toYaml request.title request.body request.occurred request.fingerprint
      request.now = .ok prepared ∧
    usedBytes faults.scan dir = .ok used ∧
    saturatingAddU64 used prepared.contents.length ≤ store.maxTotalBytes ∧
    ReachesFree faults.create dir prepared.names

/-- A file that was added is the one change. -/
theorem oneMore_of_addsFile {dir dir' : Node} {entry : Name} {content : Bytes}
    (h : AddsFile dir dir' entry content) : OneMore dir dir' content := by
  refine ⟨entry, h.at_eq_none, ?_, fun other hne => ?_⟩
  · rw [h.at_eq, if_pos rfl]
  · rw [h.at_eq, if_neg hne]

theorem not_sameEntries_of_addsFile {dir dir' : Node} {entry : Name} {content : Bytes}
    (h : AddsFile dir dir' entry content) : ¬SameEntries dir dir' := by
  intro hsame
  have hentry := hsame entry
  rw [h.at_eq, if_pos rfl, h.at_eq_none] at hentry
  cases hentry

section

variable {faults : Faults} {dir : Node} (contents : Bytes)

/-- Without a free name the loop over the names leaves the directory as it was. -/
theorem writeFirstFree_of_not_reaches {names : List String}
    (h : ¬ReachesFree faults.create dir names) :
    ∃ e, writeFirstFree faults dir contents names = (.error e, dir) := by
  induction names with
  | nil => exact ⟨.nameExhausted, rfl⟩
  | cons name rest ih =>
    unfold ReachesFree at h
    rw [not_or, not_and] at h
    unfold writeFirstFree
    cases hc : createExclusive faults.create dir name with
    | error e => exact ⟨e, rfl⟩
    | ok found =>
      cases found with
      | none => exact ih (h.2 hc)
      | some made => exact absurd ⟨made, hc⟩ h.1

/-- The file that the loop over the names makes, and what writing it answers. -/
theorem writeFirstFree_of_reaches {names : List String} (h : ReachesFree faults.create dir names) :
    ∃ name entry dir', AddsFile dir dir' entry [] ∧
      writeFirstFree faults dir contents names
        = ((writeNote faults dir' entry contents).1.map fun _ => name,
          (writeNote faults dir' entry contents).2) := by
  induction names with
  | nil => exact absurd h (by simp [ReachesFree])
  | cons name rest ih =>
    unfold writeFirstFree
    rcases h with ⟨made, hc⟩ | ⟨hc, h⟩
    · obtain ⟨entry, -, ⟨hnone, -⟩ | ⟨dir', hsome, hadds⟩⟩ := createExclusive_eq_ok hc
      · cases hnone
      · cases hsome
        refine ⟨name, entry, dir', hadds, ?_⟩
        rw [hc]
        simp only
        cases writeNote faults dir' entry contents with
        | mk answer dir'' => cases answer <;> rfl
    · obtain ⟨name', entry, dir', hadds, hw⟩ := ih h
      rw [hc]
      exact ⟨name', entry, dir', hadds, hw⟩

/-- Writing a file that was just added: in full, or it fails and the file stays. -/
theorem addsFile_writeNote {dir' : Node} {entry : Name} (h : AddsFile dir dir' entry []) :
    (faults.write = none ∧ faults.sync = none ∧
      (writeNote faults dir' entry contents).1 = .ok () ∧
      AddsFile dir (writeNote faults dir' entry contents).2 entry contents) ∨
    (¬(faults.write = none ∧ faults.sync = none) ∧
      ∃ e written, (writeNote faults dir' entry contents).1 = .error e ∧
        AddsFile dir (writeNote faults dir' entry contents).2 entry written) := by
  rcases writeNote_cases faults dir' entry contents with
    ⟨hwrite, hsync, hnote⟩ | ⟨errno, hfault, hnote⟩
  · rw [hnote]
    exact Or.inl ⟨hwrite, hsync, rfl, h.writeFile⟩
  · rw [hnote]
    exact Or.inr ⟨hfault, _, _, rfl, h.writeFile⟩

end

section

variable {toYaml : FrontMatterWriter} {store : InboxStore} {faults : Faults} {dir : Node}
  {request : NoteRequest}

/-- A call that does not get as far as its file leaves the directory as it was. -/
theorem createNote_of_not_makesFile (h : ¬MakesFile toYaml store faults dir request) :
    ∃ e, store.createNote toYaml faults dir request.title request.body request.occurred
      request.fingerprint request.now = (.error e, dir) := by
  unfold InboxStore.createNote
  cases hp : store.prepareNote toYaml request.title request.body request.occurred
      request.fingerprint request.now with
  | error e => exact ⟨e, rfl⟩
  | ok prepared =>
    simp only
    unfold InboxStore.storeNote
    cases hu : usedBytes faults.scan dir with
    | error e => exact ⟨e, rfl⟩
    | ok used =>
      simp only
      by_cases hquota : store.maxTotalBytes < saturatingAddU64 used prepared.contents.length
      · exact ⟨_, if_pos hquota⟩
      · -- past the quota only the names can stop it
        have hreach : ¬ReachesFree faults.create dir prepared.names := fun hreach =>
          h ⟨prepared, used, hp, hu, not_lt.mp hquota, hreach⟩
        obtain ⟨e, hw⟩ := writeFirstFree_of_not_reaches prepared.contents hreach
        rw [if_neg hquota, hw]
        exact ⟨e, rfl⟩

/-- The file that a call makes, and what writing it answers. -/
theorem createNote_of_makesFile (h : MakesFile toYaml store faults dir request) :
    ∃ prepared name entry dir',
      store.prepareNote toYaml request.title request.body request.occurred request.fingerprint
        request.now = .ok prepared ∧
      AddsFile dir dir' entry [] ∧
      store.createNote toYaml faults dir request.title request.body request.occurred
          request.fingerprint request.now
        = ((writeNote faults dir' entry prepared.contents).1.map fun _ =>
            ⟨inboxIdPrefix ++ "/" ++ name, prepared.contents.length, prepared.created⟩,
          (writeNote faults dir' entry prepared.contents).2) := by
  obtain ⟨prepared, used, hp, hu, hle, hreach⟩ := h
  obtain ⟨name, entry, dir', hadds, hw⟩ := writeFirstFree_of_reaches prepared.contents hreach
  refine ⟨prepared, name, entry, dir', hp, hadds, ?_⟩
  unfold InboxStore.createNote
  rw [hp]
  simp only
  unfold InboxStore.storeNote
  rw [hu]
  simp only
  rw [if_neg (not_lt.mpr hle), hw]
  cases (writeNote faults dir' entry prepared.contents).1 <;> rfl

end

/-- An append is all or nothing exactly when the file, once it is made, is written and synced. -/
theorem all_or_nothing_iff (toYaml : FrontMatterWriter) (store : InboxStore) (faults : Faults)
    (dir : Node) (request : NoteRequest) :
    AllOrNothing toYaml store dir request (store.createNote toYaml faults dir request.title
        request.body request.occurred request.fingerprint request.now) ↔
      (faults.write = none ∧ faults.sync = none) ∨ ¬MakesFile toYaml store faults dir request := by
  by_cases hmakes : MakesFile toYaml store faults dir request
  · -- the file is there from now on, whatever happens to its content
    obtain ⟨prepared, name, entry, dir', hp, hadds, hnote⟩ := createNote_of_makesFile hmakes
    rw [hnote]
    rcases addsFile_writeNote prepared.contents hadds with ⟨hwrite, hsync, hok, hfile⟩ |
      ⟨hfault, e, written, herror, hfile⟩
    · refine iff_of_true (Or.inl ?_) (Or.inl ⟨hwrite, hsync⟩)
      rw [hok]
      exact ⟨_, prepared, rfl, hp, rfl, oneMore_of_addsFile hfile⟩
    · refine iff_of_false ?_ ?_
      · rw [herror]
        rintro (⟨note, _, hnote, -⟩ | ⟨_, -, hsame⟩)
        · cases hnote
        · exact not_sameEntries_of_addsFile hfile hsame
      · rintro (hno | hnot)
        · exact hfault hno
        · exact hnot hmakes
  · obtain ⟨e, hnote⟩ := createNote_of_not_makesFile hmakes
    rw [hnote]
    exact iff_of_true (Or.inr ⟨e, rfl, fun _ => rfl⟩) (Or.inr hmakes)

/-- The disk is full after ten bytes of the note. -/
def Sample.fullDisk : Faults := ⟨none, fun _ => none, some (10, .other 28), none⟩

/-- A note for an empty inbox. -/
def Sample.request : NoteRequest := ⟨"Rust", "x", none, "0a1b", 1786592700000000000⟩

/-- The file with the first ten bytes stays, although the call fails. -/
theorem not_all_or_nothing_fullDisk :
    ¬AllOrNothing Sample.writePlain (Sample.inbox []) (Sample.dir []) Sample.request
      ((Sample.inbox []).createNote Sample.writePlain Sample.fullDisk (Sample.dir [])
        Sample.request.title Sample.request.body Sample.request.occurred
        Sample.request.fingerprint Sample.request.now) := by
  generalize ho : (Sample.inbox []).createNote Sample.writePlain Sample.fullDisk (Sample.dir [])
    Sample.request.title Sample.request.body Sample.request.occurred
    Sample.request.fingerprint Sample.request.now = outcome
  have hrun : (outcome.1.toOption.isNone && (outcome.2.at [Sample.note]).isSome) = true := by
    rw [← ho]
    decide +kernel
  obtain ⟨hfails, hstays⟩ := Bool.and_eq_true_iff.mp hrun
  rintro (⟨note, _, hok, -⟩ | ⟨e, -, hsame⟩)
  · rw [hok] at hfails
    cases hfails
  · rw [hsame Sample.note] at hstays
    cases hstays

end EngramMcp
