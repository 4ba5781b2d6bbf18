import EngramMcp.Kb.AppendNote
import EngramMcp.Properties.AppendOnly
import EngramMcp.Properties.InboxWriteOnly
import Mathlib.Algebra.Order.BigOperators.Group.List
import Mathlib.Algebra.Order.Monoid.NatCast

/-!
# The quota of the inbox

`create_note` reads the size of the inbox, and makes and writes its file later. Between the two
its note is on nobody's account, so another call may be admitted for the same bytes. The limiter
does not prevent that: a full bucket is a burst.

* `usageInv_run` — the size of the inbox is the one at the start and what the calls wrote
* `withinQuota_step` — what is there and what is still to be written, together
* `overshoot_by_one_note` — the inbox stays within one note of its quota when every call that is
  admitted finds room for its note, as it does when at most one other call is in flight
-/

namespace EngramMcp

open Infra InboxStore

variable {toYaml : FrontMatterWriter} {store : InboxStore}

/-! ## The size of a directory -/

/-- The total size of the regular files in a directory. -/
def totalBytes : Node → Nat
  | .dir _ _ entries => (entries.map fun entry => fileSize entry.2).sum
  | _ => 0

theorem foldl_saturatingAddU64 (entries : List (Name × Node)) {total : Nat}
    (h : total ≤ 2 ^ 64 - 1) :
    entries.foldl (fun total entry => saturatingAddU64 total (fileSize entry.2)) total
      = saturatingAddU64 total (entries.map fun entry => fileSize entry.2).sum := by
  induction entries generalizing total with
  | nil => exact (Nat.min_eq_left h).symm
  | cons entry rest ih =>
    have hle : saturatingAddU64 total (fileSize entry.2) ≤ 2 ^ 64 - 1 := Nat.min_le_right _ _
    rw [List.foldl_cons, ih hle, List.map_cons, List.sum_cons]
    unfold saturatingAddU64
    omega

/-- What `used_bytes` answers, as far as it can count. -/
theorem usedBytes_eq_ok {scan : Option Errno} {dir : Node} {used : Nat}
    (h : usedBytes scan dir = .ok used) : used = saturatingAddU64 0 (totalBytes dir) := by
  unfold usedBytes at h
  split at h
  · exact nomatch h
  · exact nomatch h
  · split at h
    · exact nomatch h
    · obtain rfl := Except.ok.inj h
      exact foldl_saturatingAddU64 _ (Nat.zero_le _)
  · exact nomatch h

/-- One entry of a directory has the name, and that is its node. -/
def HasOne (dir : Node) (entry : Name) (node : Node) : Prop :=
  ∃ openError searchError before after,
    dir = .dir openError searchError (before ++ (entry, node) :: after) ∧
    ∀ other ∈ before ++ after, other.1 ≠ entry

theorem AddsFile.hasOne {dir dir' : Node} {entry : Name} {content : Bytes}
    (h : AddsFile dir dir' entry content) : HasOne dir' entry (.file none none content) := by
  obtain ⟨openError, entries, rfl, hfree, rfl⟩ := h
  refine ⟨openError, none, entries, [], rfl, ?_⟩
  rw [List.append_nil]
  exact fun e he => ne_of_lookup_eq_none hfree he

theorem AddsFile.hasOne_of_ne {dir dir' : Node} {entry other : Name} {content : Bytes} {node : Node}
    (h : AddsFile dir dir' entry content) (hone : HasOne dir other node) (hne : other ≠ entry) :
    HasOne dir' other node := by
  obtain ⟨openError, entries, rfl, -, rfl⟩ := h
  obtain ⟨_, _, before, after, hdir, hother⟩ := hone
  cases hdir
  refine ⟨openError, none, before, after ++ [(entry, .file none none content)], by simp, ?_⟩
  rw [← List.append_assoc]
  intro e he
  rcases List.mem_append.mp he with he | he
  · exact hother e he
  · rw [List.mem_singleton.mp he]
    exact hne.symm

theorem HasOne.writeFile {dir : Node} {entry : Name} {node : Node} (h : HasOne dir entry node)
    (content : Bytes) :
    HasOne (writeFile dir entry content) entry (.file none none content) := by
  obtain ⟨openError, searchError, before, after, rfl, hother⟩ := h
  exact ⟨openError, searchError, before, after, writeFile_eq node content hother, hother⟩

theorem HasOne.writeFile_of_ne {dir : Node} {entry other : Name} {node : Node}
    (h : HasOne dir other node) (content : Bytes) (hne : other ≠ entry) :
    HasOne (EngramMcp.writeFile dir entry content) other node := by
  obtain ⟨openError, searchError, before, after, rfl, hother⟩ := h
  -- the names stay, and so does the one entry
  let write := fun e : Name × Node =>
    if e.1 = entry then (e.1, Node.modify (fun _ => .file none none content) e.2 []) else e
  have hname : ∀ e, (write e).1 = e.1 := fun e => by
    show (if _ then _ else _ : Name × Node).1 = e.1
    split <;> rfl
  refine ⟨openError, searchError, before.map write, after.map write, ?_, fun e he => ?_⟩
  · unfold EngramMcp.writeFile
    rw [Node.modify, List.map_append, List.map_cons, if_neg hne]
  · rw [← List.map_append] at he
    obtain ⟨e', he', rfl⟩ := List.mem_map.mp he
    rw [hname]
    exact hother e' he'

theorem AddsFile.totalBytes {dir dir' : Node} {entry : Name} {content : Bytes}
    (h : AddsFile dir dir' entry content) : totalBytes dir' = totalBytes dir + content.length := by
  obtain ⟨openError, entries, rfl, -, rfl⟩ := h
  show (List.map _ (entries ++ [_])).sum = _
  rw [List.map_append, List.sum_append]
  rfl

/-- Writing an empty file. -/
theorem totalBytes_writeFile {dir : Node} {entry : Name} (h : HasOne dir entry (.file none none []))
    (content : Bytes) :
    totalBytes (writeFile dir entry content) = totalBytes dir + content.length := by
  obtain ⟨openError, searchError, before, after, rfl, hother⟩ := h
  rw [writeFile_eq _ content hother]
  simp only [totalBytes, List.map_append, List.map_cons, List.sum_append, List.sum_cons, fileSize,
    List.length_nil]
  omega

/-! ## What the calls write -/

namespace NoteCall

/-- The bytes that a call has yet to write, once it has passed its quota check. -/
def pendingBytes : NoteCall → Nat
  | creating prepared _ => prepared.contents.length
  | writing prepared _ _ => prepared.contents.length
  | _ => 0

/-- The size of the note that a call wrote, or of what it wrote of it. -/
def writtenBytes : NoteCall → Nat
  | returned prepared _ _ => prepared.contents.length
  | writeFailed _ _ _ written _ => written.length
  | _ => 0

/-- What a call that has passed its quota check wrote or has yet to write. -/
def admittedBytes (call : NoteCall) : Nat := call.pendingBytes + call.writtenBytes

/-- Whether a call is between its quota check and its write. -/
def inFlight : NoteCall → Bool
  | creating _ _ => true
  | writing _ _ _ => true
  | _ => false

theorem pendingBytes_eq_zero {call : NoteCall} (h : call.inFlight = false) :
    call.pendingBytes = 0 := by
  cases call with
  | creating | writing => cases h
  | scanning | returned | writeFailed | failed => rfl

end NoteCall

/-- A step of a call writes its note, or gives up the rest of it, or is its quota check. -/
theorem NoteStep.usage {faults : Faults} {dir dir' : Node} {call call' : NoteCall}
    (h : NoteStep store faults dir call call' dir')
    (hone : ∀ entry node, call.file? = some (entry, node) → HasOne dir entry node) :
    totalBytes dir' + call.writtenBytes = totalBytes dir + call'.writtenBytes ∧
    (call'.admittedBytes ≤ call.admittedBytes ∨
      ∃ prepared, call = .scanning prepared ∧
        saturatingAddU64 (totalBytes dir) prepared.contents.length ≤ store.maxTotalBytes ∧
        call' = .creating prepared prepared.names) := by
  cases h with
  | scanFailed | refused | taken | returned | leftBehind | failed => exact ⟨rfl, Or.inl le_rfl⟩
  | @admitted prepared used hused hle =>
    refine ⟨rfl, Or.inr ⟨prepared, rfl, ?_, rfl⟩⟩
    have hu := usedBytes_eq_ok hused
    unfold saturatingAddU64 at hu hle ⊢
    omega
  | exhausted | createFailed => exact ⟨rfl, Or.inl (Nat.zero_le _)⟩
  | created _ hadds => exact ⟨congrArg (· + 0) hadds.totalBytes, Or.inl le_rfl⟩
  | @written prepared name entry =>
    refine ⟨?_, Or.inl (Nat.add_comm _ _).le⟩
    rw [totalBytes_writeFile (hone entry _ rfl)]
    rfl
  | @writeFailed prepared name entry written _ _ hprefix =>
    refine ⟨?_, Or.inl ?_⟩
    · rw [totalBytes_writeFile (hone entry _ rfl)]
      rfl
    · show 0 + written.length ≤ prepared.contents.length + 0
      have hle := hprefix.length_le
      omega

namespace InboxState

/-- What the calls have yet to write. -/
def pendingBytes (s : InboxState) : Nat := (s.calls.map fun entry => entry.2.pendingBytes).sum

/-- What is in the inbox, and what the calls have yet to write. -/
def claimedBytes (s : InboxState) : Nat := totalBytes s.dir + s.pendingBytes

/-- What the calls wrote. -/
def writtenBytes (s : InboxState) : Nat := (s.calls.map fun entry => entry.2.writtenBytes).sum

end InboxState

theorem sum_map_set {α : Type*} (f : α → Nat) {l : List α} {i : Nat} {x : α} (h : l[i]? = some x)
    (y : α) : ((l.set i y).map f).sum + f x = (l.map f).sum + f y := by
  induction l generalizing i with
  | nil => simp at h
  | cons z l ih =>
    cases i with
    | zero =>
      obtain rfl : z = x := by simpa using h
      rw [List.set_cons_zero, List.map_cons, List.sum_cons, List.map_cons, List.sum_cons]
      omega
    | succ i =>
      have hrest := ih (i := i) (by simpa using h)
      rw [List.set_cons_succ, List.map_cons, List.sum_cons, List.map_cons, List.sum_cons]
      omega

/-- The files of the calls are there once, and the size of the inbox is accounted for. -/
structure UsageInv (dir₀ : Node) (s : InboxState) : Prop where
  files : InboxInv dir₀ s
  one : ∀ i entry node, s.file? i = some (entry, node) → HasOne s.dir entry node
  total : totalBytes s.dir = totalBytes dir₀ + s.writtenBytes

theorem UsageInv.one_of_file? {dir₀ : Node} {s : InboxState} (h : UsageInv dir₀ s) {i : Nat}
    {request : NoteRequest} {call : NoteCall} (hi : s.calls[i]? = some (request, call))
    (entry : Name) (node : Node) (hfile : call.file? = some (entry, node)) :
    HasOne s.dir entry node :=
  h.one i entry node (by rw [InboxState.file?_eq hi]; exact hfile)

theorem hasOne_step {dir₀ : Node} {s : InboxState} (h : UsageInv dir₀ s) (e : InboxEvent)
    (i : Nat) (entry : Name) (node : Node)
    (hfile : (s.step toYaml store e).file? i = some (entry, node)) :
    HasOne (s.step toYaml store e).dir entry node := by
  rcases step_files toYaml store s e with
    ⟨hdir, hsame⟩ | ⟨j, made, -, hadds, hupdate⟩ | ⟨j, made, contents, hmade, hdir, hupdate⟩
  · rw [hdir]
    exact h.one i entry node (by rw [← hsame]; exact hfile)
  · rw [hupdate] at hfile
    by_cases hij : i = j
    · subst hij
      rw [Function.update_self] at hfile
      cases hfile
      exact hadds.hasOne
    · rw [Function.update_of_ne hij] at hfile
      refine hadds.hasOne_of_ne (h.one i entry node hfile) ?_
      rintro rfl
      have hthere := h.files.owned i entry node hfile
      rw [hadds.at_eq_none] at hthere
      cases hthere
  · rw [hupdate] at hfile
    rw [hdir]
    by_cases hij : i = j
    · subst hij
      rw [Function.update_self] at hfile
      cases hfile
      exact (h.one i entry _ hmade).writeFile contents
    · rw [Function.update_of_ne hij] at hfile
      refine (h.one i entry node hfile).writeFile_of_ne contents ?_
      rintro rfl
      exact hij (h.files.distinct i j entry _ _ hfile hmade)

/-- A call that has just begun has written nothing and will not write before its quota check. -/
theorem admittedBytes_begin (toYaml : FrontMatterWriter) (store : InboxStore)
    (request : NoteRequest) : (store.begin toYaml request).admittedBytes = 0 := by
  unfold InboxStore.begin
  split <;> rfl

theorem sums_call (s : InboxState) (request : NoteRequest) :
    (s.step toYaml store (.call request)).pendingBytes = s.pendingBytes ∧
      (s.step toYaml store (.call request)).writtenBytes = s.writtenBytes := by
  have hzero := admittedBytes_begin toYaml store request
  unfold NoteCall.admittedBytes at hzero
  obtain ⟨hpending, hwritten⟩ := Nat.add_eq_zero_iff.mp hzero
  unfold InboxState.step InboxState.pendingBytes InboxState.writtenBytes
  simp [hpending, hwritten]

theorem usageInv_step {dir₀ : Node} {s : InboxState} (h : UsageInv dir₀ s) (e : InboxEvent) :
    UsageInv dir₀ (s.step toYaml store e) := by
  refine ⟨h.files.step e, hasOne_step h e, ?_⟩
  rcases InboxState.step_cases toYaml store s e with ⟨request, rfl, hs⟩ | ⟨_, _, -, -, hs⟩ |
    ⟨i, faults, request, call, call', dir', -, hi, hstep, hs⟩
  · rw [(sums_call s request).2, hs]
    exact h.total
  · rw [hs]
    exact h.total
  · rw [hs]
    have hsum := sum_map_set (fun entry => entry.2.writtenBytes) hi (request, call')
    have htotal := (hstep.usage (h.one_of_file? hi)).1
    have hbefore := h.total
    unfold InboxState.writtenBytes at hbefore ⊢
    show totalBytes dir' = totalBytes dir₀
      + ((s.calls.set i (request, call')).map fun entry => entry.2.writtenBytes).sum
    simp only at hsum
    omega

/-! ## The quota -/

/-- The inbox exceeds its quota by no more than one of the notes that were written to it. -/
def InboxState.ExceedsByOneNote (store : InboxStore) (s : InboxState) : Prop :=
  totalBytes s.dir ≤ store.maxTotalBytes ∨
    ∃ entry ∈ s.calls, totalBytes s.dir ≤ store.maxTotalBytes + entry.2.writtenBytes

/-- The same with what is still to be written, for a note that is or will be written. -/
def InboxState.WithinQuota (store : InboxStore) (s : InboxState) : Prop :=
  s.claimedBytes ≤ store.maxTotalBytes ∨
    ∃ entry ∈ s.calls, s.claimedBytes ≤ store.maxTotalBytes + entry.2.admittedBytes

/--
There is room for the note of a call that is about to pass its quota check: what is there and what
is still to be written is within the quota, or would be with one note less.
-/
def InboxState.RoomAt (store : InboxStore) (s : InboxState) (i : Nat) : Prop :=
  ∀ request prepared, s.calls[i]? = some (request, .scanning prepared) →
    saturatingAddU64 (totalBytes s.dir) prepared.contents.length ≤ store.maxTotalBytes →
    s.claimedBytes ≤ store.maxTotalBytes ∨
      ∃ entry ∈ s.calls,
        s.claimedBytes + prepared.contents.length ≤ store.maxTotalBytes + entry.2.admittedBytes

/-- What is written is not pending any more. -/
theorem InboxState.WithinQuota.exceedsByOneNote {s : InboxState} (h : s.WithinQuota store) :
    s.ExceedsByOneNote store := by
  unfold InboxState.WithinQuota InboxState.claimedBytes at h
  rcases h with h | ⟨entry, he, h⟩
  · exact Or.inl (by omega)
  · refine Or.inr ⟨entry, he, ?_⟩
    have hle : entry.2.pendingBytes ≤ s.pendingBytes :=
      List.le_sum_of_mem (List.mem_map_of_mem he)
    unfold NoteCall.admittedBytes at h
    omega

/-- An entry of the list stays, or is the one that is replaced. -/
theorem mem_set_of_mem {α : Type*} {l : List α} {i : Nat} {x y z : α} (h : l[i]? = some x)
    (hz : z ∈ l) : z = x ∨ z ∈ l.set i y := by
  obtain ⟨j, hj⟩ := List.mem_iff_getElem?.mp hz
  by_cases hij : i = j
  · subst hij
    rw [h] at hj
    exact Or.inl (Option.some.inj hj).symm
  · exact Or.inr (List.mem_iff_getElem?.mpr ⟨j, by rw [List.getElem?_set_ne hij]; exact hj⟩)

/-- What is there and what is still to be written changes by the note of the call that goes on. -/
theorem claimedBytes_advance {dir₀ dir' : Node} {s : InboxState} (hinv : UsageInv dir₀ s) {i : Nat}
    {request : NoteRequest} {call call' : NoteCall} (hi : s.calls[i]? = some (request, call))
    (hstep : NoteStep store faults s.dir call call' dir') :
    InboxState.claimedBytes ⟨dir', s.calls.set i (request, call')⟩ + call.admittedBytes
      = s.claimedBytes + call'.admittedBytes := by
  have htotal := (hstep.usage (hinv.one_of_file? hi)).1
  have hpending := sum_map_set (fun entry => entry.2.pendingBytes) hi (request, call')
  unfold InboxState.claimedBytes InboxState.pendingBytes NoteCall.admittedBytes
  simp only at hpending ⊢
  omega

theorem withinQuota_step {dir₀ : Node} {s : InboxState} (hinv : UsageInv dir₀ s)
    (h : s.WithinQuota store) {e : InboxEvent}
    (hroom : ∀ i faults, e = .advance i faults → s.RoomAt store i) :
    (s.step toYaml store e).WithinQuota store := by
  rcases InboxState.step_cases toYaml store s e with ⟨request, rfl, hs⟩ | ⟨_, _, -, -, hs⟩ |
    ⟨i, faults, request, call, call', dir', rfl, hi, hstep, hs⟩
  · have hclaimed : (s.step toYaml store (.call request)).claimedBytes = s.claimedBytes :=
      congrArg (totalBytes s.dir + ·) (sums_call s request).1
    unfold InboxState.WithinQuota
    rw [hclaimed, hs]
    rcases h with h | ⟨entry, he, h⟩
    · exact Or.inl h
    · exact Or.inr ⟨entry, List.mem_append_left _ he, h⟩
  · rw [hs]
    exact h
  · have hnew : (request, call') ∈ s.calls.set i (request, call') :=
      List.mem_set (List.getElem?_eq_some_iff.mp hi).1 _
    have hkeep := fun z => mem_set_of_mem (y := (request, call')) (z := z) hi
    have hclaimed := claimedBytes_advance hinv hi hstep
    rw [hs]
    rcases (hstep.usage (hinv.one_of_file? hi)).2 with hless | ⟨prepared, rfl, hle, rfl⟩
    · -- nothing, or the note moves from one account to the other, or the rest of it is given up
      rcases h with h | ⟨entry, he, h⟩
      · exact Or.inl (by omega)
      · rcases hkeep entry he with rfl | he'
        · exact Or.inr ⟨_, hnew, by simp only at h ⊢; omega⟩
        · exact Or.inr ⟨entry, he', by omega⟩
    · -- the note is admitted
      have hzero : NoteCall.admittedBytes (.scanning prepared) = 0 := rfl
      have hsize : NoteCall.admittedBytes (.creating prepared prepared.names)
          = prepared.contents.length := rfl
      rcases hroom i faults rfl request prepared hi hle with hfits | ⟨entry, he, hfits⟩
      · exact Or.inr ⟨_, hnew, by simp only; omega⟩
      · rcases hkeep entry he with rfl | he'
        · exact Or.inl (by simp only at hfits; omega)
        · exact Or.inr ⟨entry, he', by omega⟩

/-! ## The server -/

/-- There is room for the note of the call that goes on. -/
def NoteServer.HasRoom (store : InboxStore) (s : NoteServer) : NoteEvent → Prop
  | .appendNote _ _ => True
  | .advance i _ => s.inbox.RoomAt store i

/-- A run in which every call that passes its quota check finds room for its note. -/
abbrev RoomyRun (toYaml : FrontMatterWriter) (store : InboxStore) (s₀ : NoteServer) :
    List NoteEvent → NoteServer → Prop :=
  Run (fun _ s e s' => s.HasRoom store e ∧ s' = s.step toYaml store e) s₀

theorem usageInv_new (writesPerHour : Nat) (start : ℚ) (dir : Node) :
    UsageInv dir (NoteServer.new writesPerHour start dir).inbox where
  files := inboxInv_nil dir
  one i entry node hfile := by cases hfile
  total := rfl

theorem usageInv_run {writesPerHour : Nat} {start : ℚ} {dir : Node} {s : NoteServer}
    {h : List NoteEvent} (hr : NoteRun toYaml store (.new writesPerHour start dir) h s) :
    UsageInv dir s.inbox := by
  refine Steps.invariant (P := fun _ s => UsageInv dir s.inbox) ?_
    (usageInv_new writesPerHour start dir) hr
  rintro h s e s' hinv rfl
  rcases s.step_inbox toYaml store e with hs | ⟨_, _, -, hs⟩ | ⟨_, _, -, hs⟩
  · rw [hs]
    exact hinv
  · rw [hs]
    exact usageInv_step hinv _
  · rw [hs]
    exact usageInv_step hinv _

theorem withinQuota_run {writesPerHour : Nat} {start : ℚ} {dir : Node} {s : NoteServer}
    {h : List NoteEvent} (hdir : totalBytes dir ≤ store.maxTotalBytes)
    (hr : RoomyRun toYaml store (.new writesPerHour start dir) h s) :
    s.inbox.WithinQuota store := by
  refine (Steps.invariant (P := fun _ s => UsageInv dir s.inbox ∧ s.inbox.WithinQuota store) ?_
    ⟨usageInv_new writesPerHour start dir, Or.inl hdir⟩ hr).2
  rintro h s e s' ⟨hinv, hquota⟩ ⟨hroom, rfl⟩
  rcases s.step_inbox toYaml store e with hs | ⟨_, _, rfl, hs⟩ | ⟨i, faults, rfl, hs⟩
  · rw [hs]
    exact ⟨hinv, hquota⟩
  · rw [hs]
    exact ⟨usageInv_step hinv _, withinQuota_step hinv hquota fun _ _ he => nomatch he⟩
  · rw [hs]
    refine ⟨usageInv_step hinv _, withinQuota_step hinv hquota ?_⟩
    rintro j _ ⟨⟩
    exact hroom

/-! ## One other call -/

/-- The calls that are between their quota check and their write. -/
def InboxState.inFlight (s : InboxState) : List (NoteRequest × NoteCall) :=
  s.calls.filter fun entry => entry.2.inFlight

/-- Only they have something to write. -/
theorem pendingBytes_eq (s : InboxState) :
    s.pendingBytes = (s.inFlight.map fun entry => entry.2.pendingBytes).sum := by
  unfold InboxState.pendingBytes InboxState.inFlight
  induction s.calls with
  | nil => rfl
  | cons entry rest ih =>
    rw [List.map_cons, List.sum_cons, ih, List.filter_cons]
    by_cases hf : entry.2.inFlight = true
    · rw [if_pos hf, List.map_cons, List.sum_cons]
    · rw [if_neg hf, NoteCall.pendingBytes_eq_zero (Bool.not_eq_true _ ▸ hf), Nat.zero_add]

/-- The quota of a server that has started is far from the end of the counter. -/
theorem Startup.maxTotalBytes_lt {C : ConfigCrates} (S : Startup C) :
    S.inbox.maxTotalBytes < 2 ^ 64 - 1 := by
  have hsettings := (parts_of_fromLookup S.config_eq).2
  rw [S.settings_eq] at hsettings
  have hle : S.settings.maxTotalBytes ≤ 67108864 := by
    unfold inboxFromLookup at hsettings
    split at hsettings
    · cases hsettings
    · split at hsettings
      · cases hsettings
      · obtain ⟨_, _, h⟩ := bind_eq_ok.mp hsettings
        obtain ⟨_, _, h⟩ := bind_eq_ok.mp h
        obtain ⟨maxTotalBytes, hparse, h⟩ := bind_eq_ok.mp h
        rw [← Option.some.inj (Except.ok.inj h)]
        exact (mem_range_of_parseInRange hparse).2
  rw [(InboxStore.open_eq_ok S.inbox_eq).2.2]
  omega

/-- While the counter has not reached its end, a call finds room when at most one other call is
in flight. -/
theorem roomAt_of_inFlight {s : InboxState} (hmax : store.maxTotalBytes < 2 ^ 64 - 1)
    (h : s.inFlight.length ≤ 1) (i : Nat) : s.RoomAt store i := by
  intro request prepared _ hle
  have hclaimed : s.claimedBytes = totalBytes s.dir + _ :=
    congrArg (totalBytes s.dir + ·) (pendingBytes_eq s)
  have hfits : totalBytes s.dir + prepared.contents.length ≤ store.maxTotalBytes := by
    unfold saturatingAddU64 at hle
    omega
  cases hflight : s.inFlight with
  | nil =>
    left
    rw [hclaimed, hflight, List.map_nil, List.sum_nil]
    omega
  | cons entry rest =>
    have hrest : rest = [] := by
      rw [hflight, List.length_cons] at h
      exact List.length_eq_zero_iff.mp (by omega)
    subst hrest
    have hmem : entry ∈ s.calls := List.mem_of_mem_filter (hflight ▸ List.mem_singleton_self entry)
    refine Or.inr ⟨entry, hmem, ?_⟩
    rw [hclaimed, hflight, List.map_singleton, List.sum_singleton]
    unfold NoteCall.admittedBytes
    omega

/--
**The overshoot of the quota.** In every run in which each call that passes its quota check finds
room for its note, the inbox exceeds its quota by one note at most. On a server that has started a
call finds room when at most one other call is in flight.
-/
theorem overshoot_by_one_note (toYaml : FrontMatterWriter) (store : InboxStore)
    (writesPerHour : Nat) (start : ℚ) {dir : Node} (hdir : totalBytes dir ≤ store.maxTotalBytes) :
    (∀ h s, RoomyRun toYaml store (.new writesPerHour start dir) h s →
      s.inbox.ExceedsByOneNote store) ∧
    ∀ {C : ConfigCrates} (S : Startup C), S.inbox = store → ∀ (s : NoteServer) (e : NoteEvent),
      s.inbox.inFlight.length ≤ 1 → s.HasRoom store e := by
  refine ⟨fun h s hr => (withinQuota_run hdir hr).exceedsByOneNote, ?_⟩
  rintro C S rfl s (⟨now, request⟩ | ⟨i, faults⟩) hflight
  · trivial
  · exact roomAt_of_inFlight S.maxTotalBytes_lt hflight i

/-! ## Three calls at once -/

/-- A call that passes its quota check. -/
theorem step_advance_scanning {s : InboxState} {i used : Nat} {faults : Faults}
    {request : NoteRequest} {prepared : Prepared}
    (hi : s.calls[i]? = some (request, .scanning prepared))
    (hused : usedBytes faults.scan s.dir = .ok used)
    (hle : saturatingAddU64 used prepared.contents.length ≤ store.maxTotalBytes) :
    s.step toYaml store (.advance i faults)
      = ⟨s.dir, s.calls.set i (request, .creating prepared prepared.names)⟩ := by
  simp only [InboxState.step, hi, InboxStore.advance, hused, if_neg (not_lt.mpr hle)]

section

open Sample

/-- An inbox in which there is room for one more note. -/
def Sample.nearlyFull : Node :=
  dir [(name "old.md", .file none none (List.replicate (8388608 - 95) 0))]

/-- The inbox of a server with the documented layout and the default settings. -/
def Sample.kbInbox : InboxStore := inbox [kbDir, inboxDir]

/-- A short note. -/
def Sample.short : NoteRequest := ⟨"Rust", "x", none, "0a1b", 1786592700000000000⟩

/-- What `create_note` prepares for it. -/
def Sample.prepared : Prepared :=
  match kbInbox.begin writePlain short with
  | .scanning prepared => prepared
  | _ => ⟨"", [], []⟩

/-- It is filed three times at once, and the first `n` calls are past their quota check. -/
def Sample.together (n : Nat) : InboxState :=
  ⟨nearlyFull, List.replicate n (short, .creating prepared prepared.names) ++
    List.replicate (3 - n) (short, .scanning prepared)⟩

/-- Three calls at one time. -/
def Sample.appends : List NoteEvent := List.replicate 3 (.appendNote 0 short)

/-- A call goes on, and nothing fails. -/
def Sample.goOn (i : Nat) : NoteEvent := .advance i Faults.none

theorem totalBytes_one (entry : Name) (content : Bytes) :
    totalBytes (dir [(entry, .file none none content)]) = content.length := rfl

theorem usedBytes_one (entry : Name) (content : Bytes) :
    usedBytes none (dir [(entry, .file none none content)])
      = .ok (saturatingAddU64 0 content.length) := rfl

theorem totalBytes_nearlyFull : totalBytes nearlyFull = 8388608 - 95 := by
  unfold nearlyFull
  rw [totalBytes_one, List.length_replicate]

theorem usedBytes_nearlyFull : usedBytes none nearlyFull = .ok (8388608 - 95) := by
  unfold nearlyFull
  rw [usedBytes_one, List.length_replicate]
  rfl

theorem begin_short :
    kbInbox.begin writePlain short = .scanning prepared ∧ prepared.contents.length = 95 := by
  have hsize : (match kbInbox.begin writePlain short with
      | .scanning prepared => prepared.contents.length
      | _ => 0) = 95 := by
    decide +kernel
  unfold prepared
  cases hbegin : kbInbox.begin writePlain short with
  | scanning prepared =>
    rw [hbegin] at hsize
    exact ⟨rfl, hsize⟩
  | creating | writing | returned | writeFailed | failed =>
    rw [hbegin] at hsize
    cases hsize

/-- A limiter for ten writes an hour admits three at once. -/
theorem exists_check_three : ∃ limiter₁ limiter₂ limiter₃,
    (WriteRateLimiter.new 10 0).check 0 = (limiter₁, .ok ()) ∧
      limiter₁.check 0 = (limiter₂, .ok ()) ∧ limiter₂.check 0 = (limiter₃, .ok ()) :=
  ⟨_, _, _, Prod.ext rfl (by decide +kernel), Prod.ext rfl (by decide +kernel),
    Prod.ext rfl (by decide +kernel)⟩

/-- A call that is admitted is about to check the quota. -/
theorem step_append_short {limiter limiter' : WriteRateLimiter}
    (h : limiter.check 0 = (limiter', .ok ())) (calls : List (NoteRequest × NoteCall)) :
    NoteServer.step writePlain kbInbox ⟨limiter, ⟨nearlyFull, calls⟩⟩ (.appendNote 0 short)
      = ⟨limiter', ⟨nearlyFull, calls ++ [(short, .scanning prepared)]⟩⟩ := by
  show NoteServer.appendNote writePlain kbInbox _ 0 short = _
  rw [NoteServer.appendNote_of_ok h, ← begin_short.1]
  rfl

theorem exists_foldl_appends : ∃ limiter,
    appends.foldl (NoteServer.step writePlain kbInbox) (.new 10 0 nearlyFull)
      = ⟨limiter, together 0⟩ := by
  obtain ⟨limiter₁, limiter₂, limiter₃, h1, h2, h3⟩ := exists_check_three
  refine ⟨limiter₃, ?_⟩
  unfold appends NoteServer.new
  rw [List.replicate_succ, List.replicate_succ, List.replicate_one, List.foldl_cons,
    List.foldl_cons, List.foldl_cons, List.foldl_nil, step_append_short h1, step_append_short h2,
    step_append_short h3]
  rfl

/-- Each of them passes its quota check: the inbox is as it was. -/
theorem step_together {n : Nat} (hn : n < 3) :
    (together n).step writePlain kbInbox (.advance n Faults.none) = together (n + 1) := by
  obtain ⟨hi, hset⟩ : (together n).calls[n]? = some (short, .scanning prepared) ∧
      (together n).calls.set n (short, .creating prepared prepared.names)
        = (together (n + 1)).calls := by
    obtain rfl | rfl | rfl : n = 0 ∨ n = 1 ∨ n = 2 := by omega
    · exact ⟨rfl, rfl⟩
    · exact ⟨rfl, rfl⟩
    · exact ⟨rfl, rfl⟩
  have hfits : saturatingAddU64 (8388608 - 95) prepared.contents.length
      ≤ kbInbox.maxTotalBytes := by
    rw [begin_short.2]
    decide
  rw [step_advance_scanning (s := together n) hi usedBytes_nearlyFull hfits, hset]
  rfl

/-- The calls are made, and the first `n` of them pass their quota check. -/
theorem exists_run_together {P : NoteServer → NoteEvent → Prop}
    (happend : ∀ s now request, P s (.appendNote now request)) {n : Nat} (hn : n ≤ 3)
    (hgo : ∀ limiter, ∀ k < n, P ⟨limiter, together k⟩ (goOn k)) : ∃ limiter,
      Run (fun _ s e s' => P s e ∧ s' = s.step writePlain kbInbox e) (.new 10 0 nearlyFull)
        (appends ++ (List.range n).map goOn) ⟨limiter, together n⟩ := by
  induction n with
  | zero =>
    obtain ⟨limiter, hl⟩ := exists_foldl_appends
    refine ⟨limiter, ?_⟩
    rw [← hl, List.range_zero, List.map_nil, List.append_nil]
    exact ((Steps.refl.tail ⟨happend _ _ _, rfl⟩).tail ⟨happend _ _ _, rfl⟩).tail
      ⟨happend _ _ _, rfl⟩
  | succ n ih =>
    obtain ⟨limiter, hr⟩ := ih (by omega) fun limiter k hk => hgo limiter k (by omega)
    refine ⟨limiter, ?_⟩
    rw [List.range_succ, List.map_append, ← List.append_assoc, List.map_singleton]
    refine hr.tail ⟨hgo limiter n (by omega), ?_⟩
    show _ = NoteServer.mk limiter _
    rw [step_together (by omega)]

/-- Two calls that both pass their quota check before either has written. -/
theorem overshoot_by_one_note_two : ∃ limiter, (together 2).inFlight.length = 2 ∧
    RoomyRun writePlain kbInbox (.new 10 0 nearlyFull) (appends ++ [goOn 0, goOn 1])
      ⟨limiter, together 2⟩ ∧ (together 2).ExceedsByOneNote kbInbox := by
  have hstart : (start configCrates (fileSystem emptyKb) (lookup "/kb/99_inbox")).map
      (fun S => S.inbox) = some kbInbox := by
    decide +kernel
  have hdir : totalBytes nearlyFull ≤ kbInbox.maxTotalBytes := by
    rw [totalBytes_nearlyFull]
    decide
  have hproperty := overshoot_by_one_note writePlain kbInbox 10 0 hdir
  obtain ⟨S, -, hS⟩ := Option.map_eq_some_iff.mp hstart
  have hflight : ∀ k < 2, (together k).inFlight.length ≤ 1 := by decide +kernel
  obtain ⟨limiter, hr⟩ := exists_run_together (P := NoteServer.HasRoom kbInbox)
    (fun _ _ _ => trivial) (n := 2) (by decide)
    fun limiter k hk => hproperty.2 S hS ⟨limiter, together k⟩ (goOn k) (hflight k hk)
  exact ⟨limiter, by decide +kernel, hr, hproperty.1 _ _ hr⟩

/-- Each of the three calls finds a free name, makes its file and writes it. -/
def Sample.finish : List NoteEvent :=
  List.replicate 2 (goOn 0) ++ List.replicate 3 (goOn 1) ++ List.replicate 4 (goOn 2)

/-- The inbox after the three notes were written. -/
def Sample.overfull : InboxState :=
  (finish.foldl (NoteServer.step writePlain kbInbox) ⟨.new 10 0, together 3⟩).inbox

theorem inbox_finish (limiter : WriteRateLimiter) :
    (finish.foldl (NoteServer.step writePlain kbInbox) ⟨limiter, together 3⟩).inbox = overfull :=
  rfl

/-- **Two notes over the quota.** Three calls pass their quota check before any of them writes. -/
theorem not_exceeds_by_one_note_three : totalBytes nearlyFull ≤ kbInbox.maxTotalBytes ∧
    ¬ ∀ h s, NoteRun writePlain kbInbox (.new 10 0 nearlyFull) h s →
      s.inbox.ExceedsByOneNote kbInbox := by
  have hnotes : overfull.calls.map (fun entry => entry.2.writtenBytes) = [95, 95, 95] := by
    decide +kernel
  have hwritten : overfull.writtenBytes = 285 := by
    rw [InboxState.writtenBytes, hnotes]
    rfl
  obtain ⟨limiter, hr⟩ := exists_run_together (P := fun _ _ => True)
    (fun _ _ _ => trivial) (n := 3) (by decide) (fun _ _ _ => trivial)
  have hrun := (hr.mono fun _ _ _ _ hs => hs.2).foldl finish
  have htotal := (usageInv_run hrun).total
  rw [inbox_finish, totalBytes_nearlyFull, hwritten] at htotal
  have hquota : kbInbox.maxTotalBytes = 8388608 := rfl
  rw [totalBytes_nearlyFull, hquota]
  refine ⟨by decide, fun h => ?_⟩
  have hexceeds := h _ _ hrun
  rw [inbox_finish] at hexceeds
  unfold InboxState.ExceedsByOneNote at hexceeds
  rw [htotal, hquota] at hexceeds
  rcases hexceeds with hle | ⟨entry, he, hle⟩
  · omega
  · have hsize : entry.2.writtenBytes ∈ [95, 95, 95] :=
      hnotes ▸ List.mem_map_of_mem he
    simp only [List.mem_cons, List.not_mem_nil, or_false, or_self] at hsize
    omega

end

end EngramMcp
