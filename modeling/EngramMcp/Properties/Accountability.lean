import EngramMcp.Http.Reference

/-!
# Who filed a note

Every entry that the service adds to its inbox is the note of one request, which was let in with
the private scope and asked for exactly this note. The audit log has a line for it once the
request is answered, and no line for anything else. Where the note could not be written, its
beginning stays in the inbox and the line of the request says that there was an error.

* `inbox_accountable` — the entries and their requests
* `audit_log_of_notes` — the entries and their lines
-/

namespace EngramMcp

open Infra ServiceState InboxStore

variable {W : ServiceCrates} {K : ConfigCrates}

/-- An entry that the service added to its inbox. -/
def Added (D : Service W K) (inbox : InboxSupport) (entry : Name) (node : Node) : Prop :=
  inbox.notes.inbox.dir.at [entry] = some node ∧ (inbox.store.rootFd D.fs).at [entry] = none

/-- The request `i` is about to write the file that it made. -/
def ServiceState.WritesTo (s : ServiceState) (i : Nat) (entry : Name) : Prop :=
  ∃ (inbox : InboxSupport) (context : AuditContext) (attempted call : Nat)
    (request : NoteRequest) (prepared : Prepared) (name : String),
    s.server.inbox = some inbox ∧ s.writer i = some (context, attempted, call) ∧
    inbox.notes.inbox.calls[call]? = some (request, .writing prepared name entry)

/-- In the run a request came to write this file, and the write or the sync failed. -/
def WriteFailed (D : Service W K) (h : List ServiceLabel) (entry : Name) : Prop :=
  ∃ pre l post t i faults, h = pre ++ l :: post ∧ D.RunsTo pre t ∧ l.event = .advance i faults ∧
    t.WritesTo i entry ∧ ¬(faults.write = none ∧ faults.sync = none)

/--
The request `r` filed a note.

It was let in with a credential of the private scope, asked for this very note, and is told apart
by its number. The note is written under one of its 64 names, or its file is still empty, or the
write failed and the file holds the beginning of the note.
-/
structure FiledBy (D : Service W K) (h : List ServiceLabel) (inbox : InboxSupport)
    (r : ServiceRequest) (context : AuditContext) (request : NoteRequest) (prepared : Prepared)
    (name : String) (entry : Name) (node : Node) : Prop where
  served : r.phase.context? = some context
  requestId : context.requestId = r.id
  letIn : LetIn W D.app (D.history h) r.request.headers .private context.credentialFingerprint
  asksFor : W.transport.AsksFor r.request request
  fingerprint : request.fingerprint = context.credentialFingerprint
  prepares : Prepares W.toYaml inbox.store request prepared
  name_mem : name ∈ prepared.names
  bytes_eq : entry.bytes = utf8 name
  content : node = .file none none [] ∨ node = .file none none prepared.contents ∨
    WriteFailed D h entry ∧ ∃ written, written <+: prepared.contents ∧
      node = .file none none written

/-- The name of the file is one of those that were prepared. -/
theorem Found.name_mem {toYaml : FrontMatterWriter} {store : InboxStore} {s₀ : InboxState}
    {h : List InboxEvent} {i : Nat} {request : NoteRequest} {prepared : Prepared} {name : String}
    {entry : Name} (hfound : Found toYaml store s₀ h i request prepared name entry) :
    name ∈ prepared.names := by
  obtain ⟨tried, rest, hnames, -⟩ := hfound.first
  rw [hnames]
  exact List.mem_append_right _ List.mem_cons_self

/-- Where a call stands that made a file, and what is in the file. -/
inductive StandsAt (prepared : Prepared) (name : String) (entry : Name) : NoteCall → Node → Prop
  | writing : StandsAt prepared name entry (.writing prepared name entry) (.file none none [])
  | returned : StandsAt prepared name entry (.returned prepared name entry)
      (.file none none prepared.contents)
  | writeFailed {written : Bytes} {errno : Errno} : written <+: prepared.contents →
      StandsAt prepared name entry (.writeFailed prepared name entry written (.io errno))
        (.file none none written)

section

variable {D : Service W K} {h : List ServiceLabel} {s : ServiceState} {inbox : InboxSupport}
  {owner : Nat → Nat}

theorem WriteFailed.snoc {entry : Name} (hfailed : WriteFailed D h entry) (l : ServiceLabel) :
    WriteFailed D (h ++ [l]) entry := by
  obtain ⟨pre, l', post, t, i, faults, rfl, hrest⟩ := hfailed
  exact ⟨pre, l', post ++ [l], t, i, faults, by simp, hrest⟩

/-- A step of the notes in which a call fails to write its file is one of its request. -/
theorem writeFailed_of_notes {e : ServiceEvent} {event : NoteEvent}
    (hinbox : s.server.inbox = some inbox)
    (hevent : ∀ call faults, event = .advance call faults → ∃ (i : Nat) (r : ServiceRequest)
      (context : AuditContext) (attempted : Nat), e = .advance i faults ∧
      s.requests[i]? = some r ∧ r.phase = .writing context attempted call)
    {call : Nat} {request : NoteRequest} {prepared : Prepared} {name : String} {entry : Name}
    {written : Bytes} {error : InboxError}
    (hcall : (inbox.notes.step W.toYaml inbox.store event).inbox.calls[call]?
      = some (request, .writeFailed prepared name entry written error)) :
    inbox.notes.inbox.calls[call]?
      = some (request, .writeFailed prepared name entry written error) ∨
      ∃ i faults, e = .advance i faults ∧ s.WritesTo i entry ∧
        ¬(faults.write = none ∧ faults.sync = none) := by
  rcases inbox.notes.step_inbox W.toYaml inbox.store event with hs | ⟨_, _, -, hs⟩ |
    ⟨call', faults, rfl, hs⟩
  · rw [hs] at hcall
    exact Or.inl hcall
  · rw [hs] at hcall
    rcases writeFailed_of_step hcall with hbefore | ⟨_, he, -⟩
    · exact Or.inl hbefore
    · cases he
  · rw [hs] at hcall
    rcases writeFailed_of_step hcall with hbefore | ⟨_, he, hwriting, hfault⟩
    · exact Or.inl hbefore
    · cases he
      obtain ⟨i, r, context, attempted, he, hget, hphase⟩ := hevent _ _ rfl
      refine Or.inr ⟨i, _, he, ⟨inbox, context, attempted, call, request, prepared, name, hinbox,
        ?_, hwriting⟩, hfault⟩
      rw [ServiceState.writer, view_eq _ hget, hphase]
      rfl

/-- A call that could not write its file came to write it. -/
theorem writeFailed_of_call (hr : D.RunsTo h s) (hinbox : s.server.inbox = some inbox) {call : Nat}
    {request : NoteRequest} {prepared : Prepared} {name : String} {entry : Name} {written : Bytes}
    {error : InboxError} (hcall : inbox.notes.inbox.calls[call]?
      = some (request, .writeFailed prepared name entry written error)) :
    WriteFailed D h entry := by
  refine (Steps.invariant (P := fun h s => D.RunsTo h s ∧ ∀ inbox, s.server.inbox = some inbox →
    ∀ (call : Nat) (request : NoteRequest) (prepared : Prepared) (name : String) (entry : Name)
      (written : Bytes) (error : InboxError), inbox.notes.inbox.calls[call]?
        = some (request, .writeFailed prepared name entry written error) →
      WriteFailed D h entry) ?_ ⟨.refl, ?_⟩ hr).2 inbox hinbox call request prepared name entry
    written error hcall
  · rintro h s l s' ⟨hrun, hinv⟩ hstep
    refine ⟨hrun.tail hstep, fun inbox' hinbox' call request prepared name entry written error
      hcall => ?_⟩
    obtain ⟨rfl, -, -⟩ := hstep
    rcases (serviceMove_step (W := W) (A := D.app) s l.event).notes with hsame |
      ⟨inbox, event, hinbox, hnext, hevent⟩
    · rw [hsame] at hinbox'
      exact (hinv inbox' hinbox' _ _ _ _ _ _ _ hcall).snoc l
    · rw [hnext] at hinbox'
      obtain rfl := Option.some.inj hinbox'
      rcases writeFailed_of_notes hinbox hevent hcall with
        hbefore | ⟨i, faults, he, hwrites, hfault⟩
      · exact (hinv inbox hinbox _ _ _ _ _ _ _ hbefore).snoc l
      · exact ⟨h, l, [], s, i, faults, rfl, hrun, he, hwrites, hfault⟩
  · intro inbox hinbox call request prepared name entry written error hcall
    rw [D.starts.calls inbox hinbox] at hcall
    cases hcall

/-- An entry that was added is the file of a call. -/
theorem exists_call_of_added (hr : D.RunsTo h s) (hinbox : s.server.inbox = some inbox)
    {entry : Name} {node : Node} (hadded : Added D inbox entry node) :
    ∃ (call : Nat) (request : NoteRequest) (noteCall : NoteCall),
      inbox.notes.inbox.calls[call]? = some (request, noteCall) ∧
      noteCall.file? = some (entry, node) := by
  obtain ⟨events, hrun⟩ := D.exists_inbox_run hr hinbox
  rcases (inboxInv_run rfl hrun).covered entry node hadded.1 with hold | ⟨call, hfile⟩
  · cases hadded.2.symm.trans hold
  · obtain ⟨⟨request, noteCall⟩, hcall, hfile⟩ := Option.bind_eq_some_iff.mp hfile
    exact ⟨call, request, noteCall, hcall, hfile⟩

/-- The call of each entry that was added. -/
theorem exists_callOf (hr : D.RunsTo h s) (hinbox : s.server.inbox = some inbox) :
    ∃ callOf : Name → Nat,
      (∀ entry node, Added D inbox entry node → ∃ (request : NoteRequest) (noteCall : NoteCall),
        inbox.notes.inbox.calls[callOf entry]? = some (request, noteCall) ∧
        noteCall.file? = some (entry, node)) ∧
      Set.InjOn callOf {entry | ∃ node, Added D inbox entry node} := by
  have hcalls : ∀ entry : Name, ∃ call : Nat, ∀ node, Added D inbox entry node →
      ∃ request noteCall, inbox.notes.inbox.calls[call]? = some (request, noteCall) ∧
        noteCall.file? = some (entry, node) := by
    intro entry
    by_cases hadded : ∃ node, Added D inbox entry node
    · obtain ⟨node, hnode⟩ := hadded
      obtain ⟨call, request, noteCall, hcall, hfile⟩ := exists_call_of_added hr hinbox hnode
      refine ⟨call, fun node' hnode' => ⟨request, noteCall, hcall, ?_⟩⟩
      rw [hfile, Option.some.inj (hnode.1.symm.trans hnode'.1)]
    · exact ⟨0, fun node hnode => absurd ⟨node, hnode⟩ hadded⟩
  choose callOf hcallOf using hcalls
  refine ⟨callOf, hcallOf, ?_⟩
  rintro entry ⟨node, hadded⟩ entry' ⟨node', hadded'⟩ he
  obtain ⟨_, _, hcall, hfile⟩ := hcallOf entry node hadded
  obtain ⟨_, _, hcall', hfile'⟩ := hcallOf entry' node' hadded'
  rw [he] at hcall
  obtain ⟨-, rfl⟩ := Prod.mk.inj (Option.some.inj (hcall.symm.trans hcall'))
  exact (Prod.mk.inj (Option.some.inj (hfile.symm.trans hfile'))).1

/-- The file of a call was added. -/
theorem added_of_call (hr : D.RunsTo h s) (hinbox : s.server.inbox = some inbox) {call : Nat}
    {request : NoteRequest} {noteCall : NoteCall} {entry : Name} {node : Node}
    (hcall : inbox.notes.inbox.calls[call]? = some (request, noteCall))
    (hfile : noteCall.file? = some (entry, node)) : Added D inbox entry node := by
  obtain ⟨events, hrun⟩ := D.exists_inbox_run hr hinbox
  have hinv := inboxInv_run rfl hrun
  rw [← InboxState.file?_eq hcall] at hfile
  exact ⟨hinv.owned call entry node hfile, hinv.absent call entry node hfile⟩

/-- What a call prepared for the file that it made. -/
theorem prepares_of_file (hr : D.RunsTo h s) (hinbox : s.server.inbox = some inbox) {call : Nat}
    {request : NoteRequest} {noteCall : NoteCall} {entry : Name} {node : Node}
    (hcall : inbox.notes.inbox.calls[call]? = some (request, noteCall))
    (hfile : noteCall.file? = some (entry, node)) :
    ∃ prepared name, Prepares W.toYaml inbox.store request prepared ∧ name ∈ prepared.names ∧
      entry.bytes = utf8 name ∧ StandsAt prepared name entry noteCall node := by
  obtain ⟨events, hrun⟩ := D.exists_inbox_run hr hinbox
  have hpast := callInv_run rfl hrun call request noteCall hcall
  cases noteCall with
  | writing prepared name entry' =>
    cases hfile
    have hfound : Found _ _ _ _ _ _ _ _ _ := hpast
    exact ⟨prepared, name, hfound.prepares, hfound.name_mem, hfound.bytes_eq, .writing⟩
  | returned prepared name entry' =>
    cases hfile
    have hfound : Found _ _ _ _ _ _ _ _ _ := hpast
    exact ⟨prepared, name, hfound.prepares, hfound.name_mem, hfound.bytes_eq, .returned⟩
  | writeFailed prepared name entry' written error =>
    cases hfile
    obtain ⟨hfound, hprefix, ⟨errno, rfl⟩, -⟩ : LeftBehind _ _ _ _ _ _ _ _ _ _ _ := hpast
    exact ⟨prepared, name, hfound.prepares, hfound.name_mem, hfound.bytes_eq,
      .writeFailed hprefix⟩
  | scanning | creating | failed => cases hfile

/-- What the file of a call holds. -/
theorem content_of_standsAt (hr : D.RunsTo h s) (hinbox : s.server.inbox = some inbox) {call : Nat}
    {request : NoteRequest} {noteCall : NoteCall} {prepared : Prepared} {name : String}
    {entry : Name} {node : Node} (hcall : inbox.notes.inbox.calls[call]? = some (request, noteCall))
    (hstate : StandsAt prepared name entry noteCall node) :
    node = .file none none [] ∨ node = .file none none prepared.contents ∨
      WriteFailed D h entry ∧ ∃ written, written <+: prepared.contents ∧
        node = .file none none written := by
  cases hstate with
  | writing => exact Or.inl rfl
  | returned => exact Or.inr (Or.inl rfl)
  | writeFailed hprefix =>
    exact Or.inr (Or.inr ⟨writeFailed_of_call hr hinbox hcall, _, hprefix, rfl⟩)

/-- The request of a call that made a file. -/
theorem filedBy_of_call (hr : D.RunsTo h s) (hinbox : s.server.inbox = some inbox)
    (hinv : NotesInv W s inbox owner) {call : Nat} {request : NoteRequest} {noteCall : NoteCall}
    {entry : Name} {node : Node}
    (hcall : inbox.notes.inbox.calls[call]? = some (request, noteCall))
    (hfile : noteCall.file? = some (entry, node)) :
    ∃ r context prepared name, s.requests[owner call]? = some r ∧
      s.began (owner call) = some (r.request, context) ∧
      FiledBy D h inbox r context request prepared name entry node ∧
      StandsAt prepared name entry noteCall node := by
  obtain ⟨http, context, hbegan, hprivate, hasks, hfingerprint, -⟩ := hinv.owned call _ _ hcall
  obtain ⟨r, hget, rfl, hphase⟩ := exists_request_of_began hbegan
  have hserved := context?_of_began? hphase
  obtain ⟨hid, hletIn⟩ := (D.inv_of_run hr).context _ r context hget hserved
  rw [hprivate] at hletIn
  obtain ⟨prepared, name, hprepares, hname, hbytes, hstands⟩ :=
    prepares_of_file hr hinbox hcall hfile
  have hcontent := content_of_standsAt hr hinbox hcall hstands
  exact ⟨r, context, prepared, name, hget, hbegan, ⟨hserved, hid, hletIn, hasks, hfingerprint,
    hprepares, hname, hbytes, hcontent⟩, hstands⟩

/-- The request of a call that has returned. -/
theorem filedBy_of_returned (hr : D.RunsTo h s) (hinbox : s.server.inbox = some inbox)
    (hinv : NotesInv W s inbox owner) {call : Nat} {request : NoteRequest} {prepared : Prepared}
    {name : String} {entry : Name}
    (hcall : inbox.notes.inbox.calls[call]? = some (request, .returned prepared name entry)) :
    ∃ r context, s.requests[owner call]? = some r ∧
      s.began (owner call) = some (r.request, context) ∧
      FiledBy D h inbox r context request prepared name entry
        (.file none none prepared.contents) := by
  obtain ⟨r, context, prepared', name', hget, hbegan, hfiled, hstands⟩ :=
    filedBy_of_call hr hinbox hinv hcall rfl
  cases hstands with
  | returned => exact ⟨r, context, hget, hbegan, hfiled⟩

end

/--
**Every note has its request.**

What the inbox held when the service started is still there, and every other entry is the note of
a request, or the beginning of one that could not be written; no two are of the same request.
-/
theorem inbox_accountable (D : Service W K) {h : List ServiceLabel} {s : ServiceState}
    (hr : D.RunsTo h s) {inbox : InboxSupport} (hinbox : s.server.inbox = some inbox) :
    (∀ entry node, (inbox.store.rootFd D.fs).at [entry] = some node →
      inbox.notes.inbox.dir.at [entry] = some node) ∧
    ∃ requestOf : Name → Nat,
      Set.InjOn requestOf {entry | ∃ node, Added D inbox entry node} ∧
      ∀ entry node, Added D inbox entry node → ∃ r context request prepared name,
        s.requests[requestOf entry]? = some r ∧
        FiledBy D h inbox r context request prepared name entry node := by
  obtain ⟨events, hrun⟩ := D.exists_inbox_run hr hinbox
  have hfiles := inboxInv_run rfl hrun
  obtain ⟨owner, hinv⟩ := notesInv_run D.starts hr hinbox
  refine ⟨hfiles.kept, ?_⟩
  obtain ⟨callOf, hcallOf, hinj⟩ := exists_callOf hr hinbox
  refine ⟨fun entry => owner (callOf entry), ?_, fun entry node hadded => ?_⟩
  · rintro entry ⟨node, hadded⟩ entry' ⟨node', hadded'⟩ he
    obtain ⟨_, _, hcall, -⟩ := hcallOf entry node hadded
    obtain ⟨_, _, hcall', -⟩ := hcallOf entry' node' hadded'
    exact hinj ⟨node, hadded⟩ ⟨node', hadded'⟩ (hinv.call_eq hcall hcall' he)
  · obtain ⟨request, noteCall, hcall, hfile⟩ := hcallOf entry node hadded
    obtain ⟨r, context, prepared, name, hget, -, hfiled, -⟩ :=
      filedBy_of_call hr hinbox hinv hcall hfile
    exact ⟨r, context, request, prepared, name, hget, hfiled⟩

section

open Sample

/-- The owner filed a note. -/
theorem exists_added_note : ∃ inbox node, noteState.server.inbox = some inbox ∧
    Added service inbox note node := by
  obtain ⟨inbox, hinbox, hnote⟩ := (Option.any_eq_true _ _).mp noteState_facts.2.2.1
  obtain ⟨hsome, hnone⟩ := Bool.and_eq_true_iff.mp hnote
  obtain ⟨node, hnode⟩ := Option.isSome_iff_exists.mp hsome
  exact ⟨inbox, node, hinbox, hnode, Option.isNone_iff_eq_none.mp hnone⟩

/-- Nothing failed on the way. -/
theorem not_writeFailed_noteEvents (entry : Name) :
    ¬ WriteFailed service (noteEvents.map (⟨·, none⟩)) entry := by
  rintro ⟨pre, l, post, t, i, faults, hsplit, -, he, -, hfault⟩
  have hmem : l ∈ noteEvents.map fun e => (⟨e, none⟩ : ServiceLabel) := by
    rw [hsplit]
    exact List.mem_append_right _ List.mem_cons_self
  obtain ⟨e, hevent, rfl⟩ := List.mem_map.mp hmem
  subst he
  simp only [noteEvents, List.mem_cons, reduceCtorEq, ServiceEvent.advance.injEq, List.not_mem_nil,
    or_false, false_or, or_self] at hevent
  obtain ⟨-, rfl⟩ := hevent
  exact hfault ⟨rfl, rfl⟩

/-- This note has a request. -/
theorem inbox_accountable_note : ∃ inbox node, noteState.server.inbox = some inbox ∧
    Added service inbox note node ∧
    ∃ (i : Nat) (r : ServiceRequest) (context : AuditContext) (request : NoteRequest)
      (prepared : Prepared) (name : String), noteState.requests[i]? = some r ∧
      FiledBy service (noteEvents.map (⟨·, none⟩)) inbox r context request prepared name note
        node := by
  obtain ⟨inbox, node, hinbox, hadded⟩ := exists_added_note
  obtain ⟨-, requestOf, -, hfiled⟩ := inbox_accountable service run_noteEvents hinbox
  exact ⟨inbox, node, hinbox, hadded, requestOf note, hfiled note node hadded⟩

end

/--
**The audit log tells which notes there are.**

A line that says that a note was filed names an entry that was added, its size and its request,
and no other line names it. An entry that was added has a line, or its request is not answered, or
the write failed and the line of its request says that there was an error.
-/
theorem audit_log_of_notes (D : Service W K) {h : List ServiceLabel} {s : ServiceState}
    (hr : D.RunsTo h s) {inbox : InboxSupport} (hinbox : s.server.inbox = some inbox) :
    (∀ record ∈ s.auditLog, ∀ context id bytes, record.filed = some (context, id, bytes) →
      ∃ (i : Nat) (r : ServiceRequest) (request : NoteRequest) (prepared : Prepared)
        (name : String) (entry : Name), s.requests[i]? = some r ∧
        id = inboxIdPrefix ++ "/" ++ name ∧ bytes = prepared.contents.length ∧
        Added D inbox entry (.file none none prepared.contents) ∧
        FiledBy D h inbox r context request prepared name entry
          (.file none none prepared.contents)) ∧
    ((s.auditLog.filterMap AuditRecord.filed).map fun line => line.2.1).Nodup ∧
    ∀ entry node, Added D inbox entry node →
      ∃ (i : Nat) (r : ServiceRequest) (context : AuditContext) (request : NoteRequest)
        (prepared : Prepared) (name : String), s.requests[i]? = some r ∧
        FiledBy D h inbox r context request prepared name entry node ∧
        ((∃ attempted call, r.phase = .writing context attempted call) ∨
          (node = .file none none prepared.contents ∧ ∃ record ∈ s.auditLog, record.filed
            = some (context, inboxIdPrefix ++ "/" ++ name, prepared.contents.length)) ∨
          WriteFailed D h entry ∧ .toolWrite context "append_note" "internal_error" none
            request.body.utf8ByteSize ∈ s.auditLog) := by
  obtain ⟨owner, hinv⟩ := notesInv_run D.starts hr hinbox
  refine ⟨fun record hmem context id bytes hline => ?_, hinv.distinct,
    fun entry node hadded => ?_⟩
  · obtain ⟨call, request, prepared, name, entry, http, hcall, hbegan, hid, hbytes, -⟩ :=
      hinv.logged record hmem context id bytes hline
    obtain ⟨r, context', hget, hbegan', hfiled⟩ := filedBy_of_returned hr hinbox hinv hcall
    obtain ⟨-, rfl⟩ := Prod.mk.inj (Option.some.inj (hbegan.symm.trans hbegan'))
    exact ⟨owner call, r, request, prepared, name, entry, hget, hid, hbytes,
      added_of_call hr hinbox hcall rfl, hfiled⟩
  · obtain ⟨call, request, noteCall, hcall, hfile⟩ := exists_call_of_added hr hinbox hadded
    obtain ⟨http, context, hbegan, -, -, -, hstate⟩ := hinv.owned call request noteCall hcall
    obtain ⟨r, context', prepared, name, hget, hbegan', hfiled, hstands⟩ :=
      filedBy_of_call hr hinbox hinv hcall hfile
    obtain ⟨-, rfl⟩ := Prod.mk.inj (Option.some.inj (hbegan.symm.trans hbegan'))
    refine ⟨owner call, r, context, request, prepared, name, hget, hfiled, ?_⟩
    rcases hstate with hwrites | ⟨result, hresult, hline⟩
    · refine Or.inl ⟨request.body.utf8ByteSize, call, ?_⟩
      rw [ServiceState.writer, view_eq _ hget] at hwrites
      exact Phase.writing?_eq_some.mp hwrites
    · cases hstands with
      | writing => cases hresult
      | returned =>
        cases hresult
        exact Or.inr (Or.inl ⟨rfl, _, hline, rfl⟩)
      | writeFailed _ =>
        cases hresult
        exact Or.inr (Or.inr ⟨writeFailed_of_call hr hinbox hcall, hline⟩)

section

open Sample

/-- The line of a note names its entry. -/
theorem audit_log_of_notes_note : ∃ (inbox : InboxSupport) (record : AuditRecord)
    (context : AuditContext) (id : String) (bytes : Nat), noteState.server.inbox = some inbox ∧
    record ∈ noteState.auditLog ∧ record.filed = some (context, id, bytes) ∧
    ∃ (prepared : Prepared) (name : String) (entry : Name),
      id = inboxIdPrefix ++ "/" ++ name ∧ bytes = prepared.contents.length ∧
      Added service inbox entry (.file none none prepared.contents) := by
  obtain ⟨record, hmem, hsome⟩ := List.any_eq_true.mp noteState_facts.2.1
  obtain ⟨⟨context, id, bytes⟩, hline⟩ := Option.isSome_iff_exists.mp hsome
  obtain ⟨inbox, -, hinbox, -⟩ := exists_added_note
  obtain ⟨_, _, _, prepared, name, entry, -, hid, hbytes, hadded, -⟩ :=
    (audit_log_of_notes service run_noteEvents hinbox).1 record hmem context id bytes hline
  exact ⟨inbox, record, context, id, bytes, hinbox, hmem, hline, prepared, name, entry, hid,
    hbytes, hadded⟩

end

end EngramMcp
