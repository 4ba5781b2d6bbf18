import EngramMcp.Http.ServiceInv
import EngramMcp.Kb.InboxInv

/-!
# The requests of the notes

A call of `create_note` belongs to one request with the private scope, until the request has its
answer and the audit log has its line.

* `noteMove_of_serviceMove` — what a step does to the notes, their requests and their lines
* `notes_induction` — a rule for what the notes of a run have to do with its requests
* `notesInv_run` — the invariant
-/

namespace EngramMcp

open Infra ServiceState InboxStore

variable {W : ServiceCrates} {A : App} {before : List ServerEvent}

/-! ## Calls of `create_note` -/

/-- A call stays what it is once it has a result. -/
theorem exists_call_step {toYaml : FrontMatterWriter} {store : InboxStore} {s : InboxState}
    {i : Nat} {request : NoteRequest} {call : NoteCall} (h : s.calls[i]? = some (request, call))
    (e : InboxEvent) : ∃ call', (s.step toYaml store e).calls[i]? = some (request, call') ∧
      ∀ result, call.result = some result → call' = call := by
  have hlt := (List.getElem?_eq_some_iff.mp h).1
  rcases InboxState.step_cases toYaml store s e with ⟨_, -, hs⟩ | ⟨_, _, -, -, hs⟩ |
    ⟨j, _, request', callj, call', dir', -, hj, hstep, hs⟩
  · refine ⟨call, ?_, fun _ _ => rfl⟩
    rw [hs, List.getElem?_append_left hlt]
    exact h
  · exact ⟨call, by rw [hs]; exact h, fun _ _ => rfl⟩
  · by_cases hij : i = j
    · subst hij
      rw [h] at hj
      obtain ⟨rfl, rfl⟩ := Prod.mk.inj (Option.some.inj hj)
      refine ⟨call', ?_, fun result hresult => ?_⟩
      · rw [hs, List.getElem?_set_self hlt]
      · cases hstep with
        | returned | leftBehind | failed => rfl
        | scanFailed | refused | admitted | exhausted | createFailed | taken | created | written
        | writeFailed => cases hresult
    · refine ⟨call, ?_, fun _ _ => rfl⟩
      rw [hs, List.getElem?_set_ne (Ne.symm hij)]
      exact h

/-- A call that is there after a step was there before, or is new. -/
theorem call_of_step {toYaml : FrontMatterWriter} {store : InboxStore} {s : InboxState}
    {e : InboxEvent} {i : Nat} {entry : NoteRequest × NoteCall}
    (h : (s.step toYaml store e).calls[i]? = some entry) :
    (∃ call, s.calls[i]? = some (entry.1, call)) ∨
      (i = s.calls.length ∧ ∃ request, e = .call request ∧
        entry = (request, store.begin toYaml request)) := by
  rcases InboxState.step_cases toYaml store s e with ⟨request, rfl, hs⟩ | ⟨_, _, -, -, hs⟩ |
    ⟨j, _, request', callj, call', dir', -, hj, -, hs⟩
  · rw [hs, List.getElem?_append] at h
    split at h
    · exact Or.inl ⟨entry.2, h⟩
    · obtain ⟨hlt, hget⟩ := List.getElem?_eq_some_iff.mp h
      rw [List.length_singleton] at hlt
      exact Or.inr ⟨by omega, request, rfl, by simpa using hget.symm⟩
  · rw [hs] at h
    exact Or.inl ⟨entry.2, h⟩
  · rw [hs] at h
    by_cases hij : i = j
    · subst hij
      rw [List.getElem?_set_self (List.getElem?_eq_some_iff.mp hj).1] at h
      cases h
      exact Or.inl ⟨callj, hj⟩
    · rw [List.getElem?_set_ne (Ne.symm hij)] at h
      exact Or.inl ⟨entry.2, h⟩

/-- A call that could not write its file was there before, or fails in this step. -/
theorem writeFailed_of_step {toYaml : FrontMatterWriter} {store : InboxStore} {s : InboxState}
    {e : InboxEvent} {i : Nat} {request : NoteRequest} {prepared : Prepared} {name : String}
    {entry : Name} {written : Bytes} {error : InboxError}
    (h : (s.step toYaml store e).calls[i]?
      = some (request, .writeFailed prepared name entry written error)) :
    s.calls[i]? = some (request, .writeFailed prepared name entry written error) ∨
      ∃ faults, e = .advance i faults ∧ s.calls[i]? = some (request, .writing prepared name entry) ∧
        ¬(faults.write = none ∧ faults.sync = none) := by
  rcases InboxState.step_cases toYaml store s e with ⟨request', -, hs⟩ | ⟨_, _, -, -, hs⟩ |
    ⟨j, faults, request', callj, call', dir', rfl, hj, hstep, hs⟩
  · rw [hs, List.getElem?_append] at h
    split at h
    · exact Or.inl h
    · obtain ⟨-, hbegin⟩ := Prod.mk.inj (List.mem_singleton.mp (List.mem_of_getElem? h))
      unfold InboxStore.begin at hbegin
      split at hbegin <;> cases hbegin
  · rw [hs] at h
    exact Or.inl h
  · rw [hs] at h
    by_cases hij : i = j
    · subst hij
      rw [List.getElem?_set_self (List.getElem?_eq_some_iff.mp hj).1] at h
      obtain ⟨rfl, rfl⟩ := Prod.mk.inj (Option.some.inj h)
      cases hstep with
      | writeFailed hfault _ => exact Or.inr ⟨faults, rfl, hj, hfault⟩
      | leftBehind => exact Or.inl hj
    · rw [List.getElem?_set_ne (Ne.symm hij)] at h
      exact Or.inl h

/-! ## Lines about notes -/

/-- The note that a line of the audit log says was filed. -/
def AuditRecord.filed : AuditRecord → Option (AuditContext × String × Nat)
  | .toolWrite context _ "ok" (some id) bytes => some (context, id, bytes)
  | _ => none

theorem finishNote_ok (store : InboxStore) (context : AuditContext) (attempted : Nat)
    (note : CreatedNote) :
    (KnowledgeBaseServer.finishNote store context attempted (.ok note)).1.filed
      = some (context, note.id, note.bytes) := rfl

theorem finishNote_error (store : InboxStore) (context : AuditContext) (attempted : Nat)
    (e : InboxError) :
    (KnowledgeBaseServer.finishNote store context attempted (.error e)).1.filed = none := by
  cases e <;> rfl

/-! ## Writers -/

/-- The context of a request that writes, what it attempts to write, and its call. -/
def Phase.writing? : Phase → Option (AuditContext × Nat × Nat)
  | writing context attempted call => some (context, attempted, call)
  | _ => none

theorem Phase.writing?_eq_some {phase : Phase} {context : AuditContext} {attempted call : Nat} :
    phase.writing? = some (context, attempted, call) ↔
      phase = .writing context attempted call := by
  constructor
  · intro h
    cases phase with
    | writing =>
      cases h
      rfl
    | received | authenticated | admitted | answered | served | rejected => cases h
  · rintro rfl
    rfl

/-- The context of a request that the server has been called for. -/
def Phase.began? : Phase → Option AuditContext
  | writing context _ _ | answered context _ | served context _ => some context
  | _ => none

theorem context?_of_began? {phase : Phase} {context : AuditContext}
    (h : phase.began? = some context) : phase.context? = some context := by
  cases phase with
  | writing | answered | served => exact h
  | received | authenticated | admitted | rejected => cases h

/-- What is looked at in the request `i`. -/
def ServiceState.view {α : Type} (f : ServiceRequest → Option α) (s : ServiceState) (i : Nat) :
    Option α :=
  (s.requests[i]?).bind f

/-- What the request `i` writes. -/
abbrev ServiceState.writer : ServiceState → Nat → Option (AuditContext × Nat × Nat) :=
  ServiceState.view fun r => r.phase.writing?

/-- The request `i` and its context, when the server has been called for it. -/
abbrev ServiceState.began : ServiceState → Nat → Option (HttpRequest × AuditContext) :=
  ServiceState.view fun r => r.phase.began?.map fun context => (r.request, context)

section

variable {α : Type} (f : ServiceRequest → Option α)

theorem view_eq {s : ServiceState} {i : Nat} {r : ServiceRequest} (hr : s.requests[i]? = some r) :
    s.view f i = f r := by
  rw [ServiceState.view, hr, Option.bind_some]

theorem view_setPhase {s : ServiceState} {i : Nat} {r : ServiceRequest}
    (hr : s.requests[i]? = some r) (phase : Phase) (records : List AuditRecord) :
    (s.setPhase i r phase records).view f
      = Function.update (s.view f) i (f { r with phase }) := by
  funext j
  rw [ServiceState.view, getElem?_setPhase hr]
  by_cases hj : j = i
  · subst hj
    rw [if_pos rfl, Function.update_self, Option.bind_some]
  · rw [if_neg hj, Function.update_of_ne hj, ServiceState.view]

theorem view_receive {f : ServiceRequest → Option α} {s : ServiceState} {request : HttpRequest}
    (hf : f ⟨request, s.requestCounter + 1, .received⟩ = none) :
    (s.receive request).view f = s.view f := by
  funext j
  show ((s.requests ++ [_])[j]?).bind f = (s.requests[j]?).bind f
  rcases Nat.lt_trichotomy j s.requests.length with hj | rfl | hj
  · rw [List.getElem?_append_left hj]
  · rw [List.getElem?_concat_length, List.getElem?_eq_none le_rfl]
    exact hf
  · rw [List.getElem?_eq_none (by rw [List.length_append, List.length_singleton]; omega),
      List.getElem?_eq_none hj.le]

end

/-- What a step does to the notes, to the requests that write them, and to their lines. -/
inductive NoteMove (W : ServiceCrates) (s s' : ServiceState) (inbox : InboxSupport) : Prop
  | quiet {notes : NoteServer} {records : List AuditRecord} :
      s'.server.inbox = some ⟨inbox.store, notes⟩ → notes.inbox = inbox.notes.inbox →
      s'.writer = s.writer → (∀ i x, s.began i = some x → s'.began i = some x) →
      s'.auditLog = s.auditLog ++ records → (∀ record ∈ records, record.filed = none) →
      NoteMove W s s' inbox
  | begun {i : Nat} {r : ServiceRequest} {context : AuditContext} {notes : NoteServer}
      {request : NoteRequest} :
      s.writer i = none → s.began i = none → context.scope = .private →
      W.transport.AsksFor r.request request →
      request.fingerprint = context.credentialFingerprint →
      s'.server.inbox = some ⟨inbox.store, notes⟩ →
      notes.inbox = inbox.notes.inbox.step W.toYaml inbox.store (.call request) →
      s'.writer = Function.update s.writer i
        (some (context, request.body.utf8ByteSize, inbox.notes.inbox.calls.length)) →
      s'.began = Function.update s.began i (some (r.request, context)) →
      s'.auditLog = s.auditLog → NoteMove W s s' inbox
  | advanced {i : Nat} {context : AuditContext} {attempted call : Nat} {notes : NoteServer}
      {faults : Faults} :
      s.writer i = some (context, attempted, call) →
      s'.server.inbox = some ⟨inbox.store, notes⟩ →
      notes.inbox = inbox.notes.inbox.step W.toYaml inbox.store (.advance call faults) →
      s'.writer = s.writer → s'.began = s.began → s'.auditLog = s.auditLog →
      NoteMove W s s' inbox
  | returned {i : Nat} {context : AuditContext} {attempted call : Nat} {request : NoteRequest}
      {noteCall : NoteCall} {result : Except InboxError CreatedNote} :
      s.writer i = some (context, attempted, call) →
      inbox.notes.inbox.calls[call]? = some (request, noteCall) →
      noteCall.result = some result → s'.server.inbox = some inbox →
      s'.writer = Function.update s.writer i none → s'.began = s.began →
      s'.auditLog = s.auditLog
        ++ [(KnowledgeBaseServer.finishNote inbox.store context attempted result).1] →
      NoteMove W s s' inbox

/-- A request that neither writes before a step nor after it. -/
theorem noteMove_of_setPhase {s t : ServiceState} {inbox : InboxSupport} {i : Nat}
    {r : ServiceRequest} {phase : Phase} {records : List AuditRecord} {notes : NoteServer}
    (hr : s.requests[i]? = some r) (ht : t.requests = s.requests) (hlog : t.auditLog = s.auditLog)
    (hinbox : t.server.inbox = some ⟨inbox.store, notes⟩) (hnotes : notes.inbox = inbox.notes.inbox)
    (hbefore : r.phase.writing? = none) (hafter : phase.writing? = none)
    (hbegan : ∀ context, r.phase.began? = some context → phase.began? = some context)
    (hrecords : ∀ record ∈ records, record.filed = none) :
    NoteMove W s (t.setPhase i r phase records) inbox := by
  have hr' : t.requests[i]? = some r := by rw [ht]; exact hr
  have hview : ∀ {α : Type} (f : ServiceRequest → Option α), t.view f = s.view f := by
    intro α f
    funext j
    rw [ServiceState.view, ht, ServiceState.view]
  refine .quiet hinbox hnotes ?_ ?_ (congrArg (· ++ records) hlog) hrecords
  · rw [ServiceState.writer, view_setPhase _ hr', hview]
    simp only [hafter]
    rw [← hbefore, ← view_eq (fun r => r.phase.writing?) hr, Function.update_eq_self]
  · intro j x hj
    rw [ServiceState.began, view_setPhase _ hr', hview]
    by_cases hij : j = i
    · subst hij
      rw [Function.update_self]
      rw [ServiceState.began, view_eq _ hr] at hj
      obtain ⟨context, hcontext, rfl⟩ := Option.map_eq_some_iff.mp hj
      rw [hbegan context hcontext, Option.map_some]
    · rw [Function.update_of_ne hij]
      exact hj

/-- **What a step does to the notes.** -/
theorem noteMove_of_serviceMove {s s' : ServiceState} {e : ServiceEvent}
    (h : ServiceMove W A s e s') {inbox : InboxSupport} (hinbox : s.server.inbox = some inbox) :
    NoteMove W s s' inbox := by
  have hone : ∀ record : AuditRecord, record.filed = none →
      ∀ record' ∈ [record], record'.filed = none := fun record hrecord record' hmem => by
    rw [List.mem_singleton.mp hmem]; exact hrecord
  cases h with
  | idle | oauth =>
    exact .quiet hinbox rfl rfl (fun _ _ => id) (List.append_nil _).symm
      fun _ hmem => absurd hmem List.not_mem_nil
  | received =>
    refine .quiet hinbox rfl (view_receive rfl) (fun i x hi => ?_) (List.append_nil _).symm
      fun _ hmem => absurd hmem List.not_mem_nil
    rw [ServiceState.began, view_receive rfl]
    exact hi
  | authenticated hr hphase _ =>
    exact noteMove_of_setPhase hr rfl rfl hinbox rfl (by rw [hphase]; rfl) rfl
      (fun _ h => by rw [hphase] at h; cases h) fun _ hmem => absurd hmem List.not_mem_nil
  | unauthorized hr hphase _ =>
    exact noteMove_of_setPhase hr rfl rfl hinbox rfl (by rw [hphase]; rfl) rfl
      (fun _ h => by rw [hphase] at h; cases h) (hone _ rfl)
  | admitted hr hphase _ =>
    exact noteMove_of_setPhase hr rfl rfl hinbox rfl (by rw [hphase]; rfl) rfl
      (fun _ h => by rw [hphase] at h; cases h) fun _ hmem => absurd hmem List.not_mem_nil
  | rateLimited hr hphase _ =>
    exact noteMove_of_setPhase hr rfl rfl hinbox rfl (by rw [hphase]; rfl) rfl
      (fun _ h => by rw [hphase] at h; cases h) (hone _ rfl)
  | read hr hphase _ hrecords =>
    refine noteMove_of_setPhase hr rfl rfl hinbox rfl (by rw [hphase]; rfl) rfl
      (fun _ h => by rw [hphase] at h; cases h) fun record hmem => ?_
    obtain ⟨_, _, _, rfl⟩ := hrecords record hmem
    rfl
  | refused hr hphase hinbox' _ _ =>
    obtain rfl := Option.some.inj (hinbox'.symm.trans hinbox)
    exact noteMove_of_setPhase hr rfl rfl rfl rfl (by rw [hphase]; rfl) rfl
      (fun _ h => by rw [hphase] at h; cases h) (hone _ rfl)
  | @begun i r context _ _ _ _ hr hphase hinbox' hprivate _ hasks hfingerprint =>
    obtain rfl := Option.some.inj (hinbox'.symm.trans hinbox)
    exact .begun (by rw [ServiceState.writer, view_eq _ hr, hphase]; rfl)
      (by rw [ServiceState.began, view_eq _ hr, hphase]; rfl) hprivate hasks hfingerprint rfl rfl
      (view_setPhase (s := ServiceState.withNotes s _ _) _ hr _ [])
      (view_setPhase (s := ServiceState.withNotes s _ _) _ hr _ []) (List.append_nil _)
  | advanced hr hphase hinbox' =>
    obtain rfl := Option.some.inj (hinbox'.symm.trans hinbox)
    exact .advanced (by rw [ServiceState.writer, view_eq _ hr, hphase]; rfl) rfl rfl rfl rfl rfl
  | returned hr hphase hinbox' hcall hresult =>
    obtain rfl := Option.some.inj (hinbox'.symm.trans hinbox)
    refine .returned (by rw [ServiceState.writer, view_eq _ hr, hphase]; rfl) hcall hresult hinbox
      (view_setPhase _ hr _ _) ?_ rfl
    rw [ServiceState.began, view_setPhase _ hr]
    refine Function.update_eq_iff.mpr ⟨?_, fun _ _ => rfl⟩
    rw [view_eq _ hr, hphase]
    rfl
  | completed hr hphase =>
    exact noteMove_of_setPhase hr rfl rfl hinbox rfl (by rw [hphase]; rfl) rfl
      (fun _ h => by rw [hphase] at h; exact h) (hone _ rfl)

/-! ## The invariant -/

/-- The requests of the notes, and their lines. -/
structure NotesInv (W : ServiceCrates) (s : ServiceState) (inbox : InboxSupport)
    (owner : Nat → Nat) : Prop where
  /-- A request that writes has a call. -/
  writer : ∀ (i : Nat) (context : AuditContext) (attempted call : Nat),
    s.writer i = some (context, attempted, call) → owner call = i ∧
      ∃ (request : NoteRequest) (noteCall : NoteCall),
        inbox.notes.inbox.calls[call]? = some (request, noteCall) ∧
        attempted = request.body.utf8ByteSize
  /-- No two calls have the same request. -/
  injOn : Set.InjOn owner (Set.Iio inbox.notes.inbox.calls.length)
  /-- The request of a call asked for the note, and writes it or has its line. -/
  owned : ∀ (call : Nat) (request : NoteRequest) (noteCall : NoteCall),
    inbox.notes.inbox.calls[call]? = some (request, noteCall) → ∃ http context,
      s.began (owner call) = some (http, context) ∧ context.scope = .private ∧
      W.transport.AsksFor http request ∧
      request.fingerprint = context.credentialFingerprint ∧
      (s.writer (owner call) = some (context, request.body.utf8ByteSize, call) ∨
        ∃ result, noteCall.result = some result ∧ (KnowledgeBaseServer.finishNote inbox.store
          context request.body.utf8ByteSize result).1 ∈ s.auditLog)
  /-- A line has a call that has returned. -/
  logged : ∀ record ∈ s.auditLog, ∀ context id bytes, record.filed = some (context, id, bytes) →
    ∃ (call : Nat) (request : NoteRequest) (prepared : Prepared) (name : String) (entry : Name)
      (http : HttpRequest),
      inbox.notes.inbox.calls[call]? = some (request, .returned prepared name entry) ∧
      s.began (owner call) = some (http, context) ∧
      id = inboxIdPrefix ++ "/" ++ name ∧ bytes = prepared.contents.length ∧
      ∀ context' attempted, s.writer (owner call) ≠ some (context', attempted, call)
  distinct : ((s.auditLog.filterMap AuditRecord.filed).map fun line => line.2.1).Nodup

/-- The files of the calls that have returned tell the calls apart. -/
structure NamesApart (inbox : InboxSupport) : Prop where
  call_eq : ∀ (call call' : Nat) (request request' : NoteRequest) (prepared prepared' : Prepared)
    (name : String) (entry entry' : Name),
    inbox.notes.inbox.calls[call]? = some (request, .returned prepared name entry) →
    inbox.notes.inbox.calls[call']? = some (request', .returned prepared' name entry') →
    call = call'

theorem append_injective_right {p s t : String} (h : p ++ s = p ++ t) : s = t := by
  rw [← String.toList_inj, String.toList_append, String.toList_append,
    List.append_cancel_left_eq, String.toList_inj] at h
  exact h

theorem filterMap_filed_append {log records : List AuditRecord}
    (h : ∀ record ∈ records, record.filed = none) :
    (log ++ records).filterMap AuditRecord.filed = log.filterMap AuditRecord.filed := by
  rw [List.filterMap_append, List.filterMap_eq_nil_iff.mpr h, List.append_nil]

/-- A request that writes has begun. -/
theorem exists_began_of_writer {s : ServiceState} {i : Nat} {context : AuditContext}
    {attempted call : Nat} (h : s.writer i = some (context, attempted, call)) :
    ∃ http, s.began i = some (http, context) := by
  obtain ⟨r, hr, hwriting⟩ := Option.bind_eq_some_iff.mp h
  refine ⟨r.request, ?_⟩
  rw [ServiceState.began, view_eq _ hr, Phase.writing?_eq_some.mp hwriting]
  rfl

theorem exists_request_of_began {s : ServiceState} {i : Nat} {http : HttpRequest}
    {context : AuditContext} (h : s.began i = some (http, context)) :
    ∃ r, s.requests[i]? = some r ∧ r.request = http ∧ r.phase.began? = some context := by
  obtain ⟨r, hr, hpair⟩ := Option.bind_eq_some_iff.mp h
  obtain ⟨context', hphase, heq⟩ := Option.map_eq_some_iff.mp hpair
  obtain ⟨rfl, rfl⟩ := Prod.mk.inj heq
  exact ⟨r, hr, rfl, hphase⟩

/-- Two calls of one request are the same. -/
theorem NotesInv.call_eq {s : ServiceState} {inbox : InboxSupport} {owner : Nat → Nat}
    (h : NotesInv W s inbox owner) {call call' : Nat} {entry entry' : NoteRequest × NoteCall}
    (hcall : inbox.notes.inbox.calls[call]? = some entry)
    (hcall' : inbox.notes.inbox.calls[call']? = some entry') (howner : owner call = owner call') :
    call = call' :=
  h.injOn (List.getElem?_eq_some_iff.mp hcall).1 (List.getElem?_eq_some_iff.mp hcall').1 howner

section

variable {s s' : ServiceState} {inbox : InboxSupport} {owner : Nat → Nat}

/-- A step that is not about the notes. -/
theorem NotesInv.quiet (h : NotesInv W s inbox owner) {notes : NoteServer}
    {records : List AuditRecord} (hnotes : notes.inbox = inbox.notes.inbox)
    (hwriter : s'.writer = s.writer) (hbegan : ∀ i x, s.began i = some x → s'.began i = some x)
    (hlog : s'.auditLog = s.auditLog ++ records)
    (hrecords : ∀ record ∈ records, record.filed = none) :
    NotesInv W s' ⟨inbox.store, notes⟩ owner where
  writer := by
    show ∀ i context attempted call, _ → _ ∧ ∃ request noteCall, notes.inbox.calls[call]? = _ ∧ _
    rw [hwriter, hnotes]
    exact h.writer
  injOn := by
    show Set.InjOn owner (Set.Iio notes.inbox.calls.length)
    rw [hnotes]
    exact h.injOn
  owned := by
    show ∀ call request noteCall, notes.inbox.calls[call]? = _ → _
    rw [hnotes, hwriter, hlog]
    intro call request noteCall hcall
    obtain ⟨http, context, hi, hprivate, hasks, hfingerprint, hstate⟩ :=
      h.owned call request noteCall hcall
    refine ⟨http, context, hbegan _ _ hi, hprivate, hasks, hfingerprint, ?_⟩
    rcases hstate with hwrites | ⟨result, hresult, hline⟩
    · exact Or.inl hwrites
    · exact Or.inr ⟨result, hresult, List.mem_append_left _ hline⟩
  logged := by
    rw [hlog, hwriter]
    intro record hmem context id bytes hfiled
    rcases List.mem_append.mp hmem with hmem | hmem
    · obtain ⟨call, request, prepared, name, entry, http, hcall, hi, hrest⟩ :=
        h.logged record hmem context id bytes hfiled
      exact ⟨call, request, prepared, name, entry, http, by rw [hnotes]; exact hcall,
        hbegan _ _ hi, hrest⟩
    · rw [hrecords record hmem] at hfiled
      cases hfiled
  distinct := by
    rw [hlog, filterMap_filed_append hrecords]
    exact h.distinct

/-- A call of `create_note` begins. -/
theorem NotesInv.begin (h : NotesInv W s inbox owner) {notes : NoteServer} {i : Nat}
    {r : ServiceRequest} {context : AuditContext} {request : NoteRequest}
    (hwaiting : s.began i = none) (hprivate : context.scope = .private)
    (hasks : W.transport.AsksFor r.request request)
    (hfingerprint : request.fingerprint = context.credentialFingerprint)
    (hnotes : notes.inbox = inbox.notes.inbox.step W.toYaml inbox.store (.call request))
    (hwriter : s'.writer = Function.update s.writer i
      (some (context, request.body.utf8ByteSize, inbox.notes.inbox.calls.length)))
    (hbegan : s'.began = Function.update s.began i (some (r.request, context)))
    (hlog : s'.auditLog = s.auditLog) :
    NotesInv W s' ⟨inbox.store, notes⟩
      (Function.update owner inbox.notes.inbox.calls.length i) := by
  have hcalls : notes.inbox.calls
      = inbox.notes.inbox.calls ++ [(request, inbox.store.begin W.toYaml request)] := by
    rw [hnotes]
    rfl
  have hlt : ∀ {call : Nat} {entry : NoteRequest × NoteCall},
      inbox.notes.inbox.calls[call]? = some entry → call < inbox.notes.inbox.calls.length :=
    fun hcall => (List.getElem?_eq_some_iff.mp hcall).1
  have hold : ∀ {call : Nat} {entry : NoteRequest × NoteCall},
      inbox.notes.inbox.calls[call]? = some entry → notes.inbox.calls[call]? = some entry := by
    intro call entry hcall
    rw [hcalls, List.getElem?_append_left (hlt hcall)]
    exact hcall
  -- the requests of earlier calls have begun
  have hne : ∀ {call : Nat}, call < inbox.notes.inbox.calls.length → owner call ≠ i := by
    intro call hcall he
    obtain ⟨_, _, hi, -⟩ := h.owned call _ _ (List.getElem?_eq_getElem hcall)
    rw [he, hwaiting] at hi
    cases hi
  have howner : ∀ {call : Nat}, call < inbox.notes.inbox.calls.length →
      Function.update owner inbox.notes.inbox.calls.length i call = owner call :=
    fun hcall => Function.update_of_ne hcall.ne _ _
  refine ⟨?_, ?_, ?_, ?_, ?_⟩
  · intro j context' attempted call hj
    show _ ∧ ∃ request noteCall, notes.inbox.calls[call]? = _ ∧ _
    rw [hwriter] at hj
    by_cases hji : j = i
    · subst hji
      rw [Function.update_self] at hj
      cases hj
      exact ⟨Function.update_self _ _ _, request, _, by rw [hcalls, List.getElem?_concat_length],
        rfl⟩
    · rw [Function.update_of_ne hji] at hj
      obtain ⟨he, request', noteCall, hcall, hrest⟩ := h.writer j context' attempted call hj
      exact ⟨(howner (hlt hcall)).trans he, request', noteCall, hold hcall, hrest⟩
  · show Set.InjOn _ (Set.Iio notes.inbox.calls.length)
    rw [hcalls, List.length_append, List.length_singleton]
    intro call hcall call' hcall' he
    rcases Nat.lt_succ_iff_lt_or_eq.mp (Set.mem_Iio.mp hcall) with hc | hc <;>
      rcases Nat.lt_succ_iff_lt_or_eq.mp (Set.mem_Iio.mp hcall') with hc' | hc'
    · rw [howner hc, howner hc'] at he
      exact h.injOn hc hc' he
    · rw [howner hc, hc', Function.update_self] at he
      exact absurd he (hne hc)
    · rw [howner hc', hc, Function.update_self] at he
      exact absurd he.symm (hne hc')
    · rw [hc, hc']
  · intro call request' noteCall hcall
    rw [hlog, hwriter, hbegan]
    rw [show (InboxSupport.mk inbox.store notes).notes.inbox.calls = notes.inbox.calls from rfl,
      hcalls, List.getElem?_append] at hcall
    split at hcall
    · next hc =>
      rw [howner hc, Function.update_of_ne (hne hc), Function.update_of_ne (hne hc)]
      exact h.owned call request' noteCall hcall
    · next hge =>
      obtain ⟨hlt', hget⟩ := List.getElem?_eq_some_iff.mp hcall
      rw [List.length_singleton] at hlt'
      obtain ⟨rfl, -⟩ : request = request' ∧ _ = noteCall := by simpa using hget
      have hcall' : call = inbox.notes.inbox.calls.length := by omega
      rw [hcall', Function.update_self, Function.update_self, Function.update_self]
      exact ⟨r.request, context, rfl, hprivate, hasks, hfingerprint, Or.inl rfl⟩
  · rw [hlog, hwriter, hbegan]
    intro record hmem context' id bytes hfiled
    obtain ⟨call, request', prepared, name, entry, http, hcall, hi, hrest⟩ :=
      h.logged record hmem context' id bytes hfiled
    refine ⟨call, request', prepared, name, entry, http, hold hcall, ?_⟩
    rw [howner (hlt hcall), Function.update_of_ne (hne (hlt hcall)),
      Function.update_of_ne (hne (hlt hcall))]
    exact ⟨hi, hrest⟩
  · rw [hlog]
    exact h.distinct

/-- A call of `create_note` goes on. -/
theorem NotesInv.advance (h : NotesInv W s inbox owner) {notes : NoteServer} {e : InboxEvent}
    (hnew : ∀ request, e ≠ .call request)
    (hnotes : notes.inbox = inbox.notes.inbox.step W.toYaml inbox.store e)
    (hwriter : s'.writer = s.writer) (hbegan : s'.began = s.began)
    (hlog : s'.auditLog = s.auditLog) : NotesInv W s' ⟨inbox.store, notes⟩ owner := by
  have hkeep : ∀ {call : Nat} {request : NoteRequest} {noteCall : NoteCall},
      inbox.notes.inbox.calls[call]? = some (request, noteCall) → ∃ noteCall',
        notes.inbox.calls[call]? = some (request, noteCall') ∧
        ∀ result, noteCall.result = some result → noteCall' = noteCall := by
    intro call request noteCall hcall
    rw [hnotes]
    exact exists_call_step hcall e
  -- no call is new
  have hback : ∀ {call : Nat} {request : NoteRequest} {noteCall : NoteCall},
      notes.inbox.calls[call]? = some (request, noteCall) →
      ∃ before, inbox.notes.inbox.calls[call]? = some (request, before) := by
    intro call request noteCall hcall
    rw [hnotes] at hcall
    rcases call_of_step hcall with hbefore | ⟨-, request', he, -⟩
    · exact hbefore
    · exact absurd he (hnew request')
  refine ⟨?_, ?_, ?_, ?_, ?_⟩
  · rw [hwriter]
    intro i context attempted call hi
    obtain ⟨he, request, noteCall, hcall, hrest⟩ := h.writer i context attempted call hi
    obtain ⟨noteCall', hcall', -⟩ := hkeep hcall
    exact ⟨he, request, noteCall', hcall', hrest⟩
  · refine h.injOn.mono fun call hcall => ?_
    obtain ⟨before, hbefore⟩ := hback (List.getElem?_eq_getElem hcall)
    exact (List.getElem?_eq_some_iff.mp hbefore).1
  · rw [hwriter, hbegan, hlog]
    intro call request noteCall hcall
    obtain ⟨before, hbefore⟩ := hback hcall
    obtain ⟨http, context, hi, hprivate, hasks, hfingerprint, hstate⟩ :=
      h.owned call request before hbefore
    refine ⟨http, context, hi, hprivate, hasks, hfingerprint, hstate.imp_right ?_⟩
    rintro ⟨result, hresult, hline⟩
    obtain ⟨noteCall', hcall', hsame⟩ := hkeep hbefore
    obtain rfl := hsame result hresult
    obtain ⟨-, rfl⟩ := Prod.mk.inj (Option.some.inj (hcall'.symm.trans hcall))
    exact ⟨result, hresult, hline⟩
  · rw [hlog, hwriter, hbegan]
    intro record hmem context id bytes hfiled
    obtain ⟨call, request, prepared, name, entry, http, hcall, hrest⟩ :=
      h.logged record hmem context id bytes hfiled
    obtain ⟨noteCall', hcall', hsame⟩ := hkeep hcall
    obtain rfl := hsame _ rfl
    exact ⟨call, request, prepared, name, entry, http, hcall', hrest⟩
  · rw [hlog]
    exact h.distinct

/-- A call of `create_note` returns, and the audit log gets its line. -/
theorem NotesInv.return (h : NotesInv W s inbox owner) (hapart : NamesApart inbox) {i : Nat}
    {context : AuditContext} {attempted call : Nat} {request : NoteRequest} {noteCall : NoteCall}
    {result : Except InboxError CreatedNote} (hi : s.writer i = some (context, attempted, call))
    (hcall : inbox.notes.inbox.calls[call]? = some (request, noteCall))
    (hresult : noteCall.result = some result)
    (hwriter : s'.writer = Function.update s.writer i none) (hbegan : s'.began = s.began)
    (hlog : s'.auditLog = s.auditLog
      ++ [(KnowledgeBaseServer.finishNote inbox.store context attempted result).1]) :
    NotesInv W s' inbox owner := by
  obtain ⟨howner, request', noteCall', hcall', rfl⟩ := h.writer _ _ _ _ hi
  obtain ⟨rfl, rfl⟩ := Prod.mk.inj (Option.some.inj (hcall'.symm.trans hcall))
  have hother : ∀ {j : Nat} {c : AuditContext} {a n : Nat}, s'.writer j = some (c, a, n) →
      j ≠ i ∧ s.writer j = some (c, a, n) := by
    intro j c a n hj
    rw [hwriter] at hj
    by_cases hji : j = i
    · subst hji
      rw [Function.update_self] at hj
      cases hj
    · rw [Function.update_of_ne hji] at hj
      exact ⟨hji, hj⟩
  refine ⟨?_, h.injOn, ?_, ?_, ?_⟩
  · intro j c a n hj
    exact h.writer j c a n (hother hj).2
  · rw [hbegan, hlog]
    intro n request'' noteCall'' hn
    obtain ⟨http, c, hj, hprivate, hasks, hfp, hstate⟩ := h.owned n request'' noteCall'' hn
    refine ⟨http, c, hj, hprivate, hasks, hfp, ?_⟩
    rcases hstate with hwrites | ⟨result', hresult', hline⟩
    · by_cases hji : owner n = i
      · -- this is the call that returns
        rw [hji, hi] at hwrites
        obtain ⟨rfl, hpair⟩ := Prod.mk.inj (Option.some.inj hwrites)
        obtain ⟨-, rfl⟩ := Prod.mk.inj hpair
        obtain ⟨rfl, rfl⟩ := Prod.mk.inj (Option.some.inj (hcall.symm.trans hn))
        exact Or.inr ⟨result, hresult, List.mem_append_right _ (List.mem_singleton_self _)⟩
      · refine Or.inl ?_
        rw [hwriter, Function.update_of_ne hji]
        exact hwrites
    · exact Or.inr ⟨result', hresult', List.mem_append_left _ hline⟩
  · rw [hlog, hbegan]
    intro record hmem c id bytes hfiled
    rcases List.mem_append.mp hmem with hmem | hmem
    · obtain ⟨n, request'', prepared, name, entry, http, hn, hj, hid, hbytes, hfree⟩ :=
        h.logged record hmem c id bytes hfiled
      exact ⟨n, request'', prepared, name, entry, http, hn, hj, hid, hbytes,
        fun c' a hw => hfree c' a (hother hw).2⟩
    · rw [List.mem_singleton.mp hmem] at hfiled
      cases result with
      | error e =>
        rw [finishNote_error] at hfiled
        cases hfiled
      | ok note =>
        rw [finishNote_ok] at hfiled
        cases hfiled
        obtain ⟨prepared, name, entry, hcalled, rfl⟩ :=
          returned_of_answered ⟨noteCall', hcall, hresult⟩
        obtain ⟨http, hhttp⟩ := exists_began_of_writer hi
        refine ⟨call, request', prepared, name, entry, http, hcalled, by rw [howner]; exact hhttp,
          rfl, rfl, fun c' a hw => ?_⟩
        exact (hother hw).1 howner
  · rw [hlog, List.filterMap_append, List.map_append]
    cases result with
    | error e =>
      rw [List.filterMap_cons_none (finishNote_error _ _ _ e), List.filterMap_nil, List.map_nil,
        List.append_nil]
      exact h.distinct
    | ok note =>
      rw [List.filterMap_cons_some (finishNote_ok _ _ _ note), List.filterMap_nil,
        List.map_singleton]
      refine h.distinct.append (List.nodup_singleton _) fun id hmem hmem' => ?_
      rw [List.mem_singleton] at hmem'
      obtain ⟨⟨c, id', bytes⟩, hline, hid⟩ := List.mem_map.mp hmem
      obtain ⟨record, hrecord, hfiled⟩ := List.mem_filterMap.mp hline
      obtain ⟨n, request'', prepared'', name'', entry'', _, hn, -, hid'', -, hfree⟩ :=
        h.logged record hrecord c id' bytes hfiled
      -- a line with the same name is the line of the same call
      obtain ⟨prepared, name, entry, hcalled, rfl⟩ :=
        returned_of_answered ⟨noteCall', hcall, hresult⟩
      have hname : name'' = name := append_injective_right (hid''.symm.trans (hid.trans hmem'))
      subst hname
      obtain rfl := hapart.call_eq _ _ _ _ _ _ _ _ _ hn hcalled
      exact hfree context _ (by rw [howner]; exact hi)

/-- A step keeps the invariant. -/
theorem notesInv_move (h : NotesInv W s inbox owner) (hapart : NamesApart inbox)
    (hmove : NoteMove W s s' inbox) :
    ∃ inbox' owner', s'.server.inbox = some inbox' ∧ NotesInv W s' inbox' owner' ∧
      ∀ call < inbox.notes.inbox.calls.length, owner' call = owner call := by
  cases hmove with
  | quiet hinbox hnotes hwriter hbegan hlog hrecords =>
    exact ⟨_, owner, hinbox, h.quiet hnotes hwriter hbegan hlog hrecords, fun _ _ => rfl⟩
  | begun _ hwaiting hprivate hasks hfingerprint hinbox hnotes hwriter hbegan hlog =>
    exact ⟨_, _, hinbox, h.begin hwaiting hprivate hasks hfingerprint hnotes hwriter hbegan hlog,
      fun call hlt => Function.update_of_ne hlt.ne _ _⟩
  | advanced _ hinbox hnotes hwriter hbegan hlog =>
    exact ⟨_, owner, hinbox, h.advance (fun _ he => by cases he) hnotes hwriter hbegan hlog,
      fun _ _ => rfl⟩
  | returned hi hcall hresult hinbox hwriter hbegan hlog =>
    exact ⟨_, owner, hinbox, h.return hapart hi hcall hresult hwriter hbegan hlog, fun _ _ => rfl⟩

end

/-- A run of the notes is a run of the inbox. -/
theorem exists_inboxRun {toYaml : FrontMatterWriter} {store : InboxStore} {t t' : NoteServer}
    {events : List NoteEvent} (hr : NoteRun toYaml store t events t') :
    ∃ inboxEvents, InboxRun toYaml store t.inbox inboxEvents t'.inbox := by
  refine Steps.invariant (P := fun _ t' => ∃ inboxEvents,
    InboxRun toYaml store t.inbox inboxEvents t'.inbox) ?_ ⟨[], .refl⟩ hr
  rintro h s e s' ⟨inboxEvents, hrun⟩ rfl
  rcases s.step_inbox toYaml store e with hs | ⟨_, request, -, hs⟩ | ⟨i, faults, -, hs⟩
  · exact ⟨inboxEvents, by rw [hs]; exact hrun⟩
  · exact ⟨_, hrun.tail hs⟩
  · exact ⟨_, hrun.tail hs⟩

theorem namesApart_of_run {toYaml : FrontMatterWriter} {inbox : InboxSupport} {t : InboxState}
    {events : List InboxEvent} (h0 : t.calls = [])
    (hr : InboxRun toYaml inbox.store t events inbox.notes.inbox) : NamesApart inbox where
  call_eq call call' request request' prepared prepared' name entry entry' hcall hcall' := by
    have hfound : Found _ _ _ _ _ _ _ _ entry := callInv_run h0 hr _ _ _ hcall
    have hfound' : Found _ _ _ _ _ _ _ _ entry' := callInv_run h0 hr _ _ _ hcall'
    have hentry : entry = entry' := Name.ext (hfound.bytes_eq.trans hfound'.bytes_eq.symm)
    subst hentry
    exact (inboxInv_run h0 hr).distinct _ _ entry _ _ (InboxState.file?_eq hcall)
      (InboxState.file?_eq hcall')

/-- A service that starts with this server. -/
structure Starts (s₀ : ServiceState) : Prop where
  requests : s₀.requests = []
  auditLog : s₀.auditLog = []
  calls : ∀ inbox ∈ s₀.server.inbox, inbox.notes.inbox.calls = []

/-- A step of the service, with the requests of its notes before and after. -/
structure OwnedStep (W : ServiceCrates) (A : App) (before : List ServerEvent) (s₀ : ServiceState)
    (h : List ServiceLabel) (l : ServiceLabel) (s s' : ServiceState) (inbox inbox' : InboxSupport)
    (owner owner' : Nat → Nat) : Prop where
  run : ServiceRun W A before s₀ h s
  step_eq : (s.step W A l.event).1 = s'
  move : ServiceMove W A s l.event s'
  inbox_eq : s.server.inbox = some inbox
  inbox_eq' : s'.server.inbox = some inbox'
  inv : NotesInv W s inbox owner
  inv' : NotesInv W s' inbox' owner'
  owner_eq : ∀ call < inbox.notes.inbox.calls.length, owner' call = owner call

/--
**A rule for the notes of a run.** What holds when the service starts, and is kept by every step
with the requests of its notes, holds of every state that has an inbox.
-/
theorem notes_induction {s₀ s : ServiceState} {h : List ServiceLabel} (h0 : Starts s₀)
    {P : List ServiceLabel → ServiceState → InboxSupport → (Nat → Nat) → Prop}
    (hstart : ∀ inbox, s₀.server.inbox = some inbox → P [] s₀ inbox id)
    (hstep : ∀ {h l s s' inbox inbox' owner owner'},
      OwnedStep W A before s₀ h l s s' inbox inbox' owner owner' →
      P h s inbox owner → P (h ++ [l]) s' inbox' owner')
    (hr : ServiceRun W A before s₀ h s) {inbox : InboxSupport}
    (hinbox : s.server.inbox = some inbox) :
    ∃ owner, NotesInv W s inbox owner ∧ P h s inbox owner := by
  have hall := (Steps.invariant (P := fun h s => ServiceRun W A before s₀ h s ∧
    ∀ inbox, s.server.inbox = some inbox → ∃ owner, NotesInv W s inbox owner ∧ P h s inbox owner)
    ?_ ⟨.refl, ?_⟩ hr).2
  · exact hall inbox hinbox
  · rintro h s l s' ⟨hrun, hinv⟩ hlabel
    refine ⟨hrun.tail hlabel, fun inbox' hinbox' => ?_⟩
    obtain ⟨rfl, -, -⟩ := hlabel
    have hmove := serviceMove_step (W := W) (A := A) s l.event
    have hnotes := notesFrom_of_serviceRun hrun
    unfold NotesFrom at hnotes
    split at hnotes
    · -- without an inbox there are no notes
      rcases hmove.notes with hsame | ⟨inbox, _, hsome, -⟩
      · rw [hsame, hnotes] at hinbox'
        cases hinbox'
      · rw [hnotes] at hsome
        cases hsome
    · next inbox₀ hbegin =>
      obtain ⟨events, notes, hsome, hnoteRun⟩ := hnotes
      obtain ⟨inboxEvents, hinboxRun⟩ := exists_inboxRun hnoteRun
      have hapart : NamesApart ⟨inbox₀.store, notes⟩ :=
        namesApart_of_run (h0.calls inbox₀ hbegin) hinboxRun
      obtain ⟨owner, hnow, hP⟩ := hinv _ hsome
      obtain ⟨inbox'', owner', hinbox'', hnext, howner⟩ :=
        notesInv_move hnow hapart (noteMove_of_serviceMove hmove hsome)
      obtain rfl := Option.some.inj (hinbox''.symm.trans hinbox')
      exact ⟨owner', hnext, hstep ⟨hrun, rfl, hmove, hsome, hinbox', hnow, hnext, howner⟩ hP⟩
  · intro inbox hinbox
    have hcalls := h0.calls inbox hinbox
    refine ⟨id, ⟨?_, ?_, ?_, ?_, ?_⟩, hstart inbox hinbox⟩
    · intro i context attempted call hi
      rw [ServiceState.writer, ServiceState.view, h0.requests] at hi
      cases hi
    · rw [hcalls]
      exact Function.injective_id.injOn
    · intro call request noteCall hcall
      rw [hcalls] at hcall
      cases hcall
    · intro record hmem
      rw [h0.auditLog] at hmem
      exact absurd hmem List.not_mem_nil
    · rw [h0.auditLog]
      exact List.nodup_nil

/-- **The requests of the notes of a run.** -/
theorem notesInv_run {s₀ s : ServiceState} {h : List ServiceLabel} (h0 : Starts s₀)
    (hr : ServiceRun W A before s₀ h s) {inbox : InboxSupport}
    (hinbox : s.server.inbox = some inbox) : ∃ owner, NotesInv W s inbox owner := by
  obtain ⟨owner, hinv, -⟩ := notes_induction (P := fun _ _ _ _ => True) h0 (fun _ _ => trivial)
    (fun _ _ => trivial) hr hinbox
  exact ⟨owner, hinv⟩

end EngramMcp
