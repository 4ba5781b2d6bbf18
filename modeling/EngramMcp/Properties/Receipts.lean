import EngramMcp.Http.Answers
import EngramMcp.Properties.Accountability

/-!
# What a client is told about its note

An answer to `append_note` that is no error says where the note is, how large it is and when it was
created. What the client reads there is so: its own note is in the inbox, whole, under this name,
and stays there. No two clients are told of the same note, and once its request is answered there
is no note that nobody is told of, only the beginning of one that could not be written.

* `Receipts` — the answers and the calls of `create_note` that they are about
* `note_receipts` — the property
-/

namespace EngramMcp

open Infra ServiceState InboxStore

variable {W : ServiceCrates} {K : ConfigCrates} {A : App}

/-- The context of a request that the server has answered. -/
def Phase.answered? : Phase → Option AuditContext
  | answered context _ | served context _ => some context
  | _ => none

theorem context?_of_answered? {phase : Phase} {context : AuditContext}
    (h : phase.answered? = some context) : phase.context? = some context := by
  cases phase with
  | answered | served => exact h
  | received | authenticated | admitted | writing | rejected => cases h

theorem writing?_of_answered? {phase : Phase} {context : AuditContext}
    (h : phase.answered? = some context) : phase.writing? = none := by
  cases phase with
  | answered | served => rfl
  | received | authenticated | admitted | writing | rejected => cases h

/-- A request that has begun writes, or it is answered. -/
theorem answered?_of_began? {phase : Phase} {context : AuditContext}
    (h : phase.began? = some context) (hwriting : phase.writing? = none) :
    phase.answered? = some context := by
  cases phase with
  | answered | served => exact h
  | writing => cases hwriting
  | received | authenticated | admitted | rejected => cases h

/-- The request got this answer of a tool, which the client has or will have. -/
def ServiceRequest.AnsweredWith (T : Transport) (r : ServiceRequest) (context : AuditContext)
    (answer : ToolAnswer) : Prop :=
  r.phase = .answered context (T.toolResponse r.request answer) ∨
    r.phase = .served context (secured (T.toolResponse r.request answer))

/-- A call of `create_note` that belongs to the request `i` has returned with this note. -/
def Written (inbox : InboxSupport) (owner : Nat → Nat) (i : Nat) (note : AppendNoteResponse) :
    Prop :=
  ∃ (call : Nat) (request : NoteRequest) (prepared : Prepared) (name : String) (entry : Name),
    owner call = i ∧
    inbox.notes.inbox.calls[call]? = some (request, .returned prepared name entry) ∧
    note = ⟨inboxIdPrefix ++ "/" ++ name, prepared.created, prepared.contents.length⟩

/-- An answer to the request `i` tells of the note that was written for it, if there is one. -/
structure Tells (inbox : InboxSupport) (owner : Nat → Nat) (i : Nat) (answer : ToolAnswer) :
    Prop where
  told : answer.succeeded = true → ∃ note, Written inbox owner i note ∧
    answer = .ok (structured note.toValue)
  failed : answer.succeeded = false → ∀ note, ¬ Written inbox owner i note

/-- Every answer to `append_note` does. -/
def Receipts (W : ServiceCrates) (s : ServiceState) (inbox : InboxSupport) (owner : Nat → Nat) :
    Prop :=
  ∀ (i : Nat) (r : ServiceRequest) (context : AuditContext), s.requests[i]? = some r →
    W.transport.Calls r.request "append_note" → r.phase.answered? = some context →
    ∃ answer : ToolAnswer, r.AnsweredWith W.transport context answer ∧ Tells inbox owner i answer

/-! ## Steps -/

/-- An error of `create_note` is one of the tool. -/
theorem finishNote_fails (store : InboxStore) (context : AuditContext) (attempted : Nat)
    (e : InboxError) :
    (KnowledgeBaseServer.finishNote store context attempted (.error e)).2.succeeded = false := by
  cases e <;> rfl

/-- A call that has returned stays as it is. -/
theorem ServiceMove.returned_keeps {s s' : ServiceState} {e : ServiceEvent}
    (h : ServiceMove W A s e s') {inbox inbox' : InboxSupport}
    (hinbox : s.server.inbox = some inbox) (hinbox' : s'.server.inbox = some inbox') {call : Nat}
    {request : NoteRequest} {prepared : Prepared} {name : String} {entry : Name}
    (hcall : inbox.notes.inbox.calls[call]? = some (request, .returned prepared name entry)) :
    inbox'.notes.inbox.calls[call]? = some (request, .returned prepared name entry) := by
  have hkeep : ∀ event, (inbox.notes.inbox.step W.toYaml inbox.store event).calls[call]?
      = some (request, .returned prepared name entry) := by
    intro event
    obtain ⟨noteCall, hget, hsame⟩ : ∃ noteCall,
        (inbox.notes.inbox.step W.toYaml inbox.store event).calls[call]?
          = some (request, noteCall) ∧
        ∀ result, (NoteCall.returned prepared name entry).result = some result →
          noteCall = .returned prepared name entry := exists_call_step hcall event
    rw [hget, hsame _ rfl]
  rcases h.notes with hsame | ⟨inbox₀, event, hinbox₀, hnext, -⟩
  · rw [hsame, hinbox] at hinbox'
    obtain rfl := Option.some.inj hinbox'
    exact hcall
  · obtain rfl := Option.some.inj (hinbox₀.symm.trans hinbox)
    rw [hnext] at hinbox'
    obtain rfl := Option.some.inj hinbox'
    rcases inbox₀.notes.step_inbox W.toYaml inbox₀.store event with hs | ⟨_, _, -, hs⟩ |
      ⟨_, _, -, hs⟩
    · show (inbox₀.notes.step W.toYaml inbox₀.store event).inbox.calls[call]? = _
      rw [hs]
      exact hcall
    · exact hs ▸ hkeep _
    · exact hs ▸ hkeep _

/-- A request that has not begun has no note. -/
theorem not_written_of_began {s : ServiceState} {inbox : InboxSupport} {owner : Nat → Nat}
    (hinv : NotesInv W s inbox owner) {i : Nat} (h : s.began i = none)
    (note : AppendNoteResponse) : ¬ Written inbox owner i note := by
  rintro ⟨call, request, prepared, name, entry, rfl, hcall, -⟩
  obtain ⟨http, context, hbegan, -⟩ := hinv.owned call _ _ hcall
  rw [h] at hbegan
  cases hbegan

section

variable {s : ServiceState} {inbox : InboxSupport} {owner : Nat → Nat}
  (hinv : NotesInv W s inbox owner) {call : Nat} {request : NoteRequest} {noteCall : NoteCall}
  (hcall : inbox.notes.inbox.calls[call]? = some (request, noteCall))

include hinv hcall

/-- The note of a request is that of its call. -/
theorem Written.of_call {note : AppendNoteResponse} (h : Written inbox owner (owner call) note) :
    ∃ prepared name entry, noteCall = .returned prepared name entry ∧
      note = ⟨inboxIdPrefix ++ "/" ++ name, prepared.created, prepared.contents.length⟩ := by
  obtain ⟨call', _, prepared, name, entry, howner, hcall', rfl⟩ := h
  obtain rfl := hinv.call_eq hcall' hcall howner
  obtain ⟨-, rfl⟩ := Prod.mk.inj (Option.some.inj (hcall.symm.trans hcall'))
  exact ⟨prepared, name, entry, rfl, rfl⟩

/-- The request of a call is inside it, or it is answered. -/
theorem writing_or_answered : ∃ r context, s.requests[owner call]? = some r ∧
    W.transport.Calls r.request "append_note" ∧
    ((∃ attempted call', r.phase = .writing context attempted call') ∨
      r.phase.answered? = some context ∧ noteCall.result ≠ none) := by
  obtain ⟨_, context, hbegan, -, hasks, -, hstate⟩ := hinv.owned call _ _ hcall
  obtain ⟨r, hget, rfl, hphase⟩ := exists_request_of_began hbegan
  obtain ⟨_, arguments, htool, rfl, -⟩ := hasks
  refine ⟨r, context, hget, ⟨arguments, htool⟩, ?_⟩
  have hwriter : s.writer (owner call) = r.phase.writing? := view_eq _ hget
  cases hwriting : r.phase.writing? with
  | some writing =>
    obtain ⟨context', attempted, call'⟩ := writing
    have hwrites := Phase.writing?_eq_some.mp hwriting
    rw [hwrites] at hphase
    obtain rfl := Option.some.inj hphase
    exact Or.inl ⟨attempted, call', hwrites⟩
  | none =>
    refine Or.inr ⟨answered?_of_began? hphase hwriting, ?_⟩
    rcases hstate with hwrites | ⟨result, hresult, -⟩
    · rw [hwriter, hwriting] at hwrites
      cases hwrites
    · rw [hresult]
      exact Option.some_ne_none result

/-- What is answered when a call returns. -/
theorem tells_of_result
    {result : Except InboxError CreatedNote} (hresult : noteCall.result = some result)
    (context : AuditContext) (attempted : Nat) : Tells inbox owner (owner call)
      (KnowledgeBaseServer.finishNote inbox.store context attempted result).2 := by
  refine ⟨fun hok => ?_, fun hfailed note hw => ?_⟩
  · cases result with
    | error e =>
      rw [finishNote_fails] at hok
      cases hok
    | ok note =>
      obtain ⟨prepared, name, entry, hreturned, rfl⟩ :=
        returned_of_answered ⟨noteCall, hcall, hresult⟩
      exact ⟨_, ⟨call, request, prepared, name, entry, rfl, hreturned, rfl⟩, rfl⟩
  · obtain ⟨_, _, _, rfl, -⟩ := hw.of_call hinv hcall
    obtain rfl := Option.some.inj hresult
    cases hfailed

end

section

variable {before : List ServerEvent} {s₀ s s' : ServiceState} {h : List ServiceLabel}
  {l : ServiceLabel} {inbox inbox' : InboxSupport} {owner owner' : Nat → Nat} {i : Nat}

/-- A note that was written stays written. -/
theorem Written.keep (hstep : OwnedStep W A before s₀ h l s s' inbox inbox' owner owner')
    {note : AppendNoteResponse} (hwritten : Written inbox owner i note) :
    Written inbox' owner' i note := by
  obtain ⟨call, request, prepared, name, entry, hown, hcall, rfl⟩ := hwritten
  have hlt := (List.getElem?_eq_some_iff.mp hcall).1
  exact ⟨call, request, prepared, name, entry, (hstep.owner_eq call hlt).trans hown,
    hstep.move.returned_keeps hstep.inbox_eq hstep.inbox_eq' hcall, rfl⟩

/-- Only a request that writes gets a note. -/
theorem Written.back (hstep : OwnedStep W A before s₀ h l s s' inbox inbox' owner owner')
    (hidle : s.writer i = none) {note : AppendNoteResponse}
    (hwritten : Written inbox' owner' i note) : Written inbox owner i note := by
  obtain ⟨call, request, prepared, name, entry, hown, hcall, rfl⟩ := hwritten
  -- the call was there before the step
  have hold : inbox.notes.inbox.calls[call]? = some (request, .returned prepared name entry) →
      Written inbox owner i ⟨inboxIdPrefix ++ "/" ++ name, prepared.created,
        prepared.contents.length⟩ := fun hcall =>
    ⟨call, request, prepared, name, entry,
      (hstep.owner_eq call (List.getElem?_eq_some_iff.mp hcall).1).symm.trans hown, hcall, rfl⟩
  have hinbox' := hstep.inbox_eq'
  cases noteMove_of_serviceMove hstep.move hstep.inbox_eq with
  | quiet hserver hnotes =>
    obtain rfl := Option.some.inj (hserver.symm.trans hinbox')
    exact hold (hnotes ▸ hcall)
  | begun _ _ _ _ _ hserver hnotes =>
    obtain rfl := Option.some.inj (hserver.symm.trans hinbox')
    rw [hnotes, InboxState.step, List.getElem?_append] at hcall
    split at hcall
    · exact hold hcall
    · -- a call that has just begun has not returned
      obtain ⟨_, hnew⟩ := List.getElem?_eq_some_iff.mp hcall
      have hbegin := (Prod.mk.inj ((List.getElem_singleton _).symm.trans hnew)).2
      unfold InboxStore.begin at hbegin
      split at hbegin
      · cases hbegin
      · cases hbegin
  | @advanced j context attempted call' _ _ hwriter hserver hnotes =>
    obtain rfl := Option.some.inj (hserver.symm.trans hinbox')
    obtain ⟨howner, request', noteCall, hcall', -⟩ := hstep.inv.writer j _ _ _ hwriter
    by_cases hsame : call' = call
    · -- its request is one that writes
      subst hsame
      rw [← hown, hstep.owner_eq _ (List.getElem?_eq_some_iff.mp hcall').1, howner, hwriter]
        at hidle
      cases hidle
    · rw [hnotes, InboxState.step, hcall'] at hcall
      exact hold ((List.getElem?_set_ne hsame).symm.trans hcall)
  | returned _ _ _ hserver =>
    obtain rfl := Option.some.inj (hserver.symm.trans hinbox')
    exact hold hcall

/-- An answer that was there tells the same. -/
theorem Tells.keep (hstep : OwnedStep W A before s₀ h l s s' inbox inbox' owner owner')
    (hidle : s.writer i = none) {answer : ToolAnswer} (ht : Tells inbox owner i answer) :
    Tells inbox' owner' i answer := by
  refine ⟨fun hok => ?_, fun hfailed note hw => ht.failed hfailed note (hw.back hstep hidle)⟩
  obtain ⟨note, hwritten, hnote⟩ := ht.told hok
  exact ⟨note, hwritten.keep hstep, hnote⟩

/-- A request that was only let in has no note. -/
theorem tells_of_admitted (hstep : OwnedStep W A before s₀ h l s s' inbox inbox' owner owner')
    {r : ServiceRequest} {context : AuditContext} (hr : s.requests[i]? = some r)
    (hadmitted : r.phase = .admitted context) {answer : ToolAnswer}
    (hfailed : answer.succeeded = false) : Tells inbox' owner' i answer := by
  have hwriter : s.writer i = none := by
    rw [ServiceState.writer, view_eq _ hr, hadmitted]
    rfl
  have hbegan : s.began i = none := by
    rw [ServiceState.began, view_eq _ hr, hadmitted]
    rfl
  refine ⟨fun hok => absurd hok (by rw [hfailed]; decide), fun _ note hw => ?_⟩
  exact not_written_of_began hstep.inv hbegan note (hw.back hstep hwriter)

/-- **A step keeps what the answers are about.** -/
theorem receipts_step (hstep : OwnedStep W A before s₀ h l s s' inbox inbox' owner owner')
    (hreceipts : Receipts W s inbox owner) : Receipts W s' inbox' owner' := by
  have hwriter : ∀ {j : Nat} {r : ServiceRequest}, s.requests[j]? = some r →
      s.writer j = r.phase.writing? := fun hr => view_eq _ hr
  intro i r' context hr' hcalls hphase
  -- a request that was there as it is
  have hold : s.requests[i]? = some r' → ∃ answer : ToolAnswer,
      r'.AnsweredWith W.transport context answer ∧ Tells inbox' owner' i answer := by
    intro hr
    obtain ⟨answer, hanswered, ht⟩ := hreceipts i r' context hr hcalls hphase
    refine ⟨answer, hanswered, ht.keep hstep ?_⟩
    rw [hwriter hr]
    exact writing?_of_answered? hphase
  -- only the request whose turn it is gets an answer
  have hset : ∀ {j : Nat} {r : ServiceRequest} {phase : Phase}, s.requests[j]? = some r →
      s'.requests = s.requests.set j { r with phase } →
      (j = i → W.transport.Calls r.request "append_note" → phase.answered? = some context →
        ∃ answer : ToolAnswer, ({ r with phase } : ServiceRequest).AnsweredWith W.transport context
          answer ∧ Tells inbox' owner' i answer) →
      ∃ answer : ToolAnswer, r'.AnsweredWith W.transport context answer ∧
        Tells inbox' owner' i answer := by
    intro j r phase hr hs' hnew
    have hget := getElem?_setPhase hr phase [] i
    rw [show (s.setPhase j r phase []).requests = s'.requests from hs'.symm, hr'] at hget
    split at hget
    · next hij =>
      obtain rfl := Option.some.inj hget
      exact hnew hij.symm hcalls hphase
    · exact hold hget.symm
  have hmove := hstep.move
  generalize l.event = e at hmove
  cases hmove with
  | idle | oauth | advanced => exact hold hr'
  | received =>
    rcases getElem?_receive hr' with hr | ⟨-, rfl⟩
    · exact hold hr
    · cases hphase
  | authenticated hr | unauthorized hr | admitted hr | rateLimited hr | begun hr =>
    exact hset hr rfl fun _ _ hphase => by cases hphase
  | read hr hadmitted _ _ hanswer =>
    refine hset hr rfl fun hij hcalls hphase => ?_
    subst hij
    obtain rfl := Option.some.inj hphase
    obtain ⟨answer, rfl, hfailed⟩ := hanswer hcalls
    exact ⟨answer, Or.inl rfl, tells_of_admitted hstep hr hadmitted hfailed⟩
  | @refused _ _ _ _ _ _ _ answer hr hadmitted _ _ _ hfailed =>
    refine hset hr rfl fun hij _ hphase => ?_
    subst hij
    obtain rfl := Option.some.inj hphase
    exact ⟨answer, Or.inl rfl, tells_of_admitted hstep hr hadmitted hfailed⟩
  | @returned j r context' attempted call _ _ request noteCall result hr hwriting hinbox hcall
      hresult =>
    refine hset hr rfl fun hij _ hphase => ?_
    subst hij
    obtain rfl := Option.some.inj hphase
    obtain rfl := Option.some.inj (hinbox.symm.trans hstep.inbox_eq)
    obtain rfl := Option.some.inj (hinbox.symm.trans hstep.inbox_eq')
    have hj : s.writer j = some (context', attempted, call) := by
      rw [hwriter hr, hwriting]
      rfl
    obtain ⟨rfl, -⟩ := hstep.inv.writer j _ _ _ hj
    have ht := tells_of_result hstep.inv' hcall hresult context' attempted
    rw [hstep.owner_eq call (List.getElem?_eq_some_iff.mp hcall).1] at ht
    exact ⟨_, Or.inl rfl, ht⟩
  | @completed j r context' response hr hanswered =>
    refine hset hr rfl fun hij hcalls hphase => ?_
    subst hij
    obtain rfl := Option.some.inj hphase
    obtain ⟨answer, hwith, ht⟩ := hreceipts j r context' hr hcalls (by rw [hanswered]; rfl)
    refine ⟨answer, Or.inr ?_, ht.keep hstep ?_⟩
    · rcases hwith with hwith | hwith
      · rw [hanswered] at hwith
        rw [(Phase.answered.inj hwith).2]
      · rw [hanswered] at hwith
        cases hwith
    · rw [hwriter hr, hanswered]
      rfl

end

/-- What the request `i` is told, if it is told of a note. -/
theorem Receipts.exists_told {s : ServiceState} {inbox : InboxSupport} {owner : Nat → Nat}
    (h : Receipts W s inbox owner) (i : Nat) : ∃ told : Option AppendNoteResponse,
      (∀ note, told = some note → Written inbox owner i note) ∧
      ∀ (r : ServiceRequest) (context : AuditContext), s.requests[i]? = some r →
        W.transport.Calls r.request "append_note" → r.phase.answered? = some context →
        ∃ answer : ToolAnswer, r.AnsweredWith W.transport context answer ∧
          (told = none → answer.succeeded = false ∧ ∀ note, ¬ Written inbox owner i note) ∧
          ∀ note, told = some note → answer = .ok (structured note.toValue) := by
  by_cases hanswered : ∃ r context, s.requests[i]? = some r ∧
      W.transport.Calls r.request "append_note" ∧ r.phase.answered? = some context
  · obtain ⟨r, context, hr, hcalls, hphase⟩ := hanswered
    obtain ⟨answer, hwith, ht⟩ := h i r context hr hcalls hphase
    -- there is only one such request, with one context
    have hall : ∀ {told : Option AppendNoteResponse},
        (told = none → answer.succeeded = false ∧ ∀ note, ¬ Written inbox owner i note) →
        (∀ note, told = some note → answer = .ok (structured note.toValue)) →
        ∀ r' context', s.requests[i]? = some r' → W.transport.Calls r'.request "append_note" →
          r'.phase.answered? = some context' → ∃ answer : ToolAnswer,
            r'.AnsweredWith W.transport context' answer ∧
            (told = none → answer.succeeded = false ∧ ∀ note, ¬ Written inbox owner i note) ∧
            ∀ note, told = some note → answer = .ok (structured note.toValue) := by
      intro told hnone hsome r' context' hr' _ hphase'
      obtain rfl := Option.some.inj (hr.symm.trans hr')
      obtain rfl := Option.some.inj (hphase.symm.trans hphase')
      exact ⟨answer, hwith, hnone, hsome⟩
    cases hok : answer.succeeded with
    | false => exact ⟨none, nofun, hall (fun _ => ⟨hok, ht.failed hok⟩) nofun⟩
    | true =>
      obtain ⟨note, hwritten, rfl⟩ := ht.told hok
      refine ⟨some note, ?_, hall nofun ?_⟩
      · rintro _ ⟨⟩
        exact hwritten
      · rintro _ ⟨⟩
        rfl
  · refine ⟨none, nofun, fun r context hr hcalls hphase => ?_⟩
    exact absurd ⟨r, context, hr, hcalls, hphase⟩ hanswered

/-! ## The property -/

/--
**What a client is told about its note is so.**

In every run, each answer to `append_note` is an error, or its text reads back as the name, the
size and the time of a note that the same request asked for and that is in the inbox now. No two
requests are told of the same note, and one is told of every entry that was added, unless the entry
is still being written, or the write failed and the request is told of no note.
-/
theorem note_receipts (D : Service W K) {h : List ServiceLabel} {s : ServiceState}
    (hr : D.RunsTo h s) {inbox : InboxSupport} (hinbox : s.server.inbox = some inbox) :
    ∃ told : Nat → Option AppendNoteResponse,
      (∀ i j note note', told i = some note → told j = some note' → note.id = note'.id → i = j) ∧
      (∀ (i : Nat) (r : ServiceRequest) (context : AuditContext), s.requests[i]? = some r →
        W.transport.Calls r.request "append_note" → r.phase.answered? = some context →
        ∃ answer : ToolAnswer, r.AnsweredWith W.transport context answer ∧
          (told i = none → answer.succeeded = false) ∧
          ∀ note, told i = some note → ∃ (text : String) (request : NoteRequest)
            (prepared : Prepared) (name : String) (entry : Name),
            answer = .ok ⟨[text], text.toList, false⟩ ∧
            Json.readAll readAppendNoteResponse text.toList = some note ∧
            note.id = inboxIdPrefix ++ "/" ++ name ∧ note.bytes = prepared.contents.length ∧
            note.created = prepared.created ∧
            Added D inbox entry (.file none none prepared.contents) ∧
            FiledBy D h inbox r context request prepared name entry
              (.file none none prepared.contents)) ∧
      ∀ entry node, Added D inbox entry node → ∃ (i : Nat) (r : ServiceRequest)
        (context : AuditContext), s.requests[i]? = some r ∧
        ((∃ attempted call, r.phase = .writing context attempted call) ∨
          W.transport.Calls r.request "append_note" ∧ r.phase.answered? = some context ∧
            ((∃ note name, told i = some note ∧ note.id = inboxIdPrefix ++ "/" ++ name ∧
              entry.bytes = utf8 name) ∨
            WriteFailed D h entry ∧ told i = none)) := by
  obtain ⟨owner, hinv, hreceipts⟩ := notes_induction (P := fun _ => Receipts W) D.starts
    (fun _ _ i r context hget => by rw [D.starts.requests] at hget; cases hget)
    receipts_step hr hinbox
  choose told hwritten hanswer using hreceipts.exists_told
  refine ⟨told, fun i j note note' hi hj hid => ?_, fun i r context hget hcalls hphase => ?_,
    fun entry node hadded => ?_⟩
  · obtain ⟨call, request, prepared, name, entry, rfl, hcall, rfl⟩ := hwritten i note hi
    obtain ⟨call', request', prepared', name', entry', rfl, hcall', rfl⟩ := hwritten j note' hj
    obtain rfl : name = name' := append_injective_right hid
    obtain ⟨events, hrun⟩ := D.exists_inbox_run hr hinbox
    exact congrArg owner ((namesApart_of_run rfl hrun).call_eq _ _ _ _ _ _ _ _ _ hcall hcall')
  · obtain ⟨answer, hwith, hnone, hsome⟩ := hanswer i r context hget hcalls hphase
    refine ⟨answer, hwith, fun h => (hnone h).1, fun note hnote => ?_⟩
    obtain ⟨text, htext, -, hread⟩ := exists_text_structured reads_appendNoteResponse note
    obtain ⟨call, request, prepared, name, entry, rfl, hcall, rfl⟩ := hwritten i note hnote
    obtain ⟨r', context', hget', -, hfiled⟩ := filedBy_of_returned hr hinbox hinv hcall
    obtain rfl := Option.some.inj (hget.symm.trans hget')
    obtain rfl : context = context' := by
      have hcontext : r.phase.context? = some context := context?_of_answered? hphase
      exact Option.some.inj (hcontext.symm.trans hfiled.served)
    exact ⟨text, request, prepared, name, entry, (hsome _ hnote).trans (congrArg _ htext), hread,
      rfl, rfl, rfl, added_of_call hr hinbox hcall rfl, hfiled⟩
  · obtain ⟨call, request, noteCall, hcall, hfile⟩ := exists_call_of_added hr hinbox hadded
    obtain ⟨r, context, hget, hcalls, hstate⟩ := writing_or_answered hinv hcall
    refine ⟨owner call, r, context, hget, hstate.imp_right fun ⟨hanswered, hresult⟩ =>
      ⟨hcalls, hanswered, ?_⟩⟩
    obtain ⟨prepared, name, -, -, hbytes, hstands⟩ := prepares_of_file hr hinbox hcall hfile
    cases hstands with
    | writing => exact absurd rfl hresult
    | returned =>
      obtain ⟨answer, -, hnone, -⟩ := hanswer _ r context hget hcalls hanswered
      obtain ⟨note, hnote⟩ : ∃ note, told (owner call) = some note :=
        Option.ne_none_iff_exists'.mp fun h =>
          (hnone h).2 _ ⟨call, request, prepared, name, entry, rfl, hcall, rfl⟩
      obtain ⟨_, _, _, hsame, hid⟩ := (hwritten _ note hnote).of_call hinv hcall
      cases hsame
      exact Or.inl ⟨note, name, hnote, congrArg AppendNoteResponse.id hid, hbytes⟩
    | writeFailed _ =>
      refine Or.inr ⟨writeFailed_of_call hr hinbox hcall, Option.eq_none_iff_forall_ne_some.mpr
        fun note hnote => ?_⟩
      obtain ⟨_, _, _, hsame, -⟩ := (hwritten _ note hnote).of_call hinv hcall
      cases hsame

section

open Sample

/-- The owner is told of the note. -/
theorem note_receipts_note : ∃ (inbox : InboxSupport) (r : ServiceRequest) (context : AuditContext)
    (note : AppendNoteResponse) (text : String) (prepared : Prepared) (entry : Name),
    noteState.server.inbox = some inbox ∧ noteState.requests = [r] ∧
    r.AnsweredWith transport context (.ok ⟨[text], text.toList, false⟩) ∧
    Json.readAll readAppendNoteResponse text.toList = some note ∧
    note.bytes = prepared.contents.length ∧
    Added service inbox entry (.file none none prepared.contents) := by
  obtain ⟨inbox, node, hinbox, hadded⟩ := exists_added_note
  obtain ⟨r, hrequests⟩ := List.length_eq_one_iff.mp noteState_facts.1
  have hserved := List.all_eq_true.mp noteState_facts.2.2.2.1 r
    (by rw [hrequests]; exact List.mem_singleton_self r)
  obtain ⟨told, -, hanswers, hentries⟩ := note_receipts service run_noteEvents hinbox
  obtain ⟨i, r', context, hget, hstate⟩ := hentries _ node hadded
  obtain rfl : r = r' := by
    rw [hrequests] at hget
    exact (List.mem_singleton.mp (List.mem_of_getElem? hget)).symm
  rcases hstate with ⟨_, _, hwriting⟩ | ⟨hcalls, hanswered, ⟨note, -, hnote, -⟩ | ⟨hfailed, -⟩⟩
  · rw [hwriting] at hserved
    cases hserved
  · obtain ⟨answer, hwith, -, hsome⟩ := hanswers i r context hget hcalls hanswered
    obtain ⟨text, _, prepared, _, entry, rfl, hread, -, hbytes, -, hadded', -⟩ := hsome note hnote
    exact ⟨inbox, r, context, note, text, prepared, entry, hinbox, hrequests, hwith, hread, hbytes,
      hadded'⟩
  · exact absurd hfailed (not_writeFailed_noteEvents _)

end

end EngramMcp
