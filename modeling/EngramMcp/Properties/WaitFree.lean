import EngramMcp.Http.Reference

/-!
# A call of `append_note` comes to its end

`create_note` takes no lock while it works on the directory, so a call of it never waits for
another one. It scans the directory once, tries each of its 64 names once at most, and writes
once: after so many of its own steps it has returned, whatever the others do in between.

A step is the scan of the directory, however many entries it has, or an exclusive create, or the
write with its sync, or the return to the request.

* `create_note_wait_free` — the number of steps of one call
* `append_note_answers` — the number of steps after which its request has an answer
-/

namespace EngramMcp

open Infra ServiceState InboxStore

/-! ## The calls -/

/-- How many steps a call has left, at most. -/
def NoteCall.left : NoteCall → Nat
  | scanning prepared => prepared.names.length + 2
  | creating _ names => names.length + 1
  | writing _ _ _ => 1
  | returned _ _ _ | writeFailed _ _ _ _ _ | failed _ => 0

/-- A call that has none left has returned. -/
theorem NoteCall.exists_result_of_left {call : NoteCall} (h : call.left = 0) :
    ∃ result, call.result = some result := by
  cases call with
  | scanning | creating | writing => cases h
  | returned | writeFailed | failed => exact ⟨_, rfl⟩

variable {toYaml : FrontMatterWriter} {store : InboxStore}

/-- Every step is one less. -/
theorem NoteStep.left_le {faults : Faults} {dir dir' : Node} {call call' : NoteCall}
    (h : NoteStep store faults dir call call' dir') : call'.left ≤ call.left - 1 := by
  cases h with
  | scanFailed | refused | exhausted | createFailed | writeFailed | returned | leftBehind
  | failed => exact Nat.zero_le _
  | admitted | taken | written => exact le_rfl
  | created => exact Nat.succ_pos _

theorem left_begin_le (store : InboxStore) (request : NoteRequest) :
    (store.begin toYaml request).left ≤ maxNameAttempts + 2 := by
  unfold InboxStore.begin
  cases hp : store.prepareNote toYaml request.title request.body request.occurred
      request.fingerprint request.now with
  | error e => exact Nat.zero_le _
  | ok prepared =>
    have hprepares : Prepares toYaml store request prepared := hp
    obtain ⟨_, _, _, _, _, _, hnames⟩ := renders_of_prepares hprepares
    show prepared.names.length + 2 ≤ _
    rw [hnames, List.length_map, List.length_range]

/-- An event is a step of the call `i`. -/
def InboxEvent.advances (i : Nat) : InboxEvent → Bool
  | .advance j _ => i == j
  | .call _ => false

/-- What the call `i` has left. -/
def InboxState.left (s : InboxState) (i : Nat) : Nat :=
  ((s.calls[i]?).map fun entry => entry.2.left).getD 0

theorem InboxState.left_eq {s : InboxState} {i : Nat} {request : NoteRequest} {call : NoteCall}
    (h : s.calls[i]? = some (request, call)) : s.left i = call.left := by
  rw [InboxState.left, h, Option.map_some, Option.getD_some]

/-- No event gives a call that was made more to do, and its own steps leave less. -/
theorem left_step {s : InboxState} {i : Nat} (hi : i < s.calls.length) (e : InboxEvent) :
    (s.step toYaml store e).left i ≤ s.left i ∧
      (e.advances i = true → (s.step toYaml store e).left i ≤ s.left i - 1) := by
  have hget := List.getElem?_eq_getElem hi
  rcases InboxState.step_cases toYaml store s e with ⟨request, rfl, hs⟩ |
    ⟨j, faults, rfl, hj, hs⟩ |
    ⟨j, faults, request, call, call', dir', rfl, hj, hstep, hs⟩
  · have hsame : (s.step toYaml store (.call request)).left i = s.left i := by
      rw [hs, InboxState.left, InboxState.left, List.getElem?_append_left hi]
    rw [hsame]
    exact ⟨le_rfl, fun h => by cases h⟩
  · rw [hs]
    refine ⟨le_rfl, fun h => ?_⟩
    rw [← beq_iff_eq.mp h, hget] at hj
    cases hj
  · by_cases hij : i = j
    · subst hij
      have hget' : (s.step toYaml store (.advance i faults)).calls[i]?
          = some (request, call') := by
        rw [hs, List.getElem?_set_self hi]
      have hle : (s.step toYaml store (.advance i faults)).left i ≤ s.left i - 1 := by
        rw [InboxState.left_eq hj, InboxState.left_eq hget']
        exact hstep.left_le
      exact ⟨hle.trans (Nat.sub_le _ _), fun _ => hle⟩
    · have hsame : (s.step toYaml store (.advance j faults)).left i = s.left i := by
        rw [hs, InboxState.left, InboxState.left, List.getElem?_set_ne (Ne.symm hij)]
      rw [hsame]
      exact ⟨le_rfl, fun h => absurd (beq_iff_eq.mp h) hij⟩

theorem length_calls_step (s : InboxState) (e : InboxEvent) :
    s.calls.length ≤ (s.step toYaml store e).calls.length := by
  rcases InboxState.step_cases toYaml store s e with ⟨_, -, hs⟩ | ⟨_, _, -, -, hs⟩ |
    ⟨_, _, _, _, _, _, -, -, -, hs⟩
  · rw [hs, List.length_append]
    exact Nat.le_add_right _ _
  · rw [hs]
  · rw [hs, List.length_set]

/-- No call ever has more than 66 steps left. -/
theorem left_le_of_run {s₀ s : InboxState} {h : List InboxEvent} (h0 : s₀.calls = [])
    (hr : InboxRun toYaml store s₀ h s) (i : Nat) : s.left i ≤ maxNameAttempts + 2 := by
  refine Steps.invariant (P := fun _ s => ∀ i, s.left i ≤ maxNameAttempts + 2) ?_ ?_ hr i
  · rintro h s e s' hle rfl i
    by_cases hi : i < s.calls.length
    · exact (left_step hi e).1.trans (hle i)
    · cases hcall : (s.step toYaml store e).calls[i]? with
      | none =>
        rw [InboxState.left, hcall]
        exact Nat.zero_le _
      | some entry =>
        rcases call_of_step hcall with ⟨call, hbefore⟩ | ⟨-, request, -, rfl⟩
        · exact absurd (List.getElem?_eq_some_iff.mp hbefore).1 hi
        · rw [InboxState.left_eq hcall]
          exact left_begin_le store request
  · intro i
    rw [InboxState.left, h0]
    exact Nat.zero_le _

/--
**A call returns after 66 steps of its own**, whatever other calls do in between and however often
they do it.
-/
theorem create_note_wait_free {s₀ t s : InboxState} {pre more : List InboxEvent}
    (h0 : s₀.calls = []) (hpre : InboxRun toYaml store s₀ pre t)
    (hr : InboxSteps toYaml store pre t (pre ++ more) s) {i : Nat} {request : NoteRequest}
    {call : NoteCall} (hi : t.calls[i]? = some (request, call))
    (hown : maxNameAttempts + 2 ≤ more.countP (·.advances i)) :
    ∃ result, s.Answered i request result := by
  obtain ⟨-, post, hpost, hleft⟩ := Steps.countdown (P := fun _ s => i < s.calls.length)
    (μ := fun s => s.left i) (p := fun e => e.advances i) (by
      rintro h s e s' hlt rfl
      exact ⟨hlt.trans_le (length_calls_step s e), left_step hlt e⟩)
    (List.getElem?_eq_some_iff.mp hi).1 hr
  obtain rfl := List.append_cancel_left hpost
  obtain ⟨call', hcall', -⟩ := later_of_steps hr hi
  have hzero : s.left i = 0 := by
    have hle := left_le_of_run h0 hpre i
    omega
  rw [InboxState.left_eq hcall'] at hzero
  obtain ⟨result, hresult⟩ := NoteCall.exists_result_of_left hzero
  exact ⟨result, call', hcall', hresult⟩

/-! ## Their requests -/

variable {W : ServiceCrates} {K : ConfigCrates} {A : App} {before : List ServerEvent}

/-- A request that writes did so before, or there is an inbox. -/
theorem ServiceMove.writer {s s' : ServiceState} {e : ServiceEvent} (h : ServiceMove W A s e s')
    {i : Nat} {x : AuditContext × Nat × Nat} (hx : s'.writer i = some x) :
    s.writer i = some x ∨ ∃ inbox, s.server.inbox = some inbox := by
  have hset : ∀ {t : ServiceState} {j : Nat} {r : ServiceRequest} {phase : Phase}
      {records : List AuditRecord}, t.requests = s.requests → s.requests[j]? = some r →
      phase.writing? = none → (t.setPhase j r phase records).writer i = some x →
      s.writer i = some x := by
    intro t j r phase records ht hr hphase hx
    rw [ServiceState.writer, view_setPhase _ (by rw [ht]; exact hr)] at hx
    by_cases hij : i = j
    · subst hij
      rw [Function.update_self, hphase] at hx
      cases hx
    · rw [Function.update_of_ne hij, ServiceState.view, ht] at hx
      exact hx
  cases h with
  | idle | oauth => exact Or.inl hx
  | received =>
    rw [ServiceState.writer, view_receive rfl] at hx
    exact Or.inl hx
  | authenticated hr _ _ | unauthorized hr _ _ | read hr _ _ _ | completed hr _ =>
    exact Or.inl (hset rfl hr rfl hx)
  | @admitted i r now subject rateLimiter hr _ _ =>
    exact Or.inl (hset (t := { s with rateLimiter }) rfl hr rfl hx)
  | @rateLimited i r now subject rateLimiter hr _ _ =>
    exact Or.inl (hset (t := { s with rateLimiter }) rfl hr rfl hx)
  | refused _ _ hinbox | begun _ _ hinbox | advanced _ _ hinbox | returned _ _ hinbox =>
    exact Or.inr ⟨_, hinbox⟩

/-- The inbox stays. -/
theorem ServiceMove.inbox {s s' : ServiceState} {e : ServiceEvent} (h : ServiceMove W A s e s')
    {inbox : InboxSupport} (hinbox : s.server.inbox = some inbox) :
    ∃ inbox', s'.server.inbox = some inbox' := by
  rcases h.notes with hsame | ⟨inbox', event, -, hnext, -⟩
  · exact ⟨inbox, by rw [hsame]; exact hinbox⟩
  · exact ⟨_, by rw [hnext]; rfl⟩

/-- Without an inbox nothing is written. -/
theorem exists_inbox_of_writer {s₀ s : ServiceState} {h : List ServiceLabel} (h0 : Starts s₀)
    (hr : ServiceRun W A before s₀ h s) {i : Nat} {x : AuditContext × Nat × Nat}
    (hx : s.writer i = some x) : ∃ inbox, s.server.inbox = some inbox := by
  refine Steps.invariant (P := fun _ s => ∀ i x, s.writer i = some x →
    ∃ inbox, s.server.inbox = some inbox) ?_ ?_ hr i x hx
  · rintro h s l s' hinv ⟨rfl, -, -⟩ i x hx
    have hmove := serviceMove_step (W := W) (A := A) s l.event
    have hinbox : ∃ inbox, s.server.inbox = some inbox :=
      (hmove.writer hx).elim (hinv i x) id
    exact hmove.inbox hinbox.choose_spec
  · intro i x hx
    rw [ServiceState.writer, ServiceState.view, h0.requests] at hx
    cases hx

/-- How many steps the request `i` has left, at most, if it writes a note. -/
def ServiceState.todo (s : ServiceState) (i : Nat) : Nat :=
  match s.writer i, s.server.inbox with
  | some (_, _, call), some inbox => inbox.notes.inbox.left call + 1
  | _, _ => 0

/-- An event is a step of the call that the request `i` makes. -/
def ServiceEvent.advances (i : Nat) : ServiceEvent → Bool
  | .advance j _ => i == j
  | _ => false

section

variable {s s' : ServiceState} {inbox inbox' : InboxSupport} {i : Nat}

theorem todo_eq {context : AuditContext} {attempted call : Nat}
    (hi : s.writer i = some (context, attempted, call)) (hinbox : s.server.inbox = some inbox) :
    s.todo i = inbox.notes.inbox.left call + 1 := by
  simp only [ServiceState.todo, hi, hinbox]

theorem todo_eq_zero (hi : s.writer i = none) : s.todo i = 0 := by
  simp only [ServiceState.todo, hi]

/-- A request that has begun gets no more to do. -/
theorem NoteMove.todo_le (h : NoteMove W s s' inbox) {owner : Nat → Nat}
    (hinv : NotesInv W s inbox owner) (hinbox : s.server.inbox = some inbox)
    {x : HttpRequest × AuditContext} (hx : s.began i = some x) : s'.todo i ≤ s.todo i := by
  -- the writer stays, and its call gets no more to do
  have hsame : ∀ {notes : NoteServer}, s'.server.inbox = some ⟨inbox.store, notes⟩ →
      s'.writer i = s.writer i → (∀ call, call < inbox.notes.inbox.calls.length →
        notes.inbox.left call ≤ inbox.notes.inbox.left call) → s'.todo i ≤ s.todo i := by
    intro notes hinbox' hwriter hleft
    cases hw : s.writer i with
    | none =>
      rw [todo_eq_zero (hwriter.trans hw)]
      exact Nat.zero_le _
    | some y =>
      obtain ⟨context, attempted, call⟩ := y
      obtain ⟨-, _, _, hcall, -⟩ := hinv.writer i context attempted call hw
      rw [todo_eq hw hinbox, todo_eq (hwriter.trans hw) hinbox']
      exact Nat.succ_le_succ (hleft call (List.getElem?_eq_some_iff.mp hcall).1)
  cases h with
  | quiet hinbox' hnotes hwriter =>
    refine hsame hinbox' (by rw [hwriter]) fun call _ => ?_
    rw [hnotes]
  | @begun j _ _ _ _ _ hwaiting _ _ _ hinbox' hnotes hwriter =>
    have hne : i ≠ j := by
      rintro rfl
      rw [hwaiting] at hx
      cases hx
    refine hsame hinbox' (by rw [hwriter, Function.update_of_ne hne]) fun call hcall => ?_
    rw [hnotes]
    exact (left_step hcall _).1
  | advanced _ hinbox' hnotes hwriter =>
    refine hsame hinbox' (by rw [hwriter]) fun call hcall => ?_
    rw [hnotes]
    exact (left_step hcall _).1
  | @returned j _ _ _ _ _ _ _ _ _ hinbox' hwriter =>
    by_cases hne : i = j
    · subst hne
      rw [todo_eq_zero (by rw [hwriter, Function.update_self])]
      exact Nat.zero_le _
    · exact hsame hinbox' (by rw [hwriter, Function.update_of_ne hne]) fun _ _ => le_rfl

/-- A step of its own call leaves a request less to do. -/
theorem todo_advance_le (faults : Faults) {owner : Nat → Nat}
    (hinv : NotesInv W s inbox owner) (hinbox : s.server.inbox = some inbox) :
    (s.step W A (.advance i faults)).1.todo i ≤ s.todo i - 1 := by
  unfold ServiceState.step
  simp only
  split
  · next r hr =>
    have hwriter : s.writer i = r.phase.writing? := view_eq _ hr
    split
    · next context attempted call hphase =>
      rw [hphase] at hwriter
      obtain ⟨-, request, noteCall, hcall, -⟩ := hinv.writer i context attempted call hwriter
      rw [todo_eq hwriter hinbox, Nat.add_sub_cancel]
      unfold ServiceState.advance
      simp only [hinbox]
      split
      · next result hresult =>
        refine (todo_eq_zero ?_).trans_le (Nat.zero_le _)
        rw [ServiceState.writer, view_setPhase _ hr, Function.update_self]
        rfl
      · next hnone =>
        -- the call has not returned, so it had a step left
        have hpos : inbox.notes.inbox.left call ≠ 0 := by
          intro hzero
          rw [InboxState.left_eq hcall] at hzero
          obtain ⟨result, hresult⟩ := NoteCall.exists_result_of_left hzero
          rw [hcall, Option.bind_some, hresult] at hnone
          cases hnone
        have hleft : (inbox.notes.inbox.step W.toYaml inbox.store
            (.advance call faults)).left call ≤ inbox.notes.inbox.left call - 1 :=
          (left_step (List.getElem?_eq_some_iff.mp hcall).1 _).2 (beq_self_eq_true call)
        have hwriter' : (s.withNotes inbox (inbox.notes.step W.toYaml inbox.store
            (.advance call faults))).writer i = some (context, attempted, call) := hwriter
        have hstep : (inbox.notes.step W.toYaml inbox.store (.advance call faults)).inbox
            = inbox.notes.inbox.step W.toYaml inbox.store (.advance call faults) := rfl
        rw [todo_eq hwriter' rfl, hstep]
        omega
    · next hphase =>
      have hnone : s.writer i = none := by
        rw [hwriter]
        refine Option.eq_none_iff_forall_not_mem.mpr fun x hx => ?_
        exact hphase x.1 x.2.1 x.2.2 (Phase.writing?_eq_some.mp hx)
      rw [todo_eq_zero hnone]
  · next hr =>
    have hnone : s.writer i = none := by rw [ServiceState.writer, ServiceState.view, hr]; rfl
    rw [todo_eq_zero hnone]

/-- What a request that has begun is served with. -/
theorem NoteMove.began (h : NoteMove W s s' inbox) {x : HttpRequest × AuditContext}
    (hx : s.began i = some x) : s'.began i = some x := by
  cases h with
  | quiet _ _ _ hbegan => exact hbegan i x hx
  | @begun j _ _ _ _ _ hwaiting _ _ _ _ _ _ hbegan =>
    have hne : i ≠ j := by
      rintro rfl
      rw [hwaiting] at hx
      cases hx
    rw [hbegan, Function.update_of_ne hne]
    exact hx
  | advanced _ _ _ _ hbegan | returned _ _ _ _ _ hbegan =>
    rw [hbegan]
    exact hx

end

/--
**A request for a note is answered after 67 steps of its own**: the scan, at most 64 creates, the
write, and the return of the call.

No other request can hold it up, neither one that writes a note itself nor one whose client has
gone away in the middle of a call.
-/
theorem append_note_answers (D : Service W K) {h more : List ServiceLabel} {t s : ServiceState}
    (ht : D.RunsTo h t) (hr : Steps (ServiceStep W D.app D.before) h t (h ++ more) s) {i : Nat}
    {r : ServiceRequest} {context : AuditContext} {attempted call : Nat}
    (hi : t.requests[i]? = some r) (hphase : r.phase = .writing context attempted call)
    (hown : maxNameAttempts + 3 ≤ more.countP (·.event.advances i)) :
    ∃ r' response, s.requests[i]? = some r' ∧ r'.request = r.request ∧
      (r'.phase = .answered context response ∨ r'.phase = .served context response) := by
  have hwriter : t.writer i = some (context, attempted, call) := by
    rw [ServiceState.writer, view_eq _ hi, hphase]
    rfl
  have hbegan : t.began i = some (r.request, context) := by
    rw [ServiceState.began, view_eq _ hi, hphase]
    rfl
  obtain ⟨inbox, hinbox⟩ := exists_inbox_of_writer D.starts ht hwriter
  -- what is left of the request counts down to nothing
  obtain ⟨⟨hrun, hbegan', hinbox'⟩, post, hpost, htodo⟩ := Steps.countdown
    (P := fun h s => D.RunsTo h s ∧ s.began i = some (r.request, context) ∧
      ∃ inbox, s.server.inbox = some inbox)
    (μ := fun s => s.todo i) (p := fun l : ServiceLabel => l.event.advances i) (by
      rintro h s l s' ⟨hrun, hbegan, inbox, hinbox⟩ hstep
      obtain ⟨owner, hinv⟩ := notesInv_run D.starts hrun hinbox
      have hnext := hrun.tail hstep
      obtain ⟨rfl, -, -⟩ := hstep
      have hmove := serviceMove_step (W := W) (A := D.app) s l.event
      have hnote := noteMove_of_serviceMove hmove hinbox
      refine ⟨⟨hnext, hnote.began hbegan, hmove.inbox hinbox⟩, hnote.todo_le hinv hinbox hbegan,
        fun hown => ?_⟩
      obtain ⟨event, _⟩ := l
      cases event with
      | advance j faults =>
        obtain rfl : i = j := beq_iff_eq.mp hown
        exact todo_advance_le faults hinv hinbox
      | oauth | receive | authenticate | checkRate | dispatch | complete => cases hown)
    ⟨ht, hbegan, inbox, hinbox⟩ hr
  obtain rfl := List.append_cancel_left hpost
  have hzero : s.todo i = 0 := by
    obtain ⟨events, hevents⟩ := D.exists_inbox_run ht hinbox
    have hle := left_le_of_run rfl hevents call
    have hstart : t.todo i = inbox.notes.inbox.left call + 1 := todo_eq hwriter hinbox
    omega
  obtain ⟨r', hr', hrequest, hphase'⟩ := exists_request_of_began hbegan'
  obtain ⟨inbox', hinbox'⟩ := hinbox'
  have hview : s.writer i = r'.phase.writing? := view_eq _ hr'
  cases hp : r'.phase with
  | writing c a n =>
    rw [hp] at hview
    rw [todo_eq hview hinbox'] at hzero
    cases hzero
  | answered c response =>
    rw [hp] at hphase'
    cases hphase'
    exact ⟨r', response, hr', hrequest, Or.inl hp⟩
  | served c response =>
    rw [hp] at hphase'
    cases hphase'
    exact ⟨r', response, hr', hrequest, Or.inr hp⟩
  | received | authenticated | admitted | rejected =>
    rw [hp] at hphase'
    cases hphase'

section

open Sample

/-- The owner's request is answered, when only its own call goes on. -/
theorem append_note_answers_note : ∃ (s : ServiceState) (r : ServiceRequest)
    (context : AuditContext) (response : HttpResponse), s.requests[0]? = some r ∧
    (r.phase = .answered context response ∨ r.phase = .served context response) := by
  obtain ⟨⟨context, attempted, call⟩, hwriter⟩ :=
    Option.isSome_iff_exists.mp noteState_facts.2.2.2.2.1
  obtain ⟨r, hr, hwriting⟩ := Option.bind_eq_some_iff.mp hwriter
  have hphase := Phase.writing?_eq_some.mp hwriting
  let own : List ServiceEvent := List.replicate 67 (.advance 0 Faults.none)
  have hquiet : begunState.quiet serviceCrates app own = true := by decide +kernel
  have hown : maxNameAttempts + 3
      ≤ (own.map fun e => (⟨e, none⟩ : ServiceLabel)).countP (·.event.advances 0) := by
    decide +kernel
  let begun : List ServiceLabel := (noteEvents.take 4).map (⟨·, none⟩)
  obtain ⟨s, hrun⟩ : ∃ s, Steps (ServiceStep serviceCrates service.app service.before) begun
      begunState (begun ++ own.map (⟨·, none⟩)) s := by
    rw [service_app]
    exact ⟨_, steps_of_quiet own .refl hquiet⟩
  obtain ⟨r', response, hr', -, hanswer⟩ :=
    append_note_answers service run_begun hrun hr hphase hown
  exact ⟨_, r', context, response, hr', hanswer⟩

end

end EngramMcp
