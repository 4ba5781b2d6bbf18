import EngramMcp.Http.Reference

/-!
# The lines of a request

The audit log is written by requests that are served side by side. Its lines are told apart by
their numbers: those of one request are what its middleware wrote, in this order, and every line
is one of some request.

* `ServiceRequest.Lines` — what the phase of a request says about its lines
* `audit_trail` — the property
-/

namespace EngramMcp

open Infra ServiceState

variable {W : ServiceCrates} {K : ConfigCrates} {A : App} {before : List ServerEvent}

/-- The line of a tool, if it wrote one. Only the private scope writes about notes. -/
def ToolLines (context : AuditContext) (records : List AuditRecord) : Prop :=
  records.length ≤ 1 ∧ ∀ record ∈ records,
    (∃ operation outcome id, record = .tool context operation outcome id) ∨
      context.scope = .private ∧
        ∃ outcome id bytes, record = .toolWrite context "append_note" outcome id bytes

/-- The lines of a request that has come to a phase. -/
def ServiceRequest.Lines (r : ServiceRequest) (records : List AuditRecord) : Prop :=
  match r.phase with
  | .received | .authenticated _ | .admitted _ => records = []
  | .writing context _ _ => context.scope = .private ∧ records = []
  | .answered context _ => ToolLines context records
  | .served context response => ∃ tool, ToolLines context tool ∧
    records = tool ++ [.completed context r.request.method r.request.path response.status
      (contentLength response)]
  | .rejected response => ∃ outcome,
    ((response.status = 401 ∧ outcome = "unauthorized") ∨
      (response.status = 429 ∧ outcome = "rate_limited")) ∧
    records = [.rejected r.id r.request.method r.request.path response.status outcome]

/-! ## One step -/

/-- What a step writes, and about which request. -/
inductive LineMove (s s' : ServiceState) : Prop
  | quiet : s'.requests = s.requests → s'.auditLog = s.auditLog →
      s'.requestCounter = s.requestCounter → LineMove s s'
  | received {request : HttpRequest} :
      s'.requests = s.requests ++ [⟨request, s.requestCounter + 1, .received⟩] →
      s'.auditLog = s.auditLog → s'.requestCounter = s.requestCounter + 1 → LineMove s s'
  | wrote {i : Nat} {r : ServiceRequest} {phase : Phase} {records : List AuditRecord} :
      s.requests[i]? = some r → s'.requests = s.requests.set i { r with phase } →
      s'.auditLog = s.auditLog ++ records → s'.requestCounter = s.requestCounter →
      (∀ record ∈ records, record.requestId = r.id) →
      (∀ lines, r.Lines lines → ({ r with phase } : ServiceRequest).Lines (lines ++ records)) →
      LineMove s s'

theorem finishNote_line (store : InboxStore) (context : AuditContext) (attempted : Nat)
    (result : Except InboxError CreatedNote) : ∃ outcome id bytes,
      (KnowledgeBaseServer.finishNote store context attempted result).1
        = .toolWrite context "append_note" outcome id bytes := by
  cases result with
  | ok note => exact ⟨"ok", some note.id, note.bytes, rfl⟩
  | error e => cases e <;> exact ⟨_, none, attempted, rfl⟩

theorem status_unauthorizedMcpResponse (S : OAuthSettings) :
    (unauthorizedMcpResponse S).status = 401 := by
  unfold unauthorizedMcpResponse
  dsimp only
  split <;> rfl

theorem lineMove_of_serviceMove {s s' : ServiceState} {e : ServiceEvent}
    (hcontext : ∀ (i : Nat) (r : ServiceRequest) (context : AuditContext),
      s.requests[i]? = some r → r.phase.context? = some context → context.requestId = r.id)
    (h : ServiceMove W A s e s') : LineMove s s' := by
  -- no line is written, and none was there
  have hnone : ∀ {i : Nat} {r : ServiceRequest} {phase : Phase}, s.requests[i]? = some r →
      s'.requests = s.requests.set i { r with phase } → s'.auditLog = s.auditLog ++ [] →
      s'.requestCounter = s.requestCounter →
      (∀ lines, r.Lines lines → ({ r with phase } : ServiceRequest).Lines lines) →
      LineMove s s' := fun hr hs hlog hcounter hlines =>
    .wrote hr hs hlog hcounter (fun _ hm => absurd hm List.not_mem_nil)
      fun lines hl => by rw [List.append_nil]; exact hlines lines hl
  cases h with
  | idle | oauth => exact .quiet rfl rfl rfl
  | advanced => exact .quiet rfl rfl rfl
  | received => exact .received rfl rfl rfl
  | authenticated hr hphase _ =>
    refine hnone hr rfl rfl rfl fun lines hl => ?_
    rw [ServiceRequest.Lines, hphase] at hl
    exact hl
  | admitted hr hphase _ =>
    refine hnone hr rfl rfl rfl fun lines hl => ?_
    rw [ServiceRequest.Lines, hphase] at hl
    exact hl
  | unauthorized hr hphase _ =>
    refine .wrote hr rfl rfl rfl (fun _ hm => by rw [List.mem_singleton.mp hm]; rfl)
      fun lines hl => ?_
    rw [ServiceRequest.Lines, hphase] at hl
    subst hl
    refine ⟨"unauthorized", Or.inl ⟨status_unauthorizedMcpResponse _, rfl⟩, ?_⟩
    rw [status_unauthorizedMcpResponse]
    rfl
  | rateLimited hr hphase _ =>
    refine .wrote hr rfl rfl rfl (fun _ hm => by rw [List.mem_singleton.mp hm]; rfl)
      fun lines hl => ?_
    rw [ServiceRequest.Lines, hphase] at hl
    subst hl
    exact ⟨"rate_limited", Or.inr ⟨rfl, rfl⟩, rfl⟩
  | @read i r context _ records _ hr hphase hlen hrecords =>
    refine .wrote hr rfl rfl rfl (fun record hm => ?_) fun lines hl => ?_
    · obtain ⟨_, _, _, rfl⟩ := hrecords record hm
      exact hcontext i r context hr (by rw [hphase]; rfl)
    · rw [ServiceRequest.Lines, hphase] at hl
      subst hl
      exact ⟨hlen, fun record hm => Or.inl (hrecords record hm)⟩
  | @refused i r context _ _ _ attempted _ hr hphase _ hprivate _ =>
    refine .wrote hr rfl rfl rfl (fun record hm => ?_) fun lines hl => ?_
    · rw [List.mem_singleton.mp hm]
      exact hcontext i r context hr (by rw [hphase]; rfl)
    · rw [ServiceRequest.Lines, hphase] at hl
      subst hl
      refine ⟨le_rfl, fun record hm => Or.inr ⟨hprivate, "rate_limited", none, attempted, ?_⟩⟩
      exact List.mem_singleton.mp hm
  | @begun i r context _ _ _ _ hr hphase _ hprivate =>
    refine hnone hr rfl rfl rfl fun lines hl => ?_
    rw [ServiceRequest.Lines, hphase] at hl
    exact ⟨hprivate, hl⟩
  | @returned i r context attempted _ _ inbox _ _ result hr hphase =>
    obtain ⟨outcome, id, bytes, hline⟩ := finishNote_line inbox.store context attempted result
    refine .wrote hr rfl rfl rfl (fun record hm => ?_) fun lines hl => ?_
    · rw [List.mem_singleton.mp hm, hline]
      exact hcontext i r context hr (by rw [hphase]; rfl)
    · rw [ServiceRequest.Lines, hphase] at hl
      obtain ⟨hprivate, rfl⟩ := hl
      refine ⟨le_rfl, fun record hm => Or.inr ⟨hprivate, outcome, id, bytes, ?_⟩⟩
      rw [List.mem_singleton.mp hm, hline]
  | @completed i r context response hr hphase =>
    refine .wrote hr rfl rfl rfl (fun record hm => ?_) fun lines hl => ?_
    · rw [List.mem_singleton.mp hm]
      exact hcontext i r context hr (by rw [hphase]; rfl)
    · rw [ServiceRequest.Lines, hphase] at hl
      exact ⟨lines, hl, rfl⟩

/-! ## The invariant -/

/-- The numbers of the requests, and their lines. -/
structure AuditInv (s : ServiceState) : Prop where
  counter : s.requestCounter.toNat = s.requests.length
  id : ∀ (i : Nat) (r : ServiceRequest), s.requests[i]? = some r → r.id.toNat = i + 1
  lines : ∀ (i : Nat) (r : ServiceRequest), s.requests[i]? = some r →
    r.Lines (s.auditLog.filter fun record => record.requestId = r.id)
  known : ∀ record ∈ s.auditLog, ∃ (i : Nat) (r : ServiceRequest), s.requests[i]? = some r ∧
    record.requestId = r.id

theorem AuditInv.eq_of_id_eq {s : ServiceState} (h : AuditInv s) {i j : Nat}
    {r r' : ServiceRequest} (hr : s.requests[i]? = some r) (hr' : s.requests[j]? = some r')
    (hid : r.id = r'.id) : i = j := by
  have hi := h.id i r hr
  have hj := h.id j r' hr'
  rw [hid] at hi
  omega

/-- A request arrives while there are fewer than `2 ^ 64`. -/
theorem AuditInv.receive {s s' : ServiceState} (h : AuditInv s) {request : HttpRequest}
    (hlt : s.requests.length + 1 < 2 ^ 64)
    (hrequests : s'.requests = s.requests ++ [⟨request, s.requestCounter + 1, .received⟩])
    (hlog : s'.auditLog = s.auditLog) (hcounter : s'.requestCounter = s.requestCounter + 1) :
    AuditInv s' := by
  have hnext : (s.requestCounter + 1).toNat = s.requests.length + 1 := by
    rw [UInt64.toNat_add, h.counter]
    exact Nat.mod_eq_of_lt hlt
  have hcases : ∀ {i : Nat} {r : ServiceRequest}, s'.requests[i]? = some r →
      s.requests[i]? = some r ∨
        (i = s.requests.length ∧ r = ⟨request, s.requestCounter + 1, .received⟩) := by
    intro i r hr
    have hget : (s.receive request).requests[i]? = some r := by
      rw [← hr, hrequests]
      rfl
    exact getElem?_receive hget
  have hkeep : ∀ {i : Nat} {r : ServiceRequest}, s.requests[i]? = some r →
      s'.requests[i]? = some r := by
    intro i r hr
    rw [hrequests, List.getElem?_append_left (List.getElem?_eq_some_iff.mp hr).1]
    exact hr
  refine ⟨?_, fun i r hr => ?_, fun i r hr => ?_, fun record hmem => ?_⟩
  · rw [hcounter, hnext, hrequests, List.length_append, List.length_singleton]
  · rcases hcases hr with hr | ⟨rfl, rfl⟩
    · exact h.id i r hr
    · exact hnext
  · rw [hlog]
    rcases hcases hr with hr | ⟨rfl, rfl⟩
    · exact h.lines i r hr
    · -- no line has the new number
      refine List.filter_eq_nil_iff.mpr fun record hmem heq => ?_
      obtain ⟨j, r', hr', hid⟩ := h.known record hmem
      have hj := h.id j r' hr'
      rw [← hid, of_decide_eq_true heq, hnext] at hj
      have hlt' := (List.getElem?_eq_some_iff.mp hr').1
      omega
  · rw [hlog] at hmem
    obtain ⟨i, r, hr, hid⟩ := h.known record hmem
    exact ⟨i, r, hkeep hr, hid⟩

/-- A request writes its lines. -/
theorem AuditInv.write {s s' : ServiceState} (h : AuditInv s) {i : Nat} {r : ServiceRequest}
    {phase : Phase} {records : List AuditRecord} (hr : s.requests[i]? = some r)
    (hrequests : s'.requests = s.requests.set i { r with phase })
    (hlog : s'.auditLog = s.auditLog ++ records) (hcounter : s'.requestCounter = s.requestCounter)
    (hids : ∀ record ∈ records, record.requestId = r.id)
    (hlines : ∀ lines, r.Lines lines →
      ({ r with phase } : ServiceRequest).Lines (lines ++ records)) : AuditInv s' := by
  have hget : ∀ j, s'.requests[j]?
      = if j = i then some { r with phase } else s.requests[j]? := by
    intro j
    rw [hrequests]
    exact getElem?_setPhase hr phase [] j
  refine ⟨?_, fun j r' hr' => ?_, fun j r' hr' => ?_, fun record hmem => ?_⟩
  · rw [hcounter, hrequests, List.length_set]
    exact h.counter
  · rw [hget] at hr'
    split at hr'
    · next hj =>
      subst hj
      obtain rfl := Option.some.inj hr'
      exact h.id j r hr
    · exact h.id j r' hr'
  · rw [hlog, List.filter_append]
    rw [hget] at hr'
    split at hr'
    · next hj =>
      subst hj
      obtain rfl := Option.some.inj hr'
      rw [List.filter_eq_self.mpr fun record hm => decide_eq_true (hids record hm)]
      exact hlines _ (h.lines j r hr)
    · next hj =>
      -- the lines of the other requests stay
      have hne : r.id ≠ r'.id := fun he => hj (h.eq_of_id_eq hr hr' he).symm
      have hnil : (records.filter fun record => record.requestId = r'.id) = [] :=
        List.filter_eq_nil_iff.mpr fun record hm heq =>
          hne ((hids record hm).symm.trans (of_decide_eq_true heq))
      rw [hnil, List.append_nil]
      exact h.lines j r' hr'
  · rw [hlog] at hmem
    rcases List.mem_append.mp hmem with hmem | hmem
    · obtain ⟨j, r', hr', hid⟩ := h.known record hmem
      by_cases hj : j = i
      · subst hj
        obtain rfl := Option.some.inj (hr.symm.trans hr')
        exact ⟨j, { r with phase }, by rw [hget, if_pos rfl], hid⟩
      · exact ⟨j, r', by rw [hget, if_neg hj]; exact hr', hid⟩
    · exact ⟨i, { r with phase }, by rw [hget, if_pos rfl], hids record hmem⟩

theorem LineMove.length_le {s s' : ServiceState} (h : LineMove s s') :
    s.requests.length ≤ s'.requests.length := by
  cases h with
  | quiet hrequests => rw [hrequests]
  | received hrequests => rw [hrequests, List.length_append]; omega
  | wrote _ hrequests => rw [hrequests, List.length_set]

theorem auditInv_move {s s' : ServiceState} (h : AuditInv s) (hmove : LineMove s s')
    (hlt : s'.requests.length < 2 ^ 64) : AuditInv s' := by
  cases hmove with
  | quiet hrequests hlog hcounter =>
    obtain ⟨hcount, hid, hlines, hknown⟩ := h
    rw [← hcounter, ← hrequests] at hcount
    rw [← hrequests] at hid hlines hknown
    rw [← hlog] at hlines hknown
    exact ⟨hcount, hid, hlines, hknown⟩
  | received hrequests hlog hcounter =>
    refine h.receive ?_ hrequests hlog hcounter
    rw [hrequests, List.length_append, List.length_singleton] at hlt
    exact hlt
  | wrote hr hrequests hlog hcounter hids hlines =>
    exact h.write hr hrequests hlog hcounter hids hlines

/-! ## The property -/

/--
**Every line has its request, and every request its lines.**

As long as the counter of the requests does not run over, the requests are numbered from one on.
The length in the last line of a request is what the `Content-Length` of its response says, and 0
without one.
-/
theorem audit_trail (D : Service W K) {h : List ServiceLabel} {s : ServiceState}
    (hr : D.RunsTo h s) (hlt : s.requests.length < 2 ^ 64) :
    (∀ (i : Nat) (r : ServiceRequest), s.requests[i]? = some r → r.id.toNat = i + 1 ∧
      r.Lines (s.auditLog.filter fun record => record.requestId = r.id)) ∧
    ∀ record ∈ s.auditLog, ∃ (i : Nat) (r : ServiceRequest), s.requests[i]? = some r ∧
      record.requestId = r.id := by
  have hinv : AuditInv s := by
    refine (Steps.invariant (P := fun h s => D.RunsTo h s ∧
      (s.requests.length < 2 ^ 64 → AuditInv s)) ?_ ⟨.refl, fun _ => ?_⟩ hr).2 hlt
    · rintro h s l s' ⟨hrun, hinv⟩ hstep
      refine ⟨hrun.tail hstep, fun hlt' => ?_⟩
      obtain ⟨rfl, -, -⟩ := hstep
      have hmove : LineMove s (s.step W D.app l.event).1 :=
        lineMove_of_serviceMove (fun i r context hr hphase =>
          ((D.inv_of_run hrun).context i r context hr hphase).1) (serviceMove_step s l.event)
      exact auditInv_move (hinv (hmove.length_le.trans_lt hlt')) hmove hlt'
    · obtain ⟨_, _, -, -, hstart⟩ := D.start_eq
      have hlog := D.starts.auditLog
      have hrequests := D.starts.requests
      refine ⟨?_, fun i r hr => ?_, fun i r hr => ?_, fun record hm => ?_⟩
      · rw [hstart]
        rfl
      · rw [hrequests] at hr
        cases hr
      · rw [hrequests] at hr
        cases hr
      · rw [hlog] at hm
        exact absurd hm List.not_mem_nil
  exact ⟨fun i r hr => ⟨hinv.id i r hr, hinv.lines i r hr⟩, hinv.known⟩

section

open Sample

/-- The lines of the request that filed a note. -/
theorem audit_trail_note : ∃ r, noteState.requests[0]? = some r ∧ r.id.toNat = 1 ∧
    r.Lines (noteState.auditLog.filter fun record => record.requestId = r.id) := by
  have hlen := noteState_facts.1
  obtain ⟨r, hrequests⟩ := List.length_eq_one_iff.mp hlen
  have hget : noteState.requests[0]? = some r := by
    rw [hrequests]
    rfl
  have hlt : noteState.requests.length < 2 ^ 64 := by
    rw [hlen]
    decide
  obtain ⟨hid, hlines⟩ := (audit_trail service run_noteEvents hlt).1 0 r hget
  exact ⟨r, hget, hid, hlines⟩

end

end EngramMcp
