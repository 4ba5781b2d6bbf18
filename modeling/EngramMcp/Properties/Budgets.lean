import EngramMcp.Properties.Accountability
import EngramMcp.Properties.HourlyBudget
import EngramMcp.Properties.RateLimits
import Mathlib.Data.Finset.Card

/-!
# What the limits mean for a whole service

Requests are served side by side, and each asks the rate limiter once. So the bound of a bucket is
one on the requests that a credential gets served, whatever else is under way; and that of the
write limiter is one on the notes that an inbox gets.

The readings of the clocks have to come in order: a reading that is late is credited twice. The
tokens of a bucket are rational numbers here, where the source counts them in `f64`.

* `rate_budget` — the requests of a credential in any window
* `note_budget` — the notes in any hour
-/

namespace EngramMcp

open Infra ServiceState InboxStore

variable {W : ServiceCrates} {K : ConfigCrates} {A : App}

/-! ## Sequences of calls -/

namespace RateLimiter

/-- The limiter after a sequence of calls. -/
def after (limiter : RateLimiter) (calls : List Call) : RateLimiter :=
  calls.foldl (fun limiter call => (limiter.check call.subject call.now).1) limiter

theorem after_concat (limiter : RateLimiter) (calls : List Call) (call : Call) :
    limiter.after (calls ++ [call])
      = ((limiter.after calls).check call.subject call.now).1 := by
  rw [after, List.foldl_append, List.foldl_cons, List.foldl_nil, after]

theorem decisions_concat (limiter : RateLimiter) (calls : List Call) (call : Call) :
    limiter.decisions (calls ++ [call]) = limiter.decisions calls
      ++ [(call, ((limiter.after calls).check call.subject call.now).2)] := by
  induction calls generalizing limiter with
  | nil => rfl
  | cons first rest ih =>
    rw [List.cons_append, decisions, ih, decisions]
    rfl

end RateLimiter

namespace WriteRateLimiter

/-- The limiter after a sequence of calls. -/
def after (limiter : WriteRateLimiter) (times : List ℚ) : WriteRateLimiter :=
  times.foldl (fun limiter now => (limiter.check now).1) limiter

theorem after_concat (limiter : WriteRateLimiter) (times : List ℚ) (now : ℚ) :
    limiter.after (times ++ [now]) = ((limiter.after times).check now).1 := by
  rw [after, List.foldl_append, List.foldl_cons, List.foldl_nil, after]

theorem admitted_concat (limiter : WriteRateLimiter) (times : List ℚ) (now : ℚ) :
    limiter.admitted (times ++ [now]) = limiter.admitted times
      ++ if ((limiter.after times).check now).2.isOk then [now] else [] := by
  induction times generalizing limiter with
  | nil =>
    rw [List.nil_append, admitted_cons]
    exact List.append_nil _
  | cons first rest ih =>
    rw [List.cons_append, admitted_cons, ih, admitted_cons, List.append_assoc]
    rfl

end WriteRateLimiter

/-! ## What is seen of a run -/

namespace Service

variable {D : Service W K} {h : List ServiceLabel} {s : ServiceState}

/-- What is seen of a run of the service. -/
def trace {β : Type} (D : Service W K) (obs : ServiceState → ServiceEvent → Option β)
    (h : List ServiceLabel) : List β :=
  Infra.trace (fun s e => (s.step W D.app e).1) obs D.start (h.map ServiceLabel.event)

/-- The next state is a function of the event. -/
theorem eq_foldl (hr : D.RunsTo h s) :
    s = (h.map ServiceLabel.event).foldl (fun s e => (s.step W D.app e).1) D.start := by
  refine Steps.invariant (P := fun h s =>
    s = (h.map ServiceLabel.event).foldl (fun s e => (s.step W D.app e).1) D.start) ?_ rfl hr
  rintro h s l s' hs ⟨rfl, -, -⟩
  rw [List.map_append, List.foldl_append, ← hs]
  rfl

theorem trace_concat {β : Type} (obs : ServiceState → ServiceEvent → Option β)
    (hr : D.RunsTo h s) (l : ServiceLabel) :
    D.trace obs (h ++ [l]) = D.trace obs h ++ (obs s l.event).toList := by
  rw [trace, List.map_append, List.map_singleton, Infra.trace_concat, ← eq_foldl hr, trace]

/-- **A rule for what is seen of a run**, together with the state that it leads to. -/
theorem trace_induction {β : Type} {obs : ServiceState → ServiceEvent → Option β}
    {P : List ServiceLabel → List β → ServiceState → Prop} (hstart : P [] [] D.start)
    (hstep : ∀ h seen s l, D.RunsTo h s → P h seen s →
      P (h ++ [l]) (seen ++ (obs s l.event).toList) (s.step W D.app l.event).1)
    (hr : D.RunsTo h s) : P h (D.trace obs h) s := by
  refine (Steps.invariant (P := fun h s => D.RunsTo h s ∧ P h (D.trace obs h) s) ?_
    ⟨.refl, hstart⟩ hr).2
  rintro h s l s' ⟨hrun, hP⟩ hlabel
  refine ⟨hrun.tail hlabel, ?_⟩
  obtain ⟨rfl, -, -⟩ := hlabel
  rw [trace_concat obs hrun]
  exact hstep h _ s l hrun hP

end Service

/-! ## Requests -/

/-- The request that a step lets through the rate limit, with its call of the limiter. -/
def ServiceState.admission (s : ServiceState) : ServiceEvent → Option (Nat × RateLimiter.Call)
  | .checkRate i now =>
    match s.requests[i]? with
    | some r =>
      match r.phase with
      | .authenticated subject =>
        if (s.rateLimiter.check subject now).2.isOk then some (i, ⟨subject, now⟩) else none
      | _ => none
    | none => none
  | _ => none

/-- The requests that were let through, each with its call of the limiter. -/
def Service.admissions (D : Service W K) (h : List ServiceLabel) : List (Nat × RateLimiter.Call) :=
  D.trace ServiceState.admission h

/-- The reading of the clock that a call of the rate limiter brings. -/
def ServiceEvent.rateReading : ServiceEvent → Option ℚ
  | .checkRate _ now => some now
  | _ => none

/-- The readings in a history. -/
def rateReadings (h : List ServiceLabel) : List ℚ := h.filterMap fun l => l.event.rateReading

/-- A request that is let through was waiting for it. -/
theorem admission_eq_some {s : ServiceState} {e : ServiceEvent} {i : Nat} {call : RateLimiter.Call}
    (h : s.admission e = some (i, call)) : ∃ r, s.requests[i]? = some r ∧
      r.phase = .authenticated call.subject ∧ e = .checkRate i call.now ∧
      (s.rateLimiter.check call.subject call.now).2 = .ok () := by
  unfold ServiceState.admission at h
  split at h
  · next j now =>
    split at h
    · next r hr =>
      split at h
      · next subject hphase =>
        rcases hcheck : s.rateLimiter.check subject now with ⟨rateLimiter, ⟨⟨⟩⟩ | ⟨⟨⟩⟩⟩
        · rw [hcheck] at h
          cases h
        · rw [hcheck] at h
          obtain ⟨rfl, rfl⟩ := Prod.mk.inj (Option.some.inj h)
          exact ⟨r, hr, hphase, rfl, by rw [hcheck]⟩
      · cases h
    · cases h
  · cases h

theorem ServiceMove.rateLimiter_eq {s s' : ServiceState} {e : ServiceEvent}
    (h : ServiceMove W A s e s') (hne : ∀ i now, e ≠ .checkRate i now) :
    s'.rateLimiter = s.rateLimiter := by
  cases h with
  | @admitted i _ now | @rateLimited i _ now => exact absurd rfl (hne i now)
  | _ => rfl

/-- A request whose turn it is calls the limiter, and no other step does. -/
theorem rateLimiter_step (s : ServiceState) (e : ServiceEvent) :
    (∃ i now subject, e = .checkRate i now ∧
      (s.step W A e).1.rateLimiter = (s.rateLimiter.check subject now).1 ∧
      s.admission e = if (s.rateLimiter.check subject now).2.isOk then some (i, ⟨subject, now⟩)
        else none) ∨
    ((s.step W A e).1.rateLimiter = s.rateLimiter ∧ s.admission e = none) := by
  cases e with
  | checkRate i now =>
    unfold ServiceState.step ServiceState.admission
    dsimp only
    cases s.requests[i]? with
    | none => exact Or.inr ⟨rfl, rfl⟩
    | some r =>
      dsimp only
      cases r.phase with
      | authenticated subject =>
        refine Or.inl ⟨i, now, subject, rfl, ?_, rfl⟩
        unfold ServiceState.checkRate
        dsimp only
        rcases s.rateLimiter.check subject now with ⟨rateLimiter, ⟨⟨⟩⟩ | ⟨⟨⟩⟩⟩
        · rfl
        · rfl
      | received | admitted | writing | answered | served | rejected => exact Or.inr ⟨rfl, rfl⟩
  | oauth | receive | authenticate | dispatch | advance | complete =>
    refine Or.inr ⟨(serviceMove_step (W := W) (A := A) s _).rateLimiter_eq ?_, rfl⟩
    intro _ _ he
    cases he

/-- The admissions of a run, and the requests that got past the limiter. -/
structure AdmissionInv (A : App) (seen : List (Nat × RateLimiter.Call)) (s : ServiceState) :
    Prop where
  nodup : (seen.map Prod.fst).Nodup
  /-- A request that is served was let through. -/
  served : ∀ (i : Nat) (r : ServiceRequest) (context : AuditContext), s.requests[i]? = some r →
    r.phase.context? = some context →
      ∃ call, (i, call) ∈ seen ∧ context = contextOf A r call.subject
  /-- One that was let through does not wait any more. -/
  admitted : ∀ i call, (i, call) ∈ seen → ∃ (r : ServiceRequest) (context : AuditContext),
    s.requests[i]? = some r ∧ r.phase.context? = some context

/-- A step keeps the admissions and the requests together. -/
theorem admissionInv_step {seen : List (Nat × RateLimiter.Call)} {s : ServiceState}
    (h : AdmissionInv A seen s) (e : ServiceEvent) :
    AdmissionInv A (seen ++ (s.admission e).toList) (s.step W A e).1 := by
  have hmove := serviceMove_step (W := W) (A := A) s e
  refine ⟨?_, fun i r' context hr' hcontext => ?_, fun i call hmem => ?_⟩
  · rw [List.map_append]
    cases hadmission : s.admission e with
    | none =>
      rw [Option.toList_none, List.map_nil, List.append_nil]
      exact h.nodup
    | some admission =>
      obtain ⟨i, call⟩ := admission
      obtain ⟨r, hr, hphase, -, -⟩ := admission_eq_some hadmission
      refine List.nodup_append.mpr ⟨h.nodup, List.nodup_singleton _, ?_⟩
      -- the request still waits, so it has not been let through before
      intro j hj j' hj' he
      obtain rfl : j' = i := List.mem_singleton.mp hj'
      subst he
      obtain ⟨⟨_, earlier⟩, hmem, rfl⟩ := List.mem_map.mp hj
      obtain ⟨r₀, context, hr₀, hcontext⟩ := h.admitted _ _ hmem
      obtain rfl := Option.some.inj (hr.symm.trans hr₀)
      rw [hphase] at hcontext
      cases hcontext
  · rcases hmove.request hr' with ⟨-, request, rfl⟩ | ⟨r, hr, hrequest, hid, hphases⟩
    · cases hcontext
    · have hcontextOf (subject : AuthSubject) :
          contextOf A r' subject = contextOf A r subject := by
        rw [contextOf, contextOf, hid]
      have hold : r.phase.context? = some context → ∃ call,
          (i, call) ∈ seen ++ (s.admission e).toList ∧ context = contextOf A r' call.subject := by
        intro hbefore
        obtain ⟨call, hmem, hcall⟩ := h.served i r context hr hbefore
        exact ⟨call, List.mem_append_left _ hmem, hcall.trans (hcontextOf _).symm⟩
      generalize hnew : r'.phase = phase at hphases hcontext
      cases hphases with
      | same => exact hold hcontext
      | authenticated | rejected => cases hcontext
      | @admitted subject now hsubject he hcheck =>
        cases hcontext
        refine ⟨⟨subject, now⟩, List.mem_append_right _ ?_, (hcontextOf subject).symm⟩
        rw [he]
        simp only [ServiceState.admission, hr, hsubject]
        rw [hcheck]
        exact Option.mem_toList.mpr rfl
      | @served context' _ hbefore hafter =>
        rw [hcontext] at hafter
        obtain rfl := Option.some.inj hafter
        exact hold hbefore
  · rcases List.mem_append.mp hmem with hmem | hmem
    · obtain ⟨r, context, hr, hcontext⟩ := h.admitted i call hmem
      obtain ⟨r', hr', hcontext'⟩ := hmove.exists_context hr hcontext
      exact ⟨r', context, hr', hcontext'⟩
    · obtain ⟨r, hr, hphase, rfl, hcheck⟩ := admission_eq_some (Option.mem_toList.mp hmem)
      have hstep : (s.step W A (.checkRate i call.now)).1 = ({ s with
          rateLimiter := (s.rateLimiter.check call.subject call.now).1
          } : ServiceState).setPhase i r (.admitted (contextOf A r call.subject)) [] := by
        simp only [ServiceState.step, hr, hphase]
        unfold ServiceState.checkRate
        dsimp only
        rw [hcheck]
      refine ⟨{ r with phase := .admitted (contextOf A r call.subject) },
        contextOf A r call.subject, ?_, rfl⟩
      rw [hstep, getElem?_setPhase (by exact hr), if_pos rfl]

/-- The calls of the limiter that a run makes, and the ones among them that are let through. -/
theorem exists_rateCalls {D : Service W K} {h : List ServiceLabel} {s : ServiceState}
    (hr : D.RunsTo h s) : ∃ calls : List RateLimiter.Call,
      s.rateLimiter = D.start.rateLimiter.after calls ∧
      ((D.start.rateLimiter.decisions calls).filter fun decision => decision.2.isOk).map Prod.fst
        = (D.admissions h).map Prod.snd ∧
      (calls.map RateLimiter.Call.now).Sublist (rateReadings h) := by
  refine Service.trace_induction (P := fun h seen s => ∃ calls : List RateLimiter.Call,
    s.rateLimiter = D.start.rateLimiter.after calls ∧
    ((D.start.rateLimiter.decisions calls).filter fun decision => decision.2.isOk).map Prod.fst
      = seen.map Prod.snd ∧
    (calls.map RateLimiter.Call.now).Sublist (rateReadings h)) ⟨[], rfl, rfl, .refl _⟩ ?_ hr
  rintro h seen s l - ⟨calls, hlimiter, hseen, hreadings⟩
  have happend : rateReadings (h ++ [l]) = rateReadings h ++ l.event.rateReading.toList := by
    rw [rateReadings, List.filterMap_append, rateReadings]
    cases hl : l.event.rateReading <;> simp [hl]
  rcases rateLimiter_step (W := W) (A := D.app) s l.event with
    ⟨i, now, subject, he, hnext, hadmits⟩ | ⟨hsame, hnone⟩
  · refine ⟨calls ++ [⟨subject, now⟩], ?_, ?_, ?_⟩
    · rw [RateLimiter.after_concat, ← hlimiter]
      exact hnext
    · rw [RateLimiter.decisions_concat, ← hlimiter, List.filter_append, List.map_append, hseen,
        List.map_append, hadmits]
      congr 1
      generalize (s.rateLimiter.check subject now).2 = answer
      cases answer <;> rfl
    · rw [happend, he, List.map_append]
      exact hreadings.append (.refl _)
  · refine ⟨calls, hsame.trans hlimiter, ?_, ?_⟩
    · rw [hnone, hseen, Option.toList_none, List.append_nil]
    · rw [happend]
      exact hreadings.trans (List.sublist_append_left _ _)

/-- A call of a credential in a window of time. -/
def RateLimiter.Call.inWindow (credential : CredentialId) (t d : ℚ) (call : RateLimiter.Call) :
    Bool :=
  decide (call.subject.credentialId = credential ∧ t ≤ call.now ∧ call.now ≤ t + d)

/-- The admissions of a credential are those of its calls. -/
theorem length_admissions {limiter : RateLimiter} {calls : List RateLimiter.Call}
    {seen : List (Nat × RateLimiter.Call)}
    (h : ((limiter.decisions calls).filter fun decision => decision.2.isOk).map Prod.fst
      = seen.map Prod.snd) (credential : CredentialId) (t d : ℚ) :
    (seen.filter fun admission => admission.2.inWindow credential t d).length
      = ((limiter.admitted credential calls).filter fun now => t ≤ now ∧ now ≤ t + d).length :=
  calc (seen.filter fun admission => admission.2.inWindow credential t d).length
      = ((seen.map Prod.snd).filter (RateLimiter.Call.inWindow credential t d)).length := by
        rw [List.filter_map, List.length_map]
        rfl
    _ = (((limiter.decisions calls).filter fun decision => decision.2.isOk).filter
          (RateLimiter.Call.inWindow credential t d ∘ Prod.fst)).length := by
        rw [← h, List.filter_map, List.length_map]
    _ = ((limiter.admitted credential calls).filter fun now => t ≤ now ∧ now ≤ t + d).length := by
        rw [RateLimiter.admitted, List.filter_map, List.length_map, List.filter_filter,
          List.filter_filter]
        refine congrArg List.length (List.filter_congr fun decision _ => ?_)
        simp only [RateLimiter.Call.inWindow, RateLimiter.isOf, Function.comp_apply,
          Bool.decide_and]
        cases decision.2.isOk <;> simp [Bool.and_comm]

/--
**What a credential gets served.**

In every run in which the readings of the clock come in order: each request that got past the rate
limit was let through once, for its own credential; and in any window of time no credential has more
requests let through than its burst and what is refilled in this time. Requests with other
credentials, and those that are under way, make no difference. The arithmetic of the bucket is
exact.
-/
theorem rate_budget (D : Service W K) {h : List ServiceLabel} {s : ServiceState}
    (hr : D.RunsTo h s) (hclock : (rateReadings h).Pairwise (· ≤ ·)) :
    ((D.admissions h).map Prod.fst).Nodup ∧
    (∀ (i : Nat) (r : ServiceRequest) (context : AuditContext), s.requests[i]? = some r →
      r.phase.context? = some context →
      ∃ call, (i, call) ∈ D.admissions h ∧ context = contextOf D.app r call.subject) ∧
    ∀ (credential : CredentialId) (t d : ℚ), 0 ≤ d →
      (((D.admissions h).filter fun admission => admission.2.inWindow credential t d).length : ℚ)
        ≤ D.config.rateLimitBurst + d * (D.config.rateLimitPerMinute / 60) := by
  obtain ⟨_, _, -, -, hstart⟩ := D.start_eq
  have hinv : AdmissionInv D.app (D.admissions h) s := by
    refine Service.trace_induction (P := fun _ seen s => AdmissionInv D.app seen s) ?_
      (fun _ _ _ l _ hinv => admissionInv_step hinv l.event) hr
    refine ⟨List.nodup_nil, fun i r context hr => ?_, fun _ _ hmem => absurd hmem List.not_mem_nil⟩
    rw [D.starts.requests] at hr
    cases hr
  refine ⟨hinv.nodup, hinv.served, fun credential t d hd => ?_⟩
  obtain ⟨calls, -, hadmits, hsub⟩ := exists_rateCalls hr
  have hsorted : (RateLimiter.readings credential calls).Pairwise (· ≤ ·) :=
    (hclock.sublist hsub).sublist (List.filter_sublist.map _)
  have hlimiter : D.start.rateLimiter
      = .new D.config.rateLimitPerMinute D.config.rateLimitBurst := by rw [hstart]
  rw [length_admissions hadmits, hlimiter]
  exact RateLimiter.length_window_le hsorted t hd

section

open Sample

/-- The request of the owner was let through. -/
theorem rate_budget_note : ∃ (r : ServiceRequest) (context : AuditContext)
    (call : RateLimiter.Call), noteState.requests = [r] ∧ r.phase.context? = some context ∧
    (0, call) ∈ service.admissions (noteEvents.map (⟨·, none⟩)) ∧
    context = contextOf service.app r call.subject ∧
    (((service.admissions (noteEvents.map (⟨·, none⟩))).filter fun admission =>
      admission.2.inWindow .keyB 0 60).length : ℚ)
      ≤ service.config.rateLimitBurst + 60 * (service.config.rateLimitPerMinute / 60) := by
  have hclock : (rateReadings (noteEvents.map (⟨·, none⟩))).Pairwise (· ≤ ·) :=
    List.pairwise_singleton _ (1 : ℚ)
  obtain ⟨-, hserved, hwindow⟩ := rate_budget service run_noteEvents hclock
  obtain ⟨r, hrequests⟩ := List.length_eq_one_iff.mp noteState_facts.1
  have hget : noteState.requests[0]? = some r := by
    rw [hrequests]
    rfl
  have hall := List.all_eq_true.mp noteState_facts.2.2.2.1 r (List.mem_of_getElem? hget)
  obtain ⟨context, hcontext⟩ : ∃ context, r.phase.context? = some context := by
    generalize r.phase = phase at hall
    split at hall
    · exact ⟨_, rfl⟩
    · cases hall
  obtain ⟨call, hmem, hcall⟩ := hserved 0 r context hget hcontext
  exact ⟨r, context, call, hrequests, hcontext, hmem, hcall, hwindow .keyB 0 60 (by norm_num)⟩

end

/-! ## Notes -/

/-- The request for which a step begins a call of `create_note`, and the reading of the clock. -/
def ServiceState.noteBegun (W : ServiceCrates) (A : App) (s : ServiceState) :
    ServiceEvent → Option (Nat × ℚ)
  | .dispatch i env =>
    if (s.writer i).isNone && ((s.step W A (.dispatch i env)).1.writer i).isSome then
      some (i, env.instant)
    else none
  | _ => none

/-- The notes that were begun, each with its request and its time. -/
def Service.notesBegun (D : Service W K) (h : List ServiceLabel) : List (Nat × ℚ) :=
  D.trace (ServiceState.noteBegun W D.app) h

/-- The reading of the clock that a tool call brings. -/
def ServiceEvent.noteReading : ServiceEvent → Option ℚ
  | .dispatch _ env => some env.instant
  | _ => none

/-- The readings in a history. -/
def noteReadings (h : List ServiceLabel) : List ℚ := h.filterMap fun l => l.event.noteReading

/-- What a step is to the write limiter and to the calls of `create_note`. -/
inductive BudgetMove (W : ServiceCrates) (A : App) (s : ServiceState) (e : ServiceEvent)
    (inbox inbox' : InboxSupport) (owner' : Nat → Nat) : Prop
  | quiet : s.noteBegun W A e = none → inbox'.notes.limiter = inbox.notes.limiter →
      inbox'.notes.inbox.calls.length = inbox.notes.inbox.calls.length →
      BudgetMove W A s e inbox inbox' owner'
  | refused {now : ℚ} : s.noteBegun W A e = none → e.noteReading = some now →
      inbox.notes.limiter.check now = (inbox'.notes.limiter, .error .rateLimitExceeded) →
      inbox'.notes.inbox.calls.length = inbox.notes.inbox.calls.length →
      BudgetMove W A s e inbox inbox' owner'
  | begun {now : ℚ} :
      s.noteBegun W A e = some (owner' inbox.notes.inbox.calls.length, now) →
      e.noteReading = some now →
      inbox.notes.limiter.check now = (inbox'.notes.limiter, .ok ()) →
      inbox'.notes.inbox.calls.length = inbox.notes.inbox.calls.length + 1 →
      BudgetMove W A s e inbox inbox' owner'

theorem length_advance (toYaml : FrontMatterWriter) {store : InboxStore} (s : InboxState) (i : Nat)
    (faults : Faults) :
    (s.step toYaml store (.advance i faults)).calls.length = s.calls.length := by
  rcases InboxState.step_cases toYaml store s (.advance i faults) with ⟨_, he, -⟩ |
    ⟨_, _, -, -, hs⟩ | ⟨_, _, _, _, _, _, -, -, -, hs⟩
  · cases he
  · rw [hs]
  · rw [hs, List.length_set]

theorem budgetMove_of_serviceMove {s s' : ServiceState} {e : ServiceEvent}
    {inbox inbox' : InboxSupport} {owner' : Nat → Nat} (h : ServiceMove W A s e s')
    (hs' : (s.step W A e).1 = s') (hinbox : s.server.inbox = some inbox)
    (hinbox' : s'.server.inbox = some inbox') (hinv' : NotesInv W s' inbox' owner') :
    BudgetMove W A s e inbox inbox' owner' := by
  -- the server is the same, and no request has begun to write
  have hquiet : s.noteBegun W A e = none → s'.server = s.server →
      BudgetMove W A s e inbox inbox' owner' := by
    intro hnone hsame
    rw [hsame, hinbox] at hinbox'
    obtain rfl := Option.some.inj hinbox'
    exact .quiet hnone rfl rfl
  have hnone : ∀ {i : Nat} {env : CallEnv}, e = .dispatch i env → s'.writer i = none →
      s.noteBegun W A e = none := by
    rintro i env rfl hwriter
    rw [ServiceState.noteBegun, hs', hwriter, Option.isSome_none, Bool.and_false]
    rfl
  cases h with
  | idle =>
    refine hquiet ?_ rfl
    cases e with
    | dispatch i env =>
      rw [ServiceState.noteBegun, hs']
      cases s.writer i <;> rfl
    | oauth | receive | authenticate | checkRate | advance | complete => rfl
  | oauth | received | authenticated | unauthorized | admitted | rateLimited | returned
  | completed => exact hquiet rfl rfl
  | read hr =>
    refine hquiet (hnone rfl ?_) rfl
    rw [ServiceState.writer, view_setPhase _ hr, Function.update_self]
    rfl
  | refused hr _ hinbox₀ _ hcheck =>
    obtain rfl := Option.some.inj (hinbox₀.symm.trans hinbox)
    obtain rfl := Option.some.inj hinbox'
    refine .refused (hnone rfl ?_) rfl hcheck rfl
    rw [ServiceState.writer, view_setPhase (s := ServiceState.withNotes s _ _) _ hr,
      Function.update_self]
    rfl
  | @begun i r context env inbox₀ limiter request hr hphase hinbox₀ _ hcheck =>
    obtain rfl : inbox = inbox₀ := Option.some.inj (hinbox.symm.trans hinbox₀)
    obtain rfl := Option.some.inj hinbox'
    have hwriter : (s.step W A (.dispatch i env)).1.writer i = some (context,
        request.body.utf8ByteSize, inbox.notes.inbox.calls.length) := by
      rw [hs', ServiceState.writer, view_setPhase (s := ServiceState.withNotes s _ _) _ hr,
        Function.update_self]
      rfl
    have hbefore : s.writer i = none := by
      rw [ServiceState.writer, view_eq _ hr, hphase]
      rfl
    have howner : owner' inbox.notes.inbox.calls.length = i :=
      (hinv'.writer i _ _ _ (hs' ▸ hwriter)).1
    refine .begun ?_ rfl hcheck List.length_append
    rw [ServiceState.noteBegun, hwriter, hbefore, howner]
    rfl
  | advanced _ _ hinbox₀ =>
    obtain rfl := Option.some.inj (hinbox₀.symm.trans hinbox)
    obtain rfl := Option.some.inj hinbox'
    exact .quiet rfl rfl (length_advance W.toYaml _ _ _)

/-- The calls of the write limiter, and the notes that were begun. -/
structure BudgetInv (D : Service W K) (limiter : WriteRateLimiter) (h : List ServiceLabel)
    (inbox : InboxSupport) (owner : Nat → Nat) : Prop where
  limiter : ∃ times, inbox.notes.limiter = limiter.after times ∧
    limiter.admitted times = (D.notesBegun h).map Prod.snd ∧ times.Sublist (noteReadings h)
  length : inbox.notes.inbox.calls.length = (D.notesBegun h).length
  owner : ∀ (call : Nat) (begun : Nat × ℚ), (D.notesBegun h)[call]? = some begun →
    owner call = begun.1

/-- A step keeps the calls of the limiter and the notes together. -/
theorem budgetInv_step {D : Service W K} {limiter : WriteRateLimiter} {h : List ServiceLabel}
    {l : ServiceLabel} {s s' : ServiceState} {inbox inbox' : InboxSupport}
    {owner owner' : Nat → Nat}
    (hstep : OwnedStep W D.app D.before D.start h l s s' inbox inbox' owner owner')
    (hinv : BudgetInv D limiter h inbox owner) : BudgetInv D limiter (h ++ [l]) inbox' owner' := by
  have hbegun : D.notesBegun (h ++ [l])
      = D.notesBegun h ++ (s.noteBegun W D.app l.event).toList :=
    Service.trace_concat (ServiceState.noteBegun W D.app) hstep.run l
  have hreadings : noteReadings (h ++ [l]) = noteReadings h ++ l.event.noteReading.toList := by
    rw [noteReadings, List.filterMap_append, noteReadings]
    cases hl : l.event.noteReading <;> simp [hl]
  have howner : ∀ (call : Nat) (begun : Nat × ℚ), (D.notesBegun h)[call]? = some begun →
      owner' call = begun.1 := by
    intro call begun hget
    rw [hstep.owner_eq call (by rw [hinv.length]; exact (List.getElem?_eq_some_iff.mp hget).1)]
    exact hinv.owner call begun hget
  obtain ⟨times, hlimiter, hadmitted, hsub⟩ := hinv.limiter
  cases budgetMove_of_serviceMove hstep.move hstep.step_eq hstep.inbox_eq hstep.inbox_eq'
    hstep.inv' with
  | quiet hnone hsame hlength =>
    rw [hnone, Option.toList_none, List.append_nil] at hbegun
    refine ⟨⟨times, hsame.trans hlimiter, ?_, ?_⟩, ?_, ?_⟩
    · rw [hbegun]
      exact hadmitted
    · rw [hreadings]
      exact hsub.trans (List.sublist_append_left _ _)
    · rw [hbegun, hlength]
      exact hinv.length
    · rw [hbegun]
      exact howner
  | @refused now hnone hnow hcheck hlength =>
    rw [hnone, Option.toList_none, List.append_nil] at hbegun
    rw [hlimiter] at hcheck
    refine ⟨⟨times ++ [now], ?_, ?_, ?_⟩, ?_, ?_⟩
    · rw [WriteRateLimiter.after_concat, hcheck]
    · rw [WriteRateLimiter.admitted_concat, hcheck, hbegun, hadmitted]
      exact List.append_nil _
    · rw [hreadings, hnow]
      exact hsub.append (.refl _)
    · rw [hbegun, hlength]
      exact hinv.length
    · rw [hbegun]
      exact howner
  | @begun now hsome hnow hcheck hlength =>
    rw [hsome, Option.toList_some] at hbegun
    rw [hlimiter] at hcheck
    refine ⟨⟨times ++ [now], ?_, ?_, ?_⟩, ?_, fun call begun hget => ?_⟩
    · rw [WriteRateLimiter.after_concat, hcheck]
    · rw [WriteRateLimiter.admitted_concat, hcheck, hbegun, hadmitted, List.map_append]
      rfl
    · rw [hreadings, hnow]
      exact hsub.append (.refl _)
    · rw [hbegun, hlength, hinv.length, List.length_append, List.length_singleton]
    · rw [hbegun, List.getElem?_append] at hget
      split at hget
      · exact howner call begun hget
      · next hge =>
        obtain ⟨hlt, hlast⟩ := List.getElem?_eq_some_iff.mp hget
        rw [List.length_singleton] at hlt
        obtain rfl : call = inbox.notes.inbox.calls.length := by
          have hlen := hinv.length
          omega
        rw [← hlast, List.getElem_singleton]

/-- The inbox that the service starts with, by its settings. -/
theorem Service.exists_settings (D : Service W K) {inbox : InboxSupport}
    (h : D.start.server.inbox = some inbox) : ∃ settings, D.config.inbox = some settings ∧
      inbox.notes = .new settings.writesPerHour D.now (inbox.store.rootFd D.fs) := by
  obtain ⟨_, _, _, _, hstart⟩ := D.start_eq
  rw [hstart] at h
  obtain ⟨settings, hsettings, -, hnotes⟩ := openInbox_eq_some h
  exact ⟨settings, hsettings, hnotes⟩

/--
**How many notes an inbox gets in an hour.**

In every run in which the readings of the clock come in order, each entry that the service added to
its inbox was begun at one time, by the request that filed it. In any hour at most `2 * n - 1`
entries were begun, with `n` writes allowed per hour, whichever credentials they are from. The
arithmetic of the bucket is exact.
-/
theorem note_budget (D : Service W K) {h : List ServiceLabel} {s : ServiceState}
    (hr : D.RunsTo h s) {inbox : InboxSupport} (hinbox : s.server.inbox = some inbox)
    {settings : InboxConfig} (hsettings : D.config.inbox = some settings)
    (hclock : (D.now :: noteReadings h).Pairwise (· ≤ ·)) : ∃ begunAt : Name → ℚ,
      (∀ entry node, Added D inbox entry node → ∃ (i : Nat) (r : ServiceRequest)
        (context : AuditContext) (request : NoteRequest) (prepared : Prepared) (name : String),
        s.requests[i]? = some r ∧ (i, begunAt entry) ∈ D.notesBegun h ∧
        FiledBy D h inbox r context request prepared name entry node) ∧
      ∀ (t : ℚ) (entries : Finset Name), (∀ entry ∈ entries,
        (∃ node, Added D inbox entry node) ∧ t ≤ begunAt entry ∧ begunAt entry < t + 3600) →
        entries.card ≤ 2 * settings.writesPerHour - 1 := by
  -- the limiter at the start is a new one
  have hnew : ∀ inbox₀, D.start.server.inbox = some inbox₀ →
      inbox₀.notes = .new settings.writesPerHour D.now (inbox₀.store.rootFd D.fs) := by
    intro inbox₀ hinbox₀
    obtain ⟨settings', hsettings', hnotes⟩ := D.exists_settings hinbox₀
    obtain rfl := Option.some.inj (hsettings.symm.trans hsettings')
    exact hnotes
  obtain ⟨owner, hinv, hbudget⟩ := notes_induction
    (P := fun h _ inbox owner => BudgetInv D (.new settings.writesPerHour D.now) h inbox owner)
    D.starts (fun inbox₀ hinbox₀ => by
      rw [show inbox₀ = ⟨inbox₀.store, inbox₀.notes⟩ from rfl, hnew inbox₀ hinbox₀]
      exact ⟨⟨[], rfl, rfl, .refl _⟩, rfl, fun _ _ hget => by cases hget⟩)
    (fun hstep hbudget => budgetInv_step hstep hbudget) hr hinbox
  obtain ⟨callOf, hcallOf, hinj⟩ := exists_callOf hr hinbox
  -- an entry was begun by the request of its call
  have hbegun : ∀ entry : Name, ∃ time : ℚ, ∀ node, Added D inbox entry node →
      (owner (callOf entry), time) ∈ D.notesBegun h := by
    intro entry
    cases hget : (D.notesBegun h)[callOf entry]? with
    | some begun =>
      refine ⟨begun.2, fun _ _ => ?_⟩
      rw [hbudget.owner _ _ hget]
      exact List.mem_of_getElem? hget
    | none =>
      refine ⟨0, fun node hadded => ?_⟩
      obtain ⟨_, _, hcall, -⟩ := hcallOf entry node hadded
      have hlt := (List.getElem?_eq_some_iff.mp hcall).1
      rw [hbudget.length] at hlt
      rw [List.getElem?_eq_getElem hlt] at hget
      cases hget
  choose begunAt hbegun using hbegun
  refine ⟨begunAt, fun entry node hadded => ?_, fun t entries hentries => ?_⟩
  · obtain ⟨request, noteCall, hcall, hfile⟩ := hcallOf entry node hadded
    obtain ⟨r, context, prepared, name, hget, -, hfiled, -⟩ :=
      filedBy_of_call hr hinbox hinv hcall hfile
    exact ⟨_, r, context, request, prepared, name, hget, hbegun entry node hadded, hfiled⟩
  · obtain ⟨times, -, hadmitted, hsub⟩ := hbudget.limiter
    have hhour : writesInHour t ((D.notesBegun h).map Prod.snd)
        ≤ 2 * settings.writesPerHour - 1 := by
      rw [← hadmitted]
      exact writesInHour_le settings.writesPerHour (hclock.sublist (hsub.cons_cons D.now)) t
    -- each entry has a note of its own among those of the hour
    have hinHour : ∀ entry ∈ entries, (owner (callOf entry), begunAt entry) ∈
        ((D.notesBegun h).filter fun begun => t ≤ begun.2 ∧ begun.2 < t + 3600).toFinset := by
      intro entry hmem
      obtain ⟨⟨node, hadded⟩, hwindow⟩ := hentries entry hmem
      exact List.mem_toFinset.mpr
        (List.mem_filter.mpr ⟨hbegun entry node hadded, decide_eq_true hwindow⟩)
    have hcard := Finset.card_le_card_of_injOn _ hinHour ?_
    · refine (hcard.trans (List.toFinset_card_le _)).trans (le_trans (le_of_eq ?_) hhour)
      rw [writesInHour, List.filter_map, List.length_map]
      rfl
    · intro entry hentry entry' hentry' he
      obtain ⟨⟨node, hadded⟩, -⟩ := hentries entry hentry
      obtain ⟨⟨node', hadded'⟩, -⟩ := hentries entry' hentry'
      obtain ⟨_, _, hcall, -⟩ := hcallOf entry node hadded
      obtain ⟨_, _, hcall', -⟩ := hcallOf entry' node' hadded'
      exact hinj ⟨node, hadded⟩ ⟨node', hadded'⟩ (hinv.call_eq hcall hcall' (Prod.mk.inj he).1)

section

open Sample

/-- The note of the owner is one of those of its hour. -/
theorem note_budget_note : ∃ (inbox : InboxSupport) (settings : InboxConfig) (begunAt : Name → ℚ),
    noteState.server.inbox = some inbox ∧ service.config.inbox = some settings ∧
    (∃ i, (i, begunAt note) ∈ service.notesBegun (noteEvents.map (⟨·, none⟩))) ∧
    ({note} : Finset Name).card ≤ 2 * settings.writesPerHour - 1 := by
  obtain ⟨inbox, node, hinbox, hadded⟩ := exists_added_note
  obtain ⟨settings, hsettings⟩ : ∃ settings, service.config.inbox = some settings := by
    obtain ⟨inbox₀, _, hinbox₀, -⟩ := service.exists_notes_run run_noteEvents hinbox
    obtain ⟨settings, hsettings, -⟩ := service.exists_settings hinbox₀
    exact ⟨settings, hsettings⟩
  have hclock : (service.now :: noteReadings (noteEvents.map (⟨·, none⟩))).Pairwise (· ≤ ·) := by
    rw [service_now]
    exact List.pairwise_pair.mpr (zero_le_one' ℚ)
  obtain ⟨begunAt, hbegun, hhour⟩ := note_budget service run_noteEvents hinbox hsettings hclock
  obtain ⟨i, _, _, _, _, _, -, hmem, -⟩ := hbegun note node hadded
  refine ⟨inbox, settings, begunAt, hinbox, hsettings, ⟨i, hmem⟩, hhour (begunAt note) {note} ?_⟩
  intro entry hentry
  obtain rfl := Finset.mem_singleton.mp hentry
  exact ⟨⟨node, hadded⟩, le_rfl, lt_add_of_pos_right _ (by norm_num)⟩

end

end EngramMcp
