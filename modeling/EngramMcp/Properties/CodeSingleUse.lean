import EngramMcp.OAuth.Reference

/-!
# Authorization codes are single-use and bound

Calls of the token endpoint run side by side. A code exchange is two steps here, as it is in the
program: the removal of the code from the shared map, and everything that follows. Between the two,
other calls take their own steps.

* `code_single_use` — no code is redeemed twice; a code that reached the removal step can never be
  redeemed afterwards; and a redemption satisfies every binding of the code

The invariant counts. Each code leaves the map at most once, and each removal is either still in
flight or finished.
-/

namespace EngramMcp

open Infra

/-! ## Calls in flight -/

/-- A code exchange after the removal step: the checked request, and what was removed. -/
structure Redemption where
  request : TokenRequest
  header : Option String
  x : CodeExchange
  removed : Option AuthorizationCode

/-- The shared state, and the exchanges that have removed their code but not finished. -/
structure CodeSystem where
  server : OAuthState
  pending : List Redemption

/-- What happens in the system. -/
inductive CodeEvent
  /-- A call of `complete_authorization`, which touches the map of codes once. -/
  | completed (env : CompleteEnv) (form : ApprovalForm)
      (result : Except OAuthError AuthorizationRedirect)
  /-- A code exchange passes its first checks and removes its code. -/
  | took (r : Redemption)
  /-- A code exchange goes on after the removal, to its end. -/
  | finished (r : Redemption) (env : TokenEnv) (result : Except OAuthError TokenResponse)
  /-- Any other call; it leaves the map of codes alone. -/
  | other

namespace CodeEvent

/-- The code strings an event brings up: the minted one, or the presented one. -/
def codes (C : Crates) (S : OAuthSettings) : CodeEvent → List String
  | completed env form _ => (mintedCode C S env form).toList.map Prod.fst
  | took r => [r.x.code]
  | _ => []

/-- The code that an event removes from the map. -/
def removedCode : CodeEvent → Option String
  | took r => r.removed.map fun _ => r.x.code
  | _ => none

/-- The removed code that an event is done with. -/
def finishedCode : CodeEvent → Option String
  | finished r _ _ => r.removed.map fun _ => r.x.code
  | _ => none

/-- The code for which an event issued a pair of tokens. -/
def redeemedCode : CodeEvent → Option String
  | finished r _ (.ok _) => some r.x.code
  | _ => none

end CodeEvent

/-- The code strings that came up so far. -/
def seenCodes (C : Crates) (S : OAuthSettings) (h : List CodeEvent) : List String :=
  h.flatMap (CodeEvent.codes C S)

/-- The codes removed so far. -/
def removedCodes (h : List CodeEvent) : List String := h.filterMap CodeEvent.removedCode

/-- The removed codes that are done with. -/
def finishedCodes (h : List CodeEvent) : List String := h.filterMap CodeEvent.finishedCode

/-- The codes redeemed so far. -/
def redeemedCodes (h : List CodeEvent) : List String := h.filterMap CodeEvent.redeemedCode

/-- The removed codes in flight. -/
def pendingCodes (pending : List Redemption) : List String :=
  pending.filterMap fun r => r.removed.map fun _ => r.x.code

/-- A step of the system. -/
inductive CodeStep (C : Crates) (S : OAuthSettings) :
    CodeSystem → CodeEvent → CodeSystem → Prop
  | completed {s s' : OAuthState} {pending : List Redemption} {env : CompleteEnv}
      {form : ApprovalForm} {result : Except OAuthError AuthorizationRedirect} :
      completeAuthorization C S s env form = (s', result) →
      CodeStep C S ⟨s, pending⟩ (.completed env form result) ⟨s', pending⟩
  | took {s s' : OAuthState} {pending : List Redemption} {r : Redemption} :
      openCodeExchange C S r.request r.header = .ok r.x →
      s.takeCode (tokenHash C S r.x.code) = (s', r.removed) →
      CodeStep C S ⟨s, pending⟩ (.took r) ⟨s', r :: pending⟩
  | finished {s s' : OAuthState} {l₁ l₂ : List Redemption} {r : Redemption} {env : TokenEnv}
      {result : Except OAuthError TokenResponse} :
      redeem C S s env r.x r.removed = (s', result) →
      CodeStep C S ⟨s, l₁ ++ r :: l₂⟩ (.finished r env result) ⟨s', l₁ ++ l₂⟩
  | other {s s' : OAuthState} {pending : List Redemption} :
      s'.authorizationCodes = s.authorizationCodes →
      CodeStep C S ⟨s, pending⟩ .other ⟨s', pending⟩

/--
Random codes are fresh, and the keyed hash does not collide on the codes of the run: a minted code
was neither minted nor presented before, and codes with equal hashes are equal.
-/
structure FreshCodes (C : Crates) (S : OAuthSettings) (h : List CodeEvent) (e : CodeEvent) :
    Prop where
  minted : ∀ env form result, e = .completed env form result →
    ∀ code ∈ e.codes C S, code ∉ seenCodes C S h
  collisionFree : ∀ c ∈ seenCodes C S h, ∀ c' ∈ e.codes C S,
    tokenHash C S c = tokenHash C S c' → c = c'

/-- A step of a run with fresh codes. -/
def FreshCodeStep (C : Crates) (S : OAuthSettings) (h : List CodeEvent) (s : CodeSystem)
    (e : CodeEvent) (s' : CodeSystem) : Prop :=
  FreshCodes C S h e ∧ CodeStep C S s e s'

/-- The system when the server starts: no codes, no calls. -/
def CodeSystem.start (store : RefreshTokenStore) : CodeSystem := ⟨⟨∅, store⟩, []⟩

/-- An earlier call minted the code with this record. -/
def Minted (C : Crates) (S : OAuthSettings) (h : List CodeEvent) (code : String)
    (record : AuthorizationCode) : Prop :=
  ∃ env form result, .completed env form result ∈ h ∧ mintedCode C S env form = some (code, record)

variable {C : Crates} {S : OAuthSettings}

/-! ## The history -/

theorem seenCodes_append (h : List CodeEvent) (e : CodeEvent) :
    seenCodes C S (h ++ [e]) = seenCodes C S h ++ e.codes C S := by
  simp [seenCodes]

theorem removedCodes_append (h : List CodeEvent) (e : CodeEvent) :
    removedCodes (h ++ [e]) = removedCodes h ++ e.removedCode.toList := by
  cases hc : e.removedCode <;> simp [removedCodes, hc]

theorem finishedCodes_append (h : List CodeEvent) (e : CodeEvent) :
    finishedCodes (h ++ [e]) = finishedCodes h ++ e.finishedCode.toList := by
  cases hc : e.finishedCode <;> simp [finishedCodes, hc]

theorem Minted.append {h : List CodeEvent} {code : String} {record : AuthorizationCode}
    (hm : Minted C S h code record) (e : CodeEvent) : Minted C S (h ++ [e]) code record := by
  obtain ⟨env, form, result, hmem, hcode⟩ := hm
  exact ⟨env, form, result, List.mem_append_left _ hmem, hcode⟩

/-- A minted code was seen. -/
theorem Minted.mem_seenCodes {h : List CodeEvent} {code : String} {record : AuthorizationCode}
    (hm : Minted C S h code record) : code ∈ seenCodes C S h := by
  obtain ⟨env, form, result, hmem, hcode⟩ := hm
  refine List.mem_flatMap.mpr ⟨_, hmem, ?_⟩
  simp [CodeEvent.codes, hcode]

theorem mem_seenCodes_of_took {h : List CodeEvent} {r : Redemption} (hr : .took r ∈ h) :
    r.x.code ∈ seenCodes C S h :=
  List.mem_flatMap.mpr ⟨_, hr, by simp [CodeEvent.codes]⟩

/-! ## The invariant -/

/-- The map of codes and the calls in flight, in terms of the history. -/
structure CodeInv (C : Crates) (S : OAuthSettings) (h : List CodeEvent) (s : CodeSystem) :
    Prop where
  /-- The hash separates the codes seen so far. -/
  separated : ∀ c ∈ seenCodes C S h, ∀ c' ∈ seenCodes C S h,
    tokenHash C S c = tokenHash C S c' → c = c'
  /-- A stored code was minted, and no call presented it so far. -/
  stored : ∀ hash record, s.server.authorizationCodes.lookup hash = some record →
    ∃ code, hash = tokenHash C S code ∧ Minted C S h code record ∧
      ∀ r, .took r ∈ h → r.x.code ≠ code
  /-- Every call that reached the removal step passed the first checks. -/
  opened : ∀ r, .took r ∈ h → openCodeExchange C S r.request r.header = .ok r.x ∧
    ∀ record, r.removed = some record → Minted C S h r.x.code record
  /-- What is in flight was removed by a call. -/
  pending : ∀ r ∈ s.pending, .took r ∈ h
  /-- Every removal is in flight or finished. -/
  balance : (removedCodes h).Perm (pendingCodes s.pending ++ finishedCodes h)
  /-- No code is removed twice. -/
  nodup : (removedCodes h).Nodup

theorem codeInv_start (store : RefreshTokenStore) : CodeInv C S [] (.start store) where
  separated c hc := by simp [seenCodes] at hc
  stored hash record h := by simp [CodeSystem.start, AList.lookup_empty] at h
  opened r h := by simp at h
  pending r h := by simp [CodeSystem.start] at h
  balance := by simp [removedCodes, CodeSystem.start, pendingCodes, finishedCodes]
  nodup := by simp [removedCodes]

/-- The hash still separates the codes after a step. -/
theorem CodeInv.separated_append {h : List CodeEvent} {s : CodeSystem} {e : CodeEvent}
    (hi : CodeInv C S h s) (hf : FreshCodes C S h e) (hone : (e.codes C S).length ≤ 1) :
    ∀ c ∈ seenCodes C S (h ++ [e]), ∀ c' ∈ seenCodes C S (h ++ [e]),
      tokenHash C S c = tokenHash C S c' → c = c' := by
  intro c hc c' hc' heq
  rw [seenCodes_append, List.mem_append] at hc hc'
  rcases hc with hc | hc
  · rcases hc' with hc' | hc'
    · exact hi.separated c hc c' hc' heq
    · exact hf.collisionFree c hc c' hc' heq
  · rcases hc' with hc' | hc'
    · exact (hf.collisionFree c' hc' c hc heq.symm).symm
    · match hl : e.codes C S, hc, hc', hone with
      | [d], hc, hc', _ => rw [List.mem_singleton.mp hc, List.mem_singleton.mp hc']

theorem length_codes_le_one (e : CodeEvent) : (e.codes C S).length ≤ 1 := by
  cases e with
  | completed env form result =>
    rw [CodeEvent.codes, List.length_map]
    cases mintedCode C S env form <;> simp
  | took r => simp [CodeEvent.codes]
  | finished => simp [CodeEvent.codes]
  | other => simp [CodeEvent.codes]

/-- Minting a code: it is new, so it was not presented by any call before. -/
theorem CodeInv.complete {h : List CodeEvent} {s s' : OAuthState} {pending : List Redemption}
    {env : CompleteEnv} {form : ApprovalForm} {result : Except OAuthError AuthorizationRedirect}
    (hi : CodeInv C S h ⟨s, pending⟩) (hf : FreshCodes C S h (.completed env form result))
    (hc : completeAuthorization C S s env form = (s', result)) :
    CodeInv C S (h ++ [.completed env form result]) ⟨s', pending⟩ := by
  have hs' : s' = (completeAuthorization C S s env form).1 := by rw [hc]
  rw [completeAuthorization_state] at hs'
  have htook : ∀ r, CodeEvent.took r ∈ h ++ [.completed env form result] → .took r ∈ h := by
    intro r hr
    rcases List.mem_append.mp hr with hr | hr
    · exact hr
    · simp at hr
  refine ⟨hi.separated_append hf (length_codes_le_one _), ?_, ?_, ?_, ?_, ?_⟩
  · intro hash record hl
    have hold : s.authorizationCodes.lookup hash = some record →
        ∃ code, hash = tokenHash C S code ∧
          Minted C S (h ++ [.completed env form result]) code record ∧
          ∀ r, .took r ∈ h ++ [.completed env form result] → r.x.code ≠ code := by
      intro hlook
      obtain ⟨code, hh, hm, hr⟩ := hi.stored hash record hlook
      exact ⟨code, hh, hm.append _, fun r hmem => hr r (htook r hmem)⟩
    cases hmint : mintedCode C S env form with
    | none =>
      simp only [hmint] at hs'
      subst hs'
      exact hold hl
    | some m =>
      obtain ⟨code, rec⟩ := m
      simp only [hmint] at hs'
      subst hs'
      rcases lookup_insertCode hl with ⟨rfl, rfl⟩ | ⟨_, hlook⟩
      · refine ⟨code, rfl, ⟨env, form, result, by simp, hmint⟩, fun r hr he => ?_⟩
        -- a call that presented the code before would have brought it up
        refine hf.minted env form result rfl code (by simp [CodeEvent.codes, hmint]) ?_
        rw [← he]
        exact mem_seenCodes_of_took (htook r hr)
      · exact hold hlook
  · intro r hr
    obtain ⟨hopen, hrec⟩ := hi.opened r (htook r hr)
    exact ⟨hopen, fun record hre => (hrec record hre).append _⟩
  · exact fun r hr => List.mem_append_left _ (hi.pending r hr)
  · rw [removedCodes_append, finishedCodes_append]
    simpa [CodeEvent.removedCode, CodeEvent.finishedCode] using hi.balance
  · rw [removedCodes_append]
    simpa [CodeEvent.removedCode] using hi.nodup

/-- Removing a code: what is found was minted, and it cannot be found again. -/
theorem CodeInv.take {h : List CodeEvent} {s s' : OAuthState} {pending : List Redemption}
    {r : Redemption} (hi : CodeInv C S h ⟨s, pending⟩) (hf : FreshCodes C S h (.took r))
    (hopen : openCodeExchange C S r.request r.header = .ok r.x)
    (ht : s.takeCode (tokenHash C S r.x.code) = (s', r.removed)) :
    CodeInv C S (h ++ [.took r]) ⟨s', r :: pending⟩ := by
  obtain ⟨hs', hremoved⟩ := Prod.mk.inj ht
  have hsep := hi.separated_append hf (length_codes_le_one _)
  have hseen : r.x.code ∈ seenCodes C S (h ++ [.took r]) := mem_seenCodes_of_took (by simp)
  -- a record that is found is the one of the presented code itself
  have hfound : ∀ record, r.removed = some record →
      Minted C S h r.x.code record ∧ ∀ q, .took q ∈ h → q.x.code ≠ r.x.code := by
    intro record hre
    obtain ⟨code, hh, hm, hq⟩ := hi.stored (tokenHash C S r.x.code) record (hremoved.trans hre)
    have hcode : r.x.code = code := by
      refine hsep _ hseen _ ?_ hh
      rw [seenCodes_append]
      exact List.mem_append_left _ hm.mem_seenCodes
    rw [hcode]
    exact ⟨hm, hq⟩
  refine ⟨hsep, ?_, ?_, ?_, ?_, ?_⟩
  · intro hash record hl
    rw [← hs'] at hl
    have hne : hash ≠ tokenHash C S r.x.code := by
      intro he
      rw [he] at hl
      simp [AList.lookup_erase] at hl
    rw [AList.lookup_erase_ne hne] at hl
    obtain ⟨code, hh, hm, hq⟩ := hi.stored hash record hl
    refine ⟨code, hh, hm.append _, fun q hmem => ?_⟩
    rcases List.mem_append.mp hmem with hmem | hmem
    · exact hq q hmem
    · rw [List.mem_singleton, CodeEvent.took.injEq] at hmem
      rw [hmem]
      exact fun he => hne (by rw [hh, he])
  · intro q hq
    rcases List.mem_append.mp hq with hq | hq
    · obtain ⟨ho, hrec⟩ := hi.opened q hq
      exact ⟨ho, fun record hre => (hrec record hre).append _⟩
    · rw [List.mem_singleton, CodeEvent.took.injEq] at hq
      rw [hq]
      exact ⟨hopen, fun record hre => (hfound record hre).1.append _⟩
  · intro q hq
    rcases List.mem_cons.mp hq with rfl | hq
    · simp
    · exact List.mem_append_left _ (hi.pending q hq)
  · rw [removedCodes_append, finishedCodes_append]
    cases hre : r.removed with
    | none => simpa [CodeEvent.removedCode, CodeEvent.finishedCode, pendingCodes, hre]
        using hi.balance
    | some record =>
      have hb := (hi.balance.append_right [r.x.code]).trans List.perm_append_comm
      simpa [CodeEvent.removedCode, CodeEvent.finishedCode, pendingCodes, hre] using hb
  · rw [removedCodes_append]
    cases hre : r.removed with
    | none => simpa [CodeEvent.removedCode, hre] using hi.nodup
    | some record =>
      have hnew : r.x.code ∉ removedCodes h := by
        intro hm
        obtain ⟨e, he, hcode⟩ := List.mem_filterMap.mp hm
        cases e with
        | took q =>
          obtain ⟨_, _, hqc⟩ := Option.map_eq_some_iff.mp hcode
          exact (hfound record hre).2 q he hqc
        | _ => simp [CodeEvent.removedCode] at hcode
      simp only [CodeEvent.removedCode, hre, Option.map_some, Option.toList_some]
      exact List.Nodup.append hi.nodup (List.nodup_singleton _) (by simpa using hnew)

/-- Finishing an exchange: it leaves the map of codes alone. -/
theorem CodeInv.finish {h : List CodeEvent} {s s' : OAuthState} {l₁ l₂ : List Redemption}
    {r : Redemption} {env : TokenEnv} {result : Except OAuthError TokenResponse}
    (hi : CodeInv C S h ⟨s, l₁ ++ r :: l₂⟩)
    (hcodes : s'.authorizationCodes = s.authorizationCodes)
    (hf : FreshCodes C S h (.finished r env result)) :
    CodeInv C S (h ++ [.finished r env result]) ⟨s', l₁ ++ l₂⟩ := by
  have htook : ∀ q, CodeEvent.took q ∈ h ++ [.finished r env result] → .took q ∈ h := by
    intro q hq
    rcases List.mem_append.mp hq with hq | hq
    · exact hq
    · simp at hq
  refine ⟨hi.separated_append hf (length_codes_le_one _), ?_, ?_, ?_, ?_, ?_⟩
  · intro hash record hl
    simp only [hcodes] at hl
    obtain ⟨code, hh, hm, hq⟩ := hi.stored hash record hl
    exact ⟨code, hh, hm.append _, fun q hmem => hq q (htook q hmem)⟩
  · intro q hq
    obtain ⟨ho, hrec⟩ := hi.opened q (htook q hq)
    exact ⟨ho, fun record hre => (hrec record hre).append _⟩
  · intro q hq
    refine List.mem_append_left _ (hi.pending q ?_)
    rcases List.mem_append.mp hq with hq | hq
    · exact List.mem_append_left _ hq
    · exact List.mem_append_right _ (List.mem_cons_of_mem _ hq)
  · rw [removedCodes_append, finishedCodes_append]
    refine (by simpa [CodeEvent.removedCode] using hi.balance :
      ((removedCodes h ++ _).Perm _)).trans ?_
    cases hre : r.removed with
    | none => simp [CodeEvent.finishedCode, pendingCodes, hre]
    | some record =>
      simp only [CodeEvent.finishedCode, pendingCodes, hre, List.filterMap_append,
        List.filterMap_cons, Option.map_some, Option.toList_some, List.append_assoc,
        List.cons_append]
      refine List.Perm.append_left _ ?_
      show ([r.x.code] ++ (pendingCodes l₂ ++ finishedCodes h)).Perm
        (pendingCodes l₂ ++ (finishedCodes h ++ [r.x.code]))
      rw [← List.append_assoc (pendingCodes l₂)]
      exact List.perm_append_comm
  · rw [removedCodes_append]
    simpa [CodeEvent.removedCode] using hi.nodup

/-- Finishing an exchange changes the refresh tokens only. -/
theorem authorizationCodes_redeem (s : OAuthState) (env : TokenEnv) (x : CodeExchange)
    (removed : Option AuthorizationCode) :
    (redeem C S s env x removed).1.authorizationCodes = s.authorizationCodes := by
  cases removed with
  | none => rfl
  | some record =>
    unfold redeem
    simp only
    split <;> rfl

theorem codeInv_step {h : List CodeEvent} {s s' : CodeSystem} {e : CodeEvent}
    (hi : CodeInv C S h s) (hs : FreshCodeStep C S h s e s') : CodeInv C S (h ++ [e]) s' := by
  obtain ⟨hf, hstep⟩ := hs
  cases hstep with
  | completed hc => exact hi.complete hf hc
  | took hopen ht => exact hi.take hf hopen ht
  | finished hr =>
    refine hi.finish ?_ hf
    have hcodes := congrArg (fun p => p.1.authorizationCodes) hr
    exact hcodes.symm.trans (authorizationCodes_redeem _ _ _ _)
  | other hcodes =>
    have htook : ∀ q, CodeEvent.took q ∈ h ++ [.other] → .took q ∈ h := by
      intro q hq
      simpa using hq
    refine ⟨hi.separated_append hf (length_codes_le_one _), ?_, ?_, ?_, ?_, ?_⟩
    · intro hash record hl
      simp only [hcodes] at hl
      obtain ⟨code, hh, hm, hq⟩ := hi.stored hash record hl
      exact ⟨code, hh, hm.append _, fun q hmem => hq q (htook q hmem)⟩
    · intro q hq
      obtain ⟨ho, hrec⟩ := hi.opened q (htook q hq)
      exact ⟨ho, fun record hre => (hrec record hre).append _⟩
    · exact fun q hq => List.mem_append_left _ (hi.pending q hq)
    · rw [removedCodes_append, finishedCodes_append]
      simpa [CodeEvent.removedCode, CodeEvent.finishedCode] using hi.balance
    · rw [removedCodes_append]
      simpa [CodeEvent.removedCode] using hi.nodup

theorem codeInv_run {store : RefreshTokenStore} {h : List CodeEvent} {s : CodeSystem}
    (hr : Run (FreshCodeStep C S) (.start store) h s) : CodeInv C S h s :=
  Steps.invariant (fun _ _ _ _ => codeInv_step) (codeInv_start store) hr

/-! ## Single use -/

/-- A code that was presented to the removal step is not in the map. -/
theorem CodeInv.lookup_eq_none {h : List CodeEvent} {s : CodeSystem} (hi : CodeInv C S h s)
    {p : Redemption} (hp : .took p ∈ h) :
    s.server.authorizationCodes.lookup (tokenHash C S p.x.code) = none := by
  rw [Option.eq_none_iff_forall_ne_some]
  intro record hl
  obtain ⟨code, hh, hm, hq⟩ := hi.stored _ record hl
  exact hq p hp (hi.separated _ (mem_seenCodes_of_took hp) _ hm.mem_seenCodes hh)

/-- The step in which an exchange of the history was finished. -/
theorem exists_redeem {store : RefreshTokenStore} {h : List CodeEvent} {s : CodeSystem}
    (hr : Run (FreshCodeStep C S) (.start store) h s) {r : Redemption} {env : TokenEnv}
    {result : Except OAuthError TokenResponse} (hmem : .finished r env result ∈ h) :
    ∃ pre server server', (∃ post, h = pre ++ .finished r env result :: post) ∧ .took r ∈ pre ∧
      (∀ record, r.removed = some record → Minted C S pre r.x.code record) ∧
      redeem C S server env r.x r.removed = (server', result) := by
  obtain ⟨pre, post, rfl⟩ := List.append_of_mem hmem
  obtain ⟨s₁, s₂, hpre, ⟨_, hstep⟩, _⟩ := hr.split
  have hi := codeInv_run hpre
  cases hstep with
  | @finished server server' l₁ l₂ _ _ _ hred =>
    have htook : CodeEvent.took r ∈ pre := hi.pending r (by simp)
    exact ⟨pre, server, server', ⟨post, rfl⟩, htook, (hi.opened r htook).2, hred⟩

/-- Without a removed record there is no pair. -/
theorem redeem_none {s s' : OAuthState} {env : TokenEnv} {x : CodeExchange}
    {result : Except OAuthError TokenResponse} (h : redeem C S s env x none = (s', result)) :
    result = .error .invalidGrant :=
  (congrArg Prod.snd h).symm

/-- A pair is issued for a record that passes the checks. -/
theorem redeem_ok {s s' : OAuthState} {env : TokenEnv} {x : CodeExchange}
    {removed : Option AuthorizationCode} {response : TokenResponse}
    (h : redeem C S s env x removed = (s', .ok response)) :
    ∃ record, removed = some record ∧ checkRecord C x record env.now = .ok () := by
  cases removed with
  | none => exact absurd (redeem_none h) (by simp)
  | some record =>
    refine ⟨record, rfl, ?_⟩
    cases hc : checkRecord C x record env.now with
    | ok u => rfl
    | error e =>
      unfold redeem at h
      simp only [hc] at h
      exact absurd (congrArg Prod.snd h) (by simp)

theorem sublist_filterMap {α β : Type} {f g : α → Option β} {l : List α}
    (h : ∀ a ∈ l, ∀ b, f a = some b → g a = some b) :
    (l.filterMap f).Sublist (l.filterMap g) := by
  induction l with
  | nil => exact .slnil
  | cons a l ih =>
    have hl := ih fun x hx => h x (List.mem_cons_of_mem _ hx)
    cases hf : f a with
    | none =>
      rw [List.filterMap_cons_none hf]
      cases hg : g a with
      | none => rw [List.filterMap_cons_none hg]; exact hl
      | some b => rw [List.filterMap_cons_some hg]; exact hl.cons b
    | some b =>
      rw [List.filterMap_cons_some hf, List.filterMap_cons_some (h a List.mem_cons_self b hf)]
      exact hl.cons_cons b

/-- Every redeemed code is one that was removed and is done with. -/
theorem redeemedCodes_sublist {store : RefreshTokenStore} {h : List CodeEvent} {s : CodeSystem}
    (hr : Run (FreshCodeStep C S) (.start store) h s) :
    (redeemedCodes h).Sublist (finishedCodes h) := by
  refine sublist_filterMap fun e he code hcode => ?_
  cases e with
  | finished r env result =>
    cases result with
    | ok response =>
      obtain ⟨_, _, _, _, _, _, hred⟩ := exists_redeem hr he
      obtain ⟨record, hremoved, _⟩ := redeem_ok hred
      simpa [CodeEvent.finishedCode, CodeEvent.redeemedCode, hremoved] using hcode
    | error e => simp [CodeEvent.redeemedCode] at hcode
  | _ => simp [CodeEvent.redeemedCode] at hcode

/-- What a pair of tokens says about the request it was issued for. -/
def BoundTo (C : Crates) (S : OAuthSettings) (r : Redemption) (now : UInt64)
    (record : AuthorizationCode) : Prop :=
  r.request.code = some r.x.code ∧
  (∃ client, authenticateClient C S r.request r.header = .ok client ∧
    client.clientId = record.clientId) ∧
  r.request.redirectUri = some record.redirectUri ∧
  r.request.resource = record.resource ∧
  now < record.expiresAt ∧
  ∃ verifier, r.request.codeVerifier = some verifier ∧
    43 ≤ verifier.utf8ByteSize ∧ verifier.utf8ByteSize ≤ 128 ∧
    (∀ b ∈ utf8 verifier, unreserved b = true) ∧
    Base64.urlSafe.encode (C.sha256 (utf8 verifier)).1 = record.codeChallenge

/-- The first checks and the checks on the record together bind the request to the record. -/
theorem boundTo_of_checks {r : Redemption} {now : UInt64} {record : AuthorizationCode}
    (hopen : openCodeExchange C S r.request r.header = .ok r.x)
    (hcheck : checkRecord C r.x record now = .ok ()) : BoundTo C S r now record := by
  obtain ⟨hcode, huri, hverifier, hres, _, hclient⟩ := openCodeExchange_eq_ok hopen
  obtain ⟨hexp, hid, hru, hrr, hpkce⟩ := checkRecord_eq_ok.mp hcheck
  obtain ⟨hvalid, hchallenge⟩ := verifyPkce_iff.mp hpkce
  simp only [validCodeVerifier, Bool.and_eq_true, decide_eq_true_eq, List.all_eq_true] at hvalid
  exact ⟨hcode, ⟨_, hclient, hid.symm⟩, by rw [huri, hru], by rw [hres, hrr], hexp, _, hverifier,
    hvalid.1.1, hvalid.1.2, hvalid.2, hchallenge⟩

/--
**Authorization codes are single-use and bound.** In every interleaving

* no code is redeemed twice;
* once a call reached the removal step with a code, the code is gone, and every call that reaches
  the removal step with it later on fails;
* a pair is issued only for a minted code, to a request that the record of the code is bound to.
-/
theorem code_single_use {store : RefreshTokenStore} {h : List CodeEvent} {s : CodeSystem}
    (hr : Run (FreshCodeStep C S) (.start store) h s) :
    (redeemedCodes h).Nodup ∧
    (∀ pre p post, h = pre ++ .took p :: post →
      s.server.authorizationCodes.lookup (tokenHash C S p.x.code) = none ∧
      ∀ q, .took q ∈ post → q.x.code = p.x.code → q.removed = none ∧
        ∀ env result, .finished q env result ∈ h → result = .error .invalidGrant) ∧
    (∀ r env response, .finished r env (.ok response) ∈ h →
      ∃ record, Minted C S h r.x.code record ∧ BoundTo C S r env.now record) := by
  have hi := codeInv_run hr
  refine ⟨?_, ?_, ?_⟩
  · have hn : (pendingCodes s.pending ++ finishedCodes h).Nodup := hi.balance.nodup hi.nodup
    exact (redeemedCodes_sublist hr).nodup hn.of_append_right
  · rintro pre p post rfl
    refine ⟨hi.lookup_eq_none (by simp), fun q hq hcode => ?_⟩
    have hnone : q.removed = none := by
      -- the call presented the code when it was gone already
      obtain ⟨mid, rest, rfl⟩ := List.append_of_mem hq
      rw [← List.cons_append, ← List.append_assoc] at hr
      obtain ⟨s₁, s₂, hpre, ⟨_, hstep⟩, _⟩ := hr.split
      have hgone := (codeInv_run hpre).lookup_eq_none (p := p) (by simp)
      cases hstep with
      | took _ ht =>
        rw [← (Prod.mk.inj ht).2, hcode]
        exact hgone
    refine ⟨hnone, fun env result hmem => ?_⟩
    obtain ⟨_, _, _, _, _, _, hred⟩ := exists_redeem hr hmem
    rw [hnone] at hred
    exact redeem_none hred
  · intro r env response hmem
    obtain ⟨pre, _, _, ⟨post, rfl⟩, htook, hminted, hred⟩ := exists_redeem hr hmem
    obtain ⟨record, hremoved, hcheck⟩ := redeem_ok hred
    have hopen := (hi.opened r (List.mem_append_left _ htook)).1
    obtain ⟨env', form, result, hmem', hcode⟩ := hminted record hremoved
    exact ⟨record, ⟨env', form, result, List.mem_append_left _ hmem', hcode⟩,
      boundTo_of_checks hopen hcheck⟩

/-- A call that runs undisturbed is a removal and a finish. -/
theorem codeSteps_of_exchange {s s' : OAuthState} {pending : List Redemption} {env : TokenEnv}
    {request : TokenRequest} {header : Option String} {x : CodeExchange}
    {result : Except OAuthError TokenResponse}
    (hopen : openCodeExchange C S request header = .ok x)
    (h : exchangeAuthorizationCode C S s env request header = (s', result)) :
    ∃ s₁ removed, CodeStep C S ⟨s, pending⟩ (.took ⟨request, header, x, removed⟩)
        ⟨s₁, ⟨request, header, x, removed⟩ :: pending⟩ ∧
      CodeStep C S ⟨s₁, ⟨request, header, x, removed⟩ :: pending⟩
        (.finished ⟨request, header, x, removed⟩ env result) ⟨s', pending⟩ := by
  have hred : redeem C S (s.takeCode (tokenHash C S x.code)).1 env x
      (s.takeCode (tokenHash C S x.code)).2 = (s', result) := by
    rw [← h, exchangeAuthorizationCode, hopen]
  refine ⟨_, (s.takeCode (tokenHash C S x.code)).2, .took hopen rfl, ?_⟩
  show CodeStep C S ⟨_, [] ++ _ :: pending⟩ _ ⟨s', [] ++ pending⟩
  exact .finished hred

/-! ### Two calls with one code -/

/-- Nothing collides as long as only one code came up. -/
theorem freshCodes_of_one_code {h : List CodeEvent} {e : CodeEvent} (code : String)
    (hh : ∀ c ∈ seenCodes C S h, c = code) (he : ∀ c ∈ e.codes C S, c = code)
    (hm : ∀ env form result, e ≠ .completed env form result) : FreshCodes C S h e where
  minted env form result heq := absurd heq (hm env form result)
  collisionFree c hc c' hc' _ := (hh c hc).trans (he c' hc').symm

/-- Two calls take the same code before one of them goes on; the first is answered. -/
theorem exists_run_two_calls {env : CompleteEnv} {form : ApprovalForm} {code : String}
    {record : AuthorizationCode} {request : TokenRequest} {x : CodeExchange} {tokenEnv : TokenEnv}
    (hmint : mintedCode C S env form = some (code, record))
    (hopen : openCodeExchange C S request none = .ok x) (hx : x.code = code)
    (hok : ∀ state : OAuthState, (∀ k, state.refreshTokens.state.families.lookup k = none) →
      ∃ response, (redeem C S state tokenEnv x (some record)).2 = .ok response) :
    ∃ approved response s,
      Run (FreshCodeStep C S) (.start .fresh)
        [.completed env form approved, .took ⟨request, none, x, some record⟩,
          .took ⟨request, none, x, none⟩,
          .finished ⟨request, none, x, some record⟩ tokenEnv (.ok response)] s := by
  -- the states: with the code, and without it
  let s₁ := (completeAuthorization C S ⟨∅, .fresh⟩ env form).1
  let s₂ := (s₁.takeCode (tokenHash C S x.code)).1
  let s₃ := (s₂.takeCode (tokenHash C S x.code)).1
  have hs₁ : s₁ = (OAuthState.mk ∅ .fresh).insertCode env.prunedAt (tokenHash C S x.code)
      record := by
    show (completeAuthorization C S ⟨∅, .fresh⟩ env form).1 = _
    rw [completeAuthorization_state, hmint, hx]
  have hfound : s₁.authorizationCodes.lookup (tokenHash C S x.code) = some record := by
    rw [hs₁]
    exact AList.lookup_insert _
  have hgone : s₂.authorizationCodes.lookup (tokenHash C S x.code) = none := AList.lookup_erase _ _
  have hstore : ∀ k, s₃.refreshTokens.state.families.lookup k = none := by
    intro k
    show s₁.refreshTokens.state.families.lookup k = none
    rw [hs₁]
    exact RefreshTokenState.lookup_default k
  obtain ⟨response, hresponse⟩ := hok s₃ hstore
  let e₁ : CodeEvent := .completed env form (completeAuthorization C S ⟨∅, .fresh⟩ env form).2
  let r : Option AuthorizationCode → Redemption := fun removed => ⟨request, none, x, removed⟩
  have hc₁ : e₁.codes C S = [code] := by
    show (mintedCode C S env form).toList.map Prod.fst = [code]
    rw [hmint]
    rfl
  have hc : ∀ removed, (CodeEvent.took (r removed)).codes C S = [code] := by
    intro removed
    show [x.code] = [code]
    rw [hx]
  have f₁ : FreshCodes C S [] e₁ := ⟨by simp [seenCodes], by simp [seenCodes]⟩
  have f₂ : FreshCodes C S [e₁] (.took (r (some record))) :=
    freshCodes_of_one_code code (by simp [seenCodes, hc₁]) (by simp [hc]) (by simp)
  have f₃ : FreshCodes C S [e₁, .took (r (some record))] (.took (r none)) :=
    freshCodes_of_one_code code (by simp [seenCodes, hc₁, hc]) (by simp [hc]) (by simp)
  have f₄ : FreshCodes C S [e₁, .took (r (some record)), .took (r none)]
      (.finished (r (some record)) tokenEnv (.ok response)) :=
    freshCodes_of_one_code code (by simp [seenCodes, hc₁, hc])
      (by simp [CodeEvent.codes]) (by simp)
  have t₁ : CodeStep C S (.start .fresh) e₁ ⟨s₁, []⟩ := .completed rfl
  have t₂ : CodeStep C S ⟨s₁, []⟩ (.took (r (some record))) ⟨s₂, [r (some record)]⟩ :=
    .took hopen (Prod.ext rfl hfound)
  have t₃ : CodeStep C S ⟨s₂, [r (some record)]⟩ (.took (r none))
      ⟨s₃, [r none, r (some record)]⟩ := .took hopen (Prod.ext rfl hgone)
  have t₄ : CodeStep C S ⟨s₃, [r none] ++ r (some record) :: []⟩
      (.finished (r (some record)) tokenEnv (.ok response))
      ⟨(redeem C S s₃ tokenEnv x (some record)).1, [r none] ++ []⟩ :=
    .finished (Prod.ext rfl hresponse)
  have hrun : Run (FreshCodeStep C S) (.start .fresh) [e₁] ⟨s₁, []⟩ := .single ⟨f₁, t₁⟩
  exact ⟨_, response, _, ((hrun.tail ⟨f₂, t₂⟩).tail ⟨f₃, t₃⟩).tail ⟨f₄, t₄⟩⟩

/-- The second call of two is refused, and the first one was bound to the code. -/
theorem code_single_use_two_calls :
    ∃ approved response s,
      Run (FreshCodeStep Reference.crates Reference.settings) (.start .fresh)
        [.completed Reference.completeEnv Reference.form approved,
          .took ⟨Reference.codeRequest, none, Reference.codeExchange, some Reference.record⟩,
          .took ⟨Reference.codeRequest, none, Reference.codeExchange, none⟩,
          .finished ⟨Reference.codeRequest, none, Reference.codeExchange, some Reference.record⟩
            Reference.tokenEnv (.ok response)] s ∧
      s.server.authorizationCodes.lookup
        (tokenHash Reference.crates Reference.settings Reference.codeExchange.code) = none ∧
      ∃ record, BoundTo Reference.crates Reference.settings
        ⟨Reference.codeRequest, none, Reference.codeExchange, some Reference.record⟩
        Reference.tokenEnv.now record := by
  obtain ⟨approved, response, s, hrun⟩ := exists_run_two_calls Reference.mintedCode_form
    Reference.openCodeExchange_codeRequest rfl fun _ => Reference.exists_redeem_code
  obtain ⟨_, hgone, hbound⟩ := code_single_use hrun
  have hlast {a b c d : CodeEvent} : d ∈ [a, b, c, d] := List.mem_of_getLast? rfl
  obtain ⟨record, _, hb⟩ := hbound _ _ _ hlast
  exact ⟨approved, response, s, hrun, (hgone [_] _ _ rfl).1, record, hb⟩

end EngramMcp
