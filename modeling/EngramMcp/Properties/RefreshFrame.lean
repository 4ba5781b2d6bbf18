import EngramMcp.OAuth.Reference

/-!
# The frame of a refresh

A refresh rewrites the whole map of families and drops every expired one. What it does to the
other families is not observable: from then on nothing looks at an expired entry.

* `lookup_pruned_of_call` — a call leaves the live entries of the other families as they are
* `rotate_eq_ok_iff`, `rotate_completes` — the answer of `rotate`, from the live entry
* `refresh_frame` — the property
-/

namespace EngramMcp

open Infra

/-! ## What is observable of a family -/

/-- From a point in time on, two stores have the same live entry of a family. -/
def SameFrom (k : String) (now : UInt64) (store store' : RefreshTokenStore) : Prop :=
  ∀ t ≥ now, (store'.state.pruned t).families.lookup k = (store.state.pruned t).families.lookup k

theorem SameFrom.mono {k : String} {now t : UInt64} {store store' : RefreshTokenStore}
    (h : SameFrom k now store store') (ht : t ≥ now) : SameFrom k t store store' :=
  fun u hu => h u (UInt64.le_trans ht hu)

/-- Pruning earlier makes no difference to what is live. -/
theorem lookup_pruned_pruned {s : RefreshTokenState} {k : String} {now t : UInt64} (ht : t ≥ now) :
    ((s.pruned now).pruned t).families.lookup k = (s.pruned t).families.lookup k := by
  refine Option.ext fun f => ?_
  rw [RefreshTokenState.lookup_pruned_eq_some, RefreshTokenState.lookup_pruned_eq_some,
    RefreshTokenState.lookup_pruned_eq_some, and_assoc]
  refine and_congr_right fun _ => ⟨fun h => h.2, fun h => ⟨UInt64.lt_of_le_of_lt ht h, h⟩⟩

theorem lookup_pruned_set_ne {s : RefreshTokenState} {k k' : String} (f : RefreshTokenFamily)
    (hk : k ≠ k') (t : UInt64) :
    ((s.set k' f).pruned t).families.lookup k = (s.pruned t).families.lookup k := by
  refine Option.ext fun g => ?_
  rw [RefreshTokenState.lookup_pruned_eq_some, RefreshTokenState.lookup_pruned_eq_some,
    RefreshTokenState.lookup_set_ne _ _ hk]

/-- The time at which a call prunes. -/
def StoreCall.now : StoreCall → UInt64
  | .createFamily _ _ _ now => now
  | .rotate _ _ _ _ now => now

/-- A call leaves the live entries of the other families as they are. -/
theorem StoreEffect.lookup_pruned {s s' : RefreshTokenState} {c : StoreCall}
    {r : Except OAuthError Unit} (h : StoreEffect s c r s') {k : String} (hk : k ≠ c.familyId)
    {t : UInt64} (ht : t ≥ c.now) :
    (s'.pruned t).families.lookup k = (s.pruned t).families.lookup k := by
  cases h with
  | rejected => rfl
  | created _ => exact (lookup_pruned_set_ne _ hk t).trans (lookup_pruned_pruned ht)
  | unknown _ => exact lookup_pruned_pruned ht
  | dead _ _ => exact lookup_pruned_pruned ht
  | replayed _ _ _ => exact (lookup_pruned_set_ne _ hk t).trans (lookup_pruned_pruned ht)
  | rotated _ _ _ => exact (lookup_pruned_set_ne _ hk t).trans (lookup_pruned_pruned ht)

theorem sameFrom_call (store : RefreshTokenStore) (io : PersistIo) (c : StoreCall) {k : String}
    (hk : k ≠ c.familyId) : SameFrom k c.now store (store.call io c).1 := by
  intro t ht
  rcases store.call_effect io c with heff | ⟨hstate, -⟩
  · exact heff.lookup_pruned hk ht
  · rw [hstate]

theorem isActive_eq_of_sameFrom {k : String} {now t : UInt64} {store store' : RefreshTokenStore}
    (h : SameFrom k now store store') (ht : t ≥ now) :
    store'.isActive k t = store.isActive k t := by
  have hiff : ∀ st : RefreshTokenStore, st.isActive k t = true ↔
      ∃ f, (st.state.pruned t).families.lookup k = some f ∧ f.revoked = false := by
    intro st
    rw [RefreshTokenStore.isActive_iff]
    refine exists_congr fun f => ?_
    rw [RefreshTokenState.lookup_pruned_eq_some]
    tauto
  rw [Bool.eq_iff_iff, hiff, hiff, h t ht]

/-! ## The outcome of a rotation -/

/-- The token hash that `rotate` accepts for a family, from its live entry. -/
def Accepts (entry : Option RefreshTokenFamily) (presented : String) : Prop :=
  ∃ f, entry = some f ∧ f.revoked = false ∧ f.activeTokenHash = presented

theorem accepts_some_iff {f : RefreshTokenFamily} {presented : String} :
    Accepts (some f) presented ↔ f.revoked = false ∧ f.activeTokenHash = presented := by
  constructor
  · rintro ⟨g, hg, hlive, hpresented⟩
    obtain rfl := Option.some.inj hg
    exact ⟨hlive, hpresented⟩
  · rintro ⟨hlive, hpresented⟩
    exact ⟨f, rfl, hlive, hpresented⟩

/-- What `rotate` plans: a new entry for a token that is accepted, and a refusal otherwise. -/
theorem rotatePlan_answer (s : RefreshTokenState) (k presented next : String)
    (expiresAt t : UInt64) :
    ((rotatePlan s k presented next expiresAt t).answer = .ok () ∧
      (rotatePlan s k presented next expiresAt t).next.isSome = true ∧
      Accepts ((s.pruned t).families.lookup k) presented) ∨
    ((rotatePlan s k presented next expiresAt t).answer = .error .invalidGrant ∧
      ¬Accepts ((s.pruned t).families.lookup k) presented) := by
  rcases rotatePlan_cases s k presented next expiresAt t with
    ⟨hk, ha, -⟩ | ⟨f, hk, hr, ha, -⟩ | ⟨f, hk, hr, hp, ha, -⟩ | ⟨f, hk, hr, hp, ha, hn⟩
  · -- no live family
    rw [hk]
    exact Or.inr ⟨ha, fun ⟨f, hf, _⟩ => nomatch hf⟩
  · -- a revoked one
    rw [hk, accepts_some_iff, hr]
    exact Or.inr ⟨ha, fun h => nomatch h.1⟩
  · -- a replay
    rw [hk, accepts_some_iff]
    exact Or.inr ⟨ha, fun h => hp h.2⟩
  · rw [hk, accepts_some_iff]
    exact Or.inl ⟨ha, by rw [hn]; rfl, hr, hp⟩

/-- What `rotate` answers when its `persist`, if there is one, succeeds. -/
theorem rotate_completes (store : RefreshTokenStore) (k presented next : String)
    (expiresAt t : UInt64) :
    ((store.rotate .completes k presented next expiresAt t).2 = .ok () ∧
      Accepts ((store.state.pruned t).families.lookup k) presented) ∨
    ((store.rotate .completes k presented next expiresAt t).2 = .error .invalidGrant ∧
      ¬Accepts ((store.state.pruned t).families.lookup k) presented) := by
  have hanswer := (store.commit_completes
    (rotatePlan store.state k presented next expiresAt t)).1
  unfold RefreshTokenStore.rotate
  rw [hanswer]
  rcases rotatePlan_answer store.state k presented next expiresAt t with
    ⟨ha, -, hacc⟩ | ⟨ha, hacc⟩
  · exact Or.inl ⟨ha, hacc⟩
  · exact Or.inr ⟨ha, hacc⟩

/-- A call that went through stored what it had to store. -/
theorem commit_eq_ok {store : RefreshTokenStore} {io : PersistIo} {plan : Plan}
    (h : (store.commit io plan).2 = .ok ()) :
    plan.answer = .ok () ∧ (plan.next.isSome = true → io = .completes) := by
  cases hn : plan.next with
  | none =>
    rw [RefreshTokenStore.commit_of_next_eq_none hn] at h
    exact ⟨h, fun hs => by cases hs⟩
  | some next =>
    cases io with
    | completes =>
      rw [(store.commit_completes plan).1] at h
      exact ⟨h, fun _ => rfl⟩
    | fails step =>
      rw [(store.commit_fails plan step hn).1] at h
      cases h

/-- A rotation goes through when the live entry accepts it and the new map can be stored. -/
theorem rotate_eq_ok_iff (store : RefreshTokenStore) (io : PersistIo) (k presented next : String)
    (expiresAt t : UInt64) :
    (store.rotate io k presented next expiresAt t).2 = .ok () ↔
      io = .completes ∧ Accepts ((store.state.pruned t).families.lookup k) presented := by
  constructor
  · intro h
    obtain ⟨hanswer, hio⟩ := commit_eq_ok h
    rcases rotatePlan_answer store.state k presented next expiresAt t with
      ⟨-, hnext, hacc⟩ | ⟨ha, -⟩
    · exact ⟨hio hnext, hacc⟩
    · rw [ha] at hanswer
      cases hanswer
  · rintro ⟨rfl, hacc⟩
    rcases rotate_completes store k presented next expiresAt t with ⟨ha, -⟩ | ⟨-, hnot⟩
    · exact ha
    · exact absurd hacc hnot

/-- The entry of a family after a rotation, from the live entry before it. -/
def rotatedEntry (entry : Option RefreshTokenFamily) (presented next : String)
    (expiresAt : UInt64) : Option RefreshTokenFamily :=
  entry.map fun f =>
    if f.revoked then f
    else if f.activeTokenHash = presented then
      { f with activeTokenHash := next, expiresAt := expiresAt }
    else { f with revoked := true }

theorem lookup_pruned_eq_filter (s : RefreshTokenState) (k : String) (t : UInt64) :
    (s.pruned t).families.lookup k
      = (s.families.lookup k).filter fun f => decide (t < f.expiresAt) := by
  refine Option.ext fun f => ?_
  rw [RefreshTokenState.lookup_pruned_eq_some, Option.filter_eq_some_iff, decide_eq_true_eq]

theorem lookup_rotate (store : RefreshTokenStore) (k presented next : String)
    (expiresAt t : UInt64) :
    (store.rotate .completes k presented next expiresAt t).1.state.families.lookup k
      = rotatedEntry ((store.state.pruned t).families.lookup k) presented next expiresAt := by
  have hstate := (store.commit_completes
    (rotatePlan store.state k presented next expiresAt t)).2
  unfold RefreshTokenStore.rotate
  rw [hstate]
  rcases rotatePlan_cases store.state k presented next expiresAt t with
    ⟨hk, -, hres⟩ | ⟨f, hk, hr, -, hres⟩ | ⟨f, hk, hr, hp, -, hn⟩ | ⟨f, hk, hr, hp, -, hn⟩
  · rw [hres, hk]
    rfl
  · rw [hres, hk, rotatedEntry, Option.map_some, if_pos hr]
  · rw [Plan.result, hn, Option.getD_some, RefreshTokenState.lookup_set_self, hk, rotatedEntry,
      Option.map_some, if_neg (by simp [hr]), if_neg hp]
  · rw [Plan.result, hn, Option.getD_some, RefreshTokenState.lookup_set_self, hk, rotatedEntry,
      Option.map_some, if_neg (by simp [hr]), if_pos hp]

/-- After a rotation the live entries are the same again. -/
theorem sameFrom_rotate {k : String} {t : UInt64} {store store' : RefreshTokenStore}
    (h : SameFrom k t store store') (io : PersistIo) (presented next : String)
    (expiresAt : UInt64) :
    SameFrom k t (store.rotate io k presented next expiresAt t).1
      (store'.rotate io k presented next expiresAt t).1 := by
  intro u hu
  cases io with
  | completes =>
    rw [lookup_pruned_eq_filter, lookup_pruned_eq_filter, lookup_rotate, lookup_rotate,
      h t (UInt64.le_refl t)]
  | fails step =>
    -- memory is pruned at most
    have hfails : ∀ st : RefreshTokenStore,
        ((st.rotate (.fails step) k presented next expiresAt t).1.state.pruned u).families.lookup k
          = (st.state.pruned u).families.lookup k := by
      intro st
      unfold RefreshTokenStore.rotate
      cases hn : (rotatePlan st.state k presented next expiresAt t).next with
      | none => rw [RefreshTokenStore.commit_of_next_eq_none hn]
      | some next' => rw [(st.commit_fails _ step hn).2.1]
    rw [hfails, hfails]
    exact h u hu

/-! ## The property -/

/-- The presented token is one that the client may exchange now. -/
def Exchangeable (C : Crates) (S : OAuthSettings) (env : TokenEnv) (request : TokenRequest)
    (header : Option String) : Prop :=
  ∃ client token claims, authenticateClient C S request header = .ok client ∧
    request.refreshToken = some token ∧
    verifyToken C S C.refreshClaims refreshTokenPrefix refreshTokenLabel token = .ok claims ∧
    env.now < claims.expiresAt ∧
    (request.resource = S.resource ∧ claims.audience = S.resource) ∧
    claims.clientBinding = clientBinding C S client.clientId

/-- The presented token names a family. -/
def NamesFamily (C : Crates) (S : OAuthSettings) (request : TokenRequest) (k : String) : Prop :=
  ∃ token claims, request.refreshToken = some token ∧
    verifyToken C S C.refreshClaims refreshTokenPrefix refreshTokenLabel token = .ok claims ∧
    claims.familyId = k

/-- From a point in time on nothing tells whether a family was left alone. -/
structure Unaffected (k : String) (now : UInt64) (store store' : RefreshTokenStore) : Prop where
  isActive : ∀ t ≥ now, store'.isActive k t = store.isActive k t
  rotates : ∀ t ≥ now, ∀ io presented next expiresAt,
    (store'.rotate io k presented next expiresAt t).2 = .ok () ↔
      (store.rotate io k presented next expiresAt t).2 = .ok ()
  answers : ∀ t ≥ now, ∀ presented next expiresAt,
    (store'.rotate .completes k presented next expiresAt t).2
      = (store.rotate .completes k presented next expiresAt t).2
  afterwards : ∀ t ≥ now, ∀ io presented next expiresAt, ∀ u ≥ t,
    (store'.rotate io k presented next expiresAt t).1.isActive k u
      = (store.rotate io k presented next expiresAt t).1.isActive k u

theorem unaffected_of_sameFrom {k : String} {now : UInt64} {store store' : RefreshTokenStore}
    (h : SameFrom k now store store') : Unaffected k now store store' where
  isActive t ht := isActive_eq_of_sameFrom h ht
  rotates t ht io presented next expiresAt := by
    rw [rotate_eq_ok_iff, rotate_eq_ok_iff, h t ht]
  answers t ht presented next expiresAt := by
    rcases rotate_completes store k presented next expiresAt t with ⟨ha, hacc⟩ | ⟨ha, hacc⟩ <;>
      rcases rotate_completes store' k presented next expiresAt t with
        ⟨ha', hacc'⟩ | ⟨ha', hacc'⟩ <;>
      rw [h t ht] at hacc'
    · rw [ha, ha']
    · exact absurd hacc hacc'
    · exact absurd hacc' hacc
    · rw [ha, ha']
  afterwards t ht io presented next expiresAt u hu :=
    isActive_eq_of_sameFrom (sameFrom_rotate (h.mono ht) io presented next expiresAt) hu

section

variable {C : Crates} {S : OAuthSettings} {env : TokenEnv} {request : TokenRequest}
  {header : Option String}

/-- A rotation is only reached with a token that may be exchanged, and is one of its family. -/
theorem exchangeable_of_prepareRotation {p : PreparedRotation}
    (h : prepareRotation C S env request header = .ok p) :
    Exchangeable C S env request header ∧ NamesFamily C S request p.presented.familyId := by
  obtain ⟨client, scopes, hopen, hcheck, -, -⟩ := prepareRotation_eq_ok h
  obtain ⟨token, ht, -, hres, hclient, hv⟩ := openRefreshToken_eq_ok.mp hopen
  obtain ⟨-, -, haud, hexp, hbind⟩ := checkRefreshClaims_eq_ok.mp hcheck
  exact ⟨⟨client, token, p.presented, hclient, ht, hv, hexp, ⟨hres, haud⟩, hbind⟩,
    token, p.presented, ht, hv, rfl⟩

/-- A refresh touches no store without an exchangeable token, and no family but the one named. -/
theorem refresh_frame (s : OAuthState) (hgrant : request.grantType = "refresh_token") :
    (¬Exchangeable C S env request header → (exchangeToken C S s env request header).1 = s) ∧
    ∀ k, ¬NamesFamily C S request k →
      Unaffected k env.now s.refreshTokens
        (exchangeToken C S s env request header).1.refreshTokens := by
  rw [exchangeToken_refresh hgrant]
  unfold exchangeRefreshToken
  cases hp : prepareRotation C S env request header with
  | error e => exact ⟨fun _ => rfl, fun k _ => unaffected_of_sameFrom fun _ _ => rfl⟩
  | ok p =>
    obtain ⟨hexchangeable, hnames⟩ := exchangeable_of_prepareRotation hp
    refine ⟨fun hnot => absurd hexchangeable hnot, fun k hk => unaffected_of_sameFrom ?_⟩
    refine sameFrom_call s.refreshTokens env.io (p.rotateCall C S env.now) fun he => ?_
    exact hk (he ▸ hnames)

end

/-- A store with one family beside the one of the presented token. -/
def Reference.neighbour : OAuthState :=
  ⟨∅, ⟨StateDir.empty, RefreshTokenState.default.set "rf_neighbour" ⟨"hash", 1800000000, false⟩⟩⟩

/-- The token of one family leaves the other as it is. -/
theorem refresh_frame_neighbour :
    Unaffected "rf_neighbour" Reference.refreshEnv.now Reference.neighbour.refreshTokens
      (exchangeToken Reference.crates Reference.settings Reference.neighbour Reference.refreshEnv
        (Reference.refreshRequest none) none).1.refreshTokens := by
  refine (refresh_frame Reference.neighbour rfl).2 "rf_neighbour" ?_
  rintro ⟨token, claims, ht, hv, hfamily⟩
  cases Option.some.inj ht
  rw [verifyToken_refreshTokenOf] at hv
  rw [← Except.ok.inj hv] at hfamily
  exact absurd hfamily (by decide +kernel)

end EngramMcp
