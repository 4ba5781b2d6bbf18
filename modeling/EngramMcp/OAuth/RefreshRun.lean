import EngramMcp.Infra.Run
import EngramMcp.OAuth.RefreshStore

/-!
# Calls on the refresh-token store

The mutex of the store serializes its calls, so any use of it is a sequence of calls. This file
names the calls, says once what each of them can do to the map (`StoreCall.effect_plan`), and
shows the two facts every result about the store rests on.

* `InSync` — the file, if there is one, is the serialization of the map in memory
* `call_congr` — equal maps give equal answers and equal maps
-/

namespace EngramMcp

open Infra

/-- A writing call. -/
inductive StoreCall
  | createFamily (familyId activeTokenHash : String) (expiresAt now : UInt64)
  | rotate (familyId presentedTokenHash nextTokenHash : String) (expiresAt now : UInt64)

namespace StoreCall

/-- The family the call names. -/
def familyId : StoreCall → String
  | createFamily familyId .. => familyId
  | rotate familyId .. => familyId

/-- What the call wants to store. -/
def plan (state : RefreshTokenState) : StoreCall → Plan
  | createFamily familyId activeTokenHash expiresAt now =>
    createFamilyPlan state familyId activeTokenHash expiresAt now
  | rotate familyId presentedTokenHash nextTokenHash expiresAt now =>
    rotatePlan state familyId presentedTokenHash nextTokenHash expiresAt now

end StoreCall

/-- Runs a writing call. -/
def RefreshTokenStore.call (store : RefreshTokenStore) (io : PersistIo) :
    StoreCall → RefreshTokenStore × Except OAuthError Unit
  | .createFamily familyId activeTokenHash expiresAt now =>
    store.createFamily io familyId activeTokenHash expiresAt now
  | .rotate familyId presentedTokenHash nextTokenHash expiresAt now =>
    store.rotate io familyId presentedTokenHash nextTokenHash expiresAt now

theorem RefreshTokenStore.call_eq_commit (store : RefreshTokenStore) (io : PersistIo)
    (c : StoreCall) : store.call io c = store.commit io (c.plan store.state) := by
  cases c <;> rfl

/-- The store after a sequence of calls whose `persist` succeeds. -/
def RefreshTokenStore.calls (store : RefreshTokenStore) (cs : List StoreCall) :
    RefreshTokenStore := cs.foldl (fun s c => (s.call .completes c).1) store

theorem RefreshTokenStore.calls_concat (store : RefreshTokenStore) (cs : List StoreCall)
    (c : StoreCall) :
    store.calls (cs ++ [c]) = ((store.calls cs).call .completes c).1 := by
  rw [calls, calls, List.foldl_append, List.foldl_cons, List.foldl_nil]

/-! ## What a call does to the map -/

/--
The effect of a call, with its answer, on the map.

Every call but a rejected `create_family` prunes; beyond that only the entry of the family the
call names may change.
-/
inductive StoreEffect (s : RefreshTokenState) :
    StoreCall → Except OAuthError Unit → RefreshTokenState → Prop
  | rejected {k hash : String} {expiresAt now : UInt64} :
      StoreEffect s (.createFamily k hash expiresAt now) (.error .entropy) s
  | created {k hash : String} {expiresAt now : UInt64} :
      (s.pruned now).families.lookup k = none →
      StoreEffect s (.createFamily k hash expiresAt now) (.ok ())
        ((s.pruned now).set k ⟨hash, expiresAt, false⟩)
  | unknown {k presented next : String} {expiresAt now : UInt64} :
      (s.pruned now).families.lookup k = none →
      StoreEffect s (.rotate k presented next expiresAt now) (.error .invalidGrant) (s.pruned now)
  | dead {k presented next : String} {expiresAt now : UInt64} {f : RefreshTokenFamily} :
      (s.pruned now).families.lookup k = some f → f.revoked = true →
      StoreEffect s (.rotate k presented next expiresAt now) (.error .invalidGrant) (s.pruned now)
  | replayed {k presented next : String} {expiresAt now : UInt64} {f : RefreshTokenFamily} :
      (s.pruned now).families.lookup k = some f → f.revoked = false →
      f.activeTokenHash ≠ presented →
      StoreEffect s (.rotate k presented next expiresAt now) (.error .invalidGrant)
        ((s.pruned now).set k { f with revoked := true })
  | rotated {k presented next : String} {expiresAt now : UInt64} {f : RefreshTokenFamily} :
      (s.pruned now).families.lookup k = some f → f.revoked = false →
      f.activeTokenHash = presented →
      StoreEffect s (.rotate k presented next expiresAt now) (.ok ())
        ((s.pruned now).set k { f with activeTokenHash := next, expiresAt := expiresAt })

/-- The plan of a call has one of the six effects. -/
theorem StoreCall.effect_plan (s : RefreshTokenState) (c : StoreCall) :
    StoreEffect s c (c.plan s).answer ((c.plan s).result s) := by
  cases c with
  | createFamily k hash expiresAt now =>
    rcases createFamilyPlan_cases s k hash expiresAt now with ⟨_, h⟩ | ⟨hk, h⟩
    · rw [StoreCall.plan, h]; exact .rejected
    · rw [StoreCall.plan, h]; exact .created hk
  | rotate k presented next expiresAt now =>
    rw [StoreCall.plan]
    rcases rotatePlan_cases s k presented next expiresAt now with
      ⟨hk, ha, hn⟩ | ⟨f, hk, hr, ha, hn⟩ | ⟨f, hk, hr, hp, ha, hn⟩ | ⟨f, hk, hr, hp, ha, hn⟩
    · rw [ha, hn]; exact .unknown hk
    · rw [ha, hn]; exact .dead hk hr
    · rw [ha, Plan.result, hn]; exact .replayed hk hr hp
    · rw [ha, Plan.result, hn]; exact .rotated hk hr hp

/-- A call leaves the entries of the other families alone, or prunes them. -/
theorem StoreEffect.lookup_ne {s s' : RefreshTokenState} {c : StoreCall}
    {r : Except OAuthError Unit} (h : StoreEffect s c r s') {k : String} {f : RefreshTokenFamily}
    (hk : k ≠ c.familyId)
    (hf : s'.families.lookup k = some f) : s.families.lookup k = some f := by
  cases h with
  | rejected => exact hf
  | created _ => exact RefreshTokenState.lookup_of_lookup_set_pruned hk hf
  | unknown _ => exact (RefreshTokenState.lookup_pruned_eq_some.mp hf).1
  | dead _ _ => exact (RefreshTokenState.lookup_pruned_eq_some.mp hf).1
  | replayed _ _ _ => exact RefreshTokenState.lookup_of_lookup_set_pruned hk hf
  | rotated _ _ _ => exact RefreshTokenState.lookup_of_lookup_set_pruned hk hf

/-- The token hash that a successful call leaves in the entry of its family. -/
def StoreCall.installs : StoreCall → String
  | .createFamily _ activeTokenHash .. => activeTokenHash
  | .rotate _ _ nextTokenHash .. => nextTokenHash

/-- After a successful call the entry of its family holds the new hash. -/
theorem StoreEffect.lookup_of_ok {s s' : RefreshTokenState} {c : StoreCall}
    (h : StoreEffect s c (.ok ()) s') {f : RefreshTokenFamily}
    (hf : s'.families.lookup c.familyId = some f) : f.activeTokenHash = c.installs := by
  cases h with
  | created _ =>
    rw [StoreCall.familyId, RefreshTokenState.lookup_set_self, Option.some.injEq] at hf
    rw [← hf]
    rfl
  | rotated _ _ _ =>
    rw [StoreCall.familyId, RefreshTokenState.lookup_set_self, Option.some.injEq] at hf
    rw [← hf]
    rfl

/-- A failing call changes no hash, and adds no family. -/
theorem StoreEffect.lookup_of_error {s s' : RefreshTokenState} {c : StoreCall} {e : OAuthError}
    (h : StoreEffect s c (.error e) s') {k : String} {f' : RefreshTokenFamily}
    (hf : s'.families.lookup k = some f') :
    ∃ f, s.families.lookup k = some f ∧ f'.activeTokenHash = f.activeTokenHash := by
  by_cases hk : k = c.familyId
  · cases h with
    | rejected => exact ⟨f', hf, rfl⟩
    | unknown _ => exact ⟨f', (RefreshTokenState.lookup_pruned_eq_some.mp hf).1, rfl⟩
    | dead _ _ => exact ⟨f', (RefreshTokenState.lookup_pruned_eq_some.mp hf).1, rfl⟩
    | @replayed k' _ _ _ _ f hold _ _ =>
      rw [hk, StoreCall.familyId, RefreshTokenState.lookup_set_self, Option.some.injEq] at hf
      refine ⟨f, ?_, by rw [← hf]⟩
      rw [hk]
      exact (RefreshTokenState.lookup_pruned_eq_some.mp hold).1
  · exact ⟨f', h.lookup_ne hk hf, rfl⟩

/-- A successful `rotate` presented the hash in the entry of the family. -/
theorem StoreEffect.presented_of_ok {s s' : RefreshTokenState} {k presented next : String}
    {expiresAt now : UInt64}
    (h : StoreEffect s (.rotate k presented next expiresAt now) (.ok ()) s') :
    ∃ f, s.families.lookup k = some f ∧ f.activeTokenHash = presented := by
  cases h with
  | rotated hf _ hp => exact ⟨_, (RefreshTokenState.lookup_pruned_eq_some.mp hf).1, hp⟩

/-- There is no entry of the family, or it is revoked. -/
def RefreshTokenState.NoLiveEntry (s : RefreshTokenState) (k : String) : Prop :=
  ∀ f, s.families.lookup k = some f → f.revoked = true

/-- **A family without a live entry stays without one**, unless it is created, and no token of it
is accepted. -/
theorem StoreEffect.noLiveEntry {s s' : RefreshTokenState} {c : StoreCall}
    {r : Except OAuthError Unit} (h : StoreEffect s c r s') {k : String} (hd : s.NoLiveEntry k)
    (hc : ∀ hash expiresAt now, c = .createFamily k hash expiresAt now → r ≠ .ok ()) :
    s'.NoLiveEntry k ∧ ∀ presented next expiresAt now,
      c = .rotate k presented next expiresAt now → r = .error .invalidGrant := by
  by_cases hk : c.familyId = k
  · subst hk
    cases h with
    | rejected => exact ⟨hd, by simp⟩
    | created _ => exact absurd rfl (hc _ _ _ rfl)
    | unknown _ =>
      exact ⟨fun f hf => hd f (RefreshTokenState.lookup_pruned_eq_some.mp hf).1, by simp⟩
    | dead _ _ =>
      exact ⟨fun f hf => hd f (RefreshTokenState.lookup_pruned_eq_some.mp hf).1, by simp⟩
    | replayed hf hr _ =>
      have hrev := hd _ (RefreshTokenState.lookup_pruned_eq_some.mp hf).1
      exact absurd hrev (by simp [hr])
    | rotated hf hr _ =>
      have hrev := hd _ (RefreshTokenState.lookup_pruned_eq_some.mp hf).1
      exact absurd hrev (by simp [hr])
  · refine ⟨fun f hf => hd f (h.lookup_ne (Ne.symm hk) hf), ?_⟩
    rintro presented next expiresAt now rfl
    exact absurd rfl hk

theorem RefreshTokenState.NoLiveEntry.of_revoked {s : RefreshTokenState} {k : String}
    {f : RefreshTokenFamily} (hf : s.families.lookup k = some f) (hr : f.revoked = true) :
    s.NoLiveEntry k := by
  intro g hg
  cases Option.some.inj (hf.symm.trans hg)
  exact hr

/-- **A wrong token for a live family** is refused, and the family is revoked. -/
theorem StoreEffect.replay {s s' : RefreshTokenState} {k presented next : String}
    {expiresAt now : UInt64} {r : Except OAuthError Unit}
    (h : StoreEffect s (.rotate k presented next expiresAt now) r s') {f : RefreshTokenFamily}
    (hf : s.families.lookup k = some f) (hr : f.revoked = false) (hlive : now < f.expiresAt)
    (hp : f.activeTokenHash ≠ presented) :
    r = .error .invalidGrant ∧ ∃ g, s'.families.lookup k = some g ∧ g.revoked = true := by
  have hfp : (s.pruned now).families.lookup k = some f :=
    RefreshTokenState.lookup_pruned_eq_some.mpr ⟨hf, hlive⟩
  cases h with
  | unknown hn => exact absurd (hn.symm.trans hfp) (by simp)
  | dead hg hgr =>
    cases Option.some.inj (hg.symm.trans hfp)
    exact absurd hgr (by simp [hr])
  | replayed hg _ _ => exact ⟨rfl, _, RefreshTokenState.lookup_set_self _ _ _, rfl⟩
  | rotated hg _ hgp =>
    cases Option.some.inj (hg.symm.trans hfp)
    exact absurd hgp hp

theorem StoreEffect.version_eq {s s' : RefreshTokenState} {c : StoreCall}
    {r : Except OAuthError Unit} (h : StoreEffect s c r s') : s'.version = s.version := by
  cases h <;> rfl

/-- Whatever becomes of `persist`, memory afterwards is the old map or the planned one. -/
theorem RefreshTokenStore.call_effect (store : RefreshTokenStore) (io : PersistIo)
    (c : StoreCall) :
    StoreEffect store.state c (store.call io c).2 (store.call io c).1.state ∨
      ((store.call io c).1.state = store.state ∧ (store.call io c).2 = .error .internal) := by
  rw [call_eq_commit]
  rcases store.state_commit io (c.plan store.state) with ⟨hs, ha⟩ | h
  · left; rw [hs, ha]; exact c.effect_plan store.state
  · exact Or.inr h

/-- When `persist` succeeds the call has its effect. -/
theorem RefreshTokenStore.call_completes (store : RefreshTokenStore) (c : StoreCall) :
    StoreEffect store.state c (store.call .completes c).2 (store.call .completes c).1.state := by
  rw [call_eq_commit]
  obtain ⟨ha, hs⟩ := store.commit_completes (c.plan store.state)
  rw [ha, hs]
  exact c.effect_plan store.state

/-- A family with a new name is created. -/
theorem RefreshTokenStore.call_createFamily {store : RefreshTokenStore} {k : String}
    (hnew : store.state.families.lookup k = none) (hash : String) (expiresAt now : UInt64) :
    ∃ store', store.call .completes (.createFamily k hash expiresAt now) = (store', .ok ()) ∧
      store'.state.families.lookup k = some ⟨hash, expiresAt, false⟩ := by
  refine ⟨(store.call .completes (.createFamily k hash expiresAt now)).1, ?_⟩
  obtain ⟨hanswer, hstate⟩ :=
    store.commit_completes (createFamilyPlan store.state k hash expiresAt now)
  rcases createFamilyPlan_cases store.state k hash expiresAt now with ⟨⟨f, hf⟩, _⟩ | ⟨_, hplan⟩
  · have hold := (RefreshTokenState.lookup_pruned_eq_some.mp hf).1
    exact absurd (hnew.symm.trans hold) (by simp)
  · rw [hplan] at hanswer hstate
    refine ⟨Prod.ext rfl ?_, ?_⟩
    · show (store.commit .completes (createFamilyPlan store.state k hash expiresAt now)).2 = _
      rw [hplan, hanswer]
    · show (store.commit .completes (createFamilyPlan store.state k hash expiresAt
        now)).1.state.families.lookup k = _
      rw [hplan, hstate, Plan.result, Option.getD_some, RefreshTokenState.lookup_set_self]

/-- The active token of a live family is replaced. -/
theorem RefreshTokenStore.call_rotate {store : RefreshTokenStore} {k : String}
    {f : RefreshTokenFamily} (hf : store.state.families.lookup k = some f)
    (hr : f.revoked = false) (next : String) (expiresAt : UInt64) {now : UInt64}
    (hlive : now < f.expiresAt) :
    ∃ store', store.call .completes (.rotate k f.activeTokenHash next expiresAt now)
        = (store', .ok ()) ∧
      store'.state.families.lookup k = some ⟨next, expiresAt, false⟩ := by
  have hfp : (store.state.pruned now).families.lookup k = some f :=
    RefreshTokenState.lookup_pruned_eq_some.mpr ⟨hf, hlive⟩
  have heff := store.call_completes (.rotate k f.activeTokenHash next expiresAt now)
  generalize hcall : store.call .completes (.rotate k f.activeTokenHash next expiresAt now) = r
    at heff
  obtain ⟨store', answer⟩ := r
  refine ⟨store', ?_⟩
  generalize hst : store'.state = st at heff
  cases heff with
  | unknown hn => exact absurd (hn.symm.trans hfp) (by simp)
  | dead hg hgr =>
    cases Option.some.inj (hg.symm.trans hfp)
    exact absurd hgr (by simp [hr])
  | replayed hg _ hp =>
    cases Option.some.inj (hg.symm.trans hfp)
    exact absurd rfl hp
  | rotated hg _ _ =>
    cases Option.some.inj (hg.symm.trans hfp)
    refine ⟨rfl, ?_⟩
    rw [RefreshTokenState.lookup_set_self, hr]

/-- A family without a live entry is not active, at any time. -/
theorem RefreshTokenState.NoLiveEntry.isActive {store : RefreshTokenStore} {k : String}
    (h : store.state.NoLiveEntry k) (now : UInt64) : store.isActive k now = false := by
  cases ha : store.isActive k now with
  | false => rfl
  | true =>
    obtain ⟨f, hf, hr, _⟩ := RefreshTokenStore.isActive_iff.mp ha
    exact absurd (h f hf) (by simp [hr])

/-! ## The file and the map in memory -/

namespace RefreshTokenStore

/--
The file holds the map in memory; there is no file as long as nothing was stored.

The bytes are the serialization of a map equal to the one in memory, and not of the one in
memory itself: after a restart the iteration order may differ.
-/
structure InSync (store : RefreshTokenStore) : Prop where
  version : store.state.version = refreshStateVersion
  file : match store.dir.file with
    | none => store.state = .default
    | some bytes => ∃ t : RefreshTokenState, bytes = t.toVec ∧ t.Same store.state

theorem inSync_fresh : fresh.InSync := ⟨rfl, rfl⟩

/-- Carrying out a plan of the right version keeps file and memory in step. -/
theorem inSync_commit {store : RefreshTokenStore} (h : store.InSync) (io : PersistIo) (plan : Plan)
    (hv : (plan.result store.state).version = refreshStateVersion) :
    (store.commit io plan).1.InSync := by
  cases hn : plan.next with
  | none => rw [commit_of_next_eq_none hn]; exact h
  | some next =>
    rw [Plan.result, hn, Option.getD_some] at hv
    cases io with
    | completes =>
      rw [commit, hn]
      exact ⟨hv, next, rfl, .refl next⟩
    | fails step =>
      obtain ⟨_, hs, hd⟩ := store.commit_fails plan step hn
      refine ⟨by rw [hs]; exact h.version, ?_⟩
      rw [hd, StateDir.file_stoppedAt, hs]
      exact h.file

theorem inSync_call {store : RefreshTokenStore} (h : store.InSync) (io : PersistIo)
    (c : StoreCall) : (store.call io c).1.InSync := by
  rw [call_eq_commit]
  refine inSync_commit h io _ ?_
  rw [(c.effect_plan store.state).version_eq]
  exact h.version

/-- **What `open` returns**: nothing new where there was no file, and the stored map otherwise. -/
theorem open_eq_ok {reader : RefreshStateReader} {dir : StateDir} {store : RefreshTokenStore}
    (h : «open» reader dir = .ok store) :
    store.dir = dir ∧ store.state.version = refreshStateVersion ∧
      match dir.file with
      | none => store.state = .default
      | some bytes => bytes.length ≤ maxRefreshStateBytes ∧
          reader.fromSlice bytes = some store.state := by
  unfold «open» at h
  cases hf : dir.file with
  | none =>
    simp only [hf] at h ⊢
    cases h
    exact ⟨rfl, rfl, rfl⟩
  | some contents =>
    simp only [hf] at h ⊢
    split at h
    · simp at h
    · next hlen =>
      split at h
      · simp at h
      · next state hr =>
        split at h
        · simp at h
        · next hv =>
          cases h
          exact ⟨rfl, not_not.mp hv, Nat.le_of_not_gt hlen, hr⟩

/-- A store that was in step with its file is reopened with an equal map. -/
theorem open_inSync {reader : RefreshStateReader} {old store : RefreshTokenStore}
    (hold : old.InSync) (h : «open» reader old.dir = .ok store) :
    store.InSync ∧ store.state.Same old.state := by
  obtain ⟨hd, hv, hf⟩ := open_eq_ok h
  have hfile := hold.file
  cases hb : old.dir.file with
  | none =>
    simp only [hb] at hf hfile
    rw [hfile, hf]
    refine ⟨⟨hv, ?_⟩, .refl _⟩
    rw [hd]
    simp only [hb]
    exact hf
  | some bytes =>
    simp only [hb] at hf hfile
    obtain ⟨t, rfl, ht⟩ := hfile
    obtain ⟨s', hs', hsame⟩ := reader.fromSlice_toVec t
    have hst : s' = store.state := Option.some.inj (hs'.symm.trans hf.2)
    rw [hst] at hsame
    refine ⟨⟨hv, ?_⟩, hsame.trans ht⟩
    rw [hd]
    simp only [hb]
    exact ⟨t, rfl, hsame.symm⟩

/-- `open` succeeds on a store in step with its file unless the file is too long. -/
theorem exists_open (reader : RefreshStateReader) {old : RefreshTokenStore} (hold : old.InSync)
    (hlen : ∀ bytes, old.dir.file = some bytes → bytes.length ≤ maxRefreshStateBytes) :
    ∃ store, «open» reader old.dir = .ok store := by
  have hfile := hold.file
  unfold «open»
  cases hb : old.dir.file with
  | none => exact ⟨_, rfl⟩
  | some bytes =>
    simp only [hb] at hfile
    obtain ⟨t, rfl, ht⟩ := hfile
    obtain ⟨s', hs', hsame⟩ := reader.fromSlice_toVec t
    have hv : s'.version = refreshStateVersion := (hsame.trans ht).1.trans hold.version
    refine ⟨⟨old.dir, s'⟩, ?_⟩
    simp only [hs', hv, ne_eq, not_true_eq_false, if_false]
    rw [if_neg (Nat.not_lt.mpr (hlen _ hb))]

/-! ## Equal maps -/

/-- Both absent, or both present with equal maps. -/
def SameNext : Option RefreshTokenState → Option RefreshTokenState → Prop
  | none, none => True
  | some s, some t => s.Same t
  | _, _ => False

/-- Two plans that an observer of the map cannot tell apart. -/
def SamePlan (p q : Plan) : Prop := p.answer = q.answer ∧ SameNext p.next q.next

/-- **The iteration order is not observable**: equal maps give equal plans. -/
theorem samePlan_of_same {s t : RefreshTokenState} (h : s.Same t) (c : StoreCall) :
    SamePlan (c.plan s) (c.plan t) := by
  cases c with
  | createFamily k hash expiresAt now =>
    have hp := h.pruned now
    have hl := hp.2 k
    simp only [StoreCall.plan, createFamilyPlan, hl]
    split
    · exact ⟨rfl, trivial⟩
    · exact ⟨rfl, hp.set k _⟩
  | rotate k presented next expiresAt now =>
    have hp := h.pruned now
    have hl := hp.2 k
    have hlen : (s.pruned now).families.len = (t.pruned now).families.len := hp.2.len_eq
    have hlen0 : s.families.len = t.families.len := h.2.len_eq
    simp only [StoreCall.plan, rotatePlan, hl, hlen, hlen0]
    have hpruned : ∀ b : Bool, SameNext (if b = true then some (s.pruned now) else none)
        (if b = true then some (t.pruned now) else none) := by
      intro b
      cases b with
      | true => exact hp
      | false => trivial
    split
    · exact ⟨rfl, hpruned _⟩
    · split
      · split
        · exact ⟨rfl, hpruned _⟩
        · exact ⟨rfl, hp.set k _⟩
      · exact ⟨rfl, hp.set k _⟩

/-- Equal maps give equal answers and equal maps, wherever `persist` stops. -/
theorem call_congr {s t : RefreshTokenStore} (h : s.state.Same t.state) (io : PersistIo)
    (c : StoreCall) : (s.call io c).2 = (t.call io c).2 ∧
      (s.call io c).1.state.Same (t.call io c).1.state := by
  rw [call_eq_commit, call_eq_commit]
  obtain ⟨ha, hn⟩ := samePlan_of_same h c
  cases hs : (c.plan s.state).next with
  | none =>
    cases ht : (c.plan t.state).next with
    | none =>
      rw [commit_of_next_eq_none hs, commit_of_next_eq_none ht]
      exact ⟨ha, h⟩
    | some t' => rw [hs, ht] at hn; exact hn.elim
  | some s' =>
    cases ht : (c.plan t.state).next with
    | none => rw [hs, ht] at hn; exact hn.elim
    | some t' =>
      rw [hs, ht] at hn
      cases io with
      | completes => simp only [commit, hs, ht, persist]; exact ⟨ha, hn⟩
      | fails step => simp only [commit, hs, ht, persist]; exact ⟨trivial, h⟩

theorem isActive_congr {s t : RefreshTokenStore} (h : s.state.Same t.state) (familyId : String)
    (now : UInt64) : s.isActive familyId now = t.isActive familyId now := by
  rw [isActive, isActive, h.2 familyId]

end RefreshTokenStore

end EngramMcp
