import EngramMcp.OAuth.RefreshRun

/-!
# Rotation safety

What a run of the refresh-token store guarantees about the tokens it accepted.

* `rotation_safety` — no token is accepted twice, each accepted token is the one last installed
  in its family, and a family in which a wrong token was presented is dead from then on

The invariant of the proof, `RotationInv`, relates the map to the history: the active hash of a
family is the one installed last, and no active hash of a live family was accepted before.
-/

namespace EngramMcp

open Infra

/-! ## Runs of the store -/

/-- What can be seen of a store from outside: calls with their answers, and restarts. -/
inductive StoreEvent
  | called (c : StoreCall) (answer : Except OAuthError Unit)
  | asked (familyId : String) (now : UInt64) (answer : Bool)
  | reopened

namespace StoreEvent

/-- The family a successful `create_family` created. -/
def created : StoreEvent → Option String
  | called (.createFamily familyId ..) (.ok ()) => some familyId
  | _ => none

/-- The family and the token hash that a successful call installed in it. -/
def installed : StoreEvent → Option (String × String)
  | called (.createFamily familyId activeTokenHash ..) (.ok ()) => some (familyId, activeTokenHash)
  | called (.rotate familyId _ nextTokenHash ..) (.ok ()) => some (familyId, nextTokenHash)
  | _ => none

/-- The family and the token hash that a successful `rotate` accepted. -/
def accepted : StoreEvent → Option (String × String)
  | called (.rotate familyId presentedTokenHash ..) (.ok ()) => some (familyId, presentedTokenHash)
  | _ => none

/-- The event takes the store from one state to the next, every `persist` succeeding. -/
def Occurs (reader : RefreshStateReader) (s : RefreshTokenStore) :
    StoreEvent → RefreshTokenStore → Prop
  | called c answer, s' => s.call .completes c = (s', answer)
  | asked familyId now answer, s' => s' = s ∧ s.isActive familyId now = answer
  | reopened, s' => RefreshTokenStore.«open» reader s.dir = .ok s'

theorem occurs_called {reader : RefreshStateReader} {s : RefreshTokenStore}
    (cs : List StoreCall) {c : StoreCall} {answer : Except OAuthError Unit}
    (h : ((s.calls cs).call .completes c).2 = answer) :
    (called c answer).Occurs reader (s.calls cs) (s.calls (cs ++ [c])) := by
  rw [RefreshTokenStore.calls_concat]
  exact Prod.ext rfl h

end StoreEvent

/-- The families created so far. -/
def createdFamilies (h : List StoreEvent) : List String := h.filterMap StoreEvent.created

/-- The token hashes installed so far. -/
def installedHashes (h : List StoreEvent) : List String :=
  (h.filterMap StoreEvent.installed).map Prod.snd

/-- The token hashes accepted so far. -/
def acceptedHashes (h : List StoreEvent) : List String :=
  (h.filterMap StoreEvent.accepted).map Prod.snd

/-- The hash that was installed last in a family. -/
def lastInstalled (familyId : String) (h : List StoreEvent) : Option String :=
  h.reverse.findSome? fun e =>
    e.installed.bind fun p => if p.1 = familyId then some p.2 else none

/-- A created family is new, and so is an installed hash. -/
structure FreshIds (h : List StoreEvent) (e : StoreEvent) : Prop where
  family : ∀ k, e.created = some k → k ∉ createdFamilies h
  hash : ∀ k t, e.installed = some (k, t) → t ∉ installedHashes h

/-- A step of a run in which identifiers and hashes are distinct. -/
def RotationStep (reader : RefreshStateReader) (h : List StoreEvent) (s : RefreshTokenStore)
    (e : StoreEvent) (s' : RefreshTokenStore) : Prop :=
  FreshIds h e ∧ e.Occurs reader s s'

/-! ## The history -/

theorem createdFamilies_append (h : List StoreEvent) (e : StoreEvent) :
    createdFamilies (h ++ [e]) = createdFamilies h ++ e.created.toList := by
  cases hc : e.created <;> simp [createdFamilies, hc]

theorem installedHashes_append (h : List StoreEvent) (e : StoreEvent) :
    installedHashes (h ++ [e]) = installedHashes h ++ (e.installed.map Prod.snd).toList := by
  cases hc : e.installed <;> simp [installedHashes, hc]

theorem acceptedHashes_append (h : List StoreEvent) (e : StoreEvent) :
    acceptedHashes (h ++ [e]) = acceptedHashes h ++ (e.accepted.map Prod.snd).toList := by
  cases hc : e.accepted <;> simp [acceptedHashes, hc]

theorem lastInstalled_append_self {k t : String} {e : StoreEvent} (h : List StoreEvent)
    (he : e.installed = some (k, t)) : lastInstalled k (h ++ [e]) = some t := by
  simp [lastInstalled, he]

theorem lastInstalled_append_ne {k : String} {e : StoreEvent} (h : List StoreEvent)
    (he : ∀ p, e.installed = some p → p.1 ≠ k) :
    lastInstalled k (h ++ [e]) = lastInstalled k h := by
  cases hi : e.installed with
  | none => simp [lastInstalled, hi]
  | some p => simp [lastInstalled, hi, he p hi]

theorem mem_installedHashes {k t : String} {h : List StoreEvent}
    (hl : lastInstalled k h = some t) : ∃ e ∈ h, e.installed = some (k, t) := by
  obtain ⟨e, he, hb⟩ := List.exists_of_findSome?_eq_some hl
  refine ⟨e, List.mem_reverse.mp he, ?_⟩
  cases hi : e.installed with
  | none => simp [hi] at hb
  | some p =>
    by_cases hp : p.1 = k
    · simp [hi, hp] at hb
      rw [← hp, ← hb]
    · simp [hi, hp] at hb

/-- Distinct hashes: a hash was installed in one family only. -/
theorem family_eq_of_installed {h : List StoreEvent} (hn : (installedHashes h).Nodup)
    {k k' t : String} (h1 : lastInstalled k h = some t) (h2 : lastInstalled k' h = some t) :
    k = k' := by
  obtain ⟨e, he, hk⟩ := mem_installedHashes h1
  obtain ⟨e', he', hk'⟩ := mem_installedHashes h2
  have hinj := List.inj_on_of_nodup_map hn
  have hm : (k, t) ∈ h.filterMap StoreEvent.installed := List.mem_filterMap.mpr ⟨e, he, hk⟩
  have hm' : (k', t) ∈ h.filterMap StoreEvent.installed := List.mem_filterMap.mpr ⟨e', he', hk'⟩
  exact (Prod.mk.inj (hinj hm hm' rfl)).1

/-! ## The invariant -/

/-- The map in terms of the history. -/
structure RotationInv (h : List StoreEvent) (s : RefreshTokenStore) : Prop where
  inSync : s.InSync
  created : ∀ k f, s.state.families.lookup k = some f → k ∈ createdFamilies h
  last : ∀ k f, s.state.families.lookup k = some f → lastInstalled k h = some f.activeTokenHash
  unused : ∀ k f, s.state.families.lookup k = some f → f.revoked = false →
    f.activeTokenHash ∉ acceptedHashes h
  acceptedSub : acceptedHashes h ⊆ installedHashes h
  installedNodup : (installedHashes h).Nodup
  acceptedNodup : (acceptedHashes h).Nodup

theorem rotationInv_fresh : RotationInv [] RefreshTokenStore.fresh where
  inSync := RefreshTokenStore.inSync_fresh
  created _ _ h := by simp [RefreshTokenStore.fresh] at h
  last _ _ h := by simp [RefreshTokenStore.fresh] at h
  unused _ _ h := by simp [RefreshTokenStore.fresh] at h
  acceptedSub := by simp [acceptedHashes]
  installedNodup := by simp [installedHashes]
  acceptedNodup := by simp [acceptedHashes]

/-- An event that installs and accepts nothing keeps the invariant when it only drops entries. -/
theorem RotationInv.quiet {h : List StoreEvent} {s s' : RefreshTokenStore} {e : StoreEvent}
    (hi : RotationInv h s) (hsync : s'.InSync) (hc : e.created = none) (hin : e.installed = none)
    (ha : e.accepted = none)
    (hlook : ∀ k f, s'.state.families.lookup k = some f →
      ∃ g, s.state.families.lookup k = some g ∧ g.activeTokenHash = f.activeTokenHash ∧
        (f.revoked = false → g.revoked = false)) : RotationInv (h ++ [e]) s' := by
  have hc' : createdFamilies (h ++ [e]) = createdFamilies h := by
    rw [createdFamilies_append, hc]; simp
  have hi' : installedHashes (h ++ [e]) = installedHashes h := by
    rw [installedHashes_append, hin]; simp
  have ha' : acceptedHashes (h ++ [e]) = acceptedHashes h := by
    rw [acceptedHashes_append, ha]; simp
  refine ⟨hsync, ?_, ?_, ?_, by rw [ha', hi']; exact hi.acceptedSub,
    by rw [hi']; exact hi.installedNodup, by rw [ha']; exact hi.acceptedNodup⟩
  · intro k f hf
    obtain ⟨g, hg, _, _⟩ := hlook k f hf
    rw [hc']
    exact hi.created k g hg
  · intro k f hf
    obtain ⟨g, hg, hgf, _⟩ := hlook k f hf
    rw [lastInstalled_append_ne _ (by simp [hin]), hi.last k g hg, hgf]
  · intro k f hf hr
    obtain ⟨g, hg, hgf, hgr⟩ := hlook k f hf
    rw [ha', ← hgf]
    exact hi.unused k g hg (hgr hr)

/-- Creating a family with a new id and a new hash. -/
theorem RotationInv.create {h : List StoreEvent} {s s' : RefreshTokenStore} {k hash : String}
    {expiresAt now : UInt64} (hi : RotationInv h s) (hsync : s'.InSync)
    (hfresh : FreshIds h (.called (.createFamily k hash expiresAt now) (.ok ())))
    (hs : s'.state = (s.state.pruned now).set k ⟨hash, expiresAt, false⟩) :
    RotationInv (h ++ [.called (.createFamily k hash expiresAt now) (.ok ())]) s' := by
  have hnew : hash ∉ installedHashes h := hfresh.hash k hash rfl
  have ha' := acceptedHashes_append h (.called (.createFamily k hash expiresAt now) (.ok ()))
  have hi' := installedHashes_append h (.called (.createFamily k hash expiresAt now) (.ok ()))
  have hc' := createdFamilies_append h (.called (.createFamily k hash expiresAt now) (.ok ()))
  simp only [StoreEvent.accepted, StoreEvent.installed, StoreEvent.created, Option.map_none,
    Option.map_some, Option.toList_none, Option.toList_some, List.append_nil] at ha' hi' hc'
  have hlook : ∀ k' f, s'.state.families.lookup k' = some f →
      (k' = k ∧ f = ⟨hash, expiresAt, false⟩) ∨
      (k' ≠ k ∧ s.state.families.lookup k' = some f) := by
    intro k' f hf
    rw [hs] at hf
    by_cases hk : k' = k
    · subst hk
      rw [RefreshTokenState.lookup_set_self, Option.some.injEq] at hf
      exact Or.inl ⟨rfl, hf.symm⟩
    · exact Or.inr ⟨hk, RefreshTokenState.lookup_of_lookup_set_pruned hk hf⟩
  refine ⟨hsync, ?_, ?_, ?_, ?_, ?_, by rw [ha']; exact hi.acceptedNodup⟩
  · intro k' f hf
    rw [hc']
    rcases hlook k' f hf with ⟨rfl, _⟩ | ⟨_, hf'⟩
    · simp
    · exact List.mem_append_left _ (hi.created k' f hf')
  · intro k' f hf
    rcases hlook k' f hf with ⟨rfl, rfl⟩ | ⟨hk, hf'⟩
    · exact lastInstalled_append_self h rfl
    · rw [lastInstalled_append_ne _ (by simp [StoreEvent.installed, Ne.symm hk])]
      exact hi.last k' f hf'
  · intro k' f hf hr
    rw [ha']
    rcases hlook k' f hf with ⟨rfl, rfl⟩ | ⟨_, hf'⟩
    · exact fun hm => hnew (hi.acceptedSub hm)
    · exact hi.unused k' f hf' hr
  · rw [ha', hi']
    exact fun t ht => List.mem_append_left _ (hi.acceptedSub ht)
  · rw [hi']
    exact List.Nodup.append hi.installedNodup (by simp) (by simpa using hnew)

/-- Rotating a live family from its active hash to a new one. -/
theorem RotationInv.rotate {h : List StoreEvent} {s s' : RefreshTokenStore}
    {k presented next : String} {expiresAt now : UInt64} {f : RefreshTokenFamily}
    (hi : RotationInv h s) (hsync : s'.InSync)
    (hfresh : FreshIds h (.called (.rotate k presented next expiresAt now) (.ok ())))
    (hf : s.state.families.lookup k = some f) (hr : f.revoked = false)
    (hp : f.activeTokenHash = presented)
    (hs : s'.state = (s.state.pruned now).set k
      { f with activeTokenHash := next, expiresAt := expiresAt }) :
    RotationInv (h ++ [.called (.rotate k presented next expiresAt now) (.ok ())]) s' := by
  have hnew : next ∉ installedHashes h := hfresh.hash k next rfl
  have hlast : lastInstalled k h = some presented := by rw [hi.last k f hf, hp]
  have hin : presented ∈ installedHashes h := by
    obtain ⟨e, he, hk⟩ := mem_installedHashes hlast
    exact List.mem_map.mpr ⟨(k, presented), List.mem_filterMap.mpr ⟨e, he, hk⟩, rfl⟩
  have hunused : presented ∉ acceptedHashes h := hp ▸ hi.unused k f hf hr
  have ha' := acceptedHashes_append h (.called (.rotate k presented next expiresAt now) (.ok ()))
  have hi' := installedHashes_append h (.called (.rotate k presented next expiresAt now) (.ok ()))
  have hc' := createdFamilies_append h (.called (.rotate k presented next expiresAt now) (.ok ()))
  simp only [StoreEvent.accepted, StoreEvent.installed, StoreEvent.created, Option.map_some,
    Option.toList_none, Option.toList_some, List.append_nil] at ha' hi' hc'
  have hlook : ∀ k' g, s'.state.families.lookup k' = some g →
      (k' = k ∧ g = { f with activeTokenHash := next, expiresAt := expiresAt }) ∨
      (k' ≠ k ∧ s.state.families.lookup k' = some g) := by
    intro k' g hg
    rw [hs] at hg
    by_cases hk : k' = k
    · subst hk
      rw [RefreshTokenState.lookup_set_self, Option.some.injEq] at hg
      exact Or.inl ⟨rfl, hg.symm⟩
    · exact Or.inr ⟨hk, RefreshTokenState.lookup_of_lookup_set_pruned hk hg⟩
  refine ⟨hsync, ?_, ?_, ?_, ?_, ?_, ?_⟩
  · intro k' g hg
    rw [hc']
    rcases hlook k' g hg with ⟨rfl, _⟩ | ⟨_, hg'⟩
    · exact hi.created k' f hf
    · exact hi.created k' g hg'
  · intro k' g hg
    rcases hlook k' g hg with ⟨rfl, rfl⟩ | ⟨hk, hg'⟩
    · exact lastInstalled_append_self h rfl
    · rw [lastInstalled_append_ne _ (by simp [StoreEvent.installed, Ne.symm hk])]
      exact hi.last k' g hg'
  · intro k' g hg hgr
    rw [ha', List.mem_append, List.mem_singleton, not_or]
    rcases hlook k' g hg with ⟨rfl, rfl⟩ | ⟨hk, hg'⟩
    · refine ⟨fun hm => hnew (hi.acceptedSub hm), fun he => hnew ?_⟩
      have he' : next = presented := he
      rw [he']; exact hin
    · refine ⟨hi.unused k' g hg' hgr, fun he => hk ?_⟩
      -- the presented hash was installed in this family only
      exact family_eq_of_installed hi.installedNodup (by rw [hi.last k' g hg', he]) hlast
  · rw [ha', hi']
    intro t ht
    rcases List.mem_append.mp ht with ht | ht
    · exact List.mem_append_left _ (hi.acceptedSub ht)
    · rw [List.mem_singleton.mp ht]
      exact List.mem_append_left _ hin
  · rw [hi']
    exact List.Nodup.append hi.installedNodup (by simp) (by simpa using hnew)
  · rw [ha']
    exact List.Nodup.append hi.acceptedNodup (by simp) (by simpa using hunused)

/-- Every step keeps the invariant. -/
theorem rotationInv_step {reader : RefreshStateReader} {h : List StoreEvent}
    {s s' : RefreshTokenStore} {e : StoreEvent} (hi : RotationInv h s)
    (hs : RotationStep reader h s e s') : RotationInv (h ++ [e]) s' := by
  obtain ⟨hfresh, hocc⟩ := hs
  cases e with
  | asked k now answer =>
    obtain ⟨rfl, _⟩ := hocc
    exact hi.quiet hi.inSync rfl rfl rfl fun k f hf => ⟨f, hf, rfl, id⟩
  | reopened =>
    obtain ⟨hsync, hsame⟩ := RefreshTokenStore.open_inSync hi.inSync hocc
    refine hi.quiet hsync rfl rfl rfl fun k f hf => ⟨f, ?_, rfl, id⟩
    rw [← hsame.2 k]; exact hf
  | called c answer =>
    have hsync : s'.InSync := by
      have h' := RefreshTokenStore.inSync_call hi.inSync .completes c
      rwa [hocc] at h'
    have heff := s.call_completes c
    rw [hocc] at heff
    simp only at heff
    generalize hst : s'.state = st at heff
    cases heff with
    | rejected => exact hi.quiet hsync rfl rfl rfl fun k f hf => ⟨f, hst ▸ hf, rfl, id⟩
    | created _ => exact hi.create hsync hfresh hst
    | unknown _ =>
      refine hi.quiet hsync rfl rfl rfl fun k f hf => ⟨f, ?_, rfl, id⟩
      rw [hst] at hf
      exact (RefreshTokenState.lookup_pruned_eq_some.mp hf).1
    | dead _ _ =>
      refine hi.quiet hsync rfl rfl rfl fun k f hf => ⟨f, ?_, rfl, id⟩
      rw [hst] at hf
      exact (RefreshTokenState.lookup_pruned_eq_some.mp hf).1
    | @replayed k presented next expiresAt now g hk hr _ =>
      refine hi.quiet hsync rfl rfl rfl fun k' f hf => ?_
      rw [hst] at hf
      by_cases hkk : k' = k
      · subst hkk
        rw [RefreshTokenState.lookup_set_self, Option.some.injEq] at hf
        exact ⟨g, (RefreshTokenState.lookup_pruned_eq_some.mp hk).1, by rw [← hf], fun _ => hr⟩
      · exact ⟨f, RefreshTokenState.lookup_of_lookup_set_pruned hkk hf, rfl, id⟩
    | rotated hk hr hp =>
      exact hi.rotate hsync hfresh (RefreshTokenState.lookup_pruned_eq_some.mp hk).1 hr hp hst

theorem rotationInv_run {reader : RefreshStateReader} {h : List StoreEvent}
    {s : RefreshTokenStore} (hr : Run (RotationStep reader) RefreshTokenStore.fresh h s) :
    RotationInv h s :=
  Steps.invariant (fun _ _ _ _ => rotationInv_step) rotationInv_fresh hr

/-! ## A dead family -/

/-- The family was created, and no live entry for it is left. -/
structure Dead (k : String) (h : List StoreEvent) (s : RefreshTokenStore) : Prop where
  created : k ∈ createdFamilies h
  revoked : ∀ f, s.state.families.lookup k = some f → f.revoked = true

/-- The event neither accepts a token of the family nor finds it active. -/
def StoreEvent.Refuses (k : String) : StoreEvent → Prop
  | .called (.rotate k' ..) answer => k' = k → answer = .error .invalidGrant
  | .asked k' _ answer => k' = k → answer = false
  | _ => True

theorem Dead.isActive {k : String} {h : List StoreEvent} {s : RefreshTokenStore}
    (hd : Dead k h s) (now : UInt64) : s.isActive k now = false :=
  RefreshTokenState.NoLiveEntry.isActive hd.revoked now

/-- **A dead family stays dead**, and the step refuses it. -/
theorem dead_step {reader : RefreshStateReader} {k : String} {h : List StoreEvent}
    {s s' : RefreshTokenStore} {e : StoreEvent} (hsync : s.InSync) (hd : Dead k h s)
    (hs : RotationStep reader h s e s') : Dead k (h ++ [e]) s' ∧ e.Refuses k := by
  obtain ⟨hfresh, hocc⟩ := hs
  have hcreated : k ∈ createdFamilies (h ++ [e]) := by
    rw [createdFamilies_append]; exact List.mem_append_left _ hd.created
  cases e with
  | asked k' now answer =>
    obtain ⟨rfl, ha⟩ := hocc
    refine ⟨⟨hcreated, hd.revoked⟩, fun hk => ?_⟩
    rw [← ha, hk]
    exact hd.isActive now
  | reopened =>
    obtain ⟨_, hsame⟩ := RefreshTokenStore.open_inSync hsync hocc
    refine ⟨⟨hcreated, fun f hf => hd.revoked f ?_⟩, trivial⟩
    rw [← hsame.2 k]; exact hf
  | called c answer =>
    have heff := s.call_completes c
    rw [hocc] at heff
    simp only at heff
    have hcreate : ∀ hash expiresAt now, c = .createFamily k hash expiresAt now →
        answer ≠ .ok () := by
      rintro hash expiresAt now rfl rfl
      exact absurd hd.created (hfresh.family k rfl)
    obtain ⟨hrevoked, hrefused⟩ := heff.noLiveEntry hd.revoked hcreate
    refine ⟨⟨hcreated, hrevoked⟩, ?_⟩
    cases c with
    | createFamily => trivial
    | rotate k' presented next expiresAt now =>
      rintro rfl
      exact hrefused _ _ _ _ rfl

/-- After a wrong token was presented to a live family, the family is dead. -/
theorem dead_of_replay {reader : RefreshStateReader} {k presented next : String}
    {expiresAt now : UInt64} {answer : Except OAuthError Unit} {f : RefreshTokenFamily}
    {h : List StoreEvent} {s s' : RefreshTokenStore} (hi : RotationInv h s)
    (hf : s.state.families.lookup k = some f) (hr : f.revoked = false) (hlive : now < f.expiresAt)
    (hp : f.activeTokenHash ≠ presented)
    (hs : RotationStep reader h s (.called (.rotate k presented next expiresAt now) answer) s') :
    answer = .error .invalidGrant ∧
      Dead k (h ++ [.called (.rotate k presented next expiresAt now) answer]) s' := by
  have hcreated : k ∈ createdFamilies
      (h ++ [.called (.rotate k presented next expiresAt now) answer]) := by
    rw [createdFamilies_append]; exact List.mem_append_left _ (hi.created k f hf)
  have heff := s.call_completes (.rotate k presented next expiresAt now)
  have hocc : s.call .completes (.rotate k presented next expiresAt now) = (s', answer) := hs.2
  rw [hocc] at heff
  obtain ⟨ha, g, hg, hrevoked⟩ := heff.replay hf hr hlive hp
  exact ⟨ha, hcreated, RefreshTokenState.NoLiveEntry.of_revoked hg hrevoked⟩

/-! ## Rotation safety -/

/--
**Rotation safety over whole runs.**

In every run whose identifiers and hashes are distinct, no hash is accepted twice and an accepted
hash is the one last installed in its family. Once a live family is presented another hash, the
call fails, every later `rotate` on the family fails, and the family is never active again: not
in what later calls answer, and not at any clock reading in any later state, restarts included.
-/
theorem rotation_safety (reader : RefreshStateReader) :
    (∀ h s, Run (RotationStep reader) RefreshTokenStore.fresh h s →
      (acceptedHashes h).Nodup ∧
      ∀ pre e post k t, h = pre ++ e :: post → e.accepted = some (k, t) →
        lastInstalled k pre = some t) ∧
    (∀ pre s₁ s₂ k f presented next expiresAt now answer h s,
      Run (RotationStep reader) RefreshTokenStore.fresh pre s₁ →
      s₁.state.families.lookup k = some f → f.revoked = false → now < f.expiresAt →
      f.activeTokenHash ≠ presented →
      RotationStep reader pre s₁ (.called (.rotate k presented next expiresAt now) answer) s₂ →
      Steps (RotationStep reader)
        (pre ++ [.called (.rotate k presented next expiresAt now) answer]) s₂ h s →
      answer = .error .invalidGrant ∧
      (∃ post, h = pre ++ [.called (.rotate k presented next expiresAt now) answer] ++ post ∧
        ∀ e ∈ post, e.Refuses k) ∧
      ∀ t, s.isActive k t = false) := by
  constructor
  · intro h s hr
    refine ⟨(rotationInv_run hr).acceptedNodup, ?_⟩
    rintro pre e post k t rfl he
    obtain ⟨s₁, s₂, hpre, hstep, _⟩ := Run.split hr
    have hi := rotationInv_run hpre
    cases e with
    | asked => simp [StoreEvent.accepted] at he
    | reopened => simp [StoreEvent.accepted] at he
    | called c answer =>
      have heff := s₁.call_completes c
      have hocc : s₁.call .completes c = (s₂, answer) := hstep.2
      rw [hocc] at heff
      simp only at heff
      generalize s₂.state = st at heff
      cases heff with
      | rotated hf _ hp =>
        simp only [StoreEvent.accepted, Option.some.injEq, Prod.mk.injEq] at he
        obtain ⟨rfl, rfl⟩ := he
        rw [hi.last _ _ (RefreshTokenState.lookup_pruned_eq_some.mp hf).1, hp]
      | _ => simp [StoreEvent.accepted] at he
  · intro pre s₁ s₂ k f presented next expiresAt now answer h s hpre hf hr hlive hp hstep hpost
    have hi := rotationInv_run hpre
    obtain ⟨ha, hd⟩ := dead_of_replay hi hf hr hlive hp hstep
    have hi₂ := rotationInv_step hi hstep
    obtain ⟨⟨_, hdead⟩, post, hh, hq⟩ := Steps.forall_mem_suffix
      (P := fun h s => RotationInv h s ∧ Dead k h s) (Q := StoreEvent.Refuses k)
      (fun h s e s' hp hs =>
        have hd' := dead_step hp.1.inSync hp.2 hs
        ⟨⟨rotationInv_step hp.1 hs, hd'.1⟩, hd'.2⟩) ⟨hi₂, hd⟩ hpost
    exact ⟨ha, ⟨post, hh, hq⟩, hdead.isActive⟩

/-- A family is created, its token rotated once, and then the old token comes back. -/
theorem rotation_safety_old_token :
    (RefreshTokenStore.fresh.calls [.createFamily "rf" "a" 10 1, .rotate "rf" "a" "b" 12 2,
      .rotate "rf" "a" "c" 13 3]).isActive "rf" 4 = false := by
  let s₁ := RefreshTokenStore.fresh.calls [.createFamily "rf" "a" 10 1]
  let s₂ := RefreshTokenStore.fresh.calls
    [.createFamily "rf" "a" 10 1, .rotate "rf" "a" "b" 12 2]
  let s₃ := RefreshTokenStore.fresh.calls
    [.createFamily "rf" "a" 10 1, .rotate "rf" "a" "b" 12 2, .rotate "rf" "a" "c" 13 3]
  let h₁ := [StoreEvent.called (.createFamily "rf" "a" 10 1) (.ok ())]
  let h₂ := h₁ ++ [.called (.rotate "rf" "a" "b" 12 2) (.ok ())]
  have step₁ : RotationStep .strict [] RefreshTokenStore.fresh
      (.called (.createFamily "rf" "a" 10 1) (.ok ())) s₁ :=
    ⟨⟨fun _ _ => List.not_mem_nil, fun _ _ _ => List.not_mem_nil⟩,
      StoreEvent.occurs_called [] (by decide)⟩
  have step₂ : RotationStep .strict h₁ s₁ (.called (.rotate "rf" "a" "b" 12 2) (.ok ())) s₂ := by
    refine ⟨⟨fun k hk => ?_, fun k t ht => ?_⟩,
      StoreEvent.occurs_called [_] (by decide)⟩
    · simp [StoreEvent.created] at hk
    · simp only [StoreEvent.installed, Option.some.injEq, Prod.mk.injEq] at ht
      rw [← ht.2]
      decide +zetaReduce
  have step₃ : RotationStep .strict h₂ s₂
      (.called (.rotate "rf" "a" "c" 13 3) (.error .invalidGrant)) s₃ := by
    refine ⟨⟨fun k hk => ?_, fun k t ht => ?_⟩,
      StoreEvent.occurs_called [_, _] (by decide)⟩
    · simp [StoreEvent.created] at hk
    · simp [StoreEvent.installed] at ht
  have hrun : Run (RotationStep .strict) RefreshTokenStore.fresh h₂ s₂ :=
    (Steps.single step₁).tail step₂
  have hf : s₂.state.families.lookup "rf" = some ⟨"b", 12, false⟩ := by decide +zetaReduce
  exact ((rotation_safety .strict).2 h₂ s₂ s₃ "rf" _ "a" "c" 13 3 _ _ s₃ hrun hf rfl (by decide)
    (by decide) step₃ .refl).2.2 4

end EngramMcp
