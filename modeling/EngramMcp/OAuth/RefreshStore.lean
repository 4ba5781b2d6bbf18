import EngramMcp.OAuth.RefreshState

/-!
# The refresh-token store

`RefreshTokenStore` of `oauth.rs`: a map from family ids to the hash of the one refresh token
that is active in the family, kept in memory behind a mutex and written to a file whenever it
changes.

The two writing operations have the same tail in the source, `self.persist(&next)?` and then
`*state = next`, and differ in what they compute before it. The model keeps that split.

* `Plan` — the map an operation wants to store, if any, and its answer once it is stored
* `persist` — the five steps that put a map in the file, each of which may fail
* `commit` — the tail: memory changes only when `persist` succeeded
-/

namespace EngramMcp

open Infra

/-- `MAX_REFRESH_STATE_BYTES`. -/
def maxRefreshStateBytes : Nat := 1048576

/-! ## What an operation wants to store -/

/-- The outcome of an operation before its tail. -/
structure Plan where
  /-- The argument of `self.persist(&next)?; *state = next`, if the branch has that tail. -/
  next : Option RefreshTokenState
  /-- The value returned when the tail, if any, went through. -/
  answer : Except OAuthError Unit

/-- The state in memory once the plan is carried out. -/
def Plan.result (p : Plan) (s : RefreshTokenState) : RefreshTokenState := p.next.getD s

/-- `RefreshTokenStore::create_family` up to its tail. -/
def createFamilyPlan (state : RefreshTokenState) (familyId activeTokenHash : String)
    (expiresAt now : UInt64) : Plan :=
  let next := state.pruned now
  if (next.families.lookup familyId).isSome then ⟨none, .error .entropy⟩
  else ⟨some (next.set familyId ⟨activeTokenHash, expiresAt, false⟩), .ok ()⟩

/-- `RefreshTokenStore::rotate` up to its tail. -/
def rotatePlan (state : RefreshTokenState) (familyId presentedTokenHash nextTokenHash : String)
    (expiresAt now : UInt64) : Plan :=
  let next := state.pruned now
  let changed := decide (next.families.len ≠ state.families.len)
  match next.families.lookup familyId with
  | none => ⟨if changed then some next else none, .error .invalidGrant⟩
  | some family =>
    if family.revoked
        || !constantTimeEqual (utf8 family.activeTokenHash) (utf8 presentedTokenHash) then
      if family.revoked then ⟨if changed then some next else none, .error .invalidGrant⟩
      else ⟨some (next.set familyId { family with revoked := true }), .error .invalidGrant⟩
    else
      ⟨some (next.set familyId { family with activeTokenHash := nextTokenHash, expiresAt }), .ok ()⟩

/-- Pruning that drops nothing leaves the state as it was. -/
theorem getD_pruned (state : RefreshTokenState) (now : UInt64) :
    ((if decide ((state.pruned now).families.len ≠ state.families.len) then
      some (state.pruned now) else none).getD state) = state.pruned now := by
  split
  · rfl
  · next h =>
    rw [decide_eq_true_eq, not_not] at h
    have hm : (state.pruned now).families = state.families := (HashMap.len_retain_eq_iff _ _).mp h
    rw [Option.getD_none]
    cases state
    simp only [RefreshTokenState.pruned] at hm ⊢
    rw [hm]

theorem createFamilyPlan_cases (state : RefreshTokenState) (familyId hash : String)
    (expiresAt now : UInt64) :
    ((∃ f, (state.pruned now).families.lookup familyId = some f) ∧
      createFamilyPlan state familyId hash expiresAt now = ⟨none, .error .entropy⟩) ∨
    ((state.pruned now).families.lookup familyId = none ∧
      createFamilyPlan state familyId hash expiresAt now
        = ⟨some ((state.pruned now).set familyId ⟨hash, expiresAt, false⟩), .ok ()⟩) := by
  unfold createFamilyPlan
  cases h : (state.pruned now).families.lookup familyId with
  | none => exact Or.inr ⟨rfl, by simp [h]⟩
  | some f => exact Or.inl ⟨⟨f, rfl⟩, by simp [h]⟩

/--
**What `rotate` does.** The family is absent or expired; or it is dead already, or the wrong
token was presented, and it is revoked; or the right token was presented and it is replaced.

In each case the resulting map is the pruned one, except for the entry of the family itself.
-/
theorem rotatePlan_cases (state : RefreshTokenState) (familyId presented nextHash : String)
    (expiresAt now : UInt64) :
    let p := rotatePlan state familyId presented nextHash expiresAt now
    ((state.pruned now).families.lookup familyId = none ∧ p.answer = .error .invalidGrant ∧
      p.result state = state.pruned now) ∨
    (∃ f, (state.pruned now).families.lookup familyId = some f ∧ f.revoked = true ∧
      p.answer = .error .invalidGrant ∧ p.result state = state.pruned now) ∨
    (∃ f, (state.pruned now).families.lookup familyId = some f ∧ f.revoked = false ∧
      f.activeTokenHash ≠ presented ∧ p.answer = .error .invalidGrant ∧
      p.next = some ((state.pruned now).set familyId { f with revoked := true })) ∨
    (∃ f, (state.pruned now).families.lookup familyId = some f ∧ f.revoked = false ∧
      f.activeTokenHash = presented ∧ p.answer = .ok () ∧
      p.next = some ((state.pruned now).set familyId
        { f with activeTokenHash := nextHash, expiresAt := expiresAt })) := by
  intro p
  cases h : (state.pruned now).families.lookup familyId with
  | none =>
    refine Or.inl ⟨rfl, ?_, ?_⟩
    · simp only [p, rotatePlan, h]
    · simp only [p, rotatePlan, h, Plan.result, getD_pruned]
  | some f =>
    right
    cases hr : f.revoked with
    | true =>
      refine Or.inl ⟨f, rfl, hr, ?_, ?_⟩
      · simp only [p, rotatePlan, h, hr, Bool.true_or, if_true]
      · simp only [p, rotatePlan, h, hr, Bool.true_or, if_true, Plan.result, getD_pruned]
    | false =>
      right
      by_cases hp : f.activeTokenHash = presented
      · have hc : constantTimeEqual (utf8 f.activeTokenHash) (utf8 presented) = true := by simp [hp]
        refine Or.inr ⟨f, rfl, hr, hp, ?_, ?_⟩
        · simp only [p, rotatePlan, h, hr, hc, Bool.not_true, Bool.or_self, Bool.false_eq_true,
            if_false]
        · simp only [p, rotatePlan, h, hr, hc, Bool.not_true, Bool.or_self, Bool.false_eq_true,
            if_false]
      · have hc : constantTimeEqual (utf8 f.activeTokenHash) (utf8 presented) = false := by
          simp [hp]
        refine Or.inl ⟨f, rfl, hr, hp, ?_, ?_⟩
        · simp only [p, rotatePlan, h, hr, hc, Bool.not_false, Bool.or_true, if_true,
            Bool.false_eq_true, if_false]
        · simp only [p, rotatePlan, h, hr, hc, Bool.not_false, Bool.or_true, if_true,
            Bool.false_eq_true, if_false]

/-! ## The state directory and `persist` -/

/-- The two files of the state directory: the state file and its temporary sibling. -/
structure StateDir where
  file : Option Bytes
  temporary : Option Bytes
  deriving DecidableEq

/-- An empty state directory. -/
def StateDir.empty : StateDir := ⟨none, none⟩

/-- The steps of `persist`; `write` is cut after some of the bytes. -/
inductive PersistStep
  | serialize
  | openTemporary
  | write (written : Nat)
  | sync
  | rename

/-- How one call of `persist` goes. -/
inductive PersistIo
  | completes
  | fails (step : PersistStep)

namespace StateDir

/-- The directory when `persist` gets no further than `step`. -/
def stoppedAt (dir : StateDir) (serialized : Bytes) : PersistStep → StateDir
  | .serialize => dir
  | .openTemporary => dir
  | .write written => { dir with temporary := some (serialized.take written) }
  | .sync => { dir with temporary := some serialized }
  | .rename => { dir with temporary := some serialized }

/-- The directory after the rename, which replaces the state file in one step. -/
def renamed (serialized : Bytes) : StateDir := ⟨some serialized, none⟩

/-- Before the rename the state file is not touched. -/
@[simp] theorem file_stoppedAt (dir : StateDir) (serialized : Bytes) (step : PersistStep) :
    (dir.stoppedAt serialized step).file = dir.file := by
  cases step <;> rfl

end StateDir

/-- `RefreshTokenStore`, with the directory that holds its file. -/
structure RefreshTokenStore where
  dir : StateDir
  state : RefreshTokenState

namespace RefreshTokenStore

/-- `RefreshTokenStore::persist`. -/
def persist (dir : StateDir) (io : PersistIo) (state : RefreshTokenState) :
    StateDir × Except OAuthError Unit :=
  match io with
  | .completes => (StateDir.renamed state.toVec, .ok ())
  | .fails step => (dir.stoppedAt state.toVec step, .error .internal)

/-- The common tail: `self.persist(&next)?; *state = next;` and then the answer. -/
def commit (store : RefreshTokenStore) (io : PersistIo) (plan : Plan) :
    RefreshTokenStore × Except OAuthError Unit :=
  match plan.next with
  | none => (store, plan.answer)
  | some next =>
    match persist store.dir io next with
    | (dir, .ok ()) => (⟨dir, next⟩, plan.answer)
    | (dir, .error e) => (⟨dir, store.state⟩, .error e)

/-- `RefreshTokenStore::create_family`. -/
def createFamily (store : RefreshTokenStore) (io : PersistIo) (familyId activeTokenHash : String)
    (expiresAt now : UInt64) : RefreshTokenStore × Except OAuthError Unit :=
  store.commit io (createFamilyPlan store.state familyId activeTokenHash expiresAt now)

/-- `RefreshTokenStore::rotate`. -/
def rotate (store : RefreshTokenStore) (io : PersistIo)
    (familyId presentedTokenHash nextTokenHash : String) (expiresAt now : UInt64) :
    RefreshTokenStore × Except OAuthError Unit :=
  store.commit io (rotatePlan store.state familyId presentedTokenHash nextTokenHash expiresAt now)

/-- `RefreshTokenStore::is_active`. -/
def isActive (store : RefreshTokenStore) (familyId : String) (now : UInt64) : Bool :=
  match store.state.families.lookup familyId with
  | none => false
  | some family => !family.revoked && decide (family.expiresAt > now)

/-- `RefreshTokenStore::open` on an existing directory. -/
def «open» (reader : RefreshStateReader) (dir : StateDir) : Except OAuthError RefreshTokenStore :=
  match dir.file with
  | none => .ok ⟨dir, .default⟩
  | some contents =>
    if contents.length > maxRefreshStateBytes then .error .invalidConfiguration
    else
      match reader.fromSlice contents with
      | none => .error .invalidConfiguration
      | some state =>
        if state.version ≠ refreshStateVersion then .error .invalidConfiguration
        else .ok ⟨dir, state⟩

/-- A store over an empty directory, as `open` returns it. -/
def fresh : RefreshTokenStore := ⟨StateDir.empty, .default⟩

theorem open_empty (reader : RefreshStateReader) : «open» reader StateDir.empty = .ok fresh := rfl

theorem isActive_iff {store : RefreshTokenStore} {familyId : String} {now : UInt64} :
    store.isActive familyId now = true ↔
      ∃ f, store.state.families.lookup familyId = some f ∧ f.revoked = false ∧
        now < f.expiresAt := by
  unfold isActive
  cases h : store.state.families.lookup familyId with
  | none => simp
  | some f => simp

/-! ## What `commit` does -/

theorem commit_completes (store : RefreshTokenStore) (plan : Plan) :
    (store.commit .completes plan).2 = plan.answer ∧
      (store.commit .completes plan).1.state = plan.result store.state := by
  cases h : plan.next with
  | none => simp [commit, h, Plan.result]
  | some next => simp [commit, h, Plan.result, persist]

theorem dir_commit_completes (store : RefreshTokenStore) (plan : Plan) :
    (store.commit .completes plan).1.dir =
      match plan.next with
      | none => store.dir
      | some next => StateDir.renamed next.toVec := by
  cases h : plan.next with
  | none => simp [commit, h]
  | some next => simp [commit, h, persist]

/-- A failing `persist` is answered with an error, and neither memory nor the file changes. -/
theorem commit_fails (store : RefreshTokenStore) (plan : Plan) (step : PersistStep)
    {next : RefreshTokenState} (h : plan.next = some next) :
    (store.commit (.fails step) plan).2 = .error .internal ∧
      (store.commit (.fails step) plan).1.state = store.state ∧
      (store.commit (.fails step) plan).1.dir = store.dir.stoppedAt next.toVec step := by
  simp [commit, h, persist]

/-- Without a map to store, the outcome of `persist` does not matter. -/
theorem commit_of_next_eq_none {store : RefreshTokenStore} {io : PersistIo} {plan : Plan}
    (h : plan.next = none) : store.commit io plan = (store, plan.answer) := by
  simp [commit, h]

/-- Memory after `commit` is either what it was or what the plan wants. -/
theorem state_commit (store : RefreshTokenStore) (io : PersistIo) (plan : Plan) :
    (store.commit io plan).1.state = plan.result store.state ∧
        (store.commit io plan).2 = plan.answer ∨
      (store.commit io plan).1.state = store.state ∧
        (store.commit io plan).2 = .error .internal := by
  cases io with
  | completes =>
    have h := store.commit_completes plan
    exact Or.inl ⟨h.2, h.1⟩
  | fails step =>
    cases h : plan.next with
    | none =>
      rw [commit_of_next_eq_none h]
      exact Or.inl ⟨by simp [Plan.result, h], rfl⟩
    | some next =>
      have hf := store.commit_fails plan step h
      exact Or.inr ⟨hf.2.1, hf.1⟩

end RefreshTokenStore

end EngramMcp
