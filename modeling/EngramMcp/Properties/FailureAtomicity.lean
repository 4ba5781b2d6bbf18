import EngramMcp.OAuth.RefreshRun

/-!
# Failure atomicity

What is in the state file when `persist` fails or the process dies.

* `failure_atomicity` — the state file is always the complete serialization of one map, equal
  to the map in memory while the process is up, and a call whose `persist` fails changes
  neither
-/

namespace EngramMcp

open Infra

/-! ## A process that can fail -/

/-- Where a process that dies inside `persist` dies. -/
inductive CrashPoint
  | within (step : PersistStep)
  | afterRename

/-- What a process that died inside `persist` leaves behind. -/
def StateDir.crashedAt (dir : StateDir) (serialized : Bytes) : CrashPoint → StateDir
  | .within step => dir.stoppedAt serialized step
  | .afterRename => StateDir.renamed serialized

/-- The process that owns the state directory: up with a store, or down. -/
inductive StoreProcess
  | up (store : RefreshTokenStore)
  | down (dir : StateDir)

/-- The state directory of the process. -/
def StoreProcess.dir : StoreProcess → StateDir
  | .up store => store.dir
  | .down dir => dir

/-- What happens to the process. -/
inductive ProcessEvent
  /-- A call returns; its `persist`, if it has one, went as `io` says. -/
  | returned (c : StoreCall) (io : PersistIo) (answer : Except OAuthError Unit)
  /-- The process dies inside the `persist` of a call. -/
  | crashed (c : StoreCall) (point : CrashPoint)
  /-- The process dies outside `persist`. -/
  | killed
  /-- The process is started again. -/
  | started

/-- One event. What came before does not matter. -/
inductive ProcessStep (reader : RefreshStateReader) :
    List ProcessEvent → StoreProcess → ProcessEvent → StoreProcess → Prop
  | returned {h : List ProcessEvent} {s s' : RefreshTokenStore} {c : StoreCall} {io : PersistIo}
      {answer : Except OAuthError Unit} : s.call io c = (s', answer) →
      ProcessStep reader h (.up s) (.returned c io answer) (.up s')
  | crashed {h : List ProcessEvent} {s : RefreshTokenStore} {c : StoreCall} {point : CrashPoint}
      {next : RefreshTokenState} : (c.plan s.state).next = some next →
      ProcessStep reader h (.up s) (.crashed c point) (.down (s.dir.crashedAt next.toVec point))
  | killed {h : List ProcessEvent} {s : RefreshTokenStore} :
      ProcessStep reader h (.up s) .killed (.down s.dir)
  | started {h : List ProcessEvent} {dir : StateDir} {s : RefreshTokenStore} :
      RefreshTokenStore.«open» reader dir = .ok s →
      ProcessStep reader h (.down dir) .started (.up s)

/-! ## The invariant -/

/-- Some store is in step with the directory; it is the one in memory while the process is up. -/
def StoreProcess.Recoverable : StoreProcess → Prop
  | .up store => store.InSync
  | .down dir => ∃ store : RefreshTokenStore, store.dir = dir ∧ store.InSync

/-- Whether a file is the one of a store in step with it depends on the file alone. -/
theorem RefreshTokenStore.InSync.of_file_eq {store : RefreshTokenStore} (h : store.InSync)
    {dir : StateDir} (hd : dir.file = store.dir.file) : InSync ⟨dir, store.state⟩ :=
  ⟨h.version, by rw [hd]; exact h.file⟩

/-- A crash leaves the old file or the planned one. -/
theorem recoverable_crashedAt {s : RefreshTokenStore} (hs : s.InSync) {c : StoreCall}
    {next : RefreshTokenState} (hn : (c.plan s.state).next = some next) (point : CrashPoint) :
    ∃ store : RefreshTokenStore, store.dir = s.dir.crashedAt next.toVec point ∧ store.InSync := by
  cases point with
  | within step => exact ⟨⟨_, s.state⟩, rfl, hs.of_file_eq (StateDir.file_stoppedAt _ _ step)⟩
  | afterRename =>
    have hv := (c.effect_plan s.state).version_eq
    rw [Plan.result, hn, Option.getD_some] at hv
    exact ⟨⟨_, next⟩, rfl, hv.trans hs.version, next, rfl, .refl next⟩

theorem recoverable_step {reader : RefreshStateReader} {h : List ProcessEvent}
    {p p' : StoreProcess} {e : ProcessEvent} (hp : p.Recoverable)
    (hs : ProcessStep reader h p e p') : p'.Recoverable := by
  cases hs with
  | @returned s s' c io answer hcall =>
    have hsync := RefreshTokenStore.inSync_call hp io c
    rw [hcall] at hsync
    exact hsync
  | crashed hn => exact recoverable_crashedAt hp hn _
  | @killed s => exact ⟨s, rfl, hp⟩
  | started hopen =>
    obtain ⟨old, rfl, hold⟩ := hp
    exact (RefreshTokenStore.open_inSync hold hopen).1

theorem recoverable_run {reader : RefreshStateReader} {h : List ProcessEvent} {p : StoreProcess}
    (hr : Run (ProcessStep reader) (.up RefreshTokenStore.fresh) h p) : p.Recoverable :=
  Steps.invariant (P := fun _ p => p.Recoverable) (fun _ _ _ _ => recoverable_step)
    RefreshTokenStore.inSync_fresh hr

/-- The file of a recoverable process is the serialization of one map. -/
theorem StoreProcess.Recoverable.file {p : StoreProcess} (hp : p.Recoverable) {bytes : Bytes}
    (hb : p.dir.file = some bytes) : ∃ m : RefreshTokenState, bytes = m.toVec := by
  have key : ∀ s : RefreshTokenStore, s.InSync → s.dir.file = some bytes →
      ∃ m : RefreshTokenState, bytes = m.toVec := by
    intro s hs hf
    have hfile := hs.file
    rw [hf] at hfile
    obtain ⟨t, ht, _⟩ := hfile
    exact ⟨t, ht⟩
  cases p with
  | up s => exact key s hp hb
  | down dir =>
    obtain ⟨s, rfl, hs⟩ := hp
    exact key s hs hb

/-- A state file that exists is replaced but never removed. -/
theorem isSome_file_step {reader : RefreshStateReader} {h : List ProcessEvent}
    {p p' : StoreProcess} {e : ProcessEvent} (hs : ProcessStep reader h p e p')
    (hp : p.dir.file.isSome) : p'.dir.file.isSome := by
  cases hs with
  | @returned s s' c io answer hcall =>
    have hd : s'.dir = (s.commit io (c.plan s.state)).1.dir := by
      rw [← RefreshTokenStore.call_eq_commit, hcall]
    rw [StoreProcess.dir, hd]
    cases hn : (c.plan s.state).next with
    | none => rw [RefreshTokenStore.commit_of_next_eq_none hn]; exact hp
    | some next =>
      cases io with
      | completes => rw [RefreshTokenStore.dir_commit_completes, hn]; rfl
      | fails step =>
        rw [(s.commit_fails _ step hn).2.2, StateDir.file_stoppedAt]
        exact hp
  | @crashed s c point next hn =>
    cases point with
    | within step => rw [StoreProcess.dir, StateDir.crashedAt, StateDir.file_stoppedAt]; exact hp
    | afterRename => rfl
  | killed => exact hp
  | started hopen => rw [StoreProcess.dir, (RefreshTokenStore.open_eq_ok hopen).1]; exact hp

/-! ## Failure atomicity -/

/--
**Failure atomicity of the refresh store.**

In every state a run of calls, failures, crashes and restarts reaches, the state file holds the
complete serialization of one map, and while the process is up that map equals the one in memory.
A call whose `persist` fails returns an error and leaves file and memory exactly as they were, so
the next call is answered as if it had not been made. A crash leaves the file as it was or as the
call wanted it.
-/
theorem failure_atomicity (reader : RefreshStateReader) {h : List ProcessEvent} {p : StoreProcess}
    (hr : Run (ProcessStep reader) (.up RefreshTokenStore.fresh) h p) :
    (∀ bytes, p.dir.file = some bytes → ∃ m : RefreshTokenState, bytes = m.toVec) ∧
    (∀ s, p = .up s → s.InSync) ∧
    (∀ e p', ProcessStep reader h p e p' → p.dir.file.isSome → p'.dir.file.isSome) ∧
    (∀ s c io answer s', p = .up s → s.call io c = (s', answer) → s'.InSync) ∧
    (∀ s c step next answer s', p = .up s → (c.plan s.state).next = some next →
      s.call (.fails step) c = (s', answer) →
      answer = .error .internal ∧ s'.state = s.state ∧ s'.dir.file = s.dir.file ∧
      ∀ c', (s'.call .completes c').2 = (s.call .completes c').2) ∧
    (∀ s c point p', p = .up s → ProcessStep reader h p (.crashed c point) p' →
      p'.dir.file = s.dir.file ∨
      ∃ next, (c.plan s.state).next = some next ∧ p'.dir.file = some next.toVec) := by
  have hp := recoverable_run hr
  refine ⟨fun bytes hb => hp.file hb, ?_, fun e p' hs => isSome_file_step hs, ?_, ?_, ?_⟩
  · rintro s rfl
    exact hp
  · rintro s c io answer s' rfl hcall
    have hsync := RefreshTokenStore.inSync_call hp io c
    rw [hcall] at hsync
    exact hsync
  · rintro s c step next answer s' rfl hn hcall
    rw [RefreshTokenStore.call_eq_commit] at hcall
    obtain ⟨ha, hst, hd⟩ := s.commit_fails (c.plan s.state) step hn
    rw [hcall] at ha hst hd
    refine ⟨ha, hst, ?_, fun c' => ?_⟩
    · simp only at hd
      rw [hd, StateDir.file_stoppedAt]
    · have hsame : s'.state.Same s.state := by simp only at hst; rw [hst]; exact .refl _
      exact (RefreshTokenStore.call_congr hsame .completes c').1
  · rintro s c point p' rfl hs
    cases hs with
    | crashed hn =>
      cases point with
      | within step => exact Or.inl (StateDir.file_stoppedAt _ _ step)
      | afterRename => exact Or.inr ⟨_, hn, rfl⟩

/-- A rotation whose write is cut short leaves the token it was given active. -/
theorem failure_atomicity_cut_write :
    ((RefreshTokenStore.fresh.calls [.createFamily "rf" "a" 10 1]).call (.fails (.write 7))
      (.rotate "rf" "a" "b" 12 2)).1.state
        = (RefreshTokenStore.fresh.calls [.createFamily "rf" "a" 10 1]).state := by
  let s := RefreshTokenStore.fresh.calls [.createFamily "rf" "a" 10 1]
  have hcreate : RefreshTokenStore.fresh.call .completes (.createFamily "rf" "a" 10 1)
      = (s, .ok ()) := Prod.ext rfl (by decide)
  have hrun : Run (ProcessStep .strict) (.up RefreshTokenStore.fresh)
      [.returned (.createFamily "rf" "a" 10 1) .completes (.ok ())] (.up s) :=
    Steps.single (.returned hcreate)
  obtain ⟨_, _, _, _, hfails, _⟩ := failure_atomicity .strict hrun
  exact (hfails s (.rotate "rf" "a" "b" 12 2) (.write 7) _ _ _ rfl rfl rfl).2.1

end EngramMcp
