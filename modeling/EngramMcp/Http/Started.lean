import EngramMcp.Http.NotesInv
import EngramMcp.Kb.Reference
import EngramMcp.OAuth.Reference

/-!
# A service that has started

A service is started by `router` from an accepted configuration. The directory of the refresh
tokens is the one that an earlier run of the OAuth server left behind, so the service may have
been restarted any number of times.

* `Service.oauth_run` — the OAuth part from the very first start
* `Service.exists_inbox_run` — the inbox from the directory that the service found
-/

namespace EngramMcp

open Infra ServiceState

/-- A service that `router` has started. -/
structure Service (W : ServiceCrates) (K : ConfigCrates) where
  fs : FileSystem
  lookup : Lookup
  config : Config K
  config_eq : Config.fromLookup K fs lookup = .ok config
  /-- What happened to the OAuth server before. -/
  earlier : List ServerEvent
  earlierState : OAuthState
  earlier_run : Run (IdealStep W.oauth config.oauth.settings) .start earlier earlierState
  reader : RefreshStateReader
  now : ℚ
  start : ServiceState
  router_eq : router reader earlierState.refreshTokens.dir fs now config = .ok start

namespace Service

variable {W : ServiceCrates} {K : ConfigCrates} (D : Service W K)

/-- The fixed parts of the service. -/
def app : App := .new W D.config

/-- The OAuth history when the service starts: it ends with a restart. -/
def before : List ServerEvent := D.earlier ++ [.restarted D.reader]

/-- The runs of the service. -/
abbrev RunsTo (h : List ServiceLabel) (s : ServiceState) : Prop :=
  ServiceRun W D.app D.before D.start h s

/-- The OAuth history after a run. -/
def history (h : List ServiceLabel) : List ServerEvent := D.before ++ oauthHistory h

/-- What `router` sets up. -/
theorem start_eq : ∃ store oauth, DocumentStore.new D.fs D.config.kbRoot D.config.maxReadBytes
      D.config.maxSearchFileBytes D.config.scopeDirectories = .ok store ∧
    OAuthState.new K D.reader D.earlierState.refreshTokens.dir D.config.oauth = .ok oauth ∧
    D.start = {
      oauth
      rateLimiter := .new D.config.rateLimitPerMinute D.config.rateLimitBurst
      requestCounter := 0
      server := ⟨store, D.config.maxSearchResponseBytes, openInbox D.fs D.config D.now⟩
      requests := []
      auditLog := [] } := by
  have h := D.router_eq
  unfold router at h
  split at h
  · cases h
  · next store hstore =>
    split at h
    · cases h
    · next oauth hoauth => exact ⟨store, oauth, hstore, hoauth, (Except.ok.inj h).symm⟩

theorem openInbox_eq_some {fs : FileSystem} {config : Config K} {now : ℚ} {inbox : InboxSupport}
    (h : openInbox fs config now = some inbox) : ∃ settings, config.inbox = some settings ∧
      InboxStore.open fs settings.root config.kbRoot settings.maxNoteBytes settings.maxTotalBytes
        = .ok inbox.store ∧
      inbox.notes = .new settings.writesPerHour now (inbox.store.rootFd fs) := by
  unfold openInbox at h
  split at h
  · cases h
  · next settings hsettings =>
    split at h
    · cases h
    · next store hstore =>
      obtain rfl := Option.some.inj h
      exact ⟨settings, hsettings, hstore, rfl⟩

/-- The service starts with nothing under way. -/
theorem starts : Starts D.start := by
  obtain ⟨store, oauth, -, -, hstart⟩ := D.start_eq
  rw [hstart]
  refine ⟨rfl, rfl, fun inbox hinbox => ?_⟩
  obtain ⟨_, _, _, hnotes⟩ := openInbox_eq_some (Option.mem_def.mp hinbox)
  rw [hnotes]
  rfl

/-- Before the service starts the OAuth server is restarted. -/
theorem before_run :
    Run (IdealStep W.oauth D.app.settings) .start D.before D.start.oauth := by
  obtain ⟨_, oauth, -, hoauth, hstart⟩ := D.start_eq
  rw [hstart]
  unfold OAuthState.new at hoauth
  split at hoauth
  · cases hoauth
  · cases hopen : RefreshTokenStore.open D.reader D.earlierState.refreshTokens.dir with
    | error e =>
      rw [hopen] at hoauth
      cases hoauth
    | ok store =>
      rw [hopen] at hoauth
      obtain rfl := Except.ok.inj hoauth
      refine D.earlier_run.tail ⟨⟨?_, ?_, ?_, ?_⟩, .restarted hopen⟩
      · rintro _ _ _ ⟨⟩
      · rintro _ _ _ _ ⟨⟩
      · rintro _ _ _ _ ⟨⟩
      · rintro _ _ _ _ ⟨⟩

/-- The OAuth part, from its very first start. -/
theorem oauth_run {h : List ServiceLabel} {s : ServiceState} (hr : D.RunsTo h s) :
    Run (IdealStep W.oauth D.app.settings) .start (D.history h) s.oauth :=
  oauthRun_of_serviceRun D.before_run hr

/-- The credentials of the requests. -/
theorem inv_of_run {h : List ServiceLabel} {s : ServiceState} (hr : D.RunsTo h s) :
    ServiceInv W D.app (D.history h) s :=
  serviceInv_run D.starts.requests D.before_run hr

/-- The notes of the service, and the directory that it started with. -/
theorem exists_notes_run {h : List ServiceLabel} {s : ServiceState} (hr : D.RunsTo h s)
    {inbox : InboxSupport} (hinbox : s.server.inbox = some inbox) :
    ∃ inbox₀ events, D.start.server.inbox = some inbox₀ ∧ inbox.store = inbox₀.store ∧
      NoteRun W.toYaml inbox.store inbox₀.notes events inbox.notes := by
  have hnotes := notesFrom_of_serviceRun hr
  unfold NotesFrom at hnotes
  split at hnotes
  · rw [hnotes] at hinbox
    cases hinbox
  · next inbox₀ hstart =>
    obtain ⟨events, notes, hsome, hrun⟩ := hnotes
    obtain rfl := Option.some.inj (hsome.symm.trans hinbox)
    exact ⟨inbox₀, events, hstart, rfl, hrun⟩

/-- The inbox, from the directory that the service found. -/
theorem exists_inbox_run {h : List ServiceLabel} {s : ServiceState} (hr : D.RunsTo h s)
    {inbox : InboxSupport} (hinbox : s.server.inbox = some inbox) :
    ∃ events, InboxRun W.toYaml inbox.store ⟨inbox.store.rootFd D.fs, []⟩ events
      inbox.notes.inbox := by
  obtain ⟨inbox₀, events, hstart, hstore, hrun⟩ := D.exists_notes_run hr hinbox
  obtain ⟨_, _, _, _, heq⟩ := D.start_eq
  rw [heq] at hstart
  obtain ⟨_, _, _, hnew⟩ := openInbox_eq_some hstart
  rw [hnew, ← hstore] at hrun
  exact exists_inboxRun hrun

end Service

end EngramMcp
