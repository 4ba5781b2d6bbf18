import EngramMcp.Kb.InboxRun
import EngramMcp.Kb.Limiter

/-!
# Appending notes

`append_note` of `server.rs`, for callers that may see the tool: the write limiter is asked first,
and a call that it admits goes on to `create_note`.

* `NoteServer.step_inbox` — what an event does to the inbox
-/

namespace EngramMcp

open Infra

/-- The limiter of `InboxSupport`, and the inbox with the calls that were let through. -/
structure NoteServer where
  limiter : WriteRateLimiter
  inbox : InboxState

/-- `append_note` is called, or a call that was admitted goes on. -/
inductive NoteEvent
  | appendNote (now : ℚ) (request : NoteRequest)
  | advance (i : Nat) (faults : Faults)

namespace NoteServer

/-- A server that has just started. -/
def new (writesPerHour : Nat) (now : ℚ) (dir : Node) : NoteServer :=
  ⟨.new writesPerHour now, ⟨dir, []⟩⟩

/-- `append_note`, up to the first step of `create_note`. -/
def appendNote (toYaml : FrontMatterWriter) (store : InboxStore) (s : NoteServer) (now : ℚ)
    (request : NoteRequest) : NoteServer :=
  match s.limiter.check now with
  | (limiter, .ok ()) => ⟨limiter, s.inbox.step toYaml store (.call request)⟩
  | (limiter, .error .rateLimitExceeded) => { s with limiter }

/-- What an event does. -/
def step (toYaml : FrontMatterWriter) (store : InboxStore) (s : NoteServer) :
    NoteEvent → NoteServer
  | .appendNote now request => s.appendNote toYaml store now request
  | .advance i faults =>
    { s with inbox := s.inbox.step toYaml store (.advance i faults) }

/-- A call that the limiter admits is a call to the inbox. -/
theorem appendNote_of_ok {toYaml : FrontMatterWriter} {store : InboxStore} {s : NoteServer}
    {limiter : WriteRateLimiter} {now : ℚ} (h : s.limiter.check now = (limiter, .ok ()))
    (request : NoteRequest) : s.appendNote toYaml store now request
      = ⟨limiter, s.inbox.step toYaml store (.call request)⟩ := by
  unfold appendNote
  rw [h]

/-- To the inbox a call of `append_note` is a call, or nothing when it is refused. -/
theorem step_inbox (toYaml : FrontMatterWriter) (store : InboxStore) (s : NoteServer)
    (e : NoteEvent) :
    (s.step toYaml store e).inbox = s.inbox ∨
    (∃ now request, e = .appendNote now request ∧
      (s.step toYaml store e).inbox = s.inbox.step toYaml store (.call request)) ∨
    ∃ i faults, e = .advance i faults ∧
      (s.step toYaml store e).inbox = s.inbox.step toYaml store (.advance i faults) := by
  cases e with
  | appendNote now request =>
    show (s.appendNote toYaml store now request).inbox = _ ∨ _
    rcases hcheck : s.limiter.check now with ⟨limiter, ⟨⟨⟩⟩ | ⟨⟨⟩⟩⟩
    · left
      unfold appendNote
      rw [hcheck]
    · refine Or.inr (Or.inl ⟨now, request, rfl, ?_⟩)
      show (s.appendNote toYaml store now request).inbox = _
      rw [appendNote_of_ok hcheck]
  | advance i faults => exact Or.inr (Or.inr ⟨i, faults, rfl, rfl⟩)

end NoteServer

/-- One event after another. -/
abbrev NoteRun (toYaml : FrontMatterWriter) (store : InboxStore) (s₀ : NoteServer) :
    List NoteEvent → NoteServer → Prop :=
  Run (fun _ s e s' => s' = s.step toYaml store e) s₀

end EngramMcp
