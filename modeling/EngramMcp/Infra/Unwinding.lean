import Mathlib.Data.List.Forall2
import Mathlib.Logic.Basic

/-!
# Two runs that look alike

A machine takes one event after another and answers some of them. An observer does not see every
event; which ones are hidden may depend on the state. Two machines whose states agree on what the
observer sees, and go on agreeing whatever they do next, give the observer the same answers.

* `Unwinding.observed_eq` — what the observer sees of two runs with the same visible events
* `Unwinding.observed_and_after` — the states at the end agree as well
-/

namespace Infra

variable {σ τ ε δ ω : Type*}

/-- What a machine does with an event, and which events the observer does not see. -/
structure Machine (σ ε ω : Type*) where
  step : σ → ε → σ × Option ω
  hidden : σ → ε → Bool

namespace Machine

variable (M : Machine σ ε ω)

/-- The state after a list of events. -/
def after (s : σ) (es : List ε) : σ := es.foldl (fun s e => (M.step s e).1) s

/-- The events that the observer sees. -/
def visible : σ → List ε → List ε
  | _, [] => []
  | s, e :: es =>
    if M.hidden s e then visible (M.step s e).1 es else e :: visible (M.step s e).1 es

/-- Which of the events are hidden. -/
def mask : σ → List ε → List Bool
  | _, [] => []
  | s, e :: es => M.hidden s e :: mask (M.step s e).1 es

/-- The answers that the observer sees. -/
def observed : σ → List ε → List ω
  | _, [] => []
  | s, e :: es =>
    if M.hidden s e then observed (M.step s e).1 es
    else (M.step s e).2.toList ++ observed (M.step s e).1 es

variable {M}

theorem visible_cons_hidden {s : σ} {e : ε} (h : M.hidden s e = true) (es : List ε) :
    M.visible s (e :: es) = M.visible (M.step s e).1 es := by
  rw [visible, if_pos h]

theorem visible_cons_seen {s : σ} {e : ε} (h : M.hidden s e = false) (es : List ε) :
    M.visible s (e :: es) = e :: M.visible (M.step s e).1 es := by
  rw [visible, h]
  rfl

theorem visible_eq (s : σ) (es : List ε) :
    M.visible s es = ((es.zip (M.mask s es)).filter fun p => !p.2).map Prod.fst := by
  induction es generalizing s with
  | nil => rfl
  | cons e es ih =>
    rw [mask, List.zip_cons_cons]
    cases h : M.hidden s e with
    | true => rw [visible_cons_hidden h, ih, List.filter_cons_of_neg Bool.false_ne_true]
    | false => rw [visible_cons_seen h, ih, List.filter_cons_of_pos rfl, List.map_cons]

theorem visible_append (s : σ) (es ds : List ε) :
    M.visible s (es ++ ds) = M.visible s es ++ M.visible (M.after s es) ds := by
  induction es generalizing s with
  | nil => rfl
  | cons e es ih =>
    rw [List.cons_append, after, List.foldl_cons, ← after]
    cases h : M.hidden s e with
    | true => rw [visible_cons_hidden h, visible_cons_hidden h, ih]
    | false => rw [visible_cons_seen h, visible_cons_seen h, ih, List.cons_append]

theorem after_append (s : σ) (es ds : List ε) :
    M.after s (es ++ ds) = M.after (M.after s es) ds := List.foldl_append

theorem observed_cons_hidden {s : σ} {e : ε} (h : M.hidden s e = true) (es : List ε) :
    M.observed s (e :: es) = M.observed (M.step s e).1 es := by
  rw [observed, if_pos h]

theorem observed_cons_seen {s : σ} {e : ε} (h : M.hidden s e = false) (es : List ε) :
    M.observed s (e :: es) = (M.step s e).2.toList ++ M.observed (M.step s e).1 es := by
  rw [observed, h]
  rfl

end Machine

/--
`R` holds between states that look alike, and keeps holding.

A hidden event of one machine is matched by nothing, and two events that are alike are taken
together.
-/
structure Unwinding (M : Machine σ ε ω) (N : Machine τ δ ω) (Alike : ε → δ → Prop)
    (R : σ → τ → Prop) : Prop where
  left : ∀ {s t e}, R s t → M.hidden s e = true → R (M.step s e).1 t
  right : ∀ {s t d}, R s t → N.hidden t d = true → R s (N.step t d).1
  both : ∀ {s t e d}, R s t → M.hidden s e = false → N.hidden t d = false → Alike e d →
    R (M.step s e).1 (N.step t d).1 ∧ (M.step s e).2 = (N.step t d).2

namespace Unwinding

variable {M : Machine σ ε ω} {N : Machine τ δ ω} {Alike : ε → δ → Prop} {R : σ → τ → Prop}

/-- Two runs with the same visible events: the answers and the states at the end. -/
theorem observed_and_after (h : Unwinding M N Alike R) :
    ∀ {es : List ε} {ds : List δ} {s : σ} {t : τ}, R s t →
      List.Forall₂ Alike (M.visible s es) (N.visible t ds) →
      M.observed s es = N.observed t ds ∧ R (M.after s es) (N.after t ds) := by
  intro es
  induction es with
  | nil =>
    intro ds
    -- the rest of the other run is hidden
    induction ds with
    | nil => exact fun hR _ => ⟨rfl, hR⟩
    | cons d ds ih =>
      intro s t hR hvisible
      cases hd : N.hidden t d with
      | true =>
        rw [Machine.visible_cons_hidden hd] at hvisible
        rw [Machine.observed_cons_hidden hd]
        exact ih (h.right hR hd) hvisible
      | false =>
        rw [Machine.visible_cons_seen hd] at hvisible
        cases hvisible
  | cons e es ih =>
    intro ds s t hR hvisible
    cases he : M.hidden s e with
    | true =>
      rw [Machine.visible_cons_hidden he] at hvisible
      rw [Machine.observed_cons_hidden he]
      exact ih (h.left hR he) hvisible
    | false =>
      rw [Machine.visible_cons_seen he] at hvisible
      -- the hidden events of the other run come first
      induction ds generalizing t with
      | nil => cases hvisible
      | cons d ds ihd =>
        cases hd : N.hidden t d with
        | true =>
          rw [Machine.visible_cons_hidden hd] at hvisible
          rw [Machine.observed_cons_hidden hd]
          exact ihd (h.right hR hd) hvisible
        | false =>
          rw [Machine.visible_cons_seen hd] at hvisible
          obtain ⟨halike, hrest⟩ := List.forall₂_cons.mp hvisible
          obtain ⟨hstep, hanswer⟩ := h.both hR he hd halike
          obtain ⟨hobserved, hafter⟩ := ih hstep hrest
          rw [Machine.observed_cons_seen he, Machine.observed_cons_seen hd, hanswer, hobserved]
          exact ⟨rfl, hafter⟩

/-- The observer sees the same answers. -/
theorem observed_eq (h : Unwinding M N Alike R) {es : List ε} {ds : List δ} {s : σ} {t : τ}
    (hR : R s t) (hvisible : List.Forall₂ Alike (M.visible s es) (N.visible t ds)) :
    M.observed s es = N.observed t ds := (h.observed_and_after hR hvisible).1

end Unwinding

end Infra
