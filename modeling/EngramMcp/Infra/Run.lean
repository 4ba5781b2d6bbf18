import Mathlib.Data.List.Induction

/-!
# Runs of a labelled transition system

A step may look at the history of events that led to the current state, so freshness
("this identifier was not used before") is a condition on a step and not a field of the
state.

Five rules are all a development needs from here.

* `Steps.invariant` — what holds initially and is preserved by a step holds at the end of a run
* `Run.split` — a run through an event is a run before it, the step itself, and a run after it
* `Steps.forall_mem_suffix` — an invariant that answers for the next event answers for every
  later one
* `Steps.stays` — what only certain events destroy holds as long as none of them happens
* `Steps.countdown` — a number that certain events lower is lowered by as many as there were
-/

namespace Infra

variable {σ ε : Type*}

/--
`Steps step h₀ s₀ h s`: from state `s₀` with history `h₀` the system can get to state `s`
with history `h`.

The history grows at its end, one event a step.
-/
inductive Steps (step : List ε → σ → ε → σ → Prop) (h₀ : List ε) (s₀ : σ) :
    List ε → σ → Prop
  | refl : Steps step h₀ s₀ h₀ s₀
  | tail {h : List ε} {s s' : σ} {e : ε} :
      Steps step h₀ s₀ h s → step h s e s' → Steps step h₀ s₀ (h ++ [e]) s'

/-- A run from the initial state, with nothing in the history yet. -/
abbrev Run (step : List ε → σ → ε → σ → Prop) (init : σ) : List ε → σ → Prop :=
  Steps step [] init

namespace Steps

variable {step : List ε → σ → ε → σ → Prop} {h₀ h h₁ : List ε} {s₀ s s₁ : σ}

theorem single {e : ε} (hs : step h₀ s₀ e s) : Steps step h₀ s₀ (h₀ ++ [e]) s :=
  .tail .refl hs

theorem trans (h1 : Steps step h₀ s₀ h s) (h2 : Steps step h s h₁ s₁) :
    Steps step h₀ s₀ h₁ s₁ := by
  induction h2 with
  | refl => exact h1
  | tail _ hs ih => exact .tail ih hs

/-- Invariant rule: what every step preserves holds at the end if it holds at the start. -/
theorem invariant {P : List ε → σ → Prop}
    (hstep : ∀ h s e s', P h s → step h s e s' → P (h ++ [e]) s')
    (h0 : P h₀ s₀) (hr : Steps step h₀ s₀ h s) : P h s := by
  induction hr with
  | refl => exact h0
  | tail _ hs ih => exact hstep _ _ _ _ ih hs

/-- The same run in a system that allows more. -/
theorem mono {step' : List ε → σ → ε → σ → Prop}
    (hle : ∀ h s e s', step h s e s' → step' h s e s') (hr : Steps step h₀ s₀ h s) :
    Steps step' h₀ s₀ h s := by
  induction hr with
  | refl => exact .refl
  | tail _ hs ih => exact .tail ih (hle _ _ _ _ hs)

/--
An invariant `P` that forces `Q` of the next event forces `Q` of every later event.

This is the form in which "from now on" is used: `P` says what has been reached, and the
suffix of the history says what happens afterwards.
-/
theorem forall_mem_suffix {P : List ε → σ → Prop} {Q : ε → Prop}
    (hstep : ∀ h s e s', P h s → step h s e s' → P (h ++ [e]) s' ∧ Q e)
    (h0 : P h₀ s₀) (hr : Steps step h₀ s₀ h s) :
    P h s ∧ ∃ post, h = h₀ ++ post ∧ ∀ e ∈ post, Q e := by
  induction hr with
  | refl => exact ⟨h0, [], by simp, by simp⟩
  | @tail h s s' e _ hs ih =>
    obtain ⟨hp, post, rfl, hq⟩ := ih
    obtain ⟨hp', hqe⟩ := hstep _ _ _ _ hp hs
    refine ⟨hp', post ++ [e], by simp, ?_⟩
    intro x hx
    rcases List.mem_append.mp hx with hx | hx
    · exact hq x hx
    · rw [List.mem_singleton.mp hx]; exact hqe

/-- What is preserved by every event in `Q` holds at the end of a run with no other events. -/
theorem stays {P : σ → Prop} {Q : ε → Prop}
    (hstep : ∀ h s e s', P s → Q e → step h s e s' → P s') (h0 : P s₀) {post : List ε}
    (hr : Steps step h₀ s₀ (h₀ ++ post) s) (hq : ∀ e ∈ post, Q e) : P s := by
  obtain ⟨post', hpost, hp⟩ : ∃ post', h₀ ++ post = h₀ ++ post' ∧ ((∀ e ∈ post', Q e) → P s) := by
    refine invariant (P := fun h s => ∃ post', h = h₀ ++ post' ∧ ((∀ e ∈ post', Q e) → P s)) ?_
      ⟨[], by simp, fun _ => h0⟩ hr
    rintro h s e s' ⟨post', rfl, hp⟩ hs
    refine ⟨post' ++ [e], by simp, fun hq' => ?_⟩
    exact hstep _ s e s' (hp fun x hx => hq' x (by simp [hx])) (hq' e (by simp)) hs
  rw [List.append_cancel_left hpost] at hq
  exact hp hq

/--
A number that no step raises, and that the events in `p` lower.

After as many such events as the number was at the start it is zero, whatever else happened.
-/
theorem countdown {P : List ε → σ → Prop} {μ : σ → ℕ} {p : ε → Bool}
    (hstep : ∀ h s e s', P h s → step h s e s' →
      P (h ++ [e]) s' ∧ μ s' ≤ μ s ∧ (p e = true → μ s' ≤ μ s - 1))
    (h0 : P h₀ s₀) (hr : Steps step h₀ s₀ h s) :
    P h s ∧ ∃ post, h = h₀ ++ post ∧ μ s ≤ μ s₀ - post.countP p := by
  induction hr with
  | refl => exact ⟨h0, [], by simp, by simp⟩
  | @tail h s s' e _ hs ih =>
    obtain ⟨hp, post, rfl, hle⟩ := ih
    obtain ⟨hp', hkeep, hlower⟩ := hstep _ _ _ _ hp hs
    refine ⟨hp', post ++ [e], by simp, ?_⟩
    rw [List.countP_append, List.countP_singleton]
    split
    · next he =>
      have hone := hlower he
      omega
    · omega

/-- The run up to the last event, and the last step. -/
theorem split_last {e : ε} (hr : Steps step h₀ s₀ (h ++ [e]) s) (hne : h₀ ≠ h ++ [e]) :
    ∃ s₁, Steps step h₀ s₀ h s₁ ∧ step h s₁ e s := by
  generalize hl : h ++ [e] = l at hr
  cases hr with
  | refl => exact absurd hl.symm hne
  | @tail h' s' _ e' hr' hs =>
    obtain ⟨rfl, he⟩ := List.append_inj' hl rfl
    cases he
    exact ⟨s', hr', hs⟩

/-- Where the next state is a function of the event, a run goes on with any events. -/
theorem foldl {f : σ → ε → σ} (hr : Steps (fun _ s e s' => s' = f s e) h₀ s₀ h s) (es : List ε) :
    Steps (fun _ s e s' => s' = f s e) h₀ s₀ (h ++ es) (es.foldl f s) := by
  induction es using List.reverseRecOn with
  | nil => rw [List.append_nil]; exact hr
  | append_singleton es e ih =>
    rw [← List.append_assoc, List.foldl_append]
    exact .tail ih rfl

end Steps

/-- What is seen of a run, where the next state is a function of the event. -/
def trace {β : Type*} (f : σ → ε → σ) (obs : σ → ε → Option β) : σ → List ε → List β
  | _, [] => []
  | s, e :: es => (obs s e).toList ++ trace f obs (f s e) es

theorem trace_concat {β : Type*} (f : σ → ε → σ) (obs : σ → ε → Option β) (s : σ) (es : List ε)
    (e : ε) : trace f obs s (es ++ [e]) = trace f obs s es ++ (obs (es.foldl f s) e).toList := by
  induction es generalizing s with
  | nil => simp [trace]
  | cons x es ih => rw [List.cons_append, trace, ih, trace, List.foldl_cons, List.append_assoc]

/-- A run through `e` is a run before it, the step for it, and the rest. -/
theorem Run.split {step : List ε → σ → ε → σ → Prop} {init s : σ} {pre post : List ε} {e : ε}
    (hr : Run step init (pre ++ e :: post) s) :
    ∃ s₁ s₂, Run step init pre s₁ ∧ step pre s₁ e s₂ ∧
      Steps step (pre ++ [e]) s₂ (pre ++ e :: post) s := by
  induction post using List.reverseRecOn generalizing s with
  | nil =>
    obtain ⟨s₁, h1, hs⟩ := Steps.split_last hr (by simp)
    exact ⟨s₁, s, h1, hs, .refl⟩
  | append_singleton post x ih =>
    have hr' : Run step init ((pre ++ e :: post) ++ [x]) s := by simpa using hr
    obtain ⟨s', h1, hs⟩ := Steps.split_last hr' (by simp)
    obtain ⟨s₁, s₂, ha, hb, hc⟩ := ih h1
    have hlast := Steps.tail hc hs
    exact ⟨s₁, s₂, ha, hb, by simpa using hlast⟩

end Infra
