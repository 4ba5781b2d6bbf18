import Mathlib.Algebra.Order.Field.Basic
import Mathlib.Data.List.Pairwise
import Mathlib.Tactic.Linarith

/-!
# Token buckets

A bucket holds up to `capacity` tokens and is refilled at a constant rate. A request takes one
token, and is refused when there is none. Time and tokens are numbers of an ordered field.

* `take_cases` — what a request does
* `length_filter_lt` — before a point in time, what was there and what was refilled can be taken
* `length_window_lt` — in any window, a full bucket and the refill of the window
* `length_window_le` — the same for closed windows and a rate that may be zero
* `admitted_replicate`, `admitted_evenly` — a burst, and then one request for each new token
* `totalRefill_le_iff` — when a clock that runs backwards is credited twice
-/

namespace Infra

/-- A bucket, with the time at which it was last refilled. -/
structure TokenBucket (K : Type*) where
  tokens : K
  updatedAt : K

namespace TokenBucket

variable {K : Type*} [Field K] [LinearOrder K]

/-- A full bucket. -/
def full (capacity now : K) : TokenBucket K := ⟨capacity, now⟩

/-- The tokens after a refill. A clock that runs backwards does not take any away. -/
def refilled (b : TokenBucket K) (capacity rate now : K) : K :=
  min (b.tokens + max 0 (now - b.updatedAt) * rate) capacity

/-- What a request refills, before the capacity caps it. -/
def refill (b : TokenBucket K) (rate now : K) : K := max 0 (now - b.updatedAt) * rate

example (b : TokenBucket K) (capacity rate now : K) :
    b.refilled capacity rate now = min (b.tokens + b.refill rate now) capacity := rfl

/-- A request. -/
def take (b : TokenBucket K) (capacity rate now : K) : TokenBucket K × Bool :=
  let tokens := b.refilled capacity rate now
  if tokens < 1 then (⟨tokens, now⟩, false) else (⟨tokens - 1, now⟩, true)

/-- The times of the requests that are admitted. -/
def admitted (capacity rate : K) : TokenBucket K → List K → List K
  | _, [] => []
  | b, t :: ts =>
    let (b', ok) := b.take capacity rate t
    if ok then t :: admitted capacity rate b' ts else admitted capacity rate b' ts

/-- The bucket after a sequence of requests. -/
def after (capacity rate : K) (b : TokenBucket K) (ts : List K) : TokenBucket K :=
  ts.foldl (fun b t => (b.take capacity rate t).1) b

/-- What a sequence of requests refills, before the capacity caps it. -/
def totalRefill (capacity rate : K) : TokenBucket K → List K → K
  | _, [] => 0
  | b, t :: ts => b.refill rate t + totalRefill capacity rate (b.take capacity rate t).1 ts

variable {capacity rate : K}

/-- **What a request does.** -/
theorem take_cases (b : TokenBucket K) (capacity rate now : K) :
    (b.refilled capacity rate now < 1 ∧
      b.take capacity rate now = (⟨b.refilled capacity rate now, now⟩, false)) ∨
    (1 ≤ b.refilled capacity rate now ∧
      b.take capacity rate now = (⟨b.refilled capacity rate now - 1, now⟩, true)) := by
  unfold take
  by_cases h : b.refilled capacity rate now < 1
  · exact Or.inl ⟨h, by rw [if_pos h]⟩
  · exact Or.inr ⟨not_lt.mp h, by rw [if_neg h]⟩

/-- A request moves the time of the last refill, also when it is refused or its clock is late. -/
@[simp] theorem take_updatedAt (b : TokenBucket K) (capacity rate now : K) :
    (b.take capacity rate now).1.updatedAt = now := by
  rcases b.take_cases capacity rate now with ⟨_, h⟩ | ⟨_, h⟩ <;> rw [h]

/-- A run of requests, by its first one. -/
theorem admitted_cons (capacity rate : K) (b : TokenBucket K) (t : K) (ts : List K) :
    (b.refilled capacity rate t < 1 ∧ admitted capacity rate b (t :: ts)
      = admitted capacity rate ⟨b.refilled capacity rate t, t⟩ ts) ∨
    (1 ≤ b.refilled capacity rate t ∧ admitted capacity rate b (t :: ts)
      = t :: admitted capacity rate ⟨b.refilled capacity rate t - 1, t⟩ ts) := by
  rcases b.take_cases capacity rate t with ⟨h, htake⟩ | ⟨h, htake⟩
  · refine Or.inl ⟨h, ?_⟩
    simp only [admitted, htake]
    rfl
  · refine Or.inr ⟨h, ?_⟩
    simp only [admitted, htake]
    rfl

/-- Only requests that were made are admitted. -/
theorem mem_of_mem_admitted {b : TokenBucket K} {ts : List K} {x : K}
    (h : x ∈ admitted capacity rate b ts) : x ∈ ts := by
  induction ts generalizing b with
  | nil => exact h
  | cons t ts ih =>
    rcases admitted_cons capacity rate b t ts with ⟨_, he⟩ | ⟨_, he⟩
    · rw [he] at h
      exact List.mem_cons_of_mem _ (ih h)
    · rw [he] at h
      rcases List.mem_cons.mp h with rfl | h
      · exact List.mem_cons_self
      · exact List.mem_cons_of_mem _ (ih h)

/-- Of requests in order none is admitted before the first is made. -/
theorem le_of_mem_admitted {b : TokenBucket K} {t : K} {ts : List K}
    (hsorted : (t :: ts).Pairwise (· ≤ ·)) {x : K} (h : x ∈ admitted capacity rate b (t :: ts)) :
    t ≤ x := by
  rcases List.mem_cons.mp (mem_of_mem_admitted h) with rfl | hx
  · exact le_refl _
  · exact (List.pairwise_cons.mp hsorted).1 x hx

omit [Field K] in
/-- A request may be made twice at the first of the times. -/
theorem pairwise_cons_self {t : K} {ts : List K} (hsorted : (t :: ts).Pairwise (· ≤ ·)) :
    (t :: t :: ts).Pairwise (· ≤ ·) := by
  refine List.pairwise_cons.mpr ⟨?_, hsorted⟩
  intro x hx
  rcases List.mem_cons.mp hx with rfl | hx
  · exact le_refl _
  · exact (List.pairwise_cons.mp hsorted).1 x hx

theorem refilled_le_capacity (b : TokenBucket K) (now : K) :
    b.refilled capacity rate now ≤ capacity := min_le_right _ _

/-- A bucket for less than one token admits nothing. -/
theorem admitted_eq_nil (hcapacity : capacity < 1) (b : TokenBucket K) (ts : List K) :
    admitted capacity rate b ts = [] := by
  induction ts generalizing b with
  | nil => rfl
  | cons t ts ih =>
    rcases admitted_cons capacity rate b t ts with ⟨_, he⟩ | ⟨h, _⟩
    · rw [he]
      exact ih _
    · have hle : b.refilled capacity rate t ≤ capacity := b.refilled_le_capacity t
      exact absurd (lt_of_le_of_lt (h.trans hle) hcapacity) (lt_irrefl _)

/-- A refill at the time of a request is one that the request makes itself. -/
theorem admitted_refilled (b : TokenBucket K) (t : K) (ts : List K) :
    admitted capacity rate ⟨b.refilled capacity rate t, t⟩ (t :: ts)
      = admitted capacity rate b (t :: ts) := by
  have hsame : refilled (⟨b.refilled capacity rate t, t⟩ : TokenBucket K) capacity rate t
      = b.refilled capacity rate t := by
    rw [refilled, sub_self, max_self, zero_mul, add_zero]
    exact min_eq_left (b.refilled_le_capacity t)
  have htake : take (⟨b.refilled capacity rate t, t⟩ : TokenBucket K) capacity rate t
      = b.take capacity rate t := by
    rw [take, take, hsame]
  simp only [admitted, htake]

variable [IsStrictOrderedRing K]

theorem refilled_le_add {b : TokenBucket K} {now : K} (h : b.updatedAt ≤ now) :
    b.refilled capacity rate now ≤ b.tokens + (now - b.updatedAt) * rate := by
  refine (min_le_left _ _).trans ?_
  rw [max_eq_right (sub_nonneg.mpr h)]

/-! ## The tokens of a bucket -/

theorem refilled_nonneg {b : TokenBucket K} (hcapacity : 0 ≤ capacity) (hrate : 0 ≤ rate)
    (h : 0 ≤ b.tokens) (now : K) : 0 ≤ b.refilled capacity rate now :=
  le_min (add_nonneg h (mul_nonneg (le_max_left _ _) hrate)) hcapacity

/-- **A request** leaves the tokens between none and the capacity. -/
theorem tokens_take_mem {b : TokenBucket K} (hcapacity : 0 ≤ capacity) (hrate : 0 ≤ rate)
    (h : 0 ≤ b.tokens) (now : K) :
    0 ≤ (b.take capacity rate now).1.tokens ∧
      (b.take capacity rate now).1.tokens ≤ capacity := by
  have hle : b.refilled capacity rate now ≤ capacity := b.refilled_le_capacity now
  rcases b.take_cases capacity rate now with ⟨_, htake⟩ | ⟨hone, htake⟩
  · rw [htake]
    exact ⟨refilled_nonneg hcapacity hrate h now, hle⟩
  · rw [htake]
    exact ⟨sub_nonneg.mpr hone, (sub_le_self _ zero_le_one).trans hle⟩

/-- So does **a sequence of requests**, whatever their times. -/
theorem tokens_after_mem {b : TokenBucket K} (hrate : 0 ≤ rate) (h : 0 ≤ b.tokens)
    (hle : b.tokens ≤ capacity) (ts : List K) :
    0 ≤ (b.after capacity rate ts).tokens ∧ (b.after capacity rate ts).tokens ≤ capacity := by
  induction ts generalizing b with
  | nil => exact ⟨h, hle⟩
  | cons t ts ih =>
    obtain ⟨hnonneg, hcap⟩ := tokens_take_mem (h.trans hle) hrate h t
    exact ih hnonneg hcap

/-! ## Upper bounds -/

/-- **Before a point in time** no more is taken than there was and was refilled until then. -/
theorem length_filter_lt (capacity : K) (hrate : 0 < rate) {e : K} {b : TokenBucket K} {ts : List K}
    (hsorted : (b.updatedAt :: ts).Pairwise (· ≤ ·)) :
    ((admitted capacity rate b ts).filter (· < e)).length = 0 ∨
      (((admitted capacity rate b ts).filter (· < e)).length : K)
        < b.tokens + (e - b.updatedAt) * rate := by
  induction ts generalizing b with
  | nil => exact Or.inl rfl
  | cons t ts ih =>
    obtain ⟨hfirst, hrest⟩ := List.pairwise_cons.mp hsorted
    have hrefill : b.refilled capacity rate t ≤ b.tokens + (t - b.updatedAt) * rate :=
      refilled_le_add (hfirst t List.mem_cons_self)
    rcases admitted_cons capacity rate b t ts with ⟨_, he⟩ | ⟨hone, he⟩
    · rw [he]
      rcases ih (b := ⟨b.refilled capacity rate t, t⟩) hrest with hzero | hlt
      · exact Or.inl hzero
      · refine Or.inr (hlt.trans_le ?_)
        show b.refilled capacity rate t + (e - t) * rate ≤ _
        linarith
    · rw [he]
      by_cases hte : t < e
      · have hpos : 0 < (e - t) * rate := mul_pos (sub_pos.mpr hte) hrate
        rw [List.filter_cons, if_pos (decide_eq_true hte), List.length_cons, Nat.cast_succ]
        right
        rcases ih (b := ⟨b.refilled capacity rate t - 1, t⟩) hrest with hzero | hlt
        · rw [hzero, Nat.cast_zero]
          linarith
        · have hlt' : _ < b.refilled capacity rate t - 1 + (e - t) * rate := hlt
          linarith
      · -- from here on the requests come too late
        left
        rw [List.length_eq_zero_iff, List.filter_eq_nil_iff]
        intro x hx
        rw [← he] at hx
        rw [decide_eq_true_eq, not_lt]
        exact (not_lt.mp hte).trans (le_of_mem_admitted hrest hx)

/-- The requests of a window. -/
def window (s w : K) (ts : List K) : List K := ts.filter fun t => s ≤ t ∧ t < s + w

/-- **In any window** no more is admitted than a full bucket and the refill of the window. -/
theorem length_window_lt (capacity : K) (hrate : 0 < rate) (s w : K) {b : TokenBucket K}
    {ts : List K}
    (hsorted : (b.updatedAt :: ts).Pairwise (· ≤ ·)) :
    (window s w (admitted capacity rate b ts)).length = 0 ∨
      ((window s w (admitted capacity rate b ts)).length : K) < capacity + w * rate := by
  induction ts generalizing b with
  | nil => exact Or.inl rfl
  | cons t ts ih =>
    obtain ⟨_, hrest⟩ := List.pairwise_cons.mp hsorted
    by_cases hs : s ≤ t
    · -- the window has begun: only its end matters for the rest
      have hall : ∀ x ∈ admitted capacity rate b (t :: ts), s ≤ x := by
        intro x hx
        exact hs.trans (le_of_mem_admitted hrest hx)
      have hwindow : window s w (admitted capacity rate b (t :: ts))
          = (admitted capacity rate b (t :: ts)).filter (· < s + w) := by
        refine List.filter_congr fun x hx => ?_
        simp [hall x hx]
      have hfill : 0 ≤ (t - s) * rate := mul_nonneg (sub_nonneg.mpr hs) hrate.le
      have hcap : b.refilled capacity rate t ≤ capacity := b.refilled_le_capacity t
      rw [hwindow, ← admitted_refilled]
      rcases length_filter_lt capacity (b := ⟨b.refilled capacity rate t, t⟩) (e := s + w) hrate
        (pairwise_cons_self hrest) with hzero | hlt
      · exact Or.inl hzero
      · refine Or.inr (hlt.trans_le ?_)
        show b.refilled capacity rate t + (s + w - t) * rate ≤ _
        linarith
    · -- it has not: the first request does not count
      have hskip : ∀ l : List K, window s w (t :: l) = window s w l := by
        intro l
        rw [window, window, List.filter_cons, if_neg (by simp [hs])]
      rcases admitted_cons capacity rate b t ts with ⟨_, he⟩ | ⟨_, he⟩
      · rw [he]
        exact ih hrest
      · rw [he, hskip]
        exact ih hrest

/-- **Up to a point in time** no more is taken than there was and was refilled until then. -/
theorem length_filter_le (hrate : 0 ≤ rate) {e : K} {b : TokenBucket K}
    (h : 0 ≤ b.tokens) (hcapacity : 0 ≤ capacity) (he : b.updatedAt ≤ e) {ts : List K}
    (hsorted : (b.updatedAt :: ts).Pairwise (· ≤ ·)) :
    (((admitted capacity rate b ts).filter (· ≤ e)).length : K)
      ≤ b.tokens + (e - b.updatedAt) * rate := by
  induction ts generalizing b with
  | nil =>
    have hfill : 0 ≤ (e - b.updatedAt) * rate := mul_nonneg (sub_nonneg.mpr he) hrate
    simpa [admitted] using add_nonneg h hfill
  | cons t ts ih =>
    obtain ⟨hfirst, hrest⟩ := List.pairwise_cons.mp hsorted
    by_cases hte : t ≤ e
    · have hrefill : b.refilled capacity rate t ≤ b.tokens + (t - b.updatedAt) * rate :=
        refilled_le_add (hfirst t List.mem_cons_self)
      rcases admitted_cons capacity rate b t ts with ⟨_, hadm⟩ | ⟨hone, hadm⟩
      · have hih : _ ≤ b.refilled capacity rate t + (e - t) * rate :=
          ih (b := ⟨b.refilled capacity rate t, t⟩) (refilled_nonneg hcapacity hrate h t) hte hrest
        rw [hadm]
        linarith
      · have hih : _ ≤ b.refilled capacity rate t - 1 + (e - t) * rate :=
          ih (b := ⟨b.refilled capacity rate t - 1, t⟩) (sub_nonneg.mpr hone) hte hrest
        rw [hadm, List.filter_cons, if_pos (decide_eq_true hte), List.length_cons, Nat.cast_succ]
        linarith
    · -- from here on the requests come too late
      have hnone : (admitted capacity rate b (t :: ts)).filter (· ≤ e) = [] := by
        rw [List.filter_eq_nil_iff]
        intro x hx
        rw [decide_eq_true_eq]
        exact fun hxe => hte ((le_of_mem_admitted hrest hx).trans hxe)
      rw [hnone, List.length_nil, Nat.cast_zero]
      exact add_nonneg h (mul_nonneg (sub_nonneg.mpr he) hrate)

/-- **In any closed window** no more is admitted than a full bucket and the refill of the window. -/
theorem length_window_le (hrate : 0 ≤ rate) (hcapacity : 0 ≤ capacity) {s d : K} (hd : 0 ≤ d)
    {b : TokenBucket K} (h : 0 ≤ b.tokens) {ts : List K}
    (hsorted : (b.updatedAt :: ts).Pairwise (· ≤ ·)) :
    (((admitted capacity rate b ts).filter fun t => s ≤ t ∧ t ≤ s + d).length : K)
      ≤ capacity + d * rate := by
  induction ts generalizing b with
  | nil => simpa [admitted] using add_nonneg hcapacity (mul_nonneg hd hrate)
  | cons t ts ih =>
    obtain ⟨_, hrest⟩ := List.pairwise_cons.mp hsorted
    by_cases hs : s ≤ t
    · -- the window has begun: only its end matters for the rest
      have hmem : ∀ x ∈ admitted capacity rate b (t :: ts), t ≤ x := by
        intro x hx
        exact le_of_mem_admitted hrest hx
      have hwindow : (admitted capacity rate b (t :: ts)).filter (fun x => s ≤ x ∧ x ≤ s + d)
          = (admitted capacity rate b (t :: ts)).filter (· ≤ s + d) := by
        refine List.filter_congr fun x hx => ?_
        simp [hs.trans (hmem x hx)]
      have hcap : b.refilled capacity rate t ≤ capacity := b.refilled_le_capacity t
      rw [hwindow, ← admitted_refilled]
      by_cases hte : t ≤ s + d
      · have hfill : 0 ≤ (t - s) * rate := mul_nonneg (sub_nonneg.mpr hs) hrate
        have hlen : _ ≤ b.refilled capacity rate t + (s + d - t) * rate :=
          length_filter_le (b := ⟨b.refilled capacity rate t, t⟩) hrate
            (refilled_nonneg hcapacity hrate h t) hcapacity hte (pairwise_cons_self hrest)
        linarith
      · -- it is over already
        rw [admitted_refilled]
        have hnone : (admitted capacity rate b (t :: ts)).filter (· ≤ s + d) = [] := by
          rw [List.filter_eq_nil_iff]
          intro x hx
          rw [decide_eq_true_eq]
          exact fun hxe => hte ((hmem x hx).trans hxe)
        rw [hnone, List.length_nil, Nat.cast_zero]
        exact add_nonneg hcapacity (mul_nonneg hd hrate)
    · -- it has not: the first request does not count
      have htokens : ∀ taken : K, 0 ≤ taken → _ := fun taken htaken =>
        ih (b := ⟨taken, t⟩) htaken hrest
      rcases admitted_cons capacity rate b t ts with ⟨_, hadm⟩ | ⟨hone, hadm⟩
      · rw [hadm]
        exact htokens _ (refilled_nonneg hcapacity hrate h t)
      · rw [hadm, List.filter_cons, if_neg (by simp [hs])]
        exact htokens _ (sub_nonneg.mpr hone)

/-! ## The bounds are reached -/

/-- **A burst**: as many requests at one time as there are tokens. -/
theorem admitted_replicate (n : Nat) (hn : (n : K) ≤ capacity) (u : K) (ts : List K) :
    admitted capacity rate ⟨n, u⟩ (List.replicate n u ++ ts)
      = List.replicate n u ++ admitted capacity rate ⟨0, u⟩ ts := by
  induction n with
  | zero => rw [List.replicate_zero, List.nil_append, List.nil_append, Nat.cast_zero]
  | succ n ih =>
    have hle : (n : K) ≤ ((n + 1 : Nat) : K) := Nat.cast_le.mpr (Nat.le_succ n)
    have hfull : refilled (⟨((n + 1 : Nat) : K), u⟩ : TokenBucket K) capacity rate u
        = ((n + 1 : Nat) : K) := by
      rw [refilled, sub_self, max_self, zero_mul, add_zero]
      exact min_eq_left hn
    rw [List.replicate_succ, List.cons_append, List.cons_append]
    rcases admitted_cons capacity rate ⟨((n + 1 : Nat) : K), u⟩ u (List.replicate n u ++ ts) with
      ⟨hlt, _⟩ | ⟨_, he⟩
    · rw [hfull, Nat.cast_succ] at hlt
      have hnonneg : (0 : K) ≤ n := Nat.cast_nonneg n
      linarith
    · rw [he, hfull, Nat.cast_succ, add_sub_cancel_right, ih (hle.trans hn)]

/-- Times at a constant distance. -/
def evenly (d : K) : K → Nat → List K
  | _, 0 => []
  | u, m + 1 => (u + d) :: evenly d (u + d) m

omit [IsStrictOrderedRing K] in
/-- **One request for each new token**: every one is admitted. -/
theorem admitted_evenly {d : K} (hd : 0 ≤ d) (hrate : d * rate = 1) (hcapacity : 1 ≤ capacity)
    (u : K) (m : Nat) :
    admitted capacity rate ⟨0, u⟩ (evenly d u m) = evenly d u m := by
  induction m generalizing u with
  | zero => rfl
  | succ m ih =>
    have hone : refilled (⟨0, u⟩ : TokenBucket K) capacity rate (u + d) = 1 := by
      rw [refilled, add_sub_cancel_left, max_eq_right hd, hrate, zero_add]
      exact min_eq_left hcapacity
    rw [evenly]
    rcases admitted_cons capacity rate ⟨0, u⟩ (u + d) (evenly d (u + d) m) with
      ⟨hlt, _⟩ | ⟨_, he⟩
    · rw [hone] at hlt
      exact absurd hlt (lt_irrefl _)
    · rw [he, hone, sub_self, ih]

omit [LinearOrder K] [IsStrictOrderedRing K] in
theorem length_evenly (d u : K) (m : Nat) : (evenly d u m).length = m := by
  induction m generalizing u with
  | zero => rfl
  | succ m ih => rw [evenly, List.length_cons, ih]

/-- They lie between the start and the last of them. -/
theorem mem_evenly {d : K} (hd : 0 ≤ d) {u x : K} {m : Nat} (h : x ∈ evenly d u m) :
    u ≤ x ∧ x ≤ u + m * d := by
  induction m generalizing u with
  | zero => exact absurd h List.not_mem_nil
  | succ m ih =>
    rw [Nat.cast_succ, add_mul, one_mul]
    have hm : 0 ≤ (m : K) * d := mul_nonneg (Nat.cast_nonneg m) hd
    rcases List.mem_cons.mp h with rfl | h
    · exact ⟨by linarith, by linarith⟩
    · obtain ⟨h1, h2⟩ := ih h
      exact ⟨by linarith, by linarith⟩

theorem pairwise_evenly {d : K} (hd : 0 ≤ d) (u : K) (m : Nat) :
    (evenly d u m).Pairwise (· ≤ ·) := by
  induction m generalizing u with
  | zero => exact List.Pairwise.nil
  | succ m ih =>
    rw [evenly, List.pairwise_cons]
    exact ⟨fun x hx => (mem_evenly hd hx).1, ih _⟩

/-! ## A clock that runs backwards -/

/-- The latest of some times. -/
def latest (u : K) (ts : List K) : K := ts.foldl max u

/--
Whenever a time is later than the one before it, the one before it was the latest so far. The
arguments are the latest time so far, the last one, and the ones to come.
-/
def RisesFromLatest : K → K → List K → Prop
  | _, _, [] => True
  | last, u, t :: ts => (u < t → u = last) ∧ RisesFromLatest (max last t) t ts

/-- One request: it adds what the latest time has advanced, or too much. -/
theorem refill_le_iff (hrate : 0 < rate) {last : K} {b : TokenBucket K} (hb : b.updatedAt ≤ last)
    (t : K) :
    (b.refill rate t ≤ rate * (max last t - last) ↔ (b.updatedAt < t → b.updatedAt = last)) ∧
      ((b.updatedAt < t → b.updatedAt = last) →
        b.refill rate t = rate * (max last t - last)) := by
  unfold refill
  rw [mul_comm _ rate, mul_le_mul_iff_right₀ hrate]
  rcases le_or_gt t b.updatedAt with ht | ht
  · -- the clock runs backwards: nothing is added
    rw [max_eq_left (sub_nonpos.mpr ht), max_eq_left (ht.trans hb), sub_self]
    exact ⟨iff_of_true le_rfl fun h => absurd h (not_lt.mpr ht), fun _ => rfl⟩
  · rw [max_eq_right (sub_nonneg.mpr ht.le)]
    have hiff : t - b.updatedAt ≤ max last t - last ↔ b.updatedAt = last := by
      constructor
      · intro h
        refine le_antisymm hb ?_
        rcases le_total t last with htl | htl
        · rw [max_eq_left htl] at h
          linarith
        · rw [max_eq_right htl] at h
          linarith
      · intro h
        rw [h] at ht ⊢
        rw [max_eq_right ht.le]
    refine ⟨hiff.trans ⟨fun h _ => h, fun h => h ht⟩, fun h => ?_⟩
    have hlast := h ht
    rw [hlast] at ht ⊢
    rw [max_eq_right ht.le]

/-- **No time is credited twice** at any point exactly if the times rise from the latest only. -/
theorem totalRefill_le_iff (capacity : K) (hrate : 0 < rate) {last : K} {b : TokenBucket K}
    (hb : b.updatedAt ≤ last) (ts : List K) :
    (∀ n, totalRefill capacity rate b (ts.take n) ≤ rate * (latest last (ts.take n) - last)) ↔
      RisesFromLatest last b.updatedAt ts := by
  induction ts generalizing last b with
  | nil =>
    refine iff_of_true (fun n => ?_) trivial
    rw [List.take_nil]
    simp [totalRefill, latest]
  | cons t ts ih =>
    have hstep := refill_le_iff hrate hb t
    have hlatest : (b.take capacity rate t).1.updatedAt ≤ max last t := by
      rw [take_updatedAt]
      exact le_max_right _ _
    have hih := ih hlatest
    rw [take_updatedAt] at hih
    have hcons : ∀ n, totalRefill capacity rate b ((t :: ts).take (n + 1)) = b.refill rate t
        + totalRefill capacity rate (b.take capacity rate t).1 (ts.take n) := fun _ => rfl
    have hlatest : ∀ n, latest last ((t :: ts).take (n + 1)) = latest (max last t) (ts.take n) :=
      fun _ => rfl
    show _ ↔ (b.updatedAt < t → b.updatedAt = last) ∧ RisesFromLatest (max last t) t ts
    constructor
    · intro h
      have hfirst : b.updatedAt < t → b.updatedAt = last := by
        have hone := h 1
        rw [hcons, hlatest, List.take_zero] at hone
        exact hstep.1.mp (by simpa [totalRefill, latest] using hone)
      refine ⟨hfirst, hih.mp fun n => ?_⟩
      have hn := h (n + 1)
      rw [hcons, hlatest, hstep.2 hfirst] at hn
      linarith
    · rintro ⟨hfirst, hrest⟩ n
      cases n with
      | zero => simp [totalRefill, latest]
      | succ n =>
        have hn := hih.mpr hrest n
        rw [hcons, hlatest, hstep.2 hfirst]
        linarith

end TokenBucket

end Infra
