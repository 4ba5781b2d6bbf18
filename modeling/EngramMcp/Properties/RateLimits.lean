import EngramMcp.Kb.Limiter
import Mathlib.Tactic.NormNum

/-!
# What a rate limit allows

A bucket admits a full bucket and the refill of any window, and a credential is judged by its own
calls only. Both hold while the readings of the clock come in order. A call reads the clock before
it takes the lock, and moves the time of the last refill to its own reading even if that is the
earlier one. The time in between is then refilled once more by the next call.

* `rateLimit_bounded` — tokens, windows and isolation
* `RateLimiter.length_window_le` — the bound for a credential
* `credited_once_iff` — when no time is credited twice
* `credited_twice` — an order of three calls that credits five seconds twice
-/

namespace EngramMcp

open Infra

/-! ## Readings in order -/

/--
The tokens of a bucket stay between none and the capacity, no window sees more calls than a full
bucket and its refill, and a credential gets the answers it would get alone.
-/
theorem rateLimit_bounded {capacity rate start : ℚ} {times : List ℚ} (hcapacity : 1 ≤ capacity)
    (hrate : 0 ≤ rate) (hsorted : (start :: times).Pairwise (· ≤ ·)) :
    (∀ n, 0 ≤ (TokenBucket.after capacity rate (.full capacity start) (times.take n)).tokens ∧
      (TokenBucket.after capacity rate (.full capacity start) (times.take n)).tokens ≤ capacity) ∧
    (∀ s d : ℚ, 0 ≤ d →
      (((TokenBucket.admitted capacity rate (.full capacity start) times).filter
        fun t => s ≤ t ∧ t ≤ s + d).length : ℚ) ≤ capacity + rate * d) ∧
    ∀ (limiter : RateLimiter) (calls : List RateLimiter.Call) (credential : CredentialId),
      (limiter.decisions calls).filter (fun decision => RateLimiter.isOf credential decision.1)
        = limiter.decisions (calls.filter (RateLimiter.isOf credential)) := by
  have hnonneg : 0 ≤ capacity := zero_le_one.trans hcapacity
  refine ⟨?_, ?_, ?_⟩
  · intro n
    exact TokenBucket.tokens_after_mem (b := .full capacity start) hrate hnonneg le_rfl _
  · intro s d hd
    rw [mul_comm]
    exact TokenBucket.length_window_le (b := .full capacity start) hrate hnonneg hd hnonneg hsorted
  · intro limiter calls credential
    have hsame : limiter.AgreeOn credential limiter := ⟨rfl, rfl, rfl⟩
    exact hsame.decisions calls

/-- Two tokens, one new token in a minute, and three calls at once. -/
theorem rateLimit_bounded_burst :
    (∀ n, 0 ≤ (TokenBucket.after (2 : ℚ) (1 / 60) (.full 2 0) ([0, 0, 0].take n)).tokens ∧
      (TokenBucket.after (2 : ℚ) (1 / 60) (.full 2 0) ([0, 0, 0].take n)).tokens ≤ 2) ∧
    (∀ s d : ℚ, 0 ≤ d →
      (((TokenBucket.admitted (2 : ℚ) (1 / 60) (.full 2 0) [0, 0, 0]).filter
        fun t => s ≤ t ∧ t ≤ s + d).length : ℚ) ≤ 2 + 1 / 60 * d) ∧
    ∀ (limiter : RateLimiter) (calls : List RateLimiter.Call) (credential : CredentialId),
      (limiter.decisions calls).filter (fun decision => RateLimiter.isOf credential decision.1)
        = limiter.decisions (calls.filter (RateLimiter.isOf credential)) :=
  rateLimit_bounded (by norm_num) (by norm_num) (by simp)

/-- No window sees more calls of a credential than the burst and the refill of the window. -/
theorem RateLimiter.length_window_le {requestsPerMinute burst : Nat} {credential : CredentialId}
    {calls : List RateLimiter.Call}
    (hsorted : (RateLimiter.readings credential calls).Pairwise (· ≤ ·)) (s : ℚ) {d : ℚ}
    (hd : 0 ≤ d) :
    ((((RateLimiter.new requestsPerMinute burst).admitted credential calls).filter
      fun t => s ≤ t ∧ t ≤ s + d).length : ℚ) ≤ burst + d * (requestsPerMinute / 60) := by
  have hrate : (0 : ℚ) ≤ requestsPerMinute / 60 := div_nonneg (Nat.cast_nonneg _) (by norm_num)
  have hburst : (0 : ℚ) ≤ burst := Nat.cast_nonneg _
  have hnone : (RateLimiter.new requestsPerMinute burst).buckets.lookup credential = none :=
    AList.lookup_empty credential
  rw [RateLimiter.admitted_eq_of_lookup_none hnone]
  cases hreadings : RateLimiter.readings credential calls with
  | nil => simpa using add_nonneg hburst (mul_nonneg hd hrate)
  | cons now rest =>
    rw [hreadings] at hsorted
    refine TokenBucket.length_window_le (b := .full (burst : ℚ) now) hrate hburst hd hburst ?_
    refine List.pairwise_cons.mpr ⟨?_, hsorted⟩
    intro t ht
    rcases List.mem_cons.mp ht with rfl | ht
    · exact le_rfl
    · exact (List.pairwise_cons.mp hsorted).1 t ht

/-! ## Readings in any order -/

/-- The time between the creation of a bucket, at its first reading, and the latest reading. -/
def spanned : List ℚ → ℚ
  | [] => 0
  | now :: rest => TokenBucket.latest now rest - now

/-- Of the readings of one bucket, whether each that is late follows the latest so far. -/
def RiseFromLatest : List ℚ → Prop
  | [] => True
  | now :: rest => TokenBucket.RisesFromLatest now now rest

/-- The same at a rate that may be zero: then nothing is credited at all. -/
theorem totalRefill_le_iff (capacity : ℚ) {rate : ℚ} (hrate : 0 ≤ rate) {b : Bucket} {created : ℚ}
    (hb : b.updatedAt = created) (times : List ℚ) :
    (∀ n, b.totalRefill capacity rate (times.take n)
        ≤ rate * spanned (created :: times.take n)) ↔
      rate = 0 ∨ RiseFromLatest (created :: times) := by
  subst hb
  rcases hrate.eq_or_lt with hzero | hpos
  · subst hzero
    have hnothing : ∀ (b : Bucket) (ts : List ℚ), b.totalRefill capacity 0 ts = 0 := by
      intro b ts
      induction ts generalizing b with
      | nil => rfl
      | cons t ts ih => rw [TokenBucket.totalRefill, ih, TokenBucket.refill, mul_zero, add_zero]
    refine iff_of_true (fun n => ?_) (Or.inl rfl)
    rw [hnothing, zero_mul]
  · exact (TokenBucket.totalRefill_le_iff capacity hpos le_rfl times).trans
      (or_iff_right hpos.ne').symm

/-- What a bucket refills that is made full at the first of some readings. -/
def refillOf (capacity rate : ℚ) : List ℚ → ℚ
  | [] => 0
  | now :: rest => TokenBucket.totalRefill capacity rate (.full capacity now) (now :: rest)

/-- The first reading makes the bucket, and refills nothing. -/
theorem refillOf_le_iff (capacity : ℚ) {rate : ℚ} (hrate : 0 ≤ rate) (readings : List ℚ) :
    (∀ n, refillOf capacity rate (readings.take n) ≤ rate * spanned (readings.take n)) ↔
      rate = 0 ∨ RiseFromLatest readings := by
  cases readings with
  | nil =>
    refine iff_of_true (fun n => ?_) (Or.inr trivial)
    rw [List.take_nil]
    simp [refillOf, spanned]
  | cons now rest =>
    have hcons : ∀ n, refillOf capacity rate ((now :: rest).take (n + 1))
        = TokenBucket.totalRefill capacity rate
          ((TokenBucket.full capacity now).take capacity rate now).1 (rest.take n) := by
      intro n
      have hnothing : (TokenBucket.full capacity now).refill rate now = 0 := by
        rw [TokenBucket.refill, TokenBucket.full, sub_self, max_self, zero_mul]
      show (TokenBucket.full capacity now).refill rate now + _ = _
      rw [hnothing, zero_add]
    rw [← totalRefill_le_iff capacity hrate
      (TokenBucket.take_updatedAt (.full capacity now) capacity rate now) rest]
    constructor
    · intro h n
      have hn := h (n + 1)
      rw [hcons] at hn
      exact hn
    · intro h n
      cases n with
      | zero => simp [refillOf, spanned]
      | succ n =>
        rw [hcons]
        exact h n

/-- The first elements that satisfy a predicate are found among the first elements. -/
theorem exists_take_filter {α : Type} (p : α → Bool) (l : List α) (n : Nat) :
    ∃ m, (l.take m).filter p = (l.filter p).take n := by
  induction l generalizing n with
  | nil => exact ⟨0, by simp⟩
  | cons a l ih =>
    by_cases ha : p a = true
    · cases n with
      | zero => exact ⟨0, by simp⟩
      | succ n =>
        obtain ⟨m, hm⟩ := ih n
        refine ⟨m + 1, ?_⟩
        rw [List.take_succ_cons, List.filter_cons, List.filter_cons, if_pos ha, if_pos ha, hm,
          List.take_succ_cons]
    · obtain ⟨m, hm⟩ := ih n
      refine ⟨m + 1, ?_⟩
      rw [List.take_succ_cons, List.filter_cons, List.filter_cons, if_neg ha, if_neg ha, hm]

/-- What holds at every point of a sequence of calls, for the readings of a credential. -/
theorem forall_readings_take (credential : CredentialId) (calls : List RateLimiter.Call)
    (P : List ℚ → Prop) :
    (∀ n, P (RateLimiter.readings credential (calls.take n))) ↔
      ∀ n, P ((RateLimiter.readings credential calls).take n) := by
  unfold RateLimiter.readings
  constructor
  · intro h n
    obtain ⟨m, hm⟩ := exists_take_filter (RateLimiter.isOf credential) calls n
    rw [← List.map_take, ← hm]
    exact h m
  · intro h n
    have hprefix := (List.take_prefix n calls).filter (RateLimiter.isOf credential)
    rw [List.prefix_iff_eq_take.mp hprefix, List.map_take]
    exact h _

/--
In every order in which calls take the lock, no time is credited twice to a bucket, at any point,
exactly if nothing is refilled at all or a reading is later than the one before it only if that
one was the latest so far. Readings that come in order are such.
-/
theorem credited_once_iff (writesPerHour : Nat) (created : ℚ) (times : List ℚ)
    (requestsPerMinute burst : Nat) (calls : List RateLimiter.Call) (credential : CredentialId) :
    ((∀ n, (WriteRateLimiter.new writesPerHour created).totalRefill (times.take n)
        ≤ writesPerHour / 3600 * spanned (created :: times.take n)) ↔
      writesPerHour = 0 ∨ RiseFromLatest (created :: times)) ∧
    ((∀ n, (RateLimiter.new requestsPerMinute burst).totalRefill credential (calls.take n)
        ≤ requestsPerMinute / 60 * spanned (RateLimiter.readings credential (calls.take n))) ↔
      requestsPerMinute = 0 ∨ RiseFromLatest (RateLimiter.readings credential calls)) := by
  constructor
  · have hrate : (0 : ℚ) ≤ writesPerHour / 3600 := div_nonneg (Nat.cast_nonneg _) (by norm_num)
    have hzero : (writesPerHour : ℚ) / 3600 = 0 ↔ writesPerHour = 0 := by simp
    have hcreated : (TokenBucket.full (writesPerHour : ℚ) created).updatedAt = created := rfl
    rw [← hzero, ← totalRefill_le_iff (writesPerHour : ℚ) hrate hcreated]
    refine forall_congr' fun n => ?_
    rw [WriteRateLimiter.totalRefill_eq]
    rfl
  · have hrate : (0 : ℚ) ≤ requestsPerMinute / 60 := div_nonneg (Nat.cast_nonneg _) (by norm_num)
    have hzero : (requestsPerMinute : ℚ) / 60 = 0 ↔ requestsPerMinute = 0 := by simp
    have hnone : (RateLimiter.new requestsPerMinute burst).buckets.lookup credential = none :=
      AList.lookup_empty credential
    have hrefill : ∀ n, (RateLimiter.new requestsPerMinute burst).totalRefill credential
        (calls.take n) = refillOf burst (requestsPerMinute / 60)
          (RateLimiter.readings credential (calls.take n)) := by
      intro n
      rw [RateLimiter.totalRefill_eq_of_lookup_none hnone]
      cases RateLimiter.readings credential (calls.take n) <;> rfl
    rw [← hzero, ← refillOf_le_iff (burst : ℚ) hrate, ← forall_readings_take credential calls
      fun readings => refillOf burst (requestsPerMinute / 60) readings
        ≤ requestsPerMinute / 60 * spanned readings]
    refine forall_congr' fun n => ?_
    rw [hrefill]

/--
Readings 10, 5 and 11 of a bucket that was made at 0: the seconds from 5 to 10 count twice.
-/
theorem credited_twice :
    ¬∀ (writesPerHour : Nat) (created : ℚ) (times : List ℚ) (n : Nat),
      (WriteRateLimiter.new writesPerHour created).totalRefill (times.take n)
        ≤ writesPerHour / 3600 * spanned (created :: times.take n) := by
  intro h
  have hthree := h 36 0 [10, 5, 11] 3
  have hrefill : (WriteRateLimiter.new 36 0).totalRefill ([10, 5, 11].take 3) = 16 / 100 := by
    rw [WriteRateLimiter.totalRefill_eq]
    simp [TokenBucket.totalRefill, TokenBucket.refill, WriteRateLimiter.new, TokenBucket.full]
    norm_num
  rw [hrefill] at hthree
  norm_num [spanned, TokenBucket.latest] at hthree

end EngramMcp
