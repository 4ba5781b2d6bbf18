import EngramMcp.Kb.Limiter
import Mathlib.Tactic.FieldSimp
import Mathlib.Tactic.NormNum

/-!
# The hourly write budget

The budget is a token bucket, and not a count of the last hour: a full bucket may be spent at once,
and it is refilled while the hour runs. So an hour can see almost twice the budget.

* `hourly_budget` — at most `2 * n - 1` writes in any hour, and that many are possible
* `not_hourly_budget_two` — three writes in an hour with a budget of two
-/

namespace EngramMcp

open Infra

/-- The writes in the hour that starts at `s`. -/
def writesInHour (s : ℚ) (admitted : List ℚ) : Nat :=
  (admitted.filter fun t => s ≤ t ∧ t < s + 3600).length

/-- The writes of a new limiter. -/
theorem admitted_new (n : Nat) (start : ℚ) (times : List ℚ) :
    (WriteRateLimiter.new n start).admitted times
      = TokenBucket.admitted (n : ℚ) ((n : ℚ) / 3600) ⟨n, start⟩ times :=
  WriteRateLimiter.admitted_eq _ _

/-- No hour sees more than `2 * n - 1` writes. -/
theorem writesInHour_le (n : Nat) {start : ℚ} {times : List ℚ}
    (hsorted : (start :: times).Pairwise (· ≤ ·)) (s : ℚ) :
    writesInHour s ((WriteRateLimiter.new n start).admitted times) ≤ 2 * n - 1 := by
  rw [admitted_new]
  rcases Nat.eq_zero_or_pos n with rfl | hn
  · -- a budget of nothing
    rw [TokenBucket.admitted_eq_nil (by norm_num)]
    exact Nat.le_refl 0
  · have hrate : (0 : ℚ) < (n : ℚ) / 3600 := div_pos (Nat.cast_pos.mpr hn) (by norm_num)
    rcases TokenBucket.length_window_lt (n : ℚ) (b := ⟨n, start⟩) hrate s 3600 hsorted with
      hzero | hlt
    · have hnone : writesInHour s (TokenBucket.admitted (n : ℚ) ((n : ℚ) / 3600) ⟨n, start⟩ times)
          = 0 := hzero
      omega
    · have hrefill : (3600 : ℚ) * ((n : ℚ) / 3600) = n := by field_simp
      rw [hrefill] at hlt
      have hcast : ((writesInHour s
          (TokenBucket.admitted (n : ℚ) ((n : ℚ) / 3600) ⟨n, start⟩ times) : Nat) : ℚ)
            < ((2 * n : Nat) : ℚ) := by
        push_cast
        rw [two_mul]
        exact hlt
      have hnat := Nat.cast_lt.mp hcast
      omega

/-- A burst, and then a write for each new token. -/
def busyHour (n : Nat) (start : ℚ) : List ℚ :=
  List.replicate n start ++ TokenBucket.evenly (3600 / (n : ℚ)) start (n - 1)

theorem pairwise_busyHour (n : Nat) (start : ℚ) :
    (start :: busyHour n start).Pairwise (· ≤ ·) := by
  have hd : (0 : ℚ) ≤ 3600 / (n : ℚ) := div_nonneg (by norm_num) (Nat.cast_nonneg n)
  have hlate : ∀ x ∈ TokenBucket.evenly (3600 / (n : ℚ)) start (n - 1), start ≤ x :=
    fun x hx => (TokenBucket.mem_evenly hd hx).1
  rw [busyHour, List.pairwise_cons]
  constructor
  · intro x hx
    rcases List.mem_append.mp hx with hx | hx
    · rw [(List.mem_replicate.mp hx).2]
    · exact hlate x hx
  · refine List.pairwise_append.mpr ⟨?_, TokenBucket.pairwise_evenly hd _ _, ?_⟩
    · exact List.pairwise_replicate.mpr (Or.inr (le_refl _))
    · intro x hx y hy
      rw [(List.mem_replicate.mp hx).2]
      exact hlate y hy

/-- Every one of them is admitted. -/
theorem admitted_busyHour (n : Nat) (start : ℚ) :
    (WriteRateLimiter.new n start).admitted (busyHour n start) = busyHour n start := by
  rw [admitted_new, busyHour, TokenBucket.admitted_replicate n (le_refl _)]
  rcases Nat.eq_zero_or_pos n with rfl | hn
  · rfl
  · have hone : (1 : ℚ) ≤ n := Nat.one_le_cast.mpr hn
    have hne : (n : ℚ) ≠ 0 := (zero_lt_one.trans_le hone).ne'
    have hd : (0 : ℚ) ≤ 3600 / (n : ℚ) := div_nonneg (by norm_num) (Nat.cast_nonneg n)
    have hrate : 3600 / (n : ℚ) * ((n : ℚ) / 3600) = 1 := by field_simp
    rw [TokenBucket.admitted_evenly hd hrate hone]

/-- All of them lie in the hour that starts with the burst. -/
theorem writesInHour_busyHour (n : Nat) (start : ℚ) :
    writesInHour start (busyHour n start) = 2 * n - 1 := by
  have hall : ∀ x ∈ busyHour n start, start ≤ x ∧ x < start + 3600 := by
    intro x hx
    rcases List.mem_append.mp hx with hx | hx
    · rw [(List.mem_replicate.mp hx).2]
      exact ⟨le_refl _, by norm_num⟩
    · rcases Nat.eq_zero_or_pos n with rfl | hn
      · exact absurd hx List.not_mem_nil
      · have hpos : (0 : ℚ) < n := Nat.cast_pos.mpr hn
        have hd : (0 : ℚ) < 3600 / (n : ℚ) := div_pos (by norm_num) hpos
        obtain ⟨hlow, hhigh⟩ := TokenBucket.mem_evenly hd.le hx
        refine ⟨hlow, hhigh.trans_lt ?_⟩
        have hlast : ((n - 1 : Nat) : ℚ) * (3600 / (n : ℚ)) < 3600 := by
          have hhour : (n : ℚ) * (3600 / (n : ℚ)) = 3600 := by field_simp
          have hlt : ((n - 1 : Nat) : ℚ) < n := Nat.cast_lt.mpr (by omega)
          calc ((n - 1 : Nat) : ℚ) * (3600 / (n : ℚ)) < (n : ℚ) * (3600 / (n : ℚ)) :=
                mul_lt_mul_of_pos_right hlt hd
            _ = 3600 := hhour
        linarith
  have hfilter : (busyHour n start).filter (fun t => start ≤ t ∧ t < start + 3600)
      = busyHour n start := by
    refine List.filter_eq_self.mpr fun x hx => ?_
    exact decide_eq_true (hall x hx)
  rw [writesInHour, hfilter, busyHour, List.length_append, List.length_replicate,
    TokenBucket.length_evenly]
  omega

/-- **The hourly write budget.** For a budget of `n`, calls at non-decreasing times are admitted
`2 * n - 1` times in any hour at most; and there is an hour in which that many are. -/
theorem hourly_budget (n : Nat) (start : ℚ) :
    (∀ times : List ℚ, (start :: times).Pairwise (· ≤ ·) → ∀ s,
      writesInHour s ((WriteRateLimiter.new n start).admitted times) ≤ 2 * n - 1) ∧
    ∃ times : List ℚ, (start :: times).Pairwise (· ≤ ·) ∧
      writesInHour start ((WriteRateLimiter.new n start).admitted times) = 2 * n - 1 := by
  refine ⟨fun times hsorted s => writesInHour_le n hsorted s, busyHour n start,
    pairwise_busyHour n start, ?_⟩
  rw [admitted_busyHour, writesInHour_busyHour]

/-- Three calls with a budget of ten. -/
theorem hourly_budget_ten : writesInHour 0 ((WriteRateLimiter.new 10 0).admitted [0, 5, 5]) ≤ 19 :=
  (hourly_budget 10 0).1 [0, 5, 5] (by norm_num) 0

/-- **More than the budget in an hour**: two writes at once, and a third half an hour later. -/
theorem not_hourly_budget_two :
    ¬ ∀ (n : Nat) (start : ℚ) (times : List ℚ), (start :: times).Pairwise (· ≤ ·) → ∀ s,
      writesInHour s ((WriteRateLimiter.new n start).admitted times) ≤ n := by
  intro h
  have hthree : writesInHour 0 ((WriteRateLimiter.new 2 0).admitted (busyHour 2 0)) = 3 := by
    rw [admitted_busyHour, writesInHour_busyHour]
  have htwo := h 2 0 (busyHour 2 0) (pairwise_busyHour 2 0) 0
  rw [hthree] at htwo
  exact absurd htwo (by decide)

end EngramMcp
