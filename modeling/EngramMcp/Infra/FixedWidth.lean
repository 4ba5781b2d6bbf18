import Mathlib.Tactic.Linarith

/-!
# Machine integers that do not overflow

A computation on machine integers wraps around, or it is interrupted when a value does not fit:
which of the two depends on how the program was built. `i64`, `u64` and `u32` are the check of
each value. Where the check succeeds, the wrapping operation gives the exact value.
-/

namespace Infra

/-- A value that lies in the range of a type. -/
def inRange (low high x : Int) : Option Int := if low ≤ x ∧ x < high then some x else none

/-- A value that fits an `i64`. -/
def i64 : Int → Option Int := inRange (-2 ^ 63) (2 ^ 63)

/-- A value that fits a `u64`. -/
def u64 : Int → Option Int := inRange 0 (2 ^ 64)

/-- A value that fits a `u32`. -/
def u32 : Int → Option Int := inRange 0 (2 ^ 32)

theorem inRange_eq {low high x : Int} (hle : low ≤ x) (hlt : x < high) :
    inRange low high x = some x := if_pos ⟨hle, hlt⟩

theorem inRange_eq_some {low high x y : Int} (h : inRange low high x = some y) :
    x = y ∧ low ≤ x ∧ x < high := by
  unfold inRange at h
  split at h
  · next hx => exact ⟨Option.some.inj h, hx⟩
  · exact nomatch h

theorem bmod_eq_of_fits {x : Int} (hle : -2 ^ 63 ≤ x) (hlt : x < 2 ^ 63) : x.bmod (2 ^ 64) = x :=
  Int.bmod_eq_of_le (by omega) (by omega)

/-- Where both computations take the same branch, each branch gives the checked value. -/
theorem ite_of_checked {α : Type} {p q : Prop} [Decidable p] [Decidable q] {a b : α}
    {x y : Option Int} {z : Int} (value : α → Int) (hpq : p ↔ q)
    (h : (if q then x else y) = some z) (ha : x = some z → value a = z)
    (hb : y = some z → value b = z) : value (if p then a else b) = z := by
  by_cases hp : p
  · rw [if_pos (hpq.mp hp)] at h
    rw [if_pos hp]
    exact ha h
  · rw [if_neg (fun hq => hp (hpq.mpr hq))] at h
    rw [if_neg hp]
    exact hb h

/-! ## Signed words -/

section

variable {a b : Int64} {x y : Int}

theorem toInt_add_of_i64 (h : i64 (a.toInt + b.toInt) = some x) : (a + b).toInt = x := by
  obtain ⟨rfl, hle, hlt⟩ := inRange_eq_some h
  rw [Int64.toInt_add, bmod_eq_of_fits hle hlt]

theorem toInt_sub_of_i64 (h : i64 (a.toInt - b.toInt) = some x) : (a - b).toInt = x := by
  obtain ⟨rfl, hle, hlt⟩ := inRange_eq_some h
  rw [Int64.toInt_sub, bmod_eq_of_fits hle hlt]

theorem toInt_mul_of_i64 (h : i64 (a.toInt * b.toInt) = some x) : (a * b).toInt = x := by
  obtain ⟨rfl, hle, hlt⟩ := inRange_eq_some h
  rw [Int64.toInt_mul, bmod_eq_of_fits hle hlt]

theorem toInt_div_of_i64 (h : i64 (a.toInt.tdiv b.toInt) = some x) : (a / b).toInt = x := by
  obtain ⟨rfl, hle, hlt⟩ := inRange_eq_some h
  rw [Int64.toInt_div, bmod_eq_of_fits hle hlt]

/-- Division of values that are not negative. -/
theorem toInt_div_of_nonneg (ha : 0 ≤ a.toInt) (hb : 0 ≤ b.toInt) :
    (a / b).toInt = a.toInt / b.toInt := by
  have hlt := Int64.toInt_lt a
  have hle : a.toInt / b.toInt ≤ a.toInt := Int.ediv_le_self _ ha
  have hnonneg : 0 ≤ a.toInt / b.toInt := Int.ediv_nonneg ha hb
  rw [Int64.toInt_div, Int.tdiv_eq_ediv_of_nonneg ha, bmod_eq_of_fits (by omega) (by omega)]

theorem toInt_mod_of_nonneg (ha : 0 ≤ a.toInt) : (a % b).toInt = a.toInt % b.toInt := by
  rw [Int64.toInt_mod, Int.tmod_eq_emod_of_nonneg ha]

/-- A small value that is not negative keeps its value as a `u32`. -/
theorem toNat_toUInt32_toInt32 (hle : 0 ≤ a.toInt) (hlt : a.toInt < 2 ^ 31) :
    (a.toInt32.toUInt32.toNat : Int) = a.toInt := by
  have hvalue : a.toInt32.toInt = a.toInt := by
    rw [Int64.toInt_toInt32, Int.bmod_eq_of_le (by omega) (by omega)]
  have hbits : a.toInt32.toInt = (a.toInt32.toUInt32.toNat : Int).bmod (2 ^ 32) := by
    rw [← Int32.toNat_toBitVec]
    exact BitVec.toInt_eq_toNat_bmod a.toInt32.toBitVec
  have hword := UInt32.toNat_lt a.toInt32.toUInt32
  rw [hvalue, Int.bmod_def] at hbits
  split at hbits <;> omega

/-- A value that is not negative keeps its value as a `u64`. -/
theorem toNat_toUInt64 (h : u64 a.toInt = some x) : (a.toUInt64.toNat : Int) = x := by
  obtain ⟨rfl, hle, -⟩ := inRange_eq_some h
  have hbits : a.toInt = (a.toUInt64.toNat : Int).bmod (2 ^ 64) := by
    rw [← Int64.toNat_toBitVec]
    exact BitVec.toInt_eq_toNat_bmod a.toBitVec
  have hlt := UInt64.toNat_lt a.toUInt64
  rw [Int.bmod_def] at hbits
  split at hbits <;> omega

end

/-! ## Unsigned words -/

section

variable {a b : UInt64} {x : Int}

theorem toNat_add_of_u64 (h : u64 (a.toNat + b.toNat) = some x) : ((a + b).toNat : Int) = x := by
  obtain ⟨rfl, -, hlt⟩ := inRange_eq_some h
  rw [UInt64.toNat_add]
  omega

theorem toNat_sub_of_u64 (h : u64 (a.toNat - b.toNat) = some x) : ((a - b).toNat : Int) = x := by
  obtain ⟨rfl, hle, -⟩ := inRange_eq_some h
  rw [UInt64.toNat_sub_of_le _ _ (UInt64.le_iff_toNat_le.mpr (by omega))]
  omega

theorem toNat_mul_of_u64 (h : u64 (a.toNat * b.toNat) = some x) : ((a * b).toNat : Int) = x := by
  obtain ⟨rfl, -, hlt⟩ := inRange_eq_some h
  rw [← Int.natCast_mul] at hlt ⊢
  rw [UInt64.toNat_mul]
  omega

theorem toNat_div_eq (a b : UInt64) : ((a / b).toNat : Int) = a.toNat / b.toNat := by
  rw [UInt64.toNat_div, Int.natCast_ediv]

theorem toInt_toInt64 (h : i64 a.toNat = some x) : a.toInt64.toInt = x := by
  obtain ⟨rfl, hle, hlt⟩ := inRange_eq_some h
  exact (BitVec.toInt_eq_toNat_bmod a.toBitVec).trans (bmod_eq_of_fits hle hlt)

theorem toNat_toUInt32 (h : u32 a.toNat = some x) : (a.toUInt32.toNat : Int) = x := by
  obtain ⟨rfl, -, hlt⟩ := inRange_eq_some h
  rw [UInt64.toNat_toUInt32]
  omega

end

end Infra
