import Mathlib.Algebra.Order.Floor.Ring
import Mathlib.Algebra.Order.Round
import Mathlib.Data.Int.Log
import Mathlib.Tactic.Linarith

namespace Lib

section
variable {K : Type*} [Field K] [LinearOrder K] [IsStrictOrderedRing K] [FloorRing K]

/-- The nearest integer, and of two that are equally near the even one. -/
def roundEven (x : K) : ℤ :=
  if 2 * Int.fract x < 1 ∨ 2 * Int.fract x = 1 ∧ Even ⌊x⌋ then ⌊x⌋ else ⌊x⌋ + 1

/-- What is left of a number of which only the leading digits are kept. -/
def toDigits (base digits : ℕ) (x : K) : K :=
  roundEven (x / (base : K) ^ (Int.log base |x| + 1 - digits)) *
    (base : K) ^ (Int.log base |x| + 1 - digits)

variable {x : K} {n : ℤ} {base digits : ℕ} {k : ℤ}

@[simp] theorem roundEven_intCast (n : ℤ) : roundEven (n : K) = n := by
  simp [roundEven]

omit [IsStrictOrderedRing K] in
theorem le_roundEven (h : (n : K) ≤ x) : n ≤ roundEven x := by
  have hfloor : n ≤ ⌊x⌋ := Int.le_floor.mpr h
  unfold roundEven
  split
  · exact hfloor
  · omega

theorem roundEven_le (h : x ≤ n) : roundEven x ≤ n := by
  rcases h.eq_or_lt with rfl | hlt
  · rw [roundEven_intCast]
  · have hfloor : ⌊x⌋ < n := Int.floor_lt.mpr hlt
    unfold roundEven
    split <;> omega

/-- Rounding crosses no integer. -/
theorem le_abs_roundEven (h : (n : K) ≤ |x|) : n ≤ |roundEven x| := by
  rcases le_abs.mp h with h | h
  · exact (le_roundEven h).trans (le_abs_self _)
  · have hneg : x ≤ ((-n : ℤ) : K) := by
      push_cast
      linarith
    have := roundEven_le hneg
    exact (by omega : n ≤ -roundEven x).trans (neg_le_abs _)

/-- An integer of that many digits keeps them all. -/
theorem toDigits_intCast (hbase : 1 < base) (h : |n| < (base : ℤ) ^ digits) :
    toDigits base digits (n : K) = n := by
  have hpos : (0 : K) < base := Nat.cast_pos.mpr (by omega)
  rcases eq_or_ne n 0 with rfl | hn
  · simp [toDigits, roundEven]
  have habs : (0 : K) < |(n : K)| := abs_pos.mpr (by exact_mod_cast hn)
  have hlog : Int.log base |(n : K)| < digits := by
    apply (Int.lt_zpow_iff_log_lt hbase habs).mp
    rw [zpow_natCast]
    exact_mod_cast h
  obtain ⟨shift, hshift⟩ : ∃ shift : ℕ, Int.log base |(n : K)| + 1 - digits = -shift :=
    ⟨(digits - (Int.log base |(n : K)| + 1)).toNat, by omega⟩
  have hscaled : (n : K) / (base : K) ^ (-(shift : ℤ)) = ((n * base ^ shift : ℤ) : K) := by
    rw [zpow_neg, div_inv_eq_mul, zpow_natCast]
    push_cast
    rfl
  have hunit : (base : K) ^ shift ≠ 0 := (pow_pos hpos shift).ne'
  rw [toDigits, hshift, hscaled, roundEven_intCast, zpow_neg, zpow_natCast]
  push_cast
  exact mul_inv_cancel_right₀ hunit _

/-- A number that has reached a power of the base does not fall below it. -/
theorem zpow_le_abs_toDigits (hbase : 1 < base) (hdigits : 0 < digits)
    (h : (base : K) ^ k ≤ |x|) : (base : K) ^ k ≤ |toDigits base digits x| := by
  have hpos : (0 : K) < base := Nat.cast_pos.mpr (by omega)
  have habs : 0 < |x| := (zpow_pos hpos k).trans_le h
  have hk : k ≤ Int.log base |x| := (Int.zpow_le_iff_le_log hbase habs).mp h
  obtain ⟨rest, rfl⟩ : ∃ rest, digits = rest + 1 := ⟨digits - 1, by omega⟩
  have hunit : (0 : K) < (base : K) ^ (Int.log base |x| + 1 - ((rest + 1 : ℕ) : ℤ)) :=
    zpow_pos hpos _
  have hlead : ((base ^ rest : ℤ) : K) * (base : K) ^ (Int.log base |x| + 1 - ((rest + 1 : ℕ) : ℤ))
      = (base : K) ^ Int.log base |x| := by
    push_cast
    rw [← zpow_natCast, ← zpow_add₀ hpos.ne']
    congr 1
    omega
  have hscaled : ((base ^ rest : ℤ) : K) ≤
      |x / (base : K) ^ (Int.log base |x| + 1 - ((rest + 1 : ℕ) : ℤ))| := by
    rw [abs_div, abs_of_pos hunit, le_div_iff₀ hunit, hlead]
    exact Int.zpow_log_le_self hbase habs
  have hround : ((base ^ rest : ℤ) : K) ≤
      |(roundEven (x / (base : K) ^ (Int.log base |x| + 1 - ((rest + 1 : ℕ) : ℤ))) : K)| := by
    exact_mod_cast le_abs_roundEven hscaled
  calc (base : K) ^ k ≤ (base : K) ^ Int.log base |x| :=
        zpow_le_zpow_right₀ (by exact_mod_cast hbase.le) hk
    _ ≤ |toDigits base (rest + 1) x| := by
        rw [toDigits, abs_mul, abs_of_pos hunit, ← hlead]
        exact mul_le_mul_of_nonneg_right hround hunit.le

end
end Lib
