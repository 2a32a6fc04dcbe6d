import Mathlib.Algebra.Order.Field.Basic
import Mathlib.Data.Rat.Cast.Order
import Mathlib.Tactic.FieldSimp
import Mathlib.Tactic.Linarith
import Mathlib.Tactic.Positivity
import MutationLab.Report

/-! # Mutation scores

A score is a quotient, and what is printed of it is a double. The double is off by half a unit of
its last place at most, and has 53 places (`Decimal.Double.abs_toRat_ofQuotient_sub_le`). So the
double of a score is the score up to a part in `2 ^ 53` (`Score.abs_toRat_toDouble_sub_le`). Both
lie between 0 and 100. -/

namespace MutationLab

namespace Decimal

/-! ## Rounded quotients -/

section

variable {numerator denominator : Nat}

/-- A quotient is rounded by half a unit at most. -/
theorem two_mul_dist_roundDiv_le (numerator : Nat) (hpos : 0 < denominator) :
    2 * (roundDiv numerator denominator * denominator) ≤ 2 * numerator + denominator ∧
      2 * numerator ≤ 2 * (roundDiv numerator denominator * denominator) + denominator := by
  have hdivision := Nat.div_add_mod numerator denominator
  have hrest := Nat.mod_lt numerator hpos
  rw [Nat.mul_comm] at hdivision
  rw [roundDiv]
  split
  · rw [Nat.add_mul, Nat.one_mul]
    omega
  · omega

/-- It is not rounded beyond a bound. -/
theorem roundDiv_le {bound : Nat} (hpos : 0 < denominator) (h : numerator ≤ bound * denominator) :
    roundDiv numerator denominator ≤ bound := by
  have hround := (two_mul_dist_roundDiv_le numerator hpos).1
  by_contra hlt
  have hnext := Nat.mul_le_mul_right denominator (Nat.lt_of_not_le hlt)
  rw [Nat.succ_mul] at hnext
  omega

/-- A number is not rounded. -/
theorem roundDiv_mul (hpos : 0 < denominator) (number : Nat) :
    roundDiv (number * denominator) denominator = number := by
  simp [roundDiv, Nat.mul_div_cancel _ hpos]
  omega

end

namespace Double

/-- The value of a double. -/
def toRat (d : Double) : ℚ := d.significand / 2 ^ d.scale

variable {numerator denominator : Nat}

/-- The quotient is scaled until it has 53 places in front of the point, and rounded there. -/
theorem exists_ofQuotient_eq (denominator : Nat) (hne : numerator ≠ 0) :
    ∃ scale, ofQuotient numerator denominator =
        ⟨roundDiv (numerator * 2 ^ scale) denominator, scale⟩ ∧
      denominator * 2 ^ 52 ≤ numerator * 2 ^ scale := by
  let guess := 52 + denominator.log2 - numerator.log2
  by_cases hsmall : numerator * 2 ^ guess < denominator * 2 ^ 52
  · refine ⟨guess + 1, ?_, ?_⟩
    · rw [ofQuotient, if_neg hne]
      exact congrArg (fun scale => Double.mk (roundDiv (numerator * 2 ^ scale) denominator) scale)
        (if_pos hsmall)
    · have hdenominator : denominator < 2 ^ (denominator.log2 + 1) := Nat.lt_log2_self
      calc denominator * 2 ^ 52
          ≤ 2 ^ (denominator.log2 + 1) * 2 ^ 52 := Nat.mul_le_mul_right _ hdenominator.le
        _ = 2 ^ (denominator.log2 + 1 + 52) := (Nat.pow_add ..).symm
        _ ≤ 2 ^ (numerator.log2 + (guess + 1)) := Nat.pow_le_pow_right (by decide) (by omega)
        _ = 2 ^ numerator.log2 * 2 ^ (guess + 1) := Nat.pow_add ..
        _ ≤ numerator * 2 ^ (guess + 1) := Nat.mul_le_mul_right _ (Nat.log2_self_le hne)
  · refine ⟨guess, ?_, Nat.le_of_not_lt hsmall⟩
    rw [ofQuotient, if_neg hne]
    exact congrArg (fun scale => Double.mk (roundDiv (numerator * 2 ^ scale) denominator) scale)
      (if_neg hsmall)

/-- **The double of a quotient** is the quotient up to a part in `2 ^ 53`. -/
theorem abs_toRat_ofQuotient_sub_le (numerator : Nat) (hpos : 0 < denominator) :
    |(ofQuotient numerator denominator).toRat - numerator / denominator| ≤
      numerator / denominator / 2 ^ 53 := by
  by_cases hne : numerator = 0
  · subst hne
    simp [ofQuotient, toRat]
  · obtain ⟨scale, heq, hscale⟩ := exists_ofQuotient_eq denominator hne
    obtain ⟨hhigh, hlow⟩ :=
      two_mul_dist_roundDiv_le (numerator * 2 ^ scale) hpos
    rw [heq, toRat]
    generalize roundDiv (numerator * 2 ^ scale) denominator = significand at hhigh hlow
    have hdenominator : (0 : ℚ) < denominator := Nat.cast_pos.mpr hpos
    have hunit : (0 : ℚ) < 2 ^ scale := by positivity
    have hhigh' : (2 * (significand * denominator) : ℚ) ≤
        2 * (numerator * 2 ^ scale) + denominator := mod_cast hhigh
    have hlow' : (2 * (numerator * 2 ^ scale) : ℚ) ≤
        2 * (significand * denominator) + denominator := mod_cast hlow
    have hscale' : (denominator * 2 ^ 52 : ℚ) ≤ numerator * 2 ^ scale := mod_cast hscale
    -- Half a unit is small, as the scaled quotient has 53 places.
    have hdist : |(significand * denominator - 2 ^ scale * numerator : ℚ)| ≤
        numerator * 2 ^ scale / 2 ^ 53 := by
      rw [abs_le]
      constructor <;> linarith
    calc |((significand : ℚ) / 2 ^ scale - numerator / denominator)|
        = |(significand * denominator - 2 ^ scale * numerator : ℚ)| /
            (2 ^ scale * denominator) := by
          rw [div_sub_div _ _ hunit.ne' hdenominator.ne', abs_div,
            abs_of_pos (mul_pos hunit hdenominator)]
      _ ≤ numerator * 2 ^ scale / 2 ^ 53 / (2 ^ scale * denominator) := by gcongr
      _ = numerator / denominator / 2 ^ 53 := by field_simp

/-- It does not lie beyond a bound of the quotient. -/
theorem toRat_ofQuotient_le (bound : Nat) (hpos : 0 < denominator)
    (h : numerator ≤ bound * denominator) :
    (ofQuotient numerator denominator).toRat ≤ bound := by
  by_cases hne : numerator = 0
  · subst hne
    simp [ofQuotient, toRat]
  · obtain ⟨scale, heq, -⟩ := exists_ofQuotient_eq denominator hne
    have hscaled : numerator * 2 ^ scale ≤ bound * 2 ^ scale * denominator := by
      rw [Nat.mul_right_comm]
      exact Nat.mul_le_mul_right _ h
    rw [heq, toRat, div_le_iff₀ (by positivity)]
    exact mod_cast roundDiv_le hpos hscaled

/-- A quotient that is a number is not rounded. -/
theorem toRat_ofQuotient_mul (hpos : 0 < denominator) (number : Nat) :
    (ofQuotient (number * denominator) denominator).toRat = number := by
  by_cases hne : number * denominator = 0
  · obtain rfl := (Nat.mul_eq_zero.mp hne).resolve_right hpos.ne'
    simp [ofQuotient, toRat]
  · obtain ⟨scale, heq, -⟩ := exists_ofQuotient_eq denominator hne
    have hround := roundDiv_mul hpos (number * 2 ^ scale)
    rw [Nat.mul_right_comm] at hround
    rw [heq, hround, toRat, Nat.cast_mul, Nat.cast_pow, Nat.cast_ofNat,
      mul_div_cancel_right₀ _ (by positivity)]

/-- A double is not negative. -/
theorem toRat_nonneg (d : Double) : 0 ≤ d.toRat := by
  rw [toRat]
  positivity

end Double

end Decimal

namespace Score

/-- The score as a rational number. -/
def toRat (s : Score) : ℚ := if s.executed = 0 then 100 else 100 * s.killed / s.executed

variable {s : Score}

/-- **The double of a score** is the score up to a part in `2 ^ 53`. -/
theorem abs_toRat_toDouble_sub_le (s : Score) :
    |s.toDouble.toRat - s.toRat| ≤ s.toRat / 2 ^ 53 := by
  rw [toDouble, toRat]
  split
  · have h := Decimal.Double.abs_toRat_ofQuotient_sub_le 100 Nat.one_pos
    simpa using h
  · rename_i hexecuted
    have h := Decimal.Double.abs_toRat_ofQuotient_sub_le (100 * s.killed)
      (Nat.pos_of_ne_zero hexecuted)
    rwa [Nat.cast_mul, Nat.cast_ofNat] at h

theorem toRat_nonneg (s : Score) : 0 ≤ s.toRat := by
  rw [toRat]
  positivity

/-- No more can be killed than was executed. -/
theorem toRat_le (h : s.killed ≤ s.executed) : s.toRat ≤ 100 := by
  rw [toRat]
  split
  · exact le_rfl
  · rename_i hexecuted
    have hpos : (0 : ℚ) < s.executed := Nat.cast_pos.mpr (Nat.pos_of_ne_zero hexecuted)
    rw [div_le_iff₀ hpos]
    exact mod_cast Nat.mul_le_mul_left 100 h

/-- Only if everything was killed the score is full. -/
theorem toRat_eq_iff (h : s.killed ≤ s.executed) : s.toRat = 100 ↔ s.killed = s.executed := by
  rw [toRat]
  split
  · rename_i hexecuted
    exact iff_of_true rfl (by omega)
  · rename_i hexecuted
    have hne : (s.executed : ℚ) ≠ 0 := Nat.cast_ne_zero.mpr hexecuted
    rw [div_eq_iff hne, mul_right_inj' (by norm_num), Nat.cast_inj]

theorem toRat_toDouble_le (h : s.killed ≤ s.executed) : s.toDouble.toRat ≤ 100 := by
  rw [toDouble]
  split
  · exact Decimal.Double.toRat_ofQuotient_le 100 Nat.one_pos (by omega)
  · rename_i hexecuted
    exact Decimal.Double.toRat_ofQuotient_le 100 (Nat.pos_of_ne_zero hexecuted)
      (Nat.mul_le_mul_left 100 h)

/-- A full score is printed as it is. -/
theorem toRat_toDouble_eq (h : s.killed = s.executed) : s.toDouble.toRat = 100 := by
  rw [toDouble, h]
  split
  · exact Decimal.Double.toRat_ofQuotient_mul Nat.one_pos 100
  · rename_i hexecuted
    exact Decimal.Double.toRat_ofQuotient_mul (Nat.pos_of_ne_zero hexecuted) 100

end Score

end MutationLab
