import Mathlib.Algebra.Order.Field.Power
import Mathlib.Algebra.Order.Field.Rat
import Mathlib.Data.Nat.Cast.Field
import Mathlib.Data.Rat.Cast.Order
import Mathlib.Tactic.FieldSimp
import Mathlib.Tactic.Linarith
import Mathlib.Tactic.Ring
import Workplan.Number

/-! Exact values: the rational number that a number of a value stands for. The tests on floating-point
numbers, which compare whole numbers only, are tests on exact values: below zero, without a fraction, and
the whole part. -/
namespace Workplan
set_option autoImplicit false

/-- A power of a base is the quotient of two whole powers, one of which is one. -/
theorem power_div_power (base : ℕ) (e : ℤ) :
    (power base e : ℚ) / power base (-e) = (base : ℚ) ^ e := by
  have hcast : ∀ n : ℕ, (power base n : ℚ) = (base : ℚ) ^ n := fun n => by
    rw [power_natCast]
    exact Nat.cast_pow base n
  rcases Int.le_total 0 e with h | h
  · obtain ⟨n, rfl⟩ := Int.eq_ofNat_of_zero_le h
    rw [power_of_nonpos (Int.neg_nonpos_of_nonneg h), Nat.cast_one, div_one, hcast, zpow_natCast]
  · obtain ⟨n, hn⟩ := Int.eq_ofNat_of_zero_le (Int.neg_nonneg_of_nonpos h)
    have he : e = -(n : ℤ) := by omega
    rw [power_of_nonpos h, hn, hcast, Nat.cast_one, he, zpow_neg, zpow_natCast, one_div]

theorem power_pos {base : ℕ} (hbase : 0 < base) (e : ℤ) : 0 < power base e := Nat.pow_pos hbase

namespace Binary64
variable {x : Binary64}

/-- The exact value without its sign. -/
def magnitude (x : Binary64) : ℚ := x.mantissa * 2 ^ x.exponent

/-- The exact value. -/
def toRat (x : Binary64) : ℚ := if x.negative then -x.magnitude else x.magnitude

theorem magnitude_nonneg (x : Binary64) : 0 ≤ x.magnitude := by
  rw [magnitude]
  positivity

theorem abs_toRat (x : Binary64) : |x.toRat| = x.magnitude := by
  rw [toRat]
  split
  · rw [abs_neg, abs_of_nonneg x.magnitude_nonneg]
  · rw [abs_of_nonneg x.magnitude_nonneg]

theorem magnitude_eq_zero_iff : x.magnitude = 0 ↔ x.mantissa = 0 := by
  rw [magnitude, mul_eq_zero, Nat.cast_eq_zero, or_iff_left (by positivity)]

theorem fraction_pos (x : Binary64) : 0 < x.fraction.2 := power_pos (by decide) _

theorem fraction_eq (x : Binary64) : (x.fraction.1 : ℚ) / x.fraction.2 = x.magnitude := by
  have hpower := power_div_power 2 x.exponent
  rw [fraction, magnitude, Nat.cast_mul, mul_div_assoc, hpower, Nat.cast_ofNat]

/-! ## Tests -/

theorem isBelowZero_iff : x.isBelowZero = true ↔ x.toRat < 0 := by
  have hmag := x.magnitude_nonneg
  have hzero : x.isZero = true ↔ x.magnitude = 0 := by
    rw [magnitude_eq_zero_iff, isZero, decide_eq_true_eq]
  rw [isBelowZero, Bool.and_eq_true, Bool.not_eq_true', ← Bool.not_eq_true, hzero, toRat]
  split
  next hneg =>
    have hlt : -x.magnitude < 0 ↔ x.magnitude ≠ 0 := by
      rw [neg_lt_zero]
      exact hmag.lt_iff_ne'
    simp [hneg, hlt]
  next hneg => simp [hneg, hmag]

theorem isWhole_iff_dvd : x.isWhole = true ↔ x.fraction.2 ∣ x.fraction.1 := by
  rw [isWhole, decide_eq_true_eq, Nat.dvd_iff_mod_eq_zero]

theorem wholePart_eq (h : x.isWhole = true) : (x.wholePart : ℚ) = x.magnitude := by
  have hden : (x.fraction.2 : ℚ) ≠ 0 := Nat.cast_ne_zero.2 x.fraction_pos.ne'
  rw [wholePart, Nat.cast_div (isWhole_iff_dvd.1 h) hden, fraction_eq]

theorem truncate_eq (h : x.isWhole = true) : (x.truncate : ℚ) = x.toRat := by
  rw [truncate, toRat, ← wholePart_eq h]
  split
  next => rw [Int.cast_neg, Int.cast_natCast]
  next => rw [Int.cast_natCast]

theorem isWhole_of_magnitude {n : ℕ} (h : x.magnitude = n) : x.isWhole = true := by
  have hden : (x.fraction.2 : ℚ) ≠ 0 := Nat.cast_ne_zero.2 x.fraction_pos.ne'
  rw [isWhole_iff_dvd]
  refine ⟨n, ?_⟩
  rw [← fraction_eq, div_eq_iff hden, mul_comm] at h
  exact_mod_cast h

theorem isWhole_iff : x.isWhole = true ↔ ∃ n : ℤ, x.toRat = n := by
  constructor
  · exact fun h => ⟨x.truncate, (truncate_eq h).symm⟩
  · rintro ⟨n, hn⟩
    apply isWhole_of_magnitude (n := n.natAbs)
    rw [← abs_toRat, hn, Nat.cast_natAbs, Int.cast_abs]

theorem isWhole_of_le (h : 2 ^ 52 ≤ |x.toRat|) : x.isWhole = true := by
  have hexp : 0 ≤ x.exponent := by
    by_contra hneg
    have hm : (x.mantissa : ℚ) < 2 ^ 53 := by exact_mod_cast x.canonical.1
    have hpow : (2 : ℚ) ^ x.exponent ≤ 2 ^ (-1 : ℤ) := zpow_le_zpow_right₀ (by norm_num) (by omega)
    have hlt : x.magnitude < 2 ^ 53 * 2 ^ (-1 : ℤ) :=
      mul_lt_mul_of_lt_of_le_of_nonneg_of_pos hm hpow (by positivity) (by positivity)
    rw [abs_toRat] at h
    norm_num at h hlt
    linarith
  obtain ⟨n, hn⟩ := Int.eq_ofNat_of_zero_le hexp
  apply isWhole_of_magnitude (n := x.mantissa * Nat.pow 2 n)
  rw [magnitude, hn, zpow_natCast, Nat.cast_mul]
  norm_num

/-! ## Numbers of a given value -/

/-- A mantissa of fewer than 53 bits can be shifted to the left until it is canonical. -/
theorem exists_magnitude_eq (negative : Bool) {m : ℕ} {e : ℤ} (hm : m < 2 ^ 53) (hlow : -1074 ≤ e)
    (hhigh : e ≤ 971) : ∃ x : Binary64, x.negative = negative ∧ x.magnitude = m * 2 ^ e := by
  obtain ⟨k, hk⟩ := Int.eq_ofNat_of_zero_le (a := e + 1074) (by omega)
  induction k generalizing m e with
  | zero => exact ⟨⟨negative, m, e, hm, hlow, hhigh, .inr (by omega)⟩, rfl, rfl⟩
  | succ k ih =>
    by_cases hnormal : 2 ^ 52 ≤ m
    · exact ⟨⟨negative, m, e, hm, hlow, hhigh, .inl hnormal⟩, rfl, rfl⟩
    · obtain ⟨x, hx, hmag⟩ := ih (m := 2 * m) (e := e - 1) (by omega) (by omega) (by omega) (by omega)
      refine ⟨x, hx, hmag.trans ?_⟩
      rw [zpow_sub_one₀ (by norm_num), Nat.cast_mul, Nat.cast_ofNat]
      ring

end Binary64

/-- The exact value of a number. -/
def Number.toRat : Number → ℚ
  | .whole n _ => n
  | .float x => x.toRat

end Workplan
