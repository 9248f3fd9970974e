import Workplan.CommandLine.Duration
import Workplan.Proofs.Number.Rounding

/-! Durations from seconds: a floating-point number of seconds gives the nearest whole number of
nanoseconds. There is no duration exactly from `2 ^ 64` seconds on (`Duration.ofSeconds?_eq_none_iff`),
for the largest number of the format below that is a whole number of seconds below; and half a nanosecond
or less, though it is more than nothing, gives a duration of zero (`Duration.nanoseconds_eq_zero_iff`). -/
namespace Workplan
set_option autoImplicit false

theorem roundQuotient_eq_zero_iff {num den : ℕ} (hden : 0 < den) :
    roundQuotient num den = 0 ↔ 2 * num ≤ den := by
  rw [roundQuotient]
  rcases lt_or_ge num den with hlt | hle
  · rw [Nat.div_eq_of_lt hlt, Nat.mod_eq_of_lt hlt]
    split
    next h => exact iff_of_true rfl h.le
    next h => split <;> omega
  · have hq : 0 < num / den := Nat.div_pos hle hden
    refine iff_of_false ?_ (by omega)
    split
    next => exact hq.ne'
    next => split <;> omega

namespace Binary64
variable {x : Binary64}

/-- Between the whole numbers `2 ^ 64 - 2 ^ 11` and `2 ^ 64` there is no number of the format. -/
theorem magnitude_le_of_lt (h : x.magnitude < 2 ^ 64) : x.magnitude ≤ 2 ^ 64 - 2 ^ 11 := by
  have htwo : (2 : ℚ) ≠ 0 := by norm_num
  rcases le_or_gt x.exponent 11 with he | he
  · have hm : (x.mantissa : ℚ) ≤ 2 ^ 53 - 1 := by
      have hlt : x.mantissa + 1 ≤ 2 ^ 53 := x.canonical.1
      have hcast : (x.mantissa : ℚ) + 1 ≤ 2 ^ 53 := by exact_mod_cast hlt
      linarith
    have hpow : (2 : ℚ) ^ x.exponent ≤ 2 ^ (11 : ℤ) := zpow_le_zpow_right₀ (by norm_num) he
    calc x.magnitude ≤ (2 ^ 53 - 1) * 2 ^ (11 : ℤ) :=
          mul_le_mul hm hpow (by positivity) (by norm_num)
      _ = 2 ^ 64 - 2 ^ 11 := by norm_num
  · -- a number with so large an exponent has 53 bits, so it has left the range
    have hm : (2 : ℚ) ^ 52 ≤ x.mantissa := by
      exact_mod_cast x.canonical.2.2.2.resolve_right (by omega)
    have hpow : (2 : ℚ) ^ (12 : ℤ) ≤ 2 ^ x.exponent := zpow_le_zpow_right₀ (by norm_num) (by omega)
    have hge : (2 : ℚ) ^ 52 * 2 ^ (12 : ℤ) ≤ x.magnitude :=
      mul_le_mul hm hpow (by positivity) (by positivity)
    norm_num at h hge
    linarith

theorem fraction_nanoseconds (x : Binary64) :
    ((x.fraction.1 * 10 ^ 9 : ℕ) : ℚ) / x.fraction.2 = x.magnitude * 10 ^ 9 := by
  rw [← fraction_eq]
  push_cast
  ring

end Binary64

namespace Duration
variable {x : Binary64} {d : Duration}

theorem ext_nanoseconds {d d' : Duration} (h : d.nanoseconds = d'.nanoseconds) : d = d' := by
  cases d
  cases d'
  cases h
  rfl

theorem ofSeconds?_eq_some_iff : ofSeconds? x = some d ↔
    d.nanoseconds = roundQuotient (x.fraction.1 * 10 ^ 9) x.fraction.2 := by
  rw [ofSeconds?]
  dsimp only
  split
  next h =>
    rw [Option.some.injEq]
    exact ⟨fun hd => hd ▸ rfl, fun hd => ext_nanoseconds hd.symm⟩
  next h => exact iff_of_false (by simp) fun hd => h (hd ▸ d.inRange)

theorem abs_nanoseconds_sub_le (h : ofSeconds? x = some d) :
    |(d.nanoseconds : ℚ) - x.magnitude * 10 ^ 9| ≤ 1 / 2 := by
  rw [ofSeconds?_eq_some_iff.1 h, ← x.fraction_nanoseconds]
  exact abs_roundQuotient_sub_le_half _ x.fraction_pos

theorem nanoseconds_eq_zero_iff (h : ofSeconds? x = some d) :
    d.nanoseconds = 0 ↔ x.magnitude * 10 ^ 9 ≤ 1 / 2 := by
  have hden : (0 : ℚ) < x.fraction.2 := by exact_mod_cast x.fraction_pos
  rw [ofSeconds?_eq_some_iff.1 h, roundQuotient_eq_zero_iff x.fraction_pos, ← x.fraction_nanoseconds,
    div_le_div_iff₀ hden (by norm_num), one_mul, mul_comm]
  norm_cast

/-- Seconds are beyond the range of durations exactly from `2 ^ 64` on. -/
theorem ofSeconds?_eq_none_iff : ofSeconds? x = none ↔ 2 ^ 64 ≤ x.magnitude := by
  have hhalf := abs_roundQuotient_sub_le_half (x.fraction.1 * 10 ^ 9) x.fraction_pos
  rw [x.fraction_nanoseconds, abs_le] at hhalf
  rw [ofSeconds?]
  dsimp only
  split
  next h =>
    refine iff_of_false (by simp) fun hle => ?_
    have hlt : (roundQuotient (x.fraction.1 * 10 ^ 9) x.fraction.2 : ℚ) + 1 ≤ 2 ^ 64 * 10 ^ 9 := by
      exact_mod_cast h
    linarith
  next h =>
    refine iff_of_true rfl (not_lt.1 fun hlt => h ?_)
    have hle := Binary64.magnitude_le_of_lt hlt
    have hround : (roundQuotient (x.fraction.1 * 10 ^ 9) x.fraction.2 : ℚ) < 2 ^ 64 * 10 ^ 9 := by
      linarith
    exact_mod_cast hround

end Duration

end Workplan
