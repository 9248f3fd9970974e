import Mathlib.Algebra.Order.Field.Basic
import Workplan.Proofs.Number.ExactValue

/-! Rounding: a fraction is rounded to a floating-point number that no other one is nearer to
(`Binary64.nearest_of_ofFraction?`). The exponent is chosen so that the rounded quotient has 53 bits; the
numbers with that exponent or a larger one are points of one grid, on which the whole-number quotient is
rounded, and all the others lie below the point `2 ^ 52` of the grid, which the fraction has reached.

What else is known of a rounded number follows from its being nearest: it is exact where the value is one
of the format, and it never crosses a value of the format. -/
namespace Workplan
set_option autoImplicit false

/-! ## Quotients -/

theorem abs_roundQuotient_sub_le_half (num : ℕ) {den : ℕ} (hden : 0 < den) :
    |(roundQuotient num den : ℚ) - num / den| ≤ 1 / 2 := by
  have hd : (0 : ℚ) < den := by exact_mod_cast hden
  have hsplit : (num : ℚ) / den = (num / den : ℕ) + (num % den : ℕ) / den := by
    rw [div_eq_iff hd.ne', add_mul, div_mul_cancel₀ _ hd.ne']
    exact_mod_cast (Nat.div_add_mod' num den).symm
  have hdown : 2 * (num % den) ≤ den → |((num / den : ℕ) : ℚ) - num / den| ≤ 1 / 2 := by
    intro h
    have hr : ((num % den : ℕ) : ℚ) / den ≤ 1 / 2 := by
      rw [div_le_div_iff₀ hd (by norm_num), one_mul, mul_comm]
      exact_mod_cast h
    have hr0 : (0 : ℚ) ≤ ((num % den : ℕ) : ℚ) / den := by positivity
    rw [hsplit, abs_le]
    constructor <;> linarith
  have hup : den ≤ 2 * (num % den) → |((num / den + 1 : ℕ) : ℚ) - num / den| ≤ 1 / 2 := by
    intro h
    have hr : 1 / 2 ≤ ((num % den : ℕ) : ℚ) / den := by
      rw [div_le_div_iff₀ (by norm_num) hd, one_mul, mul_comm]
      exact_mod_cast h
    have hr1 : ((num % den : ℕ) : ℚ) / den ≤ 1 := by
      rw [div_le_one hd]
      exact_mod_cast (Nat.mod_lt num hden).le
    rw [hsplit, abs_le, Nat.cast_add, Nat.cast_one]
    constructor <;> linarith
  rw [roundQuotient]
  split
  next h => exact hdown (by omega)
  next h =>
    split
    next h' => exact hup (by omega)
    next h' =>
      rcases Nat.mod_two_eq_zero_or_one (num / den) with he | he <;> rw [he]
      · exact hdown (by omega)
      · exact hup (by omega)

theorem abs_roundQuotient_sub_le {num den : ℕ} (hden : 0 < den) (k : ℕ) :
    |(roundQuotient num den : ℚ) - num / den| ≤ |(k : ℚ) - num / den| := by
  have hhalf := abs_roundQuotient_sub_le_half num hden
  by_cases hk : k = roundQuotient num den
  · rw [hk]
  · have hne : (1 : ℚ) ≤ |(k : ℚ) - roundQuotient num den| := by
      have hint : (1 : ℤ) ≤ |(k : ℤ) - roundQuotient num den| := Int.one_le_abs (by omega)
      exact_mod_cast hint
    have htri := abs_sub_le (k : ℚ) (num / den) (roundQuotient num den)
    rw [abs_sub_comm ((num : ℚ) / den)] at htri
    linarith

namespace Binary64

/-! ## The exponent -/

theorem scaledFraction_eq (num den : ℕ) (e : ℤ) :
    ((scaledFraction num den e).1 : ℚ) / (scaledFraction num den e).2 = num / den / 2 ^ e := by
  have hpower := power_div_power 2 (-e)
  rw [neg_neg, zpow_neg, Nat.cast_ofNat] at hpower
  rw [scaledFraction, Nat.cast_mul, Nat.cast_mul, mul_div_mul_comm, hpower, ← div_eq_mul_inv]

theorem scaledFraction_pos (num : ℕ) {den : ℕ} (hden : 0 < den) (e : ℤ) :
    0 < (scaledFraction num den e).2 :=
  Nat.mul_pos hden (power_pos (by decide) e)

theorem zpow_log2_le {n : ℕ} (hn : n ≠ 0) : (2 : ℚ) ^ (n.log2 : ℤ) ≤ n := by
  rw [zpow_natCast]
  exact_mod_cast Nat.log2_self_le hn

theorem lt_zpow_log2 (n : ℕ) : (n : ℚ) < 2 ^ ((n.log2 : ℤ) + 1) := by
  have h := Nat.lt_log2_self (n := n)
  have hcast : ((n.log2 : ℤ) + 1) = ((n.log2 + 1 : ℕ) : ℤ) := rfl
  rw [hcast, zpow_natCast]
  exact_mod_cast h

/-- `e` is the exponent of a fraction: its quotient has 53 bits before the point, or fewer if `e` is the
least exponent. -/
structure IsExponentOf (e : ℤ) (q : ℚ) : Prop where
  least : -1074 ≤ e
  lt : q < 2 ^ (53 + e)
  le : e = -1074 ∨ 2 ^ (52 + e) ≤ q

theorem isExponentOf_targetExponent {num den : ℕ} (hnum : num ≠ 0) (hden : den ≠ 0) :
    IsExponentOf (targetExponent num den) ((num : ℚ) / den) := by
  have hd : (0 : ℚ) < den := by exact_mod_cast Nat.pos_of_ne_zero hden
  have htwo : (2 : ℚ) ≠ 0 := by norm_num
  -- the logarithms give the exponent up to one
  have hlt : (num : ℚ) / den < 2 ^ ((num.log2 : ℤ) - den.log2 + 1) := by
    have he : (num.log2 : ℤ) - den.log2 + 1 = (num.log2 + 1 : ℤ) - den.log2 := by ring
    rw [he, zpow_sub₀ htwo]
    exact div_lt_div₀ (lt_zpow_log2 num) (zpow_log2_le hden) (by positivity) (by positivity)
  have hge : 2 ^ ((num.log2 : ℤ) - den.log2 - 1) ≤ (num : ℚ) / den := by
    have he : (num.log2 : ℤ) - den.log2 - 1 = (num.log2 : ℤ) - (den.log2 + 1) := by ring
    rw [he, zpow_sub₀ htwo]
    exact div_le_div₀ (by positivity) (zpow_log2_le hnum) hd (lt_zpow_log2 den).le
  -- the quotient at the guessed exponent decides between the two
  obtain ⟨e, he, hlow, hhigh⟩ : ∃ e : ℤ, targetExponent num den = max e (-1074) ∧
      2 ^ (52 + e) ≤ (num : ℚ) / den ∧ (num : ℚ) / den < 2 ^ (53 + e) := by
    set guess : ℤ := (num.log2 : ℤ) - (den.log2 : ℤ) - 52 with hguess
    have hsmall : (scaledFraction num den guess).1 / (scaledFraction num den guess).2 < 2 ^ 52 ↔
        (num : ℚ) / den < 2 ^ (52 + guess) := by
      have hpos := scaledFraction_pos num (Nat.pos_of_ne_zero hden) guess
      have hq : ((scaledFraction num den guess).2 : ℚ) ≠ 0 := Nat.cast_ne_zero.2 hpos.ne'
      rw [zpow_add₀ htwo, ← div_lt_iff₀ (by positivity), ← scaledFraction_eq,
        div_lt_iff₀ (by exact_mod_cast hpos), Nat.div_lt_iff_lt_mul hpos]
      norm_cast
    refine ⟨if (scaledFraction num den guess).1 / (scaledFraction num den guess).2 < 2 ^ 52 then
      guess - 1 else guess, rfl, ?_⟩
    split
    next h =>
      have hexp : 52 + (guess - 1) = (num.log2 : ℤ) - den.log2 - 1 := by omega
      have hexp' : 53 + (guess - 1) = 52 + guess := by ring
      rw [hexp, hexp']
      exact ⟨hge, hsmall.1 h⟩
    next h =>
      have hexp : 53 + guess = (num.log2 : ℤ) - den.log2 + 1 := by omega
      rw [hexp]
      exact ⟨not_lt.1 fun hc => h (hsmall.2 hc), hlt⟩
  rw [he]
  refine ⟨le_max_right _ _, hhigh.trans_le ?_, ?_⟩
  · exact zpow_le_zpow_right₀ (by norm_num) (by omega)
  · rcases le_total e (-1074) with h | h
    · exact .inl (max_eq_right h)
    · exact .inr (by rwa [max_eq_left h])

/-! ## The grid -/

/-- The numbers with a large exponent lie on a grid, and the others below one point of it. -/
theorem magnitude_on_grid (y : Binary64) (e : ℤ) :
    (∃ k : ℕ, y.magnitude = k * 2 ^ e) ∨ y.exponent < e ∧ y.magnitude < 2 ^ (52 + e) := by
  rcases le_or_gt e y.exponent with h | h
  · obtain ⟨n, hn⟩ := Int.eq_ofNat_of_zero_le (sub_nonneg.2 h)
    refine .inl ⟨y.mantissa * Nat.pow 2 n, ?_⟩
    have he : y.exponent = n + e := by omega
    rw [magnitude, he, zpow_add₀ (by norm_num), zpow_natCast, Nat.cast_mul, ← mul_assoc]
    norm_num
  · refine .inr ⟨h, ?_⟩
    have hm : (y.mantissa : ℚ) < 2 ^ (53 : ℤ) := by exact_mod_cast y.canonical.1
    have hpow : (2 : ℚ) ^ y.exponent ≤ 2 ^ (e - 1) := zpow_le_zpow_right₀ (by norm_num) (by omega)
    have hexp : 52 + e = 53 + (e - 1) := by ring
    rw [magnitude, hexp, zpow_add₀ (by norm_num)]
    exact mul_lt_mul_of_lt_of_le_of_nonneg_of_pos hm hpow (by positivity) (by positivity)

theorem abs_sub_le_of_grid {q : ℚ} {e : ℤ} {m : ℕ} (hq : 0 ≤ q) (he : IsExponentOf e q)
    (hm : ∀ k : ℕ, |(m : ℚ) - q / 2 ^ e| ≤ |(k : ℚ) - q / 2 ^ e|) (y : Binary64) :
    |m * 2 ^ e - q| ≤ |y.toRat - q| := by
  have hpos : (0 : ℚ) < 2 ^ e := by positivity
  have hgrid : ∀ k : ℕ, |(m : ℚ) * 2 ^ e - q| ≤ |(k : ℚ) * 2 ^ e - q| := by
    have hscale : ∀ k : ℕ, |(k : ℚ) * 2 ^ e - q| = |(k : ℚ) - q / 2 ^ e| * 2 ^ e := fun k => by
      rw [← abs_of_pos hpos, ← abs_mul, abs_of_pos hpos, sub_mul, div_mul_cancel₀ _ hpos.ne']
    intro k
    rw [hscale, hscale]
    exact mul_le_mul_of_nonneg_right (hm k) hpos.le
  have hmag := y.magnitude_nonneg
  rw [toRat]
  split
  · -- zero is a point of the grid, and it lies between
    refine (hgrid 0).trans ?_
    rw [Nat.cast_zero, zero_mul, zero_sub, abs_neg, abs_of_nonneg hq, abs_of_nonpos (by linarith)]
    linarith
  · rcases magnitude_on_grid y e with ⟨k, hk⟩ | ⟨hexp, hlt⟩
    · rw [hk]
      exact hgrid k
    · have hle : (2 : ℚ) ^ (52 + e) ≤ q := he.le.resolve_left (by have := y.canonical.2.1; omega)
      have hpoint : ((2 ^ 52 : ℕ) : ℚ) * 2 ^ e = 2 ^ (52 + e) := by
        rw [zpow_add₀ (by norm_num)]
        norm_num
      refine (hgrid (2 ^ 52)).trans ?_
      rw [hpoint, abs_of_nonpos (by linarith), abs_of_nonpos (by linarith)]
      linarith

/-! ## Nearest numbers -/

/-- No number of the format is nearer to `q` than `x`. -/
def Nearest (x : Binary64) (q : ℚ) : Prop := ∀ y : Binary64, |x.toRat - q| ≤ |y.toRat - q|

namespace Nearest
variable {x y : Binary64} {q : ℚ}

theorem toRat_eq (h : x.Nearest q) (hy : y.toRat = q) : x.toRat = q := by
  have hle := h y
  rw [hy, sub_self, abs_zero] at hle
  exact sub_eq_zero.1 (abs_nonpos_iff.1 hle)

theorem toRat_eq_iff (h : x.Nearest q) : x.toRat = q ↔ ∃ y : Binary64, y.toRat = q :=
  ⟨fun hx => ⟨x, hx⟩, fun ⟨_, hy⟩ => h.toRat_eq hy⟩

theorem le_toRat (h : x.Nearest q) (hy : y.toRat ≤ q) : y.toRat ≤ x.toRat := by
  by_contra hlt
  have hle := h y
  rw [abs_of_nonpos (by linarith), abs_of_nonpos (by linarith)] at hle
  linarith

theorem toRat_le (h : x.Nearest q) (hy : q ≤ y.toRat) : x.toRat ≤ y.toRat := by
  by_contra hlt
  have hle := h y
  rw [abs_of_nonneg (by linarith), abs_of_nonneg (by linarith)] at hle
  linarith

theorem of_toRat_eq (h : x.toRat = q) : x.Nearest q := by
  intro y
  rw [h, sub_self, abs_zero]
  exact abs_nonneg _

end Nearest

def neg (x : Binary64) : Binary64 := { x with negative := !x.negative }

theorem toRat_neg (x : Binary64) : x.neg.toRat = -x.toRat := by
  have hmag : x.neg.magnitude = x.magnitude := rfl
  rw [toRat, toRat, hmag, neg]
  cases x.negative <;> simp

/-- A number is nearest to a value when its magnitude is nearest to the magnitude of the value. -/
theorem nearest_of_magnitude {x : Binary64} {q : ℚ}
    (h : ∀ y : Binary64, |x.magnitude - q| ≤ |y.toRat - q|) :
    x.Nearest (if x.negative then -q else q) := by
  intro y
  rw [toRat]
  split
  · have hneg := h y.neg
    rw [toRat_neg] at hneg
    have hleft : -x.magnitude - -q = -(x.magnitude - q) := by ring
    have hright : y.toRat - -q = -(-y.toRat - q) := by ring
    rwa [hleft, hright, abs_neg, abs_neg]
  · exact h y

/-! ## Rounded fractions -/

theorem ofParts?_eq_some {negative : Bool} {m : ℕ} {e : ℤ} {x : Binary64}
    (h : ofParts? negative m e = some x) : x.negative = negative ∧ x.magnitude = m * 2 ^ e := by
  unfold ofParts? at h
  by_cases hm : m = 2 ^ 53
  · rw [if_pos hm, if_pos hm, Option.dite_none_right_eq_some] at h
    obtain ⟨_, h⟩ := h
    cases h
    refine ⟨rfl, ?_⟩
    rw [magnitude, hm, zpow_add_one₀ (by norm_num)]
    norm_num
    ring
  · rw [if_neg hm, if_neg hm, Option.dite_none_right_eq_some] at h
    obtain ⟨_, h⟩ := h
    cases h
    exact ⟨rfl, rfl⟩

theorem exists_ofParts? (negative : Bool) {m : ℕ} {e : ℤ} (hm : m ≤ 2 ^ 53) (hlow : -1074 ≤ e)
    (hhigh : e < 971) (hnormal : 2 ^ 52 ≤ m ∨ e = -1074) : ∃ x, ofParts? negative m e = some x := by
  have hcanonical : CanonicalPair (if m = 2 ^ 53 then 2 ^ 52 else m)
      (if m = 2 ^ 53 then e + 1 else e) := by
    unfold CanonicalPair
    split <;> omega
  exact ⟨_, dif_pos hcanonical⟩

theorem nearest_of_ofFraction? {negative : Bool} {num den : ℕ} {x : Binary64} (hden : den ≠ 0)
    (h : ofFraction? negative num den = some x) :
    x.negative = negative ∧ x.Nearest (if negative then -(num / den) else num / den) := by
  rw [ofFraction?] at h
  split at h
  next hnum =>
    cases h
    refine ⟨rfl, Nearest.of_toRat_eq ?_⟩
    rw [hnum, toRat, magnitude]
    simp [zero]
  next hnum =>
    obtain ⟨rfl, hmag⟩ := ofParts?_eq_some h
    refine ⟨rfl, nearest_of_magnitude fun y => ?_⟩
    rw [hmag]
    refine abs_sub_le_of_grid (by positivity) (isExponentOf_targetExponent hnum hden) (fun k => ?_) y
    rw [← scaledFraction_eq]
    exact abs_roundQuotient_sub_le (scaledFraction_pos _ (Nat.pos_of_ne_zero hden) _) k

theorem exists_ofFraction? (negative : Bool) {num den : ℕ} (hden : den ≠ 0)
    (h : (num : ℚ) / den < 2 ^ (1023 : ℤ)) : ∃ x, ofFraction? negative num den = some x := by
  rw [ofFraction?]
  split
  next => exact ⟨_, rfl⟩
  next hnum =>
    have hexp := isExponentOf_targetExponent hnum hden
    set e := targetExponent num den
    have hpos := scaledFraction_pos num (Nat.pos_of_ne_zero hden) e
    have hq := scaledFraction_eq num den e
    have hhalf := abs_le.1 (abs_roundQuotient_sub_le_half (scaledFraction num den e).1 hpos)
    rw [hq] at hhalf
    have htwo : (0 : ℚ) < 2 ^ e := by positivity
    refine exists_ofParts? negative ?_ hexp.least ?_ ?_
    · have hlt : (num : ℚ) / den / 2 ^ e < 2 ^ 53 := by
        rw [div_lt_iff₀ htwo]
        exact hexp.lt.trans_eq (zpow_add₀ (by norm_num) 53 e)
      have hround : (roundQuotient (scaledFraction num den e).1 (scaledFraction num den e).2 : ℚ) <
          2 ^ 53 + 1 := by
        linarith
      exact Nat.lt_succ_iff.1 (by exact_mod_cast hround)
    · rcases hexp.le with he | hle
      · omega
      · have hlt := (zpow_lt_zpow_iff_right₀ (by norm_num : (1 : ℚ) < 2)).1 (hle.trans_lt h)
        omega
    · rcases hexp.le with he | hle
      · exact .inr he
      · refine .inl ?_
        have hge : (2 : ℚ) ^ 52 ≤ (num : ℚ) / den / 2 ^ e := by
          rw [le_div_iff₀ htwo]
          exact (zpow_add₀ (by norm_num) 52 e).symm.trans_le hle
        have hround : (2 : ℚ) ^ 52 <
            roundQuotient (scaledFraction num den e).1 (scaledFraction num den e).2 + 1 := by
          linarith
        exact Nat.lt_succ_iff.1 (by exact_mod_cast hround)

end Binary64

/-! ## Whole numbers -/

namespace Binary64
variable {x : Binary64}

theorem signed_natAbs (n : ℤ) :
    (if decide (n < 0) = true then -(n.natAbs : ℚ) else (n.natAbs : ℚ)) = n := by
  rw [Nat.cast_natAbs, Int.cast_abs]
  split
  next h => rw [abs_of_neg (by exact_mod_cast of_decide_eq_true h), neg_neg]
  next h => exact abs_of_nonneg (by exact_mod_cast not_lt.1 fun hc => h (decide_eq_true hc))

theorem exists_toRat_eq {n : ℤ} (h : n.natAbs < 2 ^ 53) : ∃ y : Binary64, y.toRat = n := by
  obtain ⟨y, hneg, hmag⟩ := exists_magnitude_eq (decide (n < 0)) h (e := 0) (by decide) (by decide)
  refine ⟨y, ?_⟩
  rw [toRat, hneg, hmag, zpow_zero, mul_one, signed_natAbs]

namespace Nearest
variable {n : ℤ}

theorem toRat_lt_zero_iff (h : x.Nearest n) : x.toRat < 0 ↔ n < 0 := by
  constructor
  · intro hx
    by_contra hn
    obtain ⟨y, hy⟩ := exists_toRat_eq (n := 0) (by decide)
    rw [Int.cast_zero] at hy
    have hle : y.toRat ≤ x.toRat := h.le_toRat (by rw [hy]; exact_mod_cast not_lt.1 hn)
    linarith
  · intro hn
    obtain ⟨y, hy⟩ := exists_toRat_eq (n := -1) (by decide)
    have hle : x.toRat ≤ y.toRat := h.toRat_le (by rw [hy]; exact_mod_cast Int.le_sub_one_of_lt hn)
    rw [hy] at hle
    norm_num at hle
    linarith

theorem isWhole (h : x.Nearest n) : x.isWhole = true := by
  by_cases hn : n.natAbs < 2 ^ 53
  · obtain ⟨y, hy⟩ := exists_toRat_eq hn
    exact isWhole_iff.2 ⟨n, h.toRat_eq hy⟩
  · apply isWhole_of_le
    rcases Int.le_total 0 n with hpos | hneg
    · obtain ⟨y, hy⟩ := exists_toRat_eq (n := 2 ^ 52) (by decide)
      have hle : y.toRat ≤ x.toRat := h.le_toRat (by rw [hy]; exact_mod_cast (by omega : 2 ^ 52 ≤ n))
      rw [hy] at hle
      refine le_trans ?_ (le_abs_self _)
      exact_mod_cast hle
    · obtain ⟨y, hy⟩ := exists_toRat_eq (n := -2 ^ 52) (by decide)
      have hle : x.toRat ≤ y.toRat := h.toRat_le (by rw [hy]; exact_mod_cast (by omega : n ≤ -2 ^ 52))
      rw [hy] at hle
      refine le_trans ?_ (neg_le_abs _)
      push_cast at hle
      linarith

end Nearest

end Binary64

namespace Number

theorem exists_ofInt? {n : ℤ} (h : -2 ^ 63 ≤ n ∧ n < 2 ^ 64) : ∃ x, Binary64.ofInt? n = some x := by
  refine Binary64.exists_ofFraction? _ (by decide) ?_
  have hn : n.natAbs < 2 ^ 64 := by omega
  have hlt : ((n.natAbs : ℕ) : ℚ) < 2 ^ (64 : ℤ) := by exact_mod_cast hn
  rw [Nat.cast_one, div_one]
  exact hlt.trans (zpow_lt_zpow_right₀ (by norm_num) (by norm_num))

/-- The floating-point form of a number is nearest to it. -/
theorem nearest_toBinary64 (n : Number) : n.toBinary64.Nearest n.toRat := by
  cases n with
  | whole n h =>
    obtain ⟨x, hx⟩ := exists_ofInt? h
    obtain ⟨-, hnear⟩ := Binary64.nearest_of_ofFraction? (by decide) hx
    rw [Nat.cast_one, div_one, Binary64.signed_natAbs] at hnear
    rwa [toBinary64, hx, Option.getD_some, toRat]
  | float x => exact Binary64.Nearest.of_toRat_eq rfl

end Number

end Workplan
