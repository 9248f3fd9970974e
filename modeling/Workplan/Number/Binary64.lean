import Workplan.Number.Power

/-! Finite numbers of the 64-bit binary format: a sign, and a mantissa times a power of two, in the
canonical form in which either the mantissa has 53 bits or the exponent is the least one. Every
operation rounds an exact quotient to the nearest such number, a tie to the even mantissa, so
nothing here depends on machine arithmetic. -/
namespace Workplan
set_option autoImplicit false

/-- The pairs of mantissa and exponent that stand for one number each. -/
def CanonicalPair (mantissa : Nat) (exponent : Int) : Prop :=
  mantissa < 2 ^ 53 ∧ -1074 ≤ exponent ∧ exponent ≤ 971 ∧
    (2 ^ 52 ≤ mantissa ∨ exponent = -1074)

instance (m : Nat) (e : Int) : Decidable (CanonicalPair m e) :=
  inferInstanceAs (Decidable (_ ∧ _ ∧ _ ∧ _))

/-- A finite 64-bit binary floating-point number. Zero has both signs. -/
structure Binary64 where
  negative : Bool
  mantissa : Nat
  exponent : Int
  canonical : CanonicalPair mantissa exponent
deriving DecidableEq, Repr

/-- The whole number nearest to `num / den`; a tie goes to the even one. -/
def roundQuotient (num den : Nat) : Nat :=
  let q := num / den
  let r := num % den
  if 2 * r < den then q else if den < 2 * r then q + 1 else q + q % 2

namespace Binary64

def zero (negative : Bool) : Binary64 := ⟨negative, 0, -1074, by decide⟩

instance : Inhabited Binary64 := ⟨zero false⟩

/-- The number with the given parts, unless it lies outside the format. A mantissa of `2 ^ 53`,
which rounding may produce, is brought back to 53 bits first. -/
def ofParts? (negative : Bool) (mantissa : Nat) (exponent : Int) : Option Binary64 :=
  let m := if mantissa = 2 ^ 53 then 2 ^ 52 else mantissa
  let e := if mantissa = 2 ^ 53 then exponent + 1 else exponent
  if h : CanonicalPair m e then some ⟨negative, m, e, h⟩ else none

/-- `num / den / 2 ^ exponent` as a fraction of whole numbers. -/
def scaledFraction (num den : Nat) (exponent : Int) : Nat × Nat :=
  (num * power 2 (-exponent), den * power 2 exponent)

/-- The exponent at which `num / den` has 53 bits before the point, or the least exponent. -/
def targetExponent (num den : Nat) : Int :=
  let guess : Int := (num.log2 : Int) - (den.log2 : Int) - 52
  let (n, d) := scaledFraction num den guess
  max (if n / d < 2 ^ 52 then guess - 1 else guess) (-1074)

/-- The number nearest to `± num / den`, or `none` where that is beyond the largest one. -/
def ofFraction? (negative : Bool) (num den : Nat) : Option Binary64 :=
  if num = 0 then
    some (zero negative)
  else
    let e := targetExponent num den
    let (n, d) := scaledFraction num den e
    ofParts? negative (roundQuotient n d) e

def ofInt? (z : Int) : Option Binary64 := ofFraction? (z < 0) z.natAbs 1

def fraction (x : Binary64) : Nat × Nat :=
  (x.mantissa * power 2 x.exponent, power 2 (-x.exponent))

def isZero (x : Binary64) : Bool := x.mantissa = 0

/-- True of the numbers below zero; zero itself is not, whatever its sign. -/
def isBelowZero (x : Binary64) : Bool := x.negative && !x.isZero

def isWhole (x : Binary64) : Bool := x.fraction.1 % x.fraction.2 = 0

def wholePart (x : Binary64) : Nat := x.fraction.1 / x.fraction.2

def truncate (x : Binary64) : Int := if x.negative then -(x.wholePart : Int) else x.wholePart

/-- True when the magnitude of `x` is below that of `y`. -/
def magnitudeLt (x y : Binary64) : Bool :=
  x.fraction.1 * y.fraction.2 < y.fraction.1 * x.fraction.2

def mul? (x y : Binary64) : Option Binary64 :=
  ofFraction? (x.negative != y.negative) (x.fraction.1 * y.fraction.1) (x.fraction.2 * y.fraction.2)

/-- The quotient, rounded; `none` also for a zero divisor. -/
def div? (x y : Binary64) : Option Binary64 :=
  if y.isZero then none
  else ofFraction? (x.negative != y.negative) (x.fraction.1 * y.fraction.2)
    (x.fraction.2 * y.fraction.1)

end Binary64

end Workplan
