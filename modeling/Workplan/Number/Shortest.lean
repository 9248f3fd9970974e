import Workplan.Number.Decimal

/-! The fewest decimal digits that read back as a given floating-point number, and among those the
ones nearest to it. The numbers that round to `x` form an interval around it, its ends included
exactly when the mantissa of `x` is even; the search looks for the coarsest decimal grid that has
a point in it. -/
namespace Workplan
set_option autoImplicit false

/-- Significant digits and the power of ten of their first one: `d.ddd * 10 ^ exponent`. -/
structure ShortestDigits where
  digits : List Char
  exponent : Int
deriving DecidableEq, Repr

namespace Binary64

/-- Twice the distance of a number's magnitude to its lower and its upper neighbour, halved again by
keeping all three on one grid: `(low, middle, high, den)` stand for fractions over `den`. -/
def roundingInterval (x : Binary64) : Nat × Nat × Nat × Nat :=
  let up := power 2 x.exponent
  let den := 4 * power 2 (-x.exponent)
  let middle := 4 * x.mantissa * up
  let below := if x.mantissa = 2 ^ 52 ∧ -1074 < x.exponent then up else 2 * up
  (middle - below, middle, middle + 2 * up, den)

def roundsTo (x : Binary64) (num den : Nat) : Bool :=
  let (low, _, high, d) := x.roundingInterval
  if x.mantissa % 2 = 0 then low * den ≤ num * d && num * d ≤ high * den
  else low * den < num * d && num * d < high * den

/-- The power of ten of the first digit of `num / den`, for a positive fraction. -/
def decimalExponent (num den : Nat) : Int :=
  let guess : Int := (Decimal.digitCount num : Int) - (Decimal.digitCount den : Int)
  if num * power 10 (-guess) < den * power 10 guess then guess - 1 else guess

/-- The point of the grid with step `10 ^ step` that is nearest to `x` among those that round to
`x`, as a multiple of the step; of two equally near ones the even one. -/
def gridPoint? (x : Binary64) (step : Int) : Option Nat :=
  let (num, den) := x.fraction
  let up := power 10 step
  let down := power 10 (-step)
  let lower := num * down / (den * up)
  let upper := lower + 1
  let isHit (n : Nat) : Bool := x.roundsTo (n * up) down
  let nearest := roundQuotient (num * down) (den * up)
  match isHit lower, isHit upper with
  | true, true => some nearest
  | true, false => some lower
  | false, true => some upper
  | false, false => none

/-- The first hit on the grids with `count` digits and more, at most `fuel` grids. -/
def shortestFrom (x : Binary64) (top : Int) : Nat → Nat → Nat × Int
  | _, 0 => (x.fraction.1, 0)
  | count, fuel + 1 =>
    let step := top - count + 1
    match x.gridPoint? step with
    | some n => (n, step)
    | none => shortestFrom x top (count + 1) fuel

/-- Drops zeros at the end of a list of digits. -/
def dropFinalZeros (digits : List Char) : List Char :=
  (digits.reverse.dropWhile (· = '0')).reverse

/-- The shortest digits of a positive number; zero is written with one digit. Seventeen digits tell
all numbers of the format apart. -/
def shortest (x : Binary64) : ShortestDigits :=
  if x.isZero then
    ⟨['0'], 0⟩
  else
    let top := decimalExponent x.fraction.1 x.fraction.2
    let (n, step) := shortestFrom x top 1 17
    let digits := Nat.toDigits 10 n
    ⟨dropFinalZeros digits, step + digits.length - 1⟩

end Binary64

end Workplan
