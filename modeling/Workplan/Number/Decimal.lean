import Workplan.Number.Binary64

/-! Reading whole and fractional numbers from their decimal text. A fractional text is first read
exactly, as a coefficient and a power of ten, and rounded once at the end. -/
namespace Workplan
set_option autoImplicit false

/-- The value of a digit in a base up to sixteen; letters count in both cases. -/
def digitValue? (base : Nat) (c : Char) : Option Nat :=
  let n := c.toNat
  let v :=
    if '0' ≤ c ∧ c ≤ '9' then n - '0'.toNat
    else if 'a' ≤ c ∧ c ≤ 'z' then n - 'a'.toNat + 10
    else if 'A' ≤ c ∧ c ≤ 'Z' then n - 'A'.toNat + 10
    else base
  if v < base then some v else none

/-- The number that `digits` writes in a base, after the digits of `start`. -/
def readDigitsFrom? (base : Nat) : Nat → List Char → Option Nat
  | start, [] => some start
  | start, c :: cs => (digitValue? base c).bind fun d => readDigitsFrom? base (base * start + d) cs

/-- The number that a non-empty list of digits writes. -/
def readDigits? (base : Nat) (digits : List Char) : Option Nat :=
  if digits.isEmpty then none else readDigitsFrom? base 0 digits

/-- A whole number below `bound`: digits, with an optional plus sign before them. -/
def readNatBelow? (base bound : Nat) (cs : List Char) : Option Nat :=
  let digits := match cs with
    | '+' :: rest => rest
    | _ => cs
  (readDigits? base digits).filter (· < bound)

/-- A whole number of the signed 64-bit range: digits, with an optional sign before them. -/
def readInt64? (base : Nat) (cs : List Char) : Option Int :=
  match cs with
  | '-' :: digits =>
    ((readDigits? base digits).filter (· ≤ 2 ^ 63)).map fun n => -(n : Int)
  | _ => (readNatBelow? base (2 ^ 63) cs).map fun n => (n : Int)

/-- An exact decimal number, `± coefficient * 10 ^ exponent`. -/
structure Decimal where
  negative : Bool
  coefficient : Nat
  exponent : Int
deriving DecidableEq, Repr

namespace Decimal

/-- The characters up to the first that is no decimal digit, and the rest. -/
def spanDigits (cs : List Char) : List Char × List Char := cs.span Char.isDigit

/-- The power of ten behind an `e`: optional sign, then digits. Nothing at all is zero. -/
def readExponent? : List Char → Option Int
  | [] => some 0
  | c :: rest =>
    if c = 'e' ∨ c = 'E' then
      match rest with
      | '-' :: digits => (readDigits? 10 digits).map fun n => -(n : Int)
      | '+' :: digits => (readDigits? 10 digits).map fun n => (n : Int)
      | digits => (readDigits? 10 digits).map fun n => (n : Int)
    else none

/-- Reads an unsigned number: digits with at most one point among or beside them, at least one
digit, then an optional power of ten. -/
def readUnsigned? (negative : Bool) (cs : List Char) : Option Decimal :=
  let (whole, afterWhole) := spanDigits cs
  let (part, rest) := match afterWhole with
    | '.' :: tail => spanDigits tail
    | _ => ([], afterWhole)
  match readDigits? 10 (whole ++ part), readExponent? rest with
  | some n, some e => some ⟨negative, n, e - part.length⟩
  | _, _ => none

def read? : List Char → Option Decimal
  | '+' :: rest => readUnsigned? false rest
  | '-' :: rest => readUnsigned? true rest
  | cs => readUnsigned? false cs

/-- The number of decimal digits of a whole number; zero has none. -/
def digitCount (n : Nat) : Nat := if n = 0 then 0 else (Nat.toDigits 10 n).length

/-- The nearest floating-point number, or `none` beyond the largest one. Powers of ten far outside
the format are settled without being computed: from `10 ^ 310` on nothing is finite, and below
`10 ^ -330` everything rounds to zero. -/
def toBinary64? (d : Decimal) : Option Binary64 :=
  let magnitude : Int := digitCount d.coefficient + d.exponent
  if d.coefficient = 0 ∨ magnitude < -330 then
    some (Binary64.zero d.negative)
  else if 310 < magnitude then
    none
  else
    Binary64.ofFraction? d.negative (d.coefficient * power 10 d.exponent)
      (power 10 (-d.exponent))

end Decimal

def Binary64.read? (cs : List Char) : Option Binary64 :=
  (Decimal.read? cs).bind Decimal.toBinary64?

end Workplan
