import Workplan.Number.Shortest

/-! A number of a value is a whole number of 64 bits, signed or unsigned, or a floating-point
number. The two forms are kept apart: `3` and `3.0` are different numbers with different texts. -/
namespace Workplan
set_option autoImplicit false

/-- A number: whole, between `-2 ^ 63` and `2 ^ 64 - 1`, or floating-point. -/
inductive Number where
  | whole (n : Int) (inRange : -2 ^ 63 ≤ n ∧ n < 2 ^ 64)
  | float (x : Binary64)
deriving DecidableEq, Repr

namespace Number

def ofInt? (n : Int) : Option Number :=
  if h : -2 ^ 63 ≤ n ∧ n < 2 ^ 64 then some (.whole n h) else none

/-- The whole number `n`; beyond 64 bits only the low ones are kept. -/
def ofNat (n : Nat) : Number :=
  .whole (n % 2 ^ 64 : Nat) (by omega)

instance : Inhabited Number := ⟨ofNat 0⟩

/-- The whole number, if this is one of the signed 64-bit range. -/
def toInt64? : Number → Option Int
  | .whole n _ => if n < 2 ^ 63 then some n else none
  | .float _ => none

/-- The whole number, if this is one that is not negative. -/
def toNat? : Number → Option Nat
  | .whole n _ => if 0 ≤ n then some n.toNat else none
  | .float _ => none

/-- The nearest floating-point number. Whole numbers of 64 bits never leave the format. -/
def toBinary64 : Number → Binary64
  | .whole n _ => (Binary64.ofInt? n).getD (Binary64.zero false)
  | .float x => x

/-! ## Texts -/

def zeros (n : Nat) : List Char := List.replicate n '0'

/-- Digits in positional notation: a point after the units, nothing behind it if nothing is left. -/
def positional (s : ShortestDigits) : List Char × List Char :=
  if s.exponent < 0 then
    (['0'], zeros (-s.exponent - 1).toNat ++ s.digits)
  else
    let units := s.exponent.toNat + 1
    (s.digits.take units ++ zeros (units - s.digits.length), s.digits.drop units)

/-- How the text of a floating-point number is laid out. -/
structure Layout where
  /-- The powers of ten of the first digit that are written positionally. -/
  isPositional : Int → Bool
  /-- Whether a number without a fraction still gets `.0`. -/
  keepsFraction : Bool

/-- The layout of value texts: positional from `10 ^ -5` to below `10 ^ 16`, always with a
fraction there. -/
def valueLayout : Layout := ⟨fun e => -5 ≤ e && e ≤ 15, true⟩

/-- The layout of numbers in messages: always positional, without an empty fraction. -/
def messageLayout : Layout := ⟨fun _ => true, false⟩

/-- The power of ten of the scientific form, always with its sign. -/
def exponentText (e : Int) : List Char :=
  (if e < 0 then '-' else '+') :: Nat.toDigits 10 e.natAbs

def floatChars (layout : Layout) (x : Binary64) : List Char :=
  let s := x.shortest
  let sign := if x.negative then ['-'] else []
  if layout.isPositional s.exponent then
    let (units, part) := positional s
    if part.isEmpty then
      sign ++ units ++ (if layout.keepsFraction then ['.', '0'] else [])
    else
      sign ++ units ++ '.' :: part
  else
    match s.digits with
    | [] => sign
    | [d] => sign ++ d :: 'e' :: exponentText s.exponent
    | d :: rest => sign ++ d :: '.' :: rest ++ 'e' :: exponentText s.exponent

def intChars (n : Int) : List Char :=
  (if n < 0 then ['-'] else []) ++ Nat.toDigits 10 n.natAbs

def text : Number → String
  | .whole n _ => String.ofList (intChars n)
  | .float x => String.ofList (floatChars valueLayout x)

end Number

/-- The text of a floating-point number in a message. -/
def Binary64.messageText (x : Binary64) : String :=
  String.ofList (Number.floatChars Number.messageLayout x)

end Workplan
