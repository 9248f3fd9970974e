import Workplan.Number.Decimal
import Workplan.Number
import Workplan.Yaml.Token

/-! The values of scalars. A plain scalar is null, a boolean or a number if it is written like one,
and a text otherwise; a tag can ask for one of these types. Quoted and block scalars are texts. -/
namespace Workplan.Yaml
set_option autoImplicit false

/-- The floating-point numbers that are not finite. -/
inductive NonFinite where
  | infinity
  | negativeInfinity
  | notANumber
deriving DecidableEq, Repr

/-- The value of a scalar. -/
inductive ScalarValue where
  | null
  | bool (b : Bool)
  | number (n : Number)
  | nonFinite (x : NonFinite)
  /-- A whole number of more than 64 and at most 128 bits. -/
  | wide
  | text (s : String)
deriving DecidableEq, Repr

namespace ScalarValue

/-- True of values that count as one key: like equality, but the two zeros are the same. -/
def same : ScalarValue → ScalarValue → Bool
  | .number (.float x), .number (.float y) => x = y || (x.isZero && y.isZero)
  | a, b => a = b

/-! ## Reading -/

def isNull (text : String) : Bool := ["null", "Null", "NULL", "~"].contains text

def bool? (text : String) : Option Bool :=
  if ["true", "True", "TRUE"].contains text then some true
  else if ["false", "False", "FALSE"].contains text then some false
  else none

def bases : List (List Char × Nat) := [(['0', 'x'], 16), (['0', 'o'], 8), (['0', 'b'], 2)]

/-- A whole number without a sign, in the base that its first characters announce. -/
def basedNumber? (cs : List Char) : Option Nat :=
  bases.findSome? fun b => if b.1.isPrefixOf cs then readDigits? b.2 (cs.drop 2) else none

def withoutSign : List Char → List Char
  | c :: rest => if c = '+' ∨ c = '-' then rest else c :: rest
  | [] => []

/-- True of digits behind a superfluous zero, which make no number. -/
def isPadded (cs : List Char) : Bool :=
  match withoutSign cs with
  | '0' :: c :: rest => (c :: rest).all Char.isDigit
  | _ => false

def unsigned? (cs : List Char) : Option Nat :=
  (basedNumber? cs).orElse fun _ => if isPadded cs then none else readDigits? 10 cs

def whole? : List Char → Option Int
  | '-' :: digits => (unsigned? digits).map fun n => -(n : Int)
  | '+' :: digits => (unsigned? digits).map fun n => (n : Int)
  | digits => (unsigned? digits).map fun n => (n : Int)

/-- A whole number as a value; one of more than 128 bits is none. -/
def int? (text : String) : Option ScalarValue :=
  (whole? text.toList).bind fun n =>
    match Number.ofInt? n with
    | some n => some (.number n)
    | none => if -2 ^ 127 ≤ n ∧ n < 2 ^ 128 then some .wide else none

/-- A floating-point number; the words for those that are not finite begin with a point. -/
def float? (text : String) : Option ScalarValue :=
  let unsigned := if text.startsWith "+" then (text.drop 1).toString else text
  if [".inf", ".Inf", ".INF"].contains unsigned then some (.nonFinite .infinity)
  else if ["-.inf", "-.Inf", "-.INF"].contains text then some (.nonFinite .negativeInfinity)
  else if [".nan", ".NaN", ".NAN"].contains text then some (.nonFinite .notANumber)
  else (Binary64.read? text.toList).map fun x => .number (.float x)

def ofPlain (text : String) : ScalarValue :=
  if text.isEmpty || isNull text then .null
  else
    match bool? text, int? text with
    | some b, _ => .bool b
    | none, some v => v
    | none, none => if isPadded text.toList then .text text else (float? text).getD (.text text)

/-- The value of a scalar by its style alone. -/
def ofStyle (style : ScalarStyle) (text : String) : ScalarValue :=
  if style = .plain then ofPlain text else .text text

/-- The value of a scalar, if it is one of the type that its tag names. Tags with a mark in front
name no type, and other tags make a text of it. -/
def ofScalar? (tag : Option Tag) (style : ScalarStyle) (text : String) : Option ScalarValue :=
  match tag with
  | none => some (ofStyle style text)
  | some t =>
    if t = Tag.ofBool then (bool? text).map .bool
    else if t = Tag.ofInt then int? text
    else if t = Tag.ofFloat then float? text
    else if t = Tag.ofNull then (if isNull text then some .null else none)
    else if t.isMarked then some (ofStyle style text)
    else some (.text text)

/-- The whole number below `2 ^ 64` that a scalar is where one is wanted: a plain scalar whatever
its tag, or a block scalar whose tag says so. -/
def natural? (tag : Option Tag) (style : ScalarStyle) (text : String) : Option Nat :=
  if style = .plain ∨ (style = .literal ∧ tag = some Tag.ofInt) then
    match whole? text.toList with
    | some (.ofNat n) => if n < 2 ^ 64 ∧ !text.startsWith "-" then some n else none
    | _ => none
  else none

end ScalarValue

end Workplan.Yaml
