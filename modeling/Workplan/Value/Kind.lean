import Workplan.Value.Text
import Workplan.Text.Blank

/-! The declared kinds of input fields, and the conversion of a value to a kind. A conversion that
would lose something is refused. -/
namespace Workplan
set_option autoImplicit false

/-- The declared kind of an input field. -/
inductive ValueKind where
  | any
  | string
  | number
  | integer
  | bool
  | list
  | map
deriving DecidableEq, Repr

namespace ValueKind

def describe : ValueKind → String
  | .any => "any value"
  | .string => "a string"
  | .number => "a number"
  | .integer => "an integer"
  | .bool => "a bool"
  | .list => "a list"
  | .map => "a map"

/-- A whole number of the signed 64-bit range as a value. -/
def integerValue? (n : Int) : Option Value := (Number.ofInt? n).map Value.number

/-- The whole number that a floating-point number is, if its magnitude lies below `2 ^ 63`. -/
def wholeOfFloat? (x : Binary64) : Option Int :=
  if x.isWhole && x.wholePart < 2 ^ 63 then some x.truncate else none

/-- A number as a whole number of the signed 64-bit range. -/
def integerOfNumber? (n : Number) : Option Int :=
  match n.toInt64? with
  | some i => some i
  | none => wholeOfFloat? n.toBinary64

/-- The characters of a string between its outer blanks. -/
def trimmed (s : String) : List Char := Text.trimChars s.toList

/-- Converts a value to a kind, if that loses nothing. -/
def coerce : ValueKind → Value → Option Value
  | .any, v => some v
  | .string, .string s => some (.string s)
  | .string, .number n => some (.string n.text)
  | .string, .bool b => some (.string (Value.bool b).text)
  | .number, .number n => some (.number n)
  | .number, .string s => (Binary64.read? (trimmed s)).map fun x => .number (.float x)
  | .integer, .number n => (integerOfNumber? n).bind integerValue?
  | .integer, .string s => (readInt64? 10 (trimmed s)).bind integerValue?
  | .bool, .bool b => some (.bool b)
  | .bool, .string s =>
    if Text.trim s = "true" then some (.bool true)
    else if Text.trim s = "false" then some (.bool false)
    else none
  | .list, .list items => some (.list items)
  | .map, .map entries => some (.map entries)
  | _, _ => none

end ValueKind

end Workplan
