import Workplan.Value
import Workplan.Yaml.Node
import Workplan.Yaml.Scalar.Typing

/-! The values of nodes. Local tags have no meaning for values, and what lies outside the range of
values has none. -/
namespace Workplan.Yaml
set_option autoImplicit false

/-- The value of a scalar outside the range of values is none; numbers that are not finite are
null. -/
def ScalarValue.value? : ScalarValue → Option Value
  | .null | .nonFinite _ => some .null
  | .bool b => some (.bool b)
  | .number n => some (.number n)
  | .wide => none
  | .text s => some (.string s)

namespace Node

def refuseLocal (p : Properties) : StateT Nat Option Unit :=
  if p.tag.any Tag.isLocal then failure else pure ()

/-- The value of a node in which at most `depth` collections stand inside each other. The state says
how many aliases may be followed. Of entries with one key the last counts. -/
def value? (anchored : List (Nat × Node)) : Nat → Node → StateT Nat Option Value
  | depth, n => do
    match ← n.follow anchored, depth with
    | .scalar p style text, _ =>
      refuseLocal p
      (ScalarValue.ofScalar? p.tag style text).bind ScalarValue.value?
    | .list p items, depth + 1 =>
      refuseLocal p
      return .list (← items.mapM (value? anchored depth))
    | .map p entries, depth + 1 =>
      refuseLocal p
      let entries ← entries.mapM fun e => do
        let key ← e.1.follow anchored
        return (← key.text?, ← value? anchored depth e.2)
      return Value.ofEntries entries
    | _, _ => failure

end Node

end Workplan.Yaml
