import Workplan.Definition
import Workplan.Expression.Evaluation

/-! Replication: how the value of `count` or `for_each` turns one step into its instances. -/
namespace Workplan
set_option autoImplicit false

/-- Why a value gives no instances. -/
inductive CountError where
  | notANumber (step found : String)
  | negative (step : String)
  | fractional (step : String) (value : Binary64)
  | notACollection (step found : String)
  | tooLarge (step : String) (value : Binary64) (max : Nat)
deriving DecidableEq, Repr

def CountError.message : CountError → String
  | .notANumber step found => s!"count for step {step} must be a number, but got {found}"
  | .negative step => s!"count for step {step} cannot be negative"
  | .fractional step value =>
    let text := value.messageText
    s!"count for step {step} must be a whole number, but got {text}"
  | .notACollection step found =>
    s!"for_each for step {step} must be a list or map, but got {found}"
  | .tooLarge step value max =>
    let text := value.messageText
    s!"count for step {step} must be at most {max}, but got {text}"

/-- The largest number of instances that a count may give. -/
def maxInstances : Nat := 100000

/-- How a step is expanded into instances. -/
inductive Replication where
  /-- One instance without a number. -/
  | single
  | count (e : Expression)
  | forEach (e : Expression)

namespace Replication

/-- The replication of a step; `none` if it asks for both kinds. -/
def of? (step : StepDefinition) : Option Replication :=
  match step.count, step.forEach with
  | some _, some _ => none
  | some e, none => some (.count e)
  | none, some e => some (.forEach e)
  | none, none => some .single

def expression? : Replication → Option Expression
  | .single => none
  | .count e => some e
  | .forEach e => some e

/-- True when the instances depend on the output of a step. -/
def isDynamic (r : Replication) : Bool :=
  match r.expression? with
  | some e => !e.isStatic
  | none => false

/-- The instances of a count: a whole number from zero to `maxInstances`. -/
def countInstances (step : String) : Value → Except CountError (List LoopVars)
  | .number n =>
    let x := n.toBinary64
    if x.isBelowZero then .error (.negative step)
    else if !x.isWhole then .error (.fractional step x)
    else if maxInstances < x.wholePart then .error (.tooLarge step x maxInstances)
    else .ok ((List.range x.wholePart).map LoopVars.count)
  | v => .error (.notANumber step v.typeName)

/-- The variables for the entries of a collection, which are numbered from `start` on. -/
def eachFrom (start : Nat) : List (Value × Value) → List LoopVars
  | [] => []
  | (key, value) :: rest => .each start key value :: eachFrom (start + 1) rest

/-- The items of a list with their positions as keys. -/
def indexed (items : List Value) : List (Value × Value) :=
  items.zipIdx.map fun p => (Value.ofNat p.2, p.1)

/-- The entries of a map in ascending key order. -/
def sortedEntries (entries : List (String × Value)) : List (Value × Value) :=
  (entries.mergeSort fun a b => a.1 ≤ b.1).map fun e => (.string e.1, e.2)

/-- The instances of a collection: one for every item of a list, in order, or for every entry of a
map, in ascending key order. -/
def forEachInstances (step : String) : Value → Except CountError (List LoopVars)
  | .list items => .ok (eachFrom 0 (indexed items))
  | .map entries => .ok (eachFrom 0 (sortedEntries entries))
  | v => .error (.notACollection step v.typeName)

/-- The instances that an evaluated value gives. A single step has none of its own: it is one
instance without a number. -/
def expand (r : Replication) (step : String) (v : Value) : Except CountError (List LoopVars) :=
  match r with
  | .single => .ok []
  | .count _ => countInstances step v
  | .forEach _ => forEachInstances step v

end Replication

end Workplan
