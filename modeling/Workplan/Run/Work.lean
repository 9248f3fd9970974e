import Workplan.Registry
import Workplan.Run.Error
import Workplan.Plan

/-! Work: what a started node is going to do. The scope of its expressions is taken from the plan
when the node starts; the input of its handler is evaluated when the work begins. -/
namespace Workplan
set_option autoImplicit false

/-- The work of a node. -/
inductive Work where
  /-- Calls a runner with the resources it uses. -/
  | step (runner : Runner) (arguments : SortedMap String Expression)
    (resources : SortedMap String ResourceInstance)
  /-- Creates the resource with a given name. -/
  | create (name : String) (kind : ResourceKind) (arguments : SortedMap String Expression)
  /-- Evaluates the instances of a placeholder. -/
  | expand (replication : Replication)

/-- What finished work hands back. -/
inductive WorkResult where
  | output (v : Value)
  | created
  | expanded (vars : List LoopVars)
deriving DecidableEq, Repr

namespace Work

/-- The values of arguments in ascending order of their names, up to the first that has none. -/
def evaluateEach (scope : Scope) :
    List (String × Expression) → Except EvalError (List (String × Value))
  | [] => .ok []
  | (name, e) :: rest => do
    let v ← e.evaluate scope
    let vs ← evaluateEach scope rest
    .ok ((name, v) :: vs)

/-- The input of a handler: all arguments are evaluated, then all are converted to their declared
kinds. -/
def input (inputs : List InputSpec) (arguments : SortedMap String Expression) (scope : Scope) :
    Except RunError Value := do
  let values ← (evaluateEach scope arguments.toList).mapError .eval
  let coerced ← (InputSpec.coerceArguments inputs values).mapError .inputType
  .ok (.map coerced)

def instances (replication : Replication) (step : String) (scope : Scope) :
    Except RunError (List LoopVars) :=
  match replication.expression? with
  | none => .ok []
  | some e => do
    let value ← (e.evaluate scope).mapError .eval
    (replication.expand step value).mapError .count

end Work

/-! ## Scopes -/

namespace Plan

/-- What a producer contributes to a reference: its whole output, null if it has none, or one
attribute of it. -/
def outputOf (p : Plan) (producer : NodeId) : Option String → Except RunError Value
  | none => .ok ((p.result? producer).getD .null)
  | some name =>
    match (p.result? producer).bind (Value.field? name) with
    | some v => .ok v
    | none => .error (.missingOutput producer name)

/-- The outputs of several producers, up to the first that lacks the attribute. -/
def outputsOf (p : Plan) (attr : Option String) : List NodeId → Except RunError (List Value)
  | [] => .ok []
  | id :: rest => do
    let v ← p.outputOf id attr
    let vs ← outputsOf p attr rest
    .ok (v :: vs)

/-- The value of a reference, given what its producers contribute. -/
def combine (index : InstanceIndex) (values : List Value) : Value :=
  if index = .splat then .list values else values.headD .null

/-- Binds the references of bindings that read a value. -/
def bindAll (p : Plan) : List Binding → Scope → Except RunError Scope
  | [], scope => .ok scope
  | b :: rest, scope => do
    let values ← p.outputsOf b.reference.attr b.producers
    bindAll p rest (scope.insert b.reference (combine b.reference.index values))

def varsOf (n : Node) : LoopVars :=
  match n.kind with
  | .step inst => inst.vars
  | _ => LoopVars.none

def scopeFor (p : Plan) (n : Node) : Except RunError Scope :=
  p.bindAll (n.bindings.filter fun b => b.role.readsValue) (Scope.ofVars (varsOf n))

end Plan

end Workplan
