import Workplan.Graph
import Workplan.Expression.Template
import Workplan.Shape

/-! What can be wrong with definitions before anything runs. -/
namespace Workplan
set_option autoImplicit false

/-- A structural problem of definitions. -/
inductive BuildError where
  | duplicateStep (name : String)
  | duplicateResource (name : String)
  | unknownRunner (step runner : String)
  | unknownResourceKind (resource kind : String)
  | shapeMismatch (node : NodeId) (fault : ShapeFault)
  | unknownReference (node : NodeId) (reference : Reference)
  | ambiguousImplicitDependency (node : NodeId) (reference : Reference) (step : String)
    (count : Nat)
  | ambiguousDependency (node : NodeId) (reference : Reference) (step : String) (count : Nat)
  | noInstances (node : NodeId) (reference : Reference) (step : String)
  | undeclaredOutput (node : NodeId) (step runner attr : String)
  | indexOutOfRange (node : NodeId) (step : String) (index count : Nat)
  | notReplicated (node : NodeId) (step : String)
  | unexpectedVariable (node : NodeId) (var : Variable)
  | countAndForEach (step : String)
  | resourceValue (node : NodeId) (reference : Reference)
  | invalidDependency (node : NodeId) (reference : Reference)
  | invalidUses (node : NodeId) (reference : Reference)
  | cycle (nodes : List NodeId)
  | notExpandable (node : NodeId)
  | count (e : CountError)
  | expression (e : ExpressionError)
  | eval (e : EvalError)
deriving DecidableEq, Repr

def NodeId.commaList (ids : List NodeId) : String := ", ".intercalate (ids.map NodeId.text)

def BuildError.message : BuildError → String
  | .duplicateStep name => s!"duplicate step name '{name}'"
  | .duplicateResource name => s!"duplicate resource name '{name}'"
  | .unknownRunner step runner => s!"step {step}: unknown runner '{runner}'"
  | .unknownResourceKind resource kind => s!"resource {resource}: unknown resource kind '{kind}'"
  | .shapeMismatch node fault => s!"{node.text}: shape mismatch: {fault.message}"
  | .unknownReference node reference => s!"{node.text}: reference to unknown {reference.text}"
  | .ambiguousImplicitDependency node reference step n =>
    s!"{node.text}: ambiguous implicit dependency on {reference.text}: step {step} has {n} " ++
      "instances, use an index or [*]"
  | .ambiguousDependency node reference step n =>
    s!"{node.text}: ambiguous dependency on {reference.text}: step {step} has {n} " ++
      "instances, use an index or [*]"
  | .noInstances node reference step =>
    s!"{node.text}: {reference.text} refers to step {step}, which has no instances"
  | .undeclaredOutput node step runner attr =>
    s!"{node.text}: reference to undeclared output '{attr}' of step {step} (runner {runner})"
  | .indexOutOfRange node step index n =>
    s!"{node.text}: index {index} out of range for step {step} with {n} instances"
  | .notReplicated node step =>
    s!"{node.text}: step {step} is not replicated and cannot be indexed"
  | .unexpectedVariable node var => s!"{node.text}: variable {var.text} is not available here"
  | .countAndForEach step => s!"step {step}: count and for_each are mutually exclusive"
  | .resourceValue node reference =>
    s!"{node.text}: resource {reference.text} cannot be used as a value, declare it in uses"
  | .invalidDependency node reference =>
    s!"{node.text}: depends_on entry {reference.text} must name a step"
  | .invalidUses node reference => s!"{node.text}: uses entry {reference.text} must name a resource"
  | .cycle nodes =>
    let list := NodeId.commaList nodes
    s!"dependency cycle detected among: {list}"
  | .notExpandable node => s!"expansion of {node.text} is not pending"
  | .count e => e.message
  | .expression e => e.message
  | .eval e => e.message

end Workplan
