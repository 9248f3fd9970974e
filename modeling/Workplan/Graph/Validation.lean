import Workplan.Graph.Error
import Workplan.Registry

/-! Validation: the checks that definitions must pass before any node is made. The first problem in
a fixed order is reported. -/
namespace Workplan
set_option autoImplicit false

/-- Checks every element of a list, up to the first that fails. -/
def checkAll {α ε : Type} (check : α → Except ε Unit) : List α → Except ε Unit
  | [] => .ok ()
  | a :: rest => do
    check a
    checkAll check rest

theorem checkAll_eq_ok_iff {α ε : Type} (check : α → Except ε Unit) (l : List α) :
    checkAll check l = .ok () ↔ ∀ a ∈ l, check a = .ok () := by
  induction l with
  | nil => simp [checkAll]
  | cons a l ih =>
    rw [checkAll, List.forall_mem_cons, ← ih]
    cases h : check a with
    | error e => simp [bind, Except.bind]
    | ok u => simp [bind, Except.bind]

/-- The first name of a list that has occurred before. -/
def firstRepeated? (seen : List String) : List String → Option String
  | [] => none
  | a :: rest => if a ∈ seen then some a else firstRepeated? (a :: seen) rest

/-- Which loop variables an expression may use. -/
inductive VariableScope where
  | none
  | count
  | each
deriving DecidableEq, Repr

namespace VariableScope

/-- The variables that the arguments of a step may use. -/
def ofStep (step : StepDefinition) : VariableScope :=
  if step.count.isSome then .count else if step.forEach.isSome then .each else .none

def allows : VariableScope → Variable → Bool
  | .count, .countIndex => true
  | .each, .eachKey => true
  | .each, .eachValue => true
  | _, _ => false

end VariableScope

namespace Validation

variable (defs : Definitions) (registry : Registry)

def checkStepNames : Except BuildError Unit :=
  match firstRepeated? [] (defs.steps.map fun s => s.name) with
  | some name => .error (.duplicateStep name)
  | none => .ok ()

def checkResourceNames : Except BuildError Unit :=
  match firstRepeated? [] (defs.resources.map fun r => r.name) with
  | some name => .error (.duplicateResource name)
  | none => .ok ()

/-- The step of a reference is declared, and so is the output that the reference names. -/
def checkStepReference (node : NodeId) (r : Reference) : Except BuildError Unit :=
  match r.target with
  | .resource _ => .ok ()
  | .step name =>
    match defs.step? name with
    | none => .error (.unknownReference node r)
    | some step =>
      match r.attr with
      | none => .ok ()
      | some attr =>
        let declared := match registry.runner? step.runner with
          | some runner => runner.shape.hasOutput attr
          | none => false
        if declared then .ok ()
        else .error (.undeclaredOutput node step.name step.runner attr)

/-- A loop variable is bound where it is used. -/
def checkVariable (node : NodeId) (vars : VariableScope) (v : Variable) : Except BuildError Unit :=
  if vars.allows v then .ok () else .error (.unexpectedVariable node v)

def checkValueReference (node : NodeId) (r : Reference) : Except BuildError Unit :=
  if r.isResource then .error (.resourceValue node r) else checkStepReference defs registry node r

/-- An expression whose value is computed from outputs of steps: first its variables, then its
references. -/
def checkExpression (node : NodeId) (vars : VariableScope) (e : Expression) :
    Except BuildError Unit := do
  checkAll (checkVariable node vars) e.loopVariables
  checkAll (checkValueReference defs registry node) e.references

def checkArguments (node : NodeId) (inputs : List InputSpec)
    (arguments : SortedMap String Expression) : Except BuildError Unit :=
  (InputSpec.check inputs arguments.keys).mapError (.shapeMismatch node)

def checkResource (resource : ResourceDefinition) : Except BuildError Unit :=
  match registry.kind? resource.kind with
  | none => .error (.unknownResourceKind resource.name resource.kind)
  | some kind => do
    let node := NodeId.resource resource.name
    checkArguments node kind.shape.inputs resource.arguments
    checkAll (checkExpression defs registry node .none) resource.arguments.values

def checkDependency (node : NodeId) (r : Reference) : Except BuildError Unit :=
  if r.isStep then checkStepReference defs registry node r else .error (.invalidDependency node r)

/-- An entry of `uses` names a resource of a kind that the runner accepts. -/
def checkUse (node : NodeId) (runnerName : String) (shape : RunnerShape) (r : Reference) :
    Except BuildError Unit :=
  if r.isResource then
    match defs.resource? r.target.name with
    | none => .error (.unknownReference node r)
    | some resource =>
      if shape.uses.contains resource.kind then .ok ()
      else .error (.shapeMismatch node (.refusedKind runnerName resource.kind))
  else .error (.invalidUses node r)

/-- A step has at most one kind of replication. -/
def checkReplication (step : StepDefinition) : Except BuildError Unit :=
  if step.count.isSome && step.forEach.isSome then .error (.countAndForEach step.name) else .ok ()

def checkStep (step : StepDefinition) : Except BuildError Unit :=
  match registry.runner? step.runner with
  | none => .error (.unknownRunner step.name step.runner)
  | some runner => do
    let node := NodeId.step step.name
    checkReplication step
    checkArguments node runner.shape.inputs step.arguments
    checkAll (checkExpression defs registry node (.ofStep step)) step.arguments.values
    checkAll (checkExpression defs registry node .none) step.replicationExpressions
    checkAll (checkDependency defs registry node) step.dependsOn
    checkAll (checkUse defs node step.runner runner.shape) step.uses

end Validation

/-- Checks definitions against a registry and reports the first problem: repeated names, then the
resources in order, then the steps in order. -/
def Definitions.validate (defs : Definitions) (registry : Registry) : Except BuildError Unit := do
  Validation.checkStepNames defs
  Validation.checkResourceNames defs
  checkAll (Validation.checkResource defs registry) defs.resources
  checkAll (Validation.checkStep defs registry) defs.steps

end Workplan
