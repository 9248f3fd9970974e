import Workplan.Graph.Order
import Workplan.Graph.Validation

/-! Building: how valid definitions become an execution graph. Every step is laid out as its known
instances or as a placeholder; every reference becomes a binding to the nodes that produce it; a
resource gets a node when something uses it. -/
namespace Workplan
set_option autoImplicit false

/-- The producers of a reference to a step with known instances. -/
def resolveProducers (node : NodeId) (r : Reference) (role : BindingRole)
    (instances : List NodeId) : Except BuildError (List NodeId) :=
  let step := r.target.name
  match r.index with
  | .splat => .ok instances
  | .nth i =>
    match instances[i]? with
    | some id => .ok [id]
    | none => .error (.indexOutOfRange node step i instances.length)
  | .unindexed =>
    match instances with
    | [only] => .ok [only]
    | [] => .error (.noInstances node r step)
    | many =>
      if role = .explicit then .error (.ambiguousDependency node r step many.length)
      else .error (.ambiguousImplicitDependency node r step many.length)

/-- The nodes of a step, as far as they are known before the run. -/
inductive StepLayout where
  /-- One instance without a number. -/
  | single
  /-- Numbered instances with their loop variables. -/
  | instances (vars : List LoopVars)
  /-- Instances that are made during the run. -/
  | deferred (replication : Replication)

namespace Building

/-- The ids of the numbered instances of a step. -/
def instanceIds (step : String) (count : Nat) : List NodeId :=
  (List.range count).map (NodeId.ofInstance step)

/-- The layout of a step. A replication that needs no step is evaluated at once. -/
def layout (step : StepDefinition) : Except BuildError StepLayout :=
  match Replication.of? step with
  | none => .error (.countAndForEach step.name)
  | some replication =>
    match replication.expression? with
    | none => .ok .single
    | some e =>
      if replication.isDynamic then .ok (.deferred replication)
      else do
        let value ← (e.evaluate Scope.empty).mapError .eval
        let vars ← (replication.expand (NodeId.step step.name).text value).mapError .count
        .ok (.instances vars)

abbrev Layouts := List (StepDefinition × StepLayout)

/-- The layouts of all steps, up to the first that has none. -/
def layouts : List StepDefinition → Except BuildError Layouts
  | [] => .ok []
  | step :: rest => do
    let l ← layout step
    let ls ← layouts rest
    .ok ((step, l) :: ls)

/-- The layout of the last step with a name. -/
def layoutOf? (ls : Layouts) (name : String) : Option StepLayout :=
  (ls.reverse.find? fun e => e.1.name = name).map fun e => e.2

def producers (ls : Layouts) (node : NodeId) (r : Reference) (role : BindingRole) :
    Except BuildError (List NodeId) :=
  match r.target with
  | .resource name => .ok [NodeId.resource name]
  | .step name =>
    match layoutOf? ls name with
    | none => .error (.unknownReference node r)
    | some .single =>
      match r.index with
      | .nth _ => .error (.notReplicated node name)
      | _ => .ok [NodeId.step name]
    | some (.instances vars) => resolveProducers node r role (instanceIds name vars.length)
    | some (.deferred _) => .ok [NodeId.step name]

/-- Adds the binding of a reference, unless the same reference has one with the same role. -/
def pushBinding (ls : Layouts) (node : NodeId) (role : BindingRole) (bindings : List Binding)
    (r : Reference) : Except BuildError (List Binding) :=
  if bindings.any fun b => b.reference = r && b.role = role then .ok bindings
  else do
    let ids ← producers ls node r role
    .ok (bindings ++ [⟨r, role, ids⟩])

/-- Adds the bindings of references with one role, in order. -/
def pushBindings (ls : Layouts) (node : NodeId) (role : BindingRole) :
    List Reference → List Binding → Except BuildError (List Binding)
  | [], bindings => .ok bindings
  | r :: rest, bindings => do
    let bindings ← pushBinding ls node role bindings r
    pushBindings ls node role rest bindings

def referencesOf (es : List Expression) : List Reference := es.flatMap Expression.references

/-- The bindings of a step: of its replication if it is a placeholder, then of its arguments, of the
steps it depends on and of the resources it uses. -/
def stepBindings (ls : Layouts) (node : NodeId) (step : StepDefinition) (isPlaceholder : Bool) :
    Except BuildError (List Binding) := do
  let replication := if isPlaceholder then referencesOf step.replicationExpressions else []
  let bindings ← pushBindings ls node .replication replication []
  let bindings ← pushBindings ls node .argument (referencesOf step.arguments.values) bindings
  let bindings ← pushBindings ls node .explicit step.dependsOn bindings
  pushBindings ls node .uses step.uses bindings

/-- The nodes of a step to be made before the placeholders: id, number and loop variables. -/
def knownInstances (step : StepDefinition) : StepLayout → List (NodeId × Option Nat × LoopVars)
  | .single => [(NodeId.step step.name, none, LoopVars.none)]
  | .instances vars =>
    vars.zipIdx.map fun p => (NodeId.ofInstance step.name p.2, some p.2, p.1)
  | .deferred _ => []

def instanceNode (ls : Layouts) (step : StepDefinition) (i : NodeId × Option Nat × LoopVars) :
    Except BuildError Node := do
  let bindings ← stepBindings ls i.1 step false
  .ok (Node.new i.1 (.step (StepInstance.ofDefinition step i.2.1 i.2.2)) bindings)

def placeholderNode (ls : Layouts) (step : StepDefinition) (replication : Replication) :
    Except BuildError Node := do
  let id := NodeId.step step.name
  let bindings ← stepBindings ls id step true
  let template := StepInstance.ofDefinition step none LoopVars.none
  .ok (Node.new id (.expansion replication template) bindings)

def allInstances (ls : Layouts) : List (StepDefinition × NodeId × Option Nat × LoopVars) :=
  ls.flatMap fun e => (knownInstances e.1 e.2).map fun i => (e.1, i)

def allPlaceholders (ls : Layouts) : List (StepDefinition × Replication) :=
  ls.filterMap fun e =>
    match e.2 with
    | .deferred replication => some (e.1, replication)
    | _ => none

/-- The nodes of all steps: first the known instances, then the placeholders. -/
def stepNodes (ls : Layouts) : Except BuildError (List Node) := do
  let instances ← (allInstances ls).mapM fun i => instanceNode ls i.1 i.2
  let placeholders ← (allPlaceholders ls).mapM fun p => placeholderNode ls p.1 p.2
  .ok (instances ++ placeholders)

/-- The map of a list of nodes; of two nodes with one id the later counts. -/
def nodeMap (nodes : List Node) : NodeMap := SortedMap.ofList (nodes.map fun n => (n.id, n))

def resourceNode (ls : Layouts) (resource : ResourceDefinition) : Except BuildError Node := do
  let id := NodeId.resource resource.name
  let bindings ← pushBindings ls id .argument (referencesOf resource.arguments.values) []
  .ok (Node.new id (.resource resource.name resource.kind resource.arguments) bindings)

def usedResources (defs : Definitions) (steps : NodeMap) : List ResourceDefinition :=
  let used := steps.values.flatMap Node.resources
  defs.resources.filter fun r => used.contains (NodeId.resource r.name)

def linkAll (nodes : NodeMap) : NodeMap :=
  let edges := nodes.values.flatMap fun n => n.predecessors.toList.map fun p => (p, n.id)
  edges.foldl
    (fun m e => m.modify e.1 fun n => { n with successors := n.successors.insert e.2 }) nodes

def nodes (defs : Definitions) : Except BuildError NodeMap := do
  let ls ← layouts defs.steps
  let steps ← stepNodes ls
  let resources ← (usedResources defs (nodeMap steps)).mapM (resourceNode ls)
  .ok (linkAll (nodeMap (steps ++ resources)))

end Building

def Graph.build (defs : Definitions) (registry : Registry) : Except BuildError Graph := do
  defs.validate registry
  let nodes ← Building.nodes defs
  let order ← nodes.dependencyOrder
  .ok ⟨nodes, order⟩

end Workplan
