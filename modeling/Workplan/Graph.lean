import Workplan.NodeId
import Workplan.Replication

/-! Execution graphs: nodes for step instances, for steps whose instances are not known yet, and
for resources, with the bindings that connect them. -/
namespace Workplan
set_option autoImplicit false

/-- Why a node depends on a reference. -/
inductive BindingRole where
  /-- The value flows into an argument. -/
  | argument
  /-- The value decides the instances. -/
  | replication
  /-- Only the order counts. -/
  | explicit
  /-- The resource is handed to the runner. -/
  | uses
deriving DecidableEq, Repr

/-- True when the value of the producer is read. -/
def BindingRole.readsValue : BindingRole → Bool
  | .argument => true
  | .replication => true
  | .explicit => false
  | .uses => false

/-- A reference together with the nodes that produce it. -/
structure Binding where
  reference : Reference
  role : BindingRole
  producers : List NodeId
deriving DecidableEq, Repr

/-- One runnable instance of a step. -/
structure StepInstance where
  step : String
  index : Option Nat
  runner : String
  arguments : SortedMap String Expression
  vars : LoopVars
  /-- The names of the resources it uses. -/
  uses : List String
  timeoutMs : Option Nat
  retry : Option RetryPolicy

namespace StepInstance

/-- The instance of a step with a given number and loop variables. -/
def ofDefinition (step : StepDefinition) (index : Option Nat) (vars : LoopVars) : StepInstance where
  step := step.name
  index := index
  runner := step.runner
  arguments := step.arguments
  vars := vars
  uses := step.uses.map fun r => r.target.name
  timeoutMs := step.timeoutMs
  retry := step.retry

/-- A copy of the template for the instance with number `i`. -/
def instantiate (template : StepInstance) (i : Nat) (vars : LoopVars) : StepInstance :=
  { template with index := some i, vars := vars }

end StepInstance

/-- What a node stands for. -/
inductive NodeKind where
  | step (inst : StepInstance)
  /-- A step whose instances are made during the run. -/
  | expansion (replication : Replication) (template : StepInstance)
  | resource (name kind : String) (arguments : SortedMap String Expression)

/-- A vertex of an execution graph. -/
structure Node where
  id : NodeId
  kind : NodeKind
  bindings : List Binding
  predecessors : SortedSet NodeId
  successors : SortedSet NodeId

namespace Node

def isResource (n : Node) : Bool :=
  match n.kind with
  | .resource _ _ _ => true
  | _ => false

/-- True of steps whose instances are made during the run. -/
def isExpansion (n : Node) : Bool :=
  match n.kind with
  | .expansion _ _ => true
  | _ => false

/-- True when the producers of a binding gate a node. A placeholder does not wait for its
resources: its instances need them, and there may be none. -/
def gates (isExpansion : Bool) (b : Binding) : Bool := !(isExpansion && b.role = .uses)

def edgeProducers (n : Node) : List NodeId :=
  (n.bindings.filter (gates n.isExpansion)).flatMap fun b => b.producers

/-- The node with its predecessors taken from its bindings. -/
def withPredecessors (n : Node) : Node :=
  { n with predecessors := SortedSet.ofList n.edgeProducers }

def new (id : NodeId) (kind : NodeKind) (bindings : List Binding) : Node :=
  Node.withPredecessors ⟨id, kind, bindings, .empty, .empty⟩

def resources (n : Node) : List NodeId :=
  (n.bindings.filter fun b => b.role = .uses).flatMap fun b => b.producers

def describe (n : Node) : String :=
  match n.kind with
  | .step inst => s!"runner {inst.runner}"
  | .expansion _ template => s!"runner {template.runner} (expanded at run time)"
  | .resource _ kind _ => s!"kind {kind}"

end Node

abbrev NodeMap := SortedMap NodeId Node

/-- An execution graph with its nodes in dependency order. -/
structure Graph where
  nodes : NodeMap
  order : List NodeId

namespace Graph

def node? (g : Graph) (id : NodeId) : Option Node := g.nodes.get? id

def orderedNodes (g : Graph) : List Node := g.order.filterMap g.node?

def size (g : Graph) : Nat := g.nodes.size

def isEmpty (g : Graph) : Bool := g.nodes.toList.isEmpty

def edgeCount (g : Graph) : Nat :=
  (g.nodes.values.flatMap fun n => n.predecessors.toList).length

end Graph

end Workplan
