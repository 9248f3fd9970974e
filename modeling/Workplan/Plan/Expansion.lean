import Workplan.Plan

/-! Expansion: how the instances of a running placeholder are spliced into a plan. Bindings that
pointed at the placeholder are resolved against the instances; if one cannot be, nothing changes. -/
namespace Workplan.Plan
set_option autoImplicit false

def link (nodes : NodeMap) (n : Node) : NodeMap :=
  n.predecessors.toList.foldl
    (fun m p => m.modify p fun q => { q with successors := q.successors.insert n.id }) nodes

/-- A binding of `node` after the placeholder has been replaced by its instances. -/
def resolveBinding (node placeholder : NodeId) (instances : List NodeId) (b : Binding) :
    Except BuildError Binding :=
  if b.producers.contains placeholder then do
    let resolved ← resolveProducers node b.reference b.role instances
    .ok { b with producers := (b.producers.filter fun p => p ≠ placeholder) ++ resolved }
  else .ok b

/-- The new bindings of the successors of a placeholder. -/
def rewire (nodes : NodeMap) (placeholder : NodeId) (instances : List NodeId) :
    List NodeId → Except BuildError (List (NodeId × List Binding))
  | [] => .ok []
  | id :: rest =>
    match nodes.get? id with
    | none => rewire nodes placeholder instances rest
    | some node => do
      let bindings ← node.bindings.mapM (resolveBinding id placeholder instances)
      let others ← rewire nodes placeholder instances rest
      .ok ((id, bindings) :: others)

/-- Adds an instance: it is linked, pending and last in the scan order. -/
def addInstance (p : Plan) (n : Node) : Plan :=
  { p with
    nodes := (link p.nodes n).insert n.id n
    statuses := p.statuses.insert n.id .pending
    order := p.order ++ [n.id] }

/-- Gives a node new bindings and the predecessors that follow from them. -/
def rebind (nodes : NodeMap) (change : NodeId × List Binding) : NodeMap :=
  match nodes.get? change.1 with
  | none => nodes
  | some node =>
    let node := { node with bindings := change.2 }.withPredecessors
    link (nodes.modify change.1 fun _ => node) node

/-- The instances of a placeholder with the bindings that they inherit. -/
def instanceNodes (template : StepInstance) (inherited : List Binding) (vars : List LoopVars) :
    List Node :=
  vars.zipIdx.map fun v =>
    Node.new (NodeId.ofInstance template.step v.2) (.step (template.instantiate v.2 v.1)) inherited

/-- Splices the instances with the given loop variables in place of a running placeholder. Answers
their ids. The placeholder itself stays, without successors. -/
def expand (p : Plan) (placeholder : NodeId) (vars : List LoopVars) :
    Except BuildError (Plan × List NodeId) :=
  match p.node? placeholder with
  | none => .error (.notExpandable placeholder)
  | some node =>
    match node.kind, p.status? placeholder with
    | .expansion _ template, some .running => do
      let children := Building.instanceIds template.step vars.length
      let changes ← rewire p.nodes placeholder children node.successors.toList
      let inherited := node.bindings.filter fun b => b.role ≠ .replication
      let p := (instanceNodes template inherited vars).foldl addInstance p
      let nodes := changes.foldl rebind p.nodes
      let nodes := nodes.modify placeholder fun n => { n with successors := .empty }
      .ok ({ p with nodes := nodes }, children)
    | _, _ => .error (.notExpandable placeholder)

end Workplan.Plan
