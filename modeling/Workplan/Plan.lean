import Workplan.Graph.Builder

/-! Plans: the live state of a run's graph. A plan knows the status of every node and the produced
values, says which nodes can start, and skips what can no longer run. -/
namespace Workplan
set_option autoImplicit false

/-- The status of a node. -/
inductive NodeStatus where
  | pending
  | running
  | succeeded
  | failed (message : String)
  | skipped (reason : String)
deriving DecidableEq, Repr

/-- True of a status that does not change any more. -/
def NodeStatus.isTerminal : NodeStatus → Bool
  | .pending => false
  | .running => false
  | .succeeded => true
  | .failed _ => true
  | .skipped _ => true

/-- The state of a graph during a run. -/
structure Plan where
  nodes : NodeMap
  /-- The scan order: the dependency order, then the instances made during the run. -/
  order : List NodeId
  statuses : SortedMap NodeId NodeStatus
  results : SortedMap NodeId Value

namespace Plan

/-- The plan of a graph before anything has started. -/
def ofGraph (g : Graph) : Plan where
  nodes := g.nodes
  order := g.order
  statuses := g.nodes.mapValues fun _ _ => .pending
  results := .empty

def status? (p : Plan) (id : NodeId) : Option NodeStatus := p.statuses.get? id

def node? (p : Plan) (id : NodeId) : Option Node := p.nodes.get? id

def result? (p : Plan) (id : NodeId) : Option Value := p.results.get? id

def hasSucceeded (p : Plan) (id : NodeId) : Bool := p.status? id = some .succeeded

def isPending (p : Plan) (id : NodeId) : Bool := p.status? id = some .pending

def setStatus (p : Plan) (id : NodeId) (s : NodeStatus) : Plan :=
  { p with statuses := p.statuses.modify id fun _ => s }

/-! ## Readiness -/

/-- True when a pending consumer waits for nothing but resources. -/
def isDemanded (p : Plan) (resource : Node) : Bool :=
  resource.successors.toList.any fun consumer =>
    p.isPending consumer &&
      match p.node? consumer with
      | some node => node.predecessors.toList.all fun q => p.hasSucceeded q || q.isResource
      | none => false

/-- True when a node can start: it is pending, its predecessors have succeeded, and a resource is
also demanded. -/
def isReady (p : Plan) (id : NodeId) : Bool :=
  p.isPending id &&
    match p.node? id with
    | some node =>
      node.predecessors.toList.all p.hasSucceeded && (!node.isResource || p.isDemanded node)
    | none => false

/-- The first nodes that can start, at most `limit` of them. -/
def ready (p : Plan) (limit : Nat) : List NodeId := (p.order.filter p.isReady).take limit

/-! ## Progress -/

def markRunning (p : Plan) (id : NodeId) : Plan := p.setStatus id .running

/-- A node has succeeded, and its output is kept if it has one. -/
def markSucceeded (p : Plan) (id : NodeId) (output : Option Value) : Plan :=
  let p := p.setStatus id .succeeded
  match output with
  | some v => { p with results := p.results.insert id v }
  | none => p

/-- Hands out the produced values; the plan keeps none. -/
def takeResults (p : Plan) : SortedMap NodeId Value × Plan :=
  (p.results, { p with results := .empty })

def successorsOf (p : Plan) (id : NodeId) : List NodeId :=
  match p.node? id with
  | some node => node.successors.toList
  | none => []

def successorCount (p : Plan) : Nat :=
  (p.nodes.values.flatMap fun n => n.successors.toList).length

/-- Skips the pending nodes among those of the queue and the ones behind them, breadth first; at
most `fuel` nodes are looked at. Answers the skipped ones in the order of skipping, after those
already skipped. -/
def skipFrom (reason : String) : Nat → Plan → List NodeId → List NodeId → Plan × List NodeId
  | 0, p, _, skipped => (p, skipped)
  | _ + 1, p, [], skipped => (p, skipped)
  | fuel + 1, p, id :: queue, skipped =>
    if p.isPending id then
      skipFrom reason fuel (p.setStatus id (.skipped reason)) (queue ++ p.successorsOf id)
        (skipped ++ [id])
    else skipFrom reason fuel p queue skipped

/-- A node has failed: everything that depends on it is skipped. Answers what has been skipped. -/
def markFailed (p : Plan) (id : NodeId) (message : String) : Plan × List NodeId :=
  let p := p.setStatus id (.failed message)
  skipFrom s!"dependency {id.text} failed" (p.successorCount + 1) p (p.successorsOf id) []

def skipOne (reason : String) (state : Plan × List NodeId) (id : NodeId) : Plan × List NodeId :=
  if state.1.isPending id then
    (state.1.setStatus id (.skipped reason), state.2 ++ [id])
  else state

/-- Skips every pending node, in scan order. Answers what has been skipped. -/
def skipPending (p : Plan) (reason : String) : Plan × List NodeId :=
  p.order.foldl (skipOne reason) (p, [])

/-- True when a node has not reached its final status. -/
def isUnfinished (p : Plan) (id : NodeId) : Bool :=
  match p.status? id with
  | some s => !s.isTerminal
  | none => false

def liveResources (p : Plan) : List NodeId :=
  (p.nodes.values.filter fun n => p.isUnfinished n.id).flatMap Node.resources

/-- The pending resources that no unfinished node uses, in ascending order. -/
def idleResources (p : Plan) : List NodeId :=
  let live := p.liveResources
  (p.nodes.values.filter fun n => n.isResource && !live.contains n.id && p.isPending n.id).map
    fun n => n.id

def idleReason : String := "no remaining consumers"

/-- Skips the pending resources that no unfinished node uses. Answers what has been skipped. -/
def skipIdleResources (p : Plan) : Plan × List NodeId :=
  let idle := p.idleResources
  (idle.foldl (fun p id => p.setStatus id (.skipped idleReason)) p, idle)

/-- The nodes that use a resource, as far as they are known. -/
def consumersOf (p : Plan) (resource : NodeId) : SortedSet NodeId :=
  let consumers := p.nodes.values.filter fun n => n.resources.contains resource
  SortedSet.ofList (consumers.map fun n => n.id)

/-- True while a node has not reached its final status. -/
def hasWorkRemaining (p : Plan) : Bool := p.statuses.values.any fun s => !s.isTerminal

/-- The number of nodes with their final status, and of all nodes. -/
def progress (p : Plan) : Nat × Nat :=
  ((p.statuses.values.filter NodeStatus.isTerminal).length, p.statuses.size)

end Plan

end Workplan
