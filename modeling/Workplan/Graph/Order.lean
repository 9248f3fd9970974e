import Workplan.Graph.Error

/-! The dependency order: repeatedly, a node without waiting predecessors is taken, and its
successors wait for one node less. What is left over in the end lies on a cycle or behind one. -/
namespace Workplan
set_option autoImplicit false

/-- The state of the ordering: nodes that wait for nothing, how many predecessors every node still
waits for, and the order so far (the latest first). -/
structure OrderState where
  queue : List NodeId
  waiting : SortedMap NodeId Nat
  done : List NodeId

namespace OrderState

/-- At first every node waits for all its predecessors. -/
def start (nodes : NodeMap) : OrderState where
  queue := (nodes.values.filter fun n => n.predecessors.isEmpty).map fun n => n.id
  waiting := nodes.mapValues fun _ n => n.predecessors.size
  done := []

/-- One predecessor of a node has been placed. A node that has nothing left to wait for joins the
queue. -/
def release (s : OrderState) (successor : NodeId) : OrderState :=
  match s.waiting.get? successor with
  | some (n + 1) =>
    { s with
      waiting := s.waiting.insert successor n
      queue := if n = 0 then s.queue ++ [successor] else s.queue }
  | _ => s

def place (nodes : NodeMap) (s : OrderState) (id : NodeId) (queue : List NodeId) : OrderState :=
  let placed := { s with queue := queue, done := id :: s.done }
  match nodes.get? id with
  | some node => node.successors.toList.foldl release placed
  | none => placed

/-- Places nodes until the queue is empty, at most `fuel` of them. -/
def run (nodes : NodeMap) : Nat → OrderState → OrderState
  | 0, s => s
  | fuel + 1, s =>
    match s.queue with
    | [] => s
    | id :: queue => run nodes fuel (place nodes s id queue)

def remaining (s : OrderState) : List NodeId :=
  (s.waiting.toList.filter fun e => 0 < e.2).map fun e => e.1

end OrderState

/-- Orders nodes so that every node follows its predecessors, or reports those on and behind
cycles. -/
def NodeMap.dependencyOrder (nodes : NodeMap) : Except BuildError (List NodeId) :=
  let final := OrderState.run nodes nodes.size (OrderState.start nodes)
  if final.done.length = nodes.size then .ok final.done.reverse else .error (.cycle final.remaining)

end Workplan
