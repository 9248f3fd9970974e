import Workplan.Context
import Workplan.Plan.Expansion
import Workplan.Run.Task
import Workplan.Timeline

/-! Runs: the state of the execution of a graph, and what the run does between two of its waits. It
starts ready nodes up to the limit, takes note of finished tasks and destructions, destroys
resources behind their last consumers, and stops starting anything after the first failure or a
cancellation. A node whose end destroys resources counts as succeeded only when they are gone. -/
namespace Workplan
set_option autoImplicit false

/-- How a graph is executed. -/
structure RunSettings where
  registry : Registry
  /-- The number of nodes that may work at once; zero counts as one. -/
  parallel : Nat
  /-- The time that the whole run may take. -/
  timeout : Option Nat

/-- The number of nodes that may work at once. -/
def RunSettings.limit (s : RunSettings) : Nat := max s.parallel 1

/-- A resource whose destruction failed. -/
structure DestroyError where
  resource : String
  message : String
deriving DecidableEq, Repr

def DestroyError.describe (e : DestroyError) : String :=
  s!"destroy of resource {e.resource} failed: {e.message}"

/-- Where a run stands. -/
inductive RunPhase where
  /-- It starts nodes and waits for them. -/
  | working
  /-- It waits for the last destructions. -/
  | tearingDown
  | ended
deriving DecidableEq, Repr

/-- The state of a run. -/
structure Run where
  settings : RunSettings
  deadline : Option Nat
  plan : Plan
  slots : Slots
  world : World
  timeline : Timeline
  /-- The tasks of started nodes whose ends have not been noted yet. -/
  tasks : List Task
  /-- The destructions whose ends have not been noted yet. -/
  destroys : List DestroyTask
  /-- The number of the next task or destruction. -/
  next : Nat
  destroyErrors : List DestroyError
  /-- Nodes that have ended well, but still wait for that many destructions, with their outputs. -/
  deferred : SortedMap NodeId (Nat × Option Value)
  /-- The first failure. -/
  failure : Option (NodeId × RunError)
  /-- True once the run has noticed that its caller has cancelled it. -/
  cancelled : Bool
  /-- True once the work in flight has been told to stop. -/
  stopRequested : Bool
  /-- The nodes that could never start. -/
  stalled : List NodeId
  phase : RunPhase

namespace Run

def now (r : Run) : Nat := r.world.now

/-- True while nothing has failed and no cancellation has been noticed. -/
def accepting (r : Run) : Bool := r.failure.isNone && !r.cancelled

def note (r : Run) (node : NodeId) (kind : EventKind) (time : Nat) : Run :=
  { r with timeline := r.timeline.add node kind time }

/-! ## Releasing resources -/

/-- Starts the destruction of an instance that has been handed back. Answers whether there is a
handler for it. -/
def spawnDestroy (r : Run) (owner : Option NodeId) (released : Released) : Run × Bool :=
  match r.settings.registry.kind? released.kind with
  | none =>
    let message := s!"no handler registered for kind '{released.kind}'"
    ({ r with destroyErrors := r.destroyErrors ++ [⟨released.name, message⟩] }, false)
  | some kind =>
    let task : DestroyTask := ⟨r.next, released.name, owner, released.inst, .queued kind.destroy⟩
    ({ r with destroys := r.destroys ++ [task], next := r.next + 1 }, true)

def spawnDestroys (owner : Option NodeId) : Run → List Released → Run × Nat
  | r, [] => (r, 0)
  | r, released :: rest =>
    let (r, spawned) := r.spawnDestroy owner released
    let (r, count) := spawnDestroys owner r rest
    (r, if spawned then count + 1 else count)

/-- A node needs its resources no longer. Answers how many destructions this starts. -/
def release (r : Run) (id : NodeId) : Run × Nat :=
  let (released, slots) := r.slots.release id
  spawnDestroys (some id) { r with slots := slots } released

/-! ## Skipping -/

def recordSkippedOne (r : Run) (id : NodeId) : Run :=
  ((r.note id .skipped r.now).release id).1

def recordSkipped (r : Run) (ids : List NodeId) : Run := ids.foldl recordSkippedOne r

/-- The reason why nodes are skipped when the run stops early. -/
def cancelReason : String := "run cancelled"

/-- The reason why nodes are skipped when nothing can start any more. -/
def stallReason : String := "no runnable nodes"

def skipPending (r : Run) (reason : String) : Run × List NodeId :=
  let (plan, ids) := r.plan.skipPending reason
  ({ r with plan := plan }.recordSkipped ids, ids)

def skipIdle (r : Run) : Run :=
  let (plan, ids) := r.plan.skipIdleResources
  { r with plan := plan }.recordSkipped ids

/-- Skips everything that has not started, unless the run still starts nodes. -/
def skipUnlessAccepting (r : Run) : Run := if r.accepting then r else (r.skipPending cancelReason).1

/-! ## Ends of nodes -/

def settle (r : Run) (id : NodeId) (output : Option Value) : Run :=
  { r with plan := r.plan.markSucceeded id output }

/-- The work of a node has ended well. The node has succeeded as soon as the resources that it was
the last to use are destroyed. -/
def succeed (r : Run) (id : NodeId) (output : Option Value) (time : Nat) : Run :=
  let (r, waiting) := (r.note id .succeeded time).release id
  if waiting = 0 then r.settle id output
  else { r with deferred := r.deferred.insert id (waiting, output) }

/-- Keeps the first failure and tells the work in flight to stop. A node that was stopped only shows
that the run has been cancelled. -/
def blame (r : Run) (id : NodeId) (e : RunError) : Run :=
  if !r.accepting then r
  else if e = .cancelled then { r with cancelled := true }
  else { r with failure := some (id, e), stopRequested := true }

def fail (r : Run) (id : NodeId) (e : RunError) (time : Nat) : Run :=
  let r := r.note id .failed time
  let (plan, skipped) := r.plan.markFailed id e.message
  let r := ({ r with plan := plan }.blame id e).recordSkipped skipped
  (r.release id).1.skipUnlessAccepting

/-- The names of the resources that a step instance uses. -/
def usesOf (p : Plan) (id : NodeId) : List String :=
  match (p.node? id).map Node.kind with
  | some (.step inst) => inst.uses
  | _ => []

def addConsumers (r : Run) (children : List NodeId) : Run :=
  let uses := children.flatMap fun c => (usesOf r.plan c).map fun name => (name, c)
  { r with slots := uses.foldl (fun s e => s.addConsumers e.1 [e.2]) r.slots }

def expanded (r : Run) (id : NodeId) (vars : List LoopVars) (time : Nat) : Run :=
  match r.plan.expand id vars with
  | .error e => r.fail id (.expansion e) time
  | .ok (plan, children) =>
    let r := { r with plan := plan }.addConsumers children
    (r.succeed id none time).skipIdle.skipUnlessAccepting

def complete (r : Run) (id : NodeId) (result : Except RunError WorkResult) (time : Nat) : Run :=
  match result with
  | .ok (.output v) => r.succeed id (some v) time
  | .ok .created => r.succeed id none time
  | .ok (.expanded vars) => r.expanded id vars time
  | .error e => r.fail id e time

/-! ## Ends of destructions -/

/-- A destruction on behalf of a node has ended. After the last one the node has succeeded. -/
def destroyDone (r : Run) (owner : NodeId) : Run :=
  match r.deferred.get? owner with
  | none => r
  | some (waiting, output) =>
    if 1 < waiting then { r with deferred := r.deferred.insert owner (waiting - 1, output) }
    else ({ r with deferred := r.deferred.erase owner }.settle owner output).skipIdle

def recordDestroy (r : Run) (t : DestroyTask) (result : DestroyResult) (time : Nat) : Run :=
  let noted := r.note (NodeId.resource t.resource) .destroyed time
  let done (r : Run) : Run :=
    match t.owner with
    | some owner => r.destroyDone owner
    | none => r
  match result with
  | .lost => r
  | .destroyed => done noted
  | .failed m => done { noted with destroyErrors := noted.destroyErrors ++ [⟨t.resource, m⟩] }

/-- The nodes whose destructions can no longer report have succeeded. -/
def settleDeferred (r : Run) : Run :=
  r.deferred.toList.foldl (fun r e => r.settle e.1 e.2.2) { r with deferred := .empty }

/-! ## Starting nodes -/

/-- The live instances of the resources with given names, up to the first without one. -/
def dependencies (slots : Slots) :
    List String → Except RunError (SortedMap String ResourceInstance)
  | [] => .ok .empty
  | name :: rest =>
    match slots.instance? name with
    | none => .error (.resourceUnavailable name)
    | some i => do
      let others ← dependencies slots rest
      .ok (others.insert name i)

def workOf (registry : Registry) (slots : Slots) : NodeKind → Except RunError Work
  | .step inst =>
    match registry.runner? inst.runner with
    | none => .error (.missingHandler s!"runner '{inst.runner}'")
    | some runner => do
      let resources ← dependencies slots inst.uses
      .ok (.step runner inst.arguments resources)
  | .resource name kindName arguments =>
    match registry.kind? kindName with
    | none => .error (.missingHandler s!"resource kind '{kindName}'")
    | some kind => .ok (.create name kind arguments)
  | .expansion replication _ => .ok (.expand replication)

/-- The deadline of a node: that of the run, or an earlier one from a timeout of its own. -/
def deadlineOf (r : Run) (kind : NodeKind) : Option Nat :=
  match kind with
  | .step inst =>
    match inst.timeoutMs with
    | some ms => some (earlierDeadline r.deadline (r.now + ms))
    | none => r.deadline
  | _ => r.deadline

def prepare (r : Run) (id : NodeId) : Except RunError Task :=
  match r.plan.node? id with
  | none => .error (.eval (.unresolvedReference id.text))
  | some node => do
    let scope ← r.plan.scopeFor node
    let work ← workOf r.settings.registry r.slots node.kind
    .ok ⟨r.next, id, r.deadlineOf node.kind, .queued scope work⟩

def start (r : Run) (id : NodeId) : Run :=
  let r := { r with plan := r.plan.markRunning id }.note id .started r.now
  match r.prepare id with
  | .ok task => { r with tasks := r.tasks ++ [task], next := r.next + 1 }
  | .error e => r.fail id e r.now

def startAll : Run → List NodeId → Run
  | r, [] => r
  | r, id :: rest => if r.accepting then startAll (r.start id) rest else r

def schedule (r : Run) : Run :=
  if r.accepting then r.startAll (r.plan.ready (r.settings.limit - r.tasks.length)) else r

def observe (r : Run) : Run :=
  if r.accepting && r.stopRequested then ({ r with cancelled := true }.skipPending cancelReason).1
  else r

/-! ## Turns -/

def endIfQuiet (r : Run) : Run := if r.destroys.isEmpty then { r with phase := .ended } else r

/-- Nothing is left to wait for: whatever has not started never will, and the instances that are
still alive are destroyed. -/
def stop (r : Run) : Run :=
  let r :=
    if r.accepting && r.plan.hasWorkRemaining then
      let (r, ids) := r.skipPending stallReason
      { r with stalled := ids }
    else r
  let (released, slots) := r.slots.drain
  (spawnDestroys none { r with slots := slots, phase := .tearingDown } released).1.endIfQuiet

/-- What the run does between two waits: it starts what it can, and stops when nothing is left to
wait for. -/
def turn (r : Run) : Run :=
  let r := r.observe.schedule
  let r :=
    if r.destroys.isEmpty && !r.deferred.toList.isEmpty then r.settleDeferred.observe.schedule
    else r
  if r.tasks.isEmpty && r.deferred.toList.isEmpty then r.stop else r

def slotsOf (p : Plan) : Slots :=
  p.nodes.values.foldl (fun s n =>
    match n.kind with
    | .resource name kind _ => s.register name kind (p.consumersOf n.id).toList
    | _ => s) .empty

def new (settings : RunSettings) (g : Graph) (stopRequested : Bool) : Run where
  settings := settings
  deadline := settings.timeout
  plan := Plan.ofGraph g
  slots := slotsOf (Plan.ofGraph g)
  world := World.start
  timeline := Timeline.empty
  tasks := []
  destroys := []
  next := 0
  destroyErrors := []
  deferred := .empty
  failure := none
  cancelled := false
  stopRequested := stopRequested
  stalled := []
  phase := .working

/-- A run of a graph after its first turn. It may have been cancelled before. -/
def ofGraph (settings : RunSettings) (g : Graph) (stopRequested : Bool) : Run :=
  (new settings g stopRequested).turn

end Run

end Workplan
