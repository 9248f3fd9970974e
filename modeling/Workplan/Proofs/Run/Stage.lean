import Workplan.Proofs.Plan.Soundness
import Workplan.Run.Step

/-! Stages: a run in the middle of a turn. What happens between two waits is a chain of small moves, and
some of what the chain is about stands in no field of the run: which node has no task at the moment, and
which nodes have ended without having been released. Every invariant of runs is shown move by move. -/
namespace Workplan
set_option autoImplicit false

/-- What the work of a node has come to. -/
abbrev WorkOutcome := Except RunError WorkResult

/-- The output that goes with a result. -/
def WorkResult.output? : WorkResult → Option Value
  | .output v => some v
  | .created => none
  | .expanded _ => none

/-- A run between two moves. -/
structure Stage where
  run : Run
  expansions : Expansions
  /-- The running node that has no task: it is being started, or its task has just ended. -/
  active : Option (NodeId × Option WorkOutcome)
  /-- Nodes that have failed or been skipped and still count as users of their resources. -/
  ended : List NodeId

namespace Run

/-- The end of a node that has succeeded: it is released, and waits if that destroys something. -/
def conclude (r : Run) (id : NodeId) (output : Option Value) : Run :=
  let (r, waiting) := r.release id
  if waiting = 0 then r.settle id output
  else { r with deferred := r.deferred.insert id (waiting, output) }

/-- One of the destructions that a node waits for has ended. -/
def credit (r : Run) (owner : NodeId) : Run :=
  match r.deferred.get? owner with
  | none => r
  | some (waiting, output) =>
    if 1 < waiting then { r with deferred := r.deferred.insert owner (waiting - 1, output) }
    else { r with deferred := r.deferred.erase owner }.settle owner output

/-- What the end of a node does is told by its release, the plan and the nodes that wait. -/
theorem conclude_eq (r : Run) (id : NodeId) (output : Option Value) :
    r.conclude id output = { (r.release id).1 with
      plan := (r.conclude id output).plan
      deferred := (r.conclude id output).deferred } := by
  simp only [conclude]
  split
  next => rfl
  next => rfl

theorem credit_eq (r : Run) (owner : NodeId) :
    r.credit owner = { r with
      plan := (r.credit owner).plan
      deferred := (r.credit owner).deferred } := by
  rw [credit]
  split
  next => rfl
  next => split <;> rfl

/-- The run in which a node has been started that has no task yet. -/
def begun (r : Run) (id : NodeId) : Run :=
  { r with plan := r.plan.markRunning id }.note id .started r.now

/-- The run without one of its tasks. -/
def dropTask (r : Run) (n : Nat) : Run := { r with tasks := r.tasks.filter fun t => t.number ≠ n }

/-- The run without one of its destructions. -/
def dropDestroy (r : Run) (n : Nat) : Run :=
  { r with destroys := r.destroys.filter fun t => t.number ≠ n }

/-- What makes a node fail: it cannot be prepared, its work has failed, or its instances do not fit. -/
inductive Fails (r : Run) (E : Expansions) (id : NodeId) : Option WorkOutcome → RunError → Prop where
  | prepare {e : RunError} (h : r.prepare id = .error e) : Fails r E id none e
  | work {e : RunError} : Fails r E id (some (.error e)) e
  | expansion {vars : List LoopVars} {e : BuildError} (hE : E id = none)
    (h : r.plan.expand id vars = .error e) : Fails r E id (some (.ok (.expanded vars))) (.expansion e)

end Run

/-- The moves of a turn, other than starting a node. -/
inductive Moves : Stage → Stage → Prop where
  | note (r : Run) (E : Expansions) (a : Option (NodeId × Option WorkOutcome)) (l : List NodeId)
    (id : NodeId) (time : Nat) {kind : EventKind} (hk : kind ≠ .started) :
    Moves ⟨r, E, a, l⟩ ⟨r.note id kind time, E, a, l⟩
  /-- A destruction that has failed is remembered. -/
  | blemish (r : Run) (E : Expansions) (e : DestroyError) :
    Moves ⟨r, E, none, []⟩ ⟨{ r with destroyErrors := r.destroyErrors ++ [e] }, E, none, []⟩
  /-- The run takes note of a task that has ended. -/
  | collect {r : Run} (E : Expansions) {t : Task} (ht : t ∈ r.tasks) {result : WorkOutcome}
    {time : Nat} (hf : t.phase = .finished result time) :
    Moves ⟨r, E, none, []⟩ ⟨r.dropTask t.number, E, some (t.node, some result), []⟩
  | enqueue {r : Run} (E : Expansions) {id : NodeId} {t : Task} (h : r.prepare id = .ok t)
    (hlimit : r.tasks.length < r.settings.limit) :
    Moves ⟨r, E, some (id, none), []⟩
      ⟨{ r with tasks := r.tasks ++ [t], next := r.next + 1 }, E, none, []⟩
  | expand {r : Run} {E : Expansions} {id : NodeId} {vars : List LoopVars} {p : Plan}
    {children : List NodeId} (hE : E id = none) (h : r.plan.expand id vars = .ok (p, children)) :
    Moves ⟨r, E, some (id, some (.ok (.expanded vars))), []⟩
      ⟨{ r with plan := p }.addConsumers children, E.set id vars,
        some (id, some (.ok (.expanded vars))), []⟩
  | conclude (r : Run) {E : Expansions} {id : NodeId} {w : WorkResult}
    (hE : ∀ vars, w = .expanded vars → E id = some vars) :
    Moves ⟨r, E, some (id, some (.ok w)), []⟩ ⟨r.conclude id w.output?, E, none, []⟩
  | fail {r : Run} {E : Expansions} {id : NodeId} {o : Option WorkOutcome} {e : RunError}
    (h : r.Fails E id o e) :
    Moves ⟨r, E, some (id, o), []⟩
      ⟨{ r with plan := (r.plan.markFailed id e.message).1 }.blame id e, E, none,
        (r.plan.markFailed id e.message).2 ++ [id]⟩
  | release (r : Run) (E : Expansions) (a : Option (NodeId × Option WorkOutcome)) (id : NodeId)
    (l : List NodeId) : Moves ⟨r, E, a, id :: l⟩ ⟨(r.release id).1, E, a, l⟩
  | skipIdle (r : Run) (E : Expansions) :
    Moves ⟨r, E, none, []⟩
      ⟨{ r with plan := r.plan.skipIdleResources.1 }, E, none, r.plan.skipIdleResources.2⟩
  | skipAll {r : Run} (E : Expansions) (reason : String) (h : r.accepting = false) :
    Moves ⟨r, E, none, []⟩
      ⟨{ r with plan := (r.plan.skipPending reason).1 }, E, none, (r.plan.skipPending reason).2⟩
  /-- The run notices that its caller has cancelled it. -/
  | observe {r : Run} (E : Expansions) (h : r.accepting = true) (hs : r.stopRequested = true) :
    Moves ⟨r, E, none, []⟩ ⟨{ r with cancelled := true }, E, none, []⟩
  /-- A destruction ends without a report. -/
  | lose {r : Run} (E : Expansions) {t : DestroyTask} (ht : t ∈ r.destroys) {time : Nat}
    (hf : t.phase = .finished .lost time) :
    Moves ⟨r, E, none, []⟩ ⟨r.dropDestroy t.number, E, none, []⟩
  /-- The run takes note of a destruction that nobody waits for. -/
  | discard {r : Run} (E : Expansions) {t : DestroyTask} (ht : t ∈ r.destroys)
    {result : DestroyResult} {time : Nat} (hf : t.phase = .finished result time)
    (ho : t.owner = none) : Moves ⟨r, E, none, []⟩ ⟨r.dropDestroy t.number, E, none, []⟩
  /-- The run takes note of a destruction on behalf of a node. -/
  | credit {r : Run} (E : Expansions) {t : DestroyTask} (ht : t ∈ r.destroys)
    {result : DestroyResult} {time : Nat} (hf : t.phase = .finished result time) {owner : NodeId}
    (ho : t.owner = some owner) :
    Moves ⟨r, E, none, []⟩ ⟨(r.dropDestroy t.number).credit owner, E, none, []⟩
  /-- A node stops waiting when there is no destruction left that could report. -/
  | giveUp {r : Run} (E : Expansions) (hd : r.destroys = []) {id : NodeId}
    {d : Nat × Option Value} (h : r.deferred.get? id = some d) :
    Moves ⟨r, E, none, []⟩
      ⟨{ r with deferred := r.deferred.erase id }.settle id d.2, E, none, []⟩
  /-- Nothing can start any more. -/
  | stall {r : Run} (E : Expansions) (h : r.accepting = true) (ht : r.tasks = [])
    (hd : r.deferred = .empty) (hr : ∀ id, r.plan.isReady id = false)
    (hw : r.plan.hasWorkRemaining = true) :
    Moves ⟨r, E, none, []⟩
      ⟨{ r with
        plan := (r.plan.skipPending Run.stallReason).1
        stalled := (r.plan.skipPending Run.stallReason).2 }, E, none,
        (r.plan.skipPending Run.stallReason).2⟩
  /-- The instances that are still alive are given up. -/
  | drain {r : Run} (E : Expansions) (hw : r.phase = .working) (ht : r.tasks = []) (hd : r.deferred = .empty)
    (hp : ∀ id, r.plan.isPending id = false) :
    Moves ⟨r, E, none, []⟩ ⟨(Run.spawnDestroys none
      { r with slots := r.slots.drain.2, phase := .tearingDown } r.slots.drain.1).1, E, none, []⟩
  | close {r : Run} (E : Expansions) (hp : r.phase = .tearingDown) (hd : r.destroys = []) :
    Moves ⟨r, E, none, []⟩ ⟨{ r with phase := .ended }, E, none, []⟩

/-- A node is started. -/
inductive Begins : Stage → NodeId → Stage → Prop where
  | mk {r : Run} (E : Expansions) {id : NodeId} (ha : r.accepting = true)
    (hlimit : r.tasks.length < r.settings.limit) (hr : r.plan.isReady id = true) :
    Begins ⟨r, E, none, []⟩ id
      ⟨r.begun id, E, some (id, none), []⟩

/-- A chain of moves, with the nodes that are started in it and the runs that they are started in. -/
inductive Path : Stage → List (Run × NodeId) → Stage → Prop where
  | refl (s : Stage) : Path s [] s
  | move {s t u : Stage} {l : List (Run × NodeId)} (hp : Path s l t) (h : Moves t u) : Path s l u
  | start {s t u : Stage} {l : List (Run × NodeId)} {id : NodeId} (hp : Path s l t)
    (h : Begins t id u) : Path s (l ++ [(t.run, id)]) u

namespace Path
variable {s t u : Stage} {l l' : List (Run × NodeId)}

theorem single (h : Moves s t) : Path s [] t := .move (.refl s) h

theorem trans (h : Path s l t) (h' : Path t l' u) : Path s (l ++ l') u := by
  induction h' with
  | refl => rw [List.append_nil]; exact h
  | move _ hm ih => exact .move ih hm
  | start _ hb ih =>
    rw [← List.append_assoc]
    exact .start ih hb

theorem trans_nil (h : Path s l t) (h' : Path t [] u) : Path s l u := by
  have := h.trans h'
  rwa [List.append_nil] at this

end Path

end Workplan
