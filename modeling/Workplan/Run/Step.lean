import Workplan.Run

/-! Steps: everything that can happen while a run waits. The events leave the order of tasks and
destructions open: a task can begin, end, pass its deadline or be stopped whenever its phase allows
it, and the run takes note of finished tasks in any order. -/
namespace Workplan
set_option autoImplicit false

/-- What can happen while a run waits. Tasks and destructions are told apart by their numbers. -/
inductive Event where
  /-- A task begins: its input is evaluated and its handler is called. -/
  | beginTask (task : Nat)
  /-- The handler of a task ends. -/
  | finishTask (task : Nat)
  /-- A task passes its deadline. -/
  | expireTask (task : Nat)
  /-- A task stops because the run has been told to stop. -/
  | stopTask (task : Nat)
  /-- The run takes note of a finished task. -/
  | collectTask (task : Nat)
  | beginDestroy (task : Nat)
  | finishDestroy (task : Nat)
  | collectDestroy (task : Nat)
  /-- The caller cancels the run. -/
  | requestStop
  /-- The run notices that it has been cancelled. -/
  | observeStop
  /-- Time passes until a given time. -/
  | advance (time : Nat)
deriving DecidableEq, Repr

namespace Run

/-! ## Tasks -/

def task? (r : Run) (n : Nat) : Option Task := r.tasks.find? fun t => t.number = n

def setTaskPhase (r : Run) (n : Nat) (phase : TaskPhase) : Run :=
  { r with tasks := r.tasks.map fun t => if t.number = n then { t with phase := phase } else t }

def finishWith (r : Run) (n : Nat) (result : Except RunError WorkResult) : Run :=
  r.setTaskPhase n (.finished result r.now)

/-- The handler of a task has been called. Its waiting does not begin if the run has been told to
stop. -/
def afterCall {α : Type} (r : Run) (n : Nat) (pending : (World → Answer α × World) → PendingAct) :
    Reaction α → Run
  | .panic m => r.finishWith n (.error (.panicked (panicReport m)))
  | .wait ms act =>
    if r.stopRequested then r.finishWith n (.error .cancelled)
    else r.setTaskPhase n (.waiting (r.now + ms) (pending act))

def beginStep (r : Run) (n : Nat) (node : NodeId) (scope : Scope) (runner : Runner)
    (arguments : SortedMap String Expression) (resources : SortedMap String ResourceInstance) :
    Run :=
  match Work.input runner.shape.inputs arguments scope with
  | .error e => r.finishWith n (.error e)
  | .ok input =>
    let (reaction, world) := runner.handle ⟨node, resources, input⟩ r.world
    { r with world := world }.afterCall n .answer reaction

/-- Creates a resource, unless its slot is filled already. -/
def beginCreate (r : Run) (n : Nat) (node : NodeId) (scope : Scope) (name : String)
    (kind : ResourceKind) (arguments : SortedMap String Expression) : Run :=
  match Work.input kind.shape.inputs arguments scope with
  | .error e => r.finishWith n (.error e)
  | .ok input =>
    if r.slots.needsCreation name then
      let (reaction, world) := kind.create ⟨node, .empty, input⟩ r.world
      { r with world := world }.afterCall n (.create name) reaction
    else if r.slots.contains name then r.finishWith n (.ok .created)
    else r.finishWith n (.error (.resourceUnavailable name))

def beginWork (r : Run) (n : Nat) (node : NodeId) (scope : Scope) : Work → Run
  | .step runner arguments resources => r.beginStep n node scope runner arguments resources
  | .create name kind arguments => r.beginCreate n node scope name kind arguments
  | .expand replication =>
    r.finishWith n ((Work.instances replication node.text scope).map .expanded)

/-- What a handler does when its waiting time is over. A creation that succeeds fills its slot. -/
def finishAct (r : Run) (n : Nat) : PendingAct → Run
  | .answer act =>
    let (answer, world) := act r.world
    { r with world := world }.finishWith n (resultOfStep answer)
  | .create name act =>
    let (answer, world) := act r.world
    let (outcome, slots) := r.slots.acquire name (resultOfCreation answer)
    { r with world := world, slots := slots }.finishWith n (outcome.map fun _ => .created)

/-! ## Destructions -/

def destroy? (r : Run) (n : Nat) : Option DestroyTask := r.destroys.find? fun t => t.number = n

def setDestroyPhase (r : Run) (n : Nat) (phase : DestroyPhase) : Run :=
  { r with
    destroys := r.destroys.map fun t => if t.number = n then { t with phase := phase } else t }

/-- Calls the handler of a destruction. Nothing stops a destruction. -/
def callDestroy (r : Run) (n : Nat) (inst : ResourceInstance)
    (handle : Handler ResourceInstance Unit) : Run :=
  let (reaction, world) := handle inst r.world
  let r := { r with world := world }
  match reaction with
  | .panic _ => r.setDestroyPhase n (.finished .lost r.now)
  | .wait ms act => r.setDestroyPhase n (.waiting (r.now + ms) act)

/-! ## Events -/

/-- Goes on after a destruction has been noted: the next turn, or the end. -/
def resume (r : Run) : Run :=
  match r.phase with
  | .working => r.turn
  | .tearingDown => r.endIfQuiet
  | .ended => r

/-- The run after an event; `none` if the event cannot happen. -/
def step (r : Run) : Event → Option Run
  | .beginTask n =>
    match r.task? n with
    | some ⟨_, node, _, .queued scope work⟩ => some (r.beginWork n node scope work)
    | _ => none
  | .finishTask n =>
    match r.task? n with
    | some ⟨_, _, _, .waiting _ act⟩ => some (r.finishAct n act)
    | _ => none
  | .expireTask n =>
    match r.task? n with
    | some ⟨_, _, some _, .waiting _ _⟩ => some (r.finishWith n (.error .deadlineExceeded))
    | _ => none
  | .stopTask n =>
    match r.task? n with
    | some ⟨_, _, _, .waiting _ _⟩ =>
      if r.stopRequested then some (r.finishWith n (.error .cancelled)) else none
    | _ => none
  | .collectTask n =>
    match r.task? n with
    | some ⟨_, node, _, .finished result time⟩ =>
      let r := { r with tasks := r.tasks.filter fun t => t.number ≠ n }
      some (r.complete node result time).turn
    | _ => none
  | .beginDestroy n =>
    match r.destroy? n with
    | some ⟨_, _, _, inst, .queued handle⟩ => some (r.callDestroy n inst handle)
    | _ => none
  | .finishDestroy n =>
    match r.destroy? n with
    | some ⟨_, _, _, _, .waiting _ act⟩ =>
      let (answer, world) := act r.world
      let r := { r with world := world }
      some (r.setDestroyPhase n (.finished (resultOfDestroy answer) r.now))
    | _ => none
  | .collectDestroy n =>
    match r.destroy? n with
    | some t =>
      match t.phase with
      | .finished result time =>
        let r := { r with destroys := r.destroys.filter fun t => t.number ≠ n }
        some (r.recordDestroy t result time).resume
      | _ => none
    | none => none
  | .requestStop => some { r with stopRequested := true }
  | .observeStop =>
    if r.phase = .working ∧ r.accepting ∧ r.stopRequested then some r.turn else none
  | .advance time =>
    if r.now ≤ time then some { r with world := { r.world with now := time } } else none

end Run

end Workplan
