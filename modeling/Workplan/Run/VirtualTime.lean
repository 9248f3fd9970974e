import Workplan.Run.Step

/-! Virtual time: a run in which nothing but waiting takes time. Everything that can happen at one
time happens before the next: tasks begin, those that are due end, and only then does the run take
note of them, one after the other. When everything waits, the time jumps to the next end of a
waiting. -/
namespace Workplan
set_option autoImplicit false

namespace Run

/-! ## What is due -/

/-- What can happen to a task now. A handler that is done in time wins over the deadline. -/
def taskEvent? (r : Run) (t : Task) : Option Event :=
  match t.phase with
  | .queued _ _ => some (.beginTask t.number)
  | .waiting wake _ =>
    if wake ≤ r.now then some (.finishTask t.number)
    else if r.stopRequested then some (.stopTask t.number)
    else
      match t.deadline with
      | some d => if d ≤ r.now then some (.expireTask t.number) else none
      | none => none
  | .finished _ _ => none

def destroyEvent? (r : Run) (t : DestroyTask) : Option Event :=
  match t.phase with
  | .queued _ => some (.beginDestroy t.number)
  | .waiting wake _ => if wake ≤ r.now then some (.finishDestroy t.number) else none
  | .finished _ _ => none

/-- The task that the run takes note of next. -/
def collectTask? (t : Task) : Option Event :=
  match t.phase with
  | .finished _ _ => some (.collectTask t.number)
  | _ => none

/-- The destruction that the run takes note of next. -/
def collectDestroy? (t : DestroyTask) : Option Event :=
  match t.phase with
  | .finished _ _ => some (.collectDestroy t.number)
  | _ => none

def stopEvent? (r : Run) (stopAt : Option Nat) : Option Event :=
  match stopAt with
  | some time => if time ≤ r.now && !r.stopRequested then some .requestStop else none
  | none => none

/-- The run notices a cancellation while it still starts nodes. -/
def observeEvent? (r : Run) : Option Event :=
  if r.phase = .working ∧ r.accepting ∧ r.stopRequested then some .observeStop else none

/-! ## When the next waiting ends -/

/-- The times at which a task has to be looked at again. -/
def taskTimes (t : Task) : List Nat :=
  match t.phase with
  | .waiting wake _ => wake :: t.deadline.toList
  | _ => []

/-- The times at which a destruction has to be looked at again. -/
def destroyTimes (t : DestroyTask) : List Nat :=
  match t.phase with
  | .waiting wake _ => [wake]
  | _ => []

def nextTime? (r : Run) (stopAt : Option Nat) : Option Nat :=
  let times := r.tasks.flatMap taskTimes ++ r.destroys.flatMap destroyTimes ++ stopAt.toList
  (times.filter fun t => r.now < t).min?

/-- What happens next in virtual time; nothing after the end of the run. -/
def nextEvent? (r : Run) (stopAt : Option Nat) : Option Event :=
  if r.phase = .ended then none
  else
    r.stopEvent? stopAt
      <|> r.observeEvent?
      <|> r.tasks.findSome? r.taskEvent?
      <|> r.destroys.findSome? r.destroyEvent?
      <|> r.tasks.findSome? collectTask?
      <|> r.destroys.findSome? collectDestroy?
      <|> (r.nextTime? stopAt).map .advance

def runFor (stopAt : Option Nat) : Nat → Run → Run
  | 0, r => r
  | fuel + 1, r =>
    match (r.nextEvent? stopAt).bind r.step with
    | some r => runFor stopAt fuel r
    | none => r

/-- More events than any run in virtual time has. -/
def eventLimit : Nat := 2 ^ 62

/-- Executes a graph in virtual time. The caller may have cancelled the run before, or cancels it at
a given time. -/
def execute (settings : RunSettings) (g : Graph) (stopRequested : Bool) (stopAt : Option Nat) :
    Run :=
  runFor stopAt eventLimit (ofGraph settings g stopRequested)

end Run

end Workplan
