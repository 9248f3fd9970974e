import Workplan.Run

/-! Reports: what is left of a run when it has ended, and how it has ended. -/
namespace Workplan
set_option autoImplicit false

/-- What is known after a run. -/
structure RunReport where
  statuses : SortedMap NodeId NodeStatus
  /-- The outputs of steps that have succeeded. -/
  results : SortedMap NodeId Value
  timeline : Timeline
  /-- Failed destructions do not fail a run. -/
  destroyErrors : List DestroyError

namespace RunReport

def ran (r : RunReport) (id : NodeId) : Bool := r.timeline.wasStarted id

/-- The number of nodes whose status has a property. -/
def count (r : RunReport) (p : NodeStatus → Bool) : Nat := (r.statuses.values.filter p).length

def isFailed : NodeStatus → Bool
  | .failed _ => true
  | _ => false

def isSkipped : NodeStatus → Bool
  | .skipped _ => true
  | _ => false

/-- How many nodes have succeeded, failed and been skipped. -/
def summary (r : RunReport) : String :=
  let succeeded := r.count fun s => s = .succeeded
  let failed := r.count isFailed
  let skipped := r.count isSkipped
  s!"{succeeded} succeeded, {failed} failed, {skipped} skipped"

end RunReport

/-- Why an execution has no success to report. -/
inductive ExecuteError where
  | build (e : BuildError)
  | failed (node : NodeId) (cause : RunError) (report : RunReport)
  | cancelled (report : RunReport)
  /-- Some nodes could never start. -/
  | stalled (pending : List NodeId) (report : RunReport)

def Run.report (r : Run) : RunReport :=
  ⟨r.plan.statuses, r.plan.results, r.timeline, r.destroyErrors⟩

def Run.outcome (r : Run) : Except ExecuteError RunReport :=
  match r.failure with
  | some (node, cause) => .error (.failed node cause r.report)
  | none =>
    if r.cancelled then .error (.cancelled r.report)
    else if r.stalled.isEmpty then .ok r.report
    else .error (.stalled r.stalled r.report)

/-! ## Causes -/

/-- An error that another one is due to. -/
inductive Cause where
  | run (e : RunError)
  | build (e : BuildError)
  | count (e : CountError)
  | expression (e : ExpressionError)
  | eval (e : EvalError)
  /-- What a handler answered. -/
  | handler (message : String)
  | elapsed
deriving DecidableEq, Repr

def Cause.message : Cause → String
  | .run e => e.message
  | .build e => e.message
  | .count e => e.message
  | .expression e => e.message
  | .eval e => e.message
  | .handler message => message
  | .elapsed => "deadline has elapsed"

def BuildError.causes : BuildError → List Cause
  | .count e => [.count e]
  | .expression e => [.expression e]
  | .eval e => [.eval e]
  | _ => []

/-- What the failure of a node is due to. -/
def RunError.causes : RunError → List Cause
  | .step message => [.handler message]
  | .create message => [.handler message]
  | .deadlineExceeded => [.elapsed]
  | .count e => [.count e]
  | .eval e => [.eval e]
  | .expansion e => .build e :: e.causes
  | _ => []

namespace ExecuteError

def message : ExecuteError → String
  | .build e => s!"build failed: {e.message}"
  | .failed node cause _ => s!"{node.text} failed: {cause.message}"
  | .cancelled _ => "run cancelled before completion"
  | .stalled pending _ =>
    let list := NodeId.commaList pending
    s!"run stalled with {pending.length} nodes unable to start: {list}"

/-- What an error is due to, the nearest cause first. -/
def causes : ExecuteError → List Cause
  | .build e => .build e :: e.causes
  | .failed _ cause _ => .run cause :: cause.causes
  | .cancelled _ => []
  | .stalled _ _ => []

/-- The report of the run, if it has begun. -/
def report? : ExecuteError → Option RunReport
  | .build _ => none
  | .failed _ _ report => some report
  | .cancelled report => some report
  | .stalled _ report => some report

def failedNode? : ExecuteError → Option NodeId
  | .failed node _ _ => some node
  | _ => none

def isBuildError : ExecuteError → Bool
  | .build _ => true
  | _ => false

end ExecuteError

end Workplan
