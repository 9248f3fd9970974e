import Workplan.Run.Work
import Workplan.Slot

/-! Tasks: the pieces of work that a run has in flight. A task waits to begin, then its handler
waits, then it is finished and the run takes note of the result. The destruction of a resource goes
through the same phases. -/
namespace Workplan
set_option autoImplicit false

def panicReport (message : String) : String :=
  s!"task N panicked with message {Text.quoted message}"

/-- What a handler will do when its waiting time is over. -/
inductive PendingAct where
  | answer (act : World → Answer Value × World)
  | create (name : String) (act : World → Answer ResourceInstance × World)

/-- How far a task has come. -/
inductive TaskPhase where
  | queued (scope : Scope) (work : Work)
  /-- The handler has been called and waits until a given time. -/
  | waiting (wake : Nat) (act : PendingAct)
  | finished (result : Except RunError WorkResult) (time : Nat)

/-- The work of a started node. -/
structure Task where
  /-- Tells the tasks and destructions of one run apart. -/
  number : Nat
  node : NodeId
  deadline : Option Nat
  phase : TaskPhase

/-- How a destruction ends. -/
inductive DestroyResult where
  | destroyed
  | failed (message : String)
  /-- The handler panicked before it had anything to wait for, and nothing is reported. -/
  | lost
deriving DecidableEq, Repr

/-- How far a destruction has come. -/
inductive DestroyPhase where
  | queued (handle : Handler ResourceInstance Unit)
  | waiting (wake : Nat) (act : World → Answer Unit × World)
  | finished (result : DestroyResult) (time : Nat)

/-- The destruction of an instance. -/
structure DestroyTask where
  /-- Tells the tasks and destructions of one run apart. -/
  number : Nat
  resource : String
  /-- The node whose success waits for the destruction. -/
  owner : Option NodeId
  inst : ResourceInstance
  phase : DestroyPhase

/-! ## Ends -/

/-- The result of a step whose handler has ended. -/
def resultOfStep : Answer Value → Except RunError WorkResult
  | .value v => .ok (.output v)
  | .error m => .error (.step m)
  | .panic m => .error (.panicked (panicReport m))

/-- The outcome of a creation whose handler has ended. -/
def resultOfCreation : Answer ResourceInstance → Except RunError ResourceInstance
  | .value i => .ok i
  | .error m => .error (.create m)
  | .panic m => .error (.panicked (panicReport m))

/-- The result of a destruction whose handler has ended. -/
def resultOfDestroy : Answer Unit → DestroyResult
  | .value () => .destroyed
  | .error m => .failed m
  | .panic m => .failed (panicReport m)

end Workplan
