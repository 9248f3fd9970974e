import Workplan.Graph.Error

/-! How a single node can fail during a run. -/
namespace Workplan
set_option autoImplicit false

/-- The failure of one node. -/
inductive RunError where
  /-- The handler of a step answered an error. -/
  | step (message : String)
  /-- The creation of a resource answered an error. -/
  | create (message : String)
  | deadlineExceeded
  | cancelled
  | inputType (mismatch : InputMismatch)
  | missingOutput (node : NodeId) (attr : String)
  | resourceUnavailable (name : String)
  | missingHandler (description : String)
  | count (e : CountError)
  | eval (e : EvalError)
  | expansion (e : BuildError)
  /-- A handler panicked; the text says how the panic was reported. -/
  | panicked (report : String)
deriving DecidableEq, Repr

namespace RunError

def message : RunError → String
  | .step cause => s!"step failed: {cause}"
  | .create cause => s!"resource creation failed: {cause}"
  | .deadlineExceeded => "deadline exceeded"
  | .cancelled => "run cancelled"
  | .inputType mismatch => mismatch.message
  | .missingOutput node attr => s!"{node.text} did not produce output '{attr}'"
  | .resourceUnavailable name => s!"resource {name} is not available"
  | .missingHandler description => s!"no handler registered for {description}"
  | .count e => e.message
  | .eval e => e.message
  | .expansion e => s!"graph expansion failed: {e.message}"
  | .panicked report => s!"worker task panicked: {report}"

end RunError

end Workplan
