import Workplan.Handler
import Workplan.Shape
import Workplan.Text.Quoted

/-! The registry: the runners and resource kinds that definitions can name. -/
namespace Workplan
set_option autoImplicit false

/-- A registered runner. -/
structure Runner where
  shape : RunnerShape
  handle : Handler Call Value

/-- A registered resource kind. -/
structure ResourceKind where
  shape : ResourceShape
  create : Handler Call ResourceInstance
  destroy : Handler ResourceInstance Unit

/-- The runners and resource kinds by name. -/
structure Registry where
  runners : SortedMap String Runner
  kinds : SortedMap String ResourceKind

namespace Registry

def empty : Registry := ⟨.empty, .empty⟩

instance : Inhabited Registry := ⟨empty⟩

/-- Registers a runner, in place of one with the same name. -/
def withRunner (r : Registry) (name : String) (runner : Runner) : Registry :=
  { r with runners := r.runners.insert name runner }

/-- Registers a resource kind, in place of one with the same name. -/
def withKind (r : Registry) (name : String) (kind : ResourceKind) : Registry :=
  { r with kinds := r.kinds.insert name kind }

def runner? (r : Registry) (name : String) : Option Runner := r.runners.get? name

def kind? (r : Registry) (name : String) : Option ResourceKind := r.kinds.get? name

def describe (r : Registry) : String :=
  "Registry \x7b runners: " ++ Text.quotedList r.runners.keys ++ ", resources: " ++
    Text.quotedList r.kinds.keys ++ " \x7d"

end Registry

end Workplan
