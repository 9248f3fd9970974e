import Workplan.Expression
import Workplan.Text.Blank

/-! Definitions: the declared steps and resources of a workflow, with nothing evaluated yet. -/
namespace Workplan
set_option autoImplicit false

/-- How often a step would be tried. Runs accept the setting and try every step once. -/
structure RetryPolicy where
  maxAttempts : Nat
  backoffMs : Nat
deriving DecidableEq, Repr

/-- The declaration of a step. -/
structure StepDefinition where
  name : String
  runner : String
  /-- The argument expressions by input name. -/
  arguments : SortedMap String Expression
  /-- The number of instances. -/
  count : Option Expression
  /-- The collection with one instance for every entry. -/
  forEach : Option Expression
  /-- Steps that must come first. -/
  dependsOn : List Reference
  /-- Resources handed to the runner. -/
  uses : List Reference
  /-- The time that one instance may take. -/
  timeoutMs : Option Nat
  retry : Option RetryPolicy

/-- The declaration of a shared resource. -/
structure ResourceDefinition where
  name : String
  kind : String
  /-- The argument expressions of the creation. -/
  arguments : SortedMap String Expression

/-- All declarations of one run. -/
structure Definitions where
  resources : List ResourceDefinition
  steps : List StepDefinition

namespace StepDefinition

/-- A step with a name and a runner; blanks at their ends do not count. -/
def new (name runner : String) : StepDefinition :=
  ⟨Text.trim name, Text.trim runner, .empty, none, none, [], [], none, none⟩

def withArgument (s : StepDefinition) (name : String) (e : Expression) : StepDefinition :=
  { s with arguments := s.arguments.insert name e }

def withCount (s : StepDefinition) (e : Expression) : StepDefinition := { s with count := some e }

def withForEach (s : StepDefinition) (e : Expression) : StepDefinition :=
  { s with forEach := some e }

def dependingOn (s : StepDefinition) (r : Reference) : StepDefinition :=
  { s with dependsOn := s.dependsOn ++ [r] }

def withUse (s : StepDefinition) (r : Reference) : StepDefinition :=
  { s with uses := s.uses ++ [r] }

def withTimeout (s : StepDefinition) (ms : Nat) : StepDefinition := { s with timeoutMs := some ms }

/-- True when the step declares a number of instances or a collection. -/
def isReplicated (s : StepDefinition) : Bool := s.count.isSome || s.forEach.isSome

def replicationExpressions (s : StepDefinition) : List Expression :=
  s.count.toList ++ s.forEach.toList

def expressions (s : StepDefinition) : List Expression :=
  s.arguments.values ++ s.replicationExpressions

end StepDefinition

namespace ResourceDefinition

/-- A resource with a name and a kind; blanks at their ends do not count. -/
def new (name kind : String) : ResourceDefinition := ⟨Text.trim name, Text.trim kind, .empty⟩

def withArgument (r : ResourceDefinition) (name : String) (e : Expression) : ResourceDefinition :=
  { r with arguments := r.arguments.insert name e }

end ResourceDefinition

namespace Definitions

def empty : Definitions := ⟨[], []⟩

instance : Inhabited Definitions := ⟨empty⟩

def withStep (d : Definitions) (s : StepDefinition) : Definitions :=
  { d with steps := d.steps ++ [s] }

def withResource (d : Definitions) (r : ResourceDefinition) : Definitions :=
  { d with resources := d.resources ++ [r] }

def step? (d : Definitions) (name : String) : Option StepDefinition :=
  d.steps.find? fun s => s.name = name

def resource? (d : Definitions) (name : String) : Option ResourceDefinition :=
  d.resources.find? fun r => r.name = name

def isEmpty (d : Definitions) : Bool := d.steps.isEmpty && d.resources.isEmpty

end Definitions

end Workplan
