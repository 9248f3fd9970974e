import Workplan.Value.Kind

/-! Shapes: the inputs, outputs and resource kinds that a runner declares, the inputs that a
resource kind declares, and the checks of arguments against them. -/
namespace Workplan
set_option autoImplicit false

/-- One declared input. -/
structure InputSpec where
  name : String
  kind : ValueKind
  required : Bool
deriving DecidableEq, Repr

/-- The declared shape of a runner. -/
structure RunnerShape where
  inputs : List InputSpec
  outputs : List String
  uses : List String
deriving DecidableEq, Repr, Inhabited

def RunnerShape.hasOutput (shape : RunnerShape) (name : String) : Bool :=
  shape.outputs.contains name

/-- The declared shape of a resource kind. -/
structure ResourceShape where
  inputs : List InputSpec
deriving DecidableEq, Repr, Inhabited

/-- How a definition can miss the shape of its runner or kind. -/
inductive ShapeFault where
  | unknownInput (name : String)
  | missingInput (name : String)
  | refusedKind (runner kind : String)
deriving DecidableEq, Repr

def ShapeFault.message : ShapeFault → String
  | .unknownInput name => s!"unknown input '{name}'"
  | .missingInput name => s!"missing required input '{name}'"
  | .refusedKind runner kind => s!"runner '{runner}' does not accept resource kind '{kind}'"

/-- An argument whose value cannot be converted to the declared kind. -/
structure InputMismatch where
  input : String
  expected : ValueKind
  found : String
deriving DecidableEq, Repr

def InputMismatch.message (m : InputMismatch) : String :=
  let expected := m.expected.describe
  s!"argument '{m.input}' must be {expected}, but got {m.found}"

namespace InputSpec

/-- Checks argument names against declared inputs and answers the first fault: unknown names in
the order of the arguments, then missing ones in the order of the declarations. -/
def check (inputs : List InputSpec) (names : List String) : Except ShapeFault Unit :=
  match names.find? fun n => !inputs.any fun i => i.name = n with
  | some n => .error (.unknownInput n)
  | none =>
    match inputs.find? fun i => i.required && !names.contains i.name with
    | some i => .error (.missingInput i.name)
    | none => .ok ()

/-- The kind of the first declaration of an input; undeclared inputs take any value. -/
def kindOf (inputs : List InputSpec) (name : String) : ValueKind :=
  match inputs.find? fun i => i.name = name with
  | some i => i.kind
  | none => .any

def coerceArgument (inputs : List InputSpec) (name : String) (v : Value) :
    Except InputMismatch Value :=
  match (kindOf inputs name).coerce v with
  | some w => .ok w
  | none => .error ⟨name, kindOf inputs name, v.typeName⟩

/-- Converts arguments to their declared kinds, up to the first that does not fit. -/
def coerceArguments (inputs : List InputSpec) :
    List (String × Value) → Except InputMismatch (List (String × Value))
  | [] => .ok []
  | (name, v) :: rest => do
    let w ← coerceArgument inputs name v
    let ws ← coerceArguments inputs rest
    .ok ((name, w) :: ws)

end InputSpec

end Workplan
