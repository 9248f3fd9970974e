import Workplan.Reference
import Workplan.Number.Decimal
import Workplan.Text.Blank

/-! Reading references from their text, with or without the braces of a placeholder around it. -/
namespace Workplan
set_option autoImplicit false

/-- Why a text is no reference. -/
inductive ReferenceFault where
  | missingKind
  | missingName
  | unclosedIndex
  | badIndex
  | trailing
  | badAttribute
  | selectedResource
  | unknownKind (kind : String)
deriving DecidableEq, Repr

def ReferenceFault.message : ReferenceFault → String
  | .missingKind => "expected step.NAME or resource.NAME"
  | .missingName => "missing name"
  | .unclosedIndex => "unclosed index"
  | .badIndex => "index must be a whole number or *"
  | .trailing => "unexpected characters after name"
  | .badAttribute => "invalid attribute name"
  | .selectedResource => "resources cannot be indexed or have attributes"
  | .unknownKind kind => s!"unknown reference type '{kind}'"

namespace Reference

/-- The characters of names: ASCII letters and digits, underscore and hyphen. -/
def isNameChar (c : Char) : Bool := c.isAlphanum || c = '_' || c = '-'

/-- The part before the first `c` and the part behind it. -/
def splitAtChar? (c : Char) : List Char → Option (List Char × List Char)
  | [] => none
  | d :: rest =>
    if d = c then some ([], rest) else (splitAtChar? c rest).map fun p => (d :: p.1, p.2)

/-- What stands between `${` and a final `}`; a text without both stays as it is. -/
def unwrap (cs : List Char) : List Char :=
  match cs with
  | '$' :: '{' :: inner => if inner.getLast? = some '}' then inner.dropLast else cs
  | _ => cs

/-- The index that may follow a name, and the text behind it. -/
def parseIndex : List Char → Except ReferenceFault (InstanceIndex × List Char)
  | '[' :: after =>
    match splitAtChar? ']' after with
    | none => .error .unclosedIndex
    | some (inner, rest) =>
      let inner := Text.trimChars inner
      if inner = ['*'] then .ok (.splat, rest)
      else
        match readNatBelow? 10 (2 ^ 64) inner with
        | some i => .ok (.nth i, rest)
        | none => .error .badIndex
  | rest => .ok (.unindexed, rest)

/-- The attribute that the rest of a reference names. -/
def parseAttr : List Char → Except ReferenceFault (Option String)
  | [] => .ok none
  | '.' :: name =>
    if name.isEmpty || !name.all isNameChar then .error .badAttribute
    else .ok (some (String.ofList name))
  | _ => .error .trailing

/-- The target that a kind and a name give; a resource has neither index nor attribute. -/
def parseTarget (kind : List Char) (name : String) (index : InstanceIndex)
    (attr : Option String) : Except ReferenceFault Target :=
  if kind = ['s', 't', 'e', 'p'] then .ok (.step name)
  else if kind = ['r', 'e', 's', 'o', 'u', 'r', 'c', 'e'] then
    if index ≠ .unindexed ∨ attr.isSome then .error .selectedResource
    else .ok (.resource name)
  else .error (.unknownKind (String.ofList kind))

/-- Reads the characters of a reference without blanks and braces around it. -/
def parseBody (body : List Char) : Except ReferenceFault Reference := do
  match splitAtChar? '.' body with
  | none => .error .missingKind
  | some (kind, rest) =>
    let name := rest.takeWhile isNameChar
    if name.isEmpty then
      .error .missingName
    else
      let (index, rest) ← parseIndex (rest.dropWhile isNameChar)
      let attr ← parseAttr rest
      let target ← parseTarget kind (String.ofList name) index attr
      .ok ⟨target, index, attr⟩

/-- Reads a reference. Blanks are allowed at both ends and on both sides of the braces. -/
def parseChars (cs : List Char) : Except ReferenceFault Reference :=
  parseBody (Text.trimChars (unwrap (Text.trimChars cs)))

end Reference

/-- Why a text is no expression. -/
inductive ExpressionError where
  | unterminated (text : String)
  | invalidReference (text : String) (fault : ReferenceFault)
deriving DecidableEq, Repr

def ExpressionError.message : ExpressionError → String
  | .unterminated text => s!"unterminated placeholder in '{text}'"
  | .invalidReference text fault => s!"invalid reference '{text}': {fault.message}"

def Reference.parse (text : String) : Except ExpressionError Reference :=
  (Reference.parseChars text.toList).mapError (.invalidReference text)

end Workplan
