import Workplan.Reference
import Workplan.Value

/-! Expressions: the values of a definition before anything is known about the outputs of steps.
An expression is a literal, a placeholder, a text with placeholders in it, or a list or map of
expressions. What it needs can be listed without evaluating it. -/
namespace Workplan
set_option autoImplicit false

/-- The loop variables of a replicated step. -/
inductive Variable where
  | countIndex
  | eachKey
  | eachValue
deriving DecidableEq, Repr

def Variable.text : Variable → String
  | .countIndex => "count.index"
  | .eachKey => "each.key"
  | .eachValue => "each.value"

/-- A piece of a template. -/
inductive Segment where
  | text (s : String)
  | reference (r : Reference)
  | variable (v : Variable)
deriving DecidableEq, Repr

/-- An unevaluated value. The entries of a map stand in ascending key order. -/
inductive Expression where
  | literal (v : Value)
  | reference (r : Reference)
  | variable (v : Variable)
  | template (segments : List Segment)
  | list (items : List Expression)
  | map (entries : List (String × Expression))
deriving Repr

namespace Expression

instance : Inhabited Expression := ⟨.literal .null⟩

/-! ## Occurrences -/

/-- The reference of a segment, if it is one. -/
def segmentReference? : Segment → Option Reference
  | .reference r => some r
  | _ => none

/-- The variable of a segment, if it is one. -/
def segmentVariable? : Segment → Option Variable
  | .variable v => some v
  | _ => none

mutual

/-- Every occurrence of a reference, from left to right. -/
def referenceOccurrences : Expression → List Reference
  | .literal _ => []
  | .reference r => [r]
  | .variable _ => []
  | .template segments => segments.filterMap segmentReference?
  | .list items => referenceOccurrencesOfItems items
  | .map entries => referenceOccurrencesOfEntries entries

/-- Every occurrence of a reference in a list of expressions. -/
def referenceOccurrencesOfItems : List Expression → List Reference
  | [] => []
  | e :: rest => e.referenceOccurrences ++ referenceOccurrencesOfItems rest

/-- Every occurrence of a reference in the entries of a map. -/
def referenceOccurrencesOfEntries : List (String × Expression) → List Reference
  | [] => []
  | (_, e) :: rest => e.referenceOccurrences ++ referenceOccurrencesOfEntries rest

end

mutual

/-- Every occurrence of a variable, from left to right. -/
def variableOccurrences : Expression → List Variable
  | .literal _ => []
  | .reference _ => []
  | .variable v => [v]
  | .template segments => segments.filterMap segmentVariable?
  | .list items => variableOccurrencesOfItems items
  | .map entries => variableOccurrencesOfEntries entries

/-- Every occurrence of a variable in a list of expressions. -/
def variableOccurrencesOfItems : List Expression → List Variable
  | [] => []
  | e :: rest => e.variableOccurrences ++ variableOccurrencesOfItems rest

/-- Every occurrence of a variable in the entries of a map. -/
def variableOccurrencesOfEntries : List (String × Expression) → List Variable
  | [] => []
  | (_, e) :: rest => e.variableOccurrences ++ variableOccurrencesOfEntries rest

end

/-- The elements of a list, each where it first occurs. -/
def distinct {α : Type} [DecidableEq α] : List α → List α
  | [] => []
  | a :: rest => a :: (distinct rest).filter (· ≠ a)

/-- The references of an expression, in order of first appearance. -/
def references (e : Expression) : List Reference := distinct e.referenceOccurrences

/-- The loop variables of an expression, in order of first appearance. -/
def loopVariables (e : Expression) : List Variable := distinct e.variableOccurrences

/-- True when nothing produced by a step is needed. -/
def isStatic (e : Expression) : Bool := e.references.isEmpty

end Expression

end Workplan
