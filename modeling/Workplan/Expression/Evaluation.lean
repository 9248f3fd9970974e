import Workplan.Expression
import Workplan.Value.Text

/-! Evaluation: the value of an expression in a scope, which binds references to the outputs of
steps and loop variables to those of one instance. -/
namespace Workplan
set_option autoImplicit false

/-- Why an expression has no value. -/
inductive EvalError where
  | unresolvedReference (name : String)
  | unboundVariable (name : String)
deriving DecidableEq, Repr

def EvalError.message : EvalError → String
  | .unresolvedReference name => s!"no value available for {name}"
  | .unboundVariable name => s!"variable {name} is not bound"

/-- The loop variables of one instance. -/
structure LoopVars where
  index : Option Nat
  key : Option Value
  value : Option Value
deriving DecidableEq, Repr

namespace LoopVars

def none : LoopVars := ⟨.none, .none, .none⟩

instance : Inhabited LoopVars := ⟨none⟩

/-- The variables of the instance with number `i` of a counted step. -/
def count (i : Nat) : LoopVars := ⟨some i, .none, .none⟩

/-- The variables of the instance for one entry of a collection. -/
def each (i : Nat) (key value : Value) : LoopVars := ⟨some i, some key, some value⟩

/-- The value of a variable. The index counts only where there is no key. -/
def get? (vars : LoopVars) : Variable → Option Value
  | .countIndex => if vars.key.isSome then .none else vars.index.map Value.ofNat
  | .eachKey => vars.key
  | .eachValue => vars.value

end LoopVars

/-- The values that one evaluation can see. -/
structure Scope where
  /-- The latest binding of a reference counts. -/
  bindings : List (Reference × Value)
  vars : LoopVars
deriving DecidableEq, Repr

namespace Scope

def ofVars (vars : LoopVars) : Scope := ⟨[], vars⟩

def empty : Scope := ofVars LoopVars.none

instance : Inhabited Scope := ⟨empty⟩

def insert (s : Scope) (r : Reference) (v : Value) : Scope :=
  { s with bindings := (r, v) :: s.bindings }

def get? (s : Scope) (r : Reference) : Option Value := Entries.get? r s.bindings

/-- The value of a reference, or the error that it has none. -/
def resolve (s : Scope) (r : Reference) : Except EvalError Value :=
  match s.get? r with
  | some v => .ok v
  | none => .error (.unresolvedReference r.text)

/-- The value of a variable, or the error that it has none. -/
def valueOf (s : Scope) (v : Variable) : Except EvalError Value :=
  match s.vars.get? v with
  | some value => .ok value
  | none => .error (.unboundVariable v.text)

end Scope

/-- The text that a segment contributes. -/
def Segment.evaluate (scope : Scope) : Segment → Except EvalError String
  | .text s => .ok s
  | .reference r => (scope.resolve r).map Value.render
  | .variable v => (scope.valueOf v).map Value.render

/-- The text of a list of segments, up to the first that has none. -/
def Segment.evaluateAll (scope : Scope) : List Segment → Except EvalError String
  | [] => .ok ""
  | segment :: rest => do
    let s ← segment.evaluate scope
    let t ← evaluateAll scope rest
    .ok (s ++ t)

namespace Expression

mutual

/-- The value of an expression. The leftmost placeholder without a value decides the error. -/
def evaluate (scope : Scope) : Expression → Except EvalError Value
  | .literal v => .ok v
  | .reference r => scope.resolve r
  | .variable v => scope.valueOf v
  | .template segments => (Segment.evaluateAll scope segments).map .string
  | .list items => (evaluateItems scope items).map .list
  | .map entries => (evaluateEntries scope entries).map .map

def evaluateItems (scope : Scope) : List Expression → Except EvalError (List Value)
  | [] => .ok []
  | e :: rest => do
    let v ← e.evaluate scope
    let vs ← evaluateItems scope rest
    .ok (v :: vs)

def evaluateEntries (scope : Scope) :
    List (String × Expression) → Except EvalError (List (String × Value))
  | [] => .ok []
  | (k, e) :: rest => do
    let v ← e.evaluate scope
    let vs ← evaluateEntries scope rest
    .ok ((k, v) :: vs)

end

end Expression

end Workplan
