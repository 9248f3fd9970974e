import Workplan.Run.Error

/-! Contexts: the cancellation and the deadline that a piece of work runs under. Contexts branch,
and what is cancelled takes everything behind it along. Times are milliseconds of one clock. -/
namespace Workplan
set_option autoImplicit false

/-- A cancellation scope, known by the branches that lead to it from its root. -/
structure CancelScope where
  path : List Nat
deriving DecidableEq, Repr, Inhabited

namespace CancelScope

/-- The scope of a new root with a given number. -/
def root (n : Nat) : CancelScope := ⟨[n]⟩

/-- The branch of a scope with a given number. -/
def branch (s : CancelScope) (n : Nat) : CancelScope := ⟨s.path ++ [n]⟩

/-- True when cancelling `s` cancels `t`: `t` is `s` or lies behind it. -/
def covers (s t : CancelScope) : Bool := s.path.isPrefixOf t.path

end CancelScope

/-- What a piece of work runs under. -/
structure RunContext where
  scope : CancelScope
  deadline : Option Nat
  /-- The node that the work belongs to. -/
  node : Option String
deriving DecidableEq, Repr

/-- The earlier of a deadline, if there is one, and another. -/
def earlierDeadline (current : Option Nat) (deadline : Nat) : Nat :=
  match current with
  | some d => min d deadline
  | none => deadline

namespace RunContext

def new (scope : CancelScope) : RunContext := ⟨scope, none, none⟩

def withDeadline (c : RunContext) (deadline : Nat) : RunContext :=
  { c with deadline := some (earlierDeadline c.deadline deadline) }

def withTimeout (c : RunContext) (now timeout : Nat) : RunContext := c.withDeadline (now + timeout)

/-- A context that can be cancelled alone, and is cancelled with the one it comes from. -/
def child (c : RunContext) (n : Nat) : RunContext := { c with scope := c.scope.branch n }

/-- The context of one node, possibly with a timeout of its own. It is cancelled together with the
one it comes from, in both directions. -/
def forNode (c : RunContext) (node : String) (now : Nat) (timeout : Option Nat) : RunContext :=
  let c := { c with node := some node }
  match timeout with
  | some t => c.withTimeout now t
  | none => c

end RunContext

end Workplan
