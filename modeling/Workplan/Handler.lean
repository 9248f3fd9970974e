import Workplan.NodeId
import Workplan.Value

/-! Handlers: what a runner or a resource kind does when the engine calls it. A handler is a pure
function of its call and of the world that the handlers of one run share. It reacts in two parts:
what it does at once, and what it does when its waiting time is over. -/
namespace Workplan
set_option autoImplicit false

/-- A created resource, known by the number of its shared object. -/
structure ResourceInstance where
  number : Nat
deriving DecidableEq, Repr

/-- An object that handlers share. -/
inductive SharedObject where
  /-- A counter of 64 bits. -/
  | counter (value : Nat)
  /-- The state of a scripted resource: its node and how often it has been used. -/
  | scripted (owner : String) (hits : Nat)
deriving DecidableEq, Repr

/-- What the handlers of one run share: the virtual time in milliseconds, the objects in order of
their creation, and what has been logged, the latest line first. -/
structure World where
  now : Nat
  objects : List SharedObject
  log : List (Nat × String)
deriving Inhabited

namespace World

def start : World := ⟨0, [], []⟩

def note (w : World) (line : String) : World := { w with log := (w.now, line) :: w.log }

/-- Adds an object and answers the instance that stands for it. -/
def allocate (w : World) (o : SharedObject) : ResourceInstance × World :=
  (⟨w.objects.length⟩, { w with objects := w.objects ++ [o] })

def object? (w : World) (i : ResourceInstance) : Option SharedObject := w.objects[i.number]?

def store (w : World) (i : ResourceInstance) (o : SharedObject) : World :=
  { w with objects := w.objects.set i.number o }

end World

/-- How a handler ends. -/
inductive Answer (α : Type) where
  | value (a : α)
  | error (message : String)
  | panic (message : String)
deriving DecidableEq, Repr

/-- How a handler reacts to a call: it panics before it has anything to wait for, or it waits and
then acts. -/
inductive Reaction (α : Type) where
  | panic (message : String)
  | wait (ms : Nat) (act : World → Answer α × World)

/-- A handler for calls of type `ι` with results of type `α`. -/
abbrev Handler (ι α : Type) := ι → World → Reaction α × World

/-- A call of a step or of a creation. -/
structure Call where
  node : NodeId
  resources : SortedMap String ResourceInstance
  input : Value

end Workplan
