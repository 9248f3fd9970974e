import Workplan.Registry
import Workplan.Text.Quoted
import Workplan.WaitingTime

/-! Scripted handlers: runners and resource kinds whose behaviour is a small record. They make dry
runs of definitions possible: a script says how long to wait and how to end, and every call leaves
lines in the log of the run. No script waits for longer than the longest waiting time. -/
namespace Workplan
set_option autoImplicit false

/-- How a scripted step ends. -/
inductive StepAct where
  /-- It answers its input. -/
  | echo
  /-- It answers a fixed value. -/
  | const (v : Value)
  | fail
  | panic
  /-- It panics before it waits. -/
  | panicAtOnce
  /-- It counts a use of every resource and answers what it has seen. -/
  | hits

/-- The script of a runner. -/
structure StepScript where
  act : StepAct
  ms : Nat
  /-- The input that gives the waiting time, if it is a whole number that is not negative. -/
  msFrom : Option String
  message : String
  /-- The nodes that fail whatever the script says. -/
  failOn : List String

/-- How the creation or the destruction of a scripted resource ends. -/
inductive LifecycleAct where
  | ok
  | fail
  | panic
  | panicAtOnce
deriving DecidableEq, Repr

/-- The script of a creation or of a destruction. -/
structure LifecycleScript where
  act : LifecycleAct
  ms : Nat
  message : String

/-- The text that shows the names of the resources handed to a step. -/
def describeResources (resources : SortedMap String ResourceInstance) : String :=
  "Dependencies \x7b resources: " ++ Text.quotedList resources.keys ++ " \x7d"

namespace StepScript

def waitingTime (s : StepScript) (input : Value) : Nat :=
  let asked := (s.msFrom.bind fun name => input.field? name).bind Value.toNat?
  WaitingTime.limited (asked.getD s.ms)

/-- Counts a use of scripted resources. Answers the last new count and how many there are. -/
def hitEach : List (String × ResourceInstance) → Nat × Nat → World → (Nat × Nat) × World
  | [], seen, w => (seen, w)
  | (_, inst) :: rest, seen, w =>
    match w.object? inst with
    | some (.scripted owner hits) =>
      hitEach rest (hits + 1, seen.2 + 1) (w.store inst (.scripted owner (hits + 1)))
    | some (.counter _) => hitEach rest (seen.1, seen.2 + 1) w
    | none => hitEach rest seen w

def hitsOutput (resources : SortedMap String ResourceInstance) (last live : Nat) : Value :=
  Value.ofEntries
    [("value", Value.ofNat last), ("deps", Value.ofNat resources.size),
     ("live", Value.ofNat live), ("empty", .bool resources.toList.isEmpty),
     ("debug", .string (describeResources resources))]

def finish (s : StepScript) (call : Call) (w : World) : Answer Value × World :=
  let failure := (.error s.message, w.note s!"error {call.node.text}")
  let done (w : World) := w.note s!"done {call.node.text}"
  if s.failOn.contains call.node.text then failure
  else
    match s.act with
    | .echo => (.value call.input, done w)
    | .const v => (.value v, done w)
    | .fail => failure
    | .panic => (.panic s.message, w)
    | .panicAtOnce => (.panic s.message, w)
    | .hits =>
      let ((last, live), w) := hitEach call.resources.toList (0, 0) w
      (.value (hitsOutput call.resources last live), done w)

def handle (s : StepScript) : Handler Call Value := fun call w =>
  let names := ",".intercalate call.resources.keys
  let w := w.note s!"call {call.node.text} {call.input.text} [{names}]"
  match s.act with
  | .panicAtOnce => (.panic s.message, w)
  | _ => (.wait (s.waitingTime call.input) (s.finish call), w)

end StepScript

namespace LifecycleScript

/-- Waits and ends as the script says; `succeed` is what happens when it ends well. -/
def react {α : Type} (s : LifecycleScript) (succeed : World → α × World) : Reaction α :=
  let ms := WaitingTime.limited s.ms
  match s.act with
  | .panicAtOnce => .panic s.message
  | .ok => .wait ms fun w => let (a, w) := succeed w; (.value a, w)
  | .fail => .wait ms fun w => (.error s.message, w)
  | .panic => .wait ms fun w => (.panic s.message, w)

def create (s : LifecycleScript) : Handler Call ResourceInstance := fun call w =>
  let w := w.note s!"create {call.node.text} {call.input.text}"
  (s.react fun w =>
    let (inst, w) := w.allocate (.scripted call.node.text 0)
    (inst, w.note s!"created {call.node.text}"), w)

def destroy (s : LifecycleScript) : Handler ResourceInstance Unit := fun inst w =>
  let (owner, hits) := match w.object? inst with
    | some (.scripted owner hits) => (owner, hits)
    | _ => ("", 0)
  let w := w.note s!"destroy {owner} hits={hits}"
  (s.react fun w => ((), w.note s!"destroyed {owner} hits={hits}"), w)

end LifecycleScript

end Workplan
