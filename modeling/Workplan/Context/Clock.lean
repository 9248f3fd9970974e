import Workplan.Context

/-! Clocks: contexts in the hands of a single caller. Time passes only while the caller waits, and
cancellations that are scheduled happen only then. Where the waiting of the caller ends at the same
time, the caller goes on first, and they happen as soon as it waits again. -/
namespace Workplan
set_option autoImplicit false

/-- A cancellation of a scope that is to happen at a time. -/
structure Cancellation where
  scope : CancelScope
  time : Nat
deriving DecidableEq, Repr

/-- How guarded work ends, without regard to cancellations, and when. Work that ends in time wins
over the deadline, and work without any waiting is always in time. -/
def endOfWork (deadline : Option Nat) (now work : Nat) : Except RunError Unit × Nat :=
  match deadline with
  | none => (.ok (), now + work)
  | some d =>
    if work = 0 ∨ now + work ≤ d then (.ok (), now + work)
    else (.error .deadlineExceeded, max now d)

/-- The time, the scopes that have been cancelled, and the cancellations to come. -/
structure Clock where
  now : Nat
  cancelled : List CancelScope
  scheduled : List Cancellation
deriving DecidableEq, Repr

namespace Clock

def start : Clock := ⟨0, [], []⟩

def isCancelled (k : Clock) (c : RunContext) : Bool := k.cancelled.any fun s => s.covers c.scope

def cancel (k : Clock) (c : RunContext) : Clock := { k with cancelled := c.scope :: k.cancelled }

/-- Schedules the cancellation of a context for some time from now. -/
def schedule (k : Clock) (c : RunContext) (after : Nat) : Clock :=
  { k with scheduled := ⟨c.scope, k.now + after⟩ :: k.scheduled }

/-- The clock at a later time, when the cancellations whose times pass a test have happened. -/
def moveTo (k : Clock) (time : Nat) (hasHappened : Nat → Bool) : Clock :=
  let (past, ahead) := k.scheduled.partition fun x => hasHappened x.time
  ⟨time, past.map Cancellation.scope ++ k.cancelled, ahead⟩

/-- Waits until a time. The cancellations scheduled for just that time are still to come. -/
def waitUntil (k : Clock) (time : Nat) : Clock :=
  if time ≤ k.now then k else k.moveTo time (· < time)

def wait (k : Clock) (ms : Nat) : Clock := k.waitUntil (k.now + ms)

/-- The time at which a waiting that begins now would be cut off by a cancellation. -/
def cutOff? (k : Clock) (c : RunContext) : Option Nat :=
  ((k.scheduled.filter fun x => x.scope.covers c.scope).map fun x => max k.now x.time).min?

/-- Waits for work of a given length under a context. A cancellation before the work begins or
before it ends cuts it off, but work that need not wait is not reached by what is only scheduled. -/
def guard (k : Clock) (c : RunContext) (work : Nat) : Except RunError Unit × Clock :=
  let (outcome, time) := endOfWork c.deadline k.now work
  if k.isCancelled c then (.error .cancelled, k)
  else
    match k.cutOff? c with
    | some t =>
      if t < time then (.error .cancelled, k.moveTo t (· ≤ t)) else (outcome, k.waitUntil time)
    | none => (outcome, k.waitUntil time)

end Clock

end Workplan
