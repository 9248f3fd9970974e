import Workplan.NodeId
import Workplan.Number.Binary64

/-! Timelines: what happened to which node and when. The times of a run's events are milliseconds
after its start. A span reaches from the start of a node to its end; a chart draws the spans to
scale. -/
namespace Workplan
set_option autoImplicit false

/-- What can happen to a node. -/
inductive EventKind where
  | started
  | succeeded
  | failed
  | skipped
  | destroyed
deriving DecidableEq, Repr

/-- True of the events that end the work of a node. -/
def EventKind.endsWork : EventKind → Bool
  | .succeeded => true
  | .failed => true
  | _ => false

/-- An event at a time in milliseconds after the start, or before it if negative. -/
structure TimelineEvent where
  node : NodeId
  kind : EventKind
  time : Int
deriving DecidableEq, Repr

/-- Milliseconds from the start to the event; none for an earlier event. -/
def TimelineEvent.elapsed (e : TimelineEvent) : Nat := e.time.toNat

/-- The events in the order in which they were recorded. -/
structure Timeline where
  events : List TimelineEvent
deriving DecidableEq, Repr

namespace Timeline

def empty : Timeline := ⟨[]⟩

instance : Inhabited Timeline := ⟨empty⟩

def add (t : Timeline) (node : NodeId) (kind : EventKind) (time : Int) : Timeline :=
  ⟨t.events ++ [⟨node, kind, time⟩]⟩

def eventsOf (t : Timeline) (node : NodeId) (kind : EventKind) : List TimelineEvent :=
  t.events.filter fun e => e.node = node && e.kind = kind

/-- The earliest time of an event of one kind of a node. -/
def firstTime? (t : Timeline) (node : NodeId) (kind : EventKind) : Option Int :=
  ((t.eventsOf node kind).map fun e => e.time).min?

def wasStarted (t : Timeline) (node : NodeId) : Bool := (t.firstTime? node .started).isSome

/-! ## Spans -/

/-- From when to when a node worked, in milliseconds after the start. -/
structure Span where
  start : Nat
  stop : Nat
  start_le_stop : start ≤ stop
deriving DecidableEq, Repr

def Span.length (s : Span) : Nat := s.stop - s.start

/-- What has been read of a timeline: the latest start of every node, and the spans so far. -/
structure SpanState where
  starts : SortedMap NodeId Nat
  spans : SortedMap NodeId Span

/-- Reads one event. An end before the start of its node counts as one at the start. -/
def SpanState.read (s : SpanState) (e : TimelineEvent) : SpanState :=
  if e.kind = .started then
    { s with starts := s.starts.insert e.node e.elapsed }
  else if e.kind.endsWork then
    match s.starts.get? e.node with
    | some start =>
      { s with spans := s.spans.insert e.node ⟨start, max e.elapsed start, Nat.le_max_right _ _⟩ }
    | none => s
  else s

/-- The spans of the nodes that were started and have ended. -/
def spans (t : Timeline) : SortedMap NodeId Span :=
  (t.events.foldl SpanState.read ⟨.empty, .empty⟩).spans

def durations (t : Timeline) : SortedMap NodeId Nat := t.spans.mapValues fun _ s => s.length

/-- The time of the latest event, in milliseconds after the start. -/
def totalTime (t : Timeline) : Nat := (t.events.map TimelineEvent.elapsed).foldl max 0

/-! ## Charts -/

def chartWidth : Nat := 50

def nameWidth : Nat := 16

/-- A text of exactly `width` characters: filled up with blanks, or cut with three points at the
end. -/
def fitted (width : Nat) (text : String) : String :=
  if text.length ≤ width then text ++ String.ofList (List.replicate (width - text.length) ' ')
  else String.ofList (text.toList.take (width - 3)) ++ "..."

def floating (n : Nat) : Binary64 := (Binary64.ofInt? n).getD (Binary64.zero false)

def scale (total : Nat) : Binary64 :=
  ((floating chartWidth).div? (floating total)).getD (Binary64.zero false)

def scaled (scale : Binary64) (ms : Nat) : Nat :=
  (((floating ms).mul? scale).getD (Binary64.zero false)).wholePart

/-- The bar of a span: at least one mark behind blanks for the time before it. -/
def bar (scale : Binary64) (s : Span) : String :=
  String.ofList (List.replicate (scaled scale s.start) ' ' ++
    List.replicate (max (scaled scale s.length) 1) '#')

def chartLine (scale : Binary64) (entry : NodeId × Span) : String :=
  s!"{fitted nameWidth entry.1.text} |{bar scale entry.2}| ({entry.2.length} ms)\n"

/-- The spans by their starts; of two with the same start the node ids decide. -/
def chartOrder (t : Timeline) : List (NodeId × Span) :=
  t.spans.toList.mergeSort fun a b => a.2.start ≤ b.2.start

def chartHeading : String := "\nExecution Timeline:\n\n"

/-- Draws the spans to scale. A timeline that takes no time has a heading only. -/
def chart (t : Timeline) : String :=
  let total := t.totalTime
  if total = 0 then chartHeading
  else
    let lines := t.chartOrder.map (chartLine (scale total))
    chartHeading ++ String.join lines ++ s!"\nTotal: {total} ms\n"

end Timeline

end Workplan
