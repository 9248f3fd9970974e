import Workplan.Definition.Document
import Workplan.Run.Report

/-! Notes: what the program tells about its progress where errors go. The notes on a run follow its
timeline: nodes that start, nodes that end, and resources that are destroyed. -/
namespace Workplan.CommandLine
set_option autoImplicit false

/-- How serious a note is. -/
inductive NoteLevel where
  | info
  | warning
  | error
deriving DecidableEq, Repr

/-- A note. -/
structure Note where
  level : NoteLevel
  text : String
deriving DecidableEq, Repr

namespace Note

def info (text : String) : Note := ⟨.info, text⟩

def line (n : Note) : String :=
  match n.level with
  | .info => n.text
  | .warning => s!"[WARN] {n.text}"
  | .error => s!"[ERROR] {n.text}"

/-! ## Definitions and graphs -/

def loading (path : String) : Note := info s!"Loading definitions from: {path}"

def loadFailed (e : LoadError) : Note := ⟨.error, s!"Failed to load definitions: {e.message}"⟩

def sizeOf (d : Definitions) : String :=
  s!"{d.steps.length} steps, {d.resources.length} resources"

/-- A file gives definitions, of which a graph is about to be built. -/
def loaded (d : Definitions) : List Note :=
  (if d.isEmpty then [⟨.warning, "Definitions contain no steps or resources"⟩] else [])
    ++ [info s!"Parsed {sizeOf d}", info s!"Building graph: {sizeOf d}"]

def extentOf (g : Graph) : String := s!"{g.size} nodes, {g.edgeCount} edges"

/-- A graph has been built, and is about to be used. -/
def built (g : Graph) : List Note :=
  let note := info s!"Graph built: {extentOf g}"
  [note, note]

/-! ## Runs -/

/-- A run begins with a number of nodes that may work at once. -/
def beginning (g : Graph) (parallel : Nat) : List Note :=
  [info s!"Starting execution: {extentOf g} (max parallel: {parallel})",
    info s!"Creating planner: {g.size} nodes"]

/-- What has been told of a run: how many nodes have come to their end, and whether one failed. -/
structure Progress where
  ended : Nat
  hasFailed : Bool
deriving DecidableEq, Repr

def reasonOf (r : RunReport) (id : NodeId) : String :=
  match r.statuses.get? id with
  | some (.failed reason) => reason
  | _ => ""

def resourceName (id : NodeId) : String := (id.text.drop "resource.".length).toString

/-- The notes on one event of a run. Only the first failure is an error; the nodes behind it are
stopped by it. -/
def ofEvent (r : RunReport) (p : Progress) (e : TimelineEvent) : Progress × List Note :=
  let id := e.node.text
  let next := { p with ended := p.ended + 1 }
  match e.kind with
  | .started => (p, [info s!"Starting node: {id}"])
  | .succeeded =>
    (next, [info s!"Node '{id}' succeeded ({next.ended}/{r.statuses.size})"])
  | .failed =>
    let reason := reasonOf r e.node
    ({ next with hasFailed := true },
      [if p.hasFailed then ⟨.warning, s!"Node '{id}' stopped: {reason}"⟩
       else ⟨.error, s!"Node '{id}' failed: {reason}"⟩])
  | .skipped => (next, [])
  | .destroyed =>
    let name := resourceName e.node
    (p, [info s!"Destroying resource '{name}'"])

def ofEvents (r : RunReport) : Progress → List TimelineEvent → List Note
  | _, [] => []
  | p, e :: rest =>
    let (p, notes) := ofEvent r p e
    notes ++ ofEvents r p rest

/-- The notes on a run that took some milliseconds. -/
def ofReport (r : RunReport) (elapsed : String) : List Note :=
  ofEvents r ⟨0, false⟩ r.timeline.events
    ++ [info s!"Execution finished: {r.summary} in {elapsed}"]

end Note

end Workplan.CommandLine
