import Workplan.CommandLine.Duration
import Workplan.Run.Report

/-! The lines that the command line shows: how it is used, the nodes of a graph, and the report of a
run. -/
namespace Workplan.CommandLine
set_option autoImplicit false

def programName : String := "StepRunner"

def programVersion : String := "0.1.0"

def banner : List String :=
  ["", s!"{programName} v{programVersion}", "Declarative Workflow Execution Engine", ""]

def usage (defaultPath : String) : List String :=
  ["Usage: steprunner [OPTIONS] <DEFINITIONS_FILE>",
   "",
   "Arguments:",
   s!"  <DEFINITIONS_FILE>  Path to a YAML definitions file (default: {defaultPath})",
   "",
   "Options:",
   "  --parallel N        Maximum nodes running at once (default: CPU count)",
   "  --timeout SECS      Deadline for the whole run",
   "  --check             Build the graph and list its nodes without running",
   "  --timeline          Print a Gantt chart after the run",
   "  --verbose           Enable debug logging",
   "  --help              Show this help message",
   "  --version           Show version information",
   "",
   "Built-in runners: echo, sleep, fail, increment (resource kind: counter)"]

/-- A line about a node: what is said of all nodes begins in one column, unless the id is long. -/
def nodeLine (id : NodeId) (text : String) : String :=
  let padded := id.text.pushn ' ' (24 - id.text.length)
  s!"  {padded} {text}"

/-! ## Graphs -/

/-- A node of a graph and the nodes it comes after. -/
def graphLine (n : Node) : String :=
  let after := if n.predecessors.isEmpty then ""
    else s!"  (after {NodeId.commaList n.predecessors.toList})"
  nodeLine n.id (n.describe ++ after)

/-- The nodes of a graph in the order of their dependencies. -/
def graphLines (g : Graph) : List String :=
  "Execution graph:" :: g.orderedNodes.map graphLine ++
    ["", s!"{g.size} nodes, {g.edgeCount} edges"]

/-! ## Reports -/

def statusLabel : NodeStatus → String
  | .succeeded => "ok"
  | .failed reason => s!"failed {reason}"
  | .skipped reason => s!"skipped {reason}"
  | .pending => "Pending"
  | .running => "Running"

/-- A node of a report, with the time that it took if it has worked. -/
def reportLine (durations : SortedMap NodeId Nat) (entry : NodeId × NodeStatus) : String :=
  let time := (durations.get? entry.1).elim "" fun ms => s!" ({ms}ms)"
  nodeLine entry.1 (statusLabel entry.2 ++ time)

/-- The report of a run that began at a time of day and took some milliseconds. -/
def reportLines (r : RunReport) (startTime : String) (elapsed : Nat) (withChart : Bool) :
    List String :=
  ["", s!"Run summary: (started {startTime})"]
    ++ r.statuses.toList.map (reportLine r.timeline.durations)
    ++ r.destroyErrors.map (fun e => s!"  warning: {e.describe}")
    ++ ["", s!"{r.summary} in {Duration.textOfMilliseconds elapsed}"]
    ++ (if withChart then [r.timeline.chart] else [])

/-- What the nodes are that a run has failed on. -/
def blameLines : ExecuteError → List String
  | .failed node _ _ => [s!"Root cause: {node.text}"]
  | .stalled pending _ => pending.map fun id => s!"Never started: {id.text}"
  | .build _ | .cancelled _ => []

end Workplan.CommandLine
