import Workplan.CommandLine.Arguments
import Workplan.CommandLine.Listing
import Workplan.CommandLine.Notes
import Workplan.Definition.Document
import Workplan.Graph.Builder
import Workplan.Handler.Builtin
import Workplan.Run.VirtualTime

/-! The command line: reads a definitions file, builds its graph, and lists or runs it with the
built-in handlers. What the program does is a list of outputs, so all of it can be said without
doing it. -/
namespace Workplan.CommandLine
set_option autoImplicit false

/-- Something that the program does. -/
inductive Output where
  /-- Prints a line. -/
  | line (text : String)
  /-- Prints a line where errors go. -/
  | errorLine (text : String)
  /-- Lets time pass. -/
  | wait (ms : Nat)
deriving DecidableEq, Repr

/-- All that the program does, and the code with which it ends. -/
structure Transcript where
  outputs : List Output
  exitCode : UInt32
deriving DecidableEq, Repr

/-- What the program finds where it is started. -/
structure Surroundings where
  /-- The content of a file, or why there is none. -/
  readFile : String → Except String String
  /-- The time of day, as reports show it. -/
  startTime : String
  /-- How many nodes work at once unless the arguments say so. -/
  processors : Nat

namespace Transcript

def success : UInt32 := 0

def failure : UInt32 := 1

def brokenOff : UInt32 := 101

def ofLines (lines : List String) : Transcript := ⟨lines.map .line, success⟩

def failing (message : String) : Transcript :=
  ⟨[.errorLine "", .errorLine s!"Error: {message}"], failure⟩

def after (before : List Output) (t : Transcript) : Transcript :=
  { t with outputs := before ++ t.outputs }

def afterNotes (notes : List Note) (t : Transcript) : Transcript :=
  t.after (notes.map fun n => .errorLine n.line)

end Transcript

/-- A misuse is named, answered with the usage, and named again as the reason for the failure. -/
def explain (e : ArgumentError) : Transcript :=
  .after ([.errorLine s!"Error: {e.message}", .errorLine ""] ++ (usage defaultPath).map .line)
    (.failing e.message)

/-- Runs a graph and reports on it. A timeout that the clock cannot show breaks the program off. -/
def execute (s : Surroundings) (c : Configuration) (g : Graph) : Transcript :=
  if c.timeout.any Duration.isBeyondClock then
    ⟨[], Transcript.brokenOff⟩
  else
    let parallel := c.parallel.getD s.processors
    let settings : RunSettings :=
      ⟨Builtin.registry, parallel, c.timeout.map Duration.milliseconds⟩
    let r := Run.execute settings g false none
    let report (x : RunReport) (rest : Transcript) : Transcript :=
      let lines := reportLines x s.startTime r.now c.timeline
      let notes := Note.ofReport x (Duration.textOfMilliseconds r.now)
      .after [.wait r.now] (.afterNotes notes (rest.after (lines.map .line)))
    .afterNotes (Note.beginning g parallel) <|
      match r.outcome with
      | .ok x => report x (.ofLines ["Run completed successfully"])
      | .error e =>
        let blame := (Transcript.failing e.message).after ((blameLines e).map .line)
        e.report?.elim blame fun x => report x blame

/-- Does what a configuration asks for. -/
def perform (s : Surroundings) (c : Configuration) : Transcript :=
  .after (banner.map .line) <| .afterNotes [.loading c.path] <|
    match Definitions.load c.path (s.readFile c.path) with
    | .error e =>
      .afterNotes [.loadFailed e]
        (.failing s!"Could not load definitions from '{c.path}': {e.message}")
    | .ok defs =>
      .afterNotes (Note.loaded defs) <|
        match Graph.build defs Builtin.registry with
        | .error e => .failing e.message
        | .ok g =>
          .afterNotes (Note.built g) <|
            if c.check then .ofLines (graphLines g) else execute s c g

def run (s : Surroundings) (arguments : List String) : Transcript :=
  match parseArguments arguments with
  | .help => .ofLines (usage defaultPath)
  | .version => .ofLines [s!"{programName} {programVersion}"]
  | .misuse e => explain e
  | .timeoutBeyondRange => ⟨[], Transcript.brokenOff⟩
  | .run c => perform s c

end Workplan.CommandLine
