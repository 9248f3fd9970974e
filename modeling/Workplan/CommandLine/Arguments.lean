import Workplan.CommandLine.Duration
import Workplan.Number.Decimal

/-! The arguments of the command line. They are read from left to right; the first request for help
or the version and the first fault end the reading. -/
namespace Workplan.CommandLine
set_option autoImplicit false

/-- The definitions file that is used if none is named. -/
def defaultPath : String := "steprunner.yaml"

/-- What to do with which file. -/
structure Configuration where
  path : String
  /-- How many nodes may work at once. -/
  parallel : Option Nat
  /-- How long the whole run may take. -/
  timeout : Option Duration
  /-- List the nodes instead of running them. -/
  check : Bool
  /-- Show a chart after the run. -/
  timeline : Bool
  verbose : Bool
deriving DecidableEq, Repr

def Configuration.standard : Configuration := ⟨defaultPath, none, none, false, false, false⟩

/-- What is wrong with the arguments. -/
inductive ArgumentError where
  | unknownOption (argument : String)
  | unexpectedArgument (argument : String)
  | parallelMissing
  | invalidParallel (value : String)
  | parallelZero
  | timeoutMissing
  | invalidTimeout (value : String)
deriving DecidableEq, Repr

def ArgumentError.message : ArgumentError → String
  | .unknownOption argument => s!"Unknown option: {argument}"
  | .unexpectedArgument argument => s!"Unexpected argument: {argument}"
  | .parallelMissing => "--parallel requires a number argument"
  | .invalidParallel value => s!"Invalid parallel value: {value}"
  | .parallelZero => "--parallel must be at least 1"
  | .timeoutMissing => "--timeout requires a number of seconds"
  | .invalidTimeout value => s!"Invalid timeout value: {value}"

/-- What the arguments ask for. -/
inductive Request where
  | run (c : Configuration)
  | help
  | version
  | misuse (e : ArgumentError)
  /-- A timeout is no duration, though it is a number of seconds. -/
  | timeoutBeyondRange
deriving DecidableEq, Repr

/-- Goes on with a value that has been read; a fault ends the reading. -/
def Request.andThen {α : Type} (read : Except ArgumentError α) (next : α → Request) : Request :=
  match read with
  | .error e => .misuse e
  | .ok a => next a

/-- The number of nodes that may work at once. -/
def parseParallel (value : String) : Except ArgumentError Nat :=
  match readNatBelow? 10 (2 ^ 64) value.toList with
  | none => .error (.invalidParallel value)
  | some n => if n = 0 then .error .parallelZero else .ok n

def parseSeconds (value : String) : Except ArgumentError Binary64 :=
  match Binary64.read? value.toList with
  | some x => if x.negative || x.isZero then .error (.invalidTimeout value) else .ok x
  | none => .error (.invalidTimeout value)

/-- Reads arguments into a configuration; `hasPath` says whether they have named a file. -/
def parseFrom (c : Configuration) (hasPath : Bool) : List String → Request
  | [] => .run c
  | argument :: rest =>
    match argument with
    | "--help" | "-h" => .help
    | "--version" | "-V" => .version
    | "--check" => parseFrom { c with check := true } hasPath rest
    | "--timeline" => parseFrom { c with timeline := true } hasPath rest
    | "--verbose" | "-v" => parseFrom { c with verbose := true } hasPath rest
    | "--parallel" =>
      match rest with
      | [] => .misuse .parallelMissing
      | value :: rest =>
        .andThen (parseParallel value) fun n => parseFrom { c with parallel := some n } hasPath rest
    | "--timeout" =>
      match rest with
      | [] => .misuse .timeoutMissing
      | value :: rest =>
        .andThen (parseSeconds value) fun seconds =>
          (Duration.ofSeconds? seconds).elim .timeoutBeyondRange fun d =>
            parseFrom { c with timeout := some d } hasPath rest
    | _ =>
      if argument.toList.head? = some '-' then .misuse (.unknownOption argument)
      else if hasPath then .misuse (.unexpectedArgument argument)
      else parseFrom { c with path := argument } true rest

/-- Reads the arguments behind the name of the program. -/
def parseArguments (arguments : List String) : Request :=
  parseFrom .standard false arguments

end Workplan.CommandLine
