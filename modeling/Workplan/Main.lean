import Std.Time.Zoned
import Workplan.CommandLine
import Workplan.CommandLine.Directory

/-! The program: hands the arguments and the surroundings to the command line and does what that
says. -/
namespace Workplan.Main
set_option autoImplicit false

/-- The wording of an error by its number, which may have been turned around, or else its own. -/
def wording (code : UInt32) (details : String) : String :=
  let number := if code.toNat < 2 ^ 31 then code.toNat else 2 ^ 32 - code.toNat
  match CommandLine.FileError.ofCode? number with
  | some e => e.message
  | none => details

/-- The content of a file, or why there is none. -/
def readFile (path : String) : IO (Except String String) := do
  try
    return .ok (← IO.FS.readFile path)
  catch
    | .noFileOrDirectory _ code details | .inappropriateType _ code details
    | .invalidArgument _ code details | .permissionDenied _ code details =>
      return .error (wording code details)
    | .userError _ => return .error CommandLine.FileError.notText.message
    | e => return .error (toString e)

def twoDigits (n : Nat) : String := (if n < 10 then "0" else "") ++ toString n

/-- The date and time where the program runs, or those of the zero meridian where its zone is
unknown. -/
def localTime : IO Std.Time.PlainDateTime := do
  try
    Std.Time.PlainDateTime.now
  catch _ =>
    let t ← Std.Time.Timestamp.now
    return .ofWallTime (.ofTimestamp t Std.Time.TimeZone.UTC.offset)

def timeOfDay : IO String := do
  let now ← localTime
  let date := now.date
  let time := now.time
  let day := s!"{date.year.toInt}-{twoDigits date.month.val.toNat}-{twoDigits date.day.val.toNat}"
  let hour := s!"{twoDigits time.hour.val.toNat}:{twoDigits time.minute.val.toNat}"
  return s!"{day} {hour}:{twoDigits time.second.val.toNat}"

/-- How many nodes work at once unless the arguments say so. -/
def processors : Nat := 8

/-- The longest time in milliseconds that is waited in one go. -/
def longestWait : Nat := 2 ^ 31

def wait (ms : Nat) : IO Unit := do
  for _ in [0:ms / longestWait] do
    IO.sleep (UInt32.ofNat longestWait)
  IO.sleep (UInt32.ofNat (ms % longestWait))

def emit : CommandLine.Output → IO Unit
  | .line text => IO.println text
  | .errorLine text => IO.eprintln text
  | .wait ms => wait ms

end Workplan.Main

def main (arguments : List String) : IO UInt32 := do
  let content ← match Workplan.CommandLine.parseArguments arguments with
    | .run c => Workplan.Main.readFile c.path
    | _ => pure (.error "")
  let surroundings : Workplan.CommandLine.Surroundings :=
    ⟨fun _ => content, ← Workplan.Main.timeOfDay, Workplan.Main.processors⟩
  let transcript := Workplan.CommandLine.run surroundings arguments
  transcript.outputs.forM Workplan.Main.emit
  return transcript.exitCode
