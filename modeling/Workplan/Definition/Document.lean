import Workplan.Definition.Decoding
import Workplan.Yaml.Grammar
import Workplan.Yaml.Place
import Workplan.Yaml.TypedTree

/-! Definitions from the text of a document. -/
namespace Workplan
set_option autoImplicit false

/-- The places of a document. A list is never a record here, and every scalar serves as a text. What
is read is limited by the number of aliases on the way. -/
def Yaml.documentFormat (anchored : List (Nat × Yaml.Node)) : DocumentFormat Nat Yaml.Place where
  follow := Yaml.Place.follow anchored
  value? := Yaml.Place.value? anchored
  text? := Yaml.Place.text?
  natural? := Yaml.Place.natural?
  items? := Yaml.Place.items?
  entries? := Yaml.Place.entries?
  record? p := p.entries?.map .named
  isAbsent? := Yaml.Place.isNull?

/-- Why a text holds no definitions. -/
inductive ParseError where
  /-- It is no document. -/
  | syntaxFault (e : Yaml.SyntaxError)
  /-- It is a document, but something in it is repeated or out of range. -/
  | unsound
  /-- The document is about something else. -/
  | content (e : DecodeError)
deriving DecidableEq, Repr

def ParseError.message : ParseError → String
  | .syntaxFault e => e.message
  | .unsound => "a key is repeated, or a value is not one of its type"
  | .content e => e.message

/-- The definitions in the text of a document. What the definitions do not ask for is not checked,
and of arguments with one name the last counts; only if definitions cannot be read, it is said
whether that is the fault of the document as a whole. -/
def Definitions.parse (text : String) : Except ParseError Definitions :=
  match Yaml.Node.parse text with
  | .error e => .error (.syntaxFault e)
  | .ok n =>
    let read := Decoding.definitions (Yaml.documentFormat n.anchored) (Yaml.Place.root n)
    match read.run' n.aliasLimit with
    | .ok d => .ok d
    | .error e =>
      .error (if (Yaml.TypedTree.ofNode? n).isSome then .content e else .unsound)

/-! ## Files -/

/-- Why a file gives no definitions. -/
inductive LoadError where
  | unreadable (path reason : String)
  | invalid (e : ParseError)
deriving DecidableEq, Repr

def LoadError.message : LoadError → String
  | .unreadable path reason =>
    s!"Failed to read definitions file '{path}': {reason}. "
      ++ "Check that the file exists and is readable."
  | .invalid e => s!"Failed to parse definitions: {e.message}. Check the file format."

/-- The definitions in a file, given its content or the reason why there is none. -/
def Definitions.load (path : String) : Except String String → Except LoadError Definitions
  | .ok text => (Definitions.parse text).mapError .invalid
  | .error reason => .error (.unreadable path reason)

end Workplan
