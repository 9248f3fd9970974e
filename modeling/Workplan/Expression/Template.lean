import Workplan.Expression
import Workplan.Reference.Parser

/-! Templates: texts with placeholders `${...}` in them. In front of a placeholder a second dollar
sign takes its meaning away, so `$${` stands for the two characters `${`. -/
namespace Workplan
set_option autoImplicit false

/-! ## Reading -/

/-- Reads what stands between the braces of a placeholder. -/
def Segment.parsePlaceholder (body : List Char) : Except ExpressionError Segment :=
  let body := String.ofList (Text.trimChars body)
  if body = Variable.countIndex.text then .ok (.variable .countIndex)
  else if body = Variable.eachKey.text then .ok (.variable .eachKey)
  else if body = Variable.eachValue.text then .ok (.variable .eachValue)
  else (Reference.parse body).map .reference

/-- Where the reading of a template stands. -/
inductive TemplateState where
  /-- Inside text: the characters since the last placeholder, in reverse, and whether a dollar sign
  has just been read that no escape has used up. -/
  | inText (done : List Char) (dollar : Bool)
  /-- Inside a placeholder: its characters so far, in reverse. -/
  | inPlaceholder (body : List Char)

namespace Segment

/-- The text segment of the characters read so far (in reverse), unless there are none. -/
def ofText (done : List Char) : List Segment :=
  if done.isEmpty then [] else [.text (String.ofList done.reverse)]

/-- Splits a template into its segments. The whole `source` is quoted where it ends too early. -/
def parseFrom (source : String) : TemplateState → List Char → Except ExpressionError (List Segment)
  | .inText done _, [] => .ok (ofText done)
  | .inText done dollar, '$' :: '{' :: rest =>
    if dollar then parseFrom source (.inText ('{' :: done) false) rest
    else (parseFrom source (.inPlaceholder []) rest).map (ofText done ++ ·)
  | .inText done _, c :: rest => parseFrom source (.inText (c :: done) (c = '$')) rest
  | .inPlaceholder _, [] => .error (.unterminated source)
  | .inPlaceholder body, c :: rest =>
    if c = '}' then do
      let segment ← parsePlaceholder body.reverse
      let segments ← parseFrom source (.inText [] false) rest
      .ok (segment :: segments)
    else parseFrom source (.inPlaceholder (c :: body)) rest

def parseAll (source : String) : Except ExpressionError (List Segment) :=
  parseFrom source (.inText [] false) source.toList

end Segment

namespace Expression

/-- The expression of a list of segments: a single segment keeps its type, several make a
template, and none make the empty text. -/
def ofSegments : List Segment → Expression
  | [] => .literal (.string "")
  | [.text s] => .literal (.string s)
  | [.reference r] => .reference r
  | [.variable v] => .variable v
  | segments => .template segments

def parse (source : String) : Except ExpressionError Expression :=
  (Segment.parseAll source).map ofSegments

mutual

/-- Reads a raw value: every string in it is a template. -/
def ofValue : Value → Except ExpressionError Expression
  | .string s => parse s
  | .list items => (ofItems items).map .list
  | .map entries => (ofEntries entries).map .map
  | .null => .ok (.literal .null)
  | .bool b => .ok (.literal (.bool b))
  | .number n => .ok (.literal (.number n))

/-- Reads the items of a list, up to the first that is no expression. -/
def ofItems : List Value → Except ExpressionError (List Expression)
  | [] => .ok []
  | v :: rest => do
    let e ← ofValue v
    let es ← ofItems rest
    .ok (e :: es)

/-- Reads the entries of a map, up to the first that is no expression. -/
def ofEntries : List (String × Value) → Except ExpressionError (List (String × Expression))
  | [] => .ok []
  | (k, v) :: rest => do
    let e ← ofValue v
    let es ← ofEntries rest
    .ok ((k, e) :: es)

end

end Expression

/-! ## Writing -/

def Text.escapeDollars : List Char → List Char
  | '$' :: '{' :: rest => '$' :: '$' :: '{' :: escapeDollars rest
  | c :: rest => c :: escapeDollars rest
  | [] => []

def Segment.print : Segment → List Char
  | .text s => Text.escapeDollars s.toList
  | .reference r => '$' :: '{' :: r.text.toList ++ ['}']
  | .variable v => '$' :: '{' :: v.text.toList ++ ['}']

/-- The template that a list of segments is written as. -/
def Segment.printAll (segments : List Segment) : String :=
  String.ofList (segments.flatMap Segment.print)

end Workplan
