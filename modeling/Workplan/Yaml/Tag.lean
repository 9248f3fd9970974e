import Workplan.Yaml.Scalar.Quoted

/-! Tags, which name the types of nodes, and the directives that declare their handles. A tag is
written in full between angle brackets, or as a handle and a suffix; the handle stands for the
beginning of the tag. Escapes can write any octets, also some that make no characters. -/
namespace Workplan.Yaml
set_option autoImplicit false

/-- A tag, as the octets it is written with. -/
structure Tag where
  octets : List UInt8
deriving DecidableEq, Repr

namespace Tag

def octetsOf (text : String) : List UInt8 := text.toList.flatMap String.utf8EncodeChar

def ofString (text : String) : Tag := ⟨octetsOf text⟩

/-! ## Common tags -/

def commonBegin : String := "tag:yaml.org,2002:"

def ofBool : Tag := .ofString (commonBegin ++ "bool")

def ofInt : Tag := .ofString (commonBegin ++ "int")

def ofFloat : Tag := .ofString (commonBegin ++ "float")

def ofNull : Tag := .ofString (commonBegin ++ "null")

/-! ## Local tags -/

def mark : UInt8 := 0x21

/-- True of the tags that begin with an exclamation mark. -/
def isMarked (t : Tag) : Bool := t.octets.head? = some mark

/-- Octets without a mark in front, unless there is nothing else. -/
def withoutMark : List UInt8 → List UInt8
  | c :: d :: rest => if c = mark then d :: rest else c :: d :: rest
  | octets => octets

/-- The name of a local tag, which has a meaning in one application only: a tag with a mark in front
is one if its octets make characters. A second mark does not belong to the name either. -/
def localName? (t : Tag) : Option String :=
  if t.isMarked then String.fromUTF8? ⟨(withoutMark (withoutMark t.octets)).toArray⟩ else none

def isLocal (t : Tag) : Bool := t.localName?.isSome

/-! ## Handles -/

abbrev Handles := List (String × List UInt8)

def defaultHandles : Handles := [("!", [mark]), ("!!", octetsOf commonBegin)]

def untilZero (octets : List UInt8) : List UInt8 := octets.takeWhile (· ≠ 0)

/-- The tag of a handle and a suffix; an empty handle stands for nothing. A zero ends either part
of a tag. -/
def resolve? (handles : Handles) (handle : String) (suffix : List UInt8) : Option Tag :=
  let beginning := if handle.isEmpty then some [] else handles.lookup handle
  beginning.map fun octets => ⟨untilZero octets ++ untilZero suffix⟩

/-! ## Reading -/

/-- True of the characters of a tag, apart from those that end one between brackets. -/
def isTagChar (c : Char) : Bool := isWordChar c || ";/?:@&=+$.!~*'()%".toList.contains c

/-- How many octets of a character follow its first one, by the leading bits of that. -/
def furtherOctets? (first : UInt8) : Option Nat :=
  if first < 0x80 then some 0
  else if first / 0x20 = 0x6 then some 1
  else if first / 0x10 = 0xE then some 2
  else if first / 0x08 = 0x1E then some 3
  else none

/-- An octet written as a percent sign and two hexadecimal digits. -/
def escapedOctet? : List Char → Option (UInt8 × List Char)
  | '%' :: a :: b :: rest => (readDigits? 16 [a, b]).map fun n => (n.toUInt8, rest)
  | _ => none

/-- The given number of octets that do not begin a character. -/
def continuation? : Nat → List Char → Option (List UInt8 × List Char)
  | 0, rest => some ([], rest)
  | n + 1, rest => do
    let (octet, rest) ← escapedOctet? rest
    if octet / 0x40 = 2 then
      let (octets, rest) ← continuation? n rest
      some (octet :: octets, rest)
    else none

/-- The octets of a character whose octets are escaped one by one. -/
def escapedChar? (cs : List Char) : Option (List UInt8 × List Char) := do
  let (first, rest) ← escapedOctet? cs
  let (octets, rest) ← continuation? (← furtherOctets? first) rest
  some (first :: octets, rest)

/-- The octets of a part of a tag; each round takes a character. -/
def decodeFrom? : Nat → List Char → Option (List UInt8)
  | 0, _ => some []
  | fuel + 1, cs =>
    match cs with
    | [] => some []
    | '%' :: _ => do
      let (octets, rest) ← escapedChar? cs
      (decodeFrom? fuel rest).map (octets ++ ·)
    | c :: rest => (decodeFrom? fuel rest).map (String.utf8EncodeChar c ++ ·)

/-- The octets of a tag from a place on; in full tags and declarations commas and square brackets
are among its characters. -/
def scanPart (isFull : Bool) (c : Cursor) : Except SyntaxError (List UInt8 × Cursor) :=
  let (run, c) := c.span fun ch _ =>
    isTagChar ch || (isFull && (ch = ',' || ch = '[' || ch = ']'))
  match decodeFrom? run.length run with
  | some octets => .ok (octets, c)
  | none => .error .invalidTag

/-- The mark and the word that a handle begins with, and whether a second mark ends it. -/
def scanHandle (c : Cursor) : String × Bool × Cursor :=
  let (word, c) := (c.skip 1).span fun ch _ => isWordChar ch
  let text := String.ofList ('!' :: word)
  if c.peek? = some '!' then (text.push '!', true, c.skip 1) else (text, false, c)

def scanBody (c : Cursor) : Except SyntaxError ((String × List UInt8) × Cursor) :=
  if c.rest.drop 1 |>.head?.any (· = '<') then do
    let (octets, c) ← scanPart true (c.skip 2)
    if octets.isEmpty || c.peek? ≠ some '>' then .error .invalidTag
    else .ok (("", octets), c.skip 1)
  else do
    let (head, isHandle, after) := scanHandle c
    let (tail, c) ← scanPart false after
    if isHandle then
      if tail.isEmpty then .error .invalidTag else .ok ((head, tail), c)
    else
      let suffix := (octetsOf head).drop 1 ++ tail
      .ok (if (untilZero suffix).isEmpty then ("", [mark]) else ("!", suffix), c)

/-- Reads a tag from its mark on; a gap follows it, or a comma between brackets. -/
def scan (inFlow : Bool) (c : Cursor) : Except SyntaxError ((String × List UInt8) × Cursor) := do
  let (tag, c) ← scanBody c
  if startsGap c.rest || (inFlow && c.peek? = some ',') then .ok (tag, c) else .error .invalidTag

end Tag

end Workplan.Yaml
