import Workplan.Yaml.Tag

/-! The tokens of a document. Collections written by indentation have tokens where they begin and
end, and a key has one even if only the colon behind it tells that it is a key. -/
namespace Workplan.Yaml
set_option autoImplicit false

/-- How a scalar is written. -/
inductive ScalarStyle where
  | plain
  | quoted
  | literal
  | folded
deriving DecidableEq, Repr

/-- A token. -/
inductive Token where
  | version (major minor : Nat)
  | tagHandle (handle : String) (meaning : List UInt8)
  | documentStart
  | documentEnd
  | blockListStart
  | blockMapStart
  | blockEnd
  | flowListStart
  | flowListEnd
  | flowMapStart
  | flowMapEnd
  | blockEntry
  | flowEntry
  | key
  | value
  | alias (name : String)
  | anchor (name : String)
  | tag (handle : String) (suffix : List UInt8)
  | scalar (style : ScalarStyle) (text : String)
deriving DecidableEq, Repr

namespace Token

/-! ## Directives -/

def scanVersionNumber (c : Cursor) : Except SyntaxError (Nat × Cursor) :=
  let (digits, c) := c.span fun ch _ => ch.isDigit
  match readDigits? 10 digits with
  | some n => if digits.length ≤ 9 then .ok (n, c) else .error .invalidDirective
  | none => .error .invalidDirective

/-- A version: two numbers with a point between them. -/
def scanVersion (c : Cursor) : Except SyntaxError (Token × Cursor) := do
  let (major, c) ← scanVersionNumber c
  if c.peek? ≠ some '.' then .error .invalidDirective
  else
    let (minor, c) ← scanVersionNumber (c.skip 1)
    .ok (.version major minor, c)

/-- The declaration of a handle: the handle, blanks, and what it stands for. -/
def scanTagHandle (c : Cursor) : Except SyntaxError (Token × Cursor) := do
  let (handle, isHandle, after) := Tag.scanHandle c
  if c.peek? ≠ some '!' || !(isHandle || handle = "!") || !after.sees isBlank then
    .error .invalidDirective
  else
    let (meaning, c) ← Tag.scanPart true (after.skipWhile isBlank)
    if meaning.isEmpty || !startsGap c.rest then .error .invalidDirective
    else .ok (.tagHandle handle meaning, c)

/-- A directive from its percent sign to the end of its line. -/
def scanDirective (c : Cursor) : Except SyntaxError (Token × Cursor) := do
  let (name, c) := (c.skip 1).span fun ch _ => isWordChar ch
  let body := c.skipWhile isBlank
  let (token, c) ←
    if !startsGap c.rest then .error .invalidDirective
    else if name = ['Y', 'A', 'M', 'L'] then scanVersion body
    else if name = ['T', 'A', 'G'] then scanTagHandle body
    else .error .invalidDirective
  let c := (c.skipWhile isBlank).skipComment
  if c.atLineEnd then .ok (token, c.takeBreak.2) else .error .invalidDirective

/-! ## Anchors -/

def endsAnchor (c : Char) : Bool := "?:,]\x7d%@\x60".toList.contains c

/-- The name of an anchor or alias, from its mark on. -/
def scanAnchor (c : Cursor) : Except SyntaxError (String × Cursor) :=
  let (name, c) := (c.skip 1).span fun ch _ => isWordChar ch
  if name.isEmpty || !(startsGap c.rest || c.sees endsAnchor) then .error .invalidAnchor
  else .ok (String.ofList name, c)

end Token

end Workplan.Yaml
