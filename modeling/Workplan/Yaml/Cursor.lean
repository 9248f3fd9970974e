/-! The characters of a document and the place at which it is read. Line ends are made alike before
reading starts: a carriage return, with or without a line feed, and the next-line character are line
feeds. The line and paragraph separators end lines too, and stay what they are. -/
namespace Workplan.Yaml
set_option autoImplicit false

/-! ## Characters -/

def isBlank (c : Char) : Bool := c = ' ' || c = '\t'

def isBreak (c : Char) : Bool := c = '\n' || c = '\u2028' || c = '\u2029'

/-- True of the characters of anchors, tag handles and directive names. -/
def isWordChar (c : Char) : Bool := c.isAlphanum || c = '_' || c = '-'

/-- True of the characters that separate the parts of lists and maps between brackets. -/
def isFlowIndicator (c : Char) : Bool :=
  c = ',' || c = '[' || c = ']' || c = '\x7b' || c = '\x7d'

/-- The code points that a document may hold, first and last code point included. -/
def printableRanges : List (Nat × Nat) :=
  [(0x09, 0x0A), (0x0D, 0x0D), (0x20, 0x7E), (0x85, 0x85), (0xA0, 0xD7FF), (0xE000, 0xFFFD),
   (0x10000, 0x10FFFF)]

/-- True of the characters that a document may hold. -/
def isPrintable (c : Char) : Bool :=
  printableRanges.any fun r => r.1 ≤ c.toNat && c.toNat ≤ r.2

def alikeLineEnds : List Char → List Char
  | '\r' :: '\n' :: rest => '\n' :: alikeLineEnds rest
  | c :: rest => (if c = '\r' ∨ c = '\u0085' then '\n' else c) :: alikeLineEnds rest
  | [] => []

/-- True where a blank, the end of a line or the end of the document comes next. -/
def startsGap : List Char → Bool
  | [] => true
  | c :: _ => isBlank c || isBreak c

/-- The first characters that pass a test, which also sees what follows each. -/
def spanSeeing (test : Char → List Char → Bool) : List Char → List Char × List Char
  | [] => ([], [])
  | c :: rest =>
    if test c rest then
      let (run, after) := spanSeeing test rest
      (c :: run, after)
    else ([], c :: rest)

/-! ## Places -/

/-- The number of octets that characters are written with. -/
def octetCount (cs : List Char) : Nat := cs.foldl (fun n c => n + c.utf8Size) 0

/-- A place in a document. Distances are measured in octets, columns in characters. -/
structure Mark where
  /-- How many octets precede it. -/
  index : Nat
  /-- How many lines precede its own. -/
  line : Nat
  /-- How many characters of its line precede it. -/
  column : Nat
deriving DecidableEq, Repr

def Mark.forward (m : Mark) (cs : List Char) : Mark :=
  { m with index := m.index + octetCount cs, column := m.column + cs.length }

def Mark.nextLine (m : Mark) (lineEnd : Char) : Mark := ⟨m.index + lineEnd.utf8Size, m.line + 1, 0⟩

/-- A document from a place on. -/
structure Cursor where
  rest : List Char
  mark : Mark

namespace Cursor

def start (text : String) : Cursor := ⟨alikeLineEnds text.toList, ⟨0, 0, 0⟩⟩

def peek? (c : Cursor) : Option Char := c.rest.head?

def atEnd (c : Cursor) : Bool := c.rest.isEmpty

def sees (c : Cursor) (test : Char → Bool) : Bool := c.peek?.any test

/-- True at the end of a line or of the document. -/
def atLineEnd (c : Cursor) : Bool := c.atEnd || c.sees isBreak

/-- The place behind `n` characters of the same line. -/
def skip (c : Cursor) (n : Nat) : Cursor := ⟨c.rest.drop n, c.mark.forward (c.rest.take n)⟩

/-- The first characters that pass a test, none of them the end of a line, and the place behind
them. -/
def span (c : Cursor) (test : Char → List Char → Bool) : List Char × Cursor :=
  let (run, after) := spanSeeing test c.rest
  (run, ⟨after, c.mark.forward run⟩)

/-- The place behind the characters that pass a test. -/
def skipWhile (c : Cursor) (test : Char → Bool) : Cursor := (c.span fun ch _ => test ch).2

/-- The end of a line, if it comes next, and the place behind it. -/
def takeBreak (c : Cursor) : List Char × Cursor :=
  match c.rest with
  | [] => ([], c)
  | ch :: rest => if isBreak ch then ([ch], ⟨rest, c.mark.nextLine ch⟩) else ([], c)

/-- The place behind a comment, if one comes next: just before the end of its line. -/
def skipComment (c : Cursor) : Cursor :=
  if c.peek? = some '#' then c.skipWhile fun ch => !isBreak ch else c

/-- The place behind a byte order mark, if one stands at the start of a line. -/
def skipOrderMark (c : Cursor) : Cursor :=
  if c.mark.column = 0 ∧ c.peek? = some '\ufeff' then c.skip 1 else c

/-- True at the given three characters at the start of a line, with a gap behind them. -/
def atMarker (c : Cursor) (marker : List Char) : Bool :=
  c.mark.column = 0 && marker.isPrefixOf c.rest && startsGap (c.rest.drop 3)

/-- True at `---` and `...` at the start of a line. -/
def atDocumentMarker (c : Cursor) : Bool :=
  c.atMarker ['-', '-', '-'] || c.atMarker ['.', '.', '.']

end Cursor

end Workplan.Yaml
