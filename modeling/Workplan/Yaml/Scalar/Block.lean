import Workplan.Yaml.Scalar.Gap

/-! Block scalars: indented lines behind `|`, which keeps them as they are, or `>`, which folds
them. The first line may say how far the text is indented and what becomes of its last line ends. -/
namespace Workplan.Yaml.Block
set_option autoImplicit false

/-- What becomes of the line ends at the end of the text. -/
inductive Chomping where
  /-- None is kept. -/
  | strip
  /-- That of the last line is kept. -/
  | clip
  /-- All are kept. -/
  | keep
deriving DecidableEq, Repr

/-- What the first line says. -/
structure Header where
  chomping : Option Chomping
  indent : Option Nat
deriving DecidableEq, Repr

/-- The indicators of the first line, in either order, each at most once; an indentation of zero is
refused. -/
def scanHeaderFrom : List Char → Header → Nat → Except SyntaxError (Header × Nat)
  | c :: rest, h, width =>
    if (c = '+' ∨ c = '-') ∧ h.chomping.isNone then
      let chomping : Chomping := if c = '+' then .keep else .strip
      scanHeaderFrom rest { h with chomping := some chomping } (width + 1)
    else if c.isDigit && h.indent.isNone then
      if c = '0' then .error .invalidBlockHeader
      else scanHeaderFrom rest { h with indent := some (c.toNat - '0'.toNat) } (width + 1)
    else .ok (h, width)
  | [], h, width => .ok (h, width)

/-- The first line behind its `|` or `>`, and the start of the next line. -/
def scanHeader (c : Cursor) : Except SyntaxError (Header × Cursor) := do
  let (header, width) ← scanHeaderFrom c.rest ⟨none, none⟩ 0
  let c := ((c.skip width).skipWhile isBlank).skipComment
  if c.atLineEnd then .ok (header, c.takeBreak.2) else .error .invalidBlockHeader

/-- Empty lines and the indentation of the line behind them: the widest indentation, the line ends,
and the place behind the indentation. Without a given `indent` all spaces count as indentation. -/
def scanIndentFrom (indent : Option Nat) :
    List Char → Mark → Nat → List Char → Except SyntaxError (Nat × List Char × Cursor)
  | [], m, widest, breaks => .ok (max widest m.column, breaks, ⟨[], m⟩)
  | c :: rest, m, widest, breaks =>
    let isIndentation := indent.all (m.column < ·)
    if c = ' ' ∧ isIndentation = true then
      scanIndentFrom indent rest (m.forward [c]) widest breaks
    else if c = '\t' ∧ isIndentation = true then
      .error .tabInIndentation
    else if isBreak c then
      scanIndentFrom indent rest (m.nextLine c) (max widest m.column) (breaks ++ [c])
    else .ok (max widest m.column, breaks, ⟨c :: rest, m⟩)

/-- The text so far, the end of its last line, the empty lines behind that, and whether the last
line began with a blank. -/
structure Draft where
  text : String
  lineBreak : List Char
  emptyLines : List Char
  beganBlank : Bool

/-- What joins the text so far and a line that does or does not begin with a blank. Folding makes
a space of a single line end between lines that begin with words. -/
def Draft.joint (folds : Bool) (d : Draft) (beginsBlank : Bool) : List Char :=
  if folds && d.lineBreak = ['\n'] && !d.beganBlank && !beginsBlank then
    if d.emptyLines.isEmpty then [' '] else d.emptyLines
  else d.lineBreak ++ d.emptyLines

/-- Reads the lines indented by `indent`; each round takes one. -/
def scanLines (folds : Bool) (indent : Nat) :
    Nat → Draft → Cursor → Except SyntaxError (Draft × Cursor)
  | 0, d, c => .ok (d, c)
  | fuel + 1, d, c =>
    if c.mark.column ≠ indent || c.atEnd then
      .ok (d, c)
    else do
      let beginsBlank := c.sees isBlank
      let (line, c) := c.span fun ch _ => !isBreak ch
      let (lineBreak, c) := c.takeBreak
      let (_, emptyLines, c) ← scanIndentFrom (some indent) c.rest c.mark 0 []
      let text := d.text ++ String.ofList (d.joint folds beginsBlank ++ line)
      scanLines folds indent fuel ⟨text, lineBreak, emptyLines, beginsBlank⟩ c

/-- The text with the line ends that are kept. -/
def Draft.chomp (d : Draft) : Chomping → String
  | .strip => d.text
  | .clip => d.text ++ String.ofList d.lineBreak
  | .keep => d.text ++ String.ofList (d.lineBreak ++ d.emptyLines)

/-- Reads a block scalar from its `|` or `>` on, in a document of `size` characters. `parent` is the
column of the collection it stands in, if there is one; an indentation that is given counts from
there. -/
def scan (folds : Bool) (parent : Option Nat) (size : Nat) (c : Cursor) :
    Except SyntaxError (String × Cursor) := do
  let (header, c) ← scanHeader (c.skip 1)
  let given := header.indent.map fun n => parent.getD 0 + n
  let (widest, emptyLines, c) ← scanIndentFrom given c.rest c.mark 0 []
  let least := parent.elim 1 (· + 1)
  let indent := given.getD (max widest least)
  let (d, c) ← scanLines folds indent (size + 1) ⟨"", [], emptyLines, false⟩ c
  .ok (d.chomp (header.chomping.getD .clip), c)

end Workplan.Yaml.Block
