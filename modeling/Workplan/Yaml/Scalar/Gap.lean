import Workplan.Yaml.Cursor
import Workplan.Yaml.SyntaxError

/-! Gaps between the words of a scalar: blanks, or ends of lines with blanks around them. A single
end of a line reads as a space; of several, all but the first are kept. -/
namespace Workplan.Yaml
set_option autoImplicit false

/-- A gap: the blanks before the first end of a line, that end, and the further ones. -/
structure Gap where
  blanks : List Char
  firstBreak : List Char
  furtherBreaks : List Char
  isBroken : Bool

namespace Gap

def empty : Gap := ⟨[], [], [], false⟩

/-- The gap behind an end of a line that was escaped and leaves nothing. -/
def escapedBreak : Gap := ⟨[], [], [], true⟩

/-- Adds a blank; behind an end of a line it leaves nothing. -/
def addBlank (g : Gap) (c : Char) : Gap :=
  if g.isBroken then g else { g with blanks := g.blanks ++ [c] }

def addBreak (g : Gap) (c : Char) : Gap :=
  if g.isBroken then { g with furtherBreaks := g.furtherBreaks ++ [c] }
  else { g with firstBreak := [c], isBroken := true }

def text (g : Gap) : List Char :=
  if !g.isBroken then g.blanks
  else if g.firstBreak = ['\n'] then
    if g.furtherBreaks.isEmpty then [' '] else g.furtherBreaks
  else g.firstBreak ++ g.furtherBreaks

/-- Reads on in a gap. In a line after the first, a tab before the column `indent` is refused. -/
def scanFrom (indent : Nat) : List Char → Mark → Gap → Except SyntaxError (Gap × Cursor)
  | [], m, g => .ok (g, ⟨[], m⟩)
  | c :: rest, m, g =>
    if isBreak c then scanFrom indent rest (m.nextLine c) (g.addBreak c)
    else if isBlank c then
      if c = '\t' ∧ g.isBroken = true ∧ m.column < indent then .error .tabInIndentation
      else scanFrom indent rest (m.forward [c]) (g.addBlank c)
    else .ok (g, ⟨c :: rest, m⟩)

/-- Reads on in a gap from a place on. -/
def scan (indent : Nat) (c : Cursor) (g : Gap) : Except SyntaxError (Gap × Cursor) :=
  scanFrom indent c.rest c.mark g

end Gap

end Workplan.Yaml
