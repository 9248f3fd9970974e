import Workplan.Yaml.Scalar.Block
import Workplan.Yaml.Scalar.Plain
import Workplan.Yaml.Token

/-! From text to tokens. Two things need memory: the columns of the collections that are open by
indentation, and the places where a key may have begun, one for each level of brackets. A key is
known as one only by the colon behind it; its token is then inserted where it began, together with
the beginning of the map if it is the first one. -/
namespace Workplan.Yaml
set_option autoImplicit false

/-- A place where a key may have begun. -/
structure PossibleKey where
  /-- How many tokens precede it. -/
  position : Nat
  mark : Mark
  /-- True where the indentation admits nothing but a key. -/
  isRequired : Bool

/-- The tokens found so far and what the next ones depend on. -/
structure Lexer where
  cursor : Cursor
  /-- The number of characters of the document. No loop has more rounds. -/
  size : Nat
  tokens : Array Token
  /-- The columns of the collections open by indentation, innermost first. -/
  indents : List Nat
  /-- Where a key of the innermost collection may have begun. -/
  key : Option PossibleKey
  /-- The same for the collections around it, one for each open bracket. -/
  outerKeys : List (Option PossibleKey)
  /-- Whether a key may begin here. -/
  keyAllowed : Bool

namespace Lexer

def start (text : String) : Lexer :=
  let cursor := Cursor.start text
  ⟨cursor, cursor.rest.length, #[], [], none, [], true⟩

def inFlow (s : Lexer) : Bool := !s.outerKeys.isEmpty

def column (s : Lexer) : Nat := s.cursor.mark.column

def emit (s : Lexer) (t : Token) : Lexer := { s with tokens := s.tokens.push t }

def take (s : Lexer) (t : Token) (width : Nat) : Lexer :=
  { s with tokens := s.tokens.push t, cursor := s.cursor.skip width }

def allowKey (s : Lexer) (allowed : Bool) : Lexer := { s with keyAllowed := allowed }

/-! ## Indentation -/

/-- The first column of text inside the innermost collection. -/
def textIndent (s : Lexer) : Nat := s.indents.head?.elim 0 (· + 1)

/-- Ends the collections that a test on their columns picks, from the innermost on. Between
brackets indentation means nothing. -/
def closeWhile (s : Lexer) (test : Nat → Bool) : Lexer :=
  if s.inFlow then s
  else
    let closed := s.indents.takeWhile test
    { s with
      indents := s.indents.drop closed.length
      tokens := s.tokens ++ (closed.map fun _ => Token.blockEnd) }

def closeAll (s : Lexer) : Lexer := s.closeWhile fun _ => true

/-- Begins a collection at a column, with its token at a position, unless one is open there. -/
def openAt (s : Lexer) (column position : Nat) (t : Token) : Lexer :=
  if s.inFlow || s.indents.head?.any (column ≤ ·) then s
  else
    { s with
      indents := column :: s.indents
      tokens := s.tokens.insertIdxIfInBounds position t }

def openHere (s : Lexer) (t : Token) : Lexer := s.openAt s.column s.tokens.size t

/-! ## Keys -/

/-- Gives up the place where a key may have begun. -/
def dropKey (s : Lexer) : Except SyntaxError Lexer :=
  if s.key.any PossibleKey.isRequired then .error .missingColon else .ok { s with key := none }

def noteKey (s : Lexer) : Except SyntaxError Lexer :=
  if s.keyAllowed then do
    let isRequired := !s.inFlow && s.indents.head? = some s.column
    let s ← s.dropKey
    .ok { s with key := some ⟨s.tokens.size, s.cursor.mark, isRequired⟩ }
  else .ok s

/-- True of a key that is out of reach: a colon must follow in its line, within 1024 octets. -/
def isStale (now : Mark) (k : PossibleKey) : Bool :=
  k.mark.line < now.line || k.mark.index + 1024 < now.index

/-- Gives up the keys that are out of reach. -/
def dropStaleKeys (s : Lexer) : Except SyntaxError Lexer :=
  let now := s.cursor.mark
  let stale := (s.key :: s.outerKeys).filter fun k => k.any (isStale now)
  if stale.isEmpty then .ok s
  else if stale.any fun k => k.any PossibleKey.isRequired then .error .missingColon
  else
    let keep (k : Option PossibleKey) : Option PossibleKey := k.filter fun k => !isStale now k
    .ok { s with key := keep s.key, outerKeys := s.outerKeys.map keep }

/-! ## Tokens -/

/-- Skips blanks, comments and ends of lines; each round but the last takes an end of a line, and
each begins with the byte order mark that a line may begin with. Between brackets and behind a token
on the same line, tabs are blanks too. -/
def skipGapFrom : Nat → Lexer → Lexer
  | 0, s => s
  | fuel + 1, s =>
    let tabs := s.inFlow || !s.keyAllowed
    let isGap (ch : Char) : Bool := ch = ' ' || (tabs && ch = '\t')
    let c := (s.cursor.skipOrderMark.skipWhile isGap).skipComment
    match c.takeBreak with
    | ([], c) => { s with cursor := c }
    | (_ :: _, c) =>
      skipGapFrom fuel { s with cursor := c, keyAllowed := s.keyAllowed || !s.inFlow }

def skipGap (s : Lexer) : Lexer := skipGapFrom (s.size + 1) s

/-- The marker between documents, or a directive: all collections end. -/
def closeDocument (s : Lexer) : Except SyntaxError Lexer := do
  .ok ((← s.closeAll.dropKey).allowKey false)

def openBracket (s : Lexer) (t : Token) : Except SyntaxError Lexer := do
  let s ← s.noteKey
  .ok ({ s with key := none, outerKeys := s.key :: s.outerKeys }.allowKey true |>.take t 1)

def closeBracket (s : Lexer) (t : Token) : Except SyntaxError Lexer := do
  let s ← s.dropKey
  let s := match s.outerKeys with
    | [] => s
    | k :: outer => { s with key := k, outerKeys := outer }
  .ok (s.allowKey false |>.take t 1)

def flowEntry (s : Lexer) : Except SyntaxError Lexer := do
  .ok ((← s.dropKey).allowKey true |>.take .flowEntry 1)

/-- Begins a collection here where one may begin. Between brackets nothing is begun. -/
def openCollection (s : Lexer) (t : Token) : Except SyntaxError Lexer :=
  if s.inFlow then .ok s
  else if s.keyAllowed then .ok (s.openHere t)
  else .error .misplacedIndicator

def blockEntry (s : Lexer) : Except SyntaxError Lexer := do
  let s ← s.openCollection .blockListStart
  .ok ((← s.dropKey).allowKey true |>.take .blockEntry 1)

def explicitKey (s : Lexer) : Except SyntaxError Lexer := do
  let s ← s.openCollection .blockMapStart
  .ok ((← s.dropKey).allowKey (!s.inFlow) |>.take .key 1)

/-- The colon before a value. If a key may have begun before, it did. -/
def value (s : Lexer) : Except SyntaxError Lexer :=
  match s.key with
  | some k =>
    let s := { s with key := none, tokens := s.tokens.insertIdxIfInBounds k.position .key }
    .ok (s.openAt k.mark.column k.position .blockMapStart |>.allowKey false |>.take .value 1)
  | none => do
    let s ← s.openCollection .blockMapStart
    .ok (s.allowKey (!s.inFlow) |>.take .value 1)

/-- Adds the token that a scan answers, with the place behind it. -/
def afterScan {α : Type} (s : Lexer) (toToken : α → Token) :
    Except SyntaxError (α × Cursor) → Except SyntaxError Lexer
  | .ok (a, c) => .ok { s with tokens := s.tokens.push (toToken a), cursor := c }
  | .error e => .error e

/-- An anchor, alias, tag or quoted scalar, at which a key may begin. -/
def inline {α : Type} (s : Lexer) (toToken : α → Token)
    (scan : Cursor → Except SyntaxError (α × Cursor)) : Except SyntaxError Lexer := do
  let s ← s.noteKey
  (s.allowKey false).afterScan toToken (scan s.cursor)

def block (s : Lexer) (folds : Bool) : Except SyntaxError Lexer := do
  let s ← s.dropKey
  let style : ScalarStyle := if folds then .folded else .literal
  (s.allowKey true).afterScan (.scalar style) (Block.scan folds s.indents.head? s.size s.cursor)

/-- A plain scalar; behind an end of a line a key may begin again. -/
def plain (s : Lexer) : Except SyntaxError Lexer := do
  let s ← s.noteKey
  let scan ← Plain.scan s.inFlow s.textIndent s.size s.cursor
  .ok { s with
    keyAllowed := scan.endsBroken
    cursor := scan.cursor
    tokens := s.tokens.push (.scalar .plain scan.text) }

/-- The token that begins here, which is not the end of the document. -/
def token (s : Lexer) : Except SyntaxError Lexer :=
  let c := s.cursor
  let gapBehind := startsGap (c.rest.drop 1)
  match c.peek? with
  | none => .ok s
  | some ch =>
    if ch = '%' ∧ s.column = 0 then do
      (← s.closeDocument).afterScan id (Token.scanDirective c)
    else if c.atMarker ['-', '-', '-'] then do
      .ok ((← s.closeDocument).take .documentStart 3)
    else if c.atMarker ['.', '.', '.'] then do
      .ok ((← s.closeDocument).take .documentEnd 3)
    else if ch = '[' then s.openBracket .flowListStart
    else if ch = '\x7b' then s.openBracket .flowMapStart
    else if ch = ']' then s.closeBracket .flowListEnd
    else if ch = '\x7d' then s.closeBracket .flowMapEnd
    else if ch = ',' then s.flowEntry
    else if ch = '-' ∧ gapBehind then s.blockEntry
    else if ch = '?' ∧ (s.inFlow || gapBehind) then s.explicitKey
    else if ch = ':' ∧ (s.inFlow || gapBehind) then s.value
    else if ch = '*' then s.inline .alias Token.scanAnchor
    else if ch = '&' then s.inline .anchor Token.scanAnchor
    else if ch = '!' then s.inline (fun t => .tag t.1 t.2) (Tag.scan s.inFlow)
    else if ch = '|' ∧ !s.inFlow then s.block false
    else if ch = '>' ∧ !s.inFlow then s.block true
    else if ch = '\'' then s.inline (.scalar .quoted) (Quoted.scan .single s.size)
    else if ch = '"' then s.inline (.scalar .quoted) (Quoted.scan .double s.size)
    else if Plain.startsAt s.inFlow c.rest then s.plain
    else .error .unexpectedCharacter

def finish (s : Lexer) : Except SyntaxError (List Token) := do
  .ok (← s.closeAll.dropKey).tokens.toList

/-- Reads token after token; each round but the last takes a character. -/
def run : Nat → Lexer → Except SyntaxError (List Token)
  | 0, s => s.finish
  | fuel + 1, s => do
    let s ← s.skipGap.dropStaleKeys
    if s.cursor.atEnd then s.finish
    else run fuel (← (s.closeWhile (s.column < ·)).token)

end Lexer

def tokens (text : String) : Except SyntaxError (List Token) :=
  if text.toList.all isPrintable then
    let s := Lexer.start text
    s.run (s.size + 1)
  else .error .forbiddenCharacter

end Workplan.Yaml
