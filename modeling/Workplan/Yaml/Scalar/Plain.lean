import Workplan.Yaml.Scalar.Gap

/-! Plain scalars: text without quotes. Such a text ends at a comment, at the colon behind a key,
at a less indented line, and between brackets at the next indicator. -/
namespace Workplan.Yaml.Plain
set_option autoImplicit false

/-- True of the characters before which no colon may stand between brackets. -/
def splitsColon (c : Char) : Bool := c = '?' || isFlowIndicator c

/-- True of a character that a plain scalar goes on with. Between brackets, a colon before one of
their indicators is neither part of a word nor the end of a key. -/
def goesOn (inFlow : Bool) (c : Char) (rest : List Char) : Bool :=
  !isBlank c && !isBreak c && !(c = ':' && startsGap rest) &&
    !(inFlow && (isFlowIndicator c || (c = ':' && rest.head?.any splitsColon)))

/-- True where a plain scalar begins: no indicator comes next, or one that the character behind it
makes part of a word. -/
def startsAt (inFlow : Bool) : List Char → Bool
  | [] => false
  | c :: rest =>
    let isIndicator := "-?:,[]\x7b\x7d#&*!|>'\"%@\x60".toList.contains c
    !(isBlank c || isBreak c || isIndicator)
      || (c = '-' && !rest.head?.any isBlank)
      || (!inFlow && (c = '?' || c = ':') && !startsGap rest)

/-- What was read: the text, whether lines ended behind its last word, and the place behind. -/
structure Scan where
  text : String
  endsBroken : Bool
  cursor : Cursor

/-- Reads words and the gaps between them; each round but the last takes a character. -/
def scanFrom (inFlow : Bool) (indent : Nat) : Nat → String → Gap → Cursor → Except SyntaxError Scan
  | 0, text, gap, c => .ok ⟨text, gap.isBroken, c⟩
  | fuel + 1, text, gap, c =>
    if c.atDocumentMarker || c.peek? = some '#' then
      .ok ⟨text, gap.isBroken, c⟩
    else do
      let (word, c) := c.span (goesOn inFlow)
      if inFlow && c.peek? = some ':' && !startsGap (c.rest.drop 1) then
        .error .misplacedIndicator
      else if word.isEmpty then
        .ok ⟨text, gap.isBroken, c⟩
      else
        let text := text ++ String.ofList (gap.text ++ word)
        if c.atEnd || !startsGap c.rest then
          .ok ⟨text, false, c⟩
        else
          let (gap, c) ← Gap.scan indent c .empty
          if !inFlow && c.mark.column < indent then .ok ⟨text, gap.isBroken, c⟩
          else scanFrom inFlow indent fuel text gap c

/-- Reads a plain scalar whose further lines are indented by at least `indent`, in a document of
`size` characters. -/
def scan (inFlow : Bool) (indent size : Nat) (c : Cursor) : Except SyntaxError Scan :=
  scanFrom inFlow indent (size + 1) "" .empty c

end Workplan.Yaml.Plain
