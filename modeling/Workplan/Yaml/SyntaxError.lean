/-! What can be wrong with the text of a document before its content is looked at. -/
namespace Workplan.Yaml
set_option autoImplicit false

/-- Why a text is no document. -/
inductive SyntaxError where
  /-- A character that no document may hold. -/
  | forbiddenCharacter
  /-- A character with which nothing begins. -/
  | unexpectedCharacter
  /-- A tab where spaces show how far a line is indented. -/
  | tabInIndentation
  /-- A quoted scalar does not end. -/
  | unclosedQuote
  /-- A backslash is followed by something it does not escape. -/
  | invalidEscape
  /-- The line that opens a block scalar holds something else. -/
  | invalidBlockHeader
  /-- An anchor or alias has no name, or something sticks to it. -/
  | invalidAnchor
  /-- A tag is malformed, or its handle is not declared. -/
  | invalidTag
  /-- A directive is malformed, unknown or repeated, or the version is not one that is read. -/
  | invalidDirective
  /-- An entry, a key or a value stands where none may begin. -/
  | misplacedIndicator
  /-- A line that must be a key has no colon. -/
  | missingColon
  /-- Something else was expected here. -/
  | unexpectedToken
  /-- An alias names an anchor that is not set. -/
  | unknownAnchor (name : String)
  /-- There is more than one document. -/
  | severalDocuments
deriving DecidableEq, Repr

def SyntaxError.message : SyntaxError → String
  | .forbiddenCharacter => "this character is not allowed"
  | .unexpectedCharacter => "nothing begins with this character"
  | .tabInIndentation => "lines are not indented with tabs"
  | .unclosedQuote => "the quoted text does not end"
  | .invalidEscape => "unknown escape sequence"
  | .invalidBlockHeader => "expected a comment or the end of the line"
  | .invalidAnchor => "invalid anchor name"
  | .invalidTag => "invalid tag"
  | .invalidDirective => "invalid directive"
  | .misplacedIndicator => "an entry, a key or a value cannot begin here"
  | .missingColon => "expected ':' behind the key"
  | .unexpectedToken => "unexpected part of the document"
  | .unknownAnchor name => s!"unknown anchor '{name}'"
  | .severalDocuments => "expected a single document"

end Workplan.Yaml
