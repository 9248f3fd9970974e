import Workplan.Number.Decimal
import Workplan.Yaml.Scalar.Gap

/-! Quoted scalars. Between single quotes a quote is written twice and nothing else is special.
Between double quotes a backslash begins an escape, also of the end of a line. -/
namespace Workplan.Yaml.Quoted
set_option autoImplicit false

/-- The two quotes. -/
inductive Quote where
  | single
  | double
deriving DecidableEq, Repr

def Quote.char : Quote → Char
  | .single => '\''
  | .double => '"'

/-- The escapes of one character and what they stand for. -/
def shortEscapes : List (Char × Char) :=
  [('0', '\x00'), ('a', '\x07'), ('b', '\x08'), ('t', '\t'), ('\t', '\t'), ('n', '\n'),
   ('v', '\x0b'), ('f', '\x0c'), ('r', '\r'), ('e', '\x1b'), (' ', ' '), ('"', '"'), ('/', '/'),
   ('\\', '\\'), ('N', '\u0085'), ('_', '\u00a0'), ('L', '\u2028'), ('P', '\u2029')]

/-- The escapes that are followed by a code point, and the number of its hexadecimal digits. -/
def codeEscapes : List (Char × Nat) := [('x', 2), ('u', 4), ('U', 8)]

/-- The character with a code point; surrogates and what lies beyond the last plane are none. -/
def charOfCode? (n : Nat) : Option Char :=
  if n.isValidChar then some (Char.ofNat n) else none

/-- What follows a backslash: the character meant and the number of characters that write it. -/
def escape? : List Char → Option (Char × Nat)
  | [] => none
  | c :: rest =>
    match shortEscapes.lookup c, codeEscapes.lookup c with
    | some meant, _ => some (meant, 1)
    | none, some width => do
      let digits := rest.take width
      if digits.length = width then
        some (← charOfCode? (← readDigits? 16 digits), width + 1)
      else none
    | none, none => none

/-- Reads up to the closing quote; each round takes a character. -/
def scanFrom (quote : Quote) : Nat → String → Cursor → Except SyntaxError (String × Cursor)
  | 0, _, _ => .error .unclosedQuote
  | fuel + 1, text, c =>
    match c.rest with
    | [] => .error .unclosedQuote
    | ch :: rest =>
      if ch = quote.char then
        if quote = .single ∧ rest.head? = some '\'' then
          scanFrom quote fuel (text.push '\'') (c.skip 2)
        else .ok (text, c.skip 1)
      else if c.atDocumentMarker then
        .error .unclosedQuote
      else if isBlank ch || isBreak ch then do
        let (gap, c) ← Gap.scan 0 c .empty
        scanFrom quote fuel (text ++ String.ofList gap.text) c
      else if quote = .double ∧ ch = '\\' then
        match (c.skip 1).takeBreak with
        | (_ :: _, c) => do
          let (gap, c) ← Gap.scan 0 c .escapedBreak
          scanFrom quote fuel (text ++ String.ofList gap.text) c
        | ([], c) =>
          match escape? c.rest with
          | some (meant, width) => scanFrom quote fuel (text.push meant) (c.skip width)
          | none => .error .invalidEscape
      else scanFrom quote fuel (text.push ch) (c.skip 1)

/-- Reads a quoted scalar from its opening quote on, in a document of `size` characters. -/
def scan (quote : Quote) (size : Nat) (c : Cursor) : Except SyntaxError (String × Cursor) :=
  scanFrom quote size "" (c.skip 1)

end Workplan.Yaml.Quoted
