import Workplan.Value

/-! The compact JSON text of a value, and the reading of values from JSON texts. In the text nothing
stands between the tokens, and only quotes, backslashes and control characters are escaped. -/
namespace Workplan.Value
set_option autoImplicit false

/-! ## Writing -/

def hexDigit (n : Nat) : Char := (Nat.digitChar (n % 16))

def escapeChar (c : Char) : List Char :=
  if c = '"' then ['\\', '"']
  else if c = '\\' then ['\\', '\\']
  else if c = '\x08' then ['\\', 'b']
  else if c = '\x0c' then ['\\', 'f']
  else if c = '\n' then ['\\', 'n']
  else if c = '\r' then ['\\', 'r']
  else if c = '\t' then ['\\', 't']
  else if c.toNat < 0x20 then ['\\', 'u', '0', '0', hexDigit (c.toNat / 16), hexDigit c.toNat]
  else [c]

def quote (s : String) : String := String.ofList ('"' :: s.toList.flatMap escapeChar ++ ['"'])

mutual

def text : Value → String
  | .null => "null"
  | .bool true => "true"
  | .bool false => "false"
  | .number n => n.text
  | .string s => quote s
  | .list items => "[" ++ textItems items ++ "]"
  | .map entries => "\x7b" ++ textEntries entries ++ "\x7d"

/-- The texts of list items, with commas between them. -/
def textItems : List Value → String
  | [] => ""
  | [v] => v.text
  | v :: rest => v.text ++ "," ++ textItems rest

/-- The texts of map entries, with commas between them. -/
def textEntries : List (String × Value) → String
  | [] => ""
  | [(k, v)] => quote k ++ ":" ++ v.text
  | (k, v) :: rest => quote k ++ ":" ++ v.text ++ "," ++ textEntries rest

end

/-- The text of a value inside other text: strings stand for themselves. -/
def render : Value → String
  | .string s => s
  | v => v.text

/-! ## Reading -/

def isJsonBlank (c : Char) : Bool := c = ' ' || c = '\t' || c = '\n' || c = '\r'

def skipBlanks (cs : List Char) : List Char := cs.dropWhile isJsonBlank

def readHex4? : List Char → Option (Nat × List Char)
  | a :: b :: c :: d :: rest => (readDigits? 16 [a, b, c, d]).map fun n => (n, rest)
  | _ => none

/-- A character given by its code unit; a high surrogate needs its low one behind it. -/
def readUnit? (cs : List Char) : Option (Char × List Char) := do
  let (hi, rest) ← readHex4? cs
  if 0xD800 ≤ hi ∧ hi < 0xDC00 then
    match rest with
    | '\\' :: 'u' :: more =>
      let (lo, rest) ← readHex4? more
      if 0xDC00 ≤ lo ∧ lo < 0xE000 then
        some (Char.ofNat (0x10000 + (hi - 0xD800) * 0x400 + (lo - 0xDC00)), rest)
      else none
    | _ => none
  else if 0xDC00 ≤ hi ∧ hi < 0xE000 then none
  else some (Char.ofNat hi, rest)

/-- The characters of a string up to its closing quote, after those already read (in reverse). -/
def readQuoted? : Nat → List Char → List Char → Option (String × List Char)
  | 0, _, _ => none
  | fuel + 1, done, cs =>
    match cs with
    | '"' :: rest => some (String.ofList done.reverse, rest)
    | '\\' :: 'u' :: rest => do
      let (c, rest) ← readUnit? rest
      readQuoted? fuel (c :: done) rest
    | '\\' :: c :: rest =>
      match c with
      | '"' | '\\' | '/' => readQuoted? fuel (c :: done) rest
      | 'b' => readQuoted? fuel ('\x08' :: done) rest
      | 'f' => readQuoted? fuel ('\x0c' :: done) rest
      | 'n' => readQuoted? fuel ('\n' :: done) rest
      | 'r' => readQuoted? fuel ('\r' :: done) rest
      | 't' => readQuoted? fuel ('\t' :: done) rest
      | _ => none
    | c :: rest => if c.toNat < 0x20 then none else readQuoted? fuel (c :: done) rest
    | [] => none

def isNumberChar (c : Char) : Bool :=
  c.isDigit || c = '-' || c = '+' || c = '.' || c = 'e' || c = 'E'

/-- A number: whole if it is written without point and exponent and fits 64 bits. -/
def readNumber? (cs : List Char) : Option Number :=
  let isPlain := cs.all fun c => c.isDigit || c = '-'
  let whole? : Option Number :=
    if isPlain && cs ≠ ['-', '0'] then
      match cs with
      | '-' :: digits => (readDigits? 10 digits).bind fun n => Number.ofInt? (-(n : Int))
      | digits => (readDigits? 10 digits).bind fun n => Number.ofInt? n
    else none
  match whole? with
  | some n => some n
  | none => (Binary64.read? cs).map Number.float

/-- What has been read of the innermost open list or map, and of those around it. -/
inductive Frame where
  | list (done : List Value)
  | map (done : List (String × Value)) (key : String)

/-- Whether a value or the continuation after a value is expected next. -/
inductive Expecting where
  | value
  | more (v : Value)

/-- The key of the next map entry, up to the value behind its colon. -/
def readKey? (fuel : Nat) (cs : List Char) : Option (String × List Char) := do
  match skipBlanks cs with
  | '"' :: rest =>
    let (key, rest) ← readQuoted? fuel [] rest
    match skipBlanks rest with
    | ':' :: rest => some (key, rest)
    | _ => none
  | _ => none

/-- Reads on from `cs` inside the open lists and maps of `stack`. Every step takes a character, but
for the one before the end, so that the fuel is enough for what is left. -/
def readFrom? : Nat → List Frame → Expecting → List Char → Option (Value × List Char)
  | 0, _, _, _ => none
  | fuel + 1, stack, .value, cs => do
    match skipBlanks cs with
    | 'n' :: 'u' :: 'l' :: 'l' :: rest => readFrom? fuel stack (.more .null) rest
    | 't' :: 'r' :: 'u' :: 'e' :: rest => readFrom? fuel stack (.more (.bool true)) rest
    | 'f' :: 'a' :: 'l' :: 's' :: 'e' :: rest => readFrom? fuel stack (.more (.bool false)) rest
    | '"' :: rest =>
      let (s, rest) ← readQuoted? fuel [] rest
      readFrom? fuel stack (.more (.string s)) rest
    | '[' :: rest =>
      match skipBlanks rest with
      | ']' :: rest => readFrom? fuel stack (.more (.list [])) rest
      | rest => readFrom? fuel (.list [] :: stack) .value rest
    | '{' :: rest =>
      match skipBlanks rest with
      | '}' :: rest => readFrom? fuel stack (.more (.map [])) rest
      | rest =>
        let (key, rest) ← readKey? fuel rest
        readFrom? fuel (.map [] key :: stack) .value rest
    | cs =>
      let n ← readNumber? (cs.takeWhile isNumberChar)
      readFrom? fuel stack (.more (.number n)) (cs.dropWhile isNumberChar)
  | fuel + 1, stack, .more v, cs => do
    match stack with
    | [] => some (v, cs)
    | .list done :: outer =>
      match skipBlanks cs with
      | ',' :: rest => readFrom? fuel (.list (v :: done) :: outer) .value rest
      | ']' :: rest => readFrom? fuel outer (.more (.list (v :: done).reverse)) rest
      | _ => none
    | .map done key :: outer =>
      match skipBlanks cs with
      | ',' :: rest =>
        let (next, rest) ← readKey? fuel rest
        readFrom? fuel (.map ((key, v) :: done) next :: outer) .value rest
      | '}' :: rest => readFrom? fuel outer (.more (ofEntries ((key, v) :: done).reverse)) rest
      | _ => none

def read? (s : String) : Option Value := do
  let cs := s.toList
  let (v, rest) ← readFrom? (2 * cs.length + 2) [] .value cs
  if (skipBlanks rest).isEmpty then some v else none

end Workplan.Value
