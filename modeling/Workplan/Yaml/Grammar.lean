import Workplan.Yaml.Lexer
import Workplan.Yaml.Node

/-! From tokens to nodes. Where a node may be left out and the next token cannot begin one, the
empty scalar stands for it. -/
namespace Workplan.Yaml
set_option autoImplicit false

/-- The tokens ahead, and the anchors that are set, by name. -/
structure Grammar.State where
  tokens : List Token
  anchors : List (String × Nat)

abbrev Grammar := StateT Grammar.State (Except SyntaxError)

namespace Grammar

def peek : Grammar (Option Token) := do return (← get).tokens.head?

/-- True if the next token is one of a list. -/
def sees (tokens : List Token) : Grammar Bool := do return (← peek).any tokens.contains

def advance : Grammar Unit := modify fun s => { s with tokens := s.tokens.drop 1 }

def refuse {α : Type} : Grammar α := throw .unexpectedToken

def expect (t : Token) : Grammar Unit := do
  if ← sees [t] then advance else refuse

/-! ## Properties -/

/-- Sets an anchor. Its number is how many names were in use before, so a name that is set again
may share its number with the next new name. -/
def setAnchor (name : String) : Grammar Nat := do
  let s ← get
  let number := s.anchors.length
  set { s with anchors := (name, number) :: s.anchors.filter fun a => a.1 ≠ name }
  return number

def anchorOf (name : String) : Grammar Nat := do
  match (← get).anchors.lookup name with
  | some number => return number
  | none => throw (.unknownAnchor name)

def anchor : Grammar (Option Nat) := do
  match ← peek with
  | some (.anchor name) =>
    advance
    return some (← setAnchor name)
  | _ => return none

def tag (handles : Tag.Handles) : Grammar (Option Tag) := do
  match ← peek with
  | some (.tag handle suffix) =>
    advance
    match Tag.resolve? handles handle suffix with
    | some t => return some t
    | none => throw .invalidTag
  | _ => return none

def properties (handles : Tag.Handles) : Grammar Properties := do
  let before ← anchor
  let tag ← tag handles
  let anchor ← if before.isSome then pure before else anchor
  return ⟨anchor, tag⟩

/-! ## Nodes -/

mutual

/-- A node. `indentless` lists, whose dashes are not indented, may only stand in block maps. -/
def node (handles : Tag.Handles) : Nat → Bool → Grammar Node
  | 0, _ => refuse
  | fuel + 1, indentless => do
    match ← peek with
    | some (.alias name) =>
      advance
      return .alias (← anchorOf name)
    | _ =>
      let p ← properties handles
      match ← peek with
      | some (.scalar style text) =>
        advance
        return .scalar p style text
      | some .flowListStart =>
        advance
        return .list p (← flowItems handles fuel true)
      | some .flowMapStart =>
        advance
        return .map p (← flowEntries handles fuel true)
      | some .blockListStart =>
        advance
        return .list p (← blockItems handles fuel)
      | some .blockMapStart =>
        advance
        return .map p (← blockEntries handles fuel)
      | next =>
        if indentless ∧ next = some .blockEntry then
          return .list p (← indentlessItems handles fuel)
        else if p = .none then
          refuse
        else
          return .scalar p .plain ""

/-- A node, or the empty one before a token that cannot begin it. -/
def nodeUnless (handles : Tag.Handles) :
    Nat → List Token → Bool → Grammar Node
  | 0, _, _ => refuse
  | fuel + 1, ends, indentless => do
    if ← sees ends then return .empty else node handles fuel indentless

/-- The items of a list written by indentation, up to its end. -/
def blockItems (handles : Tag.Handles) : Nat → Grammar (List Node)
  | 0 => refuse
  | fuel + 1 => do
    if ← sees [.blockEnd] then
      advance
      return []
    else
      expect .blockEntry
      let item ← nodeUnless handles fuel [.blockEntry, .blockEnd] false
      return item :: (← blockItems handles fuel)

/-- The items of a list whose dashes are not indented. -/
def indentlessItems (handles : Tag.Handles) : Nat → Grammar (List Node)
  | 0 => refuse
  | fuel + 1 => do
    if ← sees [.blockEntry] then
      advance
      let item ← nodeUnless handles fuel [.blockEntry, .key, .value, .blockEnd] false
      return item :: (← indentlessItems handles fuel)
    else return []

/-- The entries of a map written by indentation, up to its end. -/
def blockEntries (handles : Tag.Handles) : Nat → Grammar (List (Node × Node))
  | 0 => refuse
  | fuel + 1 => do
    if ← sees [.blockEnd] then
      advance
      return []
    else
      expect .key
      let ends := [.key, .value, .blockEnd]
      let key ← nodeUnless handles fuel ends true
      let value ← valueUnless handles fuel ends true
      return (key, value) :: (← blockEntries handles fuel)

/-- The value behind a colon, or the empty node if there is no colon or nothing behind it. -/
def valueUnless (handles : Tag.Handles) : Nat → List Token → Bool → Grammar Node
  | 0, _, _ => refuse
  | fuel + 1, ends, indentless => do
    if ← sees [.value] then
      advance
      nodeUnless handles fuel ends indentless
    else return .empty

/-- The items of a list between brackets, up to its end. A comma stands between them and may follow
the last one. -/
def flowItems (handles : Tag.Handles) : Nat → Bool → Grammar (List Node)
  | 0, _ => refuse
  | fuel + 1, isFirst => do
    if !isFirst && !(← sees [.flowListEnd]) then expect .flowEntry
    if ← sees [.flowListEnd] then
      advance
      return []
    else
      let item ←
        if ← sees [.key] then
          advance
          flowPair handles fuel
        else node handles fuel false
      return item :: (← flowItems handles fuel false)

/-- A key with its value in a list between brackets, which is a map of one entry. The token behind
an empty key is passed over. -/
def flowPair (handles : Tag.Handles) : Nat → Grammar Node
  | 0 => refuse
  | fuel + 1 => do
    let ends := [.flowEntry, .flowListEnd]
    let key ←
      if ← sees (.value :: ends) then
        advance
        pure .empty
      else node handles fuel false
    let value ← valueUnless handles fuel ends false
    return .map .none [(key, value)]

/-- The entries of a map between brackets, up to its end. A node without a colon is a key. -/
def flowEntries (handles : Tag.Handles) : Nat → Bool → Grammar (List (Node × Node))
  | 0, _ => refuse
  | fuel + 1, isFirst => do
    if !isFirst && !(← sees [.flowMapEnd]) then expect .flowEntry
    if ← sees [.flowMapEnd] then
      advance
      return []
    else
      let ends := [.flowEntry, .flowMapEnd]
      let entry ←
        if ← sees [.key] then
          advance
          let key ← nodeUnless handles fuel (.value :: ends) false
          pure (key, ← valueUnless handles fuel ends false)
        else
          pure (← node handles fuel false, Node.empty)
      return entry :: (← flowEntries handles fuel false)

end

/-! ## Documents -/

def isKnownVersion (major minor : Nat) : Bool := major = 1 && (minor = 1 || minor = 2)

/-- The directives before a document: the handles they declare, and the tokens behind them. -/
def directives : List Token → Bool → Tag.Handles →
    Except SyntaxError (Tag.Handles × List Token)
  | .version major minor :: rest, versionSeen, handles =>
    if versionSeen || !isKnownVersion major minor then .error .invalidDirective
    else directives rest true handles
  | .tagHandle handle meaning :: rest, versionSeen, handles =>
    if (handles.lookup handle).isSome then .error .invalidDirective
    else directives rest versionSeen ((handle, meaning) :: handles)
  | rest, _, handles => .ok (handles, rest)

/-- True of the tokens that can only stand between documents. -/
def isBetweenDocuments : Token → Bool
  | .version _ _ | .tagHandle _ _ | .documentStart | .documentEnd => true
  | _ => false

/-- The content of a document; each token asks for three steps at most. -/
def content (handles : Tag.Handles) (tokens : List Token) :
    Except SyntaxError (Node × List Token) := do
  let (n, s) ← (node handles (3 * tokens.length + 3) false).run ⟨tokens, []⟩
  .ok (n, s.tokens)

/-- The first document and the tokens behind it. Directives need a marker behind them, and behind a
marker the content may be missing. -/
def document (tokens : List Token) : Except SyntaxError (Node × List Token) := do
  let (declared, rest) ← directives tokens false []
  let handles := declared ++ Tag.defaultHandles
  match rest with
  | .documentStart :: rest =>
    if rest.head?.all isBetweenDocuments then .ok (.empty, rest) else content handles rest
  | [] => if tokens.isEmpty then .ok (.empty, []) else .error .unexpectedToken
  | _ :: _ =>
    if rest.length = tokens.length then content handles rest else .error .unexpectedToken

end Grammar

/-- The node that the tokens of a single document form. A text without any token is the empty
node. -/
def Node.ofTokens (tokens : List Token) : Except SyntaxError Node := do
  let (n, rest) ← Grammar.document tokens
  if (rest.dropWhile (· = .documentEnd)).isEmpty then .ok n else .error .severalDocuments

def Node.parse (text : String) : Except SyntaxError Node := do ofTokens (← tokens text)

end Workplan.Yaml
