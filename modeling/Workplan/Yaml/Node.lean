import Workplan.Yaml.Token

/-! The nodes of a document: scalars, lists and maps, each with an optional anchor and tag, and
aliases of anchored nodes. Anchors are numbers here. -/
namespace Workplan.Yaml
set_option autoImplicit false

/-- What can precede a node. -/
structure Properties where
  anchor : Option Nat
  tag : Option Tag
deriving DecidableEq, Repr

def Properties.none : Properties := ⟨.none, .none⟩

/-- A node. -/
inductive Node where
  | alias (anchor : Nat)
  | scalar (p : Properties) (style : ScalarStyle) (text : String)
  | list (p : Properties) (items : List Node)
  | map (p : Properties) (entries : List (Node × Node))
deriving Repr

namespace Node

def empty : Node := .scalar .none .plain ""

instance : Inhabited Node := ⟨empty⟩

mutual

/-- The number of marks that a reader meets: one for a scalar or an alias, two for a collection
besides those in it. -/
def weight : Node → Nat
  | .alias _ | .scalar _ _ _ => 1
  | .list _ items => 2 + weightOfItems items
  | .map _ entries => 2 + weightOfEntries entries

def weightOfItems : List Node → Nat
  | [] => 0
  | n :: rest => n.weight + weightOfItems rest

def weightOfEntries : List (Node × Node) → Nat
  | [] => 0
  | (k, v) :: rest => k.weight + v.weight + weightOfEntries rest

end

/-- A node with its own anchor in front of those inside it. -/
def withOwn (p : Properties) (n : Node) (inside : List (Nat × Node)) : List (Nat × Node) :=
  (p.anchor.map fun a => (a, n)).toList ++ inside

mutual

/-- The anchored nodes in the order in which they begin. -/
def anchored : Node → List (Nat × Node)
  | .alias _ => []
  | .scalar p style text => withOwn p (.scalar p style text) []
  | .list p items => withOwn p (.list p items) (anchoredInItems items)
  | .map p entries => withOwn p (.map p entries) (anchoredInEntries entries)

def anchoredInItems : List Node → List (Nat × Node)
  | [] => []
  | n :: rest => n.anchored ++ anchoredInItems rest

def anchoredInEntries : List (Node × Node) → List (Nat × Node)
  | [] => []
  | (k, v) :: rest => k.anchored ++ v.anchored ++ anchoredInEntries rest

end

/-- The text of a scalar, as it is written or between its quotes. -/
def text? : Node → Option String
  | .scalar _ _ text => some text
  | _ => none

/-! ## Limits

A node may contain an alias of itself, and a few aliases can stand for very many nodes. So whoever
reads a node goes only so deep, and follows only so many aliases. -/

def maxDepth : Nat := 128

/-- How many aliases may be followed for each mark of a document. -/
def aliasesPerMark : Nat := 100

/-- How many aliases may be followed in a document. -/
def aliasLimit (n : Node) : Nat := aliasesPerMark * n.weight

/-- The node that an alias stands for, or the node itself. The state says how many aliases may still
be followed. Of several nodes with one anchor, the last counts. -/
def follow (anchored : List (Nat × Node)) : Node → StateT Nat Option Node
  | .alias anchor => do
    match ← get with
    | 0 => failure
    | left + 1 =>
      set left
      anchored.reverse.lookup anchor
  | n => return n

end Node

end Workplan.Yaml
