import Workplan.Yaml.Node.Value

/-! Places: the nodes of a document as they are met from its beginning on, each with the number of
collections that may still stand inside each other there. Whoever reads a document place by place
follows no other aliases than those on the way. -/
namespace Workplan.Yaml
set_option autoImplicit false

/-- A node with the depth that is left at it. -/
structure Place where
  node : Node
  depth : Nat

namespace Place

def root (n : Node) : Place := ⟨n, Node.maxDepth⟩

/-- The place with the node that an alias stands for. -/
def follow (anchored : List (Nat × Node)) (p : Place) : StateT Nat Option Place := do
  return { p with node := ← p.node.follow anchored }

/-! ## Scalars -/

/-- The text of a scalar, as it is written or between its quotes. -/
def text? (p : Place) : Option String := p.node.text?

def natural? (p : Place) : Option Nat :=
  match p.node with
  | .scalar own style text => ScalarValue.natural? own.tag style text
  | _ => none

def isEmpty (p : Place) : Bool :=
  match p.node with
  | .scalar _ style text => style = .plain && text.isEmpty
  | _ => false

/-- True of null, written or not. A tag makes something of it, apart from that of null itself: with
that one a word for null must be there, or there is no answer. -/
def isNull? (p : Place) : Option Bool :=
  match p.node with
  | .scalar own .plain text =>
    if own.tag.isNone then some (text.isEmpty || ScalarValue.isNull text)
    else if own.tag ≠ some Tag.ofNull then some false
    else if ScalarValue.isNull text then some true
    else none
  | _ => some false

/-! ## Collections -/

/-- The items of a list; nothing written is an empty list. -/
def items? (p : Place) : Option (List Place) :=
  match p.node, p.depth with
  | .list _ items, depth + 1 => some (items.map fun n => ⟨n, depth⟩)
  | _, _ => if p.isEmpty then some [] else none

/-- The keys and values of a map; nothing written is an empty map. -/
def entries? (p : Place) : Option (List (Place × Place)) :=
  match p.node, p.depth with
  | .map _ entries, depth + 1 => some (entries.map fun e => (⟨e.1, depth⟩, ⟨e.2, depth⟩))
  | _, _ => if p.isEmpty then some [] else none

def value? (anchored : List (Nat × Node)) (p : Place) : StateT Nat Option Value :=
  p.node.value? anchored p.depth

end Place

end Workplan.Yaml
