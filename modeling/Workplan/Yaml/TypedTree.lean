import Workplan.Yaml.Node
import Workplan.Yaml.Scalar.Typing

/-! Typed trees: what a document holds apart from the way it is written. Aliases have been replaced
by what they stand for, scalars by their values; of tags only the names of local ones are left. A
document is sound if it has a typed tree: every scalar has a value, and no map repeats a key. -/
namespace Workplan.Yaml
set_option autoImplicit false

/-- A tree of values under local tags. -/
inductive TypedTree where
  | scalar (tag : Option String) (value : ScalarValue)
  | list (tag : Option String) (items : List TypedTree)
  | map (tag : Option String) (entries : List (TypedTree × TypedTree))
deriving Repr

namespace TypedTree

instance : Inhabited TypedTree := ⟨.scalar none .null⟩

def tag? : TypedTree → Option String
  | .scalar tag _ | .list tag _ | .map tag _ => tag

/-! ## Keys -/

mutual

/-- True of trees that count as one key. The order of entries does not matter. -/
def same (t u : TypedTree) : Bool :=
  t.tag? = u.tag? &&
    match t, u with
    | .scalar _ a, .scalar _ b => a.same b
    | .list _ items, .list _ items' => sameItems items items'
    | .map _ entries, .map _ entries' =>
      entries.length = entries'.length && sameEntries entries entries'
    | _, _ => false

def sameItems : List TypedTree → List TypedTree → Bool
  | [], [] => true
  | t :: rest, u :: rest' => same t u && sameItems rest rest'
  | _, _ => false

def sameEntries : List (TypedTree × TypedTree) → List (TypedTree × TypedTree) → Bool
  | [], _ => true
  | (k, v) :: rest, entries =>
    (entries.any fun e => same k e.1 && same v e.2) && sameEntries rest entries

end

def distinctKeys : List (TypedTree × TypedTree) → Bool
  | [] => true
  | e :: rest => !(rest.any fun other => same e.1 other.1) && distinctKeys rest

/-! ## Reading -/

def ofScalar? (tag : Option Tag) (style : ScalarStyle) (text : String) : Option TypedTree :=
  match ScalarValue.ofScalar? tag style text with
  | none | some .wide => none
  | some v => some (.scalar (tag.bind Tag.localName?) v)

/-- The typed tree of a node in which at most `depth` collections stand inside each other. The state
says how many aliases may be followed. -/
def read (anchored : List (Nat × Node)) : Nat → Node → StateT Nat Option TypedTree
  | depth, n => do
    match ← n.follow anchored, depth with
    | .scalar p style text, _ => ofScalar? p.tag style text
    | .list p items, depth + 1 =>
      return .list (p.tag.bind Tag.localName?) (← items.mapM (read anchored depth))
    | .map p entries, depth + 1 =>
      let entries ← entries.mapM fun e => do
        let key ← read anchored depth e.1
        return (key, ← read anchored depth e.2)
      if distinctKeys entries then return .map (p.tag.bind Tag.localName?) entries else failure
    | _, _ => failure

def ofNode? (n : Node) : Option TypedTree :=
  (read n.anchored Node.maxDepth n).run' n.aliasLimit

end TypedTree

end Workplan.Yaml
