import Workplan.SortedMap

/-! References: what a definition names when it reads the output of a step or uses a resource. The
text of a reference is `step.NAME`, `step.NAME[3].ATTR`, `step.NAME[*]` or `resource.NAME`. -/
namespace Workplan
set_option autoImplicit false

/-- What a reference points at. -/
inductive Target where
  | step (name : String)
  | resource (name : String)
deriving DecidableEq, Repr

def Target.name : Target → String
  | .step name => name
  | .resource name => name

/-- Which instances of a step a reference means. -/
inductive InstanceIndex where
  /-- The only instance. -/
  | unindexed
  /-- The instance with a given number. -/
  | nth (i : Nat)
  /-- All instances, in order. -/
  | splat
deriving DecidableEq, Repr

/-- A reference to a step's output, to one attribute of it, or to a resource. -/
structure Reference where
  target : Target
  index : InstanceIndex
  attr : Option String
deriving DecidableEq, Repr

namespace Reference

/-- The whole output of a step with one instance. -/
def step (name : String) : Reference := ⟨.step name, .unindexed, none⟩

def resource (name : String) : Reference := ⟨.resource name, .unindexed, none⟩

def nth (r : Reference) (i : Nat) : Reference := { r with index := .nth i }

def splat (r : Reference) : Reference := { r with index := .splat }

def withAttr (r : Reference) (name : String) : Reference := { r with attr := some name }

def isStep (r : Reference) : Bool :=
  match r.target with
  | .step _ => true
  | .resource _ => false

def isResource (r : Reference) : Bool := !r.isStep

/-! ## Texts -/

/-- The index in brackets; nothing for an unindexed reference. -/
def indexText : InstanceIndex → String
  | .unindexed => ""
  | .nth i => "[" ++ Nat.repr i ++ "]"
  | .splat => "[*]"

def attrText : Option String → String
  | none => ""
  | some a => "." ++ a

def targetText : Target → String
  | .step name => "step." ++ name
  | .resource name => "resource." ++ name

def text (r : Reference) : String :=
  targetText r.target ++ indexText r.index ++ attrText r.attr

/-! ## Order -/

def compareText (a b : String) : Ordering := if a < b then .lt else if a = b then .eq else .gt

def compareTarget : Target → Target → Ordering
  | .step a, .step b => compareText a b
  | .step _, .resource _ => .lt
  | .resource _, .step _ => .gt
  | .resource a, .resource b => compareText a b

/-- The position of an index among unindexed, numbered and all. -/
def compareIndex : InstanceIndex → InstanceIndex → Ordering
  | .unindexed, .unindexed => .eq
  | .unindexed, _ => .lt
  | .nth _, .unindexed => .gt
  | .nth i, .nth j => if i < j then .lt else if i = j then .eq else .gt
  | .nth _, .splat => .lt
  | .splat, .splat => .eq
  | .splat, _ => .gt

def compareAttr : Option String → Option String → Ordering
  | none, none => .eq
  | none, some _ => .lt
  | some _, none => .gt
  | some a, some b => compareText a b

/-- References are ordered by target, then by index, then by attribute. -/
def compare (a b : Reference) : Ordering :=
  (compareTarget a.target b.target).then
    ((compareIndex a.index b.index).then (compareAttr a.attr b.attr))

/-- Puts a reference in its place of an ordered list, unless it is there already. -/
def insertOrdered (r : Reference) : List Reference → List Reference
  | [] => [r]
  | s :: rest =>
    match compare r s with
    | .lt => r :: s :: rest
    | .eq => s :: rest
    | .gt => s :: insertOrdered r rest

def ordered (rs : List Reference) : List Reference :=
  rs.foldl (fun acc r => insertOrdered r acc) []

end Reference

end Workplan
