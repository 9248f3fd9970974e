import Workplan.SortedMap

/-! Node ids: the names of the vertices of an execution graph. An id is its text; ids are ordered
as texts. -/
namespace Workplan
set_option autoImplicit false

/-- The id of a node. -/
structure NodeId where
  text : String
deriving DecidableEq, Repr, Inhabited

namespace NodeId

/-- The id of a step without replication, or of the placeholder of a replicated one. -/
def step (name : String) : NodeId := ⟨"step." ++ name⟩

/-- The id of one instance of a replicated step. -/
def ofInstance (name : String) (i : Nat) : NodeId :=
  ⟨"step." ++ name ++ "[" ++ Nat.repr i ++ "]"⟩

def resource (name : String) : NodeId := ⟨"resource." ++ name⟩

def isResource (id : NodeId) : Bool := "resource.".toList.isPrefixOf id.text.toList

instance : LT NodeId := ⟨fun a b => a.text < b.text⟩

instance : DecidableLT NodeId := fun a b => inferInstanceAs (Decidable (a.text < b.text))

instance : KeyOrder NodeId where
  irrefl a := KeyOrder.irrefl a.text
  trans h h' := KeyOrder.trans (κ := String) h h'
  connected h ne := KeyOrder.connected (κ := String) h fun e => ne (by
    rename_i a b
    cases a
    cases b
    cases e
    rfl)

end NodeId

end Workplan
