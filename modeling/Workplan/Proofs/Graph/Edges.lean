import Workplan.Graph

/-! Adding edges to a map of nodes changes successors and nothing else. -/
namespace Workplan
set_option autoImplicit false

/-- True of the kind of resources. -/
def NodeKind.isResource : NodeKind → Bool
  | .resource _ _ _ => true
  | _ => false

namespace Node

theorem isResource_eq (n : Node) : n.isResource = n.kind.isResource := by
  rw [Node.isResource]
  cases n.kind <;> rfl

def addSuccessors (n : Node) (l : List NodeId) : Node :=
  { n with successors := l.foldl SortedSet.insert n.successors }

variable (n : Node) (l : List NodeId)

@[simp] theorem id_addSuccessors : (n.addSuccessors l).id = n.id := rfl
@[simp] theorem kind_addSuccessors : (n.addSuccessors l).kind = n.kind := rfl
@[simp] theorem bindings_addSuccessors : (n.addSuccessors l).bindings = n.bindings := rfl
@[simp] theorem predecessors_addSuccessors :
    (n.addSuccessors l).predecessors = n.predecessors := rfl
@[simp] theorem edgeProducers_addSuccessors :
    (n.addSuccessors l).edgeProducers = n.edgeProducers := rfl

@[simp] theorem mem_addSuccessors {q : NodeId} :
    q ∈ (n.addSuccessors l).successors ↔ q ∈ n.successors ∨ q ∈ l :=
  SortedSet.mem_foldl_insert

@[simp] theorem addSuccessors_nil : n.addSuccessors [] = n := rfl

end Node

namespace NodeMap

/-- Makes the second node of an edge a successor of the first. -/
def addEdge (m : NodeMap) (e : NodeId × NodeId) : NodeMap :=
  m.modify e.1 fun n => { n with successors := n.successors.insert e.2 }

/-- The ends of the edges that begin at a node. -/
def targets (es : List (NodeId × NodeId)) (id : NodeId) : List NodeId :=
  (es.filter fun e => e.1 = id).map Prod.snd

@[simp] theorem mem_targets {es : List (NodeId × NodeId)} {id q : NodeId} :
    q ∈ targets es id ↔ (id, q) ∈ es := by
  simp only [targets, List.mem_map, List.mem_filter, decide_eq_true_eq, Prod.exists]
  constructor
  · rintro ⟨a, b, ⟨h, rfl⟩, rfl⟩
    exact h
  · exact fun h => ⟨id, q, ⟨h, rfl⟩, rfl⟩

theorem get?_foldl_addEdge (es : List (NodeId × NodeId)) (m : NodeMap) (id : NodeId) :
    (es.foldl addEdge m).get? id = (m.get? id).map fun n => n.addSuccessors (targets es id) := by
  induction es generalizing m with
  | nil => simp [targets]
  | cons e es ih =>
    rw [List.foldl_cons, ih, addEdge, SortedMap.get?_modify]
    by_cases h : id = e.1
    · have ht : targets (e :: es) id = e.2 :: targets es id := by simp [targets, h]
      rw [if_pos h, Option.map_map, ht]
      rfl
    · have h' : e.1 ≠ id := fun e' => h e'.symm
      have ht : targets (e :: es) id = targets es id := by simp [targets, h']
      rw [if_neg h, ht]

end NodeMap

end Workplan
