import Workplan.Proofs.Graph.Construction

/-! The nodes of a graph: each is made from one definition, all that a definition asks for are made, and
linking them changes nothing but successors. -/
namespace Workplan.Building
open Outcome
set_option autoImplicit false

/-- How a node is made from a definition. -/
inductive Made (defs : Definitions) (ls : Layouts) : NodeId → NodeKind → List Binding → Prop where
  | instance {step : StepDefinition} {l : StepLayout} {i : NodeId × Option Nat × LoopVars}
    {bs : List Binding} (hl : (step, l) ∈ ls) (hi : i ∈ knownInstances step l)
    (hb : stepBindings ls i.1 step false = .ok bs) :
    Made defs ls i.1 (.step (.ofDefinition step i.2.1 i.2.2)) bs
  | placeholder {step : StepDefinition} {replication : Replication} {bs : List Binding}
    (hl : (step, .deferred replication) ∈ ls)
    (hb : stepBindings ls (NodeId.step step.name) step true = .ok bs) :
    Made defs ls (NodeId.step step.name)
      (.expansion replication (.ofDefinition step none LoopVars.none)) bs
  | resource {r : ResourceDefinition} {bs : List Binding} (hr : r ∈ defs.resources)
    (hb : pushBindings ls (NodeId.resource r.name) .argument (referencesOf r.arguments.values) [] =
      .ok bs) :
    Made defs ls (NodeId.resource r.name) (.resource r.name r.kind r.arguments) bs

/-- A node as it is made, before it is linked. -/
def IsMade (defs : Definitions) (ls : Layouts) (n : Node) : Prop :=
  ∃ id kind bs, Made defs ls id kind bs ∧ n = Node.new id kind bs

section Lists
variable {defs : Definitions} {ls : Layouts}

theorem mem_allInstances {step : StepDefinition} {i : NodeId × Option Nat × LoopVars} :
    (step, i) ∈ allInstances ls ↔ ∃ l, (step, l) ∈ ls ∧ i ∈ knownInstances step l := by
  rw [allInstances, List.mem_flatMap]
  constructor
  · rintro ⟨⟨s, l⟩, hl, h⟩
    obtain ⟨j, hj, he⟩ := List.mem_map.1 h
    cases he
    exact ⟨l, hl, hj⟩
  · rintro ⟨l, hl, hi⟩
    exact ⟨(step, l), hl, List.mem_map.2 ⟨i, hi, rfl⟩⟩

theorem mem_allPlaceholders {step : StepDefinition} {replication : Replication} :
    (step, replication) ∈ allPlaceholders ls ↔ (step, .deferred replication) ∈ ls := by
  simp only [allPlaceholders, List.mem_filterMap, Prod.exists]
  constructor
  · rintro ⟨s, l, hl, h⟩
    cases l with
    | single => cases h
    | instances vars => cases h
    | deferred r =>
      cases h
      exact hl
  · exact fun h => ⟨step, _, h, rfl⟩

theorem stepNodes_spec (defs : Definitions) {steps : List Node} (h : stepNodes ls = .ok steps) :
    (∀ n ∈ steps, IsMade defs ls n ∧ n.isResource = false) ∧
    (∀ {step l i}, (step, l) ∈ ls → i ∈ knownInstances step l → ∃ n ∈ steps, n.id = i.1) ∧
    ∀ {step replication}, (step, .deferred replication) ∈ ls →
      ∃ n ∈ steps, n.id = NodeId.step step.name := by
  obtain ⟨is, his, h⟩ := bind_eq_ok.1 h
  obtain ⟨ps, hps, h⟩ := bind_eq_ok.1 h
  cases h
  refine ⟨fun n hn => ?_, fun hl hi => ?_, fun hl => ?_⟩
  · rcases List.mem_append.1 hn with hn | hn
    · obtain ⟨⟨step, i⟩, hi, h⟩ := exists_of_mem_mapM his hn
      obtain ⟨bs, hbs, h⟩ := bind_eq_ok.1 h
      cases h
      obtain ⟨l, hl, hi⟩ := mem_allInstances.1 hi
      exact ⟨⟨_, _, _, .instance hl hi hbs, rfl⟩, rfl⟩
    · obtain ⟨⟨step, r⟩, hp, h⟩ := exists_of_mem_mapM hps hn
      obtain ⟨bs, hbs, h⟩ := bind_eq_ok.1 h
      cases h
      exact ⟨⟨_, _, _, .placeholder (mem_allPlaceholders.1 hp) hbs, rfl⟩, rfl⟩
  · obtain ⟨n, hn, h⟩ := exists_mem_of_mapM his (mem_allInstances.2 ⟨_, hl, hi⟩)
    obtain ⟨bs, -, h⟩ := bind_eq_ok.1 h
    cases h
    exact ⟨_, List.mem_append_left _ hn, rfl⟩
  · obtain ⟨n, hn, h⟩ := exists_mem_of_mapM hps (mem_allPlaceholders.2 hl)
    obtain ⟨bs, -, h⟩ := bind_eq_ok.1 h
    cases h
    exact ⟨_, List.mem_append_right _ hn, rfl⟩

theorem resourceNode_spec {r : ResourceDefinition} {n : Node} (hr : r ∈ defs.resources)
    (h : resourceNode ls r = .ok n) :
    IsMade defs ls n ∧ n.id = NodeId.resource r.name ∧ n.isResource = true := by
  obtain ⟨bs, hbs, h⟩ := bind_eq_ok.1 h
  cases h
  exact ⟨⟨_, _, _, .resource hr hbs, rfl⟩, rfl, rfl⟩

end Lists

/-! ## Ids -/

section Ids
variable {defs : Definitions} {ls : Layouts} {id : NodeId} {kind : NodeKind} {bs : List Binding}

theorem mem_knownInstances {step : StepDefinition} {l : StepLayout}
    {i : NodeId × Option Nat × LoopVars} (h : i ∈ knownInstances step l) :
    (l = .single ∧ i = (NodeId.step step.name, none, LoopVars.none)) ∨
      ∃ vars k, l = .instances vars ∧ k < vars.length ∧ vars[k]? = some i.2.2 ∧
        i.1 = (NodeId.step step.name).child k ∧ i.2.1 = some k := by
  cases l with
  | single => exact .inl ⟨rfl, List.mem_singleton.1 h⟩
  | instances vars =>
    obtain ⟨⟨v, k⟩, hm, rfl⟩ := List.mem_map.1 h
    have hk := List.mem_zipIdx_iff_getElem?.1 hm
    obtain ⟨hlt, -⟩ := List.getElem?_eq_some_iff.1 hk
    exact .inr ⟨vars, k, rfl, hlt, hk, rfl, rfl⟩
  | deferred replication => cases h

theorem isResource_of_made (h : Made defs ls id kind bs) :
    id.isResource = kind.isResource := by
  cases h with
  | «instance» hl hi hb =>
    rcases mem_knownInstances hi with ⟨-, rfl⟩ | ⟨vars, k, -, -, -, hk, -⟩
    · exact NodeId.isResource_step _
    · exact (congrArg NodeId.isResource hk).trans (NodeId.isResource_child_step _ _)
  | placeholder hl hb => exact NodeId.isResource_step _
  | resource hr hb => exact NodeId.isResource_resource _

theorem isResource_of_isMade {n : Node} (h : IsMade defs ls n) :
    n.id.isResource = n.isResource := by
  obtain ⟨i, k, bs, hm, rfl⟩ := h
  rw [Node.isResource_eq]
  exact isResource_of_made hm

/-- Steps and resources do not share ids. -/
theorem id_ne_of_isResource {n x : Node} (hn : IsMade defs ls n) (hx : IsMade defs ls x)
    (hs : n.isResource = false) (hr : x.isResource = true) : x.id ≠ n.id := by
  intro he
  have h := isResource_of_isMade hx
  rw [he, isResource_of_isMade hn, hs, hr] at h
  cases h

theorem resources_eq_nil_of_isResource {n : Node} (h : IsMade defs ls n) (hr : n.isResource = true) :
    n.resources = [] := by
  obtain ⟨id, kind, bs, hm, rfl⟩ := h
  cases hm with
  | «instance» hl hi hb => cases hr
  | placeholder hl hb => cases hr
  | resource _ hb =>
    rw [Node.resources, List.flatMap_eq_nil_iff]
    intro b hmem
    obtain ⟨hpushed, hrole⟩ := List.mem_filter.1 hmem
    rcases (pushBindings_spec hb).1 b hpushed with hnil | hbinding
    · cases hnil
    · have hargument := hbinding.role_eq
      rw [of_decide_eq_true hrole] at hargument
      cases hargument

end Ids

/-! ## The map of all nodes -/

/-- What the map of all nodes consists of. -/
structure Laid (defs : Definitions) (ls : Layouts) (nodes : NodeMap) : Prop where
  made : ∀ {id n}, nodes.get? id = some n → Made defs ls id n.kind n.bindings
  predecessors : ∀ {id n}, nodes.get? id = some n →
    n.predecessors = SortedSet.ofList n.edgeProducers
  linked : nodes.Linked
  instances : ∀ {step l i}, (step, l) ∈ ls → i ∈ knownInstances step l →
    ∃ n, nodes.get? i.1 = some n
  placeholders : ∀ {step replication}, (step, .deferred replication) ∈ ls →
    ∃ n, nodes.get? (NodeId.step step.name) = some n
  resources : ∀ {r id n}, r ∈ defs.resources → nodes.get? id = some n →
    NodeId.resource r.name ∈ n.resources → ∃ m, nodes.get? (NodeId.resource r.name) = some m
  used : ∀ {id n}, nodes.get? id = some n → n.isResource = true →
    ∃ q m, nodes.get? q = some m ∧ id ∈ m.resources

theorem get?_linkAll (nodes : NodeMap) (id : NodeId) :
    (linkAll nodes).get? id = (nodes.get? id).map fun n => n.addSuccessors
      (NodeMap.targets (nodes.values.flatMap fun n =>
        n.predecessors.toList.map fun p => (p, n.id)) id) :=
  NodeMap.get?_foldl_addEdge _ _ _

theorem linked_linkAll {nodes : NodeMap} (hid : ∀ {id n}, nodes.get? id = some n → n.id = id)
    (hs : ∀ {id n}, nodes.get? id = some n → n.successors = .empty) :
    NodeMap.Linked (linkAll nodes) := by
  constructor
  · intro id n h
    rw [get?_linkAll, Option.map_eq_some_iff] at h
    obtain ⟨m, hm, rfl⟩ := h
    exact (hid hm : m.id = id)
  · intro id n h q
    rw [get?_linkAll, Option.map_eq_some_iff] at h
    obtain ⟨m, hm, rfl⟩ := h
    rw [Node.mem_addSuccessors, NodeMap.mem_targets, hs hm]
    simp only [SortedSet.not_mem_empty, false_or, List.mem_flatMap, List.mem_map, Prod.mk.injEq]
    constructor
    · rintro ⟨x, hx, y, hy, rfl, rfl⟩
      obtain ⟨k, hk⟩ := SortedMap.mem_values.1 hx
      have hkx : x.id = k := hid hk
      subst hkx
      exact ⟨x.addSuccessors _, by rw [get?_linkAll, hk]; rfl, hy⟩
    · rintro ⟨x, hx, hmem⟩
      rw [get?_linkAll, Option.map_eq_some_iff] at hx
      obtain ⟨y, hy, rfl⟩ := hx
      exact ⟨y, SortedMap.mem_values.2 ⟨q, hy⟩, id, hmem, rfl, hid hy⟩

theorem mem_of_get?_nodeMap {l : List Node} {id : NodeId} {n : Node}
    (h : (nodeMap l).get? id = some n) : n ∈ l ∧ n.id = id := by
  obtain ⟨m, hm, he⟩ := List.mem_map.1 (SortedMap.mem_of_get?_ofList h)
  cases he
  exact ⟨hm, rfl⟩

theorem exists_get?_nodeMap {l : List Node} {n : Node} (h : n ∈ l) :
    ∃ m, (nodeMap l).get? n.id = some m :=
  SortedMap.exists_get?_ofList (List.mem_map.2 ⟨n, h, rfl⟩)

theorem get?_nodeMap_append {l l' : List Node} {id : NodeId} (h : ∀ n ∈ l', n.id ≠ id) :
    (nodeMap (l ++ l')).get? id = (nodeMap l).get? id := by
  rw [nodeMap, nodeMap, SortedMap.ofList, List.map_append, List.foldl_append]
  rcases SortedMap.get?_foldl_insert (l'.map fun n => (n.id, n)) (SortedMap.ofList _) id with
    ⟨v, hv, -⟩ | ⟨-, h'⟩
  · obtain ⟨n, hn, he⟩ := List.mem_map.1 hv
    cases he
    exact absurd rfl (h _ hn)
  · exact h'

theorem exists_get?_linkAll {l : List Node} {id : NodeId} (h : ∃ n ∈ l, n.id = id) :
    ∃ n, (linkAll (nodeMap l)).get? id = some n := by
  obtain ⟨n, hn, rfl⟩ := h
  obtain ⟨m, hm⟩ := exists_get?_nodeMap hn
  exact ⟨_, by rw [get?_linkAll, hm]; rfl⟩

theorem of_get?_linkAll {l : List Node} {id : NodeId} {n : Node}
    (h : (linkAll (nodeMap l)).get? id = some n) :
    ∃ m successors, m ∈ l ∧ m.id = id ∧ n = m.addSuccessors successors ∧
      (nodeMap l).get? id = some m := by
  rw [get?_linkAll, Option.map_eq_some_iff] at h
  obtain ⟨m, hm, rfl⟩ := h
  obtain ⟨hmem, hid⟩ := mem_of_get?_nodeMap hm
  exact ⟨m, _, hmem, hid, rfl, hm⟩

theorem laid_of_nodes {defs : Definitions} {nodes : NodeMap} (h : Building.nodes defs = .ok nodes) :
    ∃ ls, layouts defs.steps = .ok ls ∧ Laid defs ls nodes := by
  obtain ⟨ls, hls, h⟩ := bind_eq_ok.1 h
  obtain ⟨steps, hsteps, h⟩ := bind_eq_ok.1 h
  obtain ⟨rs, hrs, h⟩ := bind_eq_ok.1 h
  cases h
  obtain ⟨hmade, hinst, hplace⟩ := stepNodes_spec defs hsteps
  have hresource : ∀ n ∈ rs, ∃ r ∈ usedResources defs (nodeMap steps),
      IsMade defs ls n ∧ n.id = NodeId.resource r.name ∧ n.isResource = true := by
    intro n hn
    obtain ⟨r, hr, h⟩ := exists_of_mem_mapM hrs hn
    exact ⟨r, hr, resourceNode_spec (List.mem_filter.1 hr).1 h⟩
  have hall : ∀ n ∈ steps ++ rs, IsMade defs ls n := by
    intro n hn
    rcases List.mem_append.1 hn with hn | hn
    · exact (hmade n hn).1
    · obtain ⟨r, -, hm, -⟩ := hresource n hn
      exact hm
  -- no resource has the id of a step, so the map of the steps is not overwritten
  have hget : ∀ {n}, n ∈ steps → (nodeMap (steps ++ rs)).get? n.id = (nodeMap steps).get? n.id := by
    intro n hn
    refine get?_nodeMap_append fun x hx => ?_
    obtain ⟨r, -, hxm, -, hres⟩ := hresource x hx
    exact id_ne_of_isResource (hmade n hn).1 hxm (hmade n hn).2 hres
  refine ⟨ls, hls, ?_⟩
  constructor
  case made =>
    intro id n h
    obtain ⟨m, l, hm, rfl, rfl, -⟩ := of_get?_linkAll h
    obtain ⟨i, k, bs, hmd, rfl⟩ := hall m hm
    exact hmd
  case predecessors =>
    intro id n h
    obtain ⟨m, l, hm, rfl, rfl, -⟩ := of_get?_linkAll h
    obtain ⟨i, k, bs, hmd, rfl⟩ := hall m hm
    rfl
  case linked =>
    refine linked_linkAll (fun h => (mem_of_get?_nodeMap h).2) fun h => ?_
    obtain ⟨i, k, bs, -, rfl⟩ := hall _ (mem_of_get?_nodeMap h).1
    rfl
  case instances =>
    intro step l i hl hi
    obtain ⟨n, hn, he⟩ := hinst hl hi
    exact exists_get?_linkAll ⟨n, List.mem_append_left _ hn, he⟩
  case placeholders =>
    intro step r hl
    obtain ⟨n, hn, he⟩ := hplace hl
    exact exists_get?_linkAll ⟨n, List.mem_append_left _ hn, he⟩
  case resources =>
    intro r id n hr hn huse
    obtain ⟨m, l, hm, rfl, rfl, hm'⟩ := of_get?_linkAll hn
    have huse : NodeId.resource r.name ∈ m.resources := huse
    have hmem : m ∈ steps := by
      rcases List.mem_append.1 hm with hms | hmr
      · exact hms
      · obtain ⟨r', -, hmd, -, hres⟩ := hresource m hmr
        rw [resources_eq_nil_of_isResource hmd hres] at huse
        cases huse
    have hused : NodeId.resource r.name ∈ (nodeMap steps).values.flatMap Node.resources :=
      List.mem_flatMap.2 ⟨m, SortedMap.mem_values.2 ⟨m.id, (hget hmem).symm.trans hm'⟩, huse⟩
    have hru : r ∈ usedResources defs (nodeMap steps) :=
      List.mem_filter.2 ⟨hr, by simpa using hused⟩
    obtain ⟨x, hx, h⟩ := exists_mem_of_mapM hrs hru
    exact exists_get?_linkAll ⟨x, List.mem_append_right _ hx, (resourceNode_spec hr h).2.1⟩
  case used =>
    intro id n hn hres
    obtain ⟨m, l, hm, rfl, rfl, -⟩ := of_get?_linkAll hn
    rcases List.mem_append.1 hm with hm | hm
    · exact absurd ((hmade m hm).2.symm.trans hres) Bool.false_ne_true
    · obtain ⟨r, hr, -, hid, -⟩ := hresource m hm
      have hused := (List.mem_filter.1 hr).2
      rw [List.contains_iff_mem] at hused
      obtain ⟨x, hx, hmem⟩ := List.mem_flatMap.1 hused
      obtain ⟨q, hq⟩ := SortedMap.mem_values.1 hx
      obtain ⟨hxs, rfl⟩ := mem_of_get?_nodeMap hq
      refine ⟨x.id, _, by rw [get?_linkAll, hget hxs, hq]; rfl, ?_⟩
      rw [hid]
      exact hmem

end Workplan.Building
