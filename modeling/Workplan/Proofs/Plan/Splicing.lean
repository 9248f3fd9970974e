import Workplan.Proofs.Plan.Blueprint

/-! Splicing: what an expansion does to the nodes of a plan. Instances are added, the nodes behind the
placeholder get new bindings, and both become successors of their predecessors; nothing else changes. -/
namespace Workplan
open Outcome
set_option autoImplicit false

namespace Node

def inEdges (n : Node) : List (NodeId × NodeId) := n.predecessors.toList.map fun q => (q, n.id)

def rebound (n : Node) (bs : List Binding) : Node := { n with bindings := bs }.withPredecessors

variable (n : Node) (l l' : List NodeId) (bs : List Binding)

theorem mem_inEdges {n : Node} {q x : NodeId} : (q, x) ∈ n.inEdges ↔ q ∈ n.predecessors ∧ x = n.id := by
  simp only [inEdges, List.mem_map, Prod.mk.injEq]
  constructor
  · rintro ⟨a, ha, rfl, rfl⟩
    exact ⟨ha, rfl⟩
  · rintro ⟨hq, rfl⟩
    exact ⟨q, hq, rfl, rfl⟩

theorem addSuccessors_append :
    (n.addSuccessors l).addSuccessors l' = n.addSuccessors (l ++ l') := by
  simp [addSuccessors, List.foldl_append]

@[simp] theorem rebound_addSuccessors :
    (n.addSuccessors l).rebound bs = (n.rebound bs).addSuccessors l := rfl

@[simp] theorem inEdges_addSuccessors : (n.addSuccessors l).inEdges = n.inEdges := rfl

@[simp] theorem id_rebound : (n.rebound bs).id = n.id := rfl
@[simp] theorem kind_rebound : (n.rebound bs).kind = n.kind := rfl
@[simp] theorem bindings_rebound : (n.rebound bs).bindings = bs := rfl
@[simp] theorem successors_rebound : (n.rebound bs).successors = n.successors := rfl
theorem predecessors_rebound :
    (n.rebound bs).predecessors = SortedSet.ofList (n.rebound bs).edgeProducers := rfl

end Node

namespace NodeMap

theorem targets_append (es es' : List (NodeId × NodeId)) (id : NodeId) :
    targets (es ++ es') id = targets es id ++ targets es' id := by
  simp [targets]

def insertLinked (m : NodeMap) (n : Node) : NodeMap := (Plan.link m n).insert n.id n

theorem get?_link (m : NodeMap) (n : Node) (x : NodeId) :
    (Plan.link m n).get? x = (m.get? x).map fun y => y.addSuccessors (targets n.inEdges x) := by
  have h : Plan.link m n = n.inEdges.foldl addEdge m := by
    rw [Node.inEdges, List.foldl_map]
    rfl
  rw [h, get?_foldl_addEdge]

/-- Adding nodes of which none is a predecessor of another: they are found as they are, and the others
get them as successors. -/
theorem get?_foldl_insertLinked (ns : List Node) (hnd : (ns.map Node.id).Nodup)
    (hns : ∀ n ∈ ns, ∀ n' ∈ ns, n'.id ∉ n.predecessors) (m : NodeMap) (x : NodeId) :
    (∀ n ∈ ns, n.id = x → (ns.foldl insertLinked m).get? x = some n) ∧
      ((∀ n ∈ ns, n.id ≠ x) → (ns.foldl insertLinked m).get? x =
        (m.get? x).map fun y => y.addSuccessors (targets (ns.flatMap Node.inEdges) x)) := by
  induction ns generalizing m with
  | nil => simp [targets]
  | cons a ns ih =>
    rw [List.map_cons, List.nodup_cons] at hnd
    obtain ⟨ih₁, ih₂⟩ := ih hnd.2 (fun n hn n' hn' =>
      hns n (List.mem_cons_of_mem a hn) n' (List.mem_cons_of_mem a hn')) (m.insertLinked a)
    rw [List.foldl_cons]
    constructor
    · intro n hn hx
      rcases List.mem_cons.1 hn with rfl | hn
      · have hne : ∀ n' ∈ ns, n'.id ≠ x := fun n' hn' he =>
          hnd.1 (List.mem_map.2 ⟨n', hn', he.trans hx.symm⟩)
        have hnone : targets (ns.flatMap Node.inEdges) x = [] := by
          rw [List.eq_nil_iff_forall_not_mem]
          intro q hq
          obtain ⟨n', hn', he⟩ := List.mem_flatMap.1 (mem_targets.1 hq)
          exact hns n' (List.mem_cons_of_mem n hn') n List.mem_cons_self
            (hx ▸ (Node.mem_inEdges.1 he).1)
        rw [ih₂ hne, insertLinked, SortedMap.get?_insert, if_pos hx.symm, hnone]
        rfl
      · exact ih₁ n hn hx
    · intro hne
      have hxa : x ≠ a.id := fun e => hne a List.mem_cons_self e.symm
      rw [ih₂ fun n hn => hne n (List.mem_cons_of_mem a hn), insertLinked, SortedMap.get?_insert,
        if_neg hxa, get?_link, Option.map_map, List.flatMap_cons, targets_append]
      refine Option.map_congr fun y _ => ?_
      exact Node.addSuccessors_append y _ _

/-! ## New bindings -/

theorem get?_rebind (m : NodeMap) (c : NodeId × List Binding) {n : Node} (hn : m.get? c.1 = some n)
    (x : NodeId) : (Plan.rebind m c).get? x = (m.get? x).map fun y =>
      (if x = c.1 then y.rebound c.2 else y).addSuccessors (targets (n.rebound c.2).inEdges x) := by
  simp only [Plan.rebind, hn]
  rw [get?_link, SortedMap.get?_modify]
  by_cases hx : x = c.1
  · simp only [if_pos hx]
    rw [hx, hn]
    rfl
  · simp only [if_neg hx]
    rfl

def reboundEdges (m : NodeMap) (changes : List (NodeId × List Binding)) : List (NodeId × NodeId) :=
  changes.flatMap fun c =>
    match m.get? c.1 with
    | some n => (n.rebound c.2).inEdges
    | none => []

theorem mem_reboundEdges {m : NodeMap} {changes : List (NodeId × List Binding)} {q x : NodeId} :
    (q, x) ∈ m.reboundEdges changes ↔
      ∃ id bs n, (id, bs) ∈ changes ∧ m.get? id = some n ∧ (q, x) ∈ (n.rebound bs).inEdges := by
  simp only [reboundEdges, List.mem_flatMap, Prod.exists]
  refine exists_congr fun id => exists_congr fun bs => ?_
  cases m.get? id with
  | none => simp
  | some n => simp

theorem get?_foldl_rebind (changes : List (NodeId × List Binding))
    (hnd : (changes.map Prod.fst).Nodup) (m : NodeMap)
    (hm : ∀ c ∈ changes, ∃ n, m.get? c.1 = some n) (x : NodeId) :
    (∀ bs, (x, bs) ∈ changes → (changes.foldl Plan.rebind m).get? x = (m.get? x).map fun y =>
      (y.rebound bs).addSuccessors (targets (m.reboundEdges changes) x)) ∧
    (x ∉ changes.map Prod.fst → (changes.foldl Plan.rebind m).get? x =
      (m.get? x).map fun y => y.addSuccessors (targets (m.reboundEdges changes) x)) := by
  induction changes generalizing m with
  | nil => simp [reboundEdges, targets]
  | cons c changes ih =>
    rw [List.map_cons, List.nodup_cons] at hnd
    obtain ⟨n, hn⟩ := hm c List.mem_cons_self
    have hget := get?_rebind m c hn
    have hne : ∀ c' ∈ changes, c'.1 ≠ c.1 := fun c' hc' e =>
      hnd.1 (List.mem_map.2 ⟨c', hc', e⟩)
    -- the first change leaves the edges to the other nodes as they are
    have hedges : (Plan.rebind m c).reboundEdges changes = m.reboundEdges changes := by
      refine List.flatMap_congr fun c' hc' => ?_
      simp only [hget, if_neg (hne c' hc')]
      cases m.get? c'.1 with
      | none => rfl
      | some y => rfl
    have hcons : targets (m.reboundEdges (c :: changes)) x =
        targets (n.rebound c.2).inEdges x ++ targets (m.reboundEdges changes) x := by
      rw [← targets_append, reboundEdges, List.flatMap_cons, hn]
      rfl
    obtain ⟨ih₁, ih₂⟩ := ih hnd.2 (Plan.rebind m c) fun c' hc' => by
      obtain ⟨y, hy⟩ := hm c' (List.mem_cons_of_mem c hc')
      exact ⟨_, by rw [hget, hy]; rfl⟩
    rw [hedges] at ih₁ ih₂
    rw [List.foldl_cons, hcons]
    constructor
    · intro bs hbs
      rcases List.mem_cons.1 hbs with rfl | hbs
      · rw [ih₂ hnd.1, hget, Option.map_map]
        refine Option.map_congr fun y _ => ?_
        rw [Function.comp_apply, if_pos rfl, Node.addSuccessors_append]
      · rw [ih₁ bs hbs, hget, Option.map_map]
        refine Option.map_congr fun y _ => ?_
        rw [Function.comp_apply, if_neg (hne _ hbs), Node.rebound_addSuccessors,
          Node.addSuccessors_append]
    · intro hx
      rw [List.map_cons, List.mem_cons, not_or] at hx
      rw [ih₂ hx.2, hget, Option.map_map]
      refine Option.map_congr fun y _ => ?_
      rw [Function.comp_apply, if_neg hx.1, Node.addSuccessors_append]

end NodeMap

/-! ## The steps of an expansion -/

namespace Plan

theorem foldl_addInstance (ns : List Node) (p : Plan) :
    ns.foldl addInstance p =
      { p with
        nodes := ns.foldl NodeMap.insertLinked p.nodes
        statuses := ns.foldl (fun m n => m.insert n.id .pending) p.statuses
        order := p.order ++ ns.map Node.id } := by
  induction ns generalizing p with
  | nil => simp
  | cons n ns ih =>
    rw [List.foldl_cons, ih]
    simp [addInstance, NodeMap.insertLinked]

theorem mem_instanceNodes {template : StepInstance} {inherited : List Binding}
    {vars : List LoopVars} {c : Node} : c ∈ instanceNodes template inherited vars ↔
      ∃ i v, vars[i]? = some v ∧ c = Node.new (NodeId.ofInstance template.step i)
        (.step (template.instantiate i v)) inherited := by
  rw [instanceNodes, List.mem_map]
  constructor
  · rintro ⟨⟨v, i⟩, hm, rfl⟩
    exact ⟨i, v, List.mem_zipIdx_iff_getElem?.1 hm, rfl⟩
  · rintro ⟨i, v, hv, rfl⟩
    exact ⟨(v, i), List.mem_zipIdx_iff_getElem?.2 hv, rfl⟩

theorem map_id_instanceNodes (template : StepInstance) (inherited : List Binding)
    (vars : List LoopVars) : (instanceNodes template inherited vars).map Node.id =
      Building.instanceIds template.step vars.length := by
  rw [instanceNodes, List.map_map, Building.instanceIds, List.range_eq_range',
    ← List.zipIdx_map_snd 0 vars, List.map_map]
  rfl

variable {nodes : NodeMap} {p : NodeId} {instances : List NodeId}

theorem rewire_spec {ids : List NodeId} {changes : List (NodeId × List Binding)}
    (h : rewire nodes p instances ids = .ok changes) :
    (∀ {id bs}, (id, bs) ∈ changes → id ∈ ids ∧ ∃ n, nodes.get? id = some n ∧
      List.Forall₂ (fun b b' => resolveBinding id p instances b = .ok b') n.bindings bs) ∧
    (∀ id ∈ ids, ∀ n, nodes.get? id = some n → id ∈ changes.map Prod.fst) ∧
    (changes.map Prod.fst).Sublist ids := by
  induction ids generalizing changes with
  | nil =>
    cases h
    simp
  | cons a ids ih =>
    rw [rewire] at h
    split at h
    next hnone =>
      obtain ⟨hmem, hall, hsub⟩ := ih h
      refine ⟨fun hc => ?_, fun id hid n hn => ?_, hsub.cons a⟩
      · obtain ⟨hid, hn⟩ := hmem hc
        exact ⟨List.mem_cons_of_mem a hid, hn⟩
      · rcases List.mem_cons.1 hid with rfl | hid
        · cases hnone.symm.trans hn
        · exact hall id hid n hn
    next node hnode =>
      obtain ⟨bs, hbs, h⟩ := bind_eq_ok.1 h
      obtain ⟨others, hothers, h⟩ := bind_eq_ok.1 h
      cases h
      obtain ⟨hmem, hall, hsub⟩ := ih hothers
      refine ⟨fun hc => ?_, fun id hid n hn => ?_, hsub.cons_cons a⟩
      · rcases List.mem_cons.1 hc with he | hc
        · cases he
          exact ⟨List.mem_cons_self, node, hnode, mapM_eq_ok.1 hbs⟩
        · obtain ⟨hid, hn⟩ := hmem hc
          exact ⟨List.mem_cons_of_mem a hid, hn⟩
      · rcases List.mem_cons.1 hid with rfl | hid
        · exact List.mem_cons_self
        · exact List.mem_cons_of_mem a (hall id hid n hn)

theorem exists_rewire_eq_ok {ids : List NodeId}
    (h : ∀ id ∈ ids, ∀ n, nodes.get? id = some n → ∀ b ∈ n.bindings,
      ∃ b', resolveBinding id p instances b = .ok b') :
    ∃ changes, rewire nodes p instances ids = .ok changes := by
  induction ids with
  | nil => exact ⟨[], rfl⟩
  | cons id ids ih =>
    obtain ⟨others, hothers⟩ := ih fun x hx => h x (List.mem_cons_of_mem id hx)
    rw [rewire]
    split
    next => exact ⟨others, hothers⟩
    next node hnode =>
      obtain ⟨bindings, hbindings⟩ := exists_mapM_eq_ok (h id List.mem_cons_self node hnode)
      refine ⟨(id, bindings) :: others, ?_⟩
      rw [hbindings, hothers]
      rfl

def spliced (nodes : NodeMap) (p : NodeId) (ns : List Node)
    (changes : List (NodeId × List Binding)) : NodeMap :=
  (changes.foldl rebind (ns.foldl NodeMap.insertLinked nodes)).modify p fun n =>
    { n with successors := .empty }

theorem expand_eq_ok {plan plan' : Plan} {id : NodeId} {vars : List LoopVars}
    {children : List NodeId} : plan.expand id vars = .ok (plan', children) ↔
      ∃ node replication template changes, plan.node? id = some node ∧
        node.kind = .expansion replication template ∧ plan.status? id = some .running ∧
        rewire plan.nodes id (Building.instanceIds template.step vars.length)
          node.successors.toList = .ok changes ∧
        children = Building.instanceIds template.step vars.length ∧
        plan' = { plan with
          nodes := spliced plan.nodes id (instanceNodes template
            (node.bindings.filter fun b => b.role ≠ .replication) vars) changes
          statuses := children.foldl (fun m c => m.insert c .pending) plan.statuses
          order := plan.order ++ children } := by
  have hst : ∀ (template : StepInstance) (inherited : List Binding)
      (m : SortedMap NodeId NodeStatus),
      (instanceNodes template inherited vars).foldl (fun m n => m.insert n.id .pending) m =
        (Building.instanceIds template.step vars.length).foldl (fun m c => m.insert c .pending) m := by
    intro template inherited m
    rw [← map_id_instanceNodes template inherited vars, List.foldl_map]
  constructor
  · intro h
    rw [expand] at h
    split at h
    next => cases h
    next node hn =>
      split at h
      next replication template hk hs =>
        obtain ⟨changes, hc, h⟩ := bind_eq_ok.1 h
        cases h
        refine ⟨node, replication, template, changes, hn, hk, hs, hc, rfl, ?_⟩
        rw [foldl_addInstance, hst, map_id_instanceNodes]
        rfl
      next => cases h
  · rintro ⟨node, replication, template, changes, hn, hk, hs, hc, rfl, rfl⟩
    simp only [expand, hn, hk, hs]
    refine bind_eq_ok.2 ⟨changes, hc, ?_⟩
    rw [foldl_addInstance, hst, map_id_instanceNodes]
    rfl

end Plan

end Workplan
