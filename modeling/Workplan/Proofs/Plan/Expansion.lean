import Workplan.Proofs.Plan.Unfolding

/-! Expansion keeps the nodes of a plan in step with their blueprints (`Expanding.unfolds_spliced`). -/
namespace Workplan
open Outcome
set_option autoImplicit false

/-- A placeholder that is being expanded for the first time. -/
structure Expanding (g : Graph) (E : Expansions) (nodes : NodeMap) (p : NodeId) (node : Node)
    (template : StepInstance) (vars : List LoopVars) (changes : List (NodeId × List Binding)) :
    Prop where
  sound : g.Sound
  unfolds : nodes.Unfolds g E
  placeholder : ∃ n replication, g.node? p = some n ∧ n.kind = .expansion replication template
  unexpanded : E p = none
  found : nodes.get? p = some node
  rewired : Plan.rewire nodes p (p.children vars.length) node.successors.toList = .ok changes

namespace Expanding
variable {g : Graph} {E : Expansions} {nodes : NodeMap} {p : NodeId} {node : Node}
variable {template : StepInstance} {vars : List LoopVars} {changes : List (NodeId × List Binding)}
variable (h : Expanding g E nodes p node template vars changes)

def instances (node : Node) (template : StepInstance) (vars : List LoopVars) : List Node :=
  Plan.instanceNodes template (node.bindings.filter fun b => b.role ≠ .replication) vars

include h

/-! ## The instances -/

theorem plain : p.Plain := by
  obtain ⟨n, replication, hn, hk⟩ := h.placeholder
  exact (h.sound.expansion hn hk).2

theorem eq_step : p = NodeId.step template.step := by
  obtain ⟨n, replication, hn, hk⟩ := h.placeholder
  exact (h.sound.expansion hn hk).1

theorem instanceIds_eq (n : Nat) : Building.instanceIds template.step n = p.children n := by
  rw [h.eq_step]
  rfl

theorem mem_instances {c : Node} : c ∈ instances node template vars ↔
    ∃ i v, vars[i]? = some v ∧ c = Node.new (p.child i) (.step (template.instantiate i v))
      (node.bindings.filter fun b => b.role ≠ .replication) := by
  rw [instances, Plan.mem_instanceNodes, h.eq_step]
  rfl

theorem map_id_instances : (instances node template vars).map Node.id = p.children vars.length := by
  rw [instances, Plan.map_id_instanceNodes, h.instanceIds_eq]

theorem fresh (i : Nat) : nodes.get? (p.child i) = none := by
  obtain ⟨n, replication, hn, hk⟩ := h.placeholder
  exact h.unfolds.fresh h.sound hn hk h.unexpanded i

theorem get?_instance {c : Node} (hc : c ∈ instances node template vars) :
    nodes.get? c.id = none := by
  obtain ⟨i, v, -, rfl⟩ := h.mem_instances.1 hc
  exact h.fresh i

theorem instance_ne {c : Node} (hc : c ∈ instances node template vars) {x : NodeId} {n : Node}
    (hn : nodes.get? x = some n) : c.id ≠ x := by
  rintro rfl
  rw [h.get?_instance hc] at hn
  cases hn

theorem mem_predecessors_instance {c : Node} (hc : c ∈ instances node template vars) {q : NodeId} :
    q ∈ c.predecessors ↔ ∃ b ∈ node.bindings, b.role ≠ .replication ∧ q ∈ b.producers := by
  obtain ⟨i, v, -, rfl⟩ := h.mem_instances.1 hc
  have hpred : (Node.new (p.child i) (.step (template.instantiate i v))
      (node.bindings.filter fun b => b.role ≠ .replication)).predecessors =
      SortedSet.ofList (Node.new (p.child i) (.step (template.instantiate i v))
        (node.bindings.filter fun b => b.role ≠ .replication)).edgeProducers := rfl
  rw [hpred, SortedSet.mem_ofList, Node.mem_edgeProducers]
  constructor
  · rintro ⟨b, hb, -, hq⟩
    obtain ⟨hb, hr⟩ := List.mem_filter.1 hb
    exact ⟨b, hb, by simpa using hr, hq⟩
  · rintro ⟨b, hb, hr, hq⟩
    exact ⟨b, List.mem_filter.2 ⟨hb, by simpa using hr⟩, rfl, hq⟩

theorem instance_not_mem {c c' : Node} (hc : c ∈ instances node template vars)
    (hc' : c' ∈ instances node template vars) : c'.id ∉ c.predecessors := by
  intro hq
  obtain ⟨n, replication, hn, hk⟩ := h.placeholder
  obtain ⟨b, hb, -, hq⟩ := (h.mem_predecessors_instance hc).1 hq
  obtain ⟨i, v, -, rfl⟩ := h.mem_instances.1 hc'
  exact h.unfolds.producer_ne_child h.sound hn hk h.unexpanded h.found hb hq i rfl

theorem placeholder_not_mem {c : Node} (hc : c ∈ instances node template vars) :
    p ∉ c.predecessors := by
  intro hq
  obtain ⟨n, replication, hn, hk⟩ := h.placeholder
  obtain ⟨b, hb, -, hq⟩ := (h.mem_predecessors_instance hc).1 hq
  exact h.unfolds.not_names_self h.sound hn hk h.unexpanded h.found hb hq

/-! ## The nodes behind the placeholder -/

theorem nodup_changes : (changes.map Prod.fst).Nodup :=
  (Plan.rewire_spec h.rewired).2.2.nodup node.successors.nodup_toList

theorem change {x : NodeId} {bs : List Binding} (hc : (x, bs) ∈ changes) :
    x ≠ p ∧ ∃ n, nodes.get? x = some n ∧ p ∈ n.predecessors ∧ List.Forall₂
      (fun b b' => Plan.resolveBinding x p (p.children vars.length) b = .ok b') n.bindings bs := by
  obtain ⟨hx, n, hn, hbs⟩ := (Plan.rewire_spec h.rewired).1 hc
  obtain ⟨m, hm, hpm⟩ := (h.unfolds.linked.mem_successors h.found).1 hx
  cases hn.symm.trans hm
  refine ⟨?_, n, hn, hpm, hbs⟩
  rintro rfl
  obtain ⟨n₀, replication, hn₀, hk⟩ := h.placeholder
  obtain ⟨b, hb, -, hq⟩ := (h.unfolds.mem_predecessors hn).1 hpm
  exact h.unfolds.not_names_self h.sound hn₀ hk h.unexpanded hn hb hq

theorem mem_changes {x : NodeId} {n : Node} (hn : nodes.get? x = some n) :
    x ∈ changes.map Prod.fst ↔ p ∈ n.predecessors := by
  constructor
  · intro hx
    obtain ⟨⟨_, bs⟩, hc, rfl⟩ := List.mem_map.1 hx
    obtain ⟨-, m, hm, hpm, -⟩ := h.change hc
    cases hn.symm.trans hm
    exact hpm
  · intro hp
    have hx := (h.unfolds.linked.mem_successors h.found).2 ⟨n, hn, hp⟩
    exact (Plan.rewire_spec h.rewired).2.1 x hx n hn

theorem resolves {x : NodeId} {n : Node} (hn : nodes.get? x = some n) {b b' : Binding}
    (hb : b ∈ n.bindings)
    (hres : Plan.resolveBinding x p (p.children vars.length) b = .ok b') :
    b'.role = b.role ∧ p.Replaced vars b.producers b'.producers := by
  obtain ⟨n₀, replication, hn₀, hk⟩ := h.placeholder
  obtain ⟨bs, hbp, b₀, hb₀, hr⟩ := h.unfolds.exists_resolves hn hb
  exact (NodeMap.Unfolds.resolves_of_resolveBinding h.sound hn₀ hk h.unexpanded hbp hb₀ hr hres).2

/-- A node with new bindings waits for what it has waited for, but for instances in place of the
placeholder. -/
theorem replaced_rebound {x : NodeId} {bs : List Binding} (hc : (x, bs) ∈ changes) {n : Node}
    (hn : nodes.get? x = some n) :
    p.Replaced vars n.predecessors (n.rebound bs).predecessors := by
  obtain ⟨-, m, hm, hpm, hbs⟩ := h.change hc
  cases hn.symm.trans hm
  have hnew : ∀ {q}, q ∈ (n.rebound bs).predecessors ↔
      ∃ b ∈ bs, Node.gates n.kind.isExpansion b = true ∧ q ∈ b.producers := by
    intro q
    rw [Node.predecessors_rebound, SortedSet.mem_ofList, Node.mem_edgeProducers]
    rfl
  have hgates : ∀ {b b' : Binding}, b'.role = b.role →
      Node.gates n.kind.isExpansion b' = Node.gates n.kind.isExpansion b := by
    intro b b' hrole
    rw [Node.gates, Node.gates, hrole]
  constructor
  case gone =>
    intro hp
    obtain ⟨b', hb', -, hq⟩ := hnew.1 hp
    obtain ⟨b, hb, hres⟩ := Pointwise.exists_left hbs hb'
    exact (h.resolves hn hb hres).2.gone hq
  case kept =>
    intro q hq hne
    obtain ⟨b, hb, hgate, hq⟩ := (h.unfolds.mem_predecessors hn).1 hq
    obtain ⟨b', hb', hres⟩ := Pointwise.exists_right hbs hb
    obtain ⟨hrole, hplace⟩ := h.resolves hn hb hres
    exact hnew.2 ⟨b', hb', (hgates hrole).trans hgate, hplace.kept hq hne⟩
  case old =>
    intro q hq
    obtain ⟨b', hb', hgate, hq⟩ := hnew.1 hq
    obtain ⟨b, hb, hres⟩ := Pointwise.exists_left hbs hb'
    obtain ⟨hrole, hplace⟩ := h.resolves hn hb hres
    rcases hplace.old hq with hq | ⟨-, hq⟩
    · exact .inl ((h.unfolds.mem_predecessors hn).2 ⟨b, hb, (hgates hrole).symm.trans hgate, hq⟩)
    · exact .inr ⟨hpm, hq⟩
  case some =>
    intro hvars _
    obtain ⟨b, hb, hgate, hp⟩ := (h.unfolds.mem_predecessors hn).1 hpm
    obtain ⟨b', hb', hres⟩ := Pointwise.exists_right hbs hb
    obtain ⟨hrole, hplace⟩ := h.resolves hn hb hres
    obtain ⟨q, hq, hqb⟩ := hplace.some hvars hp
    exact ⟨q, hq, hnew.2 ⟨b', hb', (hgates hrole).trans hgate, hqb⟩⟩

/-! ## The nodes afterwards -/

def instanceEdges (node : Node) (template : StepInstance) (vars : List LoopVars) :
    List (NodeId × NodeId) := (instances node template vars).flatMap Node.inEdges

def withInstances (nodes : NodeMap) (node : Node) (template : StepInstance)
    (vars : List LoopVars) : NodeMap :=
  (instances node template vars).foldl NodeMap.insertLinked nodes

def newSuccessors (nodes : NodeMap) (node : Node) (template : StepInstance) (vars : List LoopVars)
    (changes : List (NodeId × List Binding)) (x : NodeId) : List NodeId :=
  NodeMap.targets (instanceEdges node template vars) x ++
    NodeMap.targets ((withInstances nodes node template vars).reboundEdges changes) x

theorem get?_withInstances (x : NodeId) :
    (∀ c ∈ instances node template vars, c.id = x →
      (withInstances nodes node template vars).get? x = some c) ∧
    ((∀ c ∈ instances node template vars, c.id ≠ x) →
      (withInstances nodes node template vars).get? x = (nodes.get? x).map fun y =>
        y.addSuccessors (NodeMap.targets (instanceEdges node template vars) x)) := by
  refine NodeMap.get?_foldl_insertLinked _ ?_ (fun c hc c' hc' => h.instance_not_mem hc hc') nodes x
  rw [h.map_id_instances]
  exact NodeId.nodup_children _ _

theorem get?_withInstances_of_get? {x : NodeId} {n : Node} (hn : nodes.get? x = some n) :
    (withInstances nodes node template vars).get? x =
      some (n.addSuccessors (NodeMap.targets (instanceEdges node template vars) x)) := by
  rw [(h.get?_withInstances x).2 fun c hc => h.instance_ne hc hn, hn]
  rfl

theorem get?_foldl_rebind (x : NodeId) :
    (∀ bs, (x, bs) ∈ changes →
      (changes.foldl Plan.rebind (withInstances nodes node template vars)).get? x =
        ((withInstances nodes node template vars).get? x).map fun y =>
          (y.rebound bs).addSuccessors (NodeMap.targets
            ((withInstances nodes node template vars).reboundEdges changes) x)) ∧
    (x ∉ changes.map Prod.fst →
      (changes.foldl Plan.rebind (withInstances nodes node template vars)).get? x =
        ((withInstances nodes node template vars).get? x).map fun y => y.addSuccessors
          (NodeMap.targets ((withInstances nodes node template vars).reboundEdges changes) x)) := by
  refine NodeMap.get?_foldl_rebind _ h.nodup_changes _ (fun c hc => ?_) x
  obtain ⟨-, n, hn, -⟩ := h.change hc
  exact ⟨_, h.get?_withInstances_of_get? hn⟩

def after (nodes : NodeMap) (p : NodeId) (node : Node) (template : StepInstance)
    (vars : List LoopVars) (changes : List (NodeId × List Binding)) : NodeMap :=
  Plan.spliced nodes p (instances node template vars) changes

omit h in
theorem get?_after_of_ne {x : NodeId} (hx : x ≠ p) : (after nodes p node template vars changes).get? x =
    (changes.foldl Plan.rebind (withInstances nodes node template vars)).get? x := by
  rw [after, Plan.spliced, SortedMap.get?_modify, if_neg hx]
  rfl

theorem get?_after_self : (after nodes p node template vars changes).get? p =
    some { node with successors := .empty } := by
  have hp : p ∉ changes.map Prod.fst := by
    intro hp
    obtain ⟨⟨_, bs⟩, hc, rfl⟩ := List.mem_map.1 hp
    exact (h.change hc).1 rfl
  have hget := (h.get?_foldl_rebind p).2 hp
  rw [h.get?_withInstances_of_get? h.found] at hget
  rw [after, Plan.spliced, SortedMap.get?_modify, if_pos rfl]
  exact congrArg (Option.map _) hget

theorem get?_after_instance {c : Node} (hc : c ∈ instances node template vars) :
    (after nodes p node template vars changes).get? c.id = some (c.addSuccessors (NodeMap.targets
      ((withInstances nodes node template vars).reboundEdges changes) c.id)) := by
  have hnot : c.id ∉ changes.map Prod.fst := by
    intro hm
    obtain ⟨⟨_, bs⟩, hm, he⟩ := List.mem_map.1 hm
    obtain ⟨-, n, hn, -⟩ := h.change hm
    exact h.instance_ne hc hn he.symm
  rw [get?_after_of_ne (h.instance_ne hc h.found), (h.get?_foldl_rebind c.id).2 hnot,
    (h.get?_withInstances c.id).1 c hc rfl]
  rfl

theorem get?_after_changed {x : NodeId} {bs : List Binding} (hc : (x, bs) ∈ changes) {n : Node}
    (hn : nodes.get? x = some n) : (after nodes p node template vars changes).get? x =
      some ((n.rebound bs).addSuccessors (newSuccessors nodes node template vars changes x)) := by
  rw [get?_after_of_ne (h.change hc).1, (h.get?_foldl_rebind x).1 bs hc,
    h.get?_withInstances_of_get? hn, newSuccessors, ← Node.addSuccessors_append]
  rfl

theorem get?_after_other {x : NodeId} {n : Node} (hn : nodes.get? x = some n) (hx : x ≠ p)
    (hp : p ∉ n.predecessors) : (after nodes p node template vars changes).get? x =
      some (n.addSuccessors (newSuccessors nodes node template vars changes x)) := by
  have hnot : x ∉ changes.map Prod.fst := fun hm => hp ((h.mem_changes hn).1 hm)
  rw [get?_after_of_ne hx, (h.get?_foldl_rebind x).2 hnot, h.get?_withInstances_of_get? hn,
    newSuccessors, ← Node.addSuccessors_append]
  rfl

theorem get?_after_none {x : NodeId} (hx : nodes.get? x = none)
    (hi : ∀ c ∈ instances node template vars, c.id ≠ x) :
    (after nodes p node template vars changes).get? x = none := by
  have hne : x ≠ p := by
    rintro rfl
    rw [h.found] at hx
    cases hx
  have hnot : x ∉ changes.map Prod.fst := by
    intro hm
    obtain ⟨⟨_, bs⟩, hc, rfl⟩ := List.mem_map.1 hm
    obtain ⟨-, n, hn, -⟩ := h.change hc
    rw [hx] at hn
    cases hn
  rw [get?_after_of_ne hne, (h.get?_foldl_rebind x).2 hnot, (h.get?_withInstances x).2 hi, hx]
  rfl

/-- What a node is after the expansion: an instance, the placeholder, a node behind the placeholder
with new bindings, or a node as before. -/
theorem cases_after {x : NodeId} {n' : Node}
    (hn' : (after nodes p node template vars changes).get? x = some n') :
    (∃ c ∈ instances node template vars, x = c.id ∧ n' = c.addSuccessors (NodeMap.targets
      ((withInstances nodes node template vars).reboundEdges changes) x)) ∨
    (x = p ∧ n' = { node with successors := .empty }) ∨
    (∃ n bs, x ≠ p ∧ nodes.get? x = some n ∧ (x, bs) ∈ changes ∧
      n' = (n.rebound bs).addSuccessors (newSuccessors nodes node template vars changes x)) ∨
    ∃ n, x ≠ p ∧ nodes.get? x = some n ∧ p ∉ n.predecessors ∧
      n' = n.addSuccessors (newSuccessors nodes node template vars changes x) := by
  by_cases hi : ∃ c ∈ instances node template vars, c.id = x
  · obtain ⟨c, hc, rfl⟩ := hi
    rw [h.get?_after_instance hc] at hn'
    cases hn'
    exact .inl ⟨c, hc, rfl, rfl⟩
  · have hi' : ∀ c ∈ instances node template vars, c.id ≠ x := fun c hc he => hi ⟨c, hc, he⟩
    cases hn : nodes.get? x with
    | none =>
      rw [h.get?_after_none hn hi'] at hn'
      cases hn'
    | some n =>
      by_cases hx : x = p
      · subst hx
        rw [h.get?_after_self] at hn'
        cases hn'
        exact .inr (.inl ⟨rfl, rfl⟩)
      · by_cases hp : p ∈ n.predecessors
        · obtain ⟨⟨_, bs⟩, hc, rfl⟩ := List.mem_map.1 ((h.mem_changes hn).2 hp)
          rw [h.get?_after_changed hc hn] at hn'
          cases hn'
          exact .inr (.inr (.inl ⟨n, bs, hx, rfl, hc, rfl⟩))
        · rw [h.get?_after_other hn hx hp] at hn'
          cases hn'
          exact .inr (.inr (.inr ⟨n, hx, rfl, hp, rfl⟩))

theorem mem_reboundEdges {q x : NodeId} :
    (q, x) ∈ (withInstances nodes node template vars).reboundEdges changes ↔
      ∃ bs n, (x, bs) ∈ changes ∧ nodes.get? x = some n ∧ q ∈ (n.rebound bs).predecessors := by
  rw [NodeMap.mem_reboundEdges]
  constructor
  · rintro ⟨id, bs, n', hc, hn', he⟩
    obtain ⟨-, n, hn, -⟩ := h.change hc
    rw [h.get?_withInstances_of_get? hn] at hn'
    cases hn'
    obtain ⟨hq, hx⟩ := Node.mem_inEdges.1 he
    have hnid : n.id = id := h.unfolds.linked.id_eq hn
    have hid : x = id := hx.trans hnid
    subst hid
    exact ⟨bs, n, hc, hn, hq⟩
  · rintro ⟨bs, n, hc, hn, hq⟩
    refine ⟨x, bs, _, hc, h.get?_withInstances_of_get? hn, Node.mem_inEdges.2 ⟨hq, ?_⟩⟩
    exact (h.unfolds.linked.id_eq hn).symm

omit h in
theorem mem_instanceEdges {q x : NodeId} : (q, x) ∈ instanceEdges node template vars ↔
    ∃ c ∈ instances node template vars, x = c.id ∧ q ∈ c.predecessors := by
  rw [instanceEdges, List.mem_flatMap]
  refine exists_congr fun c => and_congr_right fun _ => ?_
  rw [Node.mem_inEdges, and_comm]

/-! ## Links -/

theorem mem_newSuccessors {x q : NodeId} :
    q ∈ newSuccessors nodes node template vars changes x ↔
      (∃ c ∈ instances node template vars, q = c.id ∧ x ∈ c.predecessors) ∨
      ∃ bs n, (q, bs) ∈ changes ∧ nodes.get? q = some n ∧ x ∈ (n.rebound bs).predecessors := by
  rw [newSuccessors, List.mem_append, NodeMap.mem_targets, NodeMap.mem_targets, mem_instanceEdges,
    h.mem_reboundEdges]

/-- Who waits for a node after the expansion: the instances and the nodes with new bindings as they
say, and the others as before. -/
theorem waits_after {x q : NodeId} :
    (∃ m, (after nodes p node template vars changes).get? q = some m ∧ x ∈ m.predecessors) ↔
      (∃ c ∈ instances node template vars, q = c.id ∧ x ∈ c.predecessors) ∨
      (∃ bs n, (q, bs) ∈ changes ∧ nodes.get? q = some n ∧ x ∈ (n.rebound bs).predecessors) ∨
      ∃ n, nodes.get? q = some n ∧ p ∉ n.predecessors ∧ x ∈ n.predecessors := by
  constructor
  · rintro ⟨m, hm, hx⟩
    rcases h.cases_after hm with ⟨c, hc, rfl, rfl⟩ | ⟨rfl, rfl⟩ | ⟨n, bs, -, hn, hc, rfl⟩ |
      ⟨n, -, hn, hp, rfl⟩
    · exact .inl ⟨c, hc, rfl, hx⟩
    · refine .inr (.inr ⟨node, h.found, fun hp => ?_, hx⟩)
      obtain ⟨⟨_, bs⟩, hc, rfl⟩ := List.mem_map.1 ((h.mem_changes h.found).2 hp)
      exact (h.change hc).1 rfl
    · exact .inr (.inl ⟨bs, n, hc, hn, hx⟩)
    · exact .inr (.inr ⟨n, hn, hp, hx⟩)
  · rintro (⟨c, hc, rfl, hx⟩ | ⟨bs, n, hc, hn, hx⟩ | ⟨n, hn, hp, hx⟩)
    · exact ⟨_, h.get?_after_instance hc, hx⟩
    · exact ⟨_, h.get?_after_changed hc hn, hx⟩
    · by_cases hq : q = p
      · subst hq
        cases hn.symm.trans h.found
        exact ⟨_, h.get?_after_self, hx⟩
      · exact ⟨_, h.get?_after_other hn hq hp, hx⟩

theorem instance_not_mem_old {c : Node} (hc : c ∈ instances node template vars) {q : NodeId}
    {n : Node} (hn : nodes.get? q = some n) : c.id ∉ n.predecessors := by
  intro hm
  obtain ⟨n₀, replication, hn₀, hk⟩ := h.placeholder
  obtain ⟨b, hb, -, hq⟩ := (h.unfolds.mem_predecessors hn).1 hm
  obtain ⟨i, v, -, rfl⟩ := h.mem_instances.1 hc
  exact h.unfolds.producer_ne_child h.sound hn₀ hk h.unexpanded hn hb hq i rfl

theorem waits_of_old {x q : NodeId} (hx : x ≠ p) :
    ((∃ m, nodes.get? q = some m ∧ x ∈ m.predecessors) ∨
      (∃ c ∈ instances node template vars, q = c.id ∧ x ∈ c.predecessors) ∨
      ∃ bs n, (q, bs) ∈ changes ∧ nodes.get? q = some n ∧ x ∈ (n.rebound bs).predecessors) ↔
    (∃ c ∈ instances node template vars, q = c.id ∧ x ∈ c.predecessors) ∨
      (∃ bs n, (q, bs) ∈ changes ∧ nodes.get? q = some n ∧ x ∈ (n.rebound bs).predecessors) ∨
      ∃ n, nodes.get? q = some n ∧ p ∉ n.predecessors ∧ x ∈ n.predecessors := by
  constructor
  · rintro (⟨m, hm, hxm⟩ | hi | hc)
    · by_cases hp : p ∈ m.predecessors
      · obtain ⟨⟨_, bs⟩, hc, rfl⟩ := List.mem_map.1 ((h.mem_changes hm).2 hp)
        exact .inr (.inl ⟨bs, m, hc, hm, (h.replaced_rebound hc hm).kept hxm hx⟩)
      · exact .inr (.inr ⟨m, hm, hp, hxm⟩)
    · exact .inl hi
    · exact .inr (.inl hc)
  · rintro (hi | hc | ⟨n, hn, -, hm⟩)
    · exact .inr (.inl hi)
    · exact .inr (.inr hc)
    · exact .inl ⟨n, hn, hm⟩

theorem linked_after : (after nodes p node template vars changes).Linked where
  id_eq := by
    intro x n' hn'
    rcases h.cases_after hn' with ⟨c, hc, rfl, rfl⟩ | ⟨rfl, rfl⟩ | ⟨n, bs, -, hn, -, rfl⟩ |
      ⟨n, -, hn, -, rfl⟩
    · rfl
    · exact (h.unfolds.linked.id_eq h.found : node.id = x)
    · exact (h.unfolds.linked.id_eq hn : n.id = x)
    · exact (h.unfolds.linked.id_eq hn : n.id = x)
  mem_successors := by
    intro x n' hn' q
    rw [h.waits_after]
    rcases h.cases_after hn' with ⟨c, hc, rfl, rfl⟩ | ⟨rfl, rfl⟩ | ⟨n, bs, hx, hn, hc, rfl⟩ |
      ⟨n, hx, hn, -, rfl⟩
    · -- an instance has the successors of the new bindings only
      have hsucc : c.successors = .empty := by
        obtain ⟨i, v, -, rfl⟩ := h.mem_instances.1 hc
        rfl
      rw [Node.mem_addSuccessors, hsucc, NodeMap.mem_targets, h.mem_reboundEdges]
      constructor
      · rintro (hq | hq)
        · exact absurd hq (SortedSet.not_mem_empty q)
        · exact .inr (.inl hq)
      · rintro (⟨c', hc', rfl, hm⟩ | hq | ⟨n, hn, -, hm⟩)
        · exact absurd hm (h.instance_not_mem hc' hc)
        · exact .inr hq
        · exact absurd hm (h.instance_not_mem_old hc hn)
    · constructor
      · exact fun hq => absurd hq (SortedSet.not_mem_empty q)
      · rintro (⟨c, hc, rfl, hm⟩ | ⟨bs, n, hc, hn, hm⟩ | ⟨n, hn, hp, hm⟩)
        · exact absurd hm (h.placeholder_not_mem hc)
        · exact absurd hm (h.replaced_rebound hc hn).gone
        · exact absurd hm hp
    · rw [Node.mem_addSuccessors, Node.successors_rebound, h.unfolds.linked.mem_successors hn,
        h.mem_newSuccessors]
      exact h.waits_of_old hx
    · rw [Node.mem_addSuccessors, h.unfolds.linked.mem_successors hn, h.mem_newSuccessors]
      exact h.waits_of_old hx

/-! ## Blueprints -/

theorem exists_after {x : NodeId} {n : Node} (hn : nodes.get? x = some n) :
    ∃ n', (after nodes p node template vars changes).get? x = some n' ∧ n'.kind = n.kind := by
  by_cases hx : x = p
  · subst hx
    cases hn.symm.trans h.found
    exact ⟨_, h.get?_after_self, rfl⟩
  · by_cases hp : p ∈ n.predecessors
    · obtain ⟨⟨_, bs⟩, hc, rfl⟩ := List.mem_map.1 ((h.mem_changes hn).2 hp)
      exact ⟨_, h.get?_after_changed hc hn, rfl⟩
    · exact ⟨_, h.get?_after_other hn hx hp, rfl⟩

theorem blueprint_set {id : NodeId} {kind : NodeKind} {bs : List Binding}
    (hbp : Blueprint g E id kind bs) : Blueprint g (E.set p vars) id kind bs := by
  refine hbp.mono fun {q vars'} hq => ?_
  have hne : q ≠ p := by
    rintro rfl
    rw [h.unexpanded] at hq
    cases hq
  exact (Expansions.set_of_ne hne).trans hq

theorem resolves_placeholder {n : Node} (hn : g.node? p = some n) : node.kind = n.kind ∧
    List.Forall₂ (Binding.Resolves (E.set p vars)) n.bindings node.bindings := by
  obtain ⟨n₀, replication, hn₀, hk⟩ := h.placeholder
  cases hn.symm.trans hn₀
  obtain ⟨bs, hbp, hres⟩ := h.unfolds.known h.found
  obtain ⟨hkind, rfl⟩ := hbp.unique h.sound (.declared hn)
  refine ⟨hkind, Pointwise.imp_mem hres fun b₀ _ b hb hr => ?_⟩
  exact hr.set h.unexpanded (h.unfolds.not_names_self h.sound hn hk h.unexpanded h.found hb)

theorem known_after {x : NodeId} {n' : Node}
    (hn' : (after nodes p node template vars changes).get? x = some n') :
    ∃ bs, Blueprint g (E.set p vars) x n'.kind bs ∧
      List.Forall₂ (Binding.Resolves (E.set p vars)) bs n'.bindings := by
  obtain ⟨n₀, replication, hn₀, hk⟩ := h.placeholder
  rcases h.cases_after hn' with ⟨c, hc, rfl, rfl⟩ | ⟨rfl, rfl⟩ | ⟨n, bs, -, hn, hc, rfl⟩ |
    ⟨n, -, hn, hp, rfl⟩
  · obtain ⟨i, v, hv, rfl⟩ := h.mem_instances.1 hc
    refine ⟨_, .spliced hn₀ hk Expansions.set_self hv, ?_⟩
    exact Pointwise.filter (h.resolves_placeholder hn₀).2 fun b₀ b hr => by rw [hr.role_eq]
  · obtain ⟨hkind, hres⟩ := h.resolves_placeholder hn₀
    have hbp : Blueprint g (E.set x vars) x n₀.kind n₀.bindings := .declared hn₀
    rw [← hkind] at hbp
    exact ⟨_, hbp, hres⟩
  · obtain ⟨bs₀, hbp, hres⟩ := h.unfolds.known hn
    obtain ⟨-, m, hm, -, hbs⟩ := h.change hc
    cases hn.symm.trans hm
    refine ⟨bs₀, h.blueprint_set hbp, Pointwise.trans hres hbs fun b₀ hb₀ b b' hr hres => ?_⟩
    exact (NodeMap.Unfolds.resolves_of_resolveBinding h.sound hn₀ hk h.unexpanded hbp hb₀ hr hres).1
  · obtain ⟨bs₀, hbp, hres⟩ := h.unfolds.known hn
    refine ⟨bs₀, h.blueprint_set hbp, Pointwise.imp_mem hres fun b₀ _ b hb hr => ?_⟩
    refine hr.set h.unexpanded fun hq => hp ?_
    exact h.unfolds.waits_of_names h.sound hn₀ hk h.unexpanded hn hb hq

theorem unfolds_after : (after nodes p node template vars changes).Unfolds g (E.set p vars) where
  linked := h.linked_after
  known := h.known_after
  complete := by
    intro id kind bs hbp
    have hold : ∀ {id kind bs}, Blueprint g E id kind bs →
        ∃ n, (after nodes p node template vars changes).get? id = some n := by
      intro id kind bs hbp
      obtain ⟨n, hn⟩ := h.unfolds.complete hbp
      obtain ⟨n', hn', -⟩ := h.exists_after hn
      exact ⟨n', hn'⟩
    cases hbp with
    | declared hd => exact hold (.declared hd)
    | @spliced q n replication template' vars' i v hd hk hq hv =>
      by_cases hqp : q = p
      · subst hqp
        rw [Expansions.set_self] at hq
        cases hq
        obtain ⟨n₀, replication', hn₀, hk₀⟩ := h.placeholder
        cases hd.symm.trans hn₀
        cases hk.symm.trans hk₀
        have hc := h.mem_instances.2 ⟨i, v, hv, rfl⟩
        exact ⟨_, h.get?_after_instance hc⟩
      · rw [Expansions.set_of_ne hqp] at hq
        exact hold (.spliced hd hk hq hv)
  predecessors := by
    intro x n' hn'
    rcases h.cases_after hn' with ⟨c, hc, rfl, rfl⟩ | ⟨rfl, rfl⟩ | ⟨n, bs, -, hn, hc, rfl⟩ |
      ⟨n, -, hn, hp, rfl⟩
    · obtain ⟨i, v, -, rfl⟩ := h.mem_instances.1 hc
      rfl
    · have hpred := h.unfolds.predecessors h.found
      exact hpred
    · rfl
    · have hpred := h.unfolds.predecessors hn
      exact hpred
  expanded := by
    intro q vars' hq
    by_cases hqp : q = p
    · subst hqp
      obtain ⟨n₀, replication, hn₀, hk⟩ := h.placeholder
      exact ⟨n₀, hn₀, by rw [hk]; rfl⟩
    · rw [Expansions.set_of_ne hqp] at hq
      exact h.unfolds.expanded hq

end Expanding

end Workplan
