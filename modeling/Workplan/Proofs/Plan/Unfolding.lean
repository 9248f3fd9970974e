import Workplan.Proofs.Plan.Splicing

/-! Unfolding: the nodes of a plan are those of its blueprints, with bindings resolved as far as
placeholders have been expanded. Expanding one more placeholder keeps that (`Unfolds.splice`). -/
namespace Workplan
open Outcome
set_option autoImplicit false

theorem Node.resources_congr {n n' : Node} (h : n'.bindings = n.bindings) :
    n'.resources = n.resources := by
  rw [Node.resources, Node.resources, h]

theorem Graph.Sound.not_mem_self {g : Graph} (hg : g.Sound) {id : NodeId} {n : Node}
    (hn : g.node? id = some n) : id ∉ n.predecessors := by
  intro hm
  obtain ⟨before, after, hsplit⟩ := List.append_of_mem (hg.ordered.mem_iff.2 ⟨n, hn⟩)
  have hbefore := hg.ordered.behind hsplit hn id hm
  have hnd := hg.ordered.nodup
  rw [hsplit, List.nodup_append] at hnd
  exact hnd.2.2 id hbefore id List.mem_cons_self rfl

/-- Instances have taken the place of a placeholder among nodes. -/
structure NodeId.Replaced {γ : Type} [Membership NodeId γ] (p : NodeId) (vars : List LoopVars)
    (before after : γ) : Prop where
  gone : p ∉ after
  kept : ∀ {q}, q ∈ before → q ≠ p → q ∈ after
  old : ∀ {q}, q ∈ after → q ∈ before ∨ (p ∈ before ∧ q ∈ p.children vars.length)
  some : vars ≠ [] → p ∈ before → ∃ q ∈ p.children vars.length, q ∈ after

/-- What the nodes of a plan are. -/
structure NodeMap.Unfolds (g : Graph) (E : Expansions) (nodes : NodeMap) : Prop where
  linked : nodes.Linked
  known : ∀ {id n}, nodes.get? id = some n →
    ∃ bs, Blueprint g E id n.kind bs ∧ List.Forall₂ (Binding.Resolves E) bs n.bindings
  complete : ∀ {id kind bs}, Blueprint g E id kind bs → ∃ n, nodes.get? id = some n
  predecessors : ∀ {id n}, nodes.get? id = some n →
    n.predecessors = SortedSet.ofList n.edgeProducers
  expanded : ∀ {p vars}, E p = some vars → ∃ n, g.node? p = some n ∧ n.kind.isExpansion = true

theorem Graph.Sound.plain {g : Graph} (hg : g.Sound) {id : NodeId} {n : Node}
    (hn : g.node? id = some n) (hk : n.kind.isExpansion = true) : id.Plain := by
  obtain ⟨replication, template, hkind⟩ := NodeKind.exists_of_isExpansion hk
  exact (hg.expansion hn hkind).2

namespace NodeMap.Unfolds
variable {g : Graph} {E : Expansions} {nodes : NodeMap}

theorem start (hg : g.Sound) : g.nodes.Unfolds g Expansions.none where
  linked := hg.linked
  known := by
    intro id n hn
    refine ⟨n.bindings, .declared hn, List.forall₂_same.2 fun b _ => .kept fun q _ => rfl⟩
  complete := by
    intro id kind bs h
    cases h with
    | declared h => exact ⟨_, h⟩
    | spliced h hk hE hv => cases hE
  predecessors := hg.predecessors
  expanded := fun h => by cases h

section Nodes
variable (h : nodes.Unfolds g E) {id : NodeId} {n : Node} (hn : nodes.get? id = some n)
include h hn

theorem kind_eq (hg : g.Sound) {m : Node} (hm : g.node? id = some m) : n.kind = m.kind := by
  obtain ⟨bs, hbp, -⟩ := h.known hn
  exact (hbp.unique hg (.declared hm)).1

theorem mem_predecessors {q : NodeId} : q ∈ n.predecessors ↔
    ∃ b ∈ n.bindings, Node.gates n.kind.isExpansion b = true ∧ q ∈ b.producers := by
  rw [h.predecessors hn, SortedSet.mem_ofList, Node.mem_edgeProducers]

theorem eq_resource (hg : g.Sound) {name kind : String} {args : SortedMap String Expression}
    (hk : n.kind = .resource name kind args) : id = NodeId.resource name := by
  obtain ⟨bs, hbp, -⟩ := h.known hn
  obtain ⟨m, hm, hmk, -⟩ := hbp.exists_declared (.inr (by rw [hk]; rfl))
  exact hg.resource hm (hmk.trans hk)

theorem isResource_eq (hg : g.Sound) : id.isResource = n.kind.isResource := by
  obtain ⟨bs, hbp, -⟩ := h.known hn
  exact hbp.isResource hg

theorem exists_eq_resource (hg : g.Sound) (hk : n.kind.isResource = true) :
    ∃ name, id = NodeId.resource name := by
  obtain ⟨name, kind, arguments, hkind⟩ := NodeKind.exists_of_isResource hk
  exact ⟨name, h.eq_resource hn hg hkind⟩

theorem exists_resolves {b : Binding} (hb : b ∈ n.bindings) :
    ∃ bs, Blueprint g E id n.kind bs ∧ ∃ b₀ ∈ bs, b₀.Resolves E b := by
  obtain ⟨bs, hbp, hres⟩ := h.known hn
  obtain ⟨b₀, hb₀, hr⟩ := Pointwise.exists_left hres hb
  exact ⟨bs, hbp, b₀, hb₀, hr⟩

theorem producer (hg : g.Sound) {b : Binding} (hb : b ∈ n.bindings) {q : NodeId}
    (hq : q ∈ b.producers) :
    (E q = none ∧ ∃ m, g.node? q = some m) ∨
      ∃ p vars i, E p = some vars ∧ i < vars.length ∧ q = p.child i := by
  obtain ⟨bs, hbp, b₀, hb₀, hr⟩ := h.exists_resolves hn hb
  rcases hr.producer hq with ⟨hq₀, hE⟩ | ⟨p, vars, i, -, hp, hi, rfl⟩
  · exact .inl ⟨hE, hbp.closed hg hb₀ hq₀⟩
  · exact .inr ⟨p, vars, i, hp, hi, rfl⟩

theorem exists_producer (hg : g.Sound) {b : Binding} (hb : b ∈ n.bindings) {q : NodeId}
    (hq : q ∈ b.producers) : ∃ m, nodes.get? q = some m := by
  rcases h.producer hn hg hb hq with ⟨-, m, hm⟩ | ⟨p, vars, i, hp, hi, rfl⟩
  · exact h.complete (.declared hm)
  · obtain ⟨m, hm, hk⟩ := h.expanded hp
    obtain ⟨replication, template, hkind⟩ := NodeKind.exists_of_isExpansion hk
    exact h.complete (.spliced hm hkind hp (List.getElem?_eq_getElem hi))

omit hn in
theorem expansions_resource (hg : g.Sound) (name : String) : E (NodeId.resource name) = none := by
  cases hE : E (NodeId.resource name) with
  | none => rfl
  | some vars =>
    obtain ⟨m, hm, hk⟩ := h.expanded hE
    have hr := hg.isResource hm
    rw [NodeId.isResource_resource] at hr
    cases hk.symm.trans (NodeKind.isExpansion_of_isResource hr.symm)

theorem producers_of_uses (hg : g.Sound) {b : Binding} (hb : b ∈ n.bindings) (hr : b.role = .uses) :
    ∃ name ∈ n.kind.uses, b.producers = [NodeId.resource name] := by
  obtain ⟨bs, hbp, b₀, hb₀, hres⟩ := h.exists_resolves hn hb
  obtain ⟨name, hname, hp⟩ := hbp.uses hg hb₀ (hres.role_eq.symm.trans hr)
  refine ⟨name, hname, ?_⟩
  cases hres with
  | kept => exact hp
  | replaced hs hE =>
    cases hp.symm.trans hs
    rw [h.expansions_resource hg] at hE
    cases hE

theorem mem_resources (hg : g.Sound) {q : NodeId} :
    q ∈ n.resources ↔ ∃ name ∈ n.kind.uses, q = NodeId.resource name := by
  rw [Node.resources, List.mem_flatMap]
  constructor
  · rintro ⟨b, hb, hq⟩
    obtain ⟨hb, hr⟩ := List.mem_filter.1 hb
    obtain ⟨name, hname, hp⟩ := h.producers_of_uses hn hg hb (of_decide_eq_true hr)
    rw [hp] at hq
    exact ⟨name, hname, List.mem_singleton.1 hq⟩
  · rintro ⟨name, hname, rfl⟩
    obtain ⟨bs, hbp, hres⟩ := h.known hn
    obtain ⟨b₀, hb₀, hr₀, hp₀⟩ := hbp.bound hg hname
    obtain ⟨b, hb, hr⟩ := Pointwise.exists_right hres hb₀
    have hrole : b.role = .uses := hr.role_eq.trans hr₀
    refine ⟨b, List.mem_filter.2 ⟨hb, decide_eq_true hrole⟩, ?_⟩
    cases hr with
    | kept =>
      rw [hp₀]
      exact List.mem_singleton_self _
    | replaced hs hE =>
      cases hp₀.symm.trans hs
      rw [h.expansions_resource hg] at hE
      cases hE

end Nodes

/-! ## Expanding one more placeholder -/

section Splice
variable {p : NodeId} {n₀ node : Node} {replication : Replication} {template : StepInstance}
variable {vars : List LoopVars} {changes : List (NodeId × List Binding)}
variable (hg : g.Sound) (h : nodes.Unfolds g E) (hp : g.node? p = some n₀)
variable (hk : n₀.kind = .expansion replication template) (hE : E p = none)
include hg h hp hk hE

theorem fresh (i : Nat) : nodes.get? (p.child i) = none := by
  cases hc : nodes.get? (p.child i) with
  | none => rfl
  | some n =>
    obtain ⟨bs, hbp, -⟩ := h.known hc
    generalize hid : p.child i = id at hbp
    generalize n.kind = kind at hbp
    cases hbp with
    | declared hd =>
      have := hg.fresh hp (by rw [hk]; rfl) i
      rw [hid, hd] at this
      cases this
    | spliced hd hk' hE' hv =>
      obtain ⟨rfl, -⟩ := NodeId.child_inj hid
      rw [hE] at hE'
      cases hE'

omit h in
theorem eq_of_names {id : NodeId} {kind : NodeKind} {bs : List Binding}
    (hbp : Blueprint g E id kind bs) {b₀ b : Binding} (hb₀ : b₀ ∈ bs) (hr : b₀.Resolves E b)
    (hq : p ∈ b.producers) : b = b₀ ∧ b.producers = [p] := by
  rcases hr.producer hq with ⟨hq₀, -⟩ | ⟨q, vars, i, -, -, -, he⟩
  · have halone := hbp.alone hg hb₀ hq₀ hp (by rw [hk]; rfl)
    cases hr with
    | kept => exact ⟨rfl, halone⟩
    | replaced hs hE' hres =>
      cases halone.symm.trans hs
      rw [hE] at hE'
      cases hE'
  · exact absurd he.symm (NodeId.child_ne_of_plain (hg.expansion hp hk).2)

omit h hE in
/-- A binding with a value or an order to wait for is not one of the resources that a node uses. -/
theorem gates_of_names {id : NodeId} {kind : NodeKind} {bs : List Binding}
    (hbp : Blueprint g E id kind bs) {b : Binding} (hb : b ∈ bs) (hq : p ∈ b.producers) :
    Node.gates kind.isExpansion b = true := by
  have hrole : b.role ≠ .uses := by
    intro hu
    obtain ⟨name, -, hres⟩ := hbp.uses hg hb hu
    have hpe : p = NodeId.resource name := List.mem_singleton.1 (hres ▸ hq)
    exact NodeId.step_ne_resource _ _ ((hg.expansion hp hk).1.symm.trans hpe)
  simp [Node.gates, hrole]

omit h in
/-- Instances take the place of the placeholder that a binding names. -/
theorem resolves_of_resolveBinding {id : NodeId} {kind : NodeKind} {bs : List Binding}
    (hbp : Blueprint g E id kind bs) {b₀ b b' : Binding} (hb₀ : b₀ ∈ bs) (hr : b₀.Resolves E b)
    {x : NodeId} (hres : Plan.resolveBinding x p (p.children vars.length) b = .ok b') :
    b₀.Resolves (E.set p vars) b' ∧ b'.role = b.role ∧ p.Replaced vars b.producers b'.producers := by
  rw [Plan.resolveBinding] at hres
  by_cases hq : p ∈ b.producers
  · obtain ⟨rfl, halone⟩ := eq_of_names hg hp hk hE hbp hb₀ hr hq
    rw [if_pos (by simpa using hq)] at hres
    obtain ⟨ids, hids, hres⟩ := bind_eq_ok.1 hres
    cases hres
    have hf : (b.producers.filter fun q => q ≠ p) = [] := by
      rw [halone]
      simp
    rw [hf, List.nil_append]
    obtain ⟨hsub, hne⟩ := Building.resolveProducers_spec hids
    refine ⟨.replaced halone Expansions.set_self hids, rfl, ?_⟩
    constructor
    case gone =>
      intro hm
      obtain ⟨i, -, he⟩ := NodeId.mem_children.1 (hsub hm)
      exact NodeId.child_ne_of_plain (hg.expansion hp hk).2 he.symm
    case kept =>
      intro q hq' hne
      rw [halone] at hq'
      exact absurd (List.mem_singleton.1 hq') hne
    case old => exact fun hq' => .inr ⟨hq, hsub hq'⟩
    case some =>
      intro hvars _
      have hpos : 0 < vars.length := List.length_pos_of_ne_nil hvars
      have hchild : p.child 0 ∈ p.children vars.length := NodeId.mem_children.2 ⟨0, hpos, rfl⟩
      obtain ⟨q, hq'⟩ := List.exists_mem_of_ne_nil _ (hne (List.ne_nil_of_mem hchild))
      exact ⟨q, hsub hq', hq'⟩
  · rw [if_neg (by simpa using hq)] at hres
    cases hres
    exact ⟨hr.set hE hq, rfl, hq, fun hq' _ => hq', .inl, fun _ h => absurd h hq⟩

variable {id : NodeId} {n : Node} (hn : nodes.get? id = some n)
include hn

theorem producer_ne_child {b : Binding} (hb : b ∈ n.bindings) {q : NodeId} (hq : q ∈ b.producers)
    (i : Nat) : q ≠ p.child i := by
  rintro rfl
  rcases h.producer hn hg hb hq with ⟨-, m, hm⟩ | ⟨q, vars, j, hq, -, he⟩
  · have := hg.fresh hp (by rw [hk]; rfl) i
    rw [hm] at this
    cases this
  · obtain ⟨m, hm, hmk⟩ := h.expanded hq
    obtain ⟨rfl, -⟩ := NodeId.child_inj he
    rw [hE] at hq
    cases hq

theorem waits_of_names {b : Binding} (hb : b ∈ n.bindings) (hq : p ∈ b.producers) :
    p ∈ n.predecessors := by
  obtain ⟨bs, hbp, b₀, hb₀, hr⟩ := h.exists_resolves hn hb
  obtain ⟨rfl, -⟩ := eq_of_names hg hp hk hE hbp hb₀ hr hq
  exact (h.mem_predecessors hn).2 ⟨b, hb, gates_of_names hg hp hk hbp hb₀ hq, hq⟩

end Splice

section Placeholder
variable {p : NodeId} {n₀ node : Node} {replication : Replication} {template : StepInstance}
variable (hg : g.Sound) (h : nodes.Unfolds g E) (hp : g.node? p = some n₀)
variable (hk : n₀.kind = .expansion replication template) (hE : E p = none)
variable (hn : nodes.get? p = some node)
include hg h hp hk hE hn

theorem not_names_self {b : Binding} (hb : b ∈ node.bindings) : p ∉ b.producers := by
  intro hq
  obtain ⟨bs, hbp, b₀, hb₀, hr⟩ := h.exists_resolves hn hb
  obtain ⟨rfl, -⟩ := eq_of_names hg hp hk hE hbp hb₀ hr hq
  obtain ⟨hkind, rfl⟩ := hbp.unique hg (.declared hp)
  refine hg.not_mem_self hp ?_
  rw [hg.predecessors hp, SortedSet.mem_ofList, Node.mem_edgeProducers]
  refine ⟨b, hb₀, ?_, hq⟩
  rw [← hkind]
  exact gates_of_names hg hp hk hbp hb₀ hq

end Placeholder
end NodeMap.Unfolds

end Workplan
