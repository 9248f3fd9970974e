import Workplan.Proofs.Plan.Evolution
import Workplan.Run.Work

/-! Persistence: what a node reads is fixed once its predecessors have succeeded. Its bindings stay as they
are however far other placeholders are expanded, and so does the scope of its expressions. This holds
along a run, and also between the runs of one graph, as long as they agree on what they have in common. -/
namespace Workplan
set_option autoImplicit false

theorem Binding.Resolves.later {E E' : Expansions} {b b₁ : Binding} (h : b.Resolves E b₁)
    (hE : ∀ {p vars}, E p = some vars → E' p = some vars)
    (hf : ∀ q ∈ b₁.producers, E q = none → E' q = none) : b.Resolves E' b₁ := by
  cases h with
  | kept h => exact .kept fun q hq => hf q hq (h q hq)
  | replaced hp hE₀ h => exact .replaced hp (hE hE₀) h

namespace NodeMap.Unfolds
variable {g : Graph} {E E' : Expansions} {nodes nodes' : NodeMap} {id : NodeId} {n n' : Node}

theorem exists_later (h : nodes.Unfolds g E) (h' : nodes'.Unfolds g E')
    (hE : ∀ {p vars}, E p = some vars → E' p = some vars) (hn : nodes.get? id = some n) :
    ∃ n', nodes'.get? id = some n' := by
  obtain ⟨bs, hbp, -⟩ := h.known hn
  exact h'.complete (hbp.mono hE)

theorem kind_later (hg : g.Sound) (h : nodes.Unfolds g E) (h' : nodes'.Unfolds g E')
    (hE : ∀ {p vars}, E p = some vars → E' p = some vars) (hn : nodes.get? id = some n)
    (hn' : nodes'.get? id = some n') : n'.kind = n.kind := by
  obtain ⟨bs, hbp, -⟩ := h.known hn
  obtain ⟨bs', hbp', -⟩ := h'.known hn'
  exact (hbp'.unique hg (hbp.mono hE)).1

/-- Bindings of which no producer is expanded later stay as they are. -/
theorem bindings_later (hg : g.Sound) (h : nodes.Unfolds g E) (h' : nodes'.Unfolds g E')
    (hE : ∀ {p vars}, E p = some vars → E' p = some vars) (hn : nodes.get? id = some n)
    (hn' : nodes'.get? id = some n')
    (hf : ∀ b ∈ n.bindings, ∀ q ∈ b.producers, E q = none → E' q = none) :
    n'.bindings = n.bindings := by
  obtain ⟨bs, hbp, hres⟩ := h.known hn
  obtain ⟨bs', hbp', hres'⟩ := h'.known hn'
  obtain ⟨-, rfl⟩ := hbp'.unique hg (hbp.mono hE)
  have hlater : List.Forall₂ (Binding.Resolves E') bs' n.bindings :=
    Pointwise.imp_mem hres fun b₀ _ b hb hr => hr.later hE (hf b hb)
  have hunique : Relator.RightUnique (Binding.Resolves E') := fun _ _ _ h h' => h.unique h'
  exact List.right_unique_forall₂' hunique hres' hlater

theorem predecessors_later (h : nodes.Unfolds g E) (h' : nodes'.Unfolds g E')
    (hn : nodes.get? id = some n) (hn' : nodes'.get? id = some n') (hk : n'.kind = n.kind)
    (hb : n'.bindings = n.bindings) : n'.predecessors = n.predecessors := by
  rw [h'.predecessors hn', h.predecessors hn]
  unfold Node.edgeProducers
  rw [Node.isExpansion_eq, Node.isExpansion_eq, hk, hb]

end NodeMap.Unfolds

namespace Plan
variable {g : Graph} {E E' : Expansions} {p p' : Plan} {id : NodeId} {n n' : Node}

/-- The placeholders that have succeeded have been expanded. -/
def Unpacked (p : Plan) (E : Expansions) : Prop :=
  ∀ {id n}, p.node? id = some n → n.kind.isExpansion = true → p.hasSucceeded id = true →
    ∃ vars, E id = some vars

/-- All that a node waits for has succeeded, but for resources. -/
def Awaits (p : Plan) (n : Node) : Prop :=
  ∀ q ∈ n.predecessors, p.hasSucceeded q = true ∨ q.isResource = true

section Later
variable (hg : g.Sound) (hs : p.Sound g E) (hu : p.Unpacked E) (hs' : p'.Sound g E')
variable (hE : ∀ {q vars}, E q = some vars → E' q = some vars)
include hg hs hu hs'

theorem not_expanded_later {q : NodeId} (hq : p.hasSucceeded q = true ∨ q.isResource = true)
    (hnone : E q = none) : E' q = none := by
  cases hE' : E' q with
  | none => rfl
  | some vars =>
    obtain ⟨m, hm, hk⟩ := hs'.unfolds.expanded hE'
    rcases hq with hq | hq
    · obtain ⟨n, hn⟩ := hs.node_of_status (hasSucceeded_iff.1 hq)
      have hkind : n.kind = m.kind := hs.unfolds.kind_eq hn hg hm
      obtain ⟨vars', hvars⟩ := hu hn (by rw [hkind]; exact hk) hq
      rw [hnone] at hvars
      cases hvars
    · rw [hg.isResource hm] at hq
      cases hk.symm.trans (NodeKind.isExpansion_of_isResource hq)

include hE

/-- A node that waits for resources at most keeps its kind and its bindings. -/
theorem bindings_later (hn : p.node? id = some n) (hn' : p'.node? id = some n') (hq : p.Awaits n) :
    n'.kind = n.kind ∧ n'.bindings = n.bindings := by
  refine ⟨hs.unfolds.kind_later hg hs'.unfolds hE hn hn',
    hs.unfolds.bindings_later hg hs'.unfolds hE hn hn' fun b hb q hqb hnone => ?_⟩
  refine not_expanded_later hg hs hu hs' ?_ hnone
  by_cases hgate : Node.gates n.kind.isExpansion b = true
  · exact hq q ((hs.unfolds.mem_predecessors hn).2 ⟨b, hb, hgate, hqb⟩)
  · -- only the resources of a placeholder do not gate it
    have hrole : b.role = .uses := by
      by_contra hrole
      exact hgate (by simp [Node.gates, hrole])
    obtain ⟨name, -, hprod⟩ := hs.unfolds.producers_of_uses hn hg hb hrole
    rw [hprod] at hqb
    rw [List.mem_singleton.1 hqb]
    exact .inr (NodeId.isResource_resource name)

theorem predecessors_later (hn : p.node? id = some n) (hn' : p'.node? id = some n')
    (hq : p.Awaits n) : n'.predecessors = n.predecessors := by
  obtain ⟨hk, hb⟩ := bindings_later hg hs hu hs' hE hn hn' hq
  exact hs.unfolds.predecessors_later hs'.unfolds hn hn' hk hb

end Later

/-! ## Expansions -/

/-- A placeholder can be expanded when a plan that goes further has been expanded in the same way: the
references to it have been resolved there. -/
theorem exists_expand_eq_ok (hg : g.Sound) (hs : p.Sound g E) (hs' : p'.Sound g E')
    (hE : ∀ {q vars}, E q = some vars → E' q = some vars) {vars : List LoopVars} (hnone : E id = none)
    (hvars : E' id = some vars) (hrun : p.status? id = some .running) :
    ∃ p₁ children, p.expand id vars = .ok (p₁, children) := by
  obtain ⟨n, hn⟩ := hs.node_of_status hrun
  obtain ⟨m, hm, hk⟩ := hs'.unfolds.expanded hvars
  have hkind : n.kind = m.kind := hs.unfolds.kind_eq hn hg hm
  obtain ⟨replication, template, hmk⟩ := NodeKind.exists_of_isExpansion hk
  have hstep := (hg.expansion hm hmk).1
  have hids : Building.instanceIds template.step vars.length = id.children vars.length := by
    rw [hstep]
    rfl
  obtain ⟨changes, hc⟩ : ∃ changes, rewire p.nodes id
      (Building.instanceIds template.step vars.length) n.successors.toList = .ok changes := by
    rw [hids]
    refine exists_rewire_eq_ok fun x _ node hnode b hb => ?_
    rw [resolveBinding]
    by_cases hq : id ∈ b.producers
    · rw [if_pos (by simpa using hq)]
      obtain ⟨bs, hbp, b₀, hb₀, hr⟩ := hs.unfolds.exists_resolves hnode hb
      obtain ⟨rfl, halone⟩ := NodeMap.Unfolds.eq_of_names hg hm hmk hnone hbp hb₀ hr hq
      obtain ⟨node', hnode'⟩ := hs.unfolds.exists_later hs'.unfolds hE hnode
      obtain ⟨bs', hbp', hres'⟩ := hs'.unfolds.known hnode'
      obtain ⟨-, rfl⟩ := hbp'.unique hg (hbp.mono hE)
      obtain ⟨b', -, hr'⟩ := Pointwise.exists_right hres' hb₀
      cases hr' with
      | kept hkept =>
        have hnot := hkept id hq
        rw [hvars] at hnot
        cases hnot
      | replaced hp hE' hres =>
        cases halone.symm.trans hp
        cases hvars.symm.trans hE'
        rw [resolveProducers_congr hres]
        exact ⟨_, rfl⟩
    · rw [if_neg (by simpa using hq)]
      exact ⟨b, rfl⟩
  exact ⟨_, _, expand_eq_ok.2 ⟨n, replication, template, changes, hn, hkind.trans hmk, hrun, hc,
    rfl, rfl⟩⟩

/-! ## Scopes -/

theorem outputsOf_congr {l : List NodeId} (attr : Option String)
    (hr : ∀ q ∈ l, p'.result? q = p.result? q) : p'.outputsOf attr l = p.outputsOf attr l := by
  induction l with
  | nil => rfl
  | cons q l ih =>
    have hone : p'.outputOf q attr = p.outputOf q attr := by
      unfold outputOf
      rw [hr q List.mem_cons_self]
    simp only [outputsOf, hone, ih fun x hx => hr x (List.mem_cons_of_mem q hx)]

theorem bindAll_congr {bs : List Binding}
    (hr : ∀ b ∈ bs, ∀ q ∈ b.producers, p'.result? q = p.result? q) (scope : Scope) :
    p'.bindAll bs scope = p.bindAll bs scope := by
  induction bs generalizing scope with
  | nil => rfl
  | cons b bs ih =>
    simp only [bindAll, outputsOf_congr b.reference.attr (hr b List.mem_cons_self)]
    refine bind_congr fun values => ?_
    exact ih (fun b hb => hr b (List.mem_cons_of_mem _ hb)) _

/-- A scope depends on the values that the bindings of the node read. -/
theorem scopeFor_congr (hk : n'.kind = n.kind) (hb : n'.bindings = n.bindings)
    (hr : ∀ b ∈ n.bindings, b.role.readsValue = true → ∀ q ∈ b.producers,
      p'.result? q = p.result? q) : p'.scopeFor n' = p.scopeFor n := by
  have hvars : varsOf n' = varsOf n := by
    unfold varsOf
    rw [hk]
  unfold scopeFor
  rw [hb, hvars]
  exact bindAll_congr (fun b hm => hr b (List.mem_filter.1 hm).1 (List.mem_filter.1 hm).2) _

theorem scopeFor_later (hg : g.Sound) (hs : p.Sound g E) (hu : p.Unpacked E) (hs' : p'.Sound g E')
    (hE : ∀ {q vars}, E q = some vars → E' q = some vars)
    (hr : ∀ {q}, p.hasSucceeded q = true → p'.result? q = p.result? q)
    (hn : p.node? id = some n) (hn' : p'.node? id = some n') (hst : p.hasStarted id = true) :
    n'.kind = n.kind ∧ p'.scopeFor n' = p.scopeFor n := by
  obtain ⟨hk, hb⟩ := bindings_later hg hs hu hs' hE hn hn' fun q hq => .inl (hs.gated hn hst hq)
  refine ⟨hk, scopeFor_congr hk hb fun b hm hreads q hq => hr (hs.gated hn hst ?_)⟩
  refine (hs.unfolds.mem_predecessors hn).2 ⟨b, hm, ?_, hq⟩
  have hrole : b.role ≠ .uses := by
    intro hu
    rw [hu] at hreads
    cases hreads
  simp [Node.gates, hrole]

end Plan

end Workplan
