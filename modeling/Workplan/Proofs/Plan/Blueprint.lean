import Workplan.Plan.Expansion
import Workplan.Proofs.Graph.Soundness

/-! Blueprints: what the nodes of a plan are, told from the graph and from the instances that its
placeholders have got so far. The blueprint of a node has the bindings of the graph; in the plan, those
that name an expanded placeholder are resolved against its instances (`Binding.Resolves`). -/
namespace Workplan
set_option autoImplicit false

/-- The loop variables of the instances of every placeholder that has been expanded. -/
abbrev Expansions := NodeId → Option (List LoopVars)

namespace Expansions

def none : Expansions := fun _ => .none

def set (E : Expansions) (p : NodeId) (vars : List LoopVars) : Expansions :=
  fun q => if q = p then some vars else E q

variable {E : Expansions} {p q : NodeId} {vars : List LoopVars}

@[simp] theorem none_apply : none q = .none := rfl

@[simp] theorem set_self : E.set p vars p = some vars := if_pos rfl

theorem set_of_ne (h : q ≠ p) : E.set p vars q = E q := if_neg h

end Expansions

def NodeId.children (p : NodeId) (n : Nat) : List NodeId := (List.range n).map p.child

theorem NodeId.mem_children {p q : NodeId} {n : Nat} :
    q ∈ p.children n ↔ ∃ i, i < n ∧ q = p.child i := by
  simp only [children, List.mem_map, List.mem_range]
  exact exists_congr fun i => and_congr_right fun _ => eq_comm

theorem NodeId.nodup_children (p : NodeId) (n : Nat) : (p.children n).Nodup :=
  List.nodup_range.map fun _ _ h => (NodeId.child_inj h).2

/-! ## Resolved bindings -/

theorem resolveProducers_congr {x y : NodeId} {r : Reference} {role : BindingRole}
    {instances ids : List NodeId} (h : resolveProducers x r role instances = .ok ids) :
    resolveProducers y r role instances = .ok ids := by
  simp only [resolveProducers] at h ⊢
  cases hr : r.index with
  | splat => rw [hr] at h; exact h
  | nth i =>
    rw [hr] at h
    simp only at h ⊢
    cases hi : instances[i]? with
    | none => rw [hi] at h; cases h
    | some q => rw [hi] at h; exact h
  | unindexed =>
    rw [hr] at h
    cases instances with
    | nil => cases h
    | cons only rest =>
      cases rest with
      | nil => exact h
      | cons next rest =>
        simp only at h
        split at h <;> cases h

/-- What has become of a binding of the graph. -/
inductive Binding.Resolves (E : Expansions) (b : Binding) : Binding → Prop where
  | kept (h : ∀ q ∈ b.producers, E q = none) : Resolves E b b
  | replaced {p x : NodeId} {vars : List LoopVars} {ids : List NodeId} (hp : b.producers = [p])
    (hE : E p = some vars)
    (h : resolveProducers x b.reference b.role (p.children vars.length) = .ok ids) :
    Resolves E b { b with producers := ids }

namespace Binding.Resolves
variable {E : Expansions} {b b₁ b₂ : Binding}

theorem role_eq (h : Resolves E b b₁) : b₁.role = b.role := by
  cases h <;> rfl

theorem reference_eq (h : Resolves E b b₁) : b₁.reference = b.reference := by
  cases h <;> rfl

theorem producer (h : Resolves E b b₁) {q : NodeId} (hq : q ∈ b₁.producers) :
    (q ∈ b.producers ∧ E q = none) ∨
      ∃ p vars i, b.producers = [p] ∧ E p = some vars ∧ i < vars.length ∧ q = p.child i := by
  cases h with
  | kept h => exact .inl ⟨hq, h q hq⟩
  | replaced hp hE h =>
    obtain ⟨i, hi, rfl⟩ := NodeId.mem_children.1 ((Building.resolveProducers_spec h).1 hq)
    exact .inr ⟨_, _, i, hp, hE, hi, rfl⟩

theorem set (h : Resolves E b b₁) {p : NodeId} (hp : E p = none) (hb : p ∉ b₁.producers)
    {vars : List LoopVars} : Resolves (E.set p vars) b b₁ := by
  cases h with
  | kept h =>
    refine .kept fun q hq => ?_
    have hne : q ≠ p := by
      rintro rfl
      exact hb hq
    rw [Expansions.set_of_ne hne]
    exact h q hq
  | @replaced p' _ _ _ hs hE h =>
    have hne : p' ≠ p := by
      rintro rfl
      rw [hp] at hE
      cases hE
    exact .replaced hs ((Expansions.set_of_ne hne).trans hE) h

theorem unique (h₁ : Resolves E b b₁) (h₂ : Resolves E b b₂) : b₁ = b₂ := by
  cases h₁ with
  | kept h₁ =>
    cases h₂ with
    | kept h₂ => rfl
    | replaced hp hE h =>
      have := h₁ _ (hp ▸ List.mem_singleton_self _)
      rw [hE] at this
      cases this
  | replaced hp hE h =>
    cases h₂ with
    | kept h₂ =>
      have := h₂ _ (hp ▸ List.mem_singleton_self _)
      rw [hE] at this
      cases this
    | replaced hp' hE' h' =>
      cases hp.symm.trans hp'
      cases hE.symm.trans hE'
      cases (resolveProducers_congr h).symm.trans h'
      rfl

end Binding.Resolves

/-! ## Blueprints -/

/-- What a node is made from: a node of the graph, or a placeholder and one of its instances. -/
inductive Blueprint (g : Graph) (E : Expansions) : NodeId → NodeKind → List Binding → Prop where
  | declared {id : NodeId} {n : Node} (h : g.node? id = some n) : Blueprint g E id n.kind n.bindings
  | spliced {p : NodeId} {n : Node} {replication : Replication} {template : StepInstance}
    {vars : List LoopVars} {i : Nat} {v : LoopVars} (h : g.node? p = some n)
    (hk : n.kind = .expansion replication template) (hE : E p = some vars) (hv : vars[i]? = some v) :
    Blueprint g E (p.child i) (.step (template.instantiate i v))
      (n.bindings.filter fun b => b.role ≠ .replication)

namespace Blueprint
variable {g : Graph} {E : Expansions} {id : NodeId} {kind kind' : NodeKind} {bs bs' : List Binding}

/-- Every blueprint has the bindings of a node of the graph, up to those that decide its instances. -/
theorem origin (h : Blueprint g E id kind bs) : ∃ p n, g.node? p = some n ∧
    kind.uses = n.kind.uses ∧ bs ⊆ n.bindings ∧
    ∀ b ∈ n.bindings, b.role ≠ .replication → b ∈ bs := by
  cases h with
  | declared h => exact ⟨id, _, h, rfl, fun _ hb => hb, fun _ hb _ => hb⟩
  | spliced h hk hE hv =>
    refine ⟨_, _, h, by rw [hk]; rfl, fun b hb => (List.mem_filter.1 hb).1, fun b hb hr => ?_⟩
    exact List.mem_filter.2 ⟨hb, by simpa using hr⟩

theorem exists_declared (h : Blueprint g E id kind bs)
    (hk : kind.isExpansion = true ∨ kind.isResource = true) :
    ∃ n, g.node? id = some n ∧ n.kind = kind ∧ n.bindings = bs := by
  cases h with
  | declared h => exact ⟨_, h, rfl, rfl⟩
  | spliced h hk' hE hv =>
    rcases hk with hk | hk
    · cases hk
    · cases hk

theorem mono {E' : Expansions} (hE : ∀ {p vars}, E p = some vars → E' p = some vars)
    (h : Blueprint g E id kind bs) : Blueprint g E' id kind bs := by
  cases h with
  | declared h => exact .declared h
  | spliced h hk hp hv => exact .spliced h hk (hE hp) hv

section Sound
variable (hg : g.Sound)
include hg

theorem unique (h : Blueprint g E id kind bs) (h' : Blueprint g E id kind' bs') :
    kind = kind' ∧ bs = bs' := by
  cases h with
  | declared h =>
    cases h' with
    | declared h' =>
      cases h.symm.trans h'
      exact ⟨rfl, rfl⟩
    | spliced h' hk hE hv =>
      have := hg.fresh h' (by rw [hk]; rfl) ‹_›
      rw [h] at this
      cases this
  | @spliced p n replication template vars i v h hk hE hv =>
    generalize hid : p.child i = id at h'
    cases h' with
    | declared h' =>
      have := hg.fresh h (by rw [hk]; rfl) i
      rw [hid, h'] at this
      cases this
    | spliced h' hk' hE' hv' =>
      obtain ⟨rfl, rfl⟩ := NodeId.child_inj hid
      cases h.symm.trans h'
      cases hk.symm.trans hk'
      cases hE.symm.trans hE'
      cases hv.symm.trans hv'
      exact ⟨rfl, rfl⟩

theorem closed (h : Blueprint g E id kind bs) {b : Binding} (hb : b ∈ bs) {q : NodeId}
    (hq : q ∈ b.producers) : ∃ m, g.node? q = some m := by
  obtain ⟨p, n, hn, -, hsub, -⟩ := h.origin
  exact hg.closed hn (hsub hb) hq

theorem alone (h : Blueprint g E id kind bs) {b : Binding} (hb : b ∈ bs) {q : NodeId} {m : Node}
    (hq : q ∈ b.producers) (hm : g.node? q = some m) (hk : m.kind.isExpansion = true) :
    b.producers = [q] := by
  obtain ⟨p, n, hn, -, hsub, -⟩ := h.origin
  exact hg.alone hn (hsub hb) hq hm hk

theorem uses (h : Blueprint g E id kind bs) {b : Binding} (hb : b ∈ bs) (hr : b.role = .uses) :
    ∃ name ∈ kind.uses, b.producers = [NodeId.resource name] := by
  obtain ⟨p, n, hn, hk, hsub, -⟩ := h.origin
  rw [hk]
  exact hg.uses hn (hsub hb) hr

theorem bound (h : Blueprint g E id kind bs) {name : String} (hn : name ∈ kind.uses) :
    ∃ b ∈ bs, b.role = .uses ∧ b.producers = [NodeId.resource name] := by
  obtain ⟨p, n, hn', hk, -, hsup⟩ := h.origin
  rw [hk] at hn
  obtain ⟨b, hb, hr, hp⟩ := hg.bound hn' hn
  exact ⟨b, hsup b hb (by rw [hr]; decide), hr, hp⟩

theorem reads (h : Blueprint g E id kind bs) {b : Binding} (hb : b ∈ bs) (hr : b.role ≠ .uses)
    {q : NodeId} (hq : q ∈ b.producers) : q.isResource = false := by
  obtain ⟨p, n, hn, -, hsub, -⟩ := h.origin
  exact hg.reads hn (hsub hb) hr q hq

theorem isResource (h : Blueprint g E id kind bs) : id.isResource = kind.isResource := by
  cases h with
  | declared h => exact hg.isResource h
  | spliced h hk hE hv =>
    rw [(hg.expansion h hk).1, NodeId.isResource_child_step]
    rfl

end Sound
end Blueprint

end Workplan
