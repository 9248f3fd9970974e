import Workplan.Proofs.Graph.Scoping
import Workplan.Proofs.Plan.Soundness

/-! Scopes of nodes: the nodes of a plan stay scoped however far placeholders are expanded, and the scope
that is taken from a plan binds everything that the work of the node evaluates. -/
namespace Workplan
open Outcome
set_option autoImplicit false

/-- The instances of every expanded placeholder have their loop variables. -/
def Expansions.Furnish (E : Expansions) (g : Graph) : Prop :=
  ∀ {p vars n replication template}, E p = some vars → g.node? p = some n →
    n.kind = .expansion replication template → ∀ v ∈ vars, replication.scope.Bound v

section Nodes
variable {g : Graph} {E : Expansions} {id : NodeId} {kind : NodeKind} {bs : List Binding}

theorem Blueprint.scoped (hs : g.Scoped) (hE : E.Furnish g) (h : Blueprint g E id kind bs) :
    kind.Scoped bs := by
  cases h with
  | declared h => exact hs.node h
  | spliced h hk hvars hv => exact hs.template h hk _ _ (hE hvars h hk _ (List.mem_of_getElem? hv))

theorem Binding.Resolves.single {b b₁ : Binding} (h : b.Resolves E b₁)
    (hb : ∃ q, b.producers = [q]) (hr : b.reference.index ≠ .splat) : ∃ q, b₁.producers = [q] := by
  cases h with
  | kept => exact hb
  | replaced hp hE h => exact resolveProducers_single h hr

theorem NodeMap.Unfolds.scoped {nodes : NodeMap} (hs : g.Scoped) (hE : E.Furnish g)
    (h : nodes.Unfolds g E) {n : Node} (hn : nodes.get? id = some n) : n.kind.Scoped n.bindings := by
  obtain ⟨bs, hbp, hall⟩ := h.known hn
  have hscoped := hbp.scoped hs hE
  refine ⟨fun e he r hr => ?_, hscoped.loopVariable, fun b hb hr => ?_⟩
  · obtain ⟨b₀, hb₀, href, hrole⟩ := hscoped.reference e he r hr
    obtain ⟨b, hb, hres⟩ := Pointwise.exists_right hall hb₀
    exact ⟨b, hb, hres.reference_eq.trans href, hres.role_eq ▸ hrole⟩
  · obtain ⟨b₀, hb₀, hres⟩ := Pointwise.exists_left hall hb
    have hr₀ : b₀.reference.index ≠ .splat := hres.reference_eq ▸ hr
    exact hres.single (hscoped.single b₀ hb₀ hr₀) hr₀

end Nodes

namespace Plan
variable {p : Plan} {n : Node} {scope : Scope}

/-! ## The scope of a node -/

theorem outputOf_cases (p : Plan) (q : NodeId) (attr : Option String) :
    (∃ v, p.outputOf q attr = .ok v) ∨ ∃ a, p.outputOf q attr = .error (.missingOutput q a) := by
  unfold outputOf
  split
  next => exact .inl ⟨_, rfl⟩
  next name =>
    split
    next v _ => exact .inl ⟨v, rfl⟩
    next => exact .inr ⟨name, rfl⟩

theorem outputsOf_cases (p : Plan) (attr : Option String) (l : List NodeId) :
    (∃ vs, p.outputsOf attr l = .ok vs) ∨
      ∃ q a, p.outputsOf attr l = .error (.missingOutput q a) := by
  induction l with
  | nil => exact .inl ⟨[], rfl⟩
  | cons q l ih =>
    rcases p.outputOf_cases q attr with ⟨v, hv⟩ | ⟨a, ha⟩
    · rcases ih with ⟨vs, hvs⟩ | ⟨q', a, ha⟩
      · exact .inl ⟨v :: vs, bind_eq_ok.2 ⟨v, hv, bind_eq_ok.2 ⟨vs, hvs, rfl⟩⟩⟩
      · exact .inr ⟨q', a, by rw [outputsOf, hv, ha]; rfl⟩
    · exact .inr ⟨q, a, by rw [outputsOf, ha]; rfl⟩

theorem bindAll_cases (p : Plan) (bs : List Binding) (scope₀ : Scope) :
    (∃ scope, p.bindAll bs scope₀ = .ok scope ∧ scope.vars = scope₀.vars ∧
      (∀ r, (∃ v, scope₀.get? r = some v) → ∃ v, scope.get? r = some v) ∧
      ∀ b ∈ bs, ∃ v, scope.get? b.reference = some v) ∨
    ∃ q a, p.bindAll bs scope₀ = .error (.missingOutput q a) := by
  induction bs generalizing scope₀ with
  | nil => exact .inl ⟨scope₀, rfl, rfl, fun r h => h, by simp⟩
  | cons b bs ih =>
    rcases p.outputsOf_cases b.reference.attr b.producers with ⟨vs, hvs⟩ | ⟨q, a, ha⟩
    · have hget : ∀ r, (scope₀.insert b.reference (combine b.reference.index vs)).get? r =
          if r = b.reference then some (combine b.reference.index vs) else scope₀.get? r := by
        intro r
        rw [Scope.insert, Scope.get?, Scope.get?, Entries.get?]
      rcases ih (scope₀.insert b.reference (combine b.reference.index vs)) with
        ⟨scope, hs, hvars, hold, hall⟩ | ⟨q, a, ha⟩
      · refine .inl ⟨scope, by rw [bindAll, hvs]; exact hs, hvars, fun r hr => hold r ?_,
          fun b' hb' => ?_⟩
        · rw [hget]
          split
          next => exact ⟨_, rfl⟩
          next => exact hr
        · rcases List.mem_cons.1 hb' with rfl | hb'
          · exact hold _ ⟨_, by rw [hget, if_pos rfl]⟩
          · exact hall b' hb'
      · exact .inr ⟨q, a, by rw [bindAll, hvs]; exact ha⟩
    · exact .inr ⟨q, a, by rw [bindAll, ha]; rfl⟩

theorem missingOutput_of_scopeFor {e : RunError} (h : p.scopeFor n = .error e) :
    ∃ q a, e = .missingOutput q a := by
  rcases p.bindAll_cases (n.bindings.filter fun b => b.role.readsValue) (Scope.ofVars (varsOf n)) with
    ⟨scope, hs, -⟩ | ⟨q, a, ha⟩
  · rw [scopeFor, hs] at h
    cases h
  · rw [scopeFor, ha] at h
    cases h
    exact ⟨q, a, rfl⟩

theorem varsOf_eq (n : Node) : varsOf n = n.kind.vars := by
  cases hk : n.kind <;> simp [varsOf, NodeKind.vars, hk]

theorem binds_of_scopeFor (hs : n.kind.Scoped n.bindings) (h : p.scopeFor n = .ok scope) :
    ∀ e ∈ n.kind.expressions, scope.Binds e := by
  rcases p.bindAll_cases (n.bindings.filter fun b => b.role.readsValue) (Scope.ofVars (varsOf n)) with
    ⟨scope', hs', hvars, -, hall⟩ | ⟨q, a, ha⟩
  · rw [scopeFor, hs'] at h
    cases h
    intro e he
    refine ⟨fun r hr => ?_, fun v hv => ?_⟩
    · obtain ⟨b, hb, rfl, hrole⟩ := hs.reference e he r hr
      exact hall b (List.mem_filter.2 ⟨hb, hrole⟩)
    · rw [hvars]
      change ∃ x, (varsOf n).get? v = some x
      rw [varsOf_eq]
      exact hs.loopVariable e he v hv
  · rw [scopeFor, ha] at h
    cases h

end Plan

/-! ## What a value is read from -/

section Producers
variable {g : Graph} {E : Expansions} {nodes : NodeMap} {id q : NodeId} {n : Node} {b : Binding}

theorem NodeMap.Unfolds.not_isResource (hg : g.Sound) (h : nodes.Unfolds g E)
    (hn : nodes.get? id = some n) (hb : b ∈ n.bindings) (hr : b.role ≠ .uses)
    (hq : q ∈ b.producers) : q.isResource = false := by
  obtain ⟨bs, hbp, b₀, hb₀, hres⟩ := h.exists_resolves hn hb
  rcases hres.producer hq with ⟨hq₀, -⟩ | ⟨p, vars, i, hp, hE, -, rfl⟩
  · exact hbp.reads hg hb₀ (hres.role_eq ▸ hr) hq₀
  · obtain ⟨m, hm, hk⟩ := h.expanded hE
    obtain ⟨replication, template, hk⟩ := NodeKind.exists_of_isExpansion hk
    rw [(hg.expansion hm hk).1]
    exact NodeId.isResource_child_step template.step i

/-- What a value is read from is a step instance, once every placeholder that has succeeded has been
expanded. -/
theorem NodeMap.Unfolds.isStep (hg : g.Sound) (h : nodes.Unfolds g E) (hn : nodes.get? id = some n)
    (hb : b ∈ n.bindings) (hr : b.role ≠ .uses) (hq : q ∈ b.producers)
    (hopen : ∀ m, nodes.get? q = some m → m.kind.isExpansion = true → ∃ vars, E q = some vars) :
    ∃ m inst, nodes.get? q = some m ∧ m.kind = .step inst := by
  have hres := h.not_isResource hg hn hb hr hq
  have hnone : E q = none ∨ ∃ p vars i, E p = some vars ∧ i < vars.length ∧ q = p.child i :=
    (h.producer hn hg hb hq).imp_left And.left
  obtain ⟨m, hm⟩ := h.exists_producer hn hg hb hq
  obtain ⟨bs, hbp, -⟩ := h.known hm
  cases hkind : m.kind with
  | step inst => exact ⟨m, inst, hm, hkind⟩
  | resource name kind arguments =>
    have hid := hbp.isResource hg
    rw [hres, hkind] at hid
    cases hid
  | expansion r t =>
    obtain ⟨vars, hE⟩ := hopen m hm (by rw [hkind]; rfl)
    rcases hnone with hnone | ⟨p, vars', i, hE', -, rfl⟩
    · rw [hnone] at hE
      cases hE
    · obtain ⟨m', hm', hk'⟩ := h.expanded hE
      obtain ⟨m₀, hm₀, hk₀⟩ := h.expanded hE'
      rw [hg.fresh hm₀ hk₀ i] at hm'
      cases hm'

end Producers

end Workplan
