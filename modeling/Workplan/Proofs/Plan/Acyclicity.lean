import Workplan.Proofs.Graph.Cycles
import Workplan.Proofs.Plan.Operations

/-! Acyclicity under expansion. The dependency order is computed once, on a graph in which placeholders
do not wait for the resources that they use; their instances do. So an expansion closes a cycle exactly
when it makes an instance and one of those resources is behind the placeholder
(`Plan.ClosesCycle`). Nothing else that is done to a plan makes one. -/
namespace Workplan
open Relation
set_option autoImplicit false

/-! ## One more source of edges -/

section Edges
variable {α : Type} {R : α → α → Prop} {s : α} {T : α → Prop}

/-- With further edges from one point, a path either does without them, or reaches the point and goes on
from an end of such an edge. -/
theorem transGen_or (hT : ∀ t, T t → ¬ ReflTransGen R t s) {a b : α}
    (h : TransGen (fun x y => R x y ∨ (x = s ∧ T y)) a b) :
    TransGen R a b ∨ (ReflTransGen R a s ∧ ∃ t, T t ∧ ReflTransGen R t b) := by
  induction h with
  | single hw =>
    rcases hw with hw | ⟨rfl, ht⟩
    · exact .inl (.single hw)
    · exact .inr ⟨.refl, _, ht, .refl⟩
  | tail _ hw ih =>
    rcases ih with ih | ⟨ha, t, ht, htb⟩
    · rcases hw with hw | ⟨rfl, ht⟩
      · exact .inl (ih.tail hw)
      · exact .inr ⟨ih.to_reflTransGen, _, ht, .refl⟩
    · rcases hw with hw | ⟨rfl, -⟩
      · exact .inr ⟨ha, t, ht, htb.tail hw⟩
      · exact absurd htb (hT t ht)

/-- Further edges from one point close no circle as long as none of their ends leads back to it. -/
theorem acyclic_of_edges (hR : ∀ a, ¬ TransGen R a a) (hT : ∀ t, T t → ¬ ReflTransGen R t s) (a : α) :
    ¬ TransGen (fun x y => R x y ∨ (x = s ∧ T y)) a a := by
  intro h
  rcases transGen_or hT h with h | ⟨ha, t, ht, hta⟩
  · exact hR a h
  · exact hT t ht (hta.trans ha)

end Edges

/-! ## Waiting after an expansion -/

namespace Expanding
variable {g : Graph} {E : Expansions} {nodes : NodeMap} {p : NodeId} {node : Node}
variable {template : StepInstance} {vars : List LoopVars} {changes : List (NodeId × List Binding)}
variable (h : Expanding g E nodes p node template vars changes)
include h

theorem exists_instance {x : NodeId} (hx : x ∈ p.children vars.length) :
    ∃ c ∈ instances node template vars, c.id = x := by
  rw [← h.map_id_instances] at hx
  exact List.mem_map.1 hx

theorem not_mem_children {x : NodeId} {n : Node} (hn : nodes.get? x = some n) :
    x ∉ p.children vars.length := by
  intro hx
  obtain ⟨c, hc, rfl⟩ := h.exists_instance hx
  exact h.instance_ne hc hn rfl

/-- An edge after the expansion: an instance waits for what the placeholder waits for or uses, and every
other node waits for what it has waited for, or for an instance in place of the placeholder. -/
theorem waits_cases {x y : NodeId}
    (hw : (after nodes p node template vars changes).Waits x y) :
    (x ∈ p.children vars.length ∧ y ∉ p.children vars.length ∧
      (nodes.Waits p y ∨ y ∈ node.resources)) ∨
    (x ∉ p.children vars.length ∧
      ((y ∈ p.children vars.length ∧ nodes.Waits x p) ∨
        (y ∉ p.children vars.length ∧ nodes.Waits x y))) := by
  rcases h.waits_after.1 hw with ⟨c, hc, rfl, hy⟩ | ⟨bs, n, hc, hn, hy⟩ | ⟨n, hn, -, hy⟩
  · refine .inl ⟨?_, fun hm => ?_, ?_⟩
    · rw [← h.map_id_instances]
      exact List.mem_map.2 ⟨c, hc, rfl⟩
    · obtain ⟨c', hc', rfl⟩ := h.exists_instance hm
      exact h.instance_not_mem hc hc' hy
    · obtain ⟨b, hb, hr, hq⟩ := (h.mem_predecessors_instance hc).1 hy
      by_cases hu : b.role = .uses
      · exact .inr (List.mem_flatMap.2 ⟨b, List.mem_filter.2 ⟨hb, by simpa using hu⟩, hq⟩)
      · refine .inl ⟨node, h.found, (h.unfolds.mem_predecessors h.found).2 ⟨b, hb, ?_, hq⟩⟩
        simp [Node.gates, hu]
  · refine .inr ⟨h.not_mem_children hn, ?_⟩
    obtain ⟨-, m, hm, hpm, -⟩ := h.change hc
    cases hn.symm.trans hm
    by_cases hy' : y ∈ p.children vars.length
    · exact .inl ⟨hy', n, hn, hpm⟩
    · have hold := (h.replaced_rebound hc hn).old hy
      exact .inr ⟨hy', n, hn, hold.resolve_right fun hchild => hy' hchild.2⟩
  · refine .inr ⟨h.not_mem_children hn, .inr ⟨fun hm => ?_, n, hn, hy⟩⟩
    obtain ⟨c, hc, rfl⟩ := h.exists_instance hm
    exact h.instance_not_mem_old hc hn hy

theorem waits_of_waits {x y : NodeId} (hw : nodes.Waits x y) (hy : y ≠ p) :
    (after nodes p node template vars changes).Waits x y := by
  obtain ⟨n, hn, hq⟩ := hw
  exact h.waits_after.2 ((h.waits_of_old hy).1 (.inl ⟨n, hn, hq⟩))

theorem waits_instance (hvars : vars ≠ []) {x : NodeId} (hw : nodes.Waits x p) :
    ∃ c ∈ p.children vars.length, (after nodes p node template vars changes).Waits x c := by
  obtain ⟨n, hn, hq⟩ := hw
  obtain ⟨⟨_, bs⟩, hc, rfl⟩ := List.mem_map.1 ((h.mem_changes hn).2 hq)
  obtain ⟨c, hc', hcb⟩ := (h.replaced_rebound hc hn).some hvars hq
  exact ⟨c, hc', h.waits_after.2 (.inr (.inl ⟨bs, n, hc, hn, hcb⟩))⟩

theorem waits_resource {c r : NodeId} (hc : c ∈ p.children vars.length) (hr : r ∈ node.resources) :
    (after nodes p node template vars changes).Waits c r := by
  obtain ⟨m, hm, rfl⟩ := h.exists_instance hc
  obtain ⟨b, hb, hq⟩ := List.mem_flatMap.1 hr
  obtain ⟨hb, hu⟩ := List.mem_filter.1 hb
  have hrole : b.role = .uses := of_decide_eq_true hu
  refine h.waits_after.2 (.inl ⟨m, hm, rfl, (h.mem_predecessors_instance hm).2 ⟨b, hb, ?_, hq⟩⟩)
  rw [hrole]
  decide

theorem behind_instance (hvars : vars ≠ []) {x : NodeId} (hx : TransGen nodes.Waits x p) :
    ∃ c ∈ p.children vars.length,
      TransGen (after nodes p node template vars changes).Waits x c := by
  induction hx using TransGen.head_induction_on with
  | single hw =>
    obtain ⟨c, hc, hw⟩ := h.waits_instance hvars hw
    exact ⟨c, hc, .single hw⟩
  | @head x y hw _ ih =>
    by_cases hy : y = p
    · rw [hy] at hw
      obtain ⟨c, hc, hw⟩ := h.waits_instance hvars hw
      exact ⟨c, hc, .single hw⟩
    · obtain ⟨c, hc, hp⟩ := ih
      exact ⟨c, hc, .head (h.waits_of_waits hw hy) hp⟩

/-- A resource that the placeholder uses and that is behind it closes a circle. -/
theorem cycle_after (hvars : vars ≠ []) {r : NodeId} (hr : r ∈ node.resources)
    (hw : TransGen nodes.Waits r p) : ¬ (after nodes p node template vars changes).Acyclic := by
  intro hac
  obtain ⟨c, hc, hp⟩ := h.behind_instance hvars hw
  exact hac c (.head (h.waits_resource hc hr) hp)

/-- Without such a resource there is no circle. -/
theorem acyclic_after (hac : nodes.Acyclic)
    (hr : vars ≠ [] → ∀ r ∈ node.resources, ¬ ReflTransGen nodes.Waits r p) :
    (after nodes p node template vars changes).Acyclic := by
  intro a ha
  -- every instance stands for the placeholder
  let stem : NodeId → NodeId := fun x => if x ∈ p.children vars.length then p else x
  refine acyclic_of_edges hac (s := p) (T := fun r => vars ≠ [] ∧ r ∈ node.resources)
    (fun r hT => hr hT.1 r hT.2) (stem a) (TransGen.lift stem (fun x y hw => ?_) a a ha)
  rcases h.waits_cases hw with ⟨hx, hy, hw⟩ | ⟨hx, ⟨hy, hw⟩ | ⟨hy, hw⟩⟩
  · have hvars : vars ≠ [] := by
      rintro rfl
      cases hx
    simp only [Function.onFun, stem, if_pos hx, if_neg hy]
    exact hw.imp (fun hw => hw) fun hr => ⟨trivial, hvars, hr⟩
  · simp only [Function.onFun, stem, if_neg hx, if_pos hy]
    exact .inl hw
  · simp only [Function.onFun, stem, if_neg hx, if_neg hy]
    exact .inl hw

end Expanding

/-! ## Runs of operations -/

namespace Plan

/-- An expansion makes an instance, and a resource that the instance uses is behind the placeholder. -/
def ClosesCycle (p : Plan) (id : NodeId) (vars : List LoopVars) : Prop :=
  vars ≠ [] ∧ ∃ n, p.node? id = some n ∧ ∃ r ∈ n.resources, TransGen p.nodes.Waits r id

section Expansion
variable {g : Graph} {E : Expansions} {p p' : Plan} {id : NodeId} {vars : List LoopVars}
variable {children : List NodeId}

/-- An expansion of a plan without circles makes one in one case only. -/
theorem Sound.acyclic_expand_iff (hg : g.Sound) (h : p.Sound g E) (hE : E id = none)
    (he : p.expand id vars = .ok (p', children)) (hac : p.nodes.Acyclic) :
    p'.nodes.Acyclic ↔ ¬ p.ClosesCycle id vars := by
  obtain ⟨node, template, changes, hx, -, -, -, rfl⟩ := h.expanding hg hE he
  constructor
  · rintro hac' ⟨hvars, n, hn, r, hr, hw⟩
    cases hn.symm.trans hx.found
    exact hx.cycle_after hvars hr hw hac'
  · intro hnot
    refine hx.acyclic_after hac fun hvars r hr hw => hnot ⟨hvars, node, hx.found, r, hr, ?_⟩
    rcases reflTransGen_iff_eq_or_transGen.1 hw with he | hw
    · obtain ⟨name, -, hname⟩ := (h.unfolds.mem_resources hx.found hg).1 hr
      have hres : NodeId.step template.step = NodeId.resource name := by
        rw [← hx.eq_step, he, hname]
      exact absurd hres (NodeId.step_ne_resource _ _)
    · exact hw

end Expansion

section Leads
variable {g : Graph} {h : History} {p p' : Plan} {a : PlanAction}

theorem Performs.nodes_eq (hp : p.Sound g (expansionsOf h)) (ha : Performs p a p')
    (hne : ∀ id vars, a ≠ .expand id vars) : p'.nodes = p.nodes := by
  cases ha with
  | start hr => rfl
  | succeed output hr => exact nodes_markSucceeded _ _ _
  | fail message hr => exact (skips_markFailed _ _ _).nodes
  | expand he => exact absurd rfl (hne _ _)
  | skipPending reason => exact (skips_skipPending _ _).1.nodes
  | skipIdle => exact hp.skips_skipIdleResources.nodes

theorem Performs.acyclic_iff (hg : g.Sound) (hp : p.Sound g (expansionsOf h)) (ha : Performs p a p')
    (once : ∀ id vars, a = .expand id vars → expansionsOf h id = none) (hac : p.nodes.Acyclic) :
    p'.nodes.Acyclic ↔ ∀ id vars, a = .expand id vars → ¬ p.ClosesCycle id vars := by
  by_cases hx : ∃ id vars, a = .expand id vars
  · obtain ⟨id, vars, rfl⟩ := hx
    cases ha with
    | expand he =>
      rw [hp.acyclic_expand_iff hg (once id vars rfl) he hac]
      constructor
      · intro hnot id' vars' heq
        cases heq
        exact hnot
      · exact fun hall => hall id vars rfl
  · have hne : ∀ id vars, a ≠ .expand id vars := fun id vars he => hx ⟨id, vars, he⟩
    rw [ha.nodes_eq hp hne]
    exact ⟨fun _ id vars he => absurd he (hne id vars), fun _ => hac⟩

/-- Along a run of operations there is no circle exactly as long as no expansion closes one. -/
theorem Leads.acyclic_iff (hg : g.Sound) (hl : Leads (ofGraph g) h p) :
    ((∀ e ∈ h, e.1.nodes.Acyclic) ∧ p.nodes.Acyclic) ↔
      ∀ q id vars, (q, PlanAction.expand id vars) ∈ h → ¬ q.ClosesCycle id vars := by
  induction hl with
  | start =>
    refine ⟨fun _ q id vars hm => absurd hm List.not_mem_nil, fun _ => ⟨?_, hg.ordered.acyclic⟩⟩
    exact fun e hm => absurd hm List.not_mem_nil
  | @perform h p p' a hl ha once ih =>
    have hstep := ha.acyclic_iff hg (hl.sound hg) once
    have hmem : ∀ {e : Plan × PlanAction}, e ∈ h ++ [(p, a)] ↔ e ∈ h ∨ e = (p, a) := by
      intro e
      rw [List.mem_append, List.mem_singleton]
    constructor
    · rintro ⟨hall, hac'⟩ q id vars hm
      have hac : p.nodes.Acyclic := hall (p, a) (hmem.2 (.inr rfl))
      rcases hmem.1 hm with hm | he
      · exact ih.1 ⟨fun e he => hall e (hmem.2 (.inl he)), hac⟩ q id vars hm
      · cases he
        exact (hstep hac).1 hac' id vars rfl
    · intro hnot
      obtain ⟨hall, hac⟩ := ih.2 fun q id vars hm => hnot q id vars (hmem.2 (.inl hm))
      refine ⟨fun e he => ?_, (hstep hac).2 fun id vars he => hnot p id vars (hmem.2 (.inr ?_))⟩
      · rcases hmem.1 he with he | rfl
        · exact hall e he
        · exact hac
      · rw [he]

end Leads
end Plan

/-! ## The check at build time -/

/-- A node of a graph needs another: it waits for it, or its instances will use it. -/
def Graph.Needs (g : Graph) (a b : NodeId) : Prop :=
  ∃ n, g.node? a = some n ∧ ∃ d ∈ n.bindings, b ∈ d.producers

/-- The node of the graph that a node of a plan comes from. -/
inductive Stem (g : Graph) : NodeId → NodeId → Prop where
  | declared {id : NodeId} {n : Node} (h : g.node? id = some n) : Stem g id id
  | spliced {p : NodeId} {n : Node} {i : Nat} (h : g.node? p = some n)
    (hk : n.kind.isExpansion = true) : Stem g (p.child i) p

namespace Stem
variable {g : Graph} {x y a b : NodeId}

theorem unique (hg : g.Sound) (h : Stem g x a) (h' : Stem g x b) : a = b := by
  cases h with
  | declared h =>
    cases h' with
    | declared h' => rfl
    | spliced h' hk =>
      rw [hg.fresh h' hk] at h
      cases h
  | @spliced _ n i h hk =>
    generalize hx : a.child i = x at h'
    cases h' with
    | declared h' =>
      rw [← hx, hg.fresh h hk] at h'
      cases h'
    | spliced h' hk' => exact (NodeId.child_inj hx).1

theorem of_blueprint {E : Expansions} {kind : NodeKind} {bs : List Binding}
    (h : Blueprint g E x kind bs) : ∃ a n, Stem g x a ∧ g.node? a = some n ∧ bs ⊆ n.bindings := by
  cases h with
  | declared h => exact ⟨x, _, .declared h, h, fun _ hb => hb⟩
  | spliced h hk hE hv =>
    exact ⟨_, _, .spliced h (by rw [hk]; rfl), h, fun b hb => (List.mem_filter.1 hb).1⟩

theorem of_waits {E : Expansions} {nodes : NodeMap} (hg : g.Sound) (h : nodes.Unfolds g E)
    (hw : nodes.Waits x y) : ∃ a b, Stem g x a ∧ Stem g y b ∧ g.Needs a b := by
  obtain ⟨n, hn, hy⟩ := hw
  obtain ⟨d, hd, -, hq⟩ := (h.mem_predecessors hn).1 hy
  obtain ⟨bs, hbp, d₀, hd₀, hr⟩ := h.exists_resolves hn hd
  obtain ⟨a, m, ha, hm, hsub⟩ := of_blueprint hbp
  rcases hr.producer hq with ⟨hq₀, -⟩ | ⟨p, vars, i, hp, hE, -, rfl⟩
  · obtain ⟨k, hk⟩ := hbp.closed hg hd₀ hq₀
    exact ⟨a, y, ha, .declared hk, m, hm, d₀, hsub hd₀, hq₀⟩
  · obtain ⟨k, hk, hke⟩ := h.expanded hE
    refine ⟨a, p, ha, .spliced hk hke, m, hm, d₀, hsub hd₀, ?_⟩
    rw [hp]
    exact List.mem_singleton_self p

end Stem

/-- If nothing needs itself, not even through the resources that instances will use, then no expansion
makes a circle. -/
theorem Plan.Sound.acyclic_of_needs {g : Graph} {E : Expansions} {p : Plan} (hg : g.Sound)
    (h : p.Sound g E) (hn : ∀ a, ¬ TransGen g.Needs a a) : p.nodes.Acyclic := by
  have hpath : ∀ {x y}, TransGen p.nodes.Waits x y →
      ∃ a b, Stem g x a ∧ Stem g y b ∧ TransGen g.Needs a b := by
    intro x y hxy
    induction hxy with
    | single hw =>
      obtain ⟨a, b, ha, hb, hab⟩ := Stem.of_waits hg h.unfolds hw
      exact ⟨a, b, ha, hb, .single hab⟩
    | tail _ hw ih =>
      obtain ⟨a, b, ha, hb, hab⟩ := ih
      obtain ⟨b', c, hb', hc, hbc⟩ := Stem.of_waits hg h.unfolds hw
      obtain rfl := hb.unique hg hb'
      exact ⟨a, c, ha, hc, hab.tail hbc⟩
  intro x hx
  obtain ⟨a, b, ha, hb, hab⟩ := hpath hx
  obtain rfl := ha.unique hg hb
  exact hn a hab

/-- When a built graph stays without circles: exactly as long as no expansion of a placeholder makes an
instance that uses a resource behind the placeholder; in particular if no node needs itself once the
resources of placeholders count. -/
theorem Graph.acyclic_iff_of_build {defs : Definitions} {registry : Registry} {g : Graph}
    (hb : Graph.build defs registry = .ok g) (hp : defs.PlainNames) {h : Plan.History} {p : Plan}
    (hl : Plan.Leads (Plan.ofGraph g) h p) :
    (((∀ e ∈ h, e.1.nodes.Acyclic) ∧ p.nodes.Acyclic) ↔
      ∀ q id vars, (q, PlanAction.expand id vars) ∈ h → ¬ q.ClosesCycle id vars) ∧
    ((∀ a, ¬ TransGen g.Needs a a) → p.nodes.Acyclic) := by
  have hg := Graph.sound_of_build hb hp
  exact ⟨hl.acyclic_iff hg, fun hn => (hl.sound hg).acyclic_of_needs hg hn⟩

/-! ## A circle through a resource

The instances of `b` use a resource that reads what they answer. The graph can be built, since the
placeholder of `b` does not wait for the resource. -/

namespace Feedback

/-- Step `b` has as many instances as `a` says; they use a resource that reads their outputs. -/
def definitions : Definitions where
  resources := [⟨"db", "pool", SortedMap.ofList [("size", .reference (Reference.step "b").splat)]⟩]
  steps := [StepDefinition.new "a" "emit",
    ((StepDefinition.new "b" "emit").withCount (.reference (Reference.step "a"))).withUse
      (Reference.resource "db")]

/-- A runner and a resource kind that answer at once. -/
def registry : Registry :=
  (Registry.empty.withRunner "emit"
    ⟨⟨[], [], ["pool"]⟩, fun _ w => (.wait 0 fun w => (.value .null, w), w)⟩).withKind "pool"
    ⟨⟨[⟨"size", .any, false⟩]⟩, fun _ w => (.wait 0 fun w => (.value ⟨0⟩, w), w),
      fun _ w => (.wait 0 fun w => (.value (), w), w)⟩

def graph : Graph :=
  match Graph.build definitions registry with
  | .ok g => g
  | .error _ => ⟨.empty, []⟩

def running : Plan :=
  (((Plan.ofGraph graph).markRunning (NodeId.step "a")).markSucceeded (NodeId.step "a")
    none).markRunning (NodeId.step "b")

def expanded : Plan :=
  match running.expand (NodeId.step "b") [.count 0] with
  | .ok (p, _) => p
  | .error _ => running

def initial : Plan := Plan.ofGraph graph

/-- The operations that lead to the instance, with the plans before them. -/
def history : Plan.History :=
  [(initial, .start (NodeId.step "a")),
    (initial.markRunning (NodeId.step "a"), .succeed (NodeId.step "a") none),
    ((initial.markRunning (NodeId.step "a")).markSucceeded (NodeId.step "a") none,
      .start (NodeId.step "b")),
    (running, .expand (NodeId.step "b") [.count 0])]

theorem leads : Plan.Leads initial history expanded := by
  have ha : Plan.Performs initial (.start (NodeId.step "a"))
      (initial.markRunning (NodeId.step "a")) := .start (by decide +kernel)
  have ha' : Plan.Performs (initial.markRunning (NodeId.step "a")) (.succeed (NodeId.step "a") none)
      ((initial.markRunning (NodeId.step "a")).markSucceeded (NodeId.step "a") none) :=
    .succeed none (by decide +kernel)
  have hb : Plan.Performs ((initial.markRunning (NodeId.step "a")).markSucceeded
      (NodeId.step "a") none) (.start (NodeId.step "b")) running := .start (by decide +kernel)
  have hb' : Plan.Performs running (.expand (NodeId.step "b") [.count 0]) expanded :=
    .expand (show running.expand _ _ = .ok (expanded, [NodeId.ofInstance "b" 0]) from rfl)
  exact (((Plan.Leads.start.perform ha fun _ _ h => by cases h).perform ha' fun _ _ h => by
    cases h).perform hb fun _ _ h => by cases h).perform hb' fun _ _ _ => rfl

theorem waits : expanded.nodes.Waits (NodeId.ofInstance "b" 0) (NodeId.resource "db") ∧
    expanded.nodes.Waits (NodeId.resource "db") (NodeId.ofInstance "b" 0) := by
  have hget : ∀ {m : NodeMap} {x y : NodeId},
      (m.get? x).any (fun n => y ∈ n.predecessors) = true → m.Waits x y := by
    intro m x y h
    obtain ⟨n, hn, hy⟩ := (Option.any_eq_true _ _).1 h
    exact ⟨n, hn, of_decide_eq_true hy⟩
  exact ⟨hget (by decide +kernel), hget (by decide +kernel)⟩

/-- The graph is accepted, and its one expansion makes a circle. -/
theorem closes_cycle : Graph.build definitions registry = .ok graph ∧ definitions.PlainNames ∧
    Plan.Leads (Plan.ofGraph graph) history expanded ∧ ¬ expanded.nodes.Acyclic ∧
    ∃ q id vars, (q, PlanAction.expand id vars) ∈ history ∧ q.ClosesCycle id vars := by
  have hb : Graph.build definitions registry = .ok graph := rfl
  have hp : definitions.PlainNames := by
    unfold Definitions.PlainNames
    decide +kernel
  have hac : ¬ expanded.nodes.Acyclic := fun hac => hac _ (.tail (.single waits.1) waits.2)
  refine ⟨hb, hp, leads, hac, ?_⟩
  by_contra hnone
  have hall := (Graph.acyclic_iff_of_build hb hp leads).1.2 fun q id vars hm hc =>
    hnone ⟨q, id, vars, hm, hc⟩
  exact hac hall.2

end Feedback

end Workplan
