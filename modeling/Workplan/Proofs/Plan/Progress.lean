import Workplan.Proofs.Plan.Acyclicity
import Workplan.Proofs.Plan.Cleanliness

/-! Progress: as long as nothing has gone wrong, a plan in which nothing runs and nothing is idle has a
node to start, unless it has ended. A resource is only created when a node that uses it waits for nothing
but resources, and it may itself wait for steps that use other resources. So the node to look for is the
first among the pending ones that are no resources: whatever it still waits for is a pending resource, and
such a resource waits for no resources and for nothing that is pending. -/
namespace Workplan
open Relation
set_option autoImplicit false

/-! ## Smooth histories -/

/-- True of the operations with which nothing fails and nothing that is needed is skipped. -/
def PlanAction.isSmooth : PlanAction → Bool
  | .start _ => true
  | .succeed _ _ => true
  | .fail _ _ => false
  | .expand _ _ => true
  | .skipPending _ => false
  | .skipIdle => true

namespace Plan

section Smooth
variable {g : Graph} {h : History} {p p' : Plan} {a : PlanAction}

theorem Performs.clean (hg : g.Sound) (hs : p.Sound g (expansionsOf h)) (hc : p.Clean)
    (ha : Performs p a p') (hsmooth : a.isSmooth = true)
    (once : ∀ id vars, a = .expand id vars → expansionsOf h id = none) : p'.Clean := by
  cases ha with
  | start hr => exact hc.setStatus (isPending_iff.1 (isPending_of_isReady hr)) rfl (.inl rfl)
  | succeed output hr => exact hc.markSucceeded hr output
  | fail message hr => cases hsmooth
  | expand he =>
    have hx := hs.expands hg (once _ _ rfl) he
    exact hc.expand hs hx (hs.node_of_status hx.running)
  | skipPending reason => cases hsmooth
  | skipIdle => exact hc.skipIdle hg hs

theorem Leads.clean (hg : g.Sound) (hl : Leads (ofGraph g) h p)
    (hsmooth : ∀ e ∈ h, e.2.isSmooth = true) : p.Clean := by
  induction hl with
  | start => exact .ofGraph g
  | perform hl ha once ih =>
    have hc := ih fun e he => hsmooth e (List.mem_append_left _ he)
    exact ha.clean hg (hl.sound hg) hc (hsmooth _ (List.mem_append_right _ (List.mem_singleton_self _)))
      once

end Smooth

/-! ## Paused plans -/

def Due (p : Plan) (x : NodeId) : Prop := p.isPending x = true ∧ x.isResource = false

section Paused
variable {g : Graph} {E : Expansions} {p : Plan} {id x q : NodeId} {n : Node}

/-- What a node waits for is a node, and if it is a resource, then the node uses it. -/
theorem Sound.exists_of_mem_predecessors (hs : p.Sound g E) (hg : g.Sound) (hn : p.node? x = some n)
    (hq : q ∈ n.predecessors) : (∃ m, p.node? q = some m) ∧
      (q.isResource = true → ∃ name, q = NodeId.resource name ∧ name ∈ n.kind.uses) := by
  obtain ⟨b, hb, -, hqb⟩ := (hs.unfolds.mem_predecessors hn).1 hq
  obtain ⟨m, hm⟩ := hs.unfolds.exists_producer hn hg hb hqb
  refine ⟨⟨m, hm⟩, fun hres => ?_⟩
  rw [hs.unfolds.isResource_eq hm hg] at hres
  obtain ⟨name, rfl⟩ := hs.unfolds.exists_eq_resource hm hg hres
  exact ⟨name, rfl, (hs.unfolds.uses_of_mem_predecessors hg hn hq).1⟩

namespace Paused

theorem isPending (h : p.Paused) {s : NodeStatus} (hst : p.status? id = some s)
    (ht : s.isTerminal = false) : p.isPending id = true := by
  cases s with
  | pending => exact isPending_iff.2 hst
  | running => exact absurd hst h.running
  | succeeded => cases ht
  | failed message => cases ht
  | skipped reason => cases ht

/-- In a tidy plan with something left to do, something is left to do that is no resource. -/
theorem exists_pending (h : p.Paused) (htidy : p.Tidy) (hg : g.Sound) (hs : p.Sound g E)
    (hp : p.isPending id = true) : ∃ x, Due p x := by
  cases hid : id.isResource with
  | false => exact ⟨id, hp, hid⟩
  | true =>
    obtain ⟨n, hn⟩ := hs.node_of_isPending hp
    rw [hs.unfolds.isResource_eq hn hg] at hid
    obtain ⟨name, rfl⟩ := hs.unfolds.exists_eq_resource hn hg hid
    obtain ⟨x, s, ⟨m, hm, hname⟩, hst, hterm⟩ := htidy name hp
    refine ⟨x, h.isPending hst hterm, ?_⟩
    rw [hs.unfolds.isResource_eq hm hg]
    exact NodeKind.isResource_of_mem_uses hname

theorem hasSucceeded_or (h : p.Paused) (hg : g.Sound) (hs : p.Sound g E) (hn : p.node? x = some n)
    (hx : p.isPending x = true) (hfirst : ∀ z, TransGen p.nodes.Waits x z → ¬ Due p z)
    (hq : q ∈ n.predecessors) :
    p.hasSucceeded q = true ∨ (p.isPending q = true ∧ q.isResource = true) := by
  obtain ⟨⟨m, hm⟩, huses⟩ := hs.exists_of_mem_predecessors hg hn hq
  cases hres : q.isResource with
  | false =>
    left
    have hdue := hfirst q (.single ⟨n, hn, hq⟩)
    apply h.hasSucceeded hg hs hm
    · rw [← hs.unfolds.isResource_eq hm hg]
      exact hres
    · rw [Bool.eq_false_iff]
      exact fun hp => hdue ⟨hp, hres⟩
  | true =>
    obtain ⟨name, rfl, hname⟩ := huses hres
    cases hp : p.isPending (NodeId.resource name) with
    | true => exact .inr ⟨rfl, rfl⟩
    | false => exact .inl (h.hasSucceeded_resource (hs.status.2 ⟨m, hm⟩) hx ⟨n, hn, hname⟩ hp)

/-- The first node that is due is ready, or one of the resources that it waits for is. -/
theorem exists_isReady (h : p.Paused) (hg : g.Sound) (hs : p.Sound g E) (hx : Due p x)
    (hfirst : ∀ z, TransGen p.nodes.Waits x z → ¬ Due p z) : ∃ y, p.isReady y = true := by
  obtain ⟨n, hn⟩ := hs.node_of_isPending hx.1
  have hor := fun {q} => h.hasSucceeded_or hg hs hn hx.1 hfirst (q := q)
  by_cases hall : ∀ q ∈ n.predecessors, p.hasSucceeded q = true
  · have hk : n.kind.isResource = false := (hs.unfolds.isResource_eq hn hg).symm.trans hx.2
    exact ⟨x, isReady_iff.2 ⟨hx.1, n, hn, hall, fun hr => by cases hk.symm.trans hr⟩⟩
  · -- a resource that `x` still waits for
    push Not at hall
    obtain ⟨r, hr, hnot⟩ := hall
    obtain ⟨hpend, hres⟩ := (hor hr).resolve_left hnot
    obtain ⟨m, hm⟩ := hs.node_of_isPending hpend
    refine ⟨r, hs.isReady_resource hm hpend (fun q hq => ?_) hn hx.1 hr ?_⟩
    · -- a resource uses none, so that the steps behind it are all that it waits for
      obtain ⟨⟨m', hm'⟩, huses⟩ := hs.exists_of_mem_predecessors hg hm hq
      have hk : m.kind.isResource = true := (hs.unfolds.isResource_eq hm hg).symm.trans hres
      have hq' : q.isResource = false := by
        rw [Bool.eq_false_iff]
        intro hqr
        obtain ⟨name, -, hname⟩ := huses hqr
        cases hk.symm.trans (NodeKind.isResource_of_mem_uses hname)
      have hdue := hfirst q (.head ⟨n, hn, hr⟩ (.single ⟨m, hm, hq⟩))
      apply h.hasSucceeded hg hs hm' ((hs.unfolds.isResource_eq hm' hg).symm.trans hq')
      rw [Bool.eq_false_iff]
      exact fun hp => hdue ⟨hp, hq'⟩
    · exact fun q hq => (hor hq).imp_right And.right

theorem exists_isReady_of_isPending (h : p.Paused) (htidy : p.Tidy) (hg : g.Sound) (hs : p.Sound g E)
    (hac : p.nodes.Acyclic) (hp : p.isPending id = true) : ∃ y, p.isReady y = true := by
  obtain ⟨x, hx⟩ := h.exists_pending htidy hg hs hp
  obtain ⟨y, hy, hfirst⟩ := NodeMap.exists_first (P := Due p) (fun hd => hs.node_of_isPending hd.1)
    (fun {z} _ => hac z) hx
  exact h.exists_isReady hg hs hy hfirst

end Paused

theorem Sound.ready_ne_nil (hs : p.Sound g E) (hx : p.isReady x = true) {limit : Nat} (hl : 1 ≤ limit) :
    p.ready limit ≠ [] := by
  obtain ⟨n, hn⟩ := hs.node_of_isPending (isPending_of_isReady hx)
  have hmem : x ∈ p.order.filter p.isReady := List.mem_filter.2 ⟨hs.mem_order.2 ⟨n, hn⟩, hx⟩
  rw [ready, Ne, List.take_eq_nil_iff, not_or]
  exact ⟨by omega, List.ne_nil_of_mem hmem⟩

end Paused
end Plan

/-- The plan of a built graph does not get stuck: as long as nothing fails and nothing that is needed is
skipped, all nodes have ended or some can start whenever nothing runs, no nodes wait for each other in a
circle, and what is idle has been skipped. -/
theorem Graph.progress_of_build {defs : Definitions} {registry : Registry} {g : Graph}
    (hb : Graph.build defs registry = .ok g) (hp : defs.PlainNames) {h : Plan.History} {p : Plan}
    (hl : Plan.Leads (Plan.ofGraph g) h p) (hsmooth : ∀ e ∈ h, e.2.isSmooth = true)
    (hrun : ∀ id, p.skipIdleResources.1.status? id ≠ some .running)
    (hac : p.skipIdleResources.1.nodes.Acyclic) :
    (∀ id s, p.skipIdleResources.1.status? id = some s → s.isTerminal = true) ∨
      ∀ k, 1 ≤ k → p.skipIdleResources.1.ready k ≠ [] := by
  have hg := Graph.sound_of_build hb hp
  have hs := hl.sound hg
  have hpaused : p.skipIdleResources.1.Paused :=
    ⟨(hl.clean hg hsmooth).skipIdle hg hs, fun {id} => hrun id⟩
  by_cases hwork : p.skipIdleResources.1.hasWorkRemaining = true
  · right
    obtain ⟨id, s, hst, hterm⟩ := Plan.hasWorkRemaining_iff.1 hwork
    have htidy := hs.tidy_skipIdleResources hg
    obtain ⟨x, hx⟩ := hpaused.exists_isReady_of_isPending htidy hg hs.skipIdleResources hac
      (hpaused.isPending hst hterm)
    exact fun k hk => hs.skipIdleResources.ready_ne_nil hx hk
  · left
    intro id s hst
    by_contra hterm
    exact hwork (Plan.hasWorkRemaining_iff.2 ⟨id, s, hst, by simpa using hterm⟩)

/-! ## A resource that waits for a step -/

namespace Chain

/-- Step `b` uses a resource that reads what step `a` answers, which uses another one. -/
def definitions : Definitions where
  resources := [⟨"cache", "pool", .empty⟩,
    ⟨"db", "pool", SortedMap.ofList [("size", .reference (Reference.step "a"))]⟩]
  steps := [(StepDefinition.new "a" "emit").withUse (Reference.resource "cache"),
    (StepDefinition.new "b" "emit").withUse (Reference.resource "db")]

def registry : Registry :=
  (Registry.empty.withRunner "emit" ⟨⟨[], [], ["pool"]⟩, fun _ w => (.panic "", w)⟩).withKind "pool"
    ⟨⟨[⟨"size", .any, false⟩]⟩, fun _ w => (.panic "", w), fun _ w => (.panic "", w)⟩

def graph : Graph :=
  match Graph.build definitions registry with
  | .ok g => g
  | .error _ => ⟨.empty, []⟩

/-- The plan in which the first resource has been created. -/
def created : Plan :=
  ((Plan.ofGraph graph).markRunning (NodeId.resource "cache")).markSucceeded (NodeId.resource "cache") none

def answered : Plan :=
  (created.markRunning (NodeId.step "a")).markSucceeded (NodeId.step "a") (some .null)

/-- The operations that lead there, with the plans before them. -/
def history : Plan.History :=
  [(Plan.ofGraph graph, .start (NodeId.resource "cache")),
    ((Plan.ofGraph graph).markRunning (NodeId.resource "cache"), .succeed (NodeId.resource "cache") none),
    (created, .start (NodeId.step "a")),
    (created.markRunning (NodeId.step "a"), .succeed (NodeId.step "a") (some .null))]

theorem leads_running : Plan.Leads (Plan.ofGraph graph) (history.take 3)
    (created.markRunning (NodeId.step "a")) := by
  have hc : Plan.Leads (Plan.ofGraph graph) (history.take 1)
      ((Plan.ofGraph graph).markRunning (NodeId.resource "cache")) :=
    Plan.Leads.start.perform (.start (by decide +kernel)) fun _ _ h => by cases h
  have hc' : Plan.Leads (Plan.ofGraph graph) (history.take 2) created :=
    hc.perform (.succeed none (by decide +kernel)) fun _ _ h => by cases h
  exact hc'.perform (.start (by decide +kernel)) fun _ _ h => by cases h

theorem leads : Plan.Leads (Plan.ofGraph graph) history answered :=
  leads_running.perform (.succeed _ (by decide +kernel)) fun _ _ h => by cases h

/-- Step `b` is left and has to wait, and the second resource can be created. -/
theorem answered_progress : Plan.Leads (Plan.ofGraph graph) history answered ∧
    answered.skipIdleResources.1.isReady (NodeId.step "b") = false ∧
    answered.skipIdleResources.1.ready 1 = [NodeId.resource "db"] ∧
    ∀ k, 1 ≤ k → answered.skipIdleResources.1.ready k ≠ [] := by
  have hb : Graph.build definitions registry = .ok graph := rfl
  have hp : definitions.PlainNames := by
    unfold Definitions.PlainNames
    decide +kernel
  have hrun : ∀ id, answered.skipIdleResources.1.status? id ≠ some .running := by
    have hall : ∀ s ∈ answered.skipIdleResources.1.statuses.values, s ≠ .running := by decide +kernel
    exact fun id hs => hall _ (SortedMap.mem_values.2 ⟨id, hs⟩) rfl
  have hac : answered.skipIdleResources.1.nodes.Acyclic := by
    have hl := leads.perform (.skipIdle answered) fun _ _ h => by cases h
    apply ((hl.acyclic_iff (Graph.sound_of_build hb hp)).2 fun q id vars hm => ?_).2
    simp [history] at hm
  refine ⟨leads, by decide +kernel, by decide +kernel, ?_⟩
  rcases Graph.progress_of_build hb hp leads (by decide) hrun hac with hend | hready
  · have hst : answered.skipIdleResources.1.status? (NodeId.step "b") = some .pending := by
      decide +kernel
    cases hend _ _ hst
  · exact hready

end Chain

end Workplan
