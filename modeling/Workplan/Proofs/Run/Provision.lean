import Workplan.Proofs.Run.Stock

/-! Provision: what a node finds when it starts. Its handler is registered, and each resource that it uses
has been created and has not been handed back, since the node itself still counts among the consumers. -/
namespace Workplan
open Outcome
set_option autoImplicit false

theorem Blueprint.registered {g : Graph} {E : Expansions} {registry : Registry} {id : NodeId}
    {kind : NodeKind} {bs : List Binding} (h : Blueprint g E id kind bs) (hr : g.Registered registry) :
    (∀ inst, kind = .step inst → ∃ k, registry.runner? inst.runner = some k) ∧
      ∀ name kindName arguments, kind = .resource name kindName arguments →
        ∃ k, registry.kind? kindName = some k := by
  cases h with
  | declared h => exact ⟨fun inst hk => hr.runner h hk, fun name kindName arguments hk => hr.kind h hk⟩
  | spliced h hk hE hv =>
    refine ⟨fun inst he => ?_, fun name kindName arguments he => by cases he⟩
    cases he
    obtain ⟨k, hk'⟩ := hr.template h hk
    exact ⟨k, hk'⟩

namespace Run
variable {g : Graph} {slots : Slots} {r : Run} {E : Expansions} {id : NodeId} {n : Node}
variable {a : Option (NodeId × Option WorkOutcome)} {l : List NodeId}

theorem exists_dependencies {names : List String}
    (h : ∀ name ∈ names, ∃ i, slots.instance? name = some i) :
    ∃ deps, dependencies slots names = .ok deps := by
  induction names with
  | nil => exact ⟨_, rfl⟩
  | cons name names ih =>
    obtain ⟨i, hi⟩ := h name List.mem_cons_self
    obtain ⟨deps, hdeps⟩ := ih fun x hx => h x (List.mem_cons_of_mem _ hx)
    refine ⟨deps.insert name i, ?_⟩
    rw [dependencies, hi]
    exact bind_eq_ok.2 ⟨deps, hdeps, rfl⟩

theorem exists_instance_of_uses (hg : g.Sound) (hl : Live g ⟨r, E, a, l⟩)
    (hc : (Stage.mk r E a l).Covered) (hs : (Stage.mk r E a l).Stocked)
    (hn : r.plan.node? id = some n) (hx : n.kind.isExpansion = false)
    (hst : r.plan.hasStarted id = true) (hold : (Stage.mk r E a l).Holds id) {name : String}
    (hu : name ∈ n.kind.uses) : ∃ i, r.slots.instance? name = some i := by
  obtain ⟨slot, hslot, -, hback⟩ := hc id name ⟨n, hn, hu⟩ hold
  have hpred := hl.sound.unfolds.resource_mem_predecessors hg hn hx hu
  have hsucc := hl.sound.gated hn hst hpred
  obtain ⟨i, hi⟩ := (hs.filled hslot).2 (.inl hsucc)
  have hslot' : r.slots.get? name = some slot := hslot
  refine ⟨i, ?_⟩
  rw [Slots.instance?, hslot']
  exact Slot.live?_eq_some.2 ⟨hi, hback⟩

theorem exists_workOf (hg : g.Sound) (hr : g.Registered r.settings.registry)
    (hl : Live g ⟨r, E, a, l⟩) (hc : (Stage.mk r E a l).Covered) (hs : (Stage.mk r E a l).Stocked)
    (hn : r.plan.node? id = some n) (hst : r.plan.hasStarted id = true)
    (hold : (Stage.mk r E a l).Holds id) :
    ∃ work, workOf r.settings.registry r.slots n.kind = .ok work := by
  obtain ⟨bs, hbp, -⟩ := hl.sound.unfolds.known hn
  obtain ⟨hrunner, hkind⟩ := hbp.registered hr
  cases hk : n.kind with
  | step inst =>
    obtain ⟨k, hk'⟩ := hrunner inst hk
    have halive : ∀ name ∈ inst.uses, ∃ i, r.slots.instance? name = some i := fun name hu =>
      exists_instance_of_uses hg hl hc hs hn (by rw [hk]; rfl) hst hold (by rw [hk]; exact hu)
    obtain ⟨deps, hdeps⟩ := exists_dependencies halive
    exact ⟨.step k inst.arguments deps, by simp only [workOf, hk', hdeps]; rfl⟩
  | resource name kindName arguments =>
    obtain ⟨k, hk'⟩ := hkind name kindName arguments hk
    exact ⟨.create name k arguments, by simp only [workOf, hk']⟩
  | expansion replication template => exact ⟨.expand replication, rfl⟩

theorem prepare_cases (hg : g.Sound) (hr : g.Registered r.settings.registry)
    (hl : Live g ⟨r, E, some (id, none), []⟩) (hc : (Stage.mk r E (some (id, none)) []).Covered)
    (hs : (Stage.mk r E (some (id, none)) []).Stocked) : ∃ n, r.plan.node? id = some n ∧
      ((∃ t, r.prepare id = .ok t) ∨ ∃ e, r.plan.scopeFor n = .error e ∧ r.prepare id = .error e) := by
  obtain ⟨hrun, -, -⟩ := hl.active rfl
  obtain ⟨n, hn⟩ := hl.node_of_running hrun
  have hn' : r.plan.node? id = some n := hn
  obtain ⟨work, hwork⟩ := exists_workOf hg hr hl hc hs hn (Plan.hasStarted_iff.2 ⟨_, hrun, rfl⟩)
    (.inr (.inr (.inl ⟨none, rfl⟩)))
  refine ⟨n, hn, ?_⟩
  cases hscope : r.plan.scopeFor n with
  | ok scope =>
    left
    refine ⟨⟨r.next, id, r.deadlineOf n.kind, .queued scope work⟩, ?_⟩
    simp only [prepare, hn', hscope, hwork]
    rfl
  | error e =>
    right
    refine ⟨e, rfl, ?_⟩
    simp only [prepare, hn', hscope]
    rfl

end Run

end Workplan
