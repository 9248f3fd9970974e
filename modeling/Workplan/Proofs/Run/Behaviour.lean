import Workplan.Proofs.Plan.Persistence
import Workplan.Proofs.Run.Slots
import Workplan.Proofs.Run.Works

/-! Behaviours: handlers whose answers depend on the node and the input only. They may take any time, and
what they do to the world that they share is up to them. The outcome of a node is then a function of the
plan, and a task is under way to it from its start on. -/
namespace Workplan
open Outcome
set_option autoImplicit false

/-- What steps and creations answer. -/
structure Behaviour where
  stepInputs : String → List InputSpec
  step : String → NodeId → Value → Except String Value
  createInputs : String → List InputSpec
  create : String → NodeId → Value → Except String Unit

namespace Behaviour
variable (b : Behaviour)

/-- The outcome of the work of a node. -/
def perform (id : NodeId) (kind : NodeKind) (scope : Scope) : WorkOutcome :=
  match kind with
  | .step inst => do
    let input ← Work.input (b.stepInputs inst.runner) inst.arguments scope
    let v ← (b.step inst.runner id input).mapError RunError.step
    .ok (.output v)
  | .resource _ kindName arguments => do
    let input ← Work.input (b.createInputs kindName) arguments scope
    let _ ← (b.create kindName id input).mapError RunError.create
    .ok .created
  | .expansion replication _ => (Work.instances replication id.text scope).map .expanded

/-- The outcome of a node of a plan. -/
def evaluate (p : Plan) (id : NodeId) (n : Node) : WorkOutcome :=
  p.scopeFor n >>= b.perform id n.kind

end Behaviour

/-- What a handler that answers a result says. -/
def Answer.of {α : Type} : Except String α → Answer α
  | .ok a => .value a
  | .error m => .error m

/-- The handlers of a registry follow a behaviour: they always wait and answer, a step and a creation as
the behaviour says, and a destruction in any way. -/
structure Registry.Follows (R : Registry) (b : Behaviour) : Prop where
  runner : ∀ {name k}, R.runner? name = some k → k.shape.inputs = b.stepInputs name ∧
    ∀ call w, ∃ ms act w', k.handle call w = (.wait ms act, w') ∧
      ∀ w, (act w).1 = .of (b.step name call.node call.input)
  kind : ∀ {name k}, R.kind? name = some k → k.shape.inputs = b.createInputs name ∧
    ∀ call w, ∃ ms act w', k.create call w = (.wait ms act, w') ∧
      ∀ w, ∃ i, (act w).1 = .of ((b.create name call.node call.input).map fun _ => i)
  destroy : ∀ {name k}, R.kind? name = some k →
    ∀ i w, ∃ ms act w', k.destroy i w = (.wait ms act, w')

def PendingAct.Yields (outcome : WorkOutcome) : PendingAct → Prop
  | .answer act => ∀ w, resultOfStep (act w).1 = outcome
  | .create _ act => ∀ w, (resultOfCreation (act w).1).map (fun _ => WorkResult.created) = outcome

/-- A task is under way to the outcome of its node. -/
def TaskPhase.Follows (b : Behaviour) (id : NodeId) (kind : NodeKind) (scope : Except RunError Scope) :
    TaskPhase → Prop
  | .queued s _ => scope = .ok s
  | .waiting _ act => act.Yields (scope >>= b.perform id kind)
  | .finished result _ => result = scope >>= b.perform id kind

namespace Run
section Follows
variable {b : Behaviour} {r : Run} {e : Event} {t : Task} {phase : TaskPhase} {w : World}
variable {slots : Slots} {kind : NodeKind} {scope : Except RunError Scope}

theorem resultOfStep_of (a : Except String Value) :
    resultOfStep (.of a) = a.mapError RunError.step >>= fun v => .ok (.output v) := by
  cases a <;> rfl

theorem resultOfCreation_of (a : Except String Unit) (i : ResourceInstance) :
    (resultOfCreation (.of (a.map fun _ => i))).map (fun _ => WorkResult.created) =
      a.mapError RunError.create >>= fun _ => .ok .created := by
  cases a <;> rfl

theorem follows_callStep (hR : r.settings.registry.Follows b) (hstop : r.stopRequested = false)
    {inst : StepInstance} {s : Scope} {runner : Runner}
    (hk : r.settings.registry.runner? inst.runner = some runner) {input : Value}
    (hi : Work.input runner.shape.inputs inst.arguments s = .ok input)
    {resources : SortedMap String ResourceInstance} {reaction : Reaction Value}
    (hc : runner.handle ⟨t.node, resources, input⟩ r.world = (reaction, w)) :
    (r.phaseAfterCall w .answer reaction).Follows b t.node (.step inst) (.ok s) := by
  obtain ⟨hinputs, hall⟩ := hR.runner hk
  obtain ⟨ms, act, w', hwait, hact⟩ := hall ⟨t.node, resources, input⟩ r.world
  rw [hinputs] at hi
  cases hc.symm.trans hwait
  simp only [phaseAfterCall, hstop]
  intro w''
  rw [hact, resultOfStep_of]
  show _ = b.perform t.node (.step inst) s
  simp only [Behaviour.perform, hi]
  rfl

theorem follows_callCreate (hR : r.settings.registry.Follows b) (hstop : r.stopRequested = false)
    {name kindName : String} {arguments : SortedMap String Expression} {s : Scope} {k : ResourceKind}
    (hk : r.settings.registry.kind? kindName = some k) {input : Value}
    (hi : Work.input k.shape.inputs arguments s = .ok input) {reaction : Reaction ResourceInstance}
    (hc : k.create ⟨t.node, .empty, input⟩ r.world = (reaction, w)) :
    (r.phaseAfterCall w (.create name) reaction).Follows b t.node
      (.resource name kindName arguments) (.ok s) := by
  obtain ⟨hinputs, hall⟩ := hR.kind hk
  obtain ⟨ms, act, w', hwait, hact⟩ := hall ⟨t.node, .empty, input⟩ r.world
  rw [hinputs] at hi
  cases hc.symm.trans hwait
  simp only [phaseAfterCall, hstop]
  intro w''
  obtain ⟨i, hi'⟩ := hact w''
  rw [hi', resultOfCreation_of]
  show _ = b.perform t.node (.resource name kindName arguments) s
  simp only [Behaviour.perform, hi]
  rfl

/-- Every event brings a task nearer to the outcome of its node, when nothing is stopped and the slot of
a resource that is being created is empty. -/
theorem TaskMoves.follows (h : TaskMoves r t e phase w slots) (hR : r.settings.registry.Follows b)
    (hstop : r.stopRequested = false) (hdeadline : t.deadline = none)
    (hfits : t.phase.Fits r.settings.registry kind) (hf : t.phase.Follows b t.node kind scope)
    (hqueued : ∀ s name k arguments, t.phase = .queued s (.create name k arguments) →
      r.slots.needsCreation name = true)
    (hcreating : ∀ wake name act, t.phase = .waiting wake (.create name act) →
      r.slots.needsCreation name = true) : phase.Follows b t.node kind scope := by
  -- A queued task has the work of its node. What the run does not come to (a reused instance, a timeout,
  -- a stop) contradicts the hypotheses.
  cases h with
  | @refuseStep s runner arguments resources e hq hi =>
    rw [hq] at hf hfits
    subst hf
    obtain ⟨inst, rfl, hk, rfl⟩ := hfits.of_step
    rw [(hR.runner hk).1] at hi
    show _ = b.perform t.node (.step inst) s
    simp only [Behaviour.perform, hi]
    rfl
  | @callStep s runner arguments resources input reaction w hq hi hc =>
    rw [hq] at hf hfits
    subst hf
    obtain ⟨inst, rfl, hk, rfl⟩ := hfits.of_step
    exact follows_callStep hR hstop hk hi hc
  | @refuseCreate s name k arguments e hq hi =>
    rw [hq] at hf hfits
    subst hf
    obtain ⟨kindName, rfl, hk⟩ := hfits.of_create
    rw [(hR.kind hk).1] at hi
    show _ = b.perform t.node (.resource name kindName arguments) s
    simp only [Behaviour.perform, hi]
    rfl
  | @callCreate s name k arguments input reaction w hq hi hn hc =>
    rw [hq] at hf hfits
    subst hf
    obtain ⟨kindName, rfl, hk⟩ := hfits.of_create
    exact follows_callCreate hR hstop hk hi hc
  | reuse hq hi hn hs =>
    rw [hqueued _ _ _ _ hq] at hn
    cases hn
  | unavailable hq hi hs =>
    obtain ⟨slot, hslot, -⟩ := Slots.needsCreation_iff.1 (hqueued _ _ _ _ hq)
    simp [SortedMap.contains, hslot] at hs
  | @expand s replication hq =>
    rw [hq] at hf hfits
    subst hf
    obtain ⟨template, rfl⟩ := hfits.of_expand
    rfl
  | @answer wake act answer w hw hc =>
    rw [hw] at hf
    have hfinal := hf r.world
    rw [hc] at hfinal
    exact hfinal
  | @create wake name act answer w hw hc =>
    rw [hw] at hf
    have hfinal := hf r.world
    rw [hc] at hfinal
    obtain ⟨slot, hslot, hnone⟩ := Slots.needsCreation_iff.1 (hcreating _ _ _ hw)
    rw [Slots.acquire_eq hslot hnone]
    exact hfinal
  | expire hw hd =>
    rw [hdeadline] at hd
    cases hd
  | stop hw hs =>
    rw [hstop] at hs
    cases hs

end Follows
end Run

end Workplan
