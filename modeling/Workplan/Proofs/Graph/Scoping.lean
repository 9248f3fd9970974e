import Workplan.Proofs.Evaluation
import Workplan.Proofs.Plan.Blueprint

/-! Scoping: what the expressions of a node name is bound for it. Validation checks the loop variables, the
builder makes a binding for every reference, and a reference to one instance has one producer. The
instances of a placeholder are scoped like those that are known before the run. -/
namespace Workplan
open Outcome
set_option autoImplicit false

/-! ## Loop variables -/

def VariableScope.Bound (scope : VariableScope) (vars : LoopVars) : Prop :=
  ∀ v, scope.allows v = true → ∃ x, vars.get? v = some x

def Replication.scope : Replication → VariableScope
  | .single => .none
  | .count _ => .count
  | .forEach _ => .each

theorem VariableScope.bound_none (vars : LoopVars) : VariableScope.none.Bound vars :=
  fun v h => by cases v <;> cases h

namespace Replication

theorem bound_eachFrom (start : Nat) (entries : List (Value × Value)) :
    ∀ x ∈ eachFrom start entries, VariableScope.each.Bound x := by
  induction entries generalizing start with
  | nil => simp [eachFrom]
  | cons e rest ih =>
    intro x hx
    rcases List.mem_cons.1 hx with rfl | hx
    · intro v hv
      cases v with
      | countIndex => cases hv
      | eachKey => exact ⟨e.1, rfl⟩
      | eachValue => exact ⟨e.2, rfl⟩
    · exact ih (start + 1) x hx

theorem bound_of_expand {r : Replication} {step : String} {v : Value} {vars : List LoopVars}
    (h : r.expand step v = .ok vars) : ∀ x ∈ vars, r.scope.Bound x := by
  cases r with
  | single => exact fun x _ => VariableScope.bound_none x
  | count e =>
    rw [expand] at h
    unfold countInstances at h
    split at h
    next n =>
      dsimp only at h
      split at h
      next => cases h
      next =>
        split at h
        next => cases h
        next =>
          split at h
          next => cases h
          next =>
            cases h
            intro x hx v hv
            obtain ⟨i, -, rfl⟩ := List.mem_map.1 hx
            cases v with
            | countIndex => exact ⟨.ofNat i, rfl⟩
            | eachKey => cases hv
            | eachValue => cases hv
    next => cases h
  | forEach e =>
    rw [expand] at h
    unfold forEachInstances at h
    split at h
    next =>
      cases h
      exact bound_eachFrom 0 _
    next =>
      cases h
      exact bound_eachFrom 0 _
    next => cases h

variable {step : StepDefinition} {r : Replication}

theorem scope_of (h : of? step = some r) : r.scope = VariableScope.ofStep step := by
  rw [of?] at h
  rw [VariableScope.ofStep]
  split at h
  next => cases h
  next hc hf =>
    cases h
    rw [hc]
    rfl
  next hc hf =>
    cases h
    rw [hc, hf]
    rfl
  next hc hf =>
    cases h
    rw [hc, hf]
    rfl

theorem mem_expression? (h : of? step = some r) {e : Expression} (he : r.expression? = some e) :
    e ∈ step.replicationExpressions := by
  rw [of?] at h
  rw [StepDefinition.replicationExpressions]
  split at h
  next => cases h
  next hc hf =>
    cases h
    cases he
    simp [hc]
  next hc hf =>
    cases h
    cases he
    simp [hf]
  next =>
    cases h
    cases he

end Replication

/-! ## Definitions -/

/-- The loop variables of a step are used where they are bound. -/
structure StepDefinition.Scoped (s : StepDefinition) : Prop where
  arguments : ∀ e ∈ s.arguments.values, ∀ v ∈ e.loopVariables,
    (VariableScope.ofStep s).allows v = true
  replication : ∀ e ∈ s.replicationExpressions, ∀ v ∈ e.loopVariables,
    VariableScope.none.allows v = true

/-- The loop variables of all declarations are used where they are bound. -/
structure Definitions.Scoped (defs : Definitions) : Prop where
  steps : ∀ s ∈ defs.steps, s.Scoped
  resources : ∀ r ∈ defs.resources, ∀ e ∈ r.arguments.values, ∀ v ∈ e.loopVariables,
    VariableScope.none.allows v = true

namespace Validation
variable {defs : Definitions} {registry : Registry}

theorem allows_of_checkExpression {node : NodeId} {vars : VariableScope} {e : Expression}
    (h : checkExpression defs registry node vars e = .ok ()) :
    ∀ v ∈ e.loopVariables, vars.allows v = true := by
  obtain ⟨_, hvars, -⟩ := bind_eq_ok.1 h
  rw [checkAll_eq_ok_iff] at hvars
  intro v hv
  have hc := hvars v hv
  rw [checkVariable] at hc
  split at hc
  next ha => exact ha
  next => cases hc

theorem step_scoped {s : StepDefinition} (h : checkStep defs registry s = .ok ()) : s.Scoped := by
  rw [checkStep] at h
  split at h
  next => cases h
  next =>
    obtain ⟨_, -, h⟩ := bind_eq_ok.1 h
    obtain ⟨_, -, h⟩ := bind_eq_ok.1 h
    obtain ⟨_, harg, h⟩ := bind_eq_ok.1 h
    obtain ⟨_, hrep, -⟩ := bind_eq_ok.1 h
    rw [checkAll_eq_ok_iff] at harg hrep
    exact ⟨fun e he => allows_of_checkExpression (harg e he),
      fun e he => allows_of_checkExpression (hrep e he)⟩

theorem resource_scoped {r : ResourceDefinition} (h : checkResource defs registry r = .ok ()) :
    ∀ e ∈ r.arguments.values, ∀ v ∈ e.loopVariables, VariableScope.none.allows v = true := by
  rw [checkResource] at h
  split at h
  next => cases h
  next =>
    obtain ⟨_, -, harg⟩ := bind_eq_ok.1 h
    rw [checkAll_eq_ok_iff] at harg
    exact fun e he => allows_of_checkExpression (harg e he)

end Validation

theorem Definitions.scoped_of_validate {defs : Definitions} {registry : Registry}
    (h : defs.validate registry = .ok ()) : defs.Scoped := by
  obtain ⟨_, -, h⟩ := bind_eq_ok.1 h
  obtain ⟨_, -, h⟩ := bind_eq_ok.1 h
  obtain ⟨_, hres, hstep⟩ := bind_eq_ok.1 h
  rw [checkAll_eq_ok_iff] at hres hstep
  exact ⟨fun s hm => Validation.step_scoped (hstep s hm),
    fun r hm => Validation.resource_scoped (hres r hm)⟩

/-! ## Nodes -/

/-- The expressions that the work of a kind of node evaluates. -/
def NodeKind.expressions : NodeKind → List Expression
  | .step inst => inst.arguments.values
  | .expansion replication _ => replication.expression?.toList
  | .resource _ _ arguments => arguments.values

def NodeKind.vars : NodeKind → LoopVars
  | .step inst => inst.vars
  | _ => LoopVars.none

/-- Every expression of a kind of node names what the bindings and the loop variables bind. -/
structure NodeKind.Scoped (kind : NodeKind) (bs : List Binding) : Prop where
  reference : ∀ e ∈ kind.expressions, ∀ r ∈ e.references,
    ∃ b ∈ bs, b.reference = r ∧ b.role.readsValue = true
  loopVariable : ∀ e ∈ kind.expressions, ∀ v ∈ e.loopVariables, ∃ x, kind.vars.get? v = some x
  /-- A reference to one instance has one producer. -/
  single : ∀ b ∈ bs, b.reference.index ≠ .splat → ∃ q, b.producers = [q]

/-- The nodes of a graph are scoped, and so will be the instances of its placeholders. -/
structure Graph.Scoped (g : Graph) : Prop where
  node : ∀ {id n}, g.node? id = some n → n.kind.Scoped n.bindings
  template : ∀ {id n replication template}, g.node? id = some n →
    n.kind = .expansion replication template → ∀ i v, replication.scope.Bound v →
      (NodeKind.step (template.instantiate i v)).Scoped
        (n.bindings.filter fun b => b.role ≠ .replication)

theorem resolveProducers_single {id : NodeId} {r : Reference} {role : BindingRole}
    {instances ids : List NodeId} (h : resolveProducers id r role instances = .ok ids)
    (hr : r.index ≠ .splat) : ∃ q, ids = [q] := by
  unfold resolveProducers at h
  dsimp only at h
  split at h
  next hs => exact absurd hs hr
  next =>
    split at h
    next q _ =>
      cases h
      exact ⟨q, rfl⟩
    next => cases h
  next =>
    split at h
    next only =>
      cases h
      exact ⟨only, rfl⟩
    next => cases h
    next =>
      split at h
      next => cases h
      next => cases h

namespace Building
variable {defs : Definitions} {ls : Layouts} {nodes : NodeMap}

theorem producers_single {node : NodeId} {r : Reference} {role : BindingRole} {ids : List NodeId}
    (h : producers ls node r role = .ok ids) (hr : r.index ≠ .splat) : ∃ q, ids = [q] := by
  rw [producers] at h
  split at h
  next name _ =>
    cases h
    exact ⟨NodeId.resource name, rfl⟩
  next name _ =>
    split at h
    next => cases h
    next =>
      split at h
      next => cases h
      next =>
        cases h
        exact ⟨NodeId.step name, rfl⟩
    next => exact resolveProducers_single h hr
    next =>
      cases h
      exact ⟨NodeId.step name, rfl⟩

theorem of_layout {s : StepDefinition} {l : StepLayout} (h : layout s = .ok l) :
    ∃ r, Replication.of? s = some r ∧
      match l with
      | .single => r = .single
      | .instances vars => ∃ text v, r.expand text v = .ok vars
      | .deferred replication => replication = r := by
  rw [layout] at h
  split at h
  next => cases h
  next r hr =>
    refine ⟨r, hr, ?_⟩
    split at h
    next he =>
      cases h
      cases r with
      | single => rfl
      | count e => cases he
      | forEach e => cases he
    next e he =>
      split at h
      next =>
        cases h
        rfl
      next =>
        obtain ⟨v, -, h⟩ := bind_eq_ok.1 h
        obtain ⟨vars, hv, h⟩ := bind_eq_ok.1 h
        cases h
        exact ⟨_, v, mapError_eq_ok.1 hv⟩

theorem mem_referencesOf {es : List Expression} {e : Expression} (he : e ∈ es) {r : Reference}
    (hr : r ∈ e.references) : r ∈ referencesOf es := List.mem_flatMap.2 ⟨e, he, hr⟩

/-- The arguments of a step are scoped when the loop variables are bound that the step declares. -/
theorem scoped_of_stepBindings {node : NodeId} {step : StepDefinition} {isPlaceholder : Bool}
    {bs : List Binding} (hs : step.Scoped) (h : stepBindings ls node step isPlaceholder = .ok bs)
    (index : Option Nat) {vars : LoopVars} (hv : (VariableScope.ofStep step).Bound vars)
    {p : Binding → Bool} (hp : ∀ b, b.role = .argument → p b = true) :
    (NodeKind.step (.ofDefinition step index vars)).Scoped (bs.filter p) where
  reference := by
    intro e he r hr
    obtain ⟨b, hb, hrole, href⟩ := exists_of_stepBindings .argument h nofun (mem_referencesOf he hr)
    exact ⟨b, List.mem_filter.2 ⟨hb, hp b hrole⟩, href, by rw [hrole]; rfl⟩
  loopVariable := fun e he v hm => hv v (hs.arguments e he v hm)
  single := fun b hb hr =>
    producers_single (stepBindings_spec h b (List.mem_filter.1 hb).1).producers hr

theorem scoped_of_laid (hs : defs.Scoped) (hls : layouts defs.steps = .ok ls)
    (h : Laid defs ls nodes) (order : List NodeId) : Graph.Scoped ⟨nodes, order⟩ where
  node := by
    intro id n hn
    have hm := h.made hn
    generalize n.kind = kind at hm
    generalize n.bindings = bs at hm
    cases hm with
    | @«instance» step l i bs hl hi hb =>
      obtain ⟨hmem, hlayout⟩ := (layouts_spec hls).1 hl
      obtain ⟨r, hr, hcase⟩ := of_layout hlayout
      have hbound : (VariableScope.ofStep step).Bound i.2.2 := by
        rw [← Replication.scope_of hr]
        rcases mem_knownInstances hi with ⟨rfl, rfl⟩ | ⟨vars, k, rfl, -, hv, -, -⟩
        · rw [show r = .single from hcase]
          exact VariableScope.bound_none _
        · obtain ⟨text, v, hexp⟩ := hcase
          exact Replication.bound_of_expand hexp _ (List.mem_of_getElem? hv)
      have hscoped := scoped_of_stepBindings (p := fun _ => true) (hs.steps step hmem) hb
        i.2.1 hbound fun _ _ => rfl
      rwa [List.filter_true] at hscoped
    | @placeholder step replication bs hl hb =>
      obtain ⟨hmem, hlayout⟩ := (layouts_spec hls).1 hl
      obtain ⟨r, hr, hcase⟩ := of_layout hlayout
      -- a placeholder evaluates what its instances are made from, with no loop variable bound
      have hmemexp : ∀ e ∈ (NodeKind.expansion replication
          (.ofDefinition step none LoopVars.none)).expressions, e ∈ step.replicationExpressions := by
        intro e he
        rw [show replication = r from hcase] at he
        exact Replication.mem_expression? hr (Option.mem_toList.1 he)
      refine ⟨fun e he ref href => ?_, fun e he v hv => ?_,
        fun b hb' href => producers_single (stepBindings_spec hb b hb').producers href⟩
      · obtain ⟨b, hb', hrole, hbr⟩ := exists_of_stepBindings .replication hb
          (fun _ => rfl) (mem_referencesOf (hmemexp e he) href)
        exact ⟨b, hb', hbr, by rw [hrole]; rfl⟩
      · have hnone := (hs.steps step hmem).replication e (hmemexp e he) v hv
        exact VariableScope.bound_none _ v hnone
    | @resource r bs hr hb =>
      obtain ⟨hbound, -, hall⟩ := pushBindings_spec hb
      refine ⟨fun e he ref href => ?_, fun e he v hv => ?_, fun b hb' href => ?_⟩
      · obtain ⟨b, hb', hrole, hbr⟩ := hall ref (mem_referencesOf he href)
        exact ⟨b, hb', hbr, by rw [hrole]; rfl⟩
      · exact VariableScope.bound_none _ v (hs.resources r hr e he v hv)
      · rcases hbound b hb' with hc | hb'
        · cases hc
        · exact producers_single hb'.producers href
  template := by
    intro id n replication template hn hk i v hv
    have hm := h.made hn
    rw [hk] at hm
    generalize n.bindings = bs at hm
    cases hm with
    | @placeholder step replication bs hl hb =>
      obtain ⟨hmem, hlayout⟩ := (layouts_spec hls).1 hl
      obtain ⟨r, hr, hcase⟩ := of_layout hlayout
      have hbound : (VariableScope.ofStep step).Bound v := by
        rw [← Replication.scope_of hr, ← show replication = r from hcase]
        exact hv
      exact scoped_of_stepBindings (hs.steps step hmem) hb (some i) hbound
        fun b hrole => by simp [hrole]

end Building

theorem Graph.scoped_of_build {defs : Definitions} {registry : Registry} {g : Graph}
    (h : build defs registry = .ok g) : g.Scoped := by
  obtain ⟨-, ls, hls, hlaid, -⟩ := laid_of_build h
  obtain ⟨_, hv, -⟩ := bind_eq_ok.1 h
  exact Building.scoped_of_laid (Definitions.scoped_of_validate hv) hls hlaid g.order

end Workplan
