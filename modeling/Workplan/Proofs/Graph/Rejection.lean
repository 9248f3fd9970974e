import Workplan.Proofs.Graph.Acceptance
import Workplan.Proofs.Graph.Inventory
import Workplan.Proofs.Graph.Literal

/-! Rejection: what building can still find wrong with definitions that are valid.

Building computes two things that validation does not: the instances that are known before the run, and
the order of the nodes. So what is left are values of replications that give no instances, references
that do not fit the number of instances, and cycles (`BuildError.Remains`). All other errors that the
builder can return are about references and variables, and of these validation has seen all that the
builder meets. And nothing is left that does not count: with any of these reasons there is no graph. -/
namespace Workplan
open Outcome
set_option autoImplicit false

/-! ## What is left -/

/-- A node asks for a reference: a declared node for those of its step, and the node of a resource for
those of its arguments. A resource has a node when one of the nodes of steps uses it. -/
inductive Definitions.Asks (defs : Definitions) : NodeId → BindingRole → Reference → Prop where
  | step {s : StepDefinition} {id : NodeId} {role : BindingRole} {r : Reference} (hs : s ∈ defs.steps)
    (hid : id ∈ s.declared.map fun d => d.1) (hr : r ∈ Building.referencesWith s role) :
    Asks defs id role r
  | resource {ls : Building.Layouts} {steps : List Node} {d : ResourceDefinition} {r : Reference}
    (hls : Building.layouts defs.steps = .ok ls) (hsteps : Building.stepNodes ls = .ok steps)
    (hd : d ∈ Building.usedResources defs (Building.nodeMap steps))
    (hr : r ∈ Building.referencesOf d.arguments.values) :
    Asks defs (NodeId.resource d.name) .argument r

/-- A node asks for a reference to a declared step. -/
structure Definitions.AsksStep (defs : Definitions) (id : NodeId) (role : BindingRole) (r : Reference)
    (s : StepDefinition) : Prop where
  asks : defs.Asks id role r
  mem : s ∈ defs.steps
  target : r.target = .step s.name

/-- The errors that valid definitions can still be rejected with, each with its reason. -/
inductive BuildError.Remains (defs : Definitions) : BuildError → Prop where
  | count {s : StepDefinition} {replication : Replication} {e : Expression} {v : Value}
    {fault : CountError} (hs : s ∈ defs.steps) (hr : Replication.of? s = some replication)
    (he : replication.expression? = some e) (hstatic : e.isStatic = true)
    (hv : e.evaluate Scope.empty = .ok v)
    (hfault : replication.expand (NodeId.step s.name).text v = .error fault) :
    Remains defs (.count fault)
  | notReplicated {id : NodeId} {role : BindingRole} {r : Reference} {s : StepDefinition} {i : Nat}
    (ha : defs.AsksStep id role r s) (hi : r.index = .nth i) (hs : s.isReplicated = false) :
    Remains defs (.notReplicated id s.name)
  | indexOutOfRange {id : NodeId} {role : BindingRole} {r : Reference} {s : StepDefinition} {i : Nat}
    {vars : List LoopVars} (ha : defs.AsksStep id role r s) (hi : r.index = .nth i)
    (hv : s.knownVars? = some vars) (hlen : vars.length ≤ i) :
    Remains defs (.indexOutOfRange id s.name i vars.length)
  | noInstances {id : NodeId} {role : BindingRole} {r : Reference} {s : StepDefinition}
    (ha : defs.AsksStep id role r s) (hi : r.index = .unindexed) (hv : s.knownVars? = some []) :
    Remains defs (.noInstances id r s.name)
  | ambiguousDependency {id : NodeId} {r : Reference} {s : StepDefinition} {vars : List LoopVars}
    (ha : defs.AsksStep id .explicit r s) (hi : r.index = .unindexed)
    (hv : s.knownVars? = some vars) (hlen : 2 ≤ vars.length) :
    Remains defs (.ambiguousDependency id r s.name vars.length)
  | ambiguousImplicitDependency {id : NodeId} {role : BindingRole} {r : Reference} {s : StepDefinition}
    {vars : List LoopVars} (ha : defs.AsksStep id role r s) (hrole : role ≠ .explicit)
    (hi : r.index = .unindexed) (hv : s.knownVars? = some vars) (hlen : 2 ≤ vars.length) :
    Remains defs (.ambiguousImplicitDependency id r s.name vars.length)
  | cycle {nodes : NodeMap} {ids : List NodeId} (hn : Building.nodes defs = .ok nodes)
    (hc : nodes.dependencyOrder = .error (.cycle ids)) : Remains defs (.cycle ids)

/-! ## What validation has seen -/

theorem Replication.expression?_of_mem {s : StepDefinition} {replication : Replication}
    (h : of? s = some replication) {e : Expression} (he : e ∈ s.replicationExpressions) :
    replication.expression? = some e := by
  rw [of?] at h
  rw [StepDefinition.replicationExpressions] at he
  split at h
  next => cases h
  next c hc hf =>
    cases h
    obtain rfl : e = c := by simpa [hc, hf] using he
    rfl
  next f hc hf =>
    cases h
    obtain rfl : e = f := by simpa [hc, hf] using he
    rfl
  next hc hf => simp [hc, hf] at he

namespace Definitions
variable {defs : Definitions} {registry : Registry}

theorem Admissible.exists_constant (h : defs.Admissible registry) {s : StepDefinition}
    (hs : s ∈ defs.steps) {e : Expression} (he : e ∈ s.replicationExpressions)
    (hstatic : e.isStatic = true) : ∃ v, ∀ scope, e.evaluate scope = .ok v := by
  refine Expression.exists_constant hstatic (List.eq_nil_iff_forall_not_mem.2 fun v hv => ?_)
  exact (h.steps s hs).outerVariables e he v (Expression.mem_loopVariables_iff.1 hv)

theorem Admissible.exists_step (h : defs.Admissible registry) {id : NodeId} {role : BindingRole}
    {r : Reference} (ha : defs.Asks id role r) {name : String} (ht : r.target = .step name) :
    ∃ s ∈ defs.steps, s.name = name := by
  have named : r.Readable defs registry → ∃ s ∈ defs.steps, s.name = name := by
    rintro ⟨s, hs, hs', -⟩
    exact ⟨s, hs, Target.step.inj (hs'.symm.trans ht)⟩
  cases ha with
  | @step s _ _ _ hs hid hr =>
    have hadm := h.steps s hs
    cases role with
    | argument =>
      obtain ⟨e, he, hr⟩ := List.mem_flatMap.1 hr
      exact named (hadm.reads e (List.mem_append_left _ he) r (Expression.mem_references_iff.1 hr))
    | replication =>
      obtain ⟨e, he, hr⟩ := List.mem_flatMap.1 hr
      exact named (hadm.reads e (List.mem_append_right _ he) r (Expression.mem_references_iff.1 hr))
    | explicit => exact named (hadm.after r hr)
    | uses =>
      obtain ⟨k, -, -, huses⟩ := hadm.registered
      obtain ⟨d, -, hd, -⟩ := huses r hr
      cases ht.symm.trans hd
  | @resource _ _ d _ _ _ hd hr =>
    obtain ⟨e, he, hr⟩ := List.mem_flatMap.1 hr
    have hmem := (List.mem_filter.1 hd).1
    exact named ((h.resources d hmem).reads e he r (Expression.mem_references_iff.1 hr))

end Definitions

/-! ## Where the builder fails -/

namespace Building
variable {ls : Layouts} {node : NodeId} {role : BindingRole} {e : BuildError}

theorem exists_of_layouts_eq_error {steps : List StepDefinition} (h : layouts steps = .error e) :
    ∃ s ∈ steps, layout s = .error e := by
  induction steps with
  | nil => cases h
  | cons s steps ih =>
    rcases bind_eq_error.1 h with h | ⟨l, -, h⟩
    · exact ⟨s, List.mem_cons_self, h⟩
    · rcases bind_eq_error.1 h with h | ⟨ls, -, h⟩
      · obtain ⟨t, ht, h⟩ := ih h
        exact ⟨t, List.mem_cons_of_mem s ht, h⟩
      · cases h

theorem layout_eq_single_iff {s : StepDefinition} :
    layout s = .ok .single ↔ s.isReplicated = false := by
  constructor
  · intro h
    obtain ⟨hknown, hdecl⟩ := declared_of_layout h
    simp only [StepDefinition.declared, hknown, Replication.of?] at hdecl
    cases hc : s.count with
    | some c => cases hf : s.forEach <;> simp [hc, hf] at hdecl
    | none =>
      cases hf : s.forEach with
      | some f => simp [hc, hf] at hdecl
      | none => simp [StepDefinition.isReplicated, hc, hf]
  · intro h
    obtain ⟨hc, hf⟩ : s.count = none ∧ s.forEach = none := by
      simpa [StepDefinition.isReplicated] using h
    simp [layout, Replication.of?, hc, hf, Replication.expression?]

theorem exists_of_pushBindings_eq_error {refs : List Reference} {bs : List Binding}
    (h : pushBindings ls node role refs bs = .error e) :
    ∃ r ∈ refs, producers ls node r role = .error e := by
  induction refs generalizing bs with
  | nil => cases h
  | cons r refs ih =>
    rcases bind_eq_error.1 h with h | ⟨bs', -, h⟩
    · rw [pushBinding] at h
      split at h
      next => cases h
      next =>
        rcases bind_eq_error.1 h with h | ⟨ids, -, h⟩
        · exact ⟨r, List.mem_cons_self, h⟩
        · cases h
    · obtain ⟨r', hr, h⟩ := ih h
      exact ⟨r', List.mem_cons_of_mem r hr, h⟩

theorem exists_of_stepBindings_eq_error {s : StepDefinition} {isPlaceholder : Bool}
    (h : stepBindings ls node s isPlaceholder = .error e) :
    ∃ role, ∃ r ∈ referencesWith s role, producers ls node r role = .error e := by
  rcases bind_eq_error.1 h with h | ⟨bs, -, h⟩
  · obtain ⟨r, hr, hproducers⟩ := exists_of_pushBindings_eq_error h
    cases isPlaceholder with
    | true => exact ⟨.replication, r, hr, hproducers⟩
    | false => cases hr
  rcases bind_eq_error.1 h with h | ⟨bs, -, h⟩
  · exact ⟨.argument, exists_of_pushBindings_eq_error h⟩
  rcases bind_eq_error.1 h with h | ⟨bs, -, h⟩
  · exact ⟨.explicit, exists_of_pushBindings_eq_error h⟩
  · exact ⟨.uses, exists_of_pushBindings_eq_error h⟩

section Admissible
variable {defs : Definitions} {registry : Registry} (hadm : defs.Admissible registry)
include hadm

theorem remains_of_layout {s : StepDefinition} (hs : s ∈ defs.steps) (h : layout s = .error e) :
    e.Remains defs := by
  rw [layout] at h
  split at h
  next hr =>
    refine absurd ?_ (hadm.steps s hs).replication
    rw [Replication.of?] at hr
    split at hr
    next c f hc hf => exact ⟨⟨c, hc⟩, f, hf⟩
    next => cases hr
    next => cases hr
    next => cases hr
  next replication hr =>
    split at h
    next => cases h
    next x hx =>
      split at h
      next => cases h
      next hd =>
        have hstatic : x.isStatic = true := by simpa [Replication.isDynamic, hx] using hd
        obtain ⟨v, hv⟩ := hadm.exists_constant hs (Replication.mem_expression? hr hx) hstatic
        rw [hv] at h
        rcases bind_eq_error.1 h with h | ⟨v', hv', h⟩
        · cases h
        · cases hv'
          rcases bind_eq_error.1 h with h | ⟨vars, -, h⟩
          · obtain ⟨fault, hfault, rfl⟩ := mapError_eq_error.1 h
            exact .count hs hr hx hstatic (hv _) hfault
          · cases h

variable {ls : Layouts} (hls : layouts defs.steps = .ok ls)
include hls

theorem remains_of_producers {r : Reference} (ha : defs.Asks node role r)
    (h : producers ls node r role = .error e) : e.Remains defs := by
  rw [producers] at h
  split at h
  next => cases h
  next name ht =>
    split at h
    next hnone =>
      obtain ⟨s, hs, rfl⟩ := hadm.exists_step ha ht
      obtain ⟨l, hl⟩ := exists_layoutOf? hls hs
      cases hl.symm.trans hnone
    next hl =>
      obtain ⟨s, hs, rfl⟩ := mem_of_layoutOf? hl
      obtain ⟨hmem, hlayout⟩ := (layouts_spec hls).1 hs
      split at h
      next i hi =>
        cases h
        exact .notReplicated ⟨ha, hmem, ht⟩ hi (layout_eq_single_iff.1 hlayout)
      next => cases h
    next vars hl =>
      obtain ⟨s, hs, rfl⟩ := mem_of_layoutOf? hl
      obtain ⟨hmem, hlayout⟩ := (layouts_spec hls).1 hs
      have hasks : defs.AsksStep node role r s := ⟨ha, hmem, ht⟩
      have hvars : s.knownVars? = some vars := declared_of_layout hlayout
      have hname : r.target.name = s.name := by rw [ht]; rfl
      have hlen : (instanceIds s.name vars.length).length = vars.length := by simp [instanceIds]
      have herr := resolveProducers_eq_error h
      rw [hlen, hname] at herr
      rcases herr with ⟨i, hi, hle, rfl⟩ | ⟨hi, ⟨hnil, rfl⟩ | ⟨htwo, rfl⟩⟩
      · exact .indexOutOfRange hasks hi hvars hle
      · obtain rfl : vars = [] := by
          rw [hnil] at hlen
          exact List.length_eq_zero_iff.1 hlen.symm
        exact .noInstances hasks hi hvars
      · split
        next hrole =>
          subst hrole
          exact .ambiguousDependency hasks hi hvars htwo
        next hrole => exact .ambiguousImplicitDependency hasks hrole hi hvars htwo
    next => cases h

theorem remains_of_stepBindings {s : StepDefinition} (hs : s ∈ defs.steps)
    (hid : node ∈ s.declared.map fun d => d.1) {isPlaceholder : Bool}
    (h : stepBindings ls node s isPlaceholder = .error e) : e.Remains defs := by
  obtain ⟨role, r, hr, h⟩ := exists_of_stepBindings_eq_error h
  exact remains_of_producers hadm hls (.step hs hid hr) h

theorem remains_of_stepNodes (h : stepNodes ls = .error e) : e.Remains defs := by
  rcases bind_eq_error.1 h with h | ⟨instances, -, h⟩
  · obtain ⟨⟨s, i⟩, hm, h⟩ := exists_of_mapM_eq_error h
    obtain ⟨l, hl, hi⟩ := mem_allInstances.1 hm
    obtain ⟨hs, hlayout⟩ := (layouts_spec hls).1 hl
    have hid := (mem_declared_iff hlayout).2 (.inl ⟨i, hi, rfl, rfl⟩)
    rcases bind_eq_error.1 h with h | ⟨bs, -, h⟩
    · exact remains_of_stepBindings hadm hls hs (List.mem_map.2 ⟨_, hid, rfl⟩) h
    · cases h
  rcases bind_eq_error.1 h with h | ⟨placeholders, -, h⟩
  · obtain ⟨⟨s, replication⟩, hm, h⟩ := exists_of_mapM_eq_error h
    obtain ⟨hs, hlayout⟩ := (layouts_spec hls).1 (mem_allPlaceholders.1 hm)
    have hid := (mem_declared_iff hlayout).2 (.inr ⟨replication, rfl, rfl, rfl⟩)
    rcases bind_eq_error.1 h with h | ⟨bs, -, h⟩
    · exact remains_of_stepBindings hadm hls hs (List.mem_map.2 ⟨_, hid, rfl⟩) h
    · cases h
  · cases h

theorem remains_of_resourceNode {steps : List Node} (hsteps : stepNodes ls = .ok steps)
    {d : ResourceDefinition} (hd : d ∈ usedResources defs (nodeMap steps))
    (h : resourceNode ls d = .error e) : e.Remains defs := by
  rcases bind_eq_error.1 h with h | ⟨bs, -, h⟩
  · obtain ⟨r, hr, h⟩ := exists_of_pushBindings_eq_error h
    exact remains_of_producers hadm hls (.resource hls hsteps hd hr) h
  · cases h

end Admissible

theorem remains_of_nodes {defs : Definitions} {registry : Registry} (hadm : defs.Admissible registry)
    (h : nodes defs = .error e) : e.Remains defs := by
  rcases bind_eq_error.1 h with h | ⟨ls, hls, h⟩
  · obtain ⟨s, hs, h⟩ := exists_of_layouts_eq_error h
    exact remains_of_layout hadm hs h
  rcases bind_eq_error.1 h with h | ⟨steps, hsteps, h⟩
  · exact remains_of_stepNodes hadm hls h
  rcases bind_eq_error.1 h with h | ⟨resources, -, h⟩
  · obtain ⟨d, hd, h⟩ := exists_of_mapM_eq_error h
    exact remains_of_resourceNode hadm hls hsteps hd h
  · cases h

end Building

/-! ## When the builder succeeds -/

namespace Building
variable {defs : Definitions} {ls : Layouts} {node : NodeId} {role : BindingRole} {r : Reference}

/-- A reference to a step with known instances is resolved when there is an instance with its index, or
just one instance if it has no index. -/
theorem exists_resolveProducers_iff {instances : List NodeId} :
    (∃ ids, resolveProducers node r role instances = .ok ids) ↔
      (∀ i, r.index = .nth i → i < instances.length) ∧
        (r.index = .unindexed → instances.length = 1) := by
  simp only [resolveProducers]
  cases r.index with
  | splat => simp
  | nth i =>
    simp only [InstanceIndex.nth.injEq, forall_eq', reduceCtorEq, false_imp_iff, and_true]
    by_cases hi : i < instances.length
    · simp [hi]
    · simp [hi]
  | unindexed =>
    cases instances with
    | nil => simp
    | cons a rest =>
      cases rest with
      | nil => simp
      | cons b rest =>
        dsimp only
        split
        next => simp
        next => simp

/-- What decides the instances of a step that has known ones needs no step. -/
theorem references_eq_nil_of_known {s : StepDefinition} {l : StepLayout} (h : layout s = .ok l)
    {i : NodeId × Option Nat × LoopVars} (hi : i ∈ knownInstances s l) :
    referencesWith s .replication = [] := by
  rw [referencesWith, referencesOf, List.flatMap_eq_nil_iff]
  intro e he
  cases hr : Replication.of? s with
  | none =>
    rw [layout, hr] at h
    cases h
  | some replication =>
    have hexpr := Replication.expression?_of_mem hr he
    by_cases hd : replication.isDynamic = true
    · cases h.symm.trans (layout_eq_deferred.2 ⟨hr, hd⟩)
      cases hi
    · have hstatic : e.isStatic = true := by simpa [Replication.isDynamic, hexpr] using hd
      exact List.isEmpty_iff.1 hstatic

theorem exists_producers_of_stepBindings {s : StepDefinition} {isPlaceholder : Bool}
    {bs : List Binding} (h : stepBindings ls node s isPlaceholder = .ok bs)
    (hp : role = .replication → isPlaceholder = true) (hr : r ∈ referencesWith s role) :
    ∃ ids, producers ls node r role = .ok ids := by
  obtain ⟨b, hb, rfl, rfl⟩ := exists_of_stepBindings role h hp hr
  exact ⟨_, (stepBindings_spec h b hb).producers⟩

/-- When all nodes have been made, what they ask for has been found. -/
theorem exists_producers {nodes : NodeMap} (hn : Building.nodes defs = .ok nodes)
    (ha : defs.Asks node role r) :
    ∃ ls ids, layouts defs.steps = .ok ls ∧ producers ls node r role = .ok ids := by
  obtain ⟨ls, hls, hn⟩ := bind_eq_ok.1 hn
  obtain ⟨steps, hsteps, hn⟩ := bind_eq_ok.1 hn
  obtain ⟨resources, hresources, -⟩ := bind_eq_ok.1 hn
  cases ha with
  | @step s _ _ _ hs hid hr =>
    obtain ⟨instances, hinstances, hsteps⟩ := bind_eq_ok.1 hsteps
    obtain ⟨placeholders, hplaceholders, -⟩ := bind_eq_ok.1 hsteps
    obtain ⟨l, hl, hlayout⟩ := exists_layout hls hs
    obtain ⟨⟨id, kind⟩, hd, rfl⟩ := List.mem_map.1 hid
    rcases (mem_declared_iff hlayout).1 hd with ⟨i, hi, rfl, -⟩ | ⟨replication, rfl, rfl, -⟩
    · obtain ⟨n, -, hnode⟩ := exists_mem_of_mapM hinstances (mem_allInstances.2 ⟨l, hl, hi⟩)
      obtain ⟨bs, hbs, -⟩ := bind_eq_ok.1 hnode
      obtain ⟨ids, hids⟩ := exists_producers_of_stepBindings hbs (by
        rintro rfl
        rw [references_eq_nil_of_known hlayout hi] at hr
        cases hr) hr
      exact ⟨ls, ids, hls, hids⟩
    · obtain ⟨n, -, hnode⟩ := exists_mem_of_mapM hplaceholders (mem_allPlaceholders.2 hl)
      obtain ⟨bs, hbs, -⟩ := bind_eq_ok.1 hnode
      obtain ⟨ids, hids⟩ := exists_producers_of_stepBindings hbs (fun _ => rfl) hr
      exact ⟨ls, ids, hls, hids⟩
  | @resource ls' steps' d _ hls' hsteps' hd hr =>
    cases hls.symm.trans hls'
    cases hsteps.symm.trans hsteps'
    obtain ⟨n, -, hnode⟩ := exists_mem_of_mapM hresources hd
    obtain ⟨bs, hbs, -⟩ := bind_eq_ok.1 hnode
    obtain ⟨hbound, -, hall⟩ := pushBindings_spec hbs
    obtain ⟨b, hb, hrole, rfl⟩ := hall r hr
    rcases hbound b hb with hb | hb
    · cases hb
    · have hids := hb.producers
      rw [hrole] at hids
      exact ⟨ls, _, hls, hids⟩

theorem exists_layoutOf?_of_nodup (hnames : (defs.steps.map fun s => s.name).Nodup)
    (hls : layouts defs.steps = .ok ls) {s : StepDefinition} (hs : s ∈ defs.steps) :
    ∃ l, layoutOf? ls s.name = some l ∧ layout s = .ok l := by
  obtain ⟨l, hl⟩ := exists_layoutOf? hls hs
  obtain ⟨t, ht, hname⟩ := mem_of_layoutOf? hl
  obtain ⟨hmem, hlayout⟩ := (layouts_spec hls).1 ht
  obtain rfl := List.inj_on_of_nodup_map hnames hmem hs hname
  exact ⟨l, hl, hlayout⟩

end Building

namespace Definitions
variable {defs : Definitions} {nodes : NodeMap} {id : NodeId} {role : BindingRole} {r : Reference}
variable {s : StepDefinition}

section Made
variable (hnames : (defs.steps.map fun s => s.name).Nodup) (hn : Building.nodes defs = .ok nodes)
include hnames hn

theorem AsksStep.fits_known (ha : defs.AsksStep id role r s) {vars : List LoopVars}
    (hv : s.knownVars? = some vars) : (∀ i, r.index = .nth i → i < vars.length) ∧
      (r.index = .unindexed → vars.length = 1) := by
  obtain ⟨ls, ids, hls, hids⟩ := Building.exists_producers hn ha.asks
  obtain ⟨l, hl, hlayout⟩ := Building.exists_layoutOf?_of_nodup hnames hls ha.mem
  have hdecl := Building.declared_of_layout hlayout
  cases l with
  | single => cases hv.symm.trans hdecl.1
  | deferred replication => cases hv.symm.trans hdecl.1
  | «instances» vars' =>
    cases hv.symm.trans hdecl
    simp only [Building.producers, ha.target, hl] at hids
    have hfits := Building.exists_resolveProducers_iff.1 ⟨ids, hids⟩
    simpa [Building.instanceIds] using hfits

/-- A reference to a step that is not replicated has no number, when all nodes have been made. -/
theorem AsksStep.fits_single (ha : defs.AsksStep id role r s) (hs : s.isReplicated = false) (i : Nat) :
    r.index ≠ .nth i := by
  intro hi
  obtain ⟨ls, ids, hls, hids⟩ := Building.exists_producers hn ha.asks
  obtain ⟨l, hl, hlayout⟩ := Building.exists_layoutOf?_of_nodup hnames hls ha.mem
  cases hlayout.symm.trans (Building.layout_eq_single_iff.2 hs)
  simp [Building.producers, ha.target, hl, hi] at hids

end Made

end Definitions

namespace Graph

theorem remains_of_build {defs : Definitions} {registry : Registry} (hadm : defs.Admissible registry)
    {e : BuildError} (h : build defs registry = .error e) : e.Remains defs := by
  rcases bind_eq_error.1 h with h | ⟨-, -, h⟩
  · cases hadm.validate.symm.trans h
  rcases bind_eq_error.1 h with h | ⟨nodes, hn, h⟩
  · exact Building.remains_of_nodes hadm h
  rcases bind_eq_error.1 h with hc | ⟨order, -, h⟩
  · have hcycle := hc
    rw [NodeMap.dependencyOrder] at hcycle
    split at hcycle
    next => cases hcycle
    next =>
      cases hcycle
      exact .cycle hn hc
  · cases h

theorem not_remains_of_build {defs : Definitions} {registry : Registry}
    (hadm : defs.Admissible registry) {g : Graph} (h : build defs registry = .ok g) {e : BuildError} :
    ¬e.Remains defs := by
  obtain ⟨-, -, h⟩ := bind_eq_ok.1 h
  obtain ⟨nodes, hn, h⟩ := bind_eq_ok.1 h
  obtain ⟨order, ho, -⟩ := bind_eq_ok.1 h
  have hnames := hadm.step_names
  intro hr
  cases hr with
  | count hs hr he hstatic hv hfault =>
    obtain ⟨ls, hls, -⟩ := bind_eq_ok.1 hn
    obtain ⟨l, -, hlayout⟩ := Building.exists_layout hls hs
    obtain ⟨v', vars, hv', hvars, -⟩ := Building.exists_value_of_layout hlayout hr he hstatic
    cases hv.symm.trans hv'
    cases hfault.symm.trans hvars
  | notReplicated ha hi hs => exact ha.fits_single hnames hn hs _ hi
  | indexOutOfRange ha hi hv hlen =>
    have := (ha.fits_known hnames hn hv).1 _ hi
    omega
  | noInstances ha hi hv =>
    cases (ha.fits_known hnames hn hv).2 hi
  | ambiguousDependency ha hi hv hlen =>
    have := (ha.fits_known hnames hn hv).2 hi
    omega
  | ambiguousImplicitDependency ha hrole hi hv hlen =>
    have := (ha.fits_known hnames hn hv).2 hi
    omega
  | cycle hn' hc =>
    cases hn.symm.trans hn'
    cases ho.symm.trans hc

/-- Valid definitions are built, or they are rejected for one of the reasons that are left, and built
exactly if there is no such reason; and what decides the instances of a step has one value in every scope
if it needs no step. -/
theorem build_of_validate {defs : Definitions} {registry : Registry}
    (h : defs.validate registry = .ok ()) :
    ((∃ g, build defs registry = .ok g) ∨ ∃ e, build defs registry = .error e ∧ e.Remains defs) ∧
    ((∃ g, build defs registry = .ok g) ↔ ∀ e, ¬BuildError.Remains defs e) ∧
    ∀ s ∈ defs.steps, ∀ e ∈ s.replicationExpressions, e.isStatic = true →
      ∃ v, ∀ scope, e.evaluate scope = .ok v := by
  have hadm := Definitions.admissible_of_validate h
  refine ⟨?_, ⟨?_, ?_⟩, fun s hs e he hstatic => hadm.exists_constant hs he hstatic⟩
  · cases hb : build defs registry with
    | ok g => exact .inl ⟨g, rfl⟩
    | error e => exact .inr ⟨e, rfl, remains_of_build hadm hb⟩
  · rintro ⟨g, hg⟩ e
    exact not_remains_of_build hadm hg
  · intro hnone
    cases hb : build defs registry with
    | ok g => exact ⟨g, rfl⟩
    | error e => exact absurd (remains_of_build hadm hb) (hnone e)

end Graph

namespace Overrun
open Shadowing (registry)

/-- A collection of two items, with lists, maps and templates in it. -/
def pair : Expression :=
  .list [.list [.literal (.string "x")], .map [("k", .template [.text "y", .text "z"])]]

/-- Step `a` has two instances, which are known before the run. -/
def replicated : StepDefinition := (StepDefinition.new "a" "emit").withForEach pair

def definitions : Definitions where
  resources := []
  steps := [replicated, (StepDefinition.new "b" "emit").withArgument "n"
    (.reference (((Reference.step "a").nth 2).withAttr "n"))]

/-- The definitions are valid, and building rejects them. -/
theorem rejects : definitions.validate registry = .ok () ∧
    Graph.build definitions registry = .error (.indexOutOfRange (NodeId.step "b") "a" 2 2) ∧
    BuildError.Remains definitions (.indexOutOfRange (NodeId.step "b") "a" 2 2) ∧
    ∃ v, ∀ scope, pair.evaluate scope = .ok v := by
  have hvalid : definitions.validate registry = .ok () := by rfl
  have hbuild : Graph.build definitions registry =
      .error (.indexOutOfRange (NodeId.step "b") "a" 2 2) := by rfl
  obtain ⟨hrest, -, hconstant⟩ := Graph.build_of_validate hvalid
  refine ⟨hvalid, hbuild, ?_, ?_⟩
  · rcases hrest with ⟨g, hg⟩ | ⟨e, he, hremains⟩
    · cases hbuild.symm.trans hg
    · cases hbuild.symm.trans he
      exact hremains
  · exact hconstant replicated List.mem_cons_self pair List.mem_cons_self rfl

end Overrun

end Workplan
