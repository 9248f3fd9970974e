import Workplan.Proofs.Graph.Layout

/-! Sound graphs: what the run of a graph relies on. A graph is sound when it has been built from
definitions whose steps have no bracket in their names; then the ids of instances that a run will make
are free, and a binding that names a placeholder names nothing else. -/
namespace Workplan
open Outcome
set_option autoImplicit false

/-- The names of the resources that a kind of node uses. -/
def NodeKind.uses : NodeKind → List String
  | .step inst => inst.uses
  | .expansion _ template => template.uses
  | .resource _ _ _ => []

def NodeKind.isExpansion : NodeKind → Bool
  | .expansion _ _ => true
  | _ => false

theorem NodeKind.isResource_of_mem_uses {kind : NodeKind} {name : String} (h : name ∈ kind.uses) :
    kind.isResource = false := by
  cases kind with
  | step inst => rfl
  | expansion replication template => rfl
  | resource name' kind args => cases h

theorem NodeKind.exists_of_isResource {kind : NodeKind} (h : kind.isResource = true) :
    ∃ name kindName arguments, kind = .resource name kindName arguments := by
  cases kind with
  | step inst => cases h
  | expansion replication template => cases h
  | resource name kindName arguments => exact ⟨name, kindName, arguments, rfl⟩

theorem NodeKind.exists_of_isExpansion {kind : NodeKind} (h : kind.isExpansion = true) :
    ∃ replication template, kind = .expansion replication template := by
  cases kind with
  | step inst => cases h
  | expansion replication template => exact ⟨replication, template, rfl⟩
  | resource name kindName arguments => cases h

theorem NodeKind.isExpansion_of_isResource {kind : NodeKind} (h : kind.isResource = true) :
    kind.isExpansion = false := by
  cases kind with
  | step inst => rfl
  | expansion replication template => cases h
  | resource name kind args => rfl

theorem Node.isExpansion_eq (n : Node) : n.isExpansion = n.kind.isExpansion := by
  rw [Node.isExpansion]
  cases n.kind <;> rfl

theorem Node.mem_edgeProducers {n : Node} {q : NodeId} : q ∈ n.edgeProducers ↔
    ∃ b ∈ n.bindings, Node.gates n.kind.isExpansion b = true ∧ q ∈ b.producers := by
  rw [Node.edgeProducers, ← Node.isExpansion_eq]
  simp only [List.mem_flatMap, List.mem_filter, and_assoc]

/-- No step has a bracket in its name. -/
def Definitions.PlainNames (defs : Definitions) : Prop := ∀ s ∈ defs.steps, '[' ∉ s.name.toList

namespace Graph

/-- What holds of a graph that has been built from definitions with plain names. -/
structure Sound (g : Graph) : Prop where
  linked : g.nodes.Linked
  ordered : g.nodes.Ordered g.order
  predecessors : ∀ {id n}, g.node? id = some n →
    n.predecessors = SortedSet.ofList n.edgeProducers
  closed : ∀ {id n b q}, g.node? id = some n → b ∈ n.bindings → q ∈ b.producers →
    ∃ m, g.node? q = some m
  isResource : ∀ {id n}, g.node? id = some n → id.isResource = n.kind.isResource
  resource : ∀ {id n name kind args}, g.node? id = some n → n.kind = .resource name kind args →
    id = NodeId.resource name
  expansion : ∀ {id n replication template}, g.node? id = some n →
    n.kind = .expansion replication template → id = NodeId.step template.step ∧ id.Plain
  /-- No node has the id of an instance that is made during the run. -/
  fresh : ∀ {id n}, g.node? id = some n → n.kind.isExpansion = true →
    ∀ i, g.node? (id.child i) = none
  /-- A placeholder is the only producer of the bindings that name it. -/
  alone : ∀ {id n b q m}, g.node? id = some n → b ∈ n.bindings → q ∈ b.producers →
    g.node? q = some m → m.kind.isExpansion = true → b.producers = [q]
  uses : ∀ {id n b}, g.node? id = some n → b ∈ n.bindings → b.role = .uses →
    ∃ name ∈ n.kind.uses, b.producers = [NodeId.resource name]
  bound : ∀ {id n name}, g.node? id = some n → name ∈ n.kind.uses →
    ∃ b ∈ n.bindings, b.role = .uses ∧ b.producers = [NodeId.resource name]
  reads : ∀ {id n b}, g.node? id = some n → b ∈ n.bindings → b.role ≠ .uses →
    ∀ q ∈ b.producers, q.isResource = false
  used : ∀ {id n}, g.node? id = some n → n.kind.isResource = true →
    ∃ q m, g.node? q = some m ∧ id ∈ m.resources

/-- The handlers that the nodes of a graph need are registered. -/
structure Registered (registry : Registry) (g : Graph) : Prop where
  runner : ∀ {id n inst}, g.node? id = some n → n.kind = .step inst →
    ∃ k, registry.runner? inst.runner = some k
  template : ∀ {id n replication template}, g.node? id = some n →
    n.kind = .expansion replication template → ∃ k, registry.runner? template.runner = some k
  kind : ∀ {id n name kind args}, g.node? id = some n → n.kind = .resource name kind args →
    ∃ k, registry.kind? kind = some k

end Graph

/-! ## Soundness of what is built -/

namespace Building
section Nodes
variable {defs : Definitions} {registry : Registry} {ls : Layouts} {nodes : NodeMap}
variable {id : NodeId} {n : Node}

theorem layout_unique (hv : defs.Valid registry) (hls : layouts defs.steps = .ok ls)
    {s s' : StepDefinition} {l l' : StepLayout} (h : (s, l) ∈ ls) (h' : (s', l') ∈ ls)
    (hn : s.name = s'.name) : s = s' ∧ l = l' := by
  obtain ⟨hs, hl⟩ := (layouts_spec hls).1 h
  obtain ⟨hs', hl'⟩ := (layouts_spec hls).1 h'
  have he : s = s' := List.inj_on_of_nodup_map hv.step_names hs hs' hn
  subst he
  exact ⟨rfl, Except.ok.inj (hl.symm.trans hl')⟩

theorem plain_of_mem (hp : defs.PlainNames) (hls : layouts defs.steps = .ok ls)
    {s : StepDefinition} {l : StepLayout} (h : (s, l) ∈ ls) : (NodeId.step s.name).Plain :=
  NodeId.plain_step (hp s ((layouts_spec hls).1 h).1)

theorem bound_of_made (hm : Made defs ls id n.kind n.bindings) {b : Binding} (hb : b ∈ n.bindings) :
    Produced ls b.reference b.producers := by
  generalize n.kind = kind at hm
  generalize n.bindings = bs at hm hb
  cases hm with
  | «instance» hl hi hbs => exact produced_of_producers (stepBindings_spec hbs b hb).producers
  | placeholder hl hbs => exact produced_of_producers (stepBindings_spec hbs b hb).producers
  | resource hr hbs =>
    rcases (pushBindings_spec hbs).1 b hb with h | h
    · cases h
    · exact produced_of_producers h.producers

theorem reference_of_made (hv : defs.Valid registry) (hls : layouts defs.steps = .ok ls)
    (hm : Made defs ls id n.kind n.bindings) {b : Binding} (hb : b ∈ n.bindings) :
    if b.role = .uses then
      ∃ s ∈ defs.steps, b.reference ∈ s.uses ∧ n.kind.uses = s.uses.map fun r => r.target.name
    else b.reference.isStep = true := by
  -- Instances and placeholders have the bindings of their step, each of them with the role that it plays.
  have hstep : ∀ {s l isPlaceholder bs}, (s, l) ∈ ls →
      stepBindings ls id s isPlaceholder = .ok bs → b ∈ bs →
      if b.role = .uses then ∃ s' ∈ defs.steps, b.reference ∈ s'.uses ∧
        s.uses.map (fun r => r.target.name) = s'.uses.map fun r => r.target.name
      else b.reference.isStep = true := by
    intro s l isPlaceholder bs hl hbs hb
    have hsmem := ((layouts_spec hls).1 hl).1
    have hs := hv.steps s hsmem
    have hmem := (stepBindings_spec hbs b hb).mem
    cases hrole : b.role with
    | argument =>
      rw [hrole] at hmem
      obtain ⟨e, he, href⟩ := List.mem_flatMap.1 hmem
      rw [if_neg (by decide)]
      exact hs.reads e (List.mem_append_left _ he) _ href
    | replication =>
      rw [hrole] at hmem
      obtain ⟨e, he, href⟩ := List.mem_flatMap.1 hmem
      rw [if_neg (by decide)]
      exact hs.reads e (List.mem_append_right _ he) _ href
    | explicit =>
      rw [hrole] at hmem
      rw [if_neg (by decide)]
      exact hs.after _ hmem
    | uses =>
      rw [hrole] at hmem
      rw [if_pos rfl]
      exact ⟨s, hsmem, hmem, rfl⟩
  generalize n.kind = kind at hm
  generalize n.bindings = bs at hm hb
  cases hm with
  | «instance» hl hi hbs => exact hstep hl hbs hb
  | placeholder hl hbs => exact hstep hl hbs hb
  | resource hr hbs =>
    rcases (pushBindings_spec hbs).1 b hb with h | h
    · cases h
    · rw [if_neg (by rw [h.role_eq]; decide)]
      obtain ⟨e, he, href⟩ := List.mem_flatMap.1 h.mem
      exact (hv.resources _ hr).reads e he _ href

theorem expansion_of_made (hm : Made defs ls id n.kind n.bindings) {replication : Replication}
    {template : StepInstance} (hk : n.kind = .expansion replication template) :
    ∃ s, (s, .deferred replication) ∈ ls ∧ id = NodeId.step s.name ∧
      template = .ofDefinition s none LoopVars.none := by
  generalize n.bindings = bs at hm
  rw [hk] at hm
  cases hm with
  | placeholder hl hbs => exact ⟨_, hl, rfl, rfl⟩

theorem layout_of_child (hp : defs.PlainNames) (hls : layouts defs.steps = .ok ls) {name : String}
    {i : Nat} (hm : Made defs ls ((NodeId.step name).child i) n.kind n.bindings) :
    n.kind.isExpansion = false ∧ ∃ s vars, (s, .instances vars) ∈ ls ∧ s.name = name := by
  generalize hid : (NodeId.step name).child i = id at hm
  generalize n.kind = kind at hm
  generalize n.bindings = bs at hm
  cases hm with
  | «instance» hl hi hbs =>
    refine ⟨rfl, ?_⟩
    rcases mem_knownInstances hi with ⟨rfl, rfl⟩ | ⟨vars, k, rfl, -, -, hk, -⟩
    · exact absurd hid (NodeId.child_ne_of_plain (plain_of_mem hp hls hl))
    · rw [hk] at hid
      have hs := (NodeId.child_inj hid).1
      exact ⟨_, vars, hl, (NodeId.step_inj hs).symm⟩
  | placeholder hl hbs => exact absurd hid (NodeId.child_ne_of_plain (plain_of_mem hp hls hl))
  | resource hr hbs => exact absurd hid (NodeId.child_step_ne_resource _ _ _)

/-! ### What the id of a node tells -/

section Unique
variable (hv : defs.Valid registry) (hp : defs.PlainNames) (hls : layouts defs.steps = .ok ls)
variable {kind kind' : NodeKind} {bs bs' : List Binding}
include hv hp hls

theorem eq_of_knownInstances {s s' : StepDefinition} {l l' : StepLayout}
    {i i' : NodeId × Option Nat × LoopVars} (hl : (s, l) ∈ ls) (hi : i ∈ knownInstances s l)
    (hl' : (s', l') ∈ ls) (hi' : i' ∈ knownInstances s' l') (hid : i.1 = i'.1) :
    s = s' ∧ i = i' := by
  have hplain := plain_of_mem hp hls hl
  have hplain' := plain_of_mem hp hls hl'
  rcases mem_knownInstances hi with ⟨rfl, rfl⟩ | ⟨vars, k, rfl, -, hk, hc, hn⟩ <;>
    rcases mem_knownInstances hi' with ⟨rfl, rfl⟩ | ⟨vars', k', rfl, -, hk', hc', hn'⟩
  · obtain ⟨rfl, -⟩ := layout_unique hv hls hl hl' (NodeId.step_inj hid)
    exact ⟨rfl, rfl⟩
  · exact absurd (hid.trans hc').symm (NodeId.child_ne_of_plain hplain)
  · exact absurd (hc.symm.trans hid) (NodeId.child_ne_of_plain hplain')
  · obtain ⟨hs, rfl⟩ := NodeId.child_inj (hc.symm.trans (hid.trans hc'))
    obtain ⟨rfl, he⟩ := layout_unique hv hls hl hl' (NodeId.step_inj hs)
    cases he
    refine ⟨rfl, Prod.ext hid (Prod.ext (hn.trans hn'.symm) ?_)⟩
    exact Option.some.inj (hk.symm.trans hk')

theorem knownInstance_ne_placeholder {s s' : StepDefinition} {l : StepLayout} {r : Replication}
    {i : NodeId × Option Nat × LoopVars} (hl : (s, l) ∈ ls) (hi : i ∈ knownInstances s l)
    (hl' : (s', .deferred r) ∈ ls) : i.1 ≠ NodeId.step s'.name := by
  intro hid
  rcases mem_knownInstances hi with ⟨rfl, rfl⟩ | ⟨vars, k, rfl, -, -, hc, -⟩
  · cases (layout_unique hv hls hl hl' (NodeId.step_inj hid)).2
  · exact NodeId.child_ne_of_plain (plain_of_mem hp hls hl') (hc.symm.trans hid)

theorem made_of_known {s : StepDefinition} {l : StepLayout} {i : NodeId × Option Nat × LoopVars}
    (hl : (s, l) ∈ ls) (hi : i ∈ knownInstances s l) (hm : Made defs ls i.1 kind bs) :
    kind = .step (.ofDefinition s i.2.1 i.2.2) ∧ stepBindings ls i.1 s false = .ok bs := by
  generalize hid : i.1 = id at hm
  cases hm with
  | «instance» hl' hi' hb =>
    obtain ⟨rfl, rfl⟩ := eq_of_knownInstances hv hp hls hl hi hl' hi' hid
    exact ⟨rfl, hid ▸ hb⟩
  | placeholder hl' hb => exact absurd hid (knownInstance_ne_placeholder hv hp hls hl hi hl')
  | resource hr hb =>
    exfalso
    rcases mem_knownInstances hi with ⟨rfl, rfl⟩ | ⟨vars, k, rfl, -, -, hc, -⟩
    · exact NodeId.step_ne_resource _ _ hid
    · exact NodeId.child_step_ne_resource _ _ _ (hc.symm.trans hid)

theorem made_of_deferred {s : StepDefinition} {r : Replication} (hl : (s, .deferred r) ∈ ls)
    (hm : Made defs ls (NodeId.step s.name) kind bs) :
    kind = .expansion r (.ofDefinition s none LoopVars.none) ∧
      stepBindings ls (NodeId.step s.name) s true = .ok bs := by
  generalize hid : NodeId.step s.name = id at hm
  cases hm with
  | «instance» hl' hi hb =>
    exact absurd hid.symm (knownInstance_ne_placeholder hv hp hls hl' hi hl)
  | placeholder hl' hb =>
    obtain ⟨rfl, he⟩ := layout_unique hv hls hl hl' (NodeId.step_inj hid)
    cases he
    exact ⟨rfl, hb⟩
  | resource hr hb => exact absurd hid (NodeId.step_ne_resource _ _)

omit hp hls in
theorem made_of_resource {r : ResourceDefinition} (hr : r ∈ defs.resources)
    (hm : Made defs ls (NodeId.resource r.name) kind bs) :
    kind = .resource r.name r.kind r.arguments ∧ pushBindings ls (NodeId.resource r.name) .argument
      (referencesOf r.arguments.values) [] = .ok bs := by
  have hres := (isResource_of_made hm).symm.trans (NodeId.isResource_resource r.name)
  generalize hid : NodeId.resource r.name = id at hm
  cases hm with
  | «instance» hl hi hb => cases hres
  | placeholder hl hb => cases hres
  | resource hr' hb =>
    obtain rfl := List.inj_on_of_nodup_map hv.resource_names hr hr' (NodeId.resource_inj hid)
    exact ⟨rfl, hb⟩

theorem made_unique (hm : Made defs ls id kind bs) (hm' : Made defs ls id kind' bs') :
    kind = kind' ∧ bs = bs' := by
  cases hm with
  | «instance» hl hi hb =>
    obtain ⟨rfl, hb'⟩ := made_of_known hv hp hls hl hi hm'
    exact ⟨rfl, Except.ok.inj (hb.symm.trans hb')⟩
  | placeholder hl hb =>
    obtain ⟨rfl, hb'⟩ := made_of_deferred hv hp hls hl hm'
    exact ⟨rfl, Except.ok.inj (hb.symm.trans hb')⟩
  | resource hr hb =>
    obtain ⟨rfl, hb'⟩ := made_of_resource hv hr hm'
    exact ⟨rfl, Except.ok.inj (hb.symm.trans hb')⟩

end Unique

theorem not_isResource_of_produced {r : Reference} {ids : List NodeId} (h : Produced ls r ids)
    (hr : r.isStep = true) {q : NodeId} (hq : q ∈ ids) : q.isResource = false := by
  cases h with
  | resource ht => simp [Reference.isStep, ht] at hr
  | single ht hl =>
    rw [List.mem_singleton.1 hq]
    exact NodeId.isResource_step _
  | instances ht hl hids =>
    obtain ⟨k, -, rfl⟩ := List.mem_map.1 (hids hq)
    exact NodeId.isResource_child_step _ _
  | deferred ht hl =>
    rw [List.mem_singleton.1 hq]
    exact NodeId.isResource_step _

theorem eq_of_produced_resource {r : Reference} {ids : List NodeId} (h : Produced ls r ids)
    (hr : r.isResource = true) : ids = [NodeId.resource r.target.name] := by
  cases h with
  | resource ht => rw [ht, Target.name]
  | single ht hl => simp [Reference.isResource, Reference.isStep, ht] at hr
  | instances ht hl hids => simp [Reference.isResource, Reference.isStep, ht] at hr
  | deferred ht hl => simp [Reference.isResource, Reference.isStep, ht] at hr

theorem exists_of_produced (h : Laid defs ls nodes) {r : Reference} {ids : List NodeId}
    (hp : Produced ls r ids) (hr : r.isStep = true) {q : NodeId} (hq : q ∈ ids) :
    ∃ m, nodes.get? q = some m := by
  cases hp with
  | resource ht => simp [Reference.isStep, ht] at hr
  | single ht hl =>
    rw [List.mem_singleton.1 hq]
    exact h.instances hl List.mem_cons_self
  | @«instances» s vars _ ht hl hids =>
    obtain ⟨k, hk, rfl⟩ := List.mem_map.1 (hids hq)
    rw [List.mem_range] at hk
    have hi : (NodeId.ofInstance s.name k, some k, vars[k]) ∈ knownInstances s (.instances vars) :=
      List.mem_map.2 ⟨(vars[k], k), List.mem_zipIdx_iff_getElem?.2 (List.getElem?_eq_getElem hk), rfl⟩
    exact h.instances hl hi
  | deferred ht hl =>
    rw [List.mem_singleton.1 hq]
    exact h.placeholders hl

theorem uses_of_made (hv : defs.Valid registry) (hls : layouts defs.steps = .ok ls)
    (h : Laid defs ls nodes) (hn : nodes.get? id = some n) {b : Binding} (hb : b ∈ n.bindings)
    (hr : b.role = .uses) :
    ∃ name ∈ n.kind.uses, b.producers = [NodeId.resource name] ∧
      ∃ m, nodes.get? (NodeId.resource name) = some m := by
  have href := reference_of_made hv hls (h.made hn) hb
  rw [if_pos hr] at href
  obtain ⟨s, hs, href, huses⟩ := href
  obtain ⟨hres, r, hrd, hname⟩ := (hv.steps s hs).uses _ href
  have hprod := eq_of_produced_resource (bound_of_made (h.made hn) hb) hres
  refine ⟨b.reference.target.name, ?_, hprod, ?_⟩
  · rw [huses]
    exact List.mem_map.2 ⟨_, href, rfl⟩
  · rw [← hname]
    refine h.resources hrd hn ?_
    refine List.mem_flatMap.2 ⟨b, List.mem_filter.2 ⟨hb, by simpa using hr⟩, ?_⟩
    rw [hprod, hname]
    exact List.mem_singleton_self _

theorem exists_use_of_stepBindings (hv : defs.Valid registry) (hls : layouts defs.steps = .ok ls)
    {s : StepDefinition} {l : StepLayout} (hl : (s, l) ∈ ls) {isPlaceholder : Bool} {bs : List Binding}
    (hbs : stepBindings ls id s isPlaceholder = .ok bs) {name : String}
    (hname : name ∈ s.uses.map fun r => r.target.name) :
    ∃ b ∈ bs, b.role = .uses ∧ b.producers = [NodeId.resource name] := by
  obtain ⟨r, hr, rfl⟩ := List.mem_map.1 hname
  obtain ⟨b, hb, hrole, rfl⟩ := exists_of_stepBindings .uses hbs nofun hr
  have hs := hv.steps s ((layouts_spec hls).1 hl).1
  have hprod := produced_of_producers (stepBindings_spec hbs b hb).producers
  exact ⟨b, hb, hrole, eq_of_produced_resource hprod (hs.uses _ hr).1⟩

theorem closed_of_laid (hv : defs.Valid registry) (hls : layouts defs.steps = .ok ls)
    (h : Laid defs ls nodes) (hn : nodes.get? id = some n) {b : Binding} (hb : b ∈ n.bindings)
    {q : NodeId} (hq : q ∈ b.producers) : ∃ m, nodes.get? q = some m := by
  by_cases hr : b.role = .uses
  · obtain ⟨name, -, hprod, hm⟩ := uses_of_made hv hls h hn hb hr
    rw [hprod] at hq
    rw [List.mem_singleton.1 hq]
    exact hm
  · have href := reference_of_made hv hls (h.made hn) hb
    rw [if_neg hr] at href
    exact exists_of_produced h (bound_of_made (h.made hn) hb) href hq

theorem sound_of_laid (hv : defs.Valid registry) (hp : defs.PlainNames)
    (hls : layouts defs.steps = .ok ls) (h : Laid defs ls nodes) {order : List NodeId}
    (ho : nodes.dependencyOrder = .ok order) : Graph.Sound ⟨nodes, order⟩ where
  linked := h.linked
  ordered := NodeMap.ordered_of_dependencyOrder h.linked ho
  predecessors := h.predecessors
  closed := fun hn hb hq => closed_of_laid hv hls h hn hb hq
  isResource := fun hn => isResource_of_made (h.made hn)
  resource := by
    intro id n name kind args hn hk
    have hm := h.made hn
    generalize n.bindings = bs at hm
    rw [hk] at hm
    cases hm with
    | resource hr hb => rfl
  expansion := by
    intro id n replication template hn hk
    obtain ⟨s, hl, rfl, rfl⟩ := expansion_of_made (h.made hn) hk
    exact ⟨rfl, plain_of_mem hp hls hl⟩
  fresh := by
    intro id n hn hk i
    obtain ⟨replication, template, hkind⟩ := NodeKind.exists_of_isExpansion hk
    obtain ⟨s, hl, rfl, -⟩ := expansion_of_made (h.made hn) hkind
    cases hc : (⟨nodes, order⟩ : Graph).node? ((NodeId.step s.name).child i) with
    | none => rfl
    | some m =>
      -- a step has either instances or a placeholder
      obtain ⟨-, s', vars, hl', hname⟩ :=
        layout_of_child hp hls (h.made hc)
      have := (layout_unique hv hls hl' hl hname).2
      cases this
  alone := by
    intro id n b q m hn hb hq hm hk
    have hprod := bound_of_made (h.made hn) hb
    generalize b.producers = ids at hprod hq ⊢
    cases hprod with
    | resource ht => rw [List.mem_singleton.1 hq]
    | single ht hl => rw [List.mem_singleton.1 hq]
    | deferred ht hl => rw [List.mem_singleton.1 hq]
    | «instances» ht hl hids =>
      obtain ⟨k, -, rfl⟩ := List.mem_map.1 (hids hq)
      have := (layout_of_child hp hls (h.made hm)).1
      rw [hk] at this
      cases this
  uses := by
    intro id n b hn hb hr
    obtain ⟨name, hname, hprod, -⟩ := uses_of_made hv hls h hn hb hr
    exact ⟨name, hname, hprod⟩
  bound := by
    intro id n name hn hname
    have hm := h.made hn
    generalize n.kind = kind at hm hname
    generalize n.bindings = bs at hm
    cases hm with
    | «instance» hl hi hbs => exact exists_use_of_stepBindings hv hls hl hbs hname
    | placeholder hl hbs => exact exists_use_of_stepBindings hv hls hl hbs hname
    | resource hr hbs => cases hname
  reads := by
    intro id n b hn hb hr q hq
    have href := reference_of_made hv hls (h.made hn) hb
    rw [if_neg hr] at href
    exact not_isResource_of_produced (bound_of_made (h.made hn) hb) href hq
  used := fun hn hr => h.used hn ((Node.isResource_eq _).trans hr)

theorem registered_of_laid (hv : defs.Valid registry) (hls : layouts defs.steps = .ok ls)
    (h : Laid defs ls nodes) (order : List NodeId) :
    Graph.Registered registry ⟨nodes, order⟩ where
  runner := by
    intro id n inst hn hk
    have hm := h.made hn
    generalize n.bindings = bs at hm
    rw [hk] at hm
    cases hm with
    | «instance» hl hi hbs => exact (hv.steps _ ((layouts_spec hls).1 hl).1).runner
  template := by
    intro id n replication template hn hk
    obtain ⟨s, hl, -, rfl⟩ := expansion_of_made (h.made hn) hk
    exact (hv.steps _ ((layouts_spec hls).1 hl).1).runner
  kind := by
    intro id n name kind args hn hk
    have hm := h.made hn
    generalize n.bindings = bs at hm
    rw [hk] at hm
    cases hm with
    | resource hr hb => exact (hv.resources _ hr).kind

end Nodes
end Building

namespace Graph
variable {defs : Definitions} {registry : Registry} {g : Graph}

theorem laid_of_build (h : build defs registry = .ok g) :
    defs.Valid registry ∧ ∃ ls, Building.layouts defs.steps = .ok ls ∧
      Building.Laid defs ls g.nodes ∧ g.nodes.dependencyOrder = .ok g.order := by
  obtain ⟨_, hv, h⟩ := bind_eq_ok.1 h
  obtain ⟨nodes, hnodes, h⟩ := bind_eq_ok.1 h
  obtain ⟨order, horder, h⟩ := bind_eq_ok.1 h
  cases h
  obtain ⟨ls, hls, hlaid⟩ := Building.laid_of_nodes hnodes
  exact ⟨Definitions.valid_of_validate hv, ls, hls, hlaid, horder⟩

theorem sound_of_build (h : build defs registry = .ok g) (hp : defs.PlainNames) : g.Sound := by
  obtain ⟨hv, ls, hls, hlaid, horder⟩ := laid_of_build h
  exact Building.sound_of_laid hv hp hls hlaid horder

theorem registered_of_build (h : build defs registry = .ok g) : g.Registered registry := by
  obtain ⟨hv, ls, hls, hlaid, -⟩ := laid_of_build h
  exact Building.registered_of_laid hv hls hlaid g.order

theorem timeout_of_build (h : build defs registry = .ok g) {id : NodeId} {n : Node}
    (hn : g.node? id = some n) :
    match n.kind with
    | .step inst => ∃ s ∈ defs.steps, inst.timeoutMs = s.timeoutMs
    | .expansion _ template => ∃ s ∈ defs.steps, template.timeoutMs = s.timeoutMs
    | .resource _ _ _ => True := by
  obtain ⟨-, ls, hls, hlaid, -⟩ := laid_of_build h
  have hm := hlaid.made hn
  generalize n.kind = kind at hm
  generalize n.bindings = bs at hm
  cases hm with
  | «instance» hl hi hbs => exact ⟨_, ((Building.layouts_spec hls).1 hl).1, rfl⟩
  | placeholder hl hbs => exact ⟨_, ((Building.layouts_spec hls).1 hl).1, rfl⟩
  | resource hr hbs => trivial

end Graph

end Workplan
