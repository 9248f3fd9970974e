import Workplan.Proofs.Graph.Scoping

/-! Well-formed graphs: what the builder promises for any definitions. The order is one, the edges are
those of the bindings, nothing that a definition names is left unbound, and a resource has a node when
some node uses it.

Names are not restricted here. Two steps may be laid out under one id, and then the later node counts:
the map still holds nodes that come from one definition each (`Building.Made`), and what their bindings
name is in the map, since ids are never taken away. -/
namespace Workplan
open Outcome
set_option autoImplicit false

/-! ## What an expression names -/

/-- A reference occurs in an expression, at any depth. -/
inductive Expression.Mentions (r : Reference) : Expression → Prop where
  | reference : Mentions r (.reference r)
  | template {segments : List Segment} (hr : .reference r ∈ segments) : Mentions r (.template segments)
  | list {items : List Expression} {e : Expression} (he : e ∈ items) (hr : Mentions r e) :
    Mentions r (.list items)
  | map {entries : List (String × Expression)} {key : String} {e : Expression}
    (he : (key, e) ∈ entries) (hr : Mentions r e) : Mentions r (.map entries)

namespace Expression
variable {r : Reference} {e : Expression}

theorem mem_referenceOccurrencesOfItems {items : List Expression} (he : e ∈ items)
    (hr : r ∈ e.referenceOccurrences) : r ∈ referenceOccurrencesOfItems items := by
  induction items with
  | nil => cases he
  | cons a items ih =>
    rw [referenceOccurrencesOfItems, List.mem_append]
    rcases List.mem_cons.1 he with rfl | he
    · exact .inl hr
    · exact .inr (ih he)

theorem mem_referenceOccurrencesOfEntries {entries : List (String × Expression)} {key : String}
    (he : (key, e) ∈ entries) (hr : r ∈ e.referenceOccurrences) :
    r ∈ referenceOccurrencesOfEntries entries := by
  induction entries with
  | nil => cases he
  | cons a entries ih =>
    rw [referenceOccurrencesOfEntries, List.mem_append]
    rcases List.mem_cons.1 he with rfl | he
    · exact .inl hr
    · exact .inr (ih he)

theorem Mentions.mem_references (h : e.Mentions r) : r ∈ e.references := by
  apply mem_distinct.2
  induction h with
  | reference => simp [referenceOccurrences]
  | template hr =>
    rw [referenceOccurrences, List.mem_filterMap]
    exact ⟨_, hr, rfl⟩
  | list he _ ih =>
    rw [referenceOccurrences]
    exact mem_referenceOccurrencesOfItems he ih
  | map he _ ih =>
    rw [referenceOccurrences]
    exact mem_referenceOccurrencesOfEntries he ih

end Expression

/-! ## What a node names -/

/-- The kinds of nodes that definitions ask for. -/
inductive NodeKind.Declared (defs : Definitions) : NodeKind → Prop where
  | step {s : StepDefinition} (hs : s ∈ defs.steps) (index : Option Nat) (vars : LoopVars) :
    Declared defs (.step (.ofDefinition s index vars))
  | expansion {s : StepDefinition} {replication : Replication} (hs : s ∈ defs.steps)
    (hr : Replication.of? s = some replication) :
    Declared defs (.expansion replication (.ofDefinition s none LoopVars.none))
  | resource {r : ResourceDefinition} (hr : r ∈ defs.resources) :
    Declared defs (.resource r.name r.kind r.arguments)

/-- The argument expressions of a node; those of a placeholder are for its instances. -/
def NodeKind.arguments : NodeKind → SortedMap String Expression
  | .step inst => inst.arguments
  | .expansion _ template => template.arguments
  | .resource _ _ arguments => arguments

/-- The name of the step that a node belongs to. -/
def NodeKind.step? : NodeKind → Option String
  | .step inst => some inst.step
  | .expansion _ template => some template.step
  | .resource _ _ _ => none

/-- What a kind of node names, and to what end. -/
inductive NodeKind.Names (defs : Definitions) (kind : NodeKind) : BindingRole → Reference → Prop where
  | argument {e : Expression} {r : Reference} (he : e ∈ kind.arguments.values) (hr : e.Mentions r) :
    Names defs kind .argument r
  | replication {replication : Replication} {template : StepInstance} {e : Expression} {r : Reference}
    (hk : kind = .expansion replication template) (he : replication.expression? = some e)
    (hr : e.Mentions r) : Names defs kind .replication r
  | explicit {s : StepDefinition} {r : Reference} (hs : s ∈ defs.steps)
    (hk : kind.step? = some s.name) (hr : r ∈ s.dependsOn) : Names defs kind .explicit r
  | uses {s : StepDefinition} {r : Reference} (hs : s ∈ defs.steps) (hk : kind.step? = some s.name)
    (hr : r ∈ s.uses) : Names defs kind .uses r

namespace Building
variable {defs : Definitions} {registry : Registry} {ls : Layouts} {nodes : NodeMap}
variable {id : NodeId} {n : Node} {kind : NodeKind} {bs : List Binding} {role : BindingRole}
variable {r : Reference}

theorem declared_of_made (hls : layouts defs.steps = .ok ls) (hm : Made defs ls id kind bs) :
    kind.Declared defs := by
  cases hm with
  | «instance» hl hi hb => exact .step ((layouts_spec hls).1 hl).1 _ _
  | placeholder hl hb =>
    obtain ⟨hs, hlayout⟩ := (layouts_spec hls).1 hl
    obtain ⟨replication, hr, rfl⟩ := of_layout hlayout
    exact .expansion hs hr
  | resource hr hb => exact .resource hr

theorem mem_referencesWith (hv : defs.Valid registry) {s : StepDefinition} (hs : s ∈ defs.steps)
    (hstep : kind.step? = some s.name) (hargs : kind.arguments = s.arguments)
    (hrep : ∀ {replication template}, kind = .expansion replication template →
      Replication.of? s = some replication)
    (h : kind.Names defs role r) : r ∈ referencesWith s role := by
  -- names of steps are distinct, so another step of this name is this step
  have same : ∀ {s' : StepDefinition}, s' ∈ defs.steps → kind.step? = some s'.name → s' = s := by
    intro s' hs' hk
    have hname : s'.name = s.name := Option.some.inj (hk.symm.trans hstep)
    exact List.inj_on_of_nodup_map hv.step_names hs' hs hname
  cases h with
  | argument he hr =>
    rw [hargs] at he
    exact mem_referencesOf he hr.mem_references
  | replication hk he hr =>
    exact mem_referencesOf (Replication.mem_expression? (hrep hk) he) hr.mem_references
  | explicit hs' hk hr =>
    rw [same hs' hk] at hr
    exact hr
  | uses hs' hk hr =>
    rw [same hs' hk] at hr
    exact hr

theorem exists_of_names (hv : defs.Valid registry) (hls : layouts defs.steps = .ok ls)
    (hm : Made defs ls id kind bs) (h : kind.Names defs role r) :
    ∃ b ∈ bs, b.role = role ∧ b.reference = r := by
  cases hm with
  | «instance» hl hi hb =>
    have hs := ((layouts_spec hls).1 hl).1
    apply exists_of_stepBindings role hb
    · rintro rfl
      cases h with
      | replication hk he hr => cases hk
    · exact mem_referencesWith hv hs rfl rfl (fun hk => by cases hk) h
  | placeholder hl hb =>
    obtain ⟨hs, hlayout⟩ := (layouts_spec hls).1 hl
    obtain ⟨replication, hr, rfl⟩ := of_layout hlayout
    apply exists_of_stepBindings role hb (fun _ => rfl)
    apply mem_referencesWith hv hs rfl rfl (fun hk => ?_) h
    cases hk
    exact hr
  | resource hr hb =>
    cases h with
    | argument he hmen =>
      exact (pushBindings_spec hb).2.2 _ (mem_referencesOf he hmen.mem_references)
    | replication hk he hmen => cases hk
    | explicit hs hk hmen => cases hk
    | uses hs hk hmen => cases hk

theorem target_of_uses (hv : defs.Valid registry) (hls : layouts defs.steps = .ok ls)
    (hm : Made defs ls id n.kind n.bindings) {b : Binding} (hb : b ∈ n.bindings)
    (hr : b.role = .uses) :
    ∃ name, b.reference.target = .resource name ∧ b.producers = [NodeId.resource name] := by
  have href := reference_of_made hv hls hm hb
  rw [if_pos hr] at href
  obtain ⟨s, hs, href, -⟩ := href
  have hres := ((hv.steps s hs).uses _ href).1
  have hprod := eq_of_produced_resource (bound_of_made hm hb) hres
  cases ht : b.reference.target with
  | step name => simp [Reference.isResource, Reference.isStep, ht] at hres
  | resource name =>
    rw [ht] at hprod
    exact ⟨name, rfl, hprod⟩

end Building

/-! ## Well-formed graphs -/

/-- The edges between nodes are those of their bindings. -/
structure NodeMap.Woven (nodes : NodeMap) : Prop where
  converse : ∀ {id n q m}, nodes.get? id = some n → nodes.get? q = some m →
    (q ∈ n.predecessors ↔ id ∈ m.successors)
  inside : ∀ {id n q}, nodes.get? id = some n → q ∈ n.predecessors ∨ q ∈ n.successors →
    ∃ m, nodes.get? q = some m
  closed : ∀ {id n b q}, nodes.get? id = some n → b ∈ n.bindings → q ∈ b.producers →
    ∃ m, nodes.get? q = some m
  /-- Placeholders do not wait for the resources that they use. -/
  predecessors : ∀ {id n q}, nodes.get? id = some n → (q ∈ n.predecessors ↔
    ∃ b ∈ n.bindings, ¬(n.isExpansion = true ∧ b.role = .uses) ∧ q ∈ b.producers)

theorem NodeMap.Linked.woven {nodes : NodeMap} (h : nodes.Linked)
    (hp : ∀ {id n}, nodes.get? id = some n → n.predecessors = SortedSet.ofList n.edgeProducers)
    (hc : ∀ {id n b q}, nodes.get? id = some n → b ∈ n.bindings → q ∈ b.producers →
      ∃ m, nodes.get? q = some m) : nodes.Woven := by
  have hpreds : ∀ {id n q}, nodes.get? id = some n → (q ∈ n.predecessors ↔
      ∃ b ∈ n.bindings, ¬(n.isExpansion = true ∧ b.role = .uses) ∧ q ∈ b.producers) := by
    intro id n q hn
    rw [hp hn, SortedSet.mem_ofList, Node.mem_edgeProducers, ← Node.isExpansion_eq]
    simp only [Node.gates, Bool.not_eq_true', Bool.and_eq_false_imp, decide_eq_false_iff_not, not_and]
  refine ⟨fun {id n q m} hn hm => ?_, ?_, hc, hpreds⟩
  · rw [h.mem_successors hm]
    constructor
    · exact fun hq => ⟨n, hn, hq⟩
    · rintro ⟨n', hn', hq⟩
      cases hn.symm.trans hn'
      exact hq
  · rintro id n q hn (hq | hq)
    · obtain ⟨b, hb, -, hqb⟩ := (hpreds hn).1 hq
      exact hc hn hb hqb
    · obtain ⟨m, hm, -⟩ := (h.mem_successors hn).1 hq
      exact ⟨m, hm⟩

/-- What holds of every graph that is built. -/
structure Graph.WellFormed (defs : Definitions) (g : Graph) : Prop where
  order : g.order.Perm g.nodes.keys
  behind : ∀ {before id after n}, g.order = before ++ id :: after → g.node? id = some n →
    ∀ q ∈ n.predecessors, q ∈ before
  woven : g.nodes.Woven
  declared : ∀ {id n}, g.node? id = some n → n.kind.Declared defs
  bound : ∀ {id n role r}, g.node? id = some n → n.kind.Names defs role r →
    ∃ b ∈ n.bindings, b.role = role ∧ b.reference = r
  uses : ∀ {id n b}, g.node? id = some n → b ∈ n.bindings → b.role = .uses →
    ∃ name, b.reference.target = .resource name ∧ b.producers = [NodeId.resource name]
  /-- A resource has a node if, and only if, some node uses it. -/
  resources : ∀ {name}, (∃ n, g.node? (NodeId.resource name) = some n ∧ n.isResource = true) ↔
    ∃ id n, g.node? id = some n ∧
      ∃ b ∈ n.bindings, b.role = .uses ∧ NodeId.resource name ∈ b.producers

/-- Every graph that is built is well formed, whatever the names of its steps are. -/
theorem Graph.wellFormed_of_build {defs : Definitions} {registry : Registry} {g : Graph}
    (hb : Graph.build defs registry = .ok g) : g.WellFormed defs := by
  obtain ⟨hv, ls, hls, hlaid, horder⟩ := Graph.laid_of_build hb
  have hordered := NodeMap.ordered_of_dependencyOrder hlaid.linked horder
  have hclosed : ∀ {id n b q}, g.nodes.get? id = some n → b ∈ n.bindings → q ∈ b.producers →
      ∃ m, g.nodes.get? q = some m :=
    fun hn hbn hq => Building.closed_of_laid hv hls hlaid hn hbn hq
  refine ⟨?_, hordered.behind, hlaid.linked.woven hlaid.predecessors hclosed, ?_, ?_, ?_, ?_⟩
  · refine (List.perm_ext_iff_of_nodup hordered.nodup (SortedMap.nodup_keys _)).2 fun id => ?_
    rw [hordered.mem_iff, SortedMap.mem_keys]
  · exact fun hn => Building.declared_of_made hls (hlaid.made hn)
  · exact fun hn hnames => Building.exists_of_names hv hls (hlaid.made hn) hnames
  · exact fun hn hbn hr => Building.target_of_uses hv hls (hlaid.made hn) hbn hr
  · intro name
    constructor
    · rintro ⟨n, hn, hres⟩
      obtain ⟨q, m, hm, hmem⟩ := hlaid.used hn hres
      obtain ⟨b, hbm, hqb⟩ := List.mem_flatMap.1 hmem
      obtain ⟨hbm, hrole⟩ := List.mem_filter.1 hbm
      exact ⟨q, m, hm, b, hbm, of_decide_eq_true hrole, hqb⟩
    · rintro ⟨id, n, hn, b, hbn, -, hqb⟩
      obtain ⟨m, hm⟩ := hclosed hn hbn hqb
      have hres := Building.isResource_of_made (hlaid.made hm)
      rw [NodeId.isResource_resource, ← Node.isResource_eq] at hres
      exact ⟨m, hm, hres.symm⟩

namespace Nested

/-- Step `b` mentions step `a` in a text that stands in a map in a list, and uses a resource. -/
def definitions : Definitions where
  resources := [⟨"db", "pool", .empty⟩]
  steps := [StepDefinition.new "a" "emit",
    ((StepDefinition.new "b" "emit").withArgument "input"
      (.list [.map [("key", .template [.text "from ", .reference (Reference.step "a")])]])).withUse
        (Reference.resource "db")]

def registry : Registry :=
  (Registry.empty.withRunner "emit"
    ⟨⟨[⟨"input", .any, false⟩], [], ["pool"]⟩, fun _ w => (.panic "", w)⟩).withKind "pool"
    ⟨⟨[]⟩, fun _ w => (.panic "", w), fun _ w => (.panic "", w)⟩

def graph : Graph :=
  match Graph.build definitions registry with
  | .ok g => g
  | .error _ => ⟨.empty, []⟩

/-- The reference is bound where it stands, and the resource has its node. -/
theorem graph_wellFormed : graph.WellFormed definitions ∧ ∃ n, graph.node? (.step "b") = some n ∧
    (∃ b ∈ n.bindings, b.role = .argument ∧ b.reference = Reference.step "a") ∧
    ∃ m, graph.node? (.resource "db") = some m ∧ m.isResource = true := by
  have hb : Graph.build definitions registry = .ok graph := rfl
  have hw := Graph.wellFormed_of_build hb
  obtain ⟨n, hn, hargs, hstep⟩ : ∃ n, graph.node? (.step "b") = some n ∧
      n.kind.arguments.values = [.list [.map [("key", .template [.text "from ",
        .reference (Reference.step "a")])]]] ∧ n.kind.step? = some "b" := ⟨_, rfl, rfl, rfl⟩
  refine ⟨hw, n, hn, ?_, hw.resources.2 ⟨.step "b", n, hn, ?_⟩⟩
  · apply hw.bound hn
    apply NodeKind.Names.argument (by rw [hargs]; exact List.mem_singleton_self _)
    apply Expression.Mentions.list (List.mem_singleton_self _)
    apply Expression.Mentions.map (List.mem_singleton_self _)
    exact .template (by simp)
  · obtain ⟨b, hbn, hrole, href⟩ := hw.bound hn (.uses (r := Reference.resource "db")
      (List.mem_cons_of_mem _ (List.mem_singleton_self _)) hstep (List.mem_singleton_self _))
    obtain ⟨name, ht, hprod⟩ := hw.uses hn hbn hrole
    rw [href] at ht
    cases ht
    exact ⟨b, hbn, hrole, by simp [hprod]⟩

end Nested

end Workplan
