import Mathlib.Algebra.GroupWithZero.Nat
import Mathlib.Data.List.Dedup
import Mathlib.Data.List.Pairwise
import Workplan.Proofs.Graph.Scoping

/-! Inventories: which nodes the steps of definitions declare, and which of them a graph has.

Every node of a step has been declared, and under every declared id there is a node. So nothing is lost
exactly when the declared ids are distinct. Instances are told apart by their ids whatever their steps
are called; the one way in which two nodes can have one id is that a step with a node of its own has the
name of an instance of another step, and that is not checked (`Shadowing`). -/
namespace Workplan
open Outcome
set_option autoImplicit false

/-! ## What is declared -/

/-- The loop variables of the instances that a step has before the run: those that its replication gives
when it needs no step. -/
def StepDefinition.knownVars? (s : StepDefinition) : Option (List LoopVars) :=
  match Replication.of? s with
  | none => none
  | some replication =>
    match replication.expression? with
    | none => none
    | some e =>
      if e.isStatic then
        match e.evaluate Scope.empty with
        | .ok v => (replication.expand (NodeId.step s.name).text v).toOption
        | .error _ => none
      else none

/-- The nodes that a step declares, by id and kind: one for each known instance, or else a node under the
name of the step, which is a placeholder if the instances are made during the run. -/
def StepDefinition.declared (s : StepDefinition) : List (NodeId × NodeKind) :=
  match s.knownVars? with
  | some vars =>
    vars.zipIdx.map fun p => (NodeId.ofInstance s.name p.2, .step (.ofDefinition s (some p.2) p.1))
  | none =>
    match Replication.of? s with
    | none => []
    | some .single => [(NodeId.step s.name, .step (.ofDefinition s none LoopVars.none))]
    | some replication =>
      [(NodeId.step s.name, .expansion replication (.ofDefinition s none LoopVars.none))]

/-- The ids of the declared nodes. -/
def Definitions.declaredIds (defs : Definitions) : List NodeId :=
  defs.steps.flatMap fun s => s.declared.map fun d => d.1

/-- No step with a node of its own has the name of an instance of another step. -/
def Definitions.Separate (defs : Definitions) : Prop :=
  ∀ s ∈ defs.steps, ∀ t ∈ defs.steps, ∀ vars, s.knownVars? = none → t.knownVars? = some vars →
    ∀ i < vars.length, s.name ≠ t.name ++ "[" ++ Nat.repr i ++ "]"

/-- The nodes of steps, placeholders among them. -/
def Graph.stepNodes (g : Graph) : List Node := g.nodes.values.filter fun n => !n.isResource

/-- Every declared node is there, as it is declared. -/
structure Graph.Complete (defs : Definitions) (g : Graph) : Prop where
  own : ∀ s ∈ defs.steps, ∀ d ∈ s.declared, ∃ n, g.node? d.1 = some n ∧ n.kind = d.2
  distinct : defs.declaredIds.Nodup
  count : g.stepNodes.length = (defs.steps.map fun s => s.declared.length).sum

/-- What a graph has of the declared nodes. -/
structure Graph.Inventory (defs : Definitions) (g : Graph) : Prop where
  /-- A replication that needs no step has a value, which gives the instances. -/
  known : ∀ s ∈ defs.steps, ∀ replication e, Replication.of? s = some replication →
    replication.expression? = some e → e.isStatic = true → ∃ v vars,
      e.evaluate Scope.empty = .ok v ∧ replication.expand (NodeId.step s.name).text v = .ok vars ∧
        s.knownVars? = some vars
  only : ∀ {id n}, g.node? id = some n → n.isResource = false →
    ∃ s ∈ defs.steps, (id, n.kind) ∈ s.declared
  every : ∀ id ∈ defs.declaredIds, ∃ n, g.node? id = some n ∧ n.isResource = false
  count : g.stepNodes.length = defs.declaredIds.dedup.length
  complete : g.Complete defs ↔ defs.Separate
  plain : defs.PlainNames → g.Complete defs

/-! ## Layouts and declarations -/

namespace Building
variable {s : StepDefinition} {l : StepLayout}

theorem declared_of_layout (h : layout s = .ok l) :
    match l with
    | .single => s.knownVars? = none ∧
      s.declared = [(NodeId.step s.name, .step (.ofDefinition s none LoopVars.none))]
    | .instances vars => s.knownVars? = some vars
    | .deferred replication => s.knownVars? = none ∧
      s.declared =
        [(NodeId.step s.name, .expansion replication (.ofDefinition s none LoopVars.none))] := by
  rw [layout] at h
  split at h
  next => cases h
  next replication hr =>
    split at h
    next he =>
      cases h
      cases replication with
      | single =>
        have hknown : s.knownVars? = none := by simp [StepDefinition.knownVars?, hr, he]
        exact ⟨hknown, by simp [StepDefinition.declared, hknown, hr]⟩
      | count e => cases he
      | forEach e => cases he
    next e he =>
      split at h
      next hd =>
        cases h
        have hstatic : e.isStatic = false := by simpa [Replication.isDynamic, he] using hd
        have hknown : s.knownVars? = none := by simp [StepDefinition.knownVars?, hr, he, hstatic]
        refine ⟨hknown, ?_⟩
        cases replication with
        | single => cases he
        | count e' => simp [StepDefinition.declared, hknown, hr]
        | forEach e' => simp [StepDefinition.declared, hknown, hr]
      next hd =>
        obtain ⟨v, hv, h⟩ := bind_eq_ok.1 h
        obtain ⟨vars, hvars, h⟩ := bind_eq_ok.1 h
        cases h
        have hstatic : e.isStatic = true := by simpa [Replication.isDynamic, he] using hd
        simp [StepDefinition.knownVars?, hr, he, hstatic, mapError_eq_ok.1 hv,
          mapError_eq_ok.1 hvars, Except.toOption]

theorem mem_declared_iff (h : layout s = .ok l) {id : NodeId} {kind : NodeKind} :
    (id, kind) ∈ s.declared ↔
      (∃ i ∈ knownInstances s l, id = i.1 ∧ kind = .step (.ofDefinition s i.2.1 i.2.2)) ∨
        ∃ replication, l = .deferred replication ∧ id = NodeId.step s.name ∧
          kind = .expansion replication (.ofDefinition s none LoopVars.none) := by
  have hdecl := declared_of_layout h
  cases l with
  | single => simp [hdecl.2, knownInstances]
  | deferred replication => simp [hdecl.2, knownInstances]
  | «instances» vars =>
    simp only [StepDefinition.declared, show s.knownVars? = some vars from hdecl, knownInstances,
      List.mem_map, reduceCtorEq, false_and, exists_false, or_false]
    constructor
    · rintro ⟨p, hp, he⟩
      cases he
      exact ⟨_, ⟨p, hp, rfl⟩, rfl, rfl⟩
    · rintro ⟨i, ⟨p, hp, rfl⟩, rfl, rfl⟩
      exact ⟨p, hp, rfl⟩

theorem declaredIds_of_layout (h : layout s = .ok l) :
    (s.knownVars? = none ∧ s.declared.map (fun d => d.1) = [NodeId.step s.name]) ∨
      ∃ vars, s.knownVars? = some vars ∧
        s.declared.map (fun d => d.1) = (List.range vars.length).map (NodeId.step s.name).child := by
  have hdecl := declared_of_layout h
  cases l with
  | single => exact .inl ⟨hdecl.1, by rw [hdecl.2]; rfl⟩
  | deferred replication => exact .inl ⟨hdecl.1, by rw [hdecl.2]; rfl⟩
  | «instances» vars =>
    have hvars : s.knownVars? = some vars := hdecl
    refine .inr ⟨vars, hvars, ?_⟩
    rw [List.range_eq_range', ← List.zipIdx_map_snd 0 vars]
    simp only [StepDefinition.declared, hvars, List.map_map]
    rfl

theorem nodup_declared (h : layout s = .ok l) : (s.declared.map fun d => d.1).Nodup := by
  rcases declaredIds_of_layout h with ⟨-, he⟩ | ⟨vars, -, he⟩
  · rw [he]
    exact List.nodup_singleton _
  · rw [he]
    exact List.nodup_range.map fun _ _ h => (NodeId.child_inj h).2

theorem exists_value_of_layout (h : layout s = .ok l) {replication : Replication} {e : Expression}
    (hr : Replication.of? s = some replication) (he : replication.expression? = some e)
    (hs : e.isStatic = true) : ∃ v vars, e.evaluate Scope.empty = .ok v ∧
      replication.expand (NodeId.step s.name).text v = .ok vars ∧ s.knownVars? = some vars := by
  have hlayout := h
  have hd : replication.isDynamic = false := by simp [Replication.isDynamic, he, hs]
  simp only [layout, hr, he, hd, Bool.false_eq_true, if_false] at hlayout
  obtain ⟨v, hv, hlayout⟩ := bind_eq_ok.1 hlayout
  obtain ⟨vars, hvars, hlayout⟩ := bind_eq_ok.1 hlayout
  cases hlayout
  exact ⟨v, vars, mapError_eq_ok.1 hv, mapError_eq_ok.1 hvars, declared_of_layout h⟩

end Building

/-! ## Ids -/

namespace Definitions
variable {defs : Definitions}

theorem PlainNames.separate (h : defs.PlainNames) : defs.Separate := by
  intro s hs t _ vars _ _ i _ hname
  exact h s hs (by simp [hname, String.toList_append])

section Steps
variable {s t : StepDefinition} (hs : s ∈ defs.steps) (ht : t ∈ defs.steps)
variable (hlayout : ∀ s ∈ defs.steps, ∃ l, Building.layout s = .ok l)
include hs ht hlayout

theorem Separate.step_eq (hsep : defs.Separate) (hnames : (defs.steps.map fun s => s.name).Nodup)
    {id : NodeId} (hid : id ∈ s.declared.map fun d => d.1)
    (hid' : id ∈ t.declared.map fun d => d.1) : s = t := by
  have named : ∀ {a b}, a ∈ defs.steps → b ∈ defs.steps → a.name = b.name → a = b :=
    fun ha hb h => List.inj_on_of_nodup_map hnames ha hb h
  obtain ⟨l, hl⟩ := hlayout s hs
  obtain ⟨l', hl'⟩ := hlayout t ht
  rcases Building.declaredIds_of_layout hl with ⟨hn, he⟩ | ⟨vars, hv, he⟩ <;>
    rcases Building.declaredIds_of_layout hl' with ⟨hn', he'⟩ | ⟨vars', hv', he'⟩ <;>
      rw [he] at hid <;> rw [he'] at hid'
  · obtain rfl := List.mem_singleton.1 hid
    exact named hs ht (NodeId.step_inj (List.mem_singleton.1 hid'))
  · obtain rfl := List.mem_singleton.1 hid
    obtain ⟨i, hi, hc⟩ := List.mem_map.1 hid'
    rw [NodeId.child_step] at hc
    exact absurd (NodeId.step_inj hc).symm (hsep s hs t ht vars' hn hv' i (List.mem_range.1 hi))
  · obtain rfl := List.mem_singleton.1 hid'
    obtain ⟨i, hi, hc⟩ := List.mem_map.1 hid
    rw [NodeId.child_step] at hc
    exact absurd (NodeId.step_inj hc).symm (hsep t ht s hs vars hn' hv i (List.mem_range.1 hi))
  · obtain ⟨i, -, rfl⟩ := List.mem_map.1 hid
    obtain ⟨j, -, hc⟩ := List.mem_map.1 hid'
    exact named hs ht (NodeId.step_inj (NodeId.child_inj hc).1).symm

theorem shared_of_name_eq {vars : List LoopVars} (hn : s.knownVars? = none)
    (hv : t.knownVars? = some vars) {i : Nat} (hi : i < vars.length)
    (hname : s.name = t.name ++ "[" ++ Nat.repr i ++ "]") :
    ∃ id, id ∈ s.declared.map (fun d => d.1) ∧ id ∈ t.declared.map fun d => d.1 := by
  obtain ⟨l, hl⟩ := hlayout s hs
  obtain ⟨l', hl'⟩ := hlayout t ht
  rcases Building.declaredIds_of_layout hl with ⟨-, he⟩ | ⟨_, hv', -⟩
  · rcases Building.declaredIds_of_layout hl' with ⟨hn', -⟩ | ⟨vars', hv', he'⟩
    · cases hv.symm.trans hn'
    · cases hv.symm.trans hv'
      refine ⟨NodeId.step s.name, by rw [he]; exact List.mem_singleton_self _, ?_⟩
      rw [he', List.mem_map]
      exact ⟨i, List.mem_range.2 hi, by rw [NodeId.child_step, hname]⟩
  · cases hn.symm.trans hv'

end Steps

/-- The declared ids are distinct when the names of steps keep them apart. -/
theorem nodup_declaredIds_iff (hlayout : ∀ s ∈ defs.steps, ∃ l, Building.layout s = .ok l)
    (hnames : (defs.steps.map fun s => s.name).Nodup) :
    defs.declaredIds.Nodup ↔ defs.Separate := by
  rw [declaredIds, List.nodup_flatMap]
  constructor
  · rintro ⟨-, hpw⟩ s hs t ht vars hn hv i hi hname
    have hne : s ≠ t := by
      rintro rfl
      cases hn.symm.trans hv
    obtain ⟨id, hid, hid'⟩ := shared_of_name_eq hs ht hlayout hn hv hi hname
    have : Std.Symm (Function.onFun List.Disjoint
        fun s : StepDefinition => s.declared.map fun d => d.1) := ⟨fun _ _ h => List.Disjoint.symm h⟩
    exact hpw.forall hs ht hne hid hid'
  · intro hsep
    refine ⟨fun s hs => ?_, ?_⟩
    · obtain ⟨l, hl⟩ := hlayout s hs
      exact Building.nodup_declared hl
    · refine (List.Nodup.of_map _ hnames).pairwise_of_forall_ne fun s hs t ht hne => ?_
      exact fun id hid hid' => hne (hsep.step_eq hs ht hlayout hnames hid hid')

end Definitions

/-! ## Inventories -/

namespace Building
variable {defs : Definitions} {ls : Layouts} {nodes : NodeMap}

theorem exists_layout (hls : layouts defs.steps = .ok ls) {s : StepDefinition} (hs : s ∈ defs.steps) :
    ∃ l, (s, l) ∈ ls ∧ layout s = .ok l := by
  obtain ⟨l, hl⟩ := (layouts_spec hls).2 s hs
  exact ⟨l, hl, ((layouts_spec hls).1 hl).2⟩

theorem exists_declared (hls : layouts defs.steps = .ok ls) (h : Laid defs ls nodes) {id : NodeId}
    {n : Node} (hn : nodes.get? id = some n) (hr : n.isResource = false) :
    ∃ s ∈ defs.steps, (id, n.kind) ∈ s.declared := by
  have hm := h.made hn
  rw [Node.isResource_eq] at hr
  generalize n.kind = kind at hm hr
  generalize n.bindings = bs at hm
  cases hm with
  | «instance» hl hi hb =>
    obtain ⟨hs, hlayout⟩ := (layouts_spec hls).1 hl
    exact ⟨_, hs, (mem_declared_iff hlayout).2 (.inl ⟨_, hi, rfl, rfl⟩)⟩
  | placeholder hl hb =>
    obtain ⟨hs, hlayout⟩ := (layouts_spec hls).1 hl
    exact ⟨_, hs, (mem_declared_iff hlayout).2 (.inr ⟨_, rfl, rfl, rfl⟩)⟩
  | resource hr' hb => cases hr

theorem exists_of_declared (hls : layouts defs.steps = .ok ls) (h : Laid defs ls nodes)
    {s : StepDefinition} (hs : s ∈ defs.steps) {d : NodeId × NodeKind} (hd : d ∈ s.declared) :
    ∃ n, nodes.get? d.1 = some n ∧ n.isResource = false := by
  obtain ⟨l, hl, hlayout⟩ := exists_layout hls hs
  have hstep : ∀ {id n}, id.isResource = false → nodes.get? id = some n → n.isResource = false := by
    intro id n hid hn
    rw [Node.isResource_eq, ← isResource_of_made (h.made hn)]
    exact hid
  obtain ⟨id, kind⟩ := d
  rcases (mem_declared_iff hlayout).1 hd with ⟨i, hi, rfl, -⟩ | ⟨replication, rfl, rfl, -⟩
  · obtain ⟨n, hn⟩ := h.instances hl hi
    refine ⟨n, hn, hstep ?_ hn⟩
    rcases mem_knownInstances hi with ⟨-, rfl⟩ | ⟨_, k, -, -, -, hk, -⟩
    · exact NodeId.isResource_step _
    · rw [hk]
      exact NodeId.isResource_child_step _ _
  · obtain ⟨n, hn⟩ := h.placeholders hl
    exact ⟨n, hn, hstep (NodeId.isResource_step _) hn⟩

theorem perm_stepNodes (order : List NodeId) (hls : layouts defs.steps = .ok ls) (h : Laid defs ls nodes) :
    ((Graph.stepNodes ⟨nodes, order⟩).map Node.id).Perm defs.declaredIds.dedup := by
  have hsub : ((Graph.stepNodes ⟨nodes, order⟩).map Node.id).Sublist nodes.keys := by
    rw [← h.linked.map_id_values]
    exact List.filter_sublist.map Node.id
  refine (List.perm_ext_iff_of_nodup (hsub.nodup nodes.nodup_keys) (List.nodup_dedup _)).2 ?_
  intro id
  rw [List.mem_dedup, Definitions.declaredIds, List.mem_flatMap, List.mem_map]
  constructor
  · rintro ⟨n, hn, rfl⟩
    obtain ⟨hv, hr⟩ := List.mem_filter.1 hn
    obtain ⟨key, hkey⟩ := SortedMap.mem_values.1 hv
    rw [h.linked.id_eq hkey]
    obtain ⟨s, hs, hd⟩ := exists_declared hls h hkey (by simpa using hr)
    exact ⟨s, hs, List.mem_map.2 ⟨_, hd, rfl⟩⟩
  · rintro ⟨s, hs, hid⟩
    obtain ⟨d, hd, rfl⟩ := List.mem_map.1 hid
    obtain ⟨n, hn, hr⟩ := exists_of_declared hls h hs hd
    have hvalue : n ∈ nodes.values := SortedMap.mem_values.2 ⟨d.1, hn⟩
    exact ⟨n, List.mem_filter.2 ⟨hvalue, by simp [hr]⟩, h.linked.id_eq hn⟩

end Building

namespace Graph
variable {defs : Definitions} {registry : Registry} {ls : Building.Layouts} {g : Graph}

/-- Nothing that is declared is lost when the declared ids are distinct. -/
theorem complete_of_separate (hls : Building.layouts defs.steps = .ok ls)
    (hlaid : Building.Laid defs ls g.nodes) (hnames : (defs.steps.map fun s => s.name).Nodup)
    (hsep : defs.Separate) : g.Complete defs := by
  have hlayout : ∀ s ∈ defs.steps, ∃ l, Building.layout s = .ok l := fun s hs =>
    (Building.exists_layout hls hs).imp fun _ hl => hl.2
  have hnd := (Definitions.nodup_declaredIds_iff hlayout hnames).2 hsep
  refine ⟨fun s hs d hd => ?_, hnd, ?_⟩
  · obtain ⟨n, hn, hr⟩ := Building.exists_of_declared hls hlaid hs hd
    obtain ⟨t, ht, hdt⟩ := Building.exists_declared hls hlaid hn hr
    -- what is declared under this id is declared by this step, and once
    obtain rfl := hsep.step_eq hs ht hlayout hnames (List.mem_map.2 ⟨d, hd, rfl⟩)
      (List.mem_map.2 ⟨_, hdt, rfl⟩)
    obtain ⟨l, hl⟩ := hlayout s hs
    have he := List.inj_on_of_nodup_map (Building.nodup_declared hl) hdt hd rfl
    exact ⟨n, hn, congrArg Prod.snd he⟩
  · have hperm := Building.perm_stepNodes g.order hls hlaid
    rw [List.dedup_eq_self.2 hnd] at hperm
    have hlen := hperm.length_eq
    rw [List.length_map, Definitions.declaredIds, List.length_flatMap] at hlen
    simpa only [List.length_map] using hlen

/-- What a built graph has of the declared nodes: their ids, with one declared node under each; and all
of them exactly if no step has the name of an instance of another. -/
theorem inventory_of_build (h : build defs registry = .ok g) : g.Inventory defs := by
  obtain ⟨hv, ls, hls, hlaid, -⟩ := laid_of_build h
  have hlayout : ∀ s ∈ defs.steps, ∃ l, Building.layout s = .ok l := fun s hs =>
    (Building.exists_layout hls hs).imp fun _ hl => hl.2
  refine ⟨?_, fun hn hr => Building.exists_declared hls hlaid hn hr, ?_, ?_, ?_, ?_⟩
  · intro s hs replication e hr he hstatic
    obtain ⟨l, hl⟩ := hlayout s hs
    exact Building.exists_value_of_layout hl hr he hstatic
  · intro id hid
    obtain ⟨s, hs, hid⟩ := List.mem_flatMap.1 hid
    obtain ⟨d, hd, rfl⟩ := List.mem_map.1 hid
    exact Building.exists_of_declared hls hlaid hs hd
  · have hperm := Building.perm_stepNodes g.order hls hlaid
    rw [← hperm.length_eq, List.length_map]
  · exact ⟨fun hc => (Definitions.nodup_declaredIds_iff hlayout hv.step_names).1 hc.distinct,
      complete_of_separate hls hlaid hv.step_names⟩
  · exact fun hp => complete_of_separate hls hlaid hv.step_names hp.separate

end Graph

namespace Shadowing

/-- Step `b` has one instance, which has the id of the step `b[0]`. -/
def definitions : Definitions where
  resources := []
  steps := [((StepDefinition.new "b" "emit").withForEach (.literal (.list [.string "x"]))).withArgument
      "n" (.literal (.string "of b")),
    (StepDefinition.new "b[0]" "emit").withArgument "n" (.literal (.string "of b[0]"))]

def registry : Registry :=
  Registry.empty.withRunner "emit" ⟨⟨[⟨"n", .any, false⟩], ["n"], []⟩, fun _ w => (.panic "", w)⟩

def graph : Graph :=
  match Graph.build definitions registry with
  | .ok g => g
  | .error _ => ⟨.empty, []⟩

/-- Two nodes are declared, and one of them is lost. -/
theorem loses_instance : Graph.build definitions registry = .ok graph ∧
    (definitions.steps.map fun s => s.declared.length).sum = 2 ∧ graph.stepNodes.length = 1 ∧
    ¬ graph.Complete definitions := by
  have hb : Graph.build definitions registry = .ok graph := rfl
  have hinv := Graph.inventory_of_build hb
  have hsum : (definitions.steps.map fun s => s.declared.length).sum = 2 := by decide +kernel
  have hone : definitions.declaredIds.dedup.length = 1 := by decide +kernel
  refine ⟨hb, hsum, hinv.count.trans hone, fun hc => ?_⟩
  have := hc.count
  rw [hinv.count, hone, hsum] at this
  cases this

end Shadowing

end Workplan
