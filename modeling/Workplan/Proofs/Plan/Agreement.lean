import Workplan.Proofs.Graph.Literal
import Workplan.Proofs.Plan.Acyclicity

/-! Agreement: instances made during the run are those that the builder makes when it knows their values.
The nodes of a plan whose placeholders have all been expanded, without the placeholders and the resources
that nothing uses (`NodeMap.cleared`), are the nodes that are built from the definitions with literals. -/
namespace Workplan
open Outcome
set_option autoImplicit false

/-! ## What is left of the nodes of a plan -/

namespace NodeMap

/-- True of the resources that a node other than a placeholder uses. -/
def isUsed (nodes : NodeMap) (id : NodeId) : Bool :=
  nodes.values.any fun m => !m.isExpansion && m.resources.contains id

/-- True of nodes that are neither placeholders nor resources without use. -/
def isLeft (nodes : NodeMap) (n : Node) : Bool :=
  !n.isExpansion && (!n.isResource || nodes.isUsed n.id)

/-- True of the ids of such nodes. -/
def leaves (nodes : NodeMap) (id : NodeId) : Bool := (nodes.get? id).any nodes.isLeft

/-- The nodes without placeholders and resources without use, which also go from the sets of
predecessors and successors. -/
def cleared (nodes : NodeMap) : NodeMap :=
  (nodes.filter fun _ n => nodes.isLeft n).mapValues fun _ n =>
    { n with
      predecessors := n.predecessors.filter nodes.leaves
      successors := n.successors.filter nodes.leaves }

variable {nodes : NodeMap} {id : NodeId} {n : Node}

theorem isUsed_iff : nodes.isUsed id = true ↔
    ∃ q m, nodes.get? q = some m ∧ m.kind.isExpansion = false ∧ id ∈ m.resources := by
  simp only [isUsed, List.any_eq_true, Bool.and_eq_true, Bool.not_eq_true', List.contains_iff_mem,
    Node.isExpansion_eq, SortedMap.mem_values]
  constructor
  · rintro ⟨m, ⟨q, hq⟩, hm⟩
    exact ⟨q, m, hq, hm⟩
  · rintro ⟨q, m, hq, hm⟩
    exact ⟨m, ⟨q, hq⟩, hm⟩

theorem isLeft_iff : nodes.isLeft n = true ↔
    n.kind.isExpansion = false ∧ (n.kind.isResource = true → nodes.isUsed n.id = true) := by
  rw [isLeft, Node.isExpansion_eq, Node.isResource_eq]
  cases n.kind.isExpansion <;> cases n.kind.isResource <;> simp

theorem leaves_iff : nodes.leaves id = true ↔ ∃ n, nodes.get? id = some n ∧ nodes.isLeft n = true := by
  rw [leaves, Option.any_eq_true]

theorem get?_cleared_eq_some {n' : Node} : nodes.cleared.get? id = some n' ↔
    ∃ n, nodes.get? id = some n ∧ nodes.isLeft n = true ∧ n' = { n with
      predecessors := n.predecessors.filter nodes.leaves
      successors := n.successors.filter nodes.leaves } := by
  rw [cleared, SortedMap.get?_mapValues, Option.map_eq_some_iff]
  constructor
  · rintro ⟨n, hn, rfl⟩
    obtain ⟨hn, hl⟩ := SortedMap.get?_filter_eq_some.1 hn
    exact ⟨n, hn, hl, rfl⟩
  · rintro ⟨n, hn, hl, rfl⟩
    exact ⟨n, SortedMap.get?_filter_eq_some.2 ⟨hn, hl⟩, rfl⟩

end NodeMap

/-! ## Plans without placeholders to expand -/

/-- The nodes of a plan in which every placeholder has got the instances of its value. -/
structure Unfolded (defs : Definitions) (registry : Registry) (v : String → Value)
    (vars : String → List LoopVars) (g : Graph) (ls : Building.Layouts) (E : Expansions)
    (nodes : NodeMap) : Prop where
  validate : defs.validate registry = .ok ()
  plain : defs.PlainNames
  decides : defs.Decides v vars
  laidOut : Building.layouts defs.steps = .ok ls
  laid : Building.Laid defs ls g.nodes
  sound : g.Sound
  unfolds : nodes.Unfolds g E
  expanded : ∀ {s r}, (s, .deferred r) ∈ ls → E (NodeId.step s.name) = some (vars s.name)

namespace Unfolded
open Building
variable {defs : Definitions} {registry : Registry} {v : String → Value}
variable {vars : String → List LoopVars} {g : Graph} {ls : Layouts} {E : Expansions} {nodes : NodeMap}
variable (h : Unfolded defs registry v vars g ls E nodes)
include h

theorem valid : defs.Valid registry := Definitions.valid_of_validate h.validate

theorem valid_literals : (defs.withLiterals v).Valid registry :=
  Definitions.valid_of_validate (Definitions.validate_withLiterals h.validate v)

theorem laidOut_literals : Building.layouts (defs.withLiterals v).steps = .ok (ls.settle v vars) :=
  layouts_withLiterals h.laidOut h.decides

theorem plain_literals : (defs.withLiterals v).PlainNames := h.plain.withLiterals v

theorem cases_expanded {p : NodeId} {w : List LoopVars} (hE : E p = some w) :
    ∃ s r, (s, .deferred r) ∈ ls ∧ p = NodeId.step s.name ∧ w = vars s.name := by
  obtain ⟨n, hn, hk⟩ := h.unfolds.expanded hE
  obtain ⟨r, template, hkind⟩ := NodeKind.exists_of_isExpansion hk
  obtain ⟨s, hl, rfl, -⟩ := expansion_of_made (h.laid.made hn) hkind
  exact ⟨s, r, hl, rfl, Option.some.inj (hE.symm.trans (h.expanded hl))⟩

/-! ### Bindings -/

theorem producers_kept {b b' : Binding} (hr : b.Resolves E b')
    (hb : ∀ p ∈ b.producers, ∀ {s r}, (s, .deferred r) ∈ ls → p ≠ NodeId.step s.name) : b' = b := by
  cases hr with
  | kept => rfl
  | replaced hp hE =>
    obtain ⟨s, r, hl, he, -⟩ := h.cases_expanded hE
    exact absurd he (hb _ (hp ▸ List.mem_singleton_self _) hl)

theorem producers_settle {x y : NodeId} {r : Reference} {role : BindingRole} {ids : List NodeId}
    {b : Binding} (hp : producers ls x r role = .ok ids) (hr : Binding.Resolves E ⟨r, role, ids⟩ b) :
    producers (ls.settle v vars) y r role = .ok b.producers := by
  rw [producers] at hp ⊢
  split at hp
  next name ht =>
    cases hp
    rw [h.producers_kept hr fun p hp s r' _ he =>
      NodeId.step_ne_resource _ _ (he.symm.trans (List.mem_singleton.1 hp))]
  next name ht =>
    rw [layoutOf?_settle]
    cases hl : layoutOf? ls name with
    | none =>
      rw [hl] at hp
      cases hp
    | some l =>
      obtain ⟨s, hs, rfl⟩ := mem_of_layoutOf? hl
      rw [hl] at hp
      cases l with
      | single =>
        -- a step has either one instance or a placeholder
        have hkept : ∀ p ∈ [NodeId.step s.name], ∀ {s' r'}, (s', .deferred r') ∈ ls →
            p ≠ NodeId.step s'.name := by
          intro p hp s' r' hs' he
          rw [List.mem_singleton.1 hp] at he
          cases (layout_unique h.valid h.laidOut hs hs' (NodeId.step_inj he)).2
        simp only at hp
        simp only [Option.map_some, StepLayout.settle]
        split at hp
        next => cases hp
        next =>
          cases hp
          rw [h.producers_kept hr hkept]
      | «instances» known =>
        have hkept : ∀ p ∈ ids, ∀ {s' r'}, (s', .deferred r') ∈ ls → p ≠ NodeId.step s'.name := by
          intro p hm s' r' hs' he
          obtain ⟨i, -, hi⟩ := List.mem_map.1 ((resolveProducers_spec hp).1 hm)
          exact NodeId.child_ne_of_plain (plain_of_mem h.plain h.laidOut hs') (hi.trans he)
        rw [h.producers_kept hr hkept]
        exact resolveProducers_congr hp
      | deferred replication =>
        cases hp
        have hE := h.expanded hs
        cases hr with
        | kept hk =>
          -- the placeholder has been expanded, so it cannot have stayed a producer
          rw [hk _ (List.mem_singleton_self _)] at hE
          cases hE
        | replaced hp hE' hres =>
          cases hp
          cases hE.symm.trans hE'
          exact resolveProducers_congr hres

/-- Bindings with those of one more reference, taken back: the references of a node are gone through in one
order, whether its instances are known or not, and those with a binding already are the same. -/
theorem pushBinding_settle {x y : NodeId} {role : BindingRole} {r : Reference}
    {bs bs' cs' : List Binding} (hp : pushBinding ls x role bs r = .ok bs')
    (hr : List.Forall₂ (Binding.Resolves E) bs' cs') :
    ∃ cs, List.Forall₂ (Binding.Resolves E) bs cs ∧
      pushBinding (ls.settle v vars) y role cs r = .ok cs' := by
  have hany : ∀ {cs}, List.Forall₂ (Binding.Resolves E) bs cs →
      (bs.any fun b => b.reference = r && b.role = role) =
        cs.any fun b => b.reference = r && b.role = role := by
    intro cs hcs
    exact Pointwise.any_eq hcs fun b c hbc => by rw [hbc.reference_eq, hbc.role_eq]
  rw [pushBinding] at hp
  split at hp
  next hb =>
    cases hp
    refine ⟨cs', hr, ?_⟩
    rw [pushBinding, ← hany hr, if_pos hb]
  next hb =>
    obtain ⟨ids, hids, hp⟩ := bind_eq_ok.1 hp
    cases hp
    obtain ⟨cs, ⟨r', role', ids'⟩, hcs, hc, rfl⟩ := Pointwise.exists_of_append_singleton hr
    obtain rfl : r' = r := hc.reference_eq
    obtain rfl : role' = role := hc.role_eq
    refine ⟨cs, hcs, ?_⟩
    rw [pushBinding, ← hany hcs, if_neg hb]
    exact bind_eq_ok.2 ⟨ids', h.producers_settle hids hc, rfl⟩

theorem pushBindings_settle {x y : NodeId} {role : BindingRole} {refs : List Reference}
    {bs bs' cs' : List Binding} (hp : pushBindings ls x role refs bs = .ok bs')
    (hr : List.Forall₂ (Binding.Resolves E) bs' cs') :
    ∃ cs, List.Forall₂ (Binding.Resolves E) bs cs ∧
      pushBindings (ls.settle v vars) y role refs cs = .ok cs' := by
  -- only the bindings in the end are known to be resolved, so later references are taken back first
  induction refs generalizing bs with
  | nil =>
    cases hp
    exact ⟨cs', hr, rfl⟩
  | cons r refs ih =>
    obtain ⟨bs₁, h₁, hp⟩ := bind_eq_ok.1 hp
    obtain ⟨cs₁, hcs₁, hp'⟩ := ih hp
    obtain ⟨cs, hcs, h₁'⟩ := h.pushBinding_settle (y := y) h₁ hcs₁
    exact ⟨cs, hcs, bind_eq_ok.2 ⟨cs₁, h₁', hp'⟩⟩

theorem stepBindings_settle {x y : NodeId} {s : StepDefinition} {bs cs : List Binding}
    (hb : stepBindings ls x s false = .ok bs) (hr : List.Forall₂ (Binding.Resolves E) bs cs) :
    stepBindings (ls.settle v vars) y (s.settle v) false = .ok cs := by
  obtain ⟨bs₁, h₁, hb⟩ := bind_eq_ok.1 hb
  obtain ⟨bs₂, h₂, hb⟩ := bind_eq_ok.1 hb
  obtain ⟨bs₃, h₃, h₄⟩ := bind_eq_ok.1 hb
  obtain ⟨cs₃, hcs₃, h₄'⟩ := h.pushBindings_settle (y := y) h₄ hr
  obtain ⟨cs₂, hcs₂, h₃'⟩ := h.pushBindings_settle (y := y) h₃ hcs₃
  obtain ⟨cs₁, hcs₁, h₂'⟩ := h.pushBindings_settle (y := y) h₂ hcs₂
  obtain ⟨cs₀, hcs₀, h₁'⟩ := h.pushBindings_settle (y := y) h₁ hcs₁
  cases hcs₀
  simp only [stepBindings, StepDefinition.arguments_settle, StepDefinition.dependsOn_settle,
    StepDefinition.uses_settle]
  exact bind_eq_ok.2 ⟨cs₁, h₁', bind_eq_ok.2 ⟨cs₂, h₂', bind_eq_ok.2 ⟨cs₃, h₃', h₄'⟩⟩⟩

/-! ### Nodes -/

omit h in
theorem mem_knownInstances_settle {s : StepDefinition} {l : StepLayout}
    {i : NodeId × Option Nat × LoopVars} (hi : i ∈ knownInstances s l) (w : List LoopVars) :
    i ∈ knownInstances (s.settle v) (l.settle w) := by
  cases l with
  | single => simpa [knownInstances, StepLayout.settle] using hi
  | «instances» known => simpa [knownInstances, StepLayout.settle] using hi
  | deferred r => cases hi

/-- Every node that is not a placeholder is made in the same way where the instances are known. -/
theorem made_settle {id : NodeId} {n : Node} (hn : nodes.get? id = some n)
    (hk : n.kind.isExpansion = false) :
    Made (defs.withLiterals v) (ls.settle v vars) id n.kind n.bindings := by
  obtain ⟨bs, hbp, hres⟩ := h.unfolds.known hn
  generalize n.kind = kind at hbp hk
  generalize n.bindings = cs at hres
  cases hbp with
  | @declared _ m hd =>
    have hm := h.laid.made hd
    generalize m.kind = kind at hm hk
    generalize m.bindings = bs at hm hres
    cases hm with
    | «instance» hl hi hb =>
      rw [← StepInstance.ofDefinition_settle v]
      exact .instance (mem_settle.2 ⟨_, _, hl, rfl, rfl⟩) (mem_knownInstances_settle hi _)
        (h.stepBindings_settle hb hres)
    | placeholder hl hb => cases hk
    | resource hr hb =>
      obtain ⟨cs₀, hcs₀, hb'⟩ := h.pushBindings_settle hb hres
      cases hcs₀
      exact .resource hr hb'
  | @spliced p m r template w i x hd hk' hE hx =>
    have hm := h.laid.made hd
    generalize m.bindings = bs at hm hres
    rw [hk'] at hm
    cases hm with
    | @placeholder s _ _ hl hb =>
      cases hE.symm.trans (h.expanded hl)
      have hi : ((NodeId.step s.name).child i, some i, x) ∈
          knownInstances (s.settle v) (.instances (vars s.name)) := by
        refine List.mem_map.2 ⟨(x, i), List.mem_zipIdx_iff_getElem?.2 hx, ?_⟩
        rw [StepDefinition.name_settle]
        rfl
      have hmade : Made (defs.withLiterals v) (ls.settle v vars) ((NodeId.step s.name).child i)
          (.step (.ofDefinition (s.settle v) (some i) x)) cs :=
        .instance (mem_settle.2 ⟨s, .deferred r, hl, rfl, rfl⟩) hi
          (h.stepBindings_settle (stepBindings_inherited hb) hres)
      rw [StepInstance.ofDefinition_settle] at hmade
      exact hmade

theorem exists_of_known {s : StepDefinition} {l : StepLayout} {i : NodeId × Option Nat × LoopVars}
    (hl : (s, l) ∈ ls.settle v vars) (hi : i ∈ knownInstances s l) :
    ∃ n, nodes.get? i.1 = some n ∧ n.kind = .step (.ofDefinition s i.2.1 i.2.2) ∧
      stepBindings (ls.settle v vars) i.1 s false = .ok n.bindings := by
  have hfound : ∃ n, nodes.get? i.1 = some n ∧ n.kind.isExpansion = false := by
    obtain ⟨s₀, l₀, hl₀, rfl, rfl⟩ := mem_settle.1 hl
    have hold : i ∈ knownInstances s₀ l₀ → ∃ n, nodes.get? i.1 = some n ∧
        n.kind.isExpansion = false := by
      intro hi₀
      obtain ⟨m, hm⟩ := h.laid.instances hl₀ hi₀
      obtain ⟨n, hn⟩ := h.unfolds.complete (.declared hm)
      refine ⟨n, hn, ?_⟩
      rw [h.unfolds.kind_eq hn h.sound hm,
        (made_of_known h.valid h.plain h.laidOut hl₀ hi₀ (h.laid.made hm)).1]
      rfl
    cases l₀ with
    | single => exact hold (by simpa [knownInstances, StepLayout.settle] using hi)
    | «instances» known => exact hold (by simpa [knownInstances, StepLayout.settle] using hi)
    | deferred r =>
      -- an instance of a placeholder has been spliced
      obtain ⟨⟨x, k⟩, hx, rfl⟩ := List.mem_map.1 hi
      obtain ⟨m, hm⟩ := h.laid.placeholders hl₀
      have hk := (made_of_deferred h.valid h.plain h.laidOut hl₀ (h.laid.made hm)).1
      have hbp : Blueprint g E ((NodeId.step s₀.name).child k) _ _ :=
        .spliced hm hk (h.expanded hl₀) (List.mem_zipIdx_iff_getElem?.1 hx)
      obtain ⟨n, hn⟩ := h.unfolds.complete hbp
      obtain ⟨bs, hbp', -⟩ := h.unfolds.known hn
      refine ⟨n, ?_, ?_⟩
      · rw [StepDefinition.name_settle]
        exact hn
      · rw [(hbp'.unique h.sound hbp).1]
        rfl
  obtain ⟨n, hn, hk⟩ := hfound
  exact ⟨n, hn, made_of_known h.valid_literals h.plain_literals h.laidOut_literals hl hi
    (h.made_settle hn hk)⟩

theorem exists_of_made {id : NodeId} {kind : NodeKind} {bs : List Binding}
    (hm : Made (defs.withLiterals v) (ls.settle v vars) id kind bs) (hr : kind.isResource = false) :
    ∃ n, nodes.get? id = some n ∧ n.kind = kind ∧ n.bindings = bs := by
  cases hm with
  | «instance» hl hi hb =>
    obtain ⟨n, hn, hk, hbs⟩ := h.exists_of_known hl hi
    exact ⟨n, hn, hk, Except.ok.inj (hbs.symm.trans hb)⟩
  | placeholder hl hb => exact absurd hl not_deferred_settle
  | resource hr' hb => cases hr

theorem exists_resource {q : NodeId} {m : Node} (hm : nodes.get? q = some m) {id : NodeId}
    (hu : id ∈ m.resources) : ∃ n, nodes.get? id = some n ∧ n.kind.isResource = true := by
  obtain ⟨b, hb, hid⟩ := List.mem_flatMap.1 hu
  obtain ⟨hb, hrole⟩ := List.mem_filter.1 hb
  obtain ⟨name, -, hp⟩ := h.unfolds.producers_of_uses hm h.sound hb (of_decide_eq_true hrole)
  rw [hp] at hid
  obtain rfl := List.mem_singleton.1 hid
  rcases h.unfolds.producer hm h.sound hb (hp ▸ List.mem_singleton_self _) with ⟨-, n₀, hn₀⟩ |
    ⟨p, w, i, hE, -, hc⟩
  · obtain ⟨n, hn⟩ := h.unfolds.complete (.declared hn₀)
    refine ⟨n, hn, ?_⟩
    rw [h.unfolds.kind_eq hn h.sound hn₀, ← h.sound.isResource hn₀, NodeId.isResource_resource]
  · obtain ⟨s, r, -, rfl, -⟩ := h.cases_expanded hE
    exact absurd hc.symm (NodeId.child_step_ne_resource _ _ _)

/-! ### Building from the definitions with literals -/

theorem exists_nodes : ∃ nodes', Building.nodes (defs.withLiterals v) = .ok nodes' := by
  obtain ⟨is, his⟩ : ∃ is, (allInstances (ls.settle v vars)).mapM
      (fun i => instanceNode (ls.settle v vars) i.1 i.2) = .ok is := by
    refine exists_mapM_eq_ok fun ⟨s, i⟩ hm => ?_
    obtain ⟨l, hl, hi⟩ := mem_allInstances.1 hm
    obtain ⟨n, -, -, hb⟩ := h.exists_of_known hl hi
    exact ⟨_, bind_eq_ok.2 ⟨_, hb, rfl⟩⟩
  have hsteps : stepNodes (ls.settle v vars) = .ok is := by
    refine bind_eq_ok.2 ⟨is, his, bind_eq_ok.2 ⟨[], ?_, ?_⟩⟩
    · rw [allPlaceholders_settle]
      rfl
    · rw [List.append_nil]
  obtain ⟨rs, hrs⟩ : ∃ rs, (usedResources (defs.withLiterals v) (nodeMap is)).mapM
      (resourceNode (ls.settle v vars)) = .ok rs := by
    refine exists_mapM_eq_ok fun r hr => ?_
    obtain ⟨hr, hused⟩ := List.mem_filter.1 hr
    rw [List.contains_iff_mem] at hused
    obtain ⟨m, hm, hmem⟩ := List.mem_flatMap.1 hused
    obtain ⟨q, hq⟩ := SortedMap.mem_values.1 hm
    obtain ⟨⟨id, kind, bs, hmade, rfl⟩, hres⟩ :=
      (stepNodes_spec (defs.withLiterals v) hsteps).1 m (mem_of_get?_nodeMap hq).1
    rw [Node.isResource_eq] at hres
    obtain ⟨n, hn, -, hbs⟩ := h.exists_of_made hmade hres
    have hmem' : NodeId.resource r.name ∈ n.resources := by
      rw [Node.resources_congr (n := Node.new id kind bs) hbs]
      exact hmem
    obtain ⟨x, hx, hxr⟩ := h.exists_resource hn hmem'
    obtain ⟨-, hb⟩ := made_of_resource h.valid_literals hr
      (h.made_settle hx (NodeKind.isExpansion_of_isResource hxr))
    exact ⟨_, bind_eq_ok.2 ⟨_, hb, rfl⟩⟩
  exact ⟨_, bind_eq_ok.2 ⟨_, h.laidOut_literals, bind_eq_ok.2 ⟨is, hsteps,
    bind_eq_ok.2 ⟨rs, hrs, rfl⟩⟩⟩⟩

/-! ### The two maps of nodes

A node of the one map is found in the other, steps by their layouts and resources by the steps that use them.
Kinds and bindings are then the same, since the id of a node tells how it is made, and the rest follows. -/

section Built
variable {nodes' : NodeMap} (hl : Laid (defs.withLiterals v) (ls.settle v vars) nodes')
variable {id : NodeId} {n n' : Node}
include hl

theorem eq_of_built (hn : nodes.get? id = some n) (hk : n.kind.isExpansion = false)
    (hn' : nodes'.get? id = some n') : n.kind = n'.kind ∧ n.bindings = n'.bindings :=
  made_unique h.valid_literals h.plain_literals h.laidOut_literals (h.made_settle hn hk) (hl.made hn')

omit h in
theorem not_isExpansion_of_built (hn' : nodes'.get? id = some n') : n'.kind.isExpansion = false := by
  have hm := hl.made hn'
  generalize n'.kind = kind at hm
  cases hm with
  | «instance» hl hi hb => rfl
  | placeholder hl hb => exact absurd hl not_deferred_settle
  | resource hr hb => rfl

theorem step_of_built (hn' : nodes'.get? id = some n') (hr : n'.kind.isResource = false) :
    ∃ n, nodes.get? id = some n ∧ n.kind.isExpansion = false ∧ nodes.isLeft n = true := by
  obtain ⟨n, hn, hk, -⟩ := h.exists_of_made (hl.made hn') hr
  have hx : n.kind.isExpansion = false := by
    rw [hk]
    exact not_isExpansion_of_built hl hn'
  refine ⟨n, hn, hx, NodeMap.isLeft_iff.2 ⟨hx, fun hr' => ?_⟩⟩
  rw [hk, hr] at hr'
  cases hr'

theorem left_of_built (hn' : nodes'.get? id = some n') :
    ∃ n, nodes.get? id = some n ∧ nodes.isLeft n = true := by
  cases hr : n'.kind.isResource with
  | false =>
    obtain ⟨n, hn, -, hleft⟩ := h.step_of_built hl hn' hr
    exact ⟨n, hn, hleft⟩
  | true =>
    -- the step that uses the resource is left, too
    obtain ⟨q, m', hm', hu⟩ := hl.used hn' ((Node.isResource_eq n').trans hr)
    obtain ⟨b, hb, -⟩ := List.mem_flatMap.1 hu
    obtain ⟨hb, hrole⟩ := List.mem_filter.1 hb
    obtain ⟨name, hname, -⟩ := uses_of_made h.valid_literals h.laidOut_literals hl hm' hb
      (of_decide_eq_true hrole)
    obtain ⟨m, hm, hmx, -⟩ := h.step_of_built hl hm' (NodeKind.isResource_of_mem_uses hname)
    have hmu : id ∈ m.resources := by
      rw [Node.resources_congr (h.eq_of_built hl hm hmx hm').2]
      exact hu
    obtain ⟨n, hn, hnr⟩ := h.exists_resource hm hmu
    refine ⟨n, hn, NodeMap.isLeft_iff.2 ⟨NodeKind.isExpansion_of_isResource hnr, fun _ => ?_⟩⟩
    rw [h.unfolds.linked.id_eq hn]
    exact NodeMap.isUsed_iff.2 ⟨q, m, hm, hmx, hmu⟩

theorem built_of_step (hn : nodes.get? id = some n) (hk : n.kind.isExpansion = false)
    (hr : n.kind.isResource = false) : ∃ n', nodes'.get? id = some n' := by
  have hm := h.made_settle hn hk
  generalize n.kind = kind at hm hr
  generalize n.bindings = bs at hm
  cases hm with
  | «instance» hl' hi hb => exact hl.instances hl' hi
  | placeholder hl' hb => exact absurd hl' not_deferred_settle
  | resource hr' hb => cases hr

theorem built_of_left (hn : nodes.get? id = some n) (hleft : nodes.isLeft n = true) :
    ∃ n', nodes'.get? id = some n' := by
  obtain ⟨hk, hused⟩ := NodeMap.isLeft_iff.1 hleft
  cases hr : n.kind.isResource with
  | false => exact h.built_of_step hl hn hk hr
  | true =>
    obtain ⟨q, m, hm, hmx, hu⟩ := NodeMap.isUsed_iff.1 (hused hr)
    rw [h.unfolds.linked.id_eq hn] at hu
    obtain ⟨name, hname, -⟩ := (h.unfolds.mem_resources hm h.sound).1 hu
    obtain ⟨m', hm'⟩ := h.built_of_step hl hm hmx (NodeKind.isResource_of_mem_uses hname)
    have hu' : id ∈ m'.resources := by
      rw [← Node.resources_congr (h.eq_of_built hl hm hmx hm').2]
      exact hu
    have hmade := h.made_settle hn hk
    generalize n.kind = kind at hmade hr
    generalize n.bindings = bs at hmade
    cases hmade with
    | «instance» hl' hi hb => cases hr
    | placeholder hl' hb => cases hr
    | resource hr' hb => exact hl.resources hr' hm' hu'

theorem leaves_iff_built : nodes.leaves id = true ↔ ∃ n', nodes'.get? id = some n' := by
  rw [NodeMap.leaves_iff]
  constructor
  · rintro ⟨n, hn, hleft⟩
    exact h.built_of_left hl hn hleft
  · rintro ⟨n', hn'⟩
    exact h.left_of_built hl hn'

theorem predecessors_of_built (hn : nodes.get? id = some n) (hk : n.kind.isExpansion = false)
    (hn' : nodes'.get? id = some n') : n.predecessors = n'.predecessors := by
  obtain ⟨hkind, hbs⟩ := h.eq_of_built hl hn hk hn'
  rw [h.unfolds.predecessors hn, hl.predecessors hn', Node.edgeProducers, Node.edgeProducers,
    Node.isExpansion_eq, Node.isExpansion_eq, hkind, hbs]

theorem filter_predecessors (hn' : nodes'.get? id = some n') :
    n'.predecessors.filter nodes.leaves = n'.predecessors := by
  refine SortedSet.ext_mem fun q => ?_
  rw [SortedSet.mem_filter, and_iff_left_iff_imp]
  intro hq
  rw [hl.predecessors hn', SortedSet.mem_ofList, Node.mem_edgeProducers] at hq
  obtain ⟨b, hb, -, hq⟩ := hq
  exact (h.leaves_iff_built hl).2
    (closed_of_laid h.valid_literals h.laidOut_literals hl hn' hb hq)

theorem filter_successors (hn : nodes.get? id = some n) (hn' : nodes'.get? id = some n') :
    n.successors.filter nodes.leaves = n'.successors := by
  refine SortedSet.ext_mem fun q => ?_
  rw [SortedSet.mem_filter, h.unfolds.linked.mem_successors hn, hl.linked.mem_successors hn',
    NodeMap.leaves_iff]
  -- both maps are linked, so predecessors decide
  constructor
  · rintro ⟨⟨m, hm, hmem⟩, m', hm', hleft⟩
    cases hm.symm.trans hm'
    obtain ⟨k, hk⟩ := h.built_of_left hl hm hleft
    refine ⟨k, hk, ?_⟩
    rw [← h.predecessors_of_built hl hm (NodeMap.isLeft_iff.1 hleft).1 hk]
    exact hmem
  · rintro ⟨k, hk, hmem⟩
    obtain ⟨m, hm, hleft⟩ := h.left_of_built hl hk
    rw [← h.predecessors_of_built hl hm (NodeMap.isLeft_iff.1 hleft).1 hk] at hmem
    exact ⟨⟨m, hm, hmem⟩, m, hm, hleft⟩

/-- The nodes that are built are those that are left of the plan. -/
theorem eq_cleared : nodes' = nodes.cleared := by
  refine SortedMap.ext_get? fun id => Option.ext fun n' => ?_
  have hsame : ∀ {n k}, nodes.get? id = some n → nodes.isLeft n = true → nodes'.get? id = some k →
      k = { n with
        predecessors := n.predecessors.filter nodes.leaves
        successors := n.successors.filter nodes.leaves } := by
    intro n k hn hleft hk
    have hx := (NodeMap.isLeft_iff.1 hleft).1
    obtain ⟨hkind, hbs⟩ := h.eq_of_built hl hn hx hk
    have hid : n.id = k.id := (h.unfolds.linked.id_eq hn).trans (hl.linked.id_eq hk).symm
    rw [h.filter_successors hl hn hk, h.predecessors_of_built hl hn hx hk,
      h.filter_predecessors hl hk, hid, hkind, hbs]
  rw [NodeMap.get?_cleared_eq_some]
  constructor
  · intro hn'
    obtain ⟨n, hn, hleft⟩ := h.left_of_built hl hn'
    exact ⟨n, hn, hleft, hsame hn hleft hn'⟩
  · rintro ⟨n, hn, hleft, rfl⟩
    obtain ⟨k, hk⟩ := h.built_of_left hl hn hleft
    rw [hk, hsame hn hleft hk]

end Built

theorem nodes_eq : Building.nodes (defs.withLiterals v) = .ok nodes.cleared := by
  obtain ⟨nodes', hnodes⟩ := h.exists_nodes
  obtain ⟨ls', hls', hl⟩ := laid_of_nodes hnodes
  cases hls'.symm.trans h.laidOut_literals
  rw [hnodes, h.eq_cleared hl]

end Unfolded

/-- Expansion during the run agrees with building. Take definitions with plain names that are accepted, and
for each step whose instances are made during the run a value that its replication can expand. Whatever
operations lead to a plan in which every such step has got the instances of its value: building from the
definitions with these values written out orders the nodes that are left of the plan without its placeholders
and without the resources that no other node uses. So it either finds a cycle, or it makes these nodes. -/
theorem Graph.build_withLiterals {defs : Definitions} {registry : Registry} {g : Graph}
    (hb : Graph.build defs registry = .ok g) (hp : defs.PlainNames) {v : String → Value}
    {vars : String → List LoopVars} (hx : defs.Decides v vars) {h : Plan.History} {p : Plan}
    (hl : Plan.Leads (Plan.ofGraph g) h p)
    (hE : ∀ s ∈ defs.steps, s.isDynamic = true →
      Plan.expansionsOf h (NodeId.step s.name) = some (vars s.name)) :
    Graph.build (defs.withLiterals v) registry =
      p.nodes.cleared.dependencyOrder.map (Graph.mk p.nodes.cleared) ∧
    ((∃ ids, Graph.build (defs.withLiterals v) registry = .error (.cycle ids)) ∨
      ∃ order, Graph.build (defs.withLiterals v) registry = .ok ⟨p.nodes.cleared, order⟩) := by
  have hg := Graph.sound_of_build hb hp
  obtain ⟨_, hvalid, -⟩ := bind_eq_ok.1 hb
  obtain ⟨-, ls, hls, hlaid, -⟩ := Graph.laid_of_build hb
  have hu : Unfolded defs registry v vars g ls (Plan.expansionsOf h) p.nodes :=
    { validate := hvalid
      plain := hp
      decides := hx
      laidOut := hls
      laid := hlaid
      sound := hg
      unfolds := (hl.sound hg).unfolds
      expanded := fun hm => hE _ ((Building.layouts_spec hls).1 hm).1
        (Building.isDynamic_of_layout ((Building.layouts_spec hls).1 hm).2) }
  have hbuild : Graph.build (defs.withLiterals v) registry =
      p.nodes.cleared.dependencyOrder.map (Graph.mk p.nodes.cleared) := by
    rw [Graph.build, Definitions.validate_withLiterals hvalid v, hu.nodes_eq]
    change (p.nodes.cleared.dependencyOrder >>= fun order =>
      Except.ok (Graph.mk p.nodes.cleared order)) = _
    cases p.nodes.cleared.dependencyOrder <;> rfl
  refine ⟨hbuild, ?_⟩
  rw [hbuild, NodeMap.dependencyOrder]
  split
  · exact .inr ⟨_, rfl⟩
  · exact .inl ⟨_, rfl⟩

/-! ## Two placeholders

The instances of `b` and `c` are made during the run. There are none of `c`, so nothing uses the resource
that they would have used. -/

namespace Fork
open Feedback (registry)

/-- Steps `b` and `c` have an instance for each item that `a` answers, and `d` waits for them. -/
def definitions : Definitions where
  resources := [ResourceDefinition.new "cache" "pool"]
  steps := [StepDefinition.new "a" "emit",
    (StepDefinition.new "b" "emit").withForEach (.reference (Reference.step "a")),
    ((StepDefinition.new "c" "emit").withForEach (.reference (Reference.step "a"))).withUse
      (Reference.resource "cache"),
    ((StepDefinition.new "d" "emit").dependingOn ((Reference.step "b").nth 1)).dependingOn
      (Reference.step "c").splat]

def graph : Graph :=
  match Graph.build definitions registry with
  | .ok g => g
  | .error _ => ⟨.empty, []⟩

def items (name : String) : List Value := if name = "b" then [.null, .null] else []

def vars (name : String) : List LoopVars := Replication.eachFrom 0 (Replication.indexed (items name))

def initial : Plan := Plan.ofGraph graph

def started : Plan := initial.markRunning (NodeId.step "a")

def answered : Plan := started.markSucceeded (NodeId.step "a") none

def running : Plan := (answered.markRunning (NodeId.step "b")).markRunning (NodeId.step "c")

def expandIn (p : Plan) (name : String) : Plan :=
  match p.expand (NodeId.step name) (vars name) with
  | .ok (p', _) => p'
  | .error _ => p

def expanded : Plan := expandIn (expandIn running "c") "b"

/-- The operations that lead there, with the plans before them. -/
def history : Plan.History :=
  [(initial, .start (NodeId.step "a")), (started, .succeed (NodeId.step "a") none),
    (answered, .start (NodeId.step "b")),
    (answered.markRunning (NodeId.step "b"), .start (NodeId.step "c")),
    (running, .expand (NodeId.step "c") (vars "c")),
    (expandIn running "c", .expand (NodeId.step "b") (vars "b"))]

theorem build : Graph.build definitions registry = .ok graph := rfl

theorem plain : definitions.PlainNames := by
  unfold Definitions.PlainNames
  decide +kernel

theorem decides : definitions.Decides (fun name => .list (items name)) vars := by
  intro s hs r hr hd
  simp only [definitions, List.mem_cons, List.not_mem_nil, or_false] at hs
  rcases hs with rfl | rfl | rfl | rfl
  · cases hr
    cases hd
  · cases hr
    rfl
  · cases hr
    rfl
  · cases hr
    cases hd

theorem performs_expand (p : Plan) (name : String)
    (h : (p.expand (NodeId.step name) (vars name)).isOk = true) :
    Plan.Performs p (.expand (NodeId.step name) (vars name)) (expandIn p name) := by
  rw [expandIn]
  cases he : p.expand (NodeId.step name) (vars name) with
  | error e =>
    rw [he] at h
    cases h
  | ok r => exact .expand he

theorem leads : Plan.Leads (Plan.ofGraph graph) history expanded := by
  have hstart : ∀ {h p id}, Plan.Leads initial h p → p.isReady id = true →
      Plan.Leads initial (h ++ [(p, .start id)]) (p.markRunning id) :=
    fun hl hr => hl.perform (.start hr) fun _ _ e => by cases e
  have ha := hstart .start (by decide +kernel : initial.isReady (NodeId.step "a") = true)
  have ha' : Plan.Leads initial _ answered := ha.perform (.succeed none (by decide +kernel))
    fun _ _ e => by cases e
  have hb := hstart ha' (by decide +kernel : answered.isReady (NodeId.step "b") = true)
  have hc : Plan.Leads initial _ running := hstart hb (by decide +kernel)
  have hc' := hc.perform (performs_expand running "c" (by decide +kernel)) fun id vars e => by
    cases e
    rfl
  exact hc'.perform (performs_expand (expandIn running "c") "b" (by decide +kernel))
    fun id vars e => by
      cases e
      rfl

/-- What is left of the plan is built from definitions that list the items. -/
theorem built_from_items : Graph.build definitions registry = .ok graph ∧ definitions.PlainNames ∧
    definitions.Decides (fun name => .list (items name)) vars ∧
    Plan.Leads (Plan.ofGraph graph) history expanded ∧
    ∃ order, Graph.build (definitions.withLiterals fun name => .list (items name)) registry =
      .ok ⟨expanded.nodes.cleared, order⟩ := by
  have hE : ∀ s ∈ definitions.steps, s.isDynamic = true →
      Plan.expansionsOf history (NodeId.step s.name) = some (vars s.name) := by
    intro s hs hd
    simp only [definitions, List.mem_cons, List.not_mem_nil, or_false] at hs
    rcases hs with rfl | rfl | rfl | rfl
    · cases hd
    · rfl
    · rfl
    · cases hd
  refine ⟨build, plain, decides, leads, ?_⟩
  rcases (Graph.build_withLiterals build plain decides leads hE).2 with ⟨ids, h⟩ | h
  · cases h
  · exact h

/-- Two instances of `b`, none of `c`, and no resource. -/
example : expanded.nodes.cleared.keys = [NodeId.step "a", NodeId.ofInstance "b" 0,
    NodeId.ofInstance "b" 1, NodeId.step "d"] := by decide +kernel

end Fork

end Workplan
