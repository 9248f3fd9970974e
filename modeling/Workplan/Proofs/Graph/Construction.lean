import Workplan.Graph.Builder
import Workplan.Proofs.Graph.Edges
import Workplan.Proofs.Graph.Identity
import Workplan.Proofs.Graph.Ordering
import Workplan.Proofs.Graph.Validity

/-! Construction: every node of a built graph is laid out from one definition (`Building.Made`), its
bindings answer the references of that definition one by one (`Building.Bound`), and successors and
predecessors are each other's converse. -/
namespace Workplan
open Outcome
set_option autoImplicit false

namespace Building

/-! ## Bindings -/

/-- The binding of one of several references of a node. -/
structure Bound (ls : Layouts) (node : NodeId) (role : BindingRole) (refs : List Reference)
    (b : Binding) : Prop where
  role_eq : b.role = role
  mem : b.reference ∈ refs
  producers : producers ls node b.reference b.role = .ok b.producers

variable {ls : Layouts} {node : NodeId} {role : BindingRole}

theorem pushBinding_spec {bs bs' : List Binding} {r : Reference}
    (h : pushBinding ls node role bs r = .ok bs') :
    (∀ b ∈ bs', b ∈ bs ∨ Bound ls node role [r] b) ∧ (∀ b ∈ bs, b ∈ bs') ∧
      ∃ b ∈ bs', b.role = role ∧ b.reference = r := by
  rw [pushBinding] at h
  split at h
  next hany =>
    cases h
    rw [List.any_eq_true] at hany
    obtain ⟨b, hb, hbr⟩ := hany
    simp only [Bool.and_eq_true, decide_eq_true_eq] at hbr
    exact ⟨fun b hb => .inl hb, fun b hb => hb, b, hb, hbr.2, hbr.1⟩
  next =>
    obtain ⟨ids, hids, h⟩ := bind_eq_ok.1 h
    cases h
    refine ⟨fun b hb => ?_, fun b hb => List.mem_append_left _ hb,
      ⟨r, role, ids⟩, List.mem_append_right _ List.mem_cons_self, rfl, rfl⟩
    rcases List.mem_append.1 hb with hb | hb
    · exact .inl hb
    · obtain rfl := List.mem_singleton.1 hb
      exact .inr ⟨rfl, List.mem_cons_self, hids⟩

theorem pushBindings_spec {refs : List Reference} {bs bs' : List Binding}
    (h : pushBindings ls node role refs bs = .ok bs') :
    (∀ b ∈ bs', b ∈ bs ∨ Bound ls node role refs b) ∧ (∀ b ∈ bs, b ∈ bs') ∧
      ∀ r ∈ refs, ∃ b ∈ bs', b.role = role ∧ b.reference = r := by
  induction refs generalizing bs with
  | nil =>
    cases h
    exact ⟨fun b hb => .inl hb, fun b hb => hb, by simp⟩
  | cons r refs ih =>
    obtain ⟨bs₁, h₁, h⟩ := bind_eq_ok.1 h
    obtain ⟨hnew, hold, b, hb, hbr⟩ := pushBinding_spec h₁
    obtain ⟨hnew', hold', hrefs⟩ := ih h
    refine ⟨fun b hb => ?_, fun b hb => hold' b (hold b hb), fun r' hr' => ?_⟩
    · rcases hnew' b hb with hb | hb
      · rcases hnew b hb with hb | hb
        · exact .inl hb
        · obtain rfl := List.mem_singleton.1 hb.mem
          exact .inr ⟨hb.role_eq, List.mem_cons_self, hb.producers⟩
      · exact .inr ⟨hb.role_eq, List.mem_cons_of_mem r hb.mem, hb.producers⟩
    · rcases List.mem_cons.1 hr' with rfl | hr'
      · exact ⟨b, hold' b hb, hbr⟩
      · exact hrefs r' hr'

/-- The references of a step with a given role. -/
def referencesWith (step : StepDefinition) : BindingRole → List Reference
  | .replication => referencesOf step.replicationExpressions
  | .argument => referencesOf step.arguments.values
  | .explicit => step.dependsOn
  | .uses => step.uses

theorem stepBindings_spec {step : StepDefinition} {isPlaceholder : Bool} {bs : List Binding}
    (h : stepBindings ls node step isPlaceholder = .ok bs) :
    ∀ b ∈ bs, Bound ls node b.role (referencesWith step b.role) b := by
  obtain ⟨bs₁, h₁, h⟩ := bind_eq_ok.1 h
  obtain ⟨bs₂, h₂, h⟩ := bind_eq_ok.1 h
  obtain ⟨bs₃, h₃, h₄⟩ := bind_eq_ok.1 h
  obtain ⟨hnew₁, -, -⟩ := pushBindings_spec h₁
  obtain ⟨hnew₂, -, -⟩ := pushBindings_spec h₂
  obtain ⟨hnew₃, -, -⟩ := pushBindings_spec h₃
  obtain ⟨hnew₄, -, -⟩ := pushBindings_spec h₄
  intro b hb
  have lift : ∀ {role refs}, Bound ls node role refs b → refs ⊆ referencesWith step role →
      Bound ls node b.role (referencesWith step b.role) b := by
    intro role refs hbound hsub
    refine ⟨rfl, ?_, hbound.producers⟩
    rw [hbound.role_eq]
    exact hsub hbound.mem
  rcases hnew₄ b hb with hb | hb
  · rcases hnew₃ b hb with hb | hb
    · rcases hnew₂ b hb with hb | hb
      · rcases hnew₁ b hb with hb | hb
        · cases hb
        · refine lift hb fun r hr => ?_
          cases isPlaceholder with
          | true => exact hr
          | false => cases hr
      · exact lift hb fun r hr => hr
    · exact lift hb fun r hr => hr
  · exact lift hb fun r hr => hr

/-- Every reference of a step has a binding with its role. What decides the instances is bound for
placeholders only. -/
theorem exists_of_stepBindings (role : BindingRole) {step : StepDefinition} {isPlaceholder : Bool}
    {bs : List Binding} (h : stepBindings ls node step isPlaceholder = .ok bs)
    (hp : role = .replication → isPlaceholder = true) {r : Reference}
    (hr : r ∈ referencesWith step role) :
    ∃ b ∈ bs, b.role = role ∧ b.reference = r := by
  obtain ⟨bs₁, h₁, h⟩ := bind_eq_ok.1 h
  obtain ⟨bs₂, h₂, h⟩ := bind_eq_ok.1 h
  obtain ⟨bs₃, h₃, h₄⟩ := bind_eq_ok.1 h
  obtain ⟨-, -, hall₁⟩ := pushBindings_spec h₁
  obtain ⟨-, hold₂, hall₂⟩ := pushBindings_spec h₂
  obtain ⟨-, hold₃, hall₃⟩ := pushBindings_spec h₃
  obtain ⟨-, hold₄, hall₄⟩ := pushBindings_spec h₄
  cases role with
  | replication =>
    rw [hp rfl] at hall₁
    obtain ⟨b, hb, hbr⟩ := hall₁ r hr
    exact ⟨b, hold₄ b (hold₃ b (hold₂ b hb)), hbr⟩
  | argument =>
    obtain ⟨b, hb, hbr⟩ := hall₂ r hr
    exact ⟨b, hold₄ b (hold₃ b hb), hbr⟩
  | explicit =>
    obtain ⟨b, hb, hbr⟩ := hall₃ r hr
    exact ⟨b, hold₄ b hb, hbr⟩
  | uses => exact hall₄ r hr

/-! ### Bindings of instances -/

def isInherited (b : Binding) : Bool := b.role ≠ .replication

theorem pushBinding_inherited (hr : role ≠ .replication) {r : Reference} {bs bs' : List Binding}
    (h : pushBinding ls node role bs r = .ok bs') :
    pushBinding ls node role (bs.filter isInherited) r = .ok (bs'.filter isInherited) := by
  have hany : ((bs.filter isInherited).any fun b => b.reference = r && b.role = role) =
      bs.any fun b => b.reference = r && b.role = role := by
    rw [List.any_filter]
    congr 1
    funext b
    by_cases hb : b.role = role
    · simp [isInherited, hb, hr]
    · simp [hb]
  rw [pushBinding] at h ⊢
  rw [hany]
  split at h
  next hb =>
    cases h
    rw [if_pos hb]
  next hb =>
    obtain ⟨ids, hids, h⟩ := bind_eq_ok.1 h
    cases h
    rw [if_neg hb]
    refine bind_eq_ok.2 ⟨ids, hids, ?_⟩
    simp [isInherited, hr]

theorem pushBindings_inherited (hr : role ≠ .replication) {refs : List Reference}
    {bs bs' : List Binding} (h : pushBindings ls node role refs bs = .ok bs') :
    pushBindings ls node role refs (bs.filter isInherited) = .ok (bs'.filter isInherited) := by
  induction refs generalizing bs with
  | nil =>
    cases h
    rfl
  | cons r refs ih =>
    obtain ⟨bs₁, h₁, h⟩ := bind_eq_ok.1 h
    exact bind_eq_ok.2 ⟨_, pushBinding_inherited hr h₁, ih h⟩

/-- What instances inherit from a placeholder are the bindings that they would have got from the
definition of the step. -/
theorem stepBindings_inherited {s : StepDefinition} {bs : List Binding}
    (h : stepBindings ls node s true = .ok bs) :
    stepBindings ls node s false = .ok (bs.filter isInherited) := by
  obtain ⟨bs₁, h₁, h⟩ := bind_eq_ok.1 h
  obtain ⟨bs₂, h₂, h⟩ := bind_eq_ok.1 h
  obtain ⟨bs₃, h₃, h₄⟩ := bind_eq_ok.1 h
  have hnone : bs₁.filter isInherited = [] := by
    rw [List.filter_eq_nil_iff]
    intro b hb
    rcases (pushBindings_spec h₁).1 b hb with hb | hb
    · cases hb
    · simp [isInherited, hb.role_eq]
  have h₂' := pushBindings_inherited (by decide) h₂
  rw [hnone] at h₂'
  exact bind_eq_ok.2 ⟨[], rfl, bind_eq_ok.2 ⟨_, h₂', bind_eq_ok.2
    ⟨_, pushBindings_inherited (by decide) h₃, pushBindings_inherited (by decide) h₄⟩⟩⟩

/-! ## Layouts -/

theorem layouts_spec {steps : List StepDefinition} (h : layouts steps = .ok ls) :
    (∀ {s l}, (s, l) ∈ ls → s ∈ steps ∧ layout s = .ok l) ∧ ∀ s ∈ steps, ∃ l, (s, l) ∈ ls := by
  induction steps generalizing ls with
  | nil =>
    cases h
    exact ⟨fun h => absurd h List.not_mem_nil, fun s h => absurd h List.not_mem_nil⟩
  | cons s steps ih =>
    obtain ⟨l, hl, h⟩ := bind_eq_ok.1 h
    obtain ⟨ls', hls, h⟩ := bind_eq_ok.1 h
    cases h
    obtain ⟨hmem, hex⟩ := ih hls
    refine ⟨fun {s' l'} hm => ?_, fun s' hs' => ?_⟩
    · rcases List.mem_cons.1 hm with he | hm
      · cases he
        exact ⟨List.mem_cons_self, hl⟩
      · exact ⟨List.mem_cons_of_mem s (hmem hm).1, (hmem hm).2⟩
    · rcases List.mem_cons.1 hs' with rfl | hs'
      · exact ⟨l, List.mem_cons_self⟩
      · obtain ⟨l', hl'⟩ := hex s' hs'
        exact ⟨l', List.mem_cons_of_mem _ hl'⟩

theorem mem_of_layoutOf? {name : String} {l : StepLayout} (h : layoutOf? ls name = some l) :
    ∃ s, (s, l) ∈ ls ∧ s.name = name := by
  obtain ⟨⟨s, l'⟩, hf, rfl⟩ := Option.map_eq_some_iff.1 h
  refine ⟨s, List.mem_reverse.1 (List.mem_of_find?_eq_some hf), ?_⟩
  simpa using List.find?_some hf

theorem exists_layoutOf? {steps : List StepDefinition} (hls : layouts steps = .ok ls)
    {s : StepDefinition} (hs : s ∈ steps) : ∃ l, layoutOf? ls s.name = some l := by
  obtain ⟨l, hl⟩ := (layouts_spec hls).2 s hs
  cases hf : ls.reverse.find? fun e => e.1.name = s.name with
  | none => simpa using List.find?_eq_none.1 hf (s, l) (List.mem_reverse.2 hl)
  | some entry => exact ⟨entry.2, by rw [layoutOf?, hf]; rfl⟩

/-! ## Producers -/

/-- A reference is resolved to some of the instances, and to none of them only if there are none. -/
theorem resolveProducers_spec {id : NodeId} {r : Reference} {instances ids : List NodeId}
    (h : resolveProducers id r role instances = .ok ids) :
    ids ⊆ instances ∧ (instances ≠ [] → ids ≠ []) := by
  simp only [resolveProducers] at h
  cases hr : r.index with
  | splat =>
    rw [hr] at h
    cases h
    exact ⟨fun _ hq => hq, fun hne => hne⟩
  | nth i =>
    rw [hr] at h
    simp only at h
    split at h
    next q hq =>
      cases h
      refine ⟨fun x hx => ?_, fun _ => List.cons_ne_nil q []⟩
      rw [List.mem_singleton.1 hx]
      exact List.mem_of_getElem? hq
    next => cases h
  | unindexed =>
    rw [hr] at h
    match instances, h with
    | [], h => cases h
    | [only], h =>
      cases h
      exact ⟨fun _ hq => hq, fun hne => hne⟩
    | a :: b :: rest, h =>
      simp only at h
      split at h
      · cases h
      · cases h

/-- A reference to a step with known instances fails when there is no instance with its index, or when
it has no index and there is not exactly one instance. -/
theorem resolveProducers_eq_error {r : Reference} {instances : List NodeId} {e : BuildError}
    (h : resolveProducers node r role instances = .error e) :
    (∃ i, r.index = .nth i ∧ instances.length ≤ i ∧
      e = .indexOutOfRange node r.target.name i instances.length) ∨
    r.index = .unindexed ∧ (instances = [] ∧ e = .noInstances node r r.target.name ∨
      2 ≤ instances.length ∧ e = if role = .explicit then
        .ambiguousDependency node r r.target.name instances.length
        else .ambiguousImplicitDependency node r r.target.name instances.length) := by
  simp only [resolveProducers] at h
  cases hi : r.index with
  | splat =>
    rw [hi] at h
    cases h
  | nth i =>
    rw [hi] at h
    simp only at h
    split at h
    next => cases h
    next hnone =>
      cases h
      exact .inl ⟨i, rfl, List.getElem?_eq_none_iff.1 hnone, rfl⟩
  | unindexed =>
    rw [hi] at h
    refine .inr ⟨rfl, ?_⟩
    cases instances with
    | nil =>
      cases h
      exact .inl ⟨rfl, rfl⟩
    | cons a rest =>
      cases rest with
      | nil => cases h
      | cons b rest =>
        refine .inr ⟨by simp, ?_⟩
        simp only at h
        split at h
        next hrole =>
          cases h
          rw [if_pos hrole]
        next hrole =>
          cases h
          rw [if_neg hrole]

/-- What produces a reference: a resource, a single step, instances of a step, or the placeholder of a
step. -/
inductive Produced (ls : Layouts) (r : Reference) : List NodeId → Prop where
  | resource {name : String} (ht : r.target = .resource name) :
    Produced ls r [NodeId.resource name]
  | single {s : StepDefinition} (ht : r.target = .step s.name) (hl : (s, .single) ∈ ls) :
    Produced ls r [NodeId.step s.name]
  | instances {s : StepDefinition} {vars : List LoopVars} {ids : List NodeId}
    (ht : r.target = .step s.name) (hl : (s, .instances vars) ∈ ls)
    (hids : ids ⊆ instanceIds s.name vars.length) : Produced ls r ids
  | deferred {s : StepDefinition} {replication : Replication} (ht : r.target = .step s.name)
    (hl : (s, .deferred replication) ∈ ls) : Produced ls r [NodeId.step s.name]

theorem produced_of_producers {r : Reference} {ids : List NodeId}
    (h : producers ls node r role = .ok ids) : Produced ls r ids := by
  rw [producers] at h
  split at h
  next name ht =>
    cases h
    exact .resource ht
  next name ht =>
    split at h
    next => cases h
    next hl =>
      obtain ⟨s, hs, rfl⟩ := mem_of_layoutOf? hl
      split at h
      next => cases h
      next =>
        cases h
        exact .single ht hs
    next vars hl =>
      obtain ⟨s, hs, rfl⟩ := mem_of_layoutOf? hl
      exact .instances ht hs (resolveProducers_spec h).1
    next replication hl =>
      obtain ⟨s, hs, rfl⟩ := mem_of_layoutOf? hl
      cases h
      exact .deferred ht hs

end Building

end Workplan
