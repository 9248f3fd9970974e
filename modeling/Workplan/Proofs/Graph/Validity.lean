import Workplan.Graph.Validation
import Workplan.Proofs.Outcome

/-! What validation promises: names are distinct, runners and kinds are known, values are read from
steps only, and what a step uses is declared. -/
namespace Workplan
open Outcome
set_option autoImplicit false

/-- A resource that has passed its checks. -/
structure ResourceDefinition.Valid (registry : Registry) (r : ResourceDefinition) : Prop where
  kind : ∃ k, registry.kind? r.kind = some k
  reads : ∀ e ∈ r.arguments.values, ∀ ref ∈ e.references, ref.isStep = true

/-- A step that has passed its checks. -/
structure StepDefinition.Valid (defs : Definitions) (registry : Registry) (s : StepDefinition) :
    Prop where
  runner : ∃ k, registry.runner? s.runner = some k
  reads : ∀ e ∈ s.expressions, ∀ ref ∈ e.references, ref.isStep = true
  after : ∀ ref ∈ s.dependsOn, ref.isStep = true
  uses : ∀ ref ∈ s.uses, ref.isResource = true ∧ ∃ r ∈ defs.resources, r.name = ref.target.name

/-- Definitions that have passed their checks. -/
structure Definitions.Valid (defs : Definitions) (registry : Registry) : Prop where
  step_names : (defs.steps.map fun s => s.name).Nodup
  resource_names : (defs.resources.map fun r => r.name).Nodup
  resources : ∀ r ∈ defs.resources, r.Valid registry
  steps : ∀ s ∈ defs.steps, s.Valid defs registry

namespace Validation

theorem firstRepeated?_eq_none {seen l : List String} (h : firstRepeated? seen l = none) :
    l.Nodup ∧ ∀ a ∈ l, a ∉ seen := by
  induction l generalizing seen with
  | nil => simp
  | cons a l ih =>
    rw [firstRepeated?] at h
    split at h
    next => cases h
    next ha =>
      obtain ⟨hnd, hl⟩ := ih h
      refine ⟨List.nodup_cons.2 ⟨fun hm => hl a hm List.mem_cons_self, hnd⟩, ?_⟩
      intro b hb hs
      rcases List.mem_cons.1 hb with rfl | hb
      · exact ha hs
      · exact hl b hb (List.mem_cons_of_mem a hs)

variable {defs : Definitions} {registry : Registry}

theorem reads_of_checkExpression {node : NodeId} {vars : VariableScope} {e : Expression}
    (h : checkExpression defs registry node vars e = .ok ()) :
    ∀ ref ∈ e.references, ref.isStep = true := by
  obtain ⟨_, -, href⟩ := bind_eq_ok.1 h
  rw [checkAll_eq_ok_iff] at href
  intro ref hm
  have hr := href ref hm
  rw [checkValueReference] at hr
  split at hr
  next => cases hr
  next hn => simpa [Reference.isResource] using hn

theorem resource_valid {r : ResourceDefinition} (h : checkResource defs registry r = .ok ()) :
    r.Valid registry := by
  rw [checkResource] at h
  split at h
  next => cases h
  next kind hk =>
    obtain ⟨_, -, harg⟩ := bind_eq_ok.1 h
    rw [checkAll_eq_ok_iff] at harg
    exact ⟨⟨kind, hk⟩, fun e he => reads_of_checkExpression (harg e he)⟩

theorem step_valid {s : StepDefinition} (h : checkStep defs registry s = .ok ()) :
    s.Valid defs registry := by
  rw [checkStep] at h
  split at h
  next => cases h
  next runner hr =>
    obtain ⟨_, -, h⟩ := bind_eq_ok.1 h
    obtain ⟨_, -, h⟩ := bind_eq_ok.1 h
    obtain ⟨_, harg, h⟩ := bind_eq_ok.1 h
    obtain ⟨_, hrep, h⟩ := bind_eq_ok.1 h
    obtain ⟨_, hdep, huse⟩ := bind_eq_ok.1 h
    rw [checkAll_eq_ok_iff] at harg hrep hdep huse
    refine ⟨⟨runner, hr⟩, ?_, ?_, ?_⟩
    · intro e he
      rcases List.mem_append.1 he with he | he
      · exact reads_of_checkExpression (harg e he)
      · exact reads_of_checkExpression (hrep e he)
    · intro ref hm
      have hd := hdep ref hm
      rw [checkDependency] at hd
      split at hd
      next hs => exact hs
      next => cases hd
    · intro ref hm
      have hu := huse ref hm
      rw [checkUse] at hu
      split at hu
      next hres =>
        split at hu
        next => cases hu
        next r hf =>
          refine ⟨hres, r, List.mem_of_find?_eq_some hf, ?_⟩
          simpa using List.find?_some hf
      next => cases hu

end Validation

theorem Definitions.valid_of_validate {defs : Definitions} {registry : Registry}
    (h : defs.validate registry = .ok ()) : defs.Valid registry := by
  obtain ⟨_, hs, h⟩ := bind_eq_ok.1 h
  obtain ⟨_, hr, h⟩ := bind_eq_ok.1 h
  obtain ⟨_, hres, hstep⟩ := bind_eq_ok.1 h
  rw [checkAll_eq_ok_iff] at hres hstep
  refine ⟨?_, ?_, fun r hm => Validation.resource_valid (hres r hm),
    fun s hm => Validation.step_valid (hstep s hm)⟩
  · rw [Validation.checkStepNames] at hs
    split at hs
    next => cases hs
    next hn => exact (Validation.firstRepeated?_eq_none hn).1
  · rw [Validation.checkResourceNames] at hr
    split at hr
    next => cases hr
    next hn => exact (Validation.firstRepeated?_eq_none hn).1

end Workplan
