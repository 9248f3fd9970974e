import Workplan.Proofs.Graph.WellFormed

/-! Acceptance: validation accepts exactly the admissible definitions. What is admissible is said here
without the order in which the checks are made and without the notions that they are made of: names are
distinct, and what a declaration names is there to be named.

Every check is met exactly when its clause holds. Two of them look something up by its name and take
the first entry with that name, and there the clause needs names to be distinct, which is checked
first. -/
namespace Workplan
open Outcome
set_option autoImplicit false

/-! ## Occurrences in expressions -/

/-- A loop variable occurs in an expression, at any depth. -/
inductive Expression.MentionsVariable (v : Variable) : Expression → Prop where
  | «variable» : MentionsVariable v (.variable v)
  | template {segments : List Segment} (hv : .variable v ∈ segments) :
    MentionsVariable v (.template segments)
  | list {items : List Expression} {e : Expression} (he : e ∈ items) (hv : MentionsVariable v e) :
    MentionsVariable v (.list items)
  | map {entries : List (String × Expression)} {key : String} {e : Expression}
    (he : (key, e) ∈ entries) (hv : MentionsVariable v e) : MentionsVariable v (.map entries)

namespace Expression
variable {r : Reference} {v : Variable}

mutual

theorem mentions_of_occurrence : ∀ {e : Expression}, r ∈ e.referenceOccurrences → e.Mentions r
  | .reference r', h => by
    obtain rfl := List.mem_singleton.1 h
    exact .reference
  | .template segments, h => by
    rw [referenceOccurrences, List.mem_filterMap] at h
    obtain ⟨segment, hs, hr⟩ := h
    cases segment with
    | text s => cases hr
    | reference r' =>
      cases hr
      exact .template hs
    | «variable» v => cases hr
  | .list items, h => by
    obtain ⟨e, he, hr⟩ := exists_mentions_of_items h
    exact .list he hr
  | .map entries, h => by
    obtain ⟨key, e, he, hr⟩ := exists_mentions_of_entries h
    exact .map he hr

theorem exists_mentions_of_items : ∀ {items : List Expression},
    r ∈ referenceOccurrencesOfItems items → ∃ e ∈ items, e.Mentions r
  | e :: items, h => by
    rcases List.mem_append.1 h with h | h
    · exact ⟨e, List.mem_cons_self, mentions_of_occurrence h⟩
    · obtain ⟨e', he, hr⟩ := exists_mentions_of_items h
      exact ⟨e', List.mem_cons_of_mem e he, hr⟩

theorem exists_mentions_of_entries : ∀ {entries : List (String × Expression)},
    r ∈ referenceOccurrencesOfEntries entries → ∃ key e, (key, e) ∈ entries ∧ e.Mentions r
  | (key, e) :: entries, h => by
    rcases List.mem_append.1 h with h | h
    · exact ⟨key, e, List.mem_cons_self, mentions_of_occurrence h⟩
    · obtain ⟨key', e', he, hr⟩ := exists_mentions_of_entries h
      exact ⟨key', e', List.mem_cons_of_mem (key, e) he, hr⟩

end

theorem mem_references_iff {e : Expression} : r ∈ e.references ↔ e.Mentions r :=
  ⟨fun h => mentions_of_occurrence (mem_distinct.1 h), Mentions.mem_references⟩

mutual

theorem mentionsVariable_of_occurrence :
    ∀ {e : Expression}, v ∈ e.variableOccurrences → e.MentionsVariable v
  | .variable v', h => by
    obtain rfl := List.mem_singleton.1 h
    exact .variable
  | .template segments, h => by
    rw [variableOccurrences, List.mem_filterMap] at h
    obtain ⟨segment, hs, hv⟩ := h
    cases segment with
    | text s => cases hv
    | reference r => cases hv
    | «variable» v' =>
      cases hv
      exact .template hs
  | .list items, h => by
    obtain ⟨e, he, hv⟩ := exists_mentionsVariable_of_items h
    exact .list he hv
  | .map entries, h => by
    obtain ⟨key, e, he, hv⟩ := exists_mentionsVariable_of_entries h
    exact .map he hv

theorem exists_mentionsVariable_of_items : ∀ {items : List Expression},
    v ∈ variableOccurrencesOfItems items → ∃ e ∈ items, e.MentionsVariable v
  | e :: items, h => by
    rcases List.mem_append.1 h with h | h
    · exact ⟨e, List.mem_cons_self, mentionsVariable_of_occurrence h⟩
    · obtain ⟨e', he, hv⟩ := exists_mentionsVariable_of_items h
      exact ⟨e', List.mem_cons_of_mem e he, hv⟩

theorem exists_mentionsVariable_of_entries : ∀ {entries : List (String × Expression)},
    v ∈ variableOccurrencesOfEntries entries → ∃ key e, (key, e) ∈ entries ∧ e.MentionsVariable v
  | (key, e) :: entries, h => by
    rcases List.mem_append.1 h with h | h
    · exact ⟨key, e, List.mem_cons_self, mentionsVariable_of_occurrence h⟩
    · obtain ⟨key', e', he, hv⟩ := exists_mentionsVariable_of_entries h
      exact ⟨key', e', List.mem_cons_of_mem (key, e) he, hv⟩

end

theorem mem_variableOccurrencesOfItems {items : List Expression} {e : Expression} (he : e ∈ items)
    (hv : v ∈ e.variableOccurrences) : v ∈ variableOccurrencesOfItems items := by
  induction items with
  | nil => cases he
  | cons a items ih =>
    rw [variableOccurrencesOfItems, List.mem_append]
    rcases List.mem_cons.1 he with rfl | he
    · exact .inl hv
    · exact .inr (ih he)

theorem mem_variableOccurrencesOfEntries {entries : List (String × Expression)} {key : String}
    {e : Expression} (he : (key, e) ∈ entries) (hv : v ∈ e.variableOccurrences) :
    v ∈ variableOccurrencesOfEntries entries := by
  induction entries with
  | nil => cases he
  | cons a entries ih =>
    rw [variableOccurrencesOfEntries, List.mem_append]
    rcases List.mem_cons.1 he with rfl | he
    · exact .inl hv
    · exact .inr (ih he)

theorem MentionsVariable.mem_occurrences {e : Expression} (h : e.MentionsVariable v) :
    v ∈ e.variableOccurrences := by
  induction h with
  | «variable» => simp [variableOccurrences]
  | template hv =>
    rw [variableOccurrences, List.mem_filterMap]
    exact ⟨_, hv, rfl⟩
  | list he _ ih =>
    rw [variableOccurrences]
    exact mem_variableOccurrencesOfItems he ih
  | map he _ ih =>
    rw [variableOccurrences]
    exact mem_variableOccurrencesOfEntries he ih

theorem mem_loopVariables_iff {e : Expression} : v ∈ e.loopVariables ↔ e.MentionsVariable v :=
  ⟨fun h => mentionsVariable_of_occurrence (mem_distinct.1 h),
    fun h => mem_distinct.2 h.mem_occurrences⟩

end Expression

/-! ## Admissible definitions -/

/-- Argument names fit declared inputs: all are declared, and what is required is among them. -/
structure InputSpec.Matches (inputs : List InputSpec) (names : List String) : Prop where
  declared : ∀ n ∈ names, ∃ i ∈ inputs, i.name = n
  required : ∀ i ∈ inputs, i.required = true → i.name ∈ names

/-- A declared step is referred to, and if an attribute of it, then one that its runner outputs. -/
def Reference.Readable (defs : Definitions) (registry : Registry) (r : Reference) : Prop :=
  ∃ s ∈ defs.steps, r.target = .step s.name ∧
    ∀ attr, r.attr = some attr → ∃ k, registry.runner? s.runner = some k ∧ attr ∈ k.shape.outputs

/-- A declared resource is referred to, of a kind that a runner accepts. -/
def Reference.Usable (defs : Definitions) (k : Runner) (r : Reference) : Prop :=
  ∃ d ∈ defs.resources, r.target = .resource d.name ∧ d.kind ∈ k.shape.uses

/-- A step gives its instances a loop variable. -/
def StepDefinition.Provides (s : StepDefinition) : Variable → Prop
  | .countIndex => ∃ e, s.count = some e
  | .eachKey => ∃ e, s.forEach = some e
  | .eachValue => ∃ e, s.forEach = some e

/-- What is asked of a resource. -/
structure ResourceDefinition.Admissible (defs : Definitions) (registry : Registry)
    (d : ResourceDefinition) : Prop where
  registered : ∃ k, registry.kind? d.kind = some k ∧ InputSpec.Matches k.shape.inputs d.arguments.keys
  loopVariables : ∀ e ∈ d.arguments.values, ∀ v, ¬e.MentionsVariable v
  reads : ∀ e ∈ d.arguments.values, ∀ r, e.Mentions r → r.Readable defs registry

/-- What is asked of a step. -/
structure StepDefinition.Admissible (defs : Definitions) (registry : Registry) (s : StepDefinition) :
    Prop where
  registered : ∃ k, registry.runner? s.runner = some k ∧
    InputSpec.Matches k.shape.inputs s.arguments.keys ∧ ∀ r ∈ s.uses, r.Usable defs k
  replication : ¬((∃ e, s.count = some e) ∧ ∃ e, s.forEach = some e)
  loopVariables : ∀ e ∈ s.arguments.values, ∀ v, e.MentionsVariable v → s.Provides v
  outerVariables : ∀ e ∈ s.replicationExpressions, ∀ v, ¬e.MentionsVariable v
  reads : ∀ e ∈ s.expressions, ∀ r, e.Mentions r → r.Readable defs registry
  after : ∀ r ∈ s.dependsOn, r.Readable defs registry

/-- What is asked of definitions. -/
structure Definitions.Admissible (defs : Definitions) (registry : Registry) : Prop where
  step_names : (defs.steps.map fun s => s.name).Nodup
  resource_names : (defs.resources.map fun d => d.name).Nodup
  resources : ∀ d ∈ defs.resources, d.Admissible defs registry
  steps : ∀ s ∈ defs.steps, s.Admissible defs registry

/-! ## Names -/

/-- The entry that is found by a name is the one with the name, when names are distinct. -/
theorem Pointwise.find?_eq_some_iff {α : Type} {name : α → String} {l : List α}
    (h : (l.map name).Nodup) {n : String} {a : α} :
    (l.find? fun b => name b = n) = some a ↔ a ∈ l ∧ name a = n := by
  constructor
  · intro hf
    exact ⟨List.mem_of_find?_eq_some hf, by simpa using List.find?_some hf⟩
  · rintro ⟨ha, rfl⟩
    cases hf : l.find? fun b => name b = name a with
    | none => simpa using List.find?_eq_none.1 hf a ha
    | some b =>
      have hb : name b = name a := by simpa using List.find?_some hf
      rw [List.inj_on_of_nodup_map h (List.mem_of_find?_eq_some hf) ha hb]

theorem InputSpec.check_eq_ok_iff {inputs : List InputSpec} {names : List String} :
    check inputs names = .ok () ↔ Matches inputs names := by
  have hdeclared : (names.find? fun n => !inputs.any fun i => i.name = n) = none ↔
      ∀ n ∈ names, ∃ i ∈ inputs, i.name = n := by
    simp
  have hrequired : (inputs.find? fun i => i.required && !names.contains i.name) = none ↔
      ∀ i ∈ inputs, i.required = true → i.name ∈ names := by
    simp
  rw [check]
  constructor
  · intro h
    split at h
    next => cases h
    next hd =>
      split at h
      next => cases h
      next hr => exact ⟨hdeclared.1 hd, hrequired.1 hr⟩
  · intro h
    rw [hdeclared.2 h.declared, hrequired.2 h.required]

namespace Validation

theorem firstRepeated?_eq_none_of_nodup {l seen : List String} (hnd : l.Nodup)
    (hseen : ∀ a ∈ l, a ∉ seen) : firstRepeated? seen l = none := by
  induction l generalizing seen with
  | nil => rfl
  | cons a l ih =>
    obtain ⟨ha, hl⟩ := List.nodup_cons.1 hnd
    rw [firstRepeated?, if_neg (hseen a List.mem_cons_self)]
    refine ih hl fun b hb hs => ?_
    rcases List.mem_cons.1 hs with rfl | hs
    · exact ha hb
    · exact hseen b (List.mem_cons_of_mem a hb) hs

theorem firstRepeated?_eq_none_iff {l : List String} : firstRepeated? [] l = none ↔ l.Nodup :=
  ⟨fun h => (firstRepeated?_eq_none h).1,
    fun h => firstRepeated?_eq_none_of_nodup h fun _ _ => List.not_mem_nil⟩

variable {defs : Definitions} {registry : Registry} {node : NodeId} {r : Reference}

theorem checkStepNames_eq_ok_iff :
    checkStepNames defs = .ok () ↔ (defs.steps.map fun s => s.name).Nodup := by
  rw [checkStepNames, ← firstRepeated?_eq_none_iff]
  cases firstRepeated? [] (defs.steps.map fun s => s.name) with
  | none => exact ⟨fun _ => rfl, fun _ => rfl⟩
  | some name => exact ⟨fun h => (by cases h), fun h => (by cases h)⟩

theorem checkResourceNames_eq_ok_iff :
    checkResourceNames defs = .ok () ↔ (defs.resources.map fun d => d.name).Nodup := by
  rw [checkResourceNames, ← firstRepeated?_eq_none_iff]
  cases firstRepeated? [] (defs.resources.map fun d => d.name) with
  | none => exact ⟨fun _ => rfl, fun _ => rfl⟩
  | some name => exact ⟨fun h => (by cases h), fun h => (by cases h)⟩

/-! ## References -/

theorem checkStepReference_eq_ok_iff (hs : (defs.steps.map fun s => s.name).Nodup)
    (hr : r.isStep = true) :
    checkStepReference defs registry node r = .ok () ↔ r.Readable defs registry := by
  obtain ⟨target, index, attr⟩ := r
  cases target with
  | resource name => cases hr
  | step name =>
    rw [checkStepReference]
    dsimp only
    -- the step that is looked up is the one step with the name
    have hreadable : ∀ {s}, defs.step? name = some s →
        (Reference.Readable defs registry ⟨.step name, index, attr⟩ ↔ ∀ a, attr = some a →
          ∃ k, registry.runner? s.runner = some k ∧ a ∈ k.shape.outputs) := by
      intro s hstep
      obtain ⟨hm, rfl⟩ := (Pointwise.find?_eq_some_iff hs).1 hstep
      constructor
      · rintro ⟨s', hs', ht, ha⟩
        rw [List.inj_on_of_nodup_map hs hm hs' (Target.step.inj ht)]
        exact ha
      · exact fun ha => ⟨s, hm, rfl, ha⟩
    cases hstep : defs.step? name with
    | none =>
      refine ⟨fun h => (by cases h), ?_⟩
      rintro ⟨s, hm, ht, -⟩
      have hf := (Pointwise.find?_eq_some_iff hs).2 ⟨hm, (Target.step.inj ht).symm⟩
      cases hstep.symm.trans hf
    | some s =>
      rw [hreadable hstep]
      cases attr with
      | none => exact ⟨fun _ a h => (by cases h), fun _ => rfl⟩
      | some a =>
        dsimp only
        cases hk : registry.runner? s.runner with
        | none => simp
        | some k => simp [RunnerShape.hasOutput]

theorem checkValueReference_eq_ok_iff (hs : (defs.steps.map fun s => s.name).Nodup) :
    checkValueReference defs registry node r = .ok () ↔ r.Readable defs registry := by
  rw [checkValueReference]
  split
  next hres =>
    refine ⟨fun h => (by cases h), ?_⟩
    rintro ⟨s, -, ht, -⟩
    simp [Reference.isResource, Reference.isStep, ht] at hres
  next hres =>
    exact checkStepReference_eq_ok_iff hs (by simpa [Reference.isResource] using hres)

theorem checkDependency_eq_ok_iff (hs : (defs.steps.map fun s => s.name).Nodup) :
    checkDependency defs registry node r = .ok () ↔ r.Readable defs registry := by
  rw [checkDependency]
  split
  next hstep => exact checkStepReference_eq_ok_iff hs hstep
  next hstep =>
    refine ⟨fun h => (by cases h), ?_⟩
    rintro ⟨s, -, ht, -⟩
    simp [Reference.isStep, ht] at hstep

theorem checkUse_eq_ok_iff (hd : (defs.resources.map fun d => d.name).Nodup) {name : String}
    {k : Runner} : checkUse defs node name k.shape r = .ok () ↔ r.Usable defs k := by
  obtain ⟨target, index, attr⟩ := r
  cases target with
  | step target =>
    refine ⟨fun h => (by cases h), ?_⟩
    rintro ⟨d, -, ht, -⟩
    cases ht
  | resource target =>
    rw [checkUse, if_pos (by rfl)]
    dsimp only [Target.name]
    cases hf : defs.resource? target with
    | none =>
      refine ⟨fun h => (by cases h), ?_⟩
      rintro ⟨d, hm, ht, -⟩
      have hf' := (Pointwise.find?_eq_some_iff hd).2 ⟨hm, (Target.resource.inj ht).symm⟩
      cases hf.symm.trans hf'
    | some d =>
      obtain ⟨hm, rfl⟩ := (Pointwise.find?_eq_some_iff hd).1 hf
      dsimp only
      split
      next hkind => exact ⟨fun _ => ⟨d, hm, rfl, by simpa using hkind⟩, fun _ => rfl⟩
      next hkind =>
        refine ⟨fun h => (by cases h), ?_⟩
        rintro ⟨d', hm', ht, hk⟩
        rw [← List.inj_on_of_nodup_map hd hm hm' (Target.resource.inj ht)] at hk
        exact absurd (by simpa using hk) hkind

/-! ## Expressions, resources and steps -/

theorem checkVariable_eq_ok_iff {vars : VariableScope} {v : Variable} :
    checkVariable node vars v = .ok () ↔ vars.allows v = true := by
  rw [checkVariable]
  split
  next h => simp [h]
  next h => simp [h]

theorem checkExpressions_eq_ok_iff (hs : (defs.steps.map fun s => s.name).Nodup)
    {vars : VariableScope} {es : List Expression} :
    checkAll (checkExpression defs registry node vars) es = .ok () ↔
      (∀ e ∈ es, ∀ v, e.MentionsVariable v → vars.allows v = true) ∧
        ∀ e ∈ es, ∀ r, e.Mentions r → r.Readable defs registry := by
  have hone : ∀ e, checkExpression defs registry node vars e = .ok () ↔
      (∀ v, e.MentionsVariable v → vars.allows v = true) ∧
        ∀ r, e.Mentions r → r.Readable defs registry := by
    intro e
    simp only [checkExpression, check_eq_ok, checkAll_eq_ok_iff, checkVariable_eq_ok_iff,
      checkValueReference_eq_ok_iff hs, Expression.mem_loopVariables_iff, Expression.mem_references_iff]
  simp only [checkAll_eq_ok_iff, hone]
  exact ⟨fun h => ⟨fun e he => (h e he).1, fun e he => (h e he).2⟩,
    fun h e he => ⟨h.1 e he, h.2 e he⟩⟩

theorem checkArguments_eq_ok_iff {inputs : List InputSpec} {arguments : SortedMap String Expression} :
    checkArguments node inputs arguments = .ok () ↔ InputSpec.Matches inputs arguments.keys := by
  rw [checkArguments, mapError_eq_ok, InputSpec.check_eq_ok_iff]

theorem not_allows_none (v : Variable) : ¬VariableScope.none.allows v = true := by
  cases v with
  | countIndex => exact Bool.false_ne_true
  | eachKey => exact Bool.false_ne_true
  | eachValue => exact Bool.false_ne_true

theorem checkResource_eq_ok_iff (hs : (defs.steps.map fun s => s.name).Nodup)
    {d : ResourceDefinition} :
    checkResource defs registry d = .ok () ↔ d.Admissible defs registry := by
  rw [checkResource]
  cases hk : registry.kind? d.kind with
  | none =>
    refine ⟨fun h => (by cases h), fun h => ?_⟩
    obtain ⟨k, hk', -⟩ := h.registered
    cases hk.symm.trans hk'
  | some k =>
    simp only [check_eq_ok, checkArguments_eq_ok_iff, checkExpressions_eq_ok_iff hs]
    constructor
    · rintro ⟨hm, hv, hr⟩
      exact ⟨⟨k, hk, hm⟩, fun e he v hmen => not_allows_none v (hv e he v hmen), hr⟩
    · intro h
      obtain ⟨k', hk', hm⟩ := h.registered
      cases hk.symm.trans hk'
      exact ⟨hm, fun e he v hmen => absurd hmen (h.loopVariables e he v), h.reads⟩

theorem checkReplication_eq_ok_iff {s : StepDefinition} :
    checkReplication s = .ok () ↔ ¬((∃ e, s.count = some e) ∧ ∃ e, s.forEach = some e) := by
  rw [checkReplication, ← Option.isSome_iff_exists, ← Option.isSome_iff_exists, ← Bool.and_eq_true]
  split
  next h => exact ⟨fun h => (by cases h), fun hn => absurd h hn⟩
  next h => exact ⟨fun _ => h, fun _ => rfl⟩

theorem allows_ofStep_iff {s : StepDefinition}
    (h : ¬((∃ e, s.count = some e) ∧ ∃ e, s.forEach = some e)) (v : Variable) :
    (VariableScope.ofStep s).allows v = true ↔ s.Provides v := by
  rw [VariableScope.ofStep]
  cases hc : s.count with
  | some e =>
    have hf : ∀ e, s.forEach ≠ some e := fun e' hf => h ⟨⟨e, hc⟩, e', hf⟩
    cases v with
    | countIndex => simp [VariableScope.allows, StepDefinition.Provides, hc]
    | eachKey => simp [VariableScope.allows, StepDefinition.Provides, hf]
    | eachValue => simp [VariableScope.allows, StepDefinition.Provides, hf]
  | none =>
    cases hf : s.forEach with
    | some e => cases v <;> simp [VariableScope.allows, StepDefinition.Provides, hc, hf]
    | none => cases v <;> simp [VariableScope.allows, StepDefinition.Provides, hc, hf]

theorem checkStep_eq_ok_iff (hs : (defs.steps.map fun s => s.name).Nodup)
    (hd : (defs.resources.map fun d => d.name).Nodup) {s : StepDefinition} :
    checkStep defs registry s = .ok () ↔ s.Admissible defs registry := by
  rw [checkStep]
  cases hk : registry.runner? s.runner with
  | none =>
    refine ⟨fun h => (by cases h), fun h => ?_⟩
    obtain ⟨k, hk', -⟩ := h.registered
    cases hk.symm.trans hk'
  | some k =>
    simp only [check_eq_ok, checkReplication_eq_ok_iff, checkArguments_eq_ok_iff,
      checkExpressions_eq_ok_iff hs, checkAll_eq_ok_iff, checkDependency_eq_ok_iff hs,
      checkUse_eq_ok_iff hd]
    constructor
    · rintro ⟨hrep, hm, ⟨hv, hr⟩, ⟨hvo, hro⟩, hdep, huse⟩
      refine ⟨⟨k, hk, hm, huse⟩, hrep, fun e he v hmen => ?_, fun e he v hmen => ?_, ?_, hdep⟩
      · exact (allows_ofStep_iff hrep v).1 (hv e he v hmen)
      · exact not_allows_none v (hvo e he v hmen)
      · intro e he
        rcases List.mem_append.1 he with he | he
        · exact hr e he
        · exact hro e he
    · intro h
      obtain ⟨k', hk', hm, huse⟩ := h.registered
      cases hk.symm.trans hk'
      refine ⟨h.replication, hm, ⟨fun e he v hmen => ?_, fun e he => ?_⟩,
        ⟨fun e he v hmen => ?_, fun e he => ?_⟩, h.after, huse⟩
      · exact (allows_ofStep_iff h.replication v).2 (h.loopVariables e he v hmen)
      · exact h.reads e (List.mem_append_left _ he)
      · exact absurd hmen (h.outerVariables e he v)
      · exact h.reads e (List.mem_append_right _ he)

end Validation

namespace Definitions
variable {defs : Definitions} {registry : Registry}

theorem admissible_of_validate (h : defs.validate registry = .ok ()) : defs.Admissible registry := by
  simp only [validate, check_eq_ok, Validation.checkStepNames_eq_ok_iff,
    Validation.checkResourceNames_eq_ok_iff, checkAll_eq_ok_iff] at h
  obtain ⟨hs, hd, hres, hstep⟩ := h
  exact ⟨hs, hd, fun d hm => (Validation.checkResource_eq_ok_iff hs).1 (hres d hm),
    fun s hm => (Validation.checkStep_eq_ok_iff hs hd).1 (hstep s hm)⟩

theorem Admissible.validate (h : defs.Admissible registry) : defs.validate registry = .ok () := by
  have hs := h.step_names
  have hd := h.resource_names
  simp only [Definitions.validate, check_eq_ok, Validation.checkStepNames_eq_ok_iff,
    Validation.checkResourceNames_eq_ok_iff, checkAll_eq_ok_iff]
  exact ⟨hs, hd, fun d hm => (Validation.checkResource_eq_ok_iff hs).2 (h.resources d hm),
    fun s hm => (Validation.checkStep_eq_ok_iff hs hd).2 (h.steps s hm)⟩

/-- Validation accepts the admissible definitions and no others. -/
theorem validate_eq_ok_iff (defs : Definitions) (registry : Registry) :
    defs.validate registry = .ok () ↔ defs.Admissible registry :=
  ⟨admissible_of_validate, Admissible.validate⟩

end Definitions

end Workplan
