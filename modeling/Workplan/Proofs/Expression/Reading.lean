import Workplan.Expression.Evaluation
import Workplan.Proofs.Outcome

/-! Reading: what evaluation takes from a scope. The placeholders of an expression are listed from left
to right, references and loop variables together, and a computation that can fail is followed by its
error alone (`Outcome.fault?`). Then one equation says everything about failure: the error of an
evaluation is that of the first placeholder without a value (`Expression.fault?_evaluate`). -/
namespace Workplan
open Outcome
set_option autoImplicit false

/-! ## Placeholders -/

/-- What an expression can ask of a scope. -/
inductive Placeholder where
  | reference (r : Reference)
  | variable (v : Variable)
deriving DecidableEq, Repr

namespace Placeholder

/-- The reference of a placeholder, if it is one. -/
def reference? : Placeholder → Option Reference
  | .reference r => some r
  | .variable _ => none

/-- The variable of a placeholder, if it is one. -/
def loopVariable? : Placeholder → Option Variable
  | .reference _ => none
  | .variable v => some v

/-- The value that a scope has for a placeholder. -/
def value? (scope : Scope) : Placeholder → Option Value
  | .reference r => scope.get? r
  | .variable v => scope.vars.get? v

/-- The error that names a placeholder. -/
def unbound : Placeholder → EvalError
  | .reference r => .unresolvedReference r.text
  | .variable v => .unboundVariable v.text

/-- The value of a placeholder, or the error that names it. -/
def evaluate (scope : Scope) (p : Placeholder) : Except EvalError Value :=
  match p.value? scope with
  | some v => .ok v
  | none => .error p.unbound

theorem resolve_eq (scope : Scope) (r : Reference) :
    scope.resolve r = evaluate scope (.reference r) := by
  unfold evaluate Scope.resolve
  rfl

theorem valueOf_eq (scope : Scope) (v : Variable) :
    scope.valueOf v = evaluate scope (.variable v) := by
  unfold evaluate Scope.valueOf
  rfl

end Placeholder

/-- The placeholder of a segment, if it is none of text. -/
def Segment.placeholder? : Segment → Option Placeholder
  | .text _ => none
  | .reference r => some (.reference r)
  | .variable v => some (.variable v)

namespace Expression

mutual

/-- Every occurrence of a placeholder, from left to right. -/
def placeholders : Expression → List Placeholder
  | .literal _ => []
  | .reference r => [.reference r]
  | .variable v => [.variable v]
  | .template segments => segments.filterMap Segment.placeholder?
  | .list items => placeholdersOfItems items
  | .map entries => placeholdersOfEntries entries

/-- Every occurrence of a placeholder in a list of expressions. -/
def placeholdersOfItems : List Expression → List Placeholder
  | [] => []
  | e :: rest => e.placeholders ++ placeholdersOfItems rest

/-- Every occurrence of a placeholder in the entries of a map, which stand in ascending key order. -/
def placeholdersOfEntries : List (String × Expression) → List Placeholder
  | [] => []
  | (_, e) :: rest => e.placeholders ++ placeholdersOfEntries rest

end

/-! ### References and variables among the placeholders -/

theorem filterMap_reference? (segments : List Segment) :
    (segments.filterMap Segment.placeholder?).filterMap Placeholder.reference? =
      segments.filterMap segmentReference? := by
  rw [List.filterMap_filterMap]
  congr 1
  funext segment
  cases segment <;> rfl

theorem filterMap_loopVariable? (segments : List Segment) :
    (segments.filterMap Segment.placeholder?).filterMap Placeholder.loopVariable? =
      segments.filterMap segmentVariable? := by
  rw [List.filterMap_filterMap]
  congr 1
  funext segment
  cases segment <;> rfl

mutual

theorem referenceOccurrences_eq : ∀ e : Expression,
    e.referenceOccurrences = e.placeholders.filterMap Placeholder.reference?
  | .literal _ => rfl
  | .reference _ => rfl
  | .variable _ => rfl
  | .template segments => (filterMap_reference? segments).symm
  | .list items => referenceOccurrencesOfItems_eq items
  | .map entries => referenceOccurrencesOfEntries_eq entries

theorem referenceOccurrencesOfItems_eq : ∀ items : List Expression,
    referenceOccurrencesOfItems items =
      (placeholdersOfItems items).filterMap Placeholder.reference?
  | [] => rfl
  | e :: rest => by
    rw [referenceOccurrencesOfItems, placeholdersOfItems, List.filterMap_append,
      referenceOccurrences_eq e, referenceOccurrencesOfItems_eq rest]

theorem referenceOccurrencesOfEntries_eq : ∀ entries : List (String × Expression),
    referenceOccurrencesOfEntries entries =
      (placeholdersOfEntries entries).filterMap Placeholder.reference?
  | [] => rfl
  | (_, e) :: rest => by
    rw [referenceOccurrencesOfEntries, placeholdersOfEntries, List.filterMap_append,
      referenceOccurrences_eq e, referenceOccurrencesOfEntries_eq rest]

end

mutual

theorem variableOccurrences_eq : ∀ e : Expression,
    e.variableOccurrences = e.placeholders.filterMap Placeholder.loopVariable?
  | .literal _ => rfl
  | .reference _ => rfl
  | .variable _ => rfl
  | .template segments => (filterMap_loopVariable? segments).symm
  | .list items => variableOccurrencesOfItems_eq items
  | .map entries => variableOccurrencesOfEntries_eq entries

theorem variableOccurrencesOfItems_eq : ∀ items : List Expression,
    variableOccurrencesOfItems items = (placeholdersOfItems items).filterMap Placeholder.loopVariable?
  | [] => rfl
  | e :: rest => by
    rw [variableOccurrencesOfItems, placeholdersOfItems, List.filterMap_append,
      variableOccurrences_eq e, variableOccurrencesOfItems_eq rest]

theorem variableOccurrencesOfEntries_eq : ∀ entries : List (String × Expression),
    variableOccurrencesOfEntries entries =
      (placeholdersOfEntries entries).filterMap Placeholder.loopVariable?
  | [] => rfl
  | (_, e) :: rest => by
    rw [variableOccurrencesOfEntries, placeholdersOfEntries, List.filterMap_append,
      variableOccurrences_eq e, variableOccurrencesOfEntries_eq rest]

end

theorem mem_distinct {α : Type} [DecidableEq α] {l : List α} {a : α} : a ∈ distinct l ↔ a ∈ l := by
  induction l with
  | nil => exact .rfl
  | cons b l ih =>
    rw [distinct, List.mem_cons, List.mem_cons, List.mem_filter, ih]
    by_cases h : a = b
    · simp [h]
    · simp [h]

theorem forall_placeholders {e : Expression} {P : Placeholder → Prop} :
    (∀ p ∈ e.placeholders, P p) ↔
      (∀ r ∈ e.references, P (.reference r)) ∧ ∀ v ∈ e.loopVariables, P (.variable v) := by
  simp only [references, loopVariables, mem_distinct, referenceOccurrences_eq, variableOccurrences_eq,
    List.mem_filterMap]
  constructor
  · refine fun h => ⟨fun r hr => ?_, fun v hv => ?_⟩
    · obtain ⟨p, hp, he⟩ := hr
      cases p with
      | reference r' =>
        cases he
        exact h _ hp
      | «variable» v => cases he
    · obtain ⟨p, hp, he⟩ := hv
      cases p with
      | reference r => cases he
      | «variable» v' =>
        cases he
        exact h _ hp
  · intro h p hp
    cases p with
    | reference r => exact h.1 r ⟨_, hp, rfl⟩
    | «variable» v => exact h.2 v ⟨_, hp, rfl⟩

end Expression

/-! ## Failure -/

def Scope.missing? (scope : Scope) (ps : List Placeholder) : Option Placeholder :=
  ps.find? fun p => (p.value? scope).isNone

variable {scope : Scope}

theorem Scope.missing?_append (ps qs : List Placeholder) :
    scope.missing? (ps ++ qs) = (scope.missing? ps).or (scope.missing? qs) :=
  List.find?_append

theorem Placeholder.fault?_evaluate (p : Placeholder) :
    fault? (p.evaluate scope) = (scope.missing? [p]).map unbound := by
  rw [evaluate, Scope.missing?]
  cases h : p.value? scope <;> simp [fault?, h]

theorem Segment.fault?_evaluate (segment : Segment) :
    fault? (segment.evaluate scope) =
      (scope.missing? segment.placeholder?.toList).map Placeholder.unbound := by
  cases segment with
  | text s => rfl
  | reference r =>
    rw [evaluate, fault?_map, Placeholder.resolve_eq, Placeholder.fault?_evaluate]
    rfl
  | «variable» v =>
    rw [evaluate, fault?_map, Placeholder.valueOf_eq, Placeholder.fault?_evaluate]
    rfl

theorem Segment.fault?_evaluateAll (segments : List Segment) :
    fault? (evaluateAll scope segments) =
      (scope.missing? (segments.filterMap placeholder?)).map Placeholder.unbound := by
  induction segments with
  | nil => rfl
  | cons segment rest ih =>
    have happend : (segment :: rest).filterMap placeholder? =
        segment.placeholder?.toList ++ rest.filterMap placeholder? := by
      rw [List.filterMap_cons]
      cases segment.placeholder? <;> rfl
    rw [evaluateAll, fault?_pair, fault?_evaluate, ih, happend, Scope.missing?_append, Option.map_or]

namespace Expression

mutual

/-- An evaluation fails because of the first placeholder without a value. -/
theorem fault?_evaluate : ∀ e : Expression,
    fault? (e.evaluate scope) = (scope.missing? e.placeholders).map Placeholder.unbound
  | .literal _ => rfl
  | .reference r => by
    rw [evaluate, Placeholder.resolve_eq, Placeholder.fault?_evaluate, placeholders]
  | .variable v => by
    rw [evaluate, Placeholder.valueOf_eq, Placeholder.fault?_evaluate, placeholders]
  | .template segments => by
    rw [evaluate, fault?_map, Segment.fault?_evaluateAll, placeholders]
  | .list items => by rw [evaluate, fault?_map, fault?_evaluateItems items, placeholders]
  | .map entries => by rw [evaluate, fault?_map, fault?_evaluateEntries entries, placeholders]

theorem fault?_evaluateItems : ∀ items : List Expression,
    fault? (evaluateItems scope items) =
      (scope.missing? (placeholdersOfItems items)).map Placeholder.unbound
  | [] => rfl
  | e :: rest => by
    rw [evaluateItems, fault?_pair, fault?_evaluate e, fault?_evaluateItems rest, placeholdersOfItems,
      Scope.missing?_append, Option.map_or]

theorem fault?_evaluateEntries : ∀ entries : List (String × Expression),
    fault? (evaluateEntries scope entries) =
      (scope.missing? (placeholdersOfEntries entries)).map Placeholder.unbound
  | [] => rfl
  | (k, e) :: rest => by
    rw [evaluateEntries, fault?_pair, fault?_evaluate e, fault?_evaluateEntries rest,
      placeholdersOfEntries, Scope.missing?_append, Option.map_or]

end

theorem exists_evaluate_iff {e : Expression} : (∃ v, e.evaluate scope = .ok v) ↔
    (∀ r ∈ e.references, ∃ v, scope.get? r = some v) ∧
      ∀ x ∈ e.loopVariables, ∃ v, scope.vars.get? x = some v := by
  have hplace := forall_placeholders (e := e) (P := fun p => ∃ v, p.value? scope = some v)
  refine Iff.trans ?_ hplace
  rw [← fault?_eq_none, fault?_evaluate, Option.map_eq_none_iff, Scope.missing?, List.find?_eq_none]
  refine forall₂_congr fun p _ => ?_
  cases p.value? scope <;> simp

theorem evaluate_eq_error {e : Expression} {err : EvalError} : e.evaluate scope = .error err ↔
    ∃ before p after, e.placeholders = before ++ p :: after ∧
      (∀ q ∈ before, ∃ v, q.value? scope = some v) ∧ p.value? scope = none ∧ err = p.unbound := by
  rw [← fault?_eq_some, fault?_evaluate, Option.map_eq_some_iff]
  simp only [Scope.missing?, List.find?_eq_some_iff_append]
  constructor
  · rintro ⟨p, ⟨hp, before, after, hsplit, hbefore⟩, rfl⟩
    refine ⟨before, p, after, hsplit, fun q hq => ?_, by simpa using hp, rfl⟩
    exact Option.isSome_iff_exists.1 (by simpa [Option.isNone_iff_eq_none] using hbefore q hq)
  · rintro ⟨before, p, after, hsplit, hbefore, hp, rfl⟩
    refine ⟨p, ⟨by simp [hp], before, after, hsplit, fun q hq => ?_⟩, rfl⟩
    obtain ⟨v, hv⟩ := hbefore q hq
    simp [hv]

end Expression

/-! ## Agreement -/

variable {scope' : Scope}

theorem Placeholder.evaluate_congr {p : Placeholder} (h : p.value? scope = p.value? scope') :
    p.evaluate scope = p.evaluate scope' := by
  rw [evaluate, evaluate, h]

theorem Segment.evaluateAll_congr {segments : List Segment}
    (h : ∀ p ∈ segments.filterMap placeholder?, p.value? scope = p.value? scope') :
    evaluateAll scope segments = evaluateAll scope' segments := by
  induction segments with
  | nil => rfl
  | cons segment rest ih =>
    have hfirst : segment.evaluate scope = segment.evaluate scope' := by
      cases segment with
      | text s => rfl
      | reference r =>
        rw [evaluate, evaluate, Placeholder.resolve_eq, Placeholder.resolve_eq,
          Placeholder.evaluate_congr (h (.reference r) (by simp [placeholder?]))]
      | «variable» v =>
        rw [evaluate, evaluate, Placeholder.valueOf_eq, Placeholder.valueOf_eq,
          Placeholder.evaluate_congr (h (.variable v) (by simp [placeholder?]))]
    have hrest : evaluateAll scope rest = evaluateAll scope' rest := by
      apply ih
      intro p hp
      obtain ⟨s, hs, he⟩ := List.mem_filterMap.1 hp
      exact h p (List.mem_filterMap.2 ⟨s, List.mem_cons_of_mem segment hs, he⟩)
    rw [evaluateAll, evaluateAll, hfirst, hrest]

namespace Expression

mutual

theorem evaluate_congr : ∀ e : Expression,
    (∀ p ∈ e.placeholders, p.value? scope = p.value? scope') → e.evaluate scope = e.evaluate scope'
  | .literal _, _ => rfl
  | .reference r, h => by
    rw [evaluate, evaluate, Placeholder.resolve_eq, Placeholder.resolve_eq,
      Placeholder.evaluate_congr (h _ List.mem_cons_self)]
  | .variable v, h => by
    rw [evaluate, evaluate, Placeholder.valueOf_eq, Placeholder.valueOf_eq,
      Placeholder.evaluate_congr (h _ List.mem_cons_self)]
  | .template segments, h => by rw [evaluate, evaluate, Segment.evaluateAll_congr h]
  | .list items, h => by rw [evaluate, evaluate, evaluateItems_congr items h]
  | .map entries, h => by rw [evaluate, evaluate, evaluateEntries_congr entries h]

theorem evaluateItems_congr : ∀ items : List Expression,
    (∀ p ∈ placeholdersOfItems items, p.value? scope = p.value? scope') →
      evaluateItems scope items = evaluateItems scope' items
  | [], _ => rfl
  | e :: rest, h => by
    rw [evaluateItems, evaluateItems, evaluate_congr e fun p hp => h p (List.mem_append_left _ hp),
      evaluateItems_congr rest fun p hp => h p (List.mem_append_right _ hp)]

theorem evaluateEntries_congr : ∀ entries : List (String × Expression),
    (∀ p ∈ placeholdersOfEntries entries, p.value? scope = p.value? scope') →
      evaluateEntries scope entries = evaluateEntries scope' entries
  | [], _ => rfl
  | (k, e) :: rest, h => by
    rw [evaluateEntries, evaluateEntries,
      evaluate_congr e fun p hp => h p (List.mem_append_left _ hp),
      evaluateEntries_congr rest fun p hp => h p (List.mem_append_right _ hp)]

end

theorem exists_constant {e : Expression} (hs : e.isStatic = true) (hv : e.loopVariables = []) :
    ∃ v, ∀ scope, e.evaluate scope = .ok v := by
  have hr : e.references = [] := List.isEmpty_iff.1 hs
  have hnone : ∀ {P : Placeholder → Prop}, ∀ p ∈ e.placeholders, P p :=
    fun {P} => forall_placeholders.2 ⟨by simp [hr], by simp [hv]⟩
  obtain ⟨v, h⟩ : ∃ v, e.evaluate Scope.empty = .ok v :=
    exists_evaluate_iff.2 ⟨by simp [hr], by simp [hv]⟩
  exact ⟨v, fun scope => (evaluate_congr e hnone).trans h⟩

/-! ## What is read -/

/-- Evaluation reads the references and the loop variables of an expression, and nothing else. -/
structure ReadsExactly (e : Expression) : Prop where
  value : ∀ scope, (∃ v, e.evaluate scope = .ok v) ↔
    (∀ r ∈ e.references, ∃ v, scope.get? r = some v) ∧
      ∀ x ∈ e.loopVariables, ∃ v, scope.vars.get? x = some v
  /-- The error names the first placeholder without a value. -/
  fault : ∀ scope err, e.evaluate scope = .error err ↔ ∃ before p after,
    e.placeholders = before ++ p :: after ∧ (∀ q ∈ before, ∃ v, q.value? scope = some v) ∧
      p.value? scope = none ∧ err = p.unbound
  references_eq : e.references = distinct (e.placeholders.filterMap Placeholder.reference?)
  loopVariables_eq : e.loopVariables = distinct (e.placeholders.filterMap Placeholder.loopVariable?)
  agree : ∀ scope scope', (∀ r ∈ e.references, scope.get? r = scope'.get? r) →
    (∀ x ∈ e.loopVariables, scope.vars.get? x = scope'.vars.get? x) →
      e.evaluate scope = e.evaluate scope'
  constant : e.isStatic = true → e.loopVariables = [] → ∃ v, ∀ scope, e.evaluate scope = .ok v

theorem readsExactly (e : Expression) : e.ReadsExactly where
  value _ := exists_evaluate_iff
  fault _ _ := evaluate_eq_error
  references_eq := by rw [references, referenceOccurrences_eq]
  loopVariables_eq := by rw [loopVariables, variableOccurrences_eq]
  agree _ _ hr hv := evaluate_congr e (forall_placeholders.2 ⟨hr, hv⟩)
  constant := exists_constant

/-- A variable in a template, and a reference behind it. -/
def mixed : Expression :=
  .list [.map [("k", .template [.text "x", .variable .eachKey])], .reference (Reference.step "a")]

/-- The variable is missing before the reference is, and without both there is one value. -/
theorem evaluate_mixed :
    mixed.evaluate Scope.empty = .error (.unboundVariable "each.key") ∧
    ∃ v, ∀ scope, (Expression.list [.map [("k", .template [.text "x"])]]).evaluate scope = .ok v := by
  have hmixed := readsExactly mixed
  refine ⟨(hmixed.fault _ _).2 ⟨[], .variable .eachKey, _, rfl, by simp, rfl, rfl⟩, ?_⟩
  exact (readsExactly _).constant rfl rfl

end Expression

end Workplan
