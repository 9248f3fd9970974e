import Workplan.Proofs.Expression.Reading
import Workplan.Run.Work

/-! Evaluation: an expression has a value in every scope that binds what the expression names, and so have
the arguments of a node and the instances of a step, as far as evaluation is concerned. -/
namespace Workplan
open Outcome
set_option autoImplicit false

/-- The scope binds every reference and every loop variable of an expression. -/
structure Scope.Binds (scope : Scope) (e : Expression) : Prop where
  reference : ∀ r ∈ e.references, ∃ v, scope.get? r = some v
  loopVariable : ∀ v ∈ e.loopVariables, ∃ x, scope.vars.get? v = some x

theorem Expression.exists_evaluate {scope : Scope} {e : Expression} (h : scope.Binds e) :
    ∃ v, e.evaluate scope = .ok v :=
  exists_evaluate_iff.2 ⟨h.reference, h.loopVariable⟩

/-! ## Inputs and instances -/

namespace Work
variable {scope : Scope}

theorem exists_evaluateEach {entries : List (String × Expression)}
    (h : ∀ e ∈ entries, scope.Binds e.2) : ∃ vs, evaluateEach scope entries = .ok vs := by
  induction entries with
  | nil => exact ⟨[], rfl⟩
  | cons e rest ih =>
    obtain ⟨v, hv⟩ := Expression.exists_evaluate (h e List.mem_cons_self)
    obtain ⟨vs, hvs⟩ := ih fun x hx => h x (List.mem_cons_of_mem e hx)
    exact ⟨(e.1, v) :: vs, bind_eq_ok.2 ⟨v, hv, bind_eq_ok.2 ⟨vs, hvs, rfl⟩⟩⟩

theorem exists_mismatch {inputs : List InputSpec} {arguments : SortedMap String Expression}
    (h : ∀ e ∈ arguments.values, scope.Binds e) {e : RunError}
    (he : input inputs arguments scope = .error e) : ∃ m, e = .inputType m := by
  have hentries : ∀ x ∈ arguments.toList, scope.Binds x.2 := fun x hx =>
    h x.2 (List.mem_map_of_mem hx)
  obtain ⟨vs, hvs⟩ := exists_evaluateEach hentries
  rw [input, hvs] at he
  change ((InputSpec.coerceArguments inputs vs).mapError RunError.inputType >>= _) = _ at he
  cases hc : InputSpec.coerceArguments inputs vs with
  | ok ws =>
    rw [hc] at he
    cases he
  | error m =>
    rw [hc] at he
    cases he
    exact ⟨m, rfl⟩

theorem instances_cases {replication : Replication} (step : String)
    (h : ∀ e, replication.expression? = some e → scope.Binds e) :
    (∃ v, instances replication step scope = (replication.expand step v).mapError .count) ∨
      instances replication step scope = .ok [] := by
  rw [instances]
  cases he : replication.expression? with
  | none => exact .inr rfl
  | some e =>
    obtain ⟨v, hv⟩ := Expression.exists_evaluate (h e he)
    refine .inl ⟨v, ?_⟩
    dsimp only
    rw [hv]
    rfl

end Work

end Workplan
