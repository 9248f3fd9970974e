import Workplan.Proofs.Coercion
import Workplan.Proofs.Evaluation
import Workplan.Proofs.Graph.Acceptance

/-! Inputs: what the handler of a step or of a creation is called with. The arguments of a node have an
input exactly when each of them can be evaluated and converted; the input then has the names of the
arguments, and under each a value of the declared kind. Otherwise there is one fault that counts: the
first argument, in the order of names, that cannot be evaluated, and if there is none, the first that
cannot be converted. Arguments that have been converted are converted to themselves
(`ValueKind.coerce_sound`). -/
namespace Workplan
open Outcome
set_option autoImplicit false

/-! ## Inputs and faults -/

namespace Work
variable {inputs : List InputSpec} {arguments : SortedMap String Expression} {scope : Scope}

/-- The input that declared inputs and arguments ask for. -/
def WellTyped (inputs : List InputSpec) (arguments : SortedMap String Expression) (input : Value) :
    Prop :=
  ∃ entries, input = .map entries ∧ entries.map Prod.fst = arguments.keys ∧
    InputSpec.Matches inputs arguments.keys ∧ ∀ e ∈ entries, ∃ i,
      inputs.find? (fun i => i.name = e.1) = some i ∧ i.kind.Admits e.2

/-- Why arguments have no input. -/
inductive Fault (inputs : List InputSpec) (arguments : SortedMap String Expression) (scope : Scope) :
    RunError → Prop where
  | evaluation {name : String} {e : Expression} {err : EvalError}
    (h : arguments.get? name = some e) (he : e.evaluate scope = .error err)
    (hfirst : ∀ n e', arguments.get? n = some e' → n < name → ∃ v, e'.evaluate scope = .ok v) :
    Fault inputs arguments scope (.eval err)
  | conversion {name : String} {e : Expression} {v : Value}
    (hall : ∀ n e', arguments.get? n = some e' → ∃ w, e'.evaluate scope = .ok w)
    (h : arguments.get? name = some e) (he : e.evaluate scope = .ok v)
    (hv : (InputSpec.kindOf inputs name).coerce v = none)
    (hfirst : ∀ n e' w, arguments.get? n = some e' → n < name → e'.evaluate scope = .ok w →
      (InputSpec.kindOf inputs n).coerce w ≠ none) :
    Fault inputs arguments scope (.inputType ⟨name, InputSpec.kindOf inputs name, v.typeName⟩)

/-! ### Loops over arguments -/

def evaluateOne (scope : Scope) (a : String × Expression) : Except EvalError (String × Value) :=
  (a.2.evaluate scope).map fun v => (a.1, v)

def coerceOne (inputs : List InputSpec) (a : String × Value) :
    Except InputMismatch (String × Value) :=
  (InputSpec.coerceArgument inputs a.1 a.2).map fun v => (a.1, v)

theorem evaluateEach_eq_mapM (l : List (String × Expression)) :
    evaluateEach scope l = l.mapM (evaluateOne scope) := by
  induction l with
  | nil => rfl
  | cons a l ih =>
    rw [List.mapM_cons, ← ih, evaluateEach, evaluateOne]
    cases a.2.evaluate scope <;> rfl

theorem coerceArguments_eq_mapM (l : List (String × Value)) :
    InputSpec.coerceArguments inputs l = l.mapM (coerceOne inputs) := by
  induction l with
  | nil => rfl
  | cons a l ih =>
    rw [List.mapM_cons, ← ih, InputSpec.coerceArguments, coerceOne]
    cases InputSpec.coerceArgument inputs a.1 a.2 <;> rfl

theorem coerceArgument_eq_ok {name : String} {v w : Value} :
    InputSpec.coerceArgument inputs name v = .ok w ↔
      (InputSpec.kindOf inputs name).coerce v = some w := by
  rw [InputSpec.coerceArgument]
  cases (InputSpec.kindOf inputs name).coerce v <;> simp

theorem coerceArgument_eq_error {name : String} {v : Value} {m : InputMismatch} :
    InputSpec.coerceArgument inputs name v = .error m ↔
      (InputSpec.kindOf inputs name).coerce v = none ∧
        m = ⟨name, InputSpec.kindOf inputs name, v.typeName⟩ := by
  rw [InputSpec.coerceArgument]
  cases (InputSpec.kindOf inputs name).coerce v with
  | none => simp [eq_comm]
  | some w => simp

theorem lt_iff_of_split {α : Type} {l before after : List (String × α)} {a : String × α}
    (hl : l.Pairwise fun x y => x.1 < y.1) (h : l = before ++ a :: after) {x : String × α}
    (hx : x ∈ l) : x.1 < a.1 ↔ x ∈ before := by
  subst h
  obtain ⟨-, hafter, hbefore⟩ := List.pairwise_append.1 hl
  constructor
  · intro hlt
    rcases List.mem_append.1 hx with hx | hx
    · exact hx
    · rcases List.mem_cons.1 hx with rfl | hx
      · exact absurd hlt (String.lt_irrefl _)
      · have hgt := (List.pairwise_cons.1 hafter).1 x hx
        exact absurd (String.lt_trans hlt hgt) (String.lt_irrefl _)
  · exact fun hx => hbefore x hx a List.mem_cons_self

/-! ### The two parts of an input -/

theorem forall₂_of_evaluateEach {values : List (String × Value)}
    (h : evaluateEach scope arguments.toList = .ok values) :
    List.Forall₂ (fun a b => b.1 = a.1 ∧ a.2.evaluate scope = .ok b.2) arguments.toList values := by
  rw [evaluateEach_eq_mapM, mapM_eq_ok] at h
  refine h.imp fun a b hab => ?_
  obtain ⟨v, hv, rfl⟩ := map_eq_ok.1 hab
  exact ⟨rfl, hv⟩

theorem coerceArguments_eq_ok_iff {values entries : List (String × Value)} :
    InputSpec.coerceArguments inputs values = .ok entries ↔
      List.Forall₂ (fun a b => b.1 = a.1 ∧ (InputSpec.kindOf inputs a.1).coerce a.2 = some b.2)
        values entries := by
  rw [coerceArguments_eq_mapM, mapM_eq_ok]
  constructor
  · refine fun h => h.imp fun a b hab => ?_
    obtain ⟨v, hv, rfl⟩ := map_eq_ok.1 hab
    exact ⟨rfl, coerceArgument_eq_ok.1 hv⟩
  · refine fun h => h.imp fun a b hab => map_eq_ok.2 ⟨b.2, coerceArgument_eq_ok.2 hab.2, ?_⟩
    rw [← hab.1]

theorem evaluateEach_eq_error {err : EvalError} :
    evaluateEach scope arguments.toList = .error err ↔ ∃ name e, arguments.get? name = some e ∧
      e.evaluate scope = .error err ∧
      ∀ n e', arguments.get? n = some e' → n < name → ∃ v, e'.evaluate scope = .ok v := by
  rw [evaluateEach_eq_mapM, mapM_eq_error]
  constructor
  · rintro ⟨before, ⟨name, e⟩, after, hsplit, hbefore, he⟩
    have hmem : (name, e) ∈ arguments.toList := by
      rw [hsplit]
      exact List.mem_append_right before List.mem_cons_self
    refine ⟨name, e, (arguments.mem_toList_iff name e).1 hmem, map_eq_error.1 he, fun n e' hn hlt => ?_⟩
    have hn' := (arguments.mem_toList_iff n e').2 hn
    obtain ⟨b, hb⟩ := hbefore _ ((lt_iff_of_split arguments.sorted hsplit hn').1 hlt)
    obtain ⟨v, hv, -⟩ := map_eq_ok.1 hb
    exact ⟨v, hv⟩
  · rintro ⟨name, e, hn, he, hfirst⟩
    obtain ⟨before, after, hsplit⟩ :=
      List.append_of_mem ((arguments.mem_toList_iff name e).2 hn)
    refine ⟨before, (name, e), after, hsplit, fun x hx => ?_, map_eq_error.2 he⟩
    have hmem : x ∈ arguments.toList := by
      rw [hsplit]
      exact List.mem_append_left _ hx
    obtain ⟨v, hv⟩ := hfirst x.1 x.2 ((arguments.mem_toList_iff x.1 x.2).1 hmem)
      ((lt_iff_of_split arguments.sorted hsplit hmem).2 hx)
    exact ⟨(x.1, v), map_eq_ok.2 ⟨v, hv, rfl⟩⟩

/-- The values of arguments that can all be evaluated. -/
structure Values (arguments : SortedMap String Expression) (scope : Scope)
    (values : List (String × Value)) : Prop where
  names : values.map Prod.fst = arguments.keys
  mem : ∀ {name v}, (name, v) ∈ values ↔
    ∃ e, arguments.get? name = some e ∧ e.evaluate scope = .ok v

theorem values_of_evaluateEach {values : List (String × Value)}
    (h : evaluateEach scope arguments.toList = .ok values) : Values arguments scope values := by
  have hall := forall₂_of_evaluateEach h
  constructor
  case names => exact Pointwise.map_eq_map (hall.imp fun a b hab => hab.1)
  case mem =>
    intro name v
    constructor
    · intro hv
      obtain ⟨a, ha, hname, he⟩ := Pointwise.exists_left hall hv
      cases hname
      exact ⟨a.2, (arguments.mem_toList_iff a.1 a.2).1 ha, he⟩
    · rintro ⟨e, hn, he⟩
      obtain ⟨b, hb, hname, he'⟩ :=
        Pointwise.exists_right hall ((arguments.mem_toList_iff name e).2 hn)
      cases he.symm.trans he'
      cases hname
      exact hb

theorem Values.sorted {values : List (String × Value)} (h : Values arguments scope values) :
    values.Pairwise fun a b => a.1 < b.1 := by
  refine List.pairwise_map.1 ?_
  rw [h.names]
  exact List.pairwise_map.2 arguments.sorted

theorem Values.evaluated {values : List (String × Value)} (h : Values arguments scope values)
    (n : String) (e : Expression) (hn : arguments.get? n = some e) :
    ∃ w, e.evaluate scope = .ok w := by
  have hkey : n ∈ values.map Prod.fst := by
    rw [h.names]
    exact List.mem_map_of_mem ((arguments.mem_toList_iff n e).2 hn)
  obtain ⟨a, ha, rfl⟩ := List.mem_map.1 hkey
  obtain ⟨e', hn', he⟩ := h.mem.1 ha
  cases hn.symm.trans hn'
  exact ⟨a.2, he⟩

theorem coerceArguments_eq_error {values : List (String × Value)}
    (hv : Values arguments scope values) {m : InputMismatch} :
    InputSpec.coerceArguments inputs values = .error m ↔ ∃ name e v, arguments.get? name = some e ∧
      e.evaluate scope = .ok v ∧ (InputSpec.kindOf inputs name).coerce v = none ∧
      (∀ n e' w, arguments.get? n = some e' → n < name → e'.evaluate scope = .ok w →
        (InputSpec.kindOf inputs n).coerce w ≠ none) ∧
      m = ⟨name, InputSpec.kindOf inputs name, v.typeName⟩ := by
  rw [coerceArguments_eq_mapM, mapM_eq_error]
  constructor
  · rintro ⟨before, ⟨name, v⟩, after, hsplit, hbefore, herr⟩
    have hmem : (name, v) ∈ values := by
      rw [hsplit]
      exact List.mem_append_right before List.mem_cons_self
    obtain ⟨e, hn, he⟩ := hv.mem.1 hmem
    obtain ⟨hnone, hm⟩ := coerceArgument_eq_error.1 (map_eq_error.1 herr)
    refine ⟨name, e, v, hn, he, hnone, fun n e' w hn' hlt hw => ?_, hm⟩
    have hin := hv.mem.2 ⟨e', hn', hw⟩
    obtain ⟨b, hb⟩ := hbefore _ ((lt_iff_of_split hv.sorted hsplit hin).1 hlt)
    obtain ⟨x, hx, -⟩ := map_eq_ok.1 hb
    rw [coerceArgument_eq_ok.1 hx]
    exact Option.some_ne_none x
  · rintro ⟨name, e, v, hn, he, hnone, hfirst, hm⟩
    obtain ⟨before, after, hsplit⟩ := List.append_of_mem (hv.mem.2 ⟨e, hn, he⟩)
    refine ⟨before, (name, v), after, hsplit, fun x hx => ?_,
      map_eq_error.2 (coerceArgument_eq_error.2 ⟨hnone, hm⟩)⟩
    have hmem : x ∈ values := by
      rw [hsplit]
      exact List.mem_append_left _ hx
    obtain ⟨e', hn', hw⟩ := hv.mem.1 hmem
    have hsome := hfirst x.1 e' x.2 hn' ((lt_iff_of_split hv.sorted hsplit hmem).2 hx) hw
    obtain ⟨y, hy⟩ := Option.ne_none_iff_exists'.1 hsome
    exact ⟨(x.1, y), map_eq_ok.2 ⟨y, coerceArgument_eq_ok.2 hy, rfl⟩⟩

/-! ### Inputs -/

theorem input_eq_ok {v : Value} : input inputs arguments scope = .ok v ↔
    ∃ values entries, evaluateEach scope arguments.toList = .ok values ∧
      InputSpec.coerceArguments inputs values = .ok entries ∧ v = .map entries := by
  rw [input, bind_eq_ok]
  constructor
  · rintro ⟨values, hvalues, h⟩
    obtain ⟨entries, hentries, h⟩ := bind_eq_ok.1 h
    cases h
    exact ⟨values, entries, mapError_eq_ok.1 hvalues, mapError_eq_ok.1 hentries, rfl⟩
  · rintro ⟨values, entries, hvalues, hentries, rfl⟩
    exact ⟨values, mapError_eq_ok.2 hvalues,
      bind_eq_ok.2 ⟨entries, mapError_eq_ok.2 hentries, rfl⟩⟩

theorem wellTyped_of_input {v : Value} (hm : InputSpec.Matches inputs arguments.keys)
    (h : input inputs arguments scope = .ok v) : WellTyped inputs arguments v := by
  obtain ⟨values, entries, hvalues, hentries, rfl⟩ := input_eq_ok.1 h
  have hv := values_of_evaluateEach hvalues
  have hall := coerceArguments_eq_ok_iff.1 hentries
  have hnames : entries.map Prod.fst = arguments.keys :=
    (Pointwise.map_eq_map (hall.imp fun a b hab => hab.1)).trans hv.names
  refine ⟨entries, rfl, hnames, hm, fun e he => ?_⟩
  obtain ⟨a, -, hname, hcoerce⟩ := Pointwise.exists_left hall he
  have hkey : e.1 ∈ arguments.keys := hnames ▸ List.mem_map_of_mem he
  obtain ⟨i, hi, hin⟩ := hm.declared e.1 hkey
  cases hfind : inputs.find? fun i => i.name = e.1 with
  | none => exact absurd hin (by simpa using List.find?_eq_none.1 hfind i hi)
  | some j =>
    refine ⟨j, rfl, ?_⟩
    rw [← hname, InputSpec.kindOf, hfind] at hcoerce
    exact ValueKind.admits_of_coerce hcoerce

theorem input_eq_error_iff {e : RunError} :
    input inputs arguments scope = .error e ↔ Fault inputs arguments scope e := by
  rw [input, bind_eq_error]
  constructor
  · rintro (h | ⟨values, hvalues, h⟩)
    · obtain ⟨err, herr, rfl⟩ := mapError_eq_error.1 h
      obtain ⟨name, x, hn, hx, hfirst⟩ := evaluateEach_eq_error.1 herr
      exact .evaluation hn hx hfirst
    · have hv := values_of_evaluateEach (mapError_eq_ok.1 hvalues)
      rcases bind_eq_error.1 h with h | ⟨entries, -, h⟩
      · obtain ⟨m, hm, rfl⟩ := mapError_eq_error.1 h
        obtain ⟨name, x, v, hn, hx, hnone, hfirst, rfl⟩ := (coerceArguments_eq_error hv).1 hm
        exact .conversion hv.evaluated hn hx hnone hfirst
      · cases h
  · rintro (⟨hn, hx, hfirst⟩ | ⟨hall, hn, hx, hnone, hfirst⟩)
    · exact .inl (mapError_eq_error.2 ⟨_, evaluateEach_eq_error.2 ⟨_, _, hn, hx, hfirst⟩, rfl⟩)
    · cases hvalues : evaluateEach scope arguments.toList with
      | error err =>
        obtain ⟨name, x, hn, hx, -⟩ := evaluateEach_eq_error.1 hvalues
        obtain ⟨v, hv⟩ := hall name x hn
        cases hx.symm.trans hv
      | ok values =>
        have hm := (coerceArguments_eq_error (values_of_evaluateEach hvalues)).2
          ⟨_, _, _, hn, hx, hnone, hfirst, rfl⟩
        exact .inr ⟨values, rfl, bind_eq_error.2 (.inl (mapError_eq_error.2 ⟨_, hm, rfl⟩))⟩

end Work

/-! ## Converting again -/

theorem InputSpec.coerceArguments_again {inputs : List InputSpec} {l l' : List (String × Value)}
    (h : coerceArguments inputs l = .ok l') :
    l'.map Prod.fst = l.map Prod.fst ∧ coerceArguments inputs l' = .ok l' := by
  have hall := Work.coerceArguments_eq_ok_iff.1 h
  refine ⟨Pointwise.map_eq_map (hall.imp fun _ _ hab => hab.1), Work.coerceArguments_eq_ok_iff.2 ?_⟩
  refine List.forall₂_same.2 fun b hb => ⟨rfl, ?_⟩
  obtain ⟨a, -, hname, hcoerce⟩ := Pointwise.exists_left hall hb
  rw [hname]
  exact (ValueKind.converts_of_coerce hcoerce).coerce_self

/-- Conversions are sound and need not be repeated, for one value and for the arguments of a call. -/
theorem ValueKind.coerce_sound :
    (∀ {kind : ValueKind} {v w : Value}, kind.coerce v = some w → kind.Converts v w) ∧
    ∀ {inputs : List InputSpec} {l l' : List (String × Value)},
      InputSpec.coerceArguments inputs l = .ok l' →
        l'.map Prod.fst = l.map Prod.fst ∧ InputSpec.coerceArguments inputs l' = .ok l' :=
  ⟨converts_of_coerce, InputSpec.coerceArguments_again⟩

namespace Retyped

/-- A text between blanks and a floating-point number, both for integers. -/
def inputs : List InputSpec := [⟨"n", .integer, true⟩, ⟨"m", .integer, true⟩]

def arguments : List (String × Value) :=
  [("m", .string " -07\n"), ("n", .number (.float ⟨true, 2 ^ 52 + 1, 1, by decide⟩))]

def converted : List (String × Value) :=
  [("m", Value.integer (-7) (by decide)), ("n", Value.integer (-9007199254740994) (by decide))]

/-- Both are converted to the integers that they hold, and stay as they are from then on. -/
theorem stays_converted : InputSpec.coerceArguments inputs arguments = .ok converted ∧
    InputSpec.coerceArguments inputs converted = .ok converted ∧
    ValueKind.integer.Converts (.string " -07\n") (Value.integer (-7) (by decide)) := by
  have h : InputSpec.coerceArguments inputs arguments = .ok converted := by decide +kernel
  have htext : ValueKind.integer.coerce (.string " -07\n") =
      some (Value.integer (-7) (by decide)) := by
    decide +kernel
  exact ⟨h, (ValueKind.coerce_sound.2 h).2, ValueKind.coerce_sound.1 htext⟩

end Retyped

end Workplan
