import Workplan.Proofs.Graph.Soundness

/-! Literal replications: the definitions in which every value that a replication waits for is written
out. They pass validation like the old ones (`Definitions.validate_withLiterals`), and where the builder has
made a placeholder it makes instances (`Building.layouts_withLiterals`). -/
namespace Workplan
open Outcome
set_option autoImplicit false

/-! ## Definitions -/

namespace StepDefinition
variable (v : String → Value) (s : StepDefinition)

/-- True of steps whose instances are made during the run. -/
def isDynamic : Bool := (Replication.of? s).any Replication.isDynamic

/-- The step with a known value where the one that decides its instances has to be computed. -/
def withLiteral (x : Value) : StepDefinition :=
  { s with
    count := s.count.map fun _ => .literal x
    forEach := s.forEach.map fun _ => .literal x }

/-- The step as it is when `v` tells the value of every replication that is not known. -/
def settle : StepDefinition := if s.isDynamic then s.withLiteral (v s.name) else s

@[simp] theorem name_settle : (s.settle v).name = s.name := by
  rw [settle]
  split <;> rfl

@[simp] theorem runner_settle : (s.settle v).runner = s.runner := by
  rw [settle]
  split <;> rfl

@[simp] theorem arguments_settle : (s.settle v).arguments = s.arguments := by
  rw [settle]
  split <;> rfl

@[simp] theorem dependsOn_settle : (s.settle v).dependsOn = s.dependsOn := by
  rw [settle]
  split <;> rfl

@[simp] theorem uses_settle : (s.settle v).uses = s.uses := by
  rw [settle]
  split <;> rfl

@[simp] theorem isSome_count_settle : (s.settle v).count.isSome = s.count.isSome := by
  rw [settle]
  split
  · exact Option.isSome_map
  · rfl

@[simp] theorem isSome_forEach_settle : (s.settle v).forEach.isSome = s.forEach.isSome := by
  rw [settle]
  split
  · exact Option.isSome_map
  · rfl

theorem mem_replicationExpressions_settle {e : Expression}
    (h : e ∈ (s.settle v).replicationExpressions) :
    e ∈ s.replicationExpressions ∨ e = .literal (v s.name) := by
  rw [settle] at h
  split at h
  · refine .inr ?_
    simp only [replicationExpressions, withLiteral, List.mem_append, Option.mem_toList,
      Option.map_eq_some_iff] at h
    rcases h with ⟨_, _, rfl⟩ | ⟨_, _, rfl⟩ <;> rfl
  · exact .inl h

end StepDefinition

@[simp] theorem StepInstance.ofDefinition_settle (v : String → Value) (s : StepDefinition)
    (index : Option Nat) (vars : LoopVars) :
    StepInstance.ofDefinition (s.settle v) index vars = .ofDefinition s index vars := by
  rw [StepDefinition.settle]
  split <;> rfl

/-- The definitions with a literal in place of every value that has to be computed to know the
instances of a step. -/
def Definitions.withLiterals (defs : Definitions) (v : String → Value) : Definitions :=
  { defs with steps := defs.steps.map (StepDefinition.settle v) }

/-! ## Validation -/

namespace Validation
variable {defs : Definitions} {registry : Registry} (v : String → Value)

theorem step?_withLiterals (name : String) :
    (defs.withLiterals v).step? name = (defs.step? name).map (StepDefinition.settle v) := by
  rw [Definitions.step?, Definitions.step?, Definitions.withLiterals, List.find?_map]
  congr 2
  funext s
  simp

theorem checkStepReference_withLiterals (node : NodeId) (r : Reference) :
    checkStepReference (defs.withLiterals v) registry node r =
      checkStepReference defs registry node r := by
  rw [checkStepReference, checkStepReference]
  cases r.target with
  | resource name => rfl
  | step name =>
    simp only [step?_withLiterals]
    cases hs : defs.step? name with
    | none => rfl
    | some s => simp

theorem checkExpression_withLiterals (node : NodeId) (scope : VariableScope) (e : Expression) :
    checkExpression (defs.withLiterals v) registry node scope e =
      checkExpression defs registry node scope e := by
  have hvalue : checkValueReference (defs.withLiterals v) registry node =
      checkValueReference defs registry node := by
    funext r
    rw [checkValueReference, checkValueReference, checkStepReference_withLiterals]
  rw [checkExpression, checkExpression, hvalue]

theorem checkResource_withLiterals (r : ResourceDefinition) :
    checkResource (defs.withLiterals v) registry r = checkResource defs registry r := by
  have hexpr : checkExpression (defs.withLiterals v) registry (NodeId.resource r.name) .none =
      checkExpression defs registry (NodeId.resource r.name) .none :=
    funext (checkExpression_withLiterals v _ _)
  rw [checkResource, checkResource]
  simp only [hexpr]

theorem checkStep_withLiterals {s : StepDefinition} (h : checkStep defs registry s = .ok ()) :
    checkStep (defs.withLiterals v) registry (s.settle v) = .ok () := by
  have hdependency : checkDependency (defs.withLiterals v) registry (NodeId.step s.name) =
      checkDependency defs registry (NodeId.step s.name) := by
    funext r
    rw [checkDependency, checkDependency, checkStepReference_withLiterals]
  have hscope : VariableScope.ofStep (s.settle v) = .ofStep s := by simp [VariableScope.ofStep]
  have hreplication : checkReplication (s.settle v) = checkReplication s := by
    simp [checkReplication]
  have hexpr : ∀ scope, checkExpression (defs.withLiterals v) registry (NodeId.step s.name) scope =
      checkExpression defs registry (NodeId.step s.name) scope :=
    fun scope => funext (checkExpression_withLiterals v _ scope)
  rw [checkStep] at h ⊢
  rw [StepDefinition.runner_settle]
  split at h
  next => cases h
  next runner hr =>
    simp only [StepDefinition.name_settle, StepDefinition.arguments_settle,
      StepDefinition.dependsOn_settle, StepDefinition.uses_settle, hscope, hreplication, hexpr,
      hdependency]
    obtain ⟨_, h₁, h⟩ := bind_eq_ok.1 h
    obtain ⟨_, h₂, h⟩ := bind_eq_ok.1 h
    obtain ⟨_, h₃, h⟩ := bind_eq_ok.1 h
    obtain ⟨_, h₄, h⟩ := bind_eq_ok.1 h
    -- the expressions that decide the instances are the only part of a step that differs
    have hliteral : checkAll (checkExpression defs registry (NodeId.step s.name) .none)
        (s.settle v).replicationExpressions = .ok () := by
      rw [checkAll_eq_ok_iff] at h₄ ⊢
      intro e he
      rcases s.mem_replicationExpressions_settle v he with he | rfl
      · exact h₄ e he
      · rfl
    exact bind_eq_ok.2 ⟨_, h₁, bind_eq_ok.2 ⟨_, h₂, bind_eq_ok.2 ⟨_, h₃,
      bind_eq_ok.2 ⟨_, hliteral, h⟩⟩⟩⟩

end Validation

theorem Definitions.validate_withLiterals {defs : Definitions} {registry : Registry}
    (h : defs.validate registry = .ok ()) (v : String → Value) :
    (defs.withLiterals v).validate registry = .ok () := by
  obtain ⟨_, hnames, h⟩ := bind_eq_ok.1 h
  obtain ⟨_, hresources, h⟩ := bind_eq_ok.1 h
  obtain ⟨_, hresource, hstep⟩ := bind_eq_ok.1 h
  have hnames' : Validation.checkStepNames (defs.withLiterals v) = .ok () := by
    have he : (defs.withLiterals v).steps.map (fun s => s.name) = defs.steps.map fun s => s.name := by
      rw [withLiterals, List.map_map]
      exact List.map_congr_left fun s _ => s.name_settle v
    rw [Validation.checkStepNames, he]
    exact hnames
  have hresource' : checkAll (Validation.checkResource (defs.withLiterals v) registry)
      (defs.withLiterals v).resources = .ok () := by
    rw [funext (Validation.checkResource_withLiterals v)]
    exact hresource
  have hstep' : checkAll (Validation.checkStep (defs.withLiterals v) registry)
      (defs.withLiterals v).steps = .ok () := by
    rw [checkAll_eq_ok_iff] at hstep ⊢
    intro s hs
    obtain ⟨s₀, hs₀, rfl⟩ := List.mem_map.1 hs
    exact Validation.checkStep_withLiterals v (hstep s₀ hs₀)
  exact bind_eq_ok.2 ⟨_, hnames', bind_eq_ok.2 ⟨_, hresources, bind_eq_ok.2 ⟨_, hresource', hstep'⟩⟩⟩

theorem Definitions.PlainNames.withLiterals {defs : Definitions} (h : defs.PlainNames)
    (v : String → Value) : (defs.withLiterals v).PlainNames := by
  intro s hs
  obtain ⟨s₀, hs₀, rfl⟩ := List.mem_map.1 hs
  rw [StepDefinition.name_settle]
  exact h s₀ hs₀

/-! ## Layouts -/

/-- The layout of a step when the instances that it has not known are these. -/
def StepLayout.settle (vars : List LoopVars) : StepLayout → StepLayout
  | .single => .single
  | .instances known => .instances known
  | .deferred _ => .instances vars

/-- The values that replications wait for give these instances. -/
def Definitions.Decides (defs : Definitions) (v : String → Value)
    (vars : String → List LoopVars) : Prop :=
  ∀ s ∈ defs.steps, ∀ r, Replication.of? s = some r → r.isDynamic = true →
    r.expand (NodeId.step s.name).text (v s.name) = .ok (vars s.name)

namespace Building
variable {s : StepDefinition} {l : StepLayout} {ls : Layouts}

theorem layout_eq_deferred {r : Replication} :
    layout s = .ok (.deferred r) ↔ Replication.of? s = some r ∧ r.isDynamic = true := by
  rw [layout]
  cases hr : Replication.of? s with
  | none => simp
  | some r' =>
    simp only
    cases he : r'.expression? with
    | none =>
      have hstatic : r'.isDynamic = false := by rw [Replication.isDynamic, he]
      constructor
      · intro h
        cases h
      · rintro ⟨h, hd⟩
        cases h
        rw [hstatic] at hd
        cases hd
    | some e =>
      simp only
      cases hd : r'.isDynamic with
      | true =>
        rw [if_pos rfl]
        constructor
        · intro h
          cases h
          exact ⟨rfl, hd⟩
        · rintro ⟨h, -⟩
          cases h
          rfl
      | false =>
        rw [if_neg Bool.false_ne_true]
        constructor
        · intro h
          obtain ⟨x, -, h⟩ := bind_eq_ok.1 h
          obtain ⟨vars, -, h⟩ := bind_eq_ok.1 h
          cases h
        · rintro ⟨h, hd'⟩
          cases h
          rw [hd] at hd'
          cases hd'

theorem isDynamic_of_layout {r : Replication} (h : layout s = .ok (.deferred r)) :
    s.isDynamic = true := by
  obtain ⟨hr, hd⟩ := layout_eq_deferred.1 h
  rw [StepDefinition.isDynamic, hr]
  exact hd

theorem layout_withLiteral {r : Replication} (h : Replication.of? s = some r)
    (hd : r.isDynamic = true) {x : Value} {vars : List LoopVars}
    (hx : r.expand (NodeId.step s.name).text x = .ok vars) :
    layout (s.withLiteral x) = .ok (.instances vars) := by
  cases hc : s.count with
  | none =>
    cases hf : s.forEach with
    | none =>
      simp only [Replication.of?, hc, hf, Option.some.injEq] at h
      subst h
      cases hd
    | some e =>
      simp only [Replication.of?, hc, hf, Option.some.injEq] at h
      subst h
      have hr : Replication.of? (s.withLiteral x) = some (.forEach (.literal x)) := by
        simp [Replication.of?, StepDefinition.withLiteral, hc, hf]
      rw [layout, hr]
      exact bind_eq_ok.2 ⟨x, rfl, bind_eq_ok.2 ⟨vars, mapError_eq_ok.2 hx, rfl⟩⟩
  | some e =>
    cases hf : s.forEach with
    | some e' => simp [Replication.of?, hc, hf] at h
    | none =>
      simp only [Replication.of?, hc, hf, Option.some.injEq] at h
      subst h
      have hr : Replication.of? (s.withLiteral x) = some (.count (.literal x)) := by
        simp [Replication.of?, StepDefinition.withLiteral, hc, hf]
      rw [layout, hr]
      exact bind_eq_ok.2 ⟨x, rfl, bind_eq_ok.2 ⟨vars, mapError_eq_ok.2 hx, rfl⟩⟩

theorem layout_settle {v : String → Value} {vars : List LoopVars} (h : layout s = .ok l)
    (hx : ∀ r, Replication.of? s = some r → r.isDynamic = true →
      r.expand (NodeId.step s.name).text (v s.name) = .ok vars) :
    layout (s.settle v) = .ok (l.settle vars) := by
  rw [StepDefinition.settle]
  split
  next hd =>
    obtain ⟨r, hr, hdr⟩ := (Option.any_eq_true _ _).1 hd
    cases h.symm.trans (layout_eq_deferred.2 ⟨hr, hdr⟩)
    exact layout_withLiteral hr hdr (hx r hr hdr)
  next hd =>
    cases l with
    | single => exact h
    | instances known => exact h
    | deferred r => exact absurd (isDynamic_of_layout h) hd

/-- The layouts of all steps when the instances that are not known are these. -/
def Layouts.settle (v : String → Value) (vars : String → List LoopVars) (ls : Layouts) : Layouts :=
  ls.map fun e => (e.1.settle v, e.2.settle (vars e.1.name))

theorem mem_settle {v : String → Value} {vars : String → List LoopVars} {s' : StepDefinition}
    {l' : StepLayout} : (s', l') ∈ ls.settle v vars ↔
      ∃ s l, (s, l) ∈ ls ∧ s' = s.settle v ∧ l' = l.settle (vars s.name) := by
  simp only [Layouts.settle, List.mem_map, Prod.exists, Prod.mk.injEq]
  refine exists_congr fun s => exists_congr fun l => and_congr_right fun _ => ?_
  rw [eq_comm, eq_comm (a := l')]

theorem layouts_settle {v : String → Value} {vars : String → List LoopVars}
    {steps : List StepDefinition} (h : layouts steps = .ok ls)
    (hx : ∀ s ∈ steps, ∀ r, Replication.of? s = some r → r.isDynamic = true →
      r.expand (NodeId.step s.name).text (v s.name) = .ok (vars s.name)) :
    layouts (steps.map (StepDefinition.settle v)) = .ok (ls.settle v vars) := by
  induction steps generalizing ls with
  | nil =>
    cases h
    rfl
  | cons s steps ih =>
    obtain ⟨l, hl, h⟩ := bind_eq_ok.1 h
    obtain ⟨ls', hls, h⟩ := bind_eq_ok.1 h
    cases h
    have hl' := layout_settle hl (hx s List.mem_cons_self)
    have hls' := ih hls fun s' hs' => hx s' (List.mem_cons_of_mem s hs')
    exact bind_eq_ok.2 ⟨_, hl', bind_eq_ok.2 ⟨_, hls', rfl⟩⟩

theorem layouts_withLiterals {defs : Definitions} {v : String → Value}
    {vars : String → List LoopVars} (h : layouts defs.steps = .ok ls) (hx : defs.Decides v vars) :
    layouts (defs.withLiterals v).steps = .ok (ls.settle v vars) :=
  layouts_settle h hx

theorem layoutOf?_settle (v : String → Value) (vars : String → List LoopVars) (name : String) :
    layoutOf? (ls.settle v vars) name = (layoutOf? ls name).map (StepLayout.settle (vars name)) := by
  have hp : ((fun e => decide (e.1.name = name)) ∘ fun e : StepDefinition × StepLayout =>
      (e.1.settle v, e.2.settle (vars e.1.name))) = fun e => decide (e.1.name = name) := by
    funext e
    simp
  rw [layoutOf?, layoutOf?, Layouts.settle, ← List.map_reverse, List.find?_map, hp, Option.map_map,
    Option.map_map]
  cases hf : ls.reverse.find? fun e => decide (e.1.name = name) with
  | none => rfl
  | some e =>
    have hn : e.1.name = name := by simpa using List.find?_some hf
    simp [hn]

theorem not_deferred_settle {v : String → Value} {vars : String → List LoopVars}
    {s' : StepDefinition} {r : Replication} : (s', .deferred r) ∉ ls.settle v vars := by
  intro hm
  obtain ⟨s, l, -, -, hl⟩ := mem_settle.1 hm
  cases l <;> cases hl

theorem allPlaceholders_settle (v : String → Value) (vars : String → List LoopVars) :
    allPlaceholders (ls.settle v vars) = [] := by
  rw [List.eq_nil_iff_forall_not_mem]
  exact fun p hp => not_deferred_settle (mem_allPlaceholders.1 hp)

end Building

end Workplan
