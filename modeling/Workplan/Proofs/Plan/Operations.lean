import Workplan.Proofs.Plan.Soundness

/-! Operations: what a run does to a plan. Ready nodes are started, running ones end, a placeholder is
expanded once, and pending nodes are skipped. Every plan that the operations lead to is sound. -/
namespace Workplan
set_option autoImplicit false

/-- An operation on a plan. -/
inductive PlanAction where
  | start (id : NodeId)
  | succeed (id : NodeId) (output : Option Value)
  | fail (id : NodeId) (message : String)
  | expand (id : NodeId) (vars : List LoopVars)
  | skipPending (reason : String)
  | skipIdle

/-- The instances that an operation gives a placeholder. -/
def PlanAction.expansion? (id : NodeId) : PlanAction → Option (List LoopVars)
  | .expand q vars => if q = id then some vars else none
  | _ => none

namespace Plan

/-- An operation that is possible, and the plan that it leads to. -/
inductive Performs : Plan → PlanAction → Plan → Prop where
  | start {p : Plan} {id : NodeId} (h : p.isReady id = true) :
    Performs p (.start id) (p.markRunning id)
  | succeed {p : Plan} {id : NodeId} (output : Option Value) (h : p.status? id = some .running) :
    Performs p (.succeed id output) (p.markSucceeded id output)
  | fail {p : Plan} {id : NodeId} (message : String) (h : p.status? id = some .running) :
    Performs p (.fail id message) (p.markFailed id message).1
  | expand {p p' : Plan} {id : NodeId} {vars : List LoopVars} {children : List NodeId}
    (h : p.expand id vars = .ok (p', children)) : Performs p (.expand id vars) p'
  | skipPending (p : Plan) (reason : String) :
    Performs p (.skipPending reason) (p.skipPending reason).1
  | skipIdle (p : Plan) : Performs p .skipIdle p.skipIdleResources.1

/-- Operations with the plans that they are performed on. -/
abbrev History := List (Plan × PlanAction)

/-- The instances of the placeholders that have been expanded. -/
def expansionsOf (h : History) : Expansions := fun id => h.findSome? fun e => e.2.expansion? id

/-- The plans that operations lead to, one after the other. A placeholder is expanded at most once. -/
inductive Leads (p₀ : Plan) : History → Plan → Prop where
  | start : Leads p₀ [] p₀
  | perform {h : History} {p p' : Plan} {a : PlanAction} (hl : Leads p₀ h p) (ha : Performs p a p')
    (once : ∀ id vars, a = .expand id vars → expansionsOf h id = none) : Leads p₀ (h ++ [(p, a)]) p'

theorem isReady_iff {p : Plan} {id : NodeId} : p.isReady id = true ↔
    p.isPending id = true ∧ ∃ n, p.node? id = some n ∧
      (∀ q ∈ n.predecessors, p.hasSucceeded q = true) ∧
      (n.kind.isResource = true → p.isDemanded n = true) := by
  rw [isReady]
  cases hn : p.node? id with
  | none => simp
  | some n =>
    simp only [Bool.and_eq_true, List.all_eq_true, Bool.or_eq_true, Bool.not_eq_true',
      Option.some.injEq, exists_eq_left', Node.isResource_eq, SortedSet.mem_def]
    cases n.kind.isResource <;> simp

section Leads
variable {g : Graph} {h : History} {p p' : Plan} {a : PlanAction}

theorem expansionsOf_append (h : History) (p : Plan) (a : PlanAction) (id : NodeId) :
    expansionsOf (h ++ [(p, a)]) id = (expansionsOf h id).or (a.expansion? id) := by
  rw [expansionsOf, List.findSome?_append, List.findSome?_cons]
  cases a.expansion? id <;> rfl

theorem expansionsOf_expand {id : NodeId} (hnone : expansionsOf h id = none)
    (vars : List LoopVars) :
    expansionsOf (h ++ [(p, .expand id vars)]) = (expansionsOf h).set id vars := by
  funext q
  rw [expansionsOf_append]
  by_cases hq : q = id
  · subst hq
    rw [hnone, Expansions.set_self, Option.none_or, PlanAction.expansion?, if_pos rfl]
  · have hne : id ≠ q := fun e => hq e.symm
    rw [Expansions.set_of_ne hq, PlanAction.expansion?, if_neg hne, Option.or_none]

theorem expansionsOf_other (ha : ∀ id vars, a ≠ .expand id vars) :
    expansionsOf (h ++ [(p, a)]) = expansionsOf h := by
  funext q
  rw [expansionsOf_append]
  cases a with
  | expand id vars => exact absurd rfl (ha id vars)
  | start id => exact Option.or_none
  | succeed id output => exact Option.or_none
  | fail id message => exact Option.or_none
  | skipPending reason => exact Option.or_none
  | skipIdle => exact Option.or_none

theorem Performs.sound (hg : g.Sound) (hp : p.Sound g (expansionsOf h)) (ha : Performs p a p')
    (once : ∀ id vars, a = .expand id vars → expansionsOf h id = none) :
    p'.Sound g (expansionsOf (h ++ [(p, a)])) := by
  cases ha with
  | start hr =>
    rw [expansionsOf_other fun _ _ e => by cases e]
    obtain ⟨hpend, n, hn, hq, -⟩ := isReady_iff.1 hr
    refine hp.markRunning hpend fun m hm => ?_
    cases hn.symm.trans hm
    exact hq
  | succeed output hr =>
    rw [expansionsOf_other fun _ _ e => by cases e]
    exact hp.markSucceeded hr output
  | fail message hr =>
    rw [expansionsOf_other fun _ _ e => by cases e]
    exact hp.markFailed hr message
  | expand he =>
    have hnone := once _ _ rfl
    rw [expansionsOf_expand hnone]
    exact hp.expand hg hnone he
  | skipPending reason =>
    rw [expansionsOf_other fun _ _ e => by cases e]
    exact hp.skipPending _
  | skipIdle =>
    rw [expansionsOf_other fun _ _ e => by cases e]
    exact hp.skipIdleResources

theorem Leads.sound (hg : g.Sound) (hl : Leads (ofGraph g) h p) : p.Sound g (expansionsOf h) := by
  induction hl with
  | start => exact Sound.ofGraph hg
  | perform hl ha once ih => exact ha.sound hg ih once

end Leads
end Plan

end Workplan
