import Workplan.Proofs.Run.Invariance
import Workplan.Proofs.Run.Results

/-! Retention: the result of a node whose work has ended well is not lost and does not change, neither while
the node waits for destructions nor after it has succeeded. Only a placeholder may still fail, when its
instances do not fit the graph. -/
namespace Workplan
set_option autoImplicit false

/-- What a run does with the result of a node whose work has ended well. -/
inductive Run.Retains (r : Run) (id : NodeId) (w : WorkResult) : Prop where
  | waiting {k : Nat} (hd : r.deferred.get? id = some (k, w.output?))
  | succeeded (hs : r.plan.status? id = some .succeeded) (ho : r.plan.result? id = w.output?)
  | refused {vars : List LoopVars} {m : String} (hw : w = .expanded vars)
    (hs : r.plan.status? id = some (.failed m))

/-- The work of a node has ended well, and its result is at hand or retained. -/
def Stage.Honours (id : NodeId) (w : WorkResult) (s : Stage) : Prop :=
  s.active = some (id, some (.ok w)) ∨ s.run.Retains id w

namespace Run.Retains
variable {g : Graph} {r r' : Run} {E : Expansions} {id x : NodeId} {w : WorkResult}

theorem frame (h : r.Retains id w) (hd : r'.deferred.get? id = r.deferred.get? id)
    (hev : r.plan.Evolves r'.plan) (ho : r'.plan.result? id = r.plan.result? id) : r'.Retains id w := by
  cases h with
  | waiting hk => exact .waiting (hd.trans hk)
  | succeeded hs hr => exact .succeeded (hev.final hs rfl) (ho.trans hr)
  | refused hw hs => exact .refused hw (hev.final hs rfl)

theorem agree (h : r.Retains id w) (ha : Agree r r') : r'.Retains id w := by
  apply h.frame
  · rw [ha.deferred]
  · rw [ha.plan]
    exact .refl _
  · rw [ha.plan]

theorem skips {reason : String} {ids : List NodeId} (h : r.Retains x w)
    (hs : Plan.Skips reason r.plan ids r'.plan) (hd : r'.deferred = r.deferred) : r'.Retains x w := by
  apply h.frame _ hs.evolves
  · exact hs.result? x
  · rw [hd]

theorem ne_active {o : Option WorkOutcome} (h : r.Retains x w)
    (hl : Live g ⟨r, E, some (id, o), []⟩) : x ≠ id := by
  obtain ⟨hrun, hdef, -⟩ := hl.active rfl
  rintro rfl
  cases h with
  | waiting hk => cases hdef.symm.trans hk
  | succeeded hs _ => cases hrun.symm.trans hs
  | refused _ hs => cases hrun.symm.trans hs

theorem settle (hs : r.plan.status? id = some .running) (ho : r.plan.result? id = none) :
    (r.settle id w.output?).Retains id w := by
  apply Retains.succeeded
  · simp [Run.settle, Plan.status?_markSucceeded, hs]
  · rw [Run.settle, Plan.result?_markSucceeded]
    cases w.output? <;> simp [ho]

theorem settle_other (h : r.Retains x w) (hne : x ≠ id) (hs : r.plan.status? id = some .running)
    (output : Option Value) : (r.settle id output).Retains x w := by
  refine h.frame rfl (Plan.evolves_markSucceeded hs rfl output) ?_
  simp [Run.settle, Plan.result?_markSucceeded, hne]

theorem defer_other (h : r.Retains x w) (hne : x ≠ id) (d : Nat × Option Value) :
    ({ r with deferred := r.deferred.insert id d } : Run).Retains x w := by
  refine h.frame ?_ (.refl _) rfl
  rw [SortedMap.get?_insert, if_neg hne]

/-- A node that has waited for destructions succeeds with the output that has been kept for it. -/
theorem undefer (h : r.Retains x w) (hl : Live g ⟨r, E, none, []⟩)
    (hy : (Stage.mk r E none []).Yielded) {d : Nat × Option Value} (hd : r.deferred.get? id = some d) :
    ({ r with deferred := r.deferred.erase id }.settle id d.2).Retains x w := by
  have hrun : r.plan.status? id = some .running := hl.deferred hd
  by_cases hx : x = id
  · subst hx
    cases h with
    | waiting hk =>
      cases hd.symm.trans hk
      exact settle (r := { r with deferred := r.deferred.erase x }) hrun (hy.result_eq_none hrun)
    | succeeded hs _ => cases hrun.symm.trans hs
    | refused _ hs => cases hrun.symm.trans hs
  · have herase : ({ r with deferred := r.deferred.erase id } : Run).Retains x w := by
      refine h.frame ?_ (.refl _) rfl
      rw [SortedMap.get?_erase, if_neg hx]
    exact herase.settle_other hx hrun _

theorem credit (h : r.Retains x w) (hl : Live g ⟨r, E, none, []⟩)
    (hy : (Stage.mk r E none []).Yielded) (owner : NodeId) : (r.credit owner).Retains x w := by
  rw [Run.credit]
  split
  next => exact h
  next waiting output hd =>
    split
    next =>
      by_cases hx : x = owner
      · subst hx
        have hrun : r.plan.status? x = some .running := hl.deferred hd
        cases h with
        | waiting hk =>
          cases hd.symm.trans hk
          apply Retains.waiting (k := waiting - 1)
          rw [SortedMap.get?_insert, if_pos rfl]
        | succeeded hs _ => cases hrun.symm.trans hs
        | refused _ hs => cases hrun.symm.trans hs
      · exact h.defer_other hx _
    next => exact h.undefer hl hy hd

end Run.Retains

section Moves
variable {g : Graph} {s t : Stage} {r : Run} {E : Expansions} {id x : NodeId} {w : WorkResult}

theorem Stage.Honours.retains (h : (Stage.mk r E none []).Honours id w) : r.Retains id w :=
  h.resolve_left fun ha => by cases ha

theorem Stage.Honours.conclude {w' : WorkResult} (hl : Live g ⟨r, E, some (id, some (.ok w')), []⟩)
    (hy : (Stage.mk r E (some (id, some (.ok w'))) []).Yielded)
    (h : (Stage.mk r E (some (id, some (.ok w'))) []).Honours x w) :
    (r.conclude id w'.output?).Retains x w := by
  have hagree := Run.agree_release r id
  have hrun : r.plan.status? id = some .running := (hl.active rfl).1
  have hrun' : (r.release id).1.plan.status? id = some .running := by rw [hagree.plan, hrun]
  simp only [Run.conclude]
  rcases h with ha | hk
  · cases ha
    split
    next =>
      apply Run.Retains.settle hrun'
      rw [hagree.plan]
      exact hy.result_eq_none hrun
    next =>
      apply Run.Retains.waiting (k := (r.release id).2)
      rw [SortedMap.get?_insert, if_pos rfl]
  · have hne := hk.ne_active hl
    split
    next => exact (hk.agree hagree).settle_other hne hrun' _
    next => exact (hk.agree hagree).defer_other hne _

theorem Moves.honours (hg : g.Sound) (hm : Moves s t) (hl : Live g s) (hy : s.Yielded)
    (h : s.Honours x w) : t.Honours x w := by
  have hev := hm.evolves hg hl
  cases hm with
  | note r E a l id time hk => exact h.imp_right fun hk => hk.agree (.note r id _ time)
  | blemish r E e => exact .inr (h.retains.frame rfl hev rfl)
  | collect E ht hf => exact .inr (h.retains.frame rfl hev rfl)
  | enqueue E hp hlimit =>
    refine .inr ((h.resolve_left fun ha => ?_).frame rfl hev rfl)
    cases ha
  | expand hE he =>
    have hx := Plan.Sound.expands hg hl.sound hE he
    exact h.imp_right fun hk => hk.frame rfl hev (congrArg (SortedMap.get? · x) hx.results)
  | conclude r hE => exact .inr (h.conclude hl hy)
  | @fail r E id o e hf =>
    right
    rcases h with ha | hk
    · cases ha
      cases hf with
      | expansion hE he =>
        apply Run.Retains.refused rfl
        rw [Run.plan_blame]
        exact Plan.status?_markFailed (hl.active rfl).1 _
    · apply hk.frame _ hev
      · rw [Run.plan_blame]
        exact (Plan.skips_markFailed r.plan id e.message).result? x
      · rw [Run.deferred_blame]
  | release r E a id l => exact h.imp_right fun hk => hk.agree (Run.agree_release r id)
  | skipIdle r E => exact .inr (h.retains.skips hl.sound.skips_skipIdleResources rfl)
  | skipAll E reason ha => exact .inr (h.retains.skips (Plan.skips_skipPending _ reason).1 rfl)
  | observe E ha hs => exact .inr (h.retains.frame rfl hev rfl)
  | lose E ht hf => exact .inr (h.retains.frame rfl hev rfl)
  | discard E ht hf ho => exact .inr (h.retains.frame rfl hev rfl)
  | @credit r E t ht result time hf owner ho =>
    have hdrop : (r.dropDestroy t.number).Retains x w := h.retains.frame rfl (.refl _) rfl
    have hlive : Live g ⟨r.dropDestroy t.number, E, none, []⟩ := hl.frame rfl rfl rfl rfl
    exact .inr (hdrop.credit hlive ⟨hy.deferred, hy.result⟩ owner)
  | giveUp E hd hdef => exact .inr (h.retains.undefer hl hy hdef)
  | stall E ha ht hd hr hw => exact .inr (h.retains.skips (Plan.skips_skipPending _ _).1 rfl)
  | @drain r E hw ht hd hp =>
    have hdrained : ({ r with slots := r.slots.drain.2, phase := .tearingDown } : Run).Retains x w :=
      h.retains.frame rfl (.refl _) rfl
    exact .inr (hdrained.agree (Run.agree_spawnDestroys none _ _))
  | close E hp hd => exact .inr (h.retains.frame rfl hev rfl)

theorem Begins.honours (hb : Begins s id t) (h : s.Honours x w) : t.Honours x w := by
  have hev := hb.evolves
  cases hb with
  | mk E ha hlimit hr => exact .inr (h.retains.frame rfl hev rfl)

namespace Run

theorem kept_honours (hg : g.Sound) (x : NodeId) (w : WorkResult) :
    Stage.Kept g (fun _ => True) fun s => s.Yielded ∧ s.Honours x w where
  move := fun hm hn hl h => ⟨hm.yielded hg hn hl h.1, hm.honours hg hl h.1 h.2⟩
  start := fun hb _ hl h => ⟨hb.yielded hl h.1, hb.honours h.2⟩
  work := fun _ hw _ h => by
    have hun := hw.undisturbed
    refine ⟨hw.yielded h.1, .inr (h.2.retains.frame ?_ ?_ ?_)⟩
    · rw [hun.deferred]
    · rw [hun.plan]
      exact .refl _
    · rw [hun.plan]

end Run
end Moves

end Workplan
