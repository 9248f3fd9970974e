import Workplan.Proofs.Plan.Cleanliness
import Workplan.Proofs.Run.Covering
import Workplan.Proofs.Run.Scheduling

/-! Smoothness: a run in which nothing goes wrong. No node fails, nobody cancels the run and it does not
stall, and then nothing is skipped but resources whose users have all ended. What has gone wrong once never
comes right again, so that a run that ends well has been smooth all along. -/
namespace Workplan
set_option autoImplicit false

/-- Nothing has gone wrong so far. -/
structure Stage.Smooth (s : Stage) : Prop where
  accepting : s.run.accepting = true
  stalled : s.run.stalled = []

section Moves
variable {g : Graph} {s t : Stage}

theorem Run.stalled_blame (r : Run) (id : NodeId) (e : RunError) :
    (r.blame id e).stalled = r.stalled := by
  rw [blame_eq]

theorem Run.stalled_conclude (r : Run) (id : NodeId) (output : Option Value) :
    (r.conclude id output).stalled = r.stalled := by
  rw [conclude_eq]
  exact (agree_release r id).stalled

theorem Run.stalled_credit (r : Run) (owner : NodeId) : (r.credit owner).stalled = r.stalled := by
  rw [credit_eq]

theorem Live.skipPending_ne_nil {r : Run} {E : Expansions} (hl : Live g ⟨r, E, none, []⟩)
    (ht : r.tasks = []) (hd : r.deferred = .empty) (hw : r.plan.hasWorkRemaining = true)
    (reason : String) : (r.plan.skipPending reason).2 ≠ [] := by
  obtain ⟨id, st, hst, hterm⟩ := Plan.hasWorkRemaining_iff.1 hw
  intro hnil
  have hpend : r.plan.isPending id = true := by
    cases st with
    | pending => exact Plan.isPending_iff.2 hst
    | running =>
      rcases hl.running hst with hm | ⟨d, hd'⟩ | ⟨o, ho⟩
      · have hm' : id ∈ r.tasks.map Task.node := hm
        rw [ht] at hm'
        cases hm'
      · have hd'' : r.deferred.get? id = some d := hd'
        rw [hd] at hd''
        cases hd''
      · cases ho
    | succeeded => cases hterm
    | failed message => cases hterm
    | skipped reason => cases hterm
  have hskips := (Plan.skips_skipPending r.plan reason).1
  have hnot := hl.sound.not_isPending_skipPending reason id
  rw [hnil] at hskips
  have hstill := hskips.isPending.2 ⟨hpend, List.not_mem_nil⟩
  rw [hnot] at hstill
  cases hstill

theorem Moves.stalled (hm : Moves s t) (hl : Live g s) (h : t.run.stalled = []) :
    s.run.stalled = [] := by
  cases hm with
  | conclude r hE =>
    rw [Run.stalled_conclude] at h
    exact h
  | fail hf =>
    rw [Run.stalled_blame] at h
    exact h
  | release r E a id l =>
    rw [(Run.agree_release r id).stalled] at h
    exact h
  | credit E hm hf ho =>
    rw [Run.stalled_credit] at h
    exact h
  | drain E hw hm hd hp =>
    rw [(Run.agree_spawnDestroys none _ _).stalled] at h
    exact h
  | stall E ha ht hd hr hw => exact absurd h (hl.skipPending_ne_nil ht hd hw _)
  | _ => exact h

theorem Begins.stalled {id : NodeId} (hb : Begins s id t) : t.run.stalled = s.run.stalled := by
  cases hb
  rfl

theorem Moves.smooth (hm : Moves s t) (hl : Live g s) (h : t.Smooth) : s.Smooth := by
  refine ⟨?_, hm.stalled hl h.stalled⟩
  cases ha : s.run.accepting with
  | true => rfl
  | false =>
    have hacc := h.accepting
    rw [hm.not_accepting ha] at hacc
    cases hacc

theorem Begins.smooth {id : NodeId} (hb : Begins s id t) (h : t.Smooth) : s.Smooth := by
  cases hb
  exact ⟨h.accepting, h.stalled⟩

/-! ## Statuses -/

theorem Moves.clean (hg : g.Sound) (hm : Moves s t) (hl : Live g s) (h : s.run.plan.Clean)
    (ht : t.Smooth) : t.run.plan.Clean := by
  cases hm with
  | note r E a l id time hk => exact h
  | blemish r E e => exact h
  | collect E hm hf => exact h
  | enqueue E hp hlimit => exact h
  | expand hE he =>
    have hx := hl.sound.expands hg hE he
    exact h.expand hl.sound hx (hl.node_of_running hx.running)
  | @conclude r E id w hE =>
    have hplan := (Run.agree_release r id).plan
    simp only [Run.conclude]
    split
    next =>
      rw [Run.settle, hplan]
      exact h.markSucceeded (hl.active rfl).1 _
    next =>
      rw [hplan]
      exact h
  | fail hf =>
    have hacc := ht.accepting
    rw [Run.accepting_blame] at hacc
    cases hacc
  | release r E a id l =>
    rw [(Run.agree_release r id).plan]
    exact h
  | skipIdle r E => exact h.skipIdle hg hl.sound
  | skipAll E reason ha =>
    have hacc : _ = true := ht.accepting
    cases ha.symm.trans hacc
  | observe E ha hs => exact h
  | lose E hm hf => exact h
  | discard E hm hf ho => exact h
  | @credit r E d hm result time hf owner ho =>
    simp only [Run.credit]
    split
    next => exact h
    next waiting output hd =>
      split
      next => exact h
      next => exact h.markSucceeded (hl.deferred hd) _
  | giveUp E hd hget => exact h.markSucceeded (hl.deferred hget) _
  | stall E ha hm hd hr hw => exact absurd ht.stalled (hl.skipPending_ne_nil hm hd hw _)
  | drain E hw hm hd hp =>
    rw [(Run.agree_spawnDestroys none _ _).plan]
    exact h
  | close E hp hd => exact h

theorem Begins.clean {id : NodeId} (hb : Begins s id t) (h : s.run.plan.Clean) :
    t.run.plan.Clean := by
  cases hb with
  | mk E ha hlimit hr =>
    exact h.setStatus (Plan.isPending_iff.1 (Plan.isPending_of_isReady hr)) rfl (.inl rfl)

theorem Run.clean_new (g : Graph) (settings : RunSettings) (stopRequested : Bool) :
    (new settings g stopRequested).plan.Clean := .ofGraph g

end Moves

end Workplan
