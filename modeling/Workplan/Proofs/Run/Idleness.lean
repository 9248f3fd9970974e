import Workplan.Proofs.Run.Covering
import Workplan.Proofs.Run.Provision

/-! Idleness: a resource that still waits to be created has a user that has not ended. Only the end of a
placeholder can leave a resource without one, and then what is idle is skipped at once, so that nothing
idle is left over when the run has nothing else to wait for. -/
namespace Workplan
set_option autoImplicit false

namespace Run
section Tidy
variable {g : Graph} {r : Run} {E : Expansions} {id : NodeId}

theorem tidy_schedule (h : r.plan.Tidy) (hs : r.plan.Sound g E) (hr : r.Rested)
    (hl : r.tasks.length ≤ r.settings.limit) (ha : r.schedule.accepting = true) :
    r.schedule.plan.Tidy := by
  rw [schedule] at ha ⊢
  split
  next hacc =>
    rw [if_pos hacc] at ha
    obtain ⟨-, -, -, hall⟩ := path_startAll (startable_ready hs hr hl)
    rw [(hall ha).1]
    exact h.foldl_markRunning _
  next => exact h

theorem tidy_conclude {o : Option WorkOutcome} (h : r.plan.Tidy) (hg : g.Sound)
    (hl : Live g ⟨r, E, some (id, o), []⟩)
    (hk : ∀ n, r.plan.node? id = some n → n.kind.isExpansion = false) (output : Option Value) :
    (r.conclude id output).plan.Tidy := by
  have hplan := (agree_release r id).plan
  simp only [conclude]
  split
  next =>
    rw [settle, hplan]
    exact h.markSucceeded hg hl.sound (hl.active rfl).1 hk output
  next =>
    rw [hplan]
    exact h

/-- The end of the work of a node leaves nothing idle, as long as the run goes on. -/
theorem tidy_complete (hg : g.Sound) {result : WorkOutcome} (hn : r.Numbered)
    (hl : Live g ⟨r, E, some (id, some result), []⟩) (h : r.plan.Tidy) (hE : E id = none) (time : Nat)
    (ha : (r.complete id result time).accepting = true) : (r.complete id result time).plan.Tidy := by
  obtain ⟨n, hnode⟩ := hl.node_of_running (hl.active rfl).1
  have hfits : WorkOutcome.Fits n.kind result := (hl.active_fits rfl).2 result n rfl hnode
  have hnote : ∀ kind, Live g ⟨r.note id kind time, E, some (id, some result), []⟩ :=
    fun kind => hl.agree (.note r id kind time)
  have hkind : (∀ vars, result ≠ .ok (.expanded vars)) → (∃ w, result = .ok w) →
      ∀ m, r.plan.node? id = some m → m.kind.isExpansion = false := by
    rintro hne ⟨w, rfl⟩ m hm
    cases hnode.symm.trans hm
    rw [Bool.eq_false_iff]
    intro hx
    obtain ⟨vars, rfl⟩ := WorkResult.Fits.exists_expanded hx hfits
    exact hne vars rfl
  cases result with
  | error e =>
    rw [complete, accepting_fail] at ha
    cases ha
  | ok w =>
    cases w with
    | output v =>
      exact tidy_conclude (r := r.note id .succeeded time) h hg (hnote _)
        (hkind (fun _ => by simp) ⟨_, rfl⟩) _
    | created =>
      exact tidy_conclude (r := r.note id .succeeded time) h hg (hnote _)
        (hkind (fun _ => by simp) ⟨_, rfl⟩) _
    | expanded vars =>
      rw [complete] at ha ⊢
      cases he : r.plan.expand id vars with
      | error e =>
        rw [expanded_eq_error he, accepting_fail] at ha
        cases ha
      | ok pc =>
        obtain ⟨p, children⟩ := pc
        rw [expanded_eq_ok he, accepting_skipUnlessAccepting] at ha
        rw [expanded_eq_ok he, skipUnlessAccepting, if_pos ha, spliced, plan_skipIdle]
        have hpath := (Path.single (.expand hE he)).trans_nil (path_succeed (fun vars' hw => by
          cases hw
          exact Expansions.set_self) time)
        exact (hpath.live hg hn hl).sound.tidy_skipIdleResources hg

theorem tidy_recordDestroy (hg : g.Sound) (hl : Live g ⟨r, E, none, []⟩) (h : r.plan.Tidy)
    (t : DestroyTask) (result : DestroyResult) (time : Nat) :
    (r.recordDestroy t result time).plan.Tidy := by
  rcases recordDestroy_cases r t result time with ⟨-, he⟩ | ⟨es, ⟨-, he⟩ | ⟨owner, -, he⟩⟩
  · rw [he]
    exact h
  · rw [he]
    exact h
  · rw [he]
    have hnoted : Live g ⟨r.markDestroyed t.resource es time, E, none, []⟩ := hl.frame rfl rfl rfl rfl
    rcases destroyDone_cases (r.markDestroyed t.resource es time) owner with ⟨hp, hd⟩ | hp
    · rw [hd, hp]
      exact h
    · rw [hp, plan_skipIdle]
      exact (hnoted.credit hg owner).sound.tidy_skipIdleResources hg

end Tidy
end Run

end Workplan
