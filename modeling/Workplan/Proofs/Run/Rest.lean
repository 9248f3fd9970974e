import Workplan.Proofs.Run.Turn

/-! Rest: where a turn leaves a run. Either the run waits for something, and starts no node that it could
have started before; or nothing is left to do, and it waits for the last destructions or has ended. -/
namespace Workplan
set_option autoImplicit false

namespace Run

/-- What holds of a run that waits. -/
structure AtRest (r : Run) : Prop where
  rested : r.Rested
  saturated : r.phase = .working → r.Saturated
  /-- The run is waiting for a task or a destruction. -/
  busy : r.phase = .working → r.tasks ≠ [] ∨ r.destroys ≠ []
  stopped : r.phase ≠ .working →
    r.tasks = [] ∧ r.deferred = .empty ∧ ∀ id, r.plan.isPending id = false
  tearing : r.phase = .tearingDown → r.destroys ≠ []
  quiet : r.phase = .ended → r.destroys = []

section Deferred
variable (r : Run) (id : NodeId)

theorem deferred_skipPending (reason : String) : (r.skipPending reason).1.deferred = r.deferred :=
  (agree_recordSkipped _ _).deferred

theorem deferred_observe : r.observe.deferred = r.deferred := by
  rw [observe]
  split
  next => exact deferred_skipPending _ _
  next => rfl

theorem deferred_fail (e : RunError) (time : Nat) : (r.fail id e time).deferred = r.deferred := by
  have hfailed : (r.failed id e time).deferred = r.deferred :=
    (agree_failed r id e time).deferred.trans (deferred_blame _ _ _)
  rw [fail_eq, skipUnlessAccepting]
  split
  next => exact hfailed
  next => exact (deferred_skipPending _ _).trans hfailed

theorem deferred_start : (r.start id).deferred = r.deferred := by
  rcases start_cases r id with ⟨t, -, h⟩ | ⟨e, -, h⟩
  · rw [h]
    rfl
  · rw [h]
    exact deferred_fail _ id e r.now

theorem deferred_startAll (ids : List NodeId) : (r.startAll ids).deferred = r.deferred := by
  induction ids generalizing r with
  | nil => rfl
  | cons id ids ih =>
    rw [startAll]
    split
    next => exact (ih _).trans (deferred_start r id)
    next => rfl

theorem deferred_schedule : r.schedule.deferred = r.deferred := by
  rw [schedule]
  split
  next => exact deferred_startAll r _
  next => rfl

end Deferred

/-! ## Stalled nodes -/

section Stalled
variable (l : List NodeId)

def withStalled (r : Run) : Run := { r with stalled := l }

theorem spawnDestroys_cons (owner : Option NodeId) (r : Run) (x : Released) (xs : List Released) :
    spawnDestroys owner r (x :: xs) = ((spawnDestroys owner (r.spawnDestroy owner x).1 xs).1,
      if (r.spawnDestroy owner x).2 then (spawnDestroys owner (r.spawnDestroy owner x).1 xs).2 + 1
      else (spawnDestroys owner (r.spawnDestroy owner x).1 xs).2) := rfl

theorem spawnDestroys_withStalled (owner : Option NodeId) (r : Run) (xs : List Released) :
    spawnDestroys owner (r.withStalled l) xs =
      ((spawnDestroys owner r xs).1.withStalled l, (spawnDestroys owner r xs).2) := by
  induction xs generalizing r with
  | nil => rfl
  | cons x xs ih =>
    have hone : (r.withStalled l).spawnDestroy owner x =
        ((r.spawnDestroy owner x).1.withStalled l, (r.spawnDestroy owner x).2) := by
      simp only [spawnDestroy, withStalled]
      cases r.settings.registry.kind? x.kind <;> rfl
    simp only [spawnDestroys_cons, hone, ih]

theorem recordSkipped_withStalled (r : Run) (ids : List NodeId) :
    (r.withStalled l).recordSkipped ids = (r.recordSkipped ids).withStalled l := by
  induction ids generalizing r with
  | nil => rfl
  | cons id ids ih =>
    have hone : (r.withStalled l).recordSkippedOne id = (r.recordSkippedOne id).withStalled l :=
      congrArg Prod.fst (spawnDestroys_withStalled l (some id)
        { r.note id .skipped r.now with slots := (r.slots.release id).2 } (r.slots.release id).1)
    calc (r.withStalled l).recordSkipped (id :: ids)
        = ((r.withStalled l).recordSkippedOne id).recordSkipped ids := rfl
      _ = ((r.recordSkippedOne id).withStalled l).recordSkipped ids := by rw [hone]
      _ = (r.recordSkipped (id :: ids)).withStalled l := ih _

end Stalled

section Chains
variable {g : Graph} {r : Run} {E : Expansions}

/-! ## Stopping -/

def unstalled (r : Run) : Run :=
  if r.accepting && r.plan.hasWorkRemaining then
    (r.skipPending stallReason).1.withStalled (r.skipPending stallReason).2
  else r

/-- The run in which the instances that are still alive have been given up. -/
def drained (r : Run) : Run :=
  (spawnDestroys none { r with slots := r.slots.drain.2, phase := .tearingDown } r.slots.drain.1).1

theorem stop_eq (r : Run) : r.stop = r.unstalled.drained.endIfQuiet := rfl

/-- What is known when there is nothing left to wait for. -/
structure Exhausted (r : Run) : Prop where
  working : r.phase = .working
  tasks : r.tasks = []
  deferred : r.deferred = .empty
  rested : r.Rested
  saturated : r.Saturated

theorem Exhausted.not_isReady (h : r.Exhausted) (ha : r.accepting = true) (id : NodeId) :
    r.plan.isReady id = false := by
  rcases h.saturated ha with hl | hr
  · rw [h.tasks, List.length_nil] at hl
    have := limit_pos r.settings
    omega
  · exact hr id

theorem Exhausted.path_unstalled (h : r.Exhausted) (hs : r.plan.Sound g E) :
    Path ⟨r, E, none, []⟩ [] ⟨r.unstalled, E, none, []⟩ ∧ r.unstalled.phase = .working ∧
      r.unstalled.tasks = [] ∧ r.unstalled.deferred = .empty ∧
      (∀ id, r.unstalled.plan.isPending id = false) := by
  rw [unstalled]
  by_cases hw : (r.accepting && r.plan.hasWorkRemaining) = true
  · rw [if_pos hw]
    obtain ⟨ha, hwork⟩ := Bool.and_eq_true_iff.1 hw
    have hagree := agree_recordSkipped { r with plan := (r.plan.skipPending stallReason).1 }
      (r.plan.skipPending stallReason).2
    have hstall := (Path.single (.stall E ha h.tasks h.deferred (h.not_isReady ha) hwork)).trans_nil
      (path_recordSkipped_all _ E none _)
    refine ⟨?_, hagree.phase.trans h.working, hagree.tasks.trans h.tasks,
      hagree.deferred.trans h.deferred, fun id => ?_⟩
    · have hcomm := recordSkipped_withStalled (r.plan.skipPending stallReason).2
        { r with plan := (r.plan.skipPending stallReason).1 } (r.plan.skipPending stallReason).2
      exact hcomm ▸ hstall
    · have hp : ((r.skipPending stallReason).1.withStalled (r.skipPending stallReason).2).plan =
          (r.plan.skipPending stallReason).1 := plan_skipPending r stallReason
      rw [hp]
      exact hs.not_isPending_skipPending stallReason id
  · rw [if_neg hw]
    refine ⟨.refl _, h.working, h.tasks, h.deferred, fun id => ?_⟩
    rw [Bool.eq_false_iff]
    intro hp
    have hwork := Plan.hasWorkRemaining_of_isPending hp
    have ha : r.accepting = false := by
      cases ha : r.accepting with
      | false => rfl
      | true => exact absurd (by rw [ha, hwork]; rfl) hw
    rw [h.rested ha id] at hp
    cases hp

theorem Exhausted.path_stop (h : r.Exhausted) (hs : r.plan.Sound g E) :
    Path ⟨r, E, none, []⟩ [] ⟨r.stop, E, none, []⟩ ∧ r.stop.AtRest := by
  obtain ⟨hpath, hw, ht, hd, hp⟩ := h.path_unstalled hs
  have hdrain : Path ⟨r, E, none, []⟩ [] ⟨r.unstalled.drained, E, none, []⟩ :=
    hpath.trans_nil (.single (.drain E hw ht hd hp))
  have hagree := agree_spawnDestroys none
    { r.unstalled with slots := r.unstalled.slots.drain.2, phase := .tearingDown }
    r.unstalled.slots.drain.1
  have hphase : r.unstalled.drained.phase = .tearingDown := hagree.phase
  have htasks : r.unstalled.drained.tasks = [] := hagree.tasks.trans ht
  have hdef : r.unstalled.drained.deferred = .empty := hagree.deferred.trans hd
  have hpend : ∀ id, r.unstalled.drained.plan.isPending id = false := by
    intro id
    have hplan : r.unstalled.drained.plan = r.unstalled.plan := hagree.plan
    rw [hplan]
    exact hp id
  rw [stop_eq, endIfQuiet]
  split
  next he =>
    have hnil := List.isEmpty_iff.1 he
    refine ⟨hdrain.trans_nil (.single (.close E hphase hnil)), ?_⟩
    exact ⟨fun _ => hpend, fun hc => (by cases hc), fun hc => (by cases hc),
      fun _ => ⟨htasks, hdef, hpend⟩, fun hc => (by cases hc), fun _ => hnil⟩
  next he =>
    refine ⟨hdrain, fun _ => hpend, fun hc => ?_, fun hc => ?_, fun _ => ⟨htasks, hdef, hpend⟩,
      fun _ hnil => he (List.isEmpty_iff.2 hnil), fun hc => ?_⟩
    · rw [hphase] at hc
      cases hc
    · rw [hphase] at hc
      cases hc
    · rw [hphase] at hc
      cases hc

/-! ## Turns -/

theorem deferred_eq_empty (h : r.deferred.toList = []) : r.deferred = .empty := by
  cases hm : r.deferred with
  | mk entries sorted =>
    rw [hm] at h
    cases h
    rfl

theorem path_observe_schedule (hg : g.Sound) (h : Live g ⟨r, E, none, []⟩) (hn : r.Numbered)
    (hr : r.Rested) (hl : r.tasks.length ≤ r.settings.limit) :
    Path ⟨r, E, none, []⟩ r.observe.startsOfSchedule ⟨r.observe.schedule, E, none, []⟩ ∧
      r.observe.schedule.Rested ∧ Keeps r r.observe.schedule ∧ r.observe.schedule.Saturated := by
  have hobs := path_observe r E
  have hlive := hobs.live hg hn h
  obtain ⟨hpath, hrested, hkeeps, hsat⟩ :=
    path_schedule hlive.sound (hr.observe h.sound) (hobs.room hl)
  exact ⟨hobs.trans hpath, hrested, (keeps_observe r).trans hkeeps, hsat⟩

theorem path_scheduled (hg : g.Sound) (h : Live g ⟨r, E, none, []⟩) (hn : r.Numbered)
    (hr : r.Rested) (hl : r.tasks.length ≤ r.settings.limit) :
    Path ⟨r, E, none, []⟩ r.startsOfTurn ⟨r.scheduled, E, none, []⟩ ∧ r.scheduled.Rested ∧
      Keeps r r.scheduled ∧ r.scheduled.Saturated ∧
      (r.scheduled.deferred.toList ≠ [] → r.scheduled.destroys ≠ []) := by
  obtain ⟨hpath, hrested, hkeeps, hsat⟩ := path_observe_schedule hg h hn hr hl
  rw [startsOfTurn, scheduled]
  by_cases hf : r.observe.schedule.isForsaken = true
  · rw [if_pos hf, if_pos hf]
    have hd := List.isEmpty_iff.1 (Bool.and_eq_true_iff.1 hf).1
    have hsettle := path_settleDeferred E hd
    have hto := hpath.trans_nil hsettle
    obtain ⟨hpath', hrested', hkeeps', hsat'⟩ := path_observe_schedule hg (hto.live hg hn h)
      (hto.numbered hn) hrested.settleDeferred (hto.room hl)
    have hk := (hkeeps.trans (keeps_settleDeferred _)).trans hkeeps'
    refine ⟨hto.trans hpath', hrested', hk, hsat', fun hne => ?_⟩
    rw [deferred_schedule, deferred_observe, deferred_settleDeferred] at hne
    exact absurd rfl hne
  · rw [if_neg hf, if_neg hf, List.append_nil]
    refine ⟨hpath, hrested, hkeeps, hsat, fun hne hnil => hf ?_⟩
    rw [isForsaken, List.isEmpty_iff.2 hnil]
    simpa using hne

/-- A turn is a chain of moves that leaves the run at rest. -/
theorem path_turn (hg : g.Sound) (h : Live g ⟨r, E, none, []⟩) (hn : r.Numbered) (hr : r.Rested)
    (hl : r.tasks.length ≤ r.settings.limit) (hw : r.phase = .working) :
    Path ⟨r, E, none, []⟩ r.startsOfTurn ⟨r.turn, E, none, []⟩ ∧ r.turn.AtRest := by
  obtain ⟨hpath, hrested, hkeeps, hsat, hbusy⟩ := path_scheduled hg h hn hr hl
  have hphase : r.scheduled.phase = .working := hkeeps.phase.trans hw
  rw [turn_eq]
  by_cases hc : (r.scheduled.tasks.isEmpty && r.scheduled.deferred.toList.isEmpty) = true
  · rw [if_pos hc]
    obtain ⟨ht, hd⟩ := Bool.and_eq_true_iff.1 hc
    have hex : r.scheduled.Exhausted := ⟨hphase, List.isEmpty_iff.1 ht,
      deferred_eq_empty (List.isEmpty_iff.1 hd), hrested, hsat⟩
    obtain ⟨hstop, hrest⟩ := hex.path_stop (hpath.live hg hn h).sound
    exact ⟨hpath.trans_nil hstop, hrest⟩
  · rw [if_neg hc]
    refine ⟨hpath, hrested, fun _ => hsat, fun _ => ?_, fun hne => absurd hphase hne, fun ht => ?_,
      fun he => ?_⟩
    · by_cases ht : r.scheduled.tasks = []
      · refine .inr (hbusy fun hd => hc ?_)
        rw [ht, hd]
        rfl
      · exact .inl ht
    · rw [hphase] at ht
      cases ht
    · rw [hphase] at he
      cases he

end Chains

/-! ## What turns keep -/

/-- What the parts of a turn keep, of the run and of the nodes that have been started. -/
structure TurnKeeps (g : Graph) (E : Expansions) (P : Run → List (Run × NodeId) → Prop) : Prop where
  start : ∀ {r id l}, Live g ⟨r, E, none, []⟩ → r.plan.isPending id = true → P r l →
    P (r.start id) (l ++ [(r, id)])
  observe : ∀ {r l}, P r l → P r.observe l
  settle : ∀ {r l}, Live g ⟨r, E, none, []⟩ → P r l → P r.settleDeferred l
  stop : ∀ {r l}, P r l → P r.stop l

namespace TurnKeeps
variable {g : Graph} {E : Expansions} {P : Run → List (Run × NodeId) → Prop} {r : Run}
variable {l : List (Run × NodeId)}

theorem startAll (hk : TurnKeeps g E P) (hg : g.Sound) {ids : List NodeId}
    (h : Live g ⟨r, E, none, []⟩) (hn : r.Numbered) (hs : Startable g E r ids) (hP : P r l) :
    P (r.startAll ids) (l ++ r.startsOfAll ids) := by
  induction ids generalizing r l with
  | nil =>
    rw [startsOfAll, List.append_nil]
    exact hP
  | cons id ids ih =>
    by_cases ha : r.accepting = true
    · have hready := hs.ready id List.mem_cons_self
      have hroom : r.tasks.length < r.settings.limit := by
        have := hs.room
        rw [List.length_cons] at this
        omega
      have hpath := path_start E ha hroom hready
      have hstart := hk.start h (Plan.isPending_of_isReady hready) hP
      simp only [Run.startAll, startsOfAll, ha, if_true]
      rw [← List.singleton_append, ← List.append_assoc]
      by_cases hacc : (r.start id).accepting = true
      · exact ih (hpath.live hg hn h) (hpath.numbered hn) (hs.next hacc) hstart
      · obtain ⟨he, hel⟩ := startAll_of_not_accepting ids (Bool.eq_false_iff.2 hacc)
        rw [he, hel, List.append_nil]
        exact hstart
    · obtain ⟨he, hel⟩ := startAll_of_not_accepting (id :: ids) (Bool.eq_false_iff.2 ha)
      rw [he, hel, List.append_nil]
      exact hP

theorem observe_schedule (hk : TurnKeeps g E P) (hg : g.Sound) (h : Live g ⟨r, E, none, []⟩)
    (hn : r.Numbered) (hr : r.Rested) (hl : r.tasks.length ≤ r.settings.limit) (hP : P r l) :
    P r.observe.schedule (l ++ r.observe.startsOfSchedule) := by
  have hobs := path_observe r E
  have hlive := hobs.live hg hn h
  rw [schedule, startsOfSchedule]
  by_cases ha : r.observe.accepting = true
  · rw [if_pos ha, if_pos ha]
    exact hk.startAll hg hlive (hobs.numbered hn)
      (startable_ready hlive.sound (hr.observe h.sound) (hobs.room hl)) (hk.observe hP)
  · rw [if_neg ha, if_neg ha, List.append_nil]
    exact hk.observe hP

theorem turn (hk : TurnKeeps g E P) (hg : g.Sound) (h : Live g ⟨r, E, none, []⟩)
    (hn : r.Numbered) (hr : r.Rested) (hl : r.tasks.length ≤ r.settings.limit) (hP : P r l) :
    P r.turn (l ++ r.startsOfTurn) := by
  obtain ⟨hpath, hrested, -, -⟩ := path_observe_schedule hg h hn hr hl
  have hfirst := hk.observe_schedule hg h hn hr hl hP
  have hsched : P r.scheduled (l ++ r.startsOfTurn) := by
    rw [scheduled, startsOfTurn, ← List.append_assoc]
    by_cases hf : r.observe.schedule.isForsaken = true
    · rw [if_pos hf, if_pos hf]
      have hsettle := path_settleDeferred E (List.isEmpty_iff.1 (Bool.and_eq_true_iff.1 hf).1)
      have hto := hpath.trans_nil hsettle
      exact hk.observe_schedule hg (hto.live hg hn h) (hto.numbered hn) hrested.settleDeferred
        (hto.room hl) (hk.settle (hpath.live hg hn h) hfirst)
    · rw [if_neg hf, if_neg hf, List.append_nil]
      exact hfirst
  rw [turn_eq]
  split
  next => exact hk.stop hsched
  next => exact hsched

end TurnKeeps
end Run

end Workplan
