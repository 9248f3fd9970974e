import Workplan.Proofs.Plan.Readiness
import Workplan.Proofs.Run.Ending

/-! Turns: what a run does between two waits, as a chain of moves with the nodes that it starts. After a
turn the limit is reached or no node is ready, as long as the run goes on. -/
namespace Workplan
set_option autoImplicit false

namespace Run

/-! ## The nodes that a turn starts -/

/-- The nodes that are started one after the other, with the runs that they are started in. -/
def startsOfAll : Run → List NodeId → List (Run × NodeId)
  | _, [] => []
  | r, id :: rest => if r.accepting then (r, id) :: startsOfAll (r.start id) rest else []

/-- The nodes that are started when ready nodes are. -/
def startsOfSchedule (r : Run) : List (Run × NodeId) :=
  if r.accepting then r.startsOfAll (r.plan.ready (r.settings.limit - r.tasks.length)) else []

/-- True when nothing can report any more to the nodes that wait for destructions. -/
def isForsaken (r : Run) : Bool := r.destroys.isEmpty && !r.deferred.toList.isEmpty

/-- The nodes that a turn starts. -/
def startsOfTurn (r : Run) : List (Run × NodeId) :=
  r.observe.startsOfSchedule ++
    if r.observe.schedule.isForsaken then r.observe.schedule.settleDeferred.observe.startsOfSchedule
    else []

/-- The run in which as much has been started as can be. -/
def scheduled (r : Run) : Run :=
  if r.observe.schedule.isForsaken then r.observe.schedule.settleDeferred.observe.schedule
  else r.observe.schedule

theorem turn_eq (r : Run) : r.turn =
    if r.scheduled.tasks.isEmpty && r.scheduled.deferred.toList.isEmpty then r.scheduled.stop
    else r.scheduled := rfl

/-- The limit is reached or no node is ready, as long as the run goes on. -/
def Saturated (r : Run) : Prop :=
  r.accepting = true → r.settings.limit ≤ r.tasks.length ∨ ∀ id, r.plan.isReady id = false

theorem limit_pos (settings : RunSettings) : 0 < settings.limit := by
  rw [RunSettings.limit]
  omega

section Chains
variable {g : Graph} {r : Run} {E : Expansions} {id : NodeId}

/-! ## Starting -/

theorem start_cases (r : Run) (id : NodeId) :
    (∃ t, (r.begun id).prepare id = .ok t ∧
      r.start id = { r.begun id with tasks := r.tasks ++ [t], next := r.next + 1 }) ∨
    ∃ e, (r.begun id).prepare id = .error e ∧ r.start id = (r.begun id).fail id e r.now := by
  rw [start, begun]
  cases ({ r with plan := r.plan.markRunning id }.note id .started r.now).prepare id with
  | ok t => exact .inl ⟨t, rfl, rfl⟩
  | error e => exact .inr ⟨e, rfl, rfl⟩

theorem plan_begun (r : Run) (id : NodeId) : (r.begun id).plan = r.plan.markRunning id := rfl

theorem path_start (E : Expansions) (ha : r.accepting = true)
    (hlimit : r.tasks.length < r.settings.limit) (hr : r.plan.isReady id = true) :
    Path ⟨r, E, none, []⟩ [(r, id)] ⟨r.start id, E, none, []⟩ := by
  have hbegin := Path.start (.refl _) (.mk E ha hlimit hr)
  rcases start_cases r id with ⟨t, ht, h⟩ | ⟨e, he, h⟩
  · rw [h]
    exact hbegin.trans_nil (.single (.enqueue E ht hlimit))
  · rw [h]
    exact hbegin.trans_nil (path_fail (.prepare he) r.now)

theorem keeps_start (r : Run) (id : NodeId) : Keeps r (r.start id) := by
  rcases start_cases r id with ⟨t, -, h⟩ | ⟨e, -, h⟩
  · rw [h]
    exact ⟨rfl, rfl, rfl⟩
  · rw [h]
    have hf := keeps_fail (r.begun id) id e r.now
    exact ⟨hf.settings, hf.phase, hf.stalled⟩

theorem start_of_accepting (h : (r.start id).accepting = true) :
    (r.start id).plan = r.plan.markRunning id ∧
      (r.start id).tasks.length = r.tasks.length + 1 ∧ r.accepting = true := by
  rcases start_cases r id with ⟨t, -, he⟩ | ⟨e, -, he⟩
  · rw [he] at h ⊢
    exact ⟨rfl, by simp, h⟩
  · rw [he, accepting_fail] at h
    cases h

theorem rested_start (hs : r.plan.Sound g E) (ha : r.accepting = true)
    (hr : r.plan.isReady id = true) : (r.start id).Rested := by
  obtain ⟨hp, n, hn, hq, -⟩ := Plan.isReady_iff.1 hr
  rcases start_cases r id with ⟨t, -, h⟩ | ⟨e, -, h⟩
  · intro hna
    rw [h] at hna
    rw [show r.accepting = false from hna] at ha
    cases ha
  · rw [h]
    have hs' : (r.begun id).plan.Sound g E := by
      rw [plan_begun]
      refine hs.markRunning hp fun m hm => ?_
      cases hn.symm.trans hm
      exact hq
    have hrun : (r.begun id).plan.status? id = some .running := by
      rw [plan_begun, Plan.markRunning, Plan.status?_setStatus, if_pos rfl, Plan.isPending_iff.1 hp]
      rfl
    exact rested_fail hs' hrun e r.now

/-- What is started one after the other. -/
structure Startable (g : Graph) (E : Expansions) (r : Run) (ids : List NodeId) : Prop where
  sound : r.plan.Sound g E
  rested : r.Rested
  nodup : ids.Nodup
  ready : ∀ id ∈ ids, r.plan.isReady id = true
  room : r.tasks.length + ids.length ≤ r.settings.limit

theorem Startable.next {ids : List NodeId} (h : Startable g E r (id :: ids))
    (ha : (r.start id).accepting = true) : Startable g E (r.start id) ids := by
  obtain ⟨hplan, htasks, hacc⟩ := start_of_accepting ha
  have hready := h.ready id List.mem_cons_self
  obtain ⟨hp, n, hn, hq, -⟩ := Plan.isReady_iff.1 hready
  have hnd := List.nodup_cons.1 h.nodup
  constructor
  case sound =>
    rw [hplan]
    refine h.sound.markRunning hp fun m hm => ?_
    cases hn.symm.trans hm
    exact hq
  case rested => exact rested_start h.sound hacc hready
  case nodup => exact hnd.2
  case ready =>
    intro x hx
    rw [hplan]
    refine h.sound.isReady_markRunning (h.ready x (List.mem_cons_of_mem id hx)) hready ?_
    rintro rfl
    exact hnd.1 hx
  case room =>
    have := h.room
    rw [htasks, (keeps_start r id).settings]
    rw [List.length_cons] at this
    omega

theorem startAll_of_not_accepting (ids : List NodeId) (h : r.accepting = false) :
    r.startAll ids = r ∧ r.startsOfAll ids = [] := by
  cases ids with
  | nil => exact ⟨rfl, rfl⟩
  | cons id ids => simp [startAll, startsOfAll, h]

theorem path_startAll {ids : List NodeId} (h : Startable g E r ids) :
    Path ⟨r, E, none, []⟩ (r.startsOfAll ids) ⟨r.startAll ids, E, none, []⟩ ∧
      (r.startAll ids).Rested ∧ Keeps r (r.startAll ids) ∧
      ((r.startAll ids).accepting = true →
        (r.startAll ids).plan = ids.foldl Plan.markRunning r.plan ∧
        (r.startAll ids).tasks.length = r.tasks.length + ids.length) := by
  induction ids generalizing r with
  | nil => exact ⟨.refl _, h.rested, .refl r, fun _ => ⟨rfl, rfl⟩⟩
  | cons id ids ih =>
    by_cases ha : r.accepting = true
    · have hready := h.ready id List.mem_cons_self
      have hroom : r.tasks.length < r.settings.limit := by
        have := h.room
        rw [List.length_cons] at this
        omega
      have hpath := path_start E ha hroom hready
      have hkeeps := keeps_start r id
      simp only [startAll, startsOfAll, ha, if_true]
      by_cases hs : (r.start id).accepting = true
      · obtain ⟨hrest, hrested, hkeeps', hall⟩ := ih (h.next hs)
        obtain ⟨hplan, htasks, -⟩ := start_of_accepting hs
        refine ⟨hpath.trans hrest, hrested, hkeeps.trans hkeeps', fun hacc => ?_⟩
        obtain ⟨hp, ht⟩ := hall hacc
        rw [hp, ht, hplan, htasks, List.length_cons]
        exact ⟨rfl, by omega⟩
      · have hs' := Bool.eq_false_iff.2 hs
        obtain ⟨he, hel⟩ := startAll_of_not_accepting ids hs'
        rw [he, hel]
        exact ⟨hpath, rested_start h.sound ha hready, hkeeps, fun hacc => absurd hacc hs⟩
    · have ha' := Bool.eq_false_iff.2 ha
      obtain ⟨he, hel⟩ := startAll_of_not_accepting (id :: ids) ha'
      rw [he, hel]
      exact ⟨.refl _, h.rested, .refl r, fun hacc => absurd hacc ha⟩

theorem startable_ready (hs : r.plan.Sound g E) (hr : r.Rested)
    (hl : r.tasks.length ≤ r.settings.limit) :
    Startable g E r (r.plan.ready (r.settings.limit - r.tasks.length)) := by
  refine ⟨hs, hr, hs.nodup_ready, Plan.ready_spec, ?_⟩
  have hlen : (r.plan.ready (r.settings.limit - r.tasks.length)).length ≤
      r.settings.limit - r.tasks.length := Plan.length_ready_le
  omega

/-- Starting ready nodes is a chain of moves, after which the run is saturated. -/
theorem path_schedule (hs : r.plan.Sound g E) (hr : r.Rested)
    (hl : r.tasks.length ≤ r.settings.limit) :
    Path ⟨r, E, none, []⟩ r.startsOfSchedule ⟨r.schedule, E, none, []⟩ ∧ r.schedule.Rested ∧
      Keeps r r.schedule ∧ r.schedule.Saturated := by
  by_cases ha : r.accepting = true
  · obtain ⟨hpath, hrested, hkeeps, hall⟩ := path_startAll (startable_ready hs hr hl)
    rw [schedule, startsOfSchedule, if_pos ha, if_pos ha]
    refine ⟨hpath, hrested, hkeeps, fun hacc => ?_⟩
    obtain ⟨hplan, htasks⟩ := hall hacc
    rw [hplan, htasks, hkeeps.settings]
    rcases hs.saturated (r.settings.limit - r.tasks.length) with h | h
    · left
      omega
    · exact .inr h
  · rw [schedule, startsOfSchedule, if_neg ha, if_neg ha]
    exact ⟨.refl _, hr, .refl r, fun hacc => absurd hacc ha⟩

/-! ## Observing -/

theorem path_observe (r : Run) (E : Expansions) :
    Path ⟨r, E, none, []⟩ [] ⟨r.observe, E, none, []⟩ := by
  rw [observe]
  split
  next h =>
    obtain ⟨ha, hs⟩ := Bool.and_eq_true_iff.1 h
    exact (Path.single (.observe E ha hs)).trans_nil
      (path_skipPending E cancelReason (by simp [accepting]))
  next => exact .refl _

theorem keeps_observe (r : Run) : Keeps r r.observe := by
  rw [observe]
  split
  next =>
    have h := keeps_skipPending { r with cancelled := true } cancelReason
    exact ⟨h.settings, h.phase, h.stalled⟩
  next => exact .refl r

theorem Rested.observe (h : r.Rested) (hs : r.plan.Sound g E) : r.observe.Rested := by
  rw [Run.observe]
  split
  next =>
    intro _ x
    rw [plan_skipPending]
    exact hs.not_isPending_skipPending cancelReason x
  next => exact h

/-! ## Giving up -/

theorem erase_head {e : NodeId × (Nat × Option Value)} {l : List (NodeId × (Nat × Option Value))}
    {m : SortedMap NodeId (Nat × Option Value)} (h : m.toList = e :: l) : (m.erase e.1).toList = l := by
  have hnd := m.nodup_keys
  rw [SortedMap.keys, h, List.map_cons, List.nodup_cons] at hnd
  change m.toList.filter (fun e' => e'.1 ≠ e.1) = l
  rw [h, List.filter_cons, if_neg (by simp), List.filter_eq_self]
  intro e' he'
  refine decide_eq_true fun hk => hnd.1 ?_
  rw [← hk]
  exact List.mem_map_of_mem he'

theorem path_settleDeferred (E : Expansions) (hd : r.destroys = []) :
    Path ⟨r, E, none, []⟩ [] ⟨r.settleDeferred, E, none, []⟩ := by
  have hall : ∀ (l : List (NodeId × (Nat × Option Value))) (r : Run), r.destroys = [] →
      r.deferred.toList = l → Path ⟨r, E, none, []⟩ []
        ⟨l.foldl (fun r e => r.settle e.1 e.2.2) { r with deferred := .empty }, E, none, []⟩ := by
    intro l
    induction l with
    | nil =>
      intro r hd hl
      have hempty : r.deferred = .empty := by
        cases hm : r.deferred with
        | mk entries sorted =>
          rw [hm] at hl
          cases hl
          rfl
      rw [List.foldl_nil, ← hempty]
      exact .refl _
    | cons e l ih =>
      intro r hd hl
      have hget : r.deferred.get? e.1 = some e.2 :=
        (SortedMap.mem_toList_iff _ _ _).1 (hl ▸ List.mem_cons_self)
      have hrest := ih ({ r with deferred := r.deferred.erase e.1 }.settle e.1 e.2.2) hd
        (erase_head hl)
      exact (Path.single (.giveUp E hd hget)).trans_nil hrest
  exact hall _ r hd rfl

theorem keeps_settleDeferred (r : Run) : Keeps r r.settleDeferred := by
  rw [settleDeferred]
  refine List.foldlRecOn (motive := fun q : Run => Keeps r q) r.deferred.toList _ ⟨rfl, rfl, rfl⟩ ?_
  exact fun _ hq _ _ => hq.trans ⟨rfl, rfl, rfl⟩

theorem deferred_settleDeferred (r : Run) : r.settleDeferred.deferred = .empty := by
  rw [settleDeferred]
  refine List.foldlRecOn (motive := fun q : Run => q.deferred = .empty) r.deferred.toList _ rfl ?_
  exact fun _ hq _ _ => hq

theorem Rested.settleDeferred (h : r.Rested) : r.settleDeferred.Rested := by
  rw [Run.settleDeferred]
  refine List.foldlRecOn (motive := fun q : Run => q.Rested) r.deferred.toList _ (h.congr rfl rfl) ?_
  exact fun _ hq e _ => hq.settle e.1 e.2.2

/-! ## Room -/

end Chains
end Run

section Room
variable {s t : Stage}

theorem Moves.settings (hm : Moves s t) : t.run.settings = s.run.settings := by
  cases hm with
  | conclude r hE => exact (Run.keeps_conclude r _ _).settings
  | fail hf => exact (Run.keeps_blame _ _ _).settings
  | release r E a id l => exact (Run.agree_release r id).settings
  | @credit r E t ht result time hf owner ho =>
    exact (Run.keeps_credit (r.dropDestroy t.number) owner).settings
  | drain E hw ht hd hp => exact (Run.agree_spawnDestroys none _ _).settings
  | _ => rfl

theorem Moves.room (hm : Moves s t) (h : s.run.tasks.length ≤ s.run.settings.limit) :
    t.run.tasks.length ≤ t.run.settings.limit := by
  rw [hm.settings]
  cases hm with
  | collect E ht hf => exact Nat.le_trans (List.length_filter_le _ _) h
  | enqueue E hp hlimit =>
    rw [List.length_append, List.length_singleton]
    exact hlimit
  | conclude r hE =>
    rw [Run.tasks_conclude]
    exact h
  | fail hf =>
    rw [Run.tasks_blame]
    exact h
  | release r E a id l =>
    rw [(Run.agree_release r id).tasks]
    exact h
  | @credit r E t ht result time hf owner ho =>
    rw [Run.tasks_credit]
    exact h
  | drain E hw ht hd hp =>
    rw [(Run.agree_spawnDestroys none _ _).tasks]
    exact h
  | _ => exact h

theorem Path.settings {l : List (Run × NodeId)} (hp : Path s l t) :
    t.run.settings = s.run.settings := by
  induction hp with
  | refl => rfl
  | move _ hm ih => exact hm.settings.trans ih
  | start _ hb ih =>
    cases hb
    exact ih

theorem Path.room {l : List (Run × NodeId)} (hp : Path s l t)
    (h : s.run.tasks.length ≤ s.run.settings.limit) : t.run.tasks.length ≤ t.run.settings.limit := by
  induction hp with
  | refl => exact h
  | move _ hm ih => exact hm.room ih
  | start _ hb ih =>
    cases hb
    exact ih

end Room

end Workplan
