import Workplan.Proofs.Run.Scheduling

/-! Failures: which nodes of a run fail, and why. A node fails when it starts and cannot be prepared, or when
its work ends with an error or with instances that do not fit. What the run says of its failures, in its
timeline, its statuses and its outcome, is read off the list of them (`Blames`). -/
namespace Workplan
set_option autoImplicit false

/-- The nodes that have failed, in the order in which that has been noted. -/
def Timeline.failedNodes (t : Timeline) : List NodeId :=
  (t.events.filter fun e => e.kind = .failed).map fun e => e.node

theorem Timeline.failedNodes_add (tl : Timeline) (id : NodeId) (kind : EventKind) (time : Int) :
    (tl.add id kind time).failedNodes =
      tl.failedNodes ++ if kind = .failed then [id] else [] := by
  simp only [failedNodes, add, List.filter_append, List.map_append]
  by_cases hk : kind = .failed
  · simp [hk]
  · simp [hk]

namespace Run

/-- A node and its failure. -/
abbrev Failure := NodeId × RunError

/-- The failure of a node that starts. -/
def failureOfStart? (x : Run × NodeId) : Option Failure :=
  match (x.1.begun x.2).prepare x.2 with
  | .ok _ => none
  | .error e => some (x.2, e)

/-- The failure of a node whose work has ended. -/
def failureOfResult? (p : Plan) (id : NodeId) : WorkOutcome → Option Failure
  | .error e => some (id, e)
  | .ok (.expanded vars) =>
    match p.expand id vars with
    | .ok _ => none
    | .error e => some (id, .expansion e)
  | .ok _ => none

/-- The failure that the run notes when it takes note of a task. -/
def failureOfEnd? (r : Run) : Event → Option Failure
  | .collectTask n =>
    match r.task? n with
    | some ⟨_, node, _, .finished result _⟩ => failureOfResult? r.plan node result
    | _ => none
  | _ => none

/-- The failures that follow from an event. -/
def failuresOfStep (r : Run) (e : Event) : List Failure :=
  (r.failureOfEnd? e).toList ++ (r.startsOfStep e).filterMap failureOfStart?

/-- The failures of a run of a graph, in its first turn and by events. -/
def allFailures (settings : RunSettings) (g : Graph) (stopRequested : Bool) (h : Trace) :
    List Failure :=
  (new settings g stopRequested).startsOfTurn.filterMap failureOfStart? ++
    h.flatMap fun e => e.1.failuresOfStep e.2

/-- What a run says of the nodes that have failed. -/
structure Blames (r : Run) (fs : List Failure) : Prop where
  recorded : r.timeline.failedNodes = fs.map Prod.fst
  status : ∀ {id m}, r.plan.status? id = some (.failed m) ↔ ∃ e, (id, e) ∈ fs ∧ m = e.message
  first : ∀ {f}, r.failure = some f → fs.head? = some f
  accepting : r.accepting = true → fs = []

/-- No node fails between the two runs. -/
structure Spared (r r' : Run) : Prop where
  failedNodes : r'.timeline.failedNodes = r.timeline.failedNodes
  status : ∀ {id m}, r'.plan.status? id = some (.failed m) ↔ r.plan.status? id = some (.failed m)
  failure : r'.failure = r.failure
  accepting : r'.accepting = true → r.accepting = true

namespace Spared
variable {r r' r'' : Run} {id : NodeId}

theorem refl (r : Run) : Spared r r := ⟨rfl, .rfl, rfl, fun h => h⟩

theorem trans (h : Spared r r') (h' : Spared r' r'') : Spared r r'' where
  failedNodes := h'.failedNodes.trans h.failedNodes
  status := h'.status.trans h.status
  failure := h'.failure.trans h.failure
  accepting := fun ha => h.accepting (h'.accepting ha)

theorem blames (h : Spared r r') {fs : List Failure} (hb : Blames r fs) : Blames r' fs where
  recorded := h.failedNodes.trans hb.recorded
  status := h.status.trans hb.status
  first := fun hf => hb.first (h.failure.symm.trans hf)
  accepting := fun ha => hb.accepting (h.accepting ha)

theorem agree (h : Agree r r') (ht : r'.timeline.failedNodes = r.timeline.failedNodes) :
    Spared r r' where
  failedNodes := ht
  status := by rw [h.plan]
  failure := h.failure
  accepting := fun ha => h.accepting ▸ ha

theorem undisturbed (h : Undisturbed r r') : Spared r r' where
  failedNodes := by rw [h.timeline]
  status := by rw [h.plan]
  failure := h.failure
  accepting := fun ha => by rwa [Run.accepting, h.failure, h.cancelled] at ha

theorem note (r : Run) (id : NodeId) {kind : EventKind} (hk : kind ≠ .failed) (time : Nat) :
    Spared r (r.note id kind time) where
  failedNodes := by
    rw [Run.note, Timeline.failedNodes_add, if_neg hk, List.append_nil]
  status := .rfl
  failure := rfl
  accepting := fun h => h

/-! ### Changes of the plan -/

theorem replan {p : Plan}
    (h : ∀ {id m}, p.status? id = some (.failed m) ↔ r.plan.status? id = some (.failed m)) :
    Spared r { r with plan := p } :=
  ⟨rfl, h, rfl, fun ha => ha⟩

theorem status_setStatus {p : Plan} {s : NodeStatus} (hp : ∀ m, p.status? id ≠ some (.failed m))
    (hs : ∀ m, s ≠ .failed m) {x : NodeId} {m : String} :
    (p.setStatus id s).status? x = some (.failed m) ↔ p.status? x = some (.failed m) := by
  rw [Plan.status?_setStatus]
  split
  next he =>
    subst he
    refine ⟨fun h => ?_, fun h => absurd h (hp m)⟩
    obtain ⟨_, -, h⟩ := Option.map_eq_some_iff.1 h
    exact absurd h (hs m)
  next => exact .rfl

theorem status_skips {p p' : Plan} {reason : String} {ids : List NodeId}
    (h : Plan.Skips reason p ids p') {x : NodeId} {m : String} :
    p'.status? x = some (.failed m) ↔ p.status? x = some (.failed m) := by
  rw [h.status]
  split
  next hx =>
    rw [Plan.isPending_iff.1 (h.pending x hx)]
    exact ⟨fun hc => (by cases hc), fun hc => (by cases hc)⟩
  next => exact .rfl

theorem status_foldl_skip {reason : String} (l : List NodeId) (p : Plan)
    (hp : ∀ id ∈ l, ∀ m, p.status? id ≠ some (.failed m)) {x : NodeId} {m : String} :
    (l.foldl (fun p id => p.setStatus id (.skipped reason)) p).status? x = some (.failed m) ↔
      p.status? x = some (.failed m) := by
  induction l generalizing p with
  | nil => exact .rfl
  | cons id l ih =>
    have hset : ∀ {y m}, (p.setStatus id (.skipped reason)).status? y = some (.failed m) ↔
        p.status? y = some (.failed m) :=
      status_setStatus (hp id List.mem_cons_self) fun _ => NodeStatus.noConfusion
    refine (ih _ fun y hy m' hm => ?_).trans hset
    exact hp y (List.mem_cons_of_mem id hy) m' (hset.1 hm)

/-! ### Chains of operations -/

theorem release (r : Run) (id : NodeId) : Spared r (r.release id).1 :=
  agree (agree_release r id) (by rw [timeline_release])

theorem recordSkipped (r : Run) (ids : List NodeId) : Spared r (r.recordSkipped ids) := by
  induction ids generalizing r with
  | nil => exact refl r
  | cons id ids ih =>
    exact ((note r id (by decide) r.now).trans (release _ id)).trans (ih (r.recordSkippedOne id))

theorem skipPending (r : Run) (reason : String) : Spared r (r.skipPending reason).1 :=
  (replan (status_skips (Plan.skips_skipPending r.plan reason).1)).trans (recordSkipped _ _)

theorem skipIdle (r : Run) : Spared r r.skipIdle := by
  refine (replan (status_foldl_skip _ _ fun id hid m hm => ?_)).trans (recordSkipped _ _)
  obtain ⟨n, hn, rfl⟩ := List.mem_map.1 hid
  have hpend : r.plan.isPending n.id = true :=
    (Bool.and_eq_true_iff.1 (List.mem_filter.1 hn).2).2
  rw [Plan.isPending_iff.1 hpend] at hm
  cases hm

theorem skipUnlessAccepting (r : Run) : Spared r r.skipUnlessAccepting := by
  rw [Run.skipUnlessAccepting]
  split
  next => exact refl r
  next => exact skipPending r cancelReason

theorem settle (hr : r.plan.status? id = some .running) (output : Option Value) :
    Spared r (r.settle id output) := by
  refine replan fun {x m} => ?_
  rw [Plan.status?_markSucceeded, ← Plan.status?_setStatus]
  exact status_setStatus (fun m => by simp [hr]) fun _ => NodeStatus.noConfusion

theorem conclude (hr : r.plan.status? id = some .running) (output : Option Value) :
    Spared r (r.conclude id output) := by
  have hrel := release r id
  have hrun : (r.release id).1.plan.status? id = some .running := by
    rw [(agree_release r id).plan]
    exact hr
  simp only [Run.conclude]
  split
  next => exact hrel.trans (settle hrun output)
  next => exact hrel.trans ⟨rfl, .rfl, rfl, fun h => h⟩

theorem succeed (hr : r.plan.status? id = some .running) (output : Option Value) (time : Nat) :
    Spared r (r.succeed id output time) := by
  rw [succeed_eq]
  have hnote : Spared r (r.note id .succeeded time) := note r id (by decide) time
  exact hnote.trans (conclude (r := r.note id .succeeded time) hr output)

theorem credit {g : Graph} {E : Expansions} (hl : Live g ⟨r, E, none, []⟩) (owner : NodeId) :
    Spared r (r.credit owner) := by
  rw [Run.credit]
  split
  next => exact refl r
  next waiting output hd =>
    have hrun : r.plan.status? owner = some .running := hl.deferred hd
    split
    next => exact ⟨rfl, .rfl, rfl, fun h => h⟩
    next =>
      have herase : Spared r { r with deferred := r.deferred.erase owner } :=
        ⟨rfl, .rfl, rfl, fun h => h⟩
      exact herase.trans (settle (r := { r with deferred := r.deferred.erase owner }) hrun output)

theorem destroyDone {g : Graph} {E : Expansions} (hl : Live g ⟨r, E, none, []⟩) (owner : NodeId) :
    Spared r (r.destroyDone owner) := by
  rcases destroyDone_cases r owner with ⟨-, h⟩ | h
  · rw [h]
    exact credit hl owner
  · rw [h]
    exact (credit hl owner).trans (skipIdle _)

theorem recordDestroy {g : Graph} {E : Expansions} (hl : Live g ⟨r, E, none, []⟩) (t : DestroyTask)
    (result : DestroyResult) (time : Nat) : Spared r (r.recordDestroy t result time) := by
  have hnote : ∀ es, Spared r (r.markDestroyed t.resource es time) := fun es =>
    (note r (NodeId.resource t.resource) (by decide) time).trans ⟨rfl, .rfl, rfl, fun h => h⟩
  rcases recordDestroy_cases r t result time with ⟨-, h⟩ | ⟨es, ⟨-, h⟩ | ⟨owner, -, h⟩⟩
  · rw [h]
    exact refl r
  · rw [h]
    exact hnote es
  · have hlive : Live g ⟨r.markDestroyed t.resource es time, E, none, []⟩ := hl.frame rfl rfl rfl rfl
    rw [h]
    exact (hnote es).trans (destroyDone hlive owner)

theorem foldl_settle (l : List (NodeId × (Nat × Option Value))) (hl : (l.map Prod.fst).Nodup)
    (r : Run) (hr : ∀ e ∈ l, r.plan.status? e.1 = some .running) :
    Spared r (l.foldl (fun r e => r.settle e.1 e.2.2) r) := by
  induction l generalizing r with
  | nil => exact refl r
  | cons e l ih =>
    rw [List.map_cons, List.nodup_cons] at hl
    refine (settle (hr e List.mem_cons_self) e.2.2).trans (ih hl.2 _ fun e' he' => ?_)
    have hne : e'.1 ≠ e.1 := fun h => hl.1 (h ▸ List.mem_map_of_mem he')
    change (r.plan.markSucceeded e.1 e.2.2).status? e'.1 = _
    rw [Plan.status?_markSucceeded, if_neg hne]
    exact hr e' (List.mem_cons_of_mem e he')

theorem settleDeferred {g : Graph} {E : Expansions} (hl : Live g ⟨r, E, none, []⟩) :
    Spared r r.settleDeferred := by
  have hempty : Spared r { r with deferred := .empty } := ⟨rfl, .rfl, rfl, fun h => h⟩
  refine hempty.trans (foldl_settle _ r.deferred.nodup_keys _ fun e he => ?_)
  exact hl.deferred ((SortedMap.mem_toList_iff _ _ _).1 he)

theorem observe (r : Run) : Spared r r.observe := by
  rw [Run.observe]
  split
  next h =>
    have hcancel : Spared r { r with cancelled := true } :=
      ⟨rfl, .rfl, rfl, fun _ => (Bool.and_eq_true_iff.1 h).1⟩
    exact hcancel.trans (skipPending _ cancelReason)
  next => exact refl r

theorem spawnDestroys (owner : Option NodeId) (r : Run) (l : List Released) :
    Spared r (Run.spawnDestroys owner r l).1 :=
  agree (agree_spawnDestroys owner r l) (by rw [timeline_spawnDestroys])

theorem endIfQuiet (r : Run) : Spared r r.endIfQuiet := by
  rw [Run.endIfQuiet]
  split
  next => exact ⟨rfl, .rfl, rfl, fun h => h⟩
  next => exact refl r

theorem stop (r : Run) : Spared r r.stop := by
  have hun : Spared r r.unstalled := by
    rw [unstalled]
    split
    next => exact (skipPending r stallReason).trans ⟨rfl, .rfl, rfl, fun h => h⟩
    next => exact refl r
  have hslots : Spared r.unstalled
      { r.unstalled with slots := r.unstalled.slots.drain.2, phase := .tearingDown } :=
    ⟨rfl, .rfl, rfl, fun h => h⟩
  rw [stop_eq]
  exact (hun.trans (hslots.trans (spawnDestroys none _ _))).trans (endIfQuiet _)

theorem resume (h : r.phase ≠ .working) : Spared r r.resume := by
  cases hp : r.phase with
  | working => exact absurd hp h
  | tearingDown =>
    simp only [Run.resume, hp]
    exact endIfQuiet r
  | ended =>
    simp only [Run.resume, hp]
    exact refl r

end Spared

/-- A failure spares the other nodes: what happens after the failure of a node has been remembered. -/
theorem spared_fail (r : Run) (id : NodeId) (e : RunError) (time : Nat) :
    Spared ({ r.note id .failed time with
      plan := (r.plan.markFailed id e.message).1 }.blame id e) (r.fail id e time) :=
  ((Spared.recordSkipped _ _).trans (Spared.release _ id)).trans (Spared.skipUnlessAccepting _)

theorem failure_blame {r : Run} (ha : r.accepting = true) {e : RunError} (he : e ≠ .cancelled)
    (id : NodeId) : (r.blame id e).failure = some (id, e) := by
  rw [blame, ha, if_neg (by decide), if_neg he]

theorem fail_spec {r : Run} {id : NodeId} (hk : (r.plan.status? id).isSome = true) (e : RunError)
    (time : Nat) : (r.fail id e time).plan.status? id = some (.failed e.message) ∧
      (r.fail id e time).timeline.failedNodes = r.timeline.failedNodes ++ [id] ∧
      (r.accepting = true → e ≠ .cancelled → (r.fail id e time).failure = some (id, e)) := by
  have hs := spared_fail r id e time
  refine ⟨hs.status.2 ?_, ?_, fun ha he => hs.failure.trans ?_⟩
  · rw [plan_blame]
    refine (Spared.status_skips (Plan.skips_markFailed r.plan id e.message)).2 ?_
    obtain ⟨s, hs⟩ := Option.isSome_iff_exists.1 hk
    rw [Plan.status?_setStatus, if_pos rfl, hs]
    rfl
  · rw [hs.failedNodes, timeline_blame]
    change (r.note id .failed time).timeline.failedNodes = _
    rw [Run.note, Timeline.failedNodes_add, if_pos rfl]
  · exact failure_blame (r := { r.note id .failed time with
      plan := (r.plan.markFailed id e.message).1 }) ha he id

theorem resume_of_working {r : Run} (h : r.phase = .working) : r.resume = r.turn := by
  simp only [resume, h]

/-! ## Nodes that fail -/

section Blames
variable {g : Graph} {r r' : Run} {E : Expansions} {fs : List Failure} {id : NodeId}

theorem Blames.fail (hb : Blames r fs) (hr : r.plan.status? id = some .running) (e : RunError)
    (time : Nat) : Blames (r.fail id e time) (fs ++ [(id, e)]) := by
  have hnew : ∀ e', (id, e') ∉ fs := by
    intro e' he'
    have hfailed := hb.status.2 ⟨e', he', rfl⟩
    rw [hr] at hfailed
    cases hfailed
  have hblamed : Blames ({ r.note id .failed time with
      plan := (r.plan.markFailed id e.message).1 }.blame id e) (fs ++ [(id, e)]) := by
    constructor
    case recorded =>
      rw [timeline_blame]
      change (r.note id .failed time).timeline.failedNodes = _
      rw [Run.note, Timeline.failedNodes_add, if_pos rfl, hb.recorded, List.map_append]
      rfl
    case status =>
      intro x m
      rw [plan_blame]
      refine (Spared.status_skips (Plan.skips_markFailed r.plan id e.message)).trans ?_
      rw [Plan.status?_setStatus]
      split
      next hx =>
        subst hx
        simp [hr, hnew, eq_comm]
      next hx => simp [hb.status, hx]
    case first =>
      -- A failure is remembered only by a run that accepts, which has none yet.
      intro f hf
      rw [blame] at hf
      split at hf
      next hacc =>
        rw [List.head?_append, hb.first hf]
        rfl
      next hacc =>
        have ha : r.accepting = true :=
          Bool.of_not_eq_false fun hc => hacc (by rw [Bool.not_eq_true']; exact hc)
        split at hf
        next =>
          have hnone : r.failure = none := by
            rw [Run.accepting, Bool.and_eq_true_iff] at ha
            exact Option.isNone_iff_eq_none.1 ha.1
          exact absurd (hnone.symm.trans hf) (by simp)
        next =>
          rw [hb.accepting ha]
          exact hf
    case accepting =>
      intro ha
      rw [accepting_blame] at ha
      cases ha
  exact (spared_fail r id e time).blames hblamed

theorem Blames.complete (hg : g.Sound) {result : WorkOutcome}
    (hl : Live g ⟨r, E, some (id, some result), []⟩) (hE : E id = none) (hb : Blames r fs)
    (time : Nat) :
    Blames (r.complete id result time) (fs ++ (failureOfResult? r.plan id result).toList) := by
  have hrun : r.plan.status? id = some .running := (hl.active rfl).1
  match result with
  | .error e => exact hb.fail hrun e time
  | .ok (.output v) =>
    change Blames _ (fs ++ [])
    rw [List.append_nil]
    exact (Spared.succeed hrun (some v) time).blames hb
  | .ok .created =>
    change Blames _ (fs ++ [])
    rw [List.append_nil]
    exact (Spared.succeed hrun none time).blames hb
  | .ok (.expanded vars) =>
    rw [Run.complete, failureOfResult?]
    cases hx : r.plan.expand id vars with
    | error e =>
      rw [expanded_eq_error hx]
      exact hb.fail hrun (.expansion e) time
    | ok out =>
      obtain ⟨p, children⟩ := out
      have hexp := Plan.Sound.expands hg hl.sound hE hx
      have hplan : Spared r ({ r with plan := p }.addConsumers children) := by
        refine ⟨rfl, ?_, rfl, fun h => h⟩
        intro x m
        change p.status? x = _ ↔ _
        exact hexp.status_iff hl.sound NodeStatus.noConfusion
      have hrun' : ({ r with plan := p }.addConsumers children).plan.status? id = some .running :=
        hexp.keeps_status hl.sound hrun
      rw [expanded_eq_ok hx]
      dsimp only
      rw [Option.toList_none, List.append_nil]
      refine Spared.blames ?_ hb
      exact ((hplan.trans (Spared.succeed hrun' none time)).trans (Spared.skipIdle _)).trans
        (Spared.skipUnlessAccepting _)

/-! ## Nodes that start -/

theorem Blames.start (hb : Blames r fs) (hp : r.plan.isPending id = true) :
    Blames (r.start id) (fs ++ (failureOfStart? (r, id)).toList) := by
  have hpend := Plan.isPending_iff.1 hp
  have hbegun : Spared r (r.begun id) := by
    have hplan : Spared r { r with plan := r.plan.markRunning id } :=
      .replan (Spared.status_setStatus
        (fun m => by simp [hpend]) fun _ => NodeStatus.noConfusion)
    exact hplan.trans (Spared.note _ id (by decide) _)
  have hrun : (r.begun id).plan.status? id = some .running := by
    rw [plan_begun, Plan.markRunning, Plan.status?_setStatus, if_pos rfl, hpend]
    rfl
  rw [failureOfStart?]
  rcases start_cases r id with ⟨t, ht, h⟩ | ⟨e, he, h⟩
  · rw [h, ht, Option.toList_none, List.append_nil]
    have htask : Spared (r.begun id)
        { r.begun id with tasks := r.tasks ++ [t], next := r.next + 1 } := ⟨rfl, .rfl, rfl, fun h => h⟩
    exact (hbegun.trans htask).blames hb
  · rw [h, he]
    exact (hbegun.blames hb).fail hrun e r.now

theorem Blames.turn (hg : g.Sound) (h : Live g ⟨r, E, none, []⟩) (hn : r.Numbered) (hr : r.Rested)
    (hl : r.tasks.length ≤ r.settings.limit) (hb : Blames r fs) :
    Blames r.turn (fs ++ r.startsOfTurn.filterMap failureOfStart?) := by
  have hkeeps : TurnKeeps g E fun r l => Blames r (fs ++ l.filterMap failureOfStart?) := by
    constructor
    case start =>
      intro r id l _ hp hb
      have hlast : [(r, id)].filterMap failureOfStart? = (failureOfStart? (r, id)).toList := by
        rw [List.filterMap_cons, List.filterMap_nil]
        cases failureOfStart? (r, id) <;> rfl
      rw [List.filterMap_append, hlast, ← List.append_assoc]
      exact hb.start hp
    case observe => exact fun hb => (Spared.observe _).blames hb
    case settle => exact fun hlive hb => (Spared.settleDeferred hlive).blames hb
    case stop => exact fun hb => (Spared.stop _).blames hb
  have hturn := hkeeps.turn hg h hn hr hl (l := []) (by rwa [List.filterMap_nil, List.append_nil])
  rwa [List.nil_append] at hturn

/-! ## Along a history -/

theorem blames_new (settings : RunSettings) (g : Graph) (stopRequested : Bool) :
    Blames (new settings g stopRequested) [] where
  recorded := rfl
  status := by
    intro id m
    refine ⟨fun h => ?_, fun ⟨_, h, _⟩ => (by cases h)⟩
    change (g.nodes.mapValues fun _ _ => NodeStatus.pending).get? id = _ at h
    rw [SortedMap.get?_mapValues] at h
    obtain ⟨_, -, h⟩ := Option.map_eq_some_iff.1 h
    cases h
  first := fun h => by cases h
  accepting := fun _ => rfl

theorem Notes.blames {e : Event} {r₁ : Run} (hn : Notes r e r₁) (hg : g.Sound) (h : Reached g E r)
    (hb : Blames r fs) : Blames r₁ (fs ++ (r.failureOfEnd? e).toList) := by
  cases hn with
  | @task t ht result time hf =>
    have hfound := task?_of_mem h.numbered ht
    have hE : E t.node = none := (h.live.task ht).2.2
    have hcollect : Path ⟨r, E, none, []⟩ [] ⟨r.dropTask t.number, E, some (t.node, some result), []⟩ :=
      .single (.collect E ht hf)
    have hspared : Spared r (r.dropTask t.number) := ⟨rfl, .rfl, rfl, fun h => h⟩
    have hdone := (hspared.blames hb).complete hg (hcollect.live hg h.numbered h.live) hE time
    obtain ⟨number, node, deadline, phase⟩ := t
    cases hf
    rw [failureOfEnd?, hfound]
    exact hdone
  | @destroy t ht result time hf =>
    have hlive : Live g ⟨r.dropDestroy t.number, E, none, []⟩ := h.live.frame rfl rfl rfl rfl
    have hspared : Spared r (r.dropDestroy t.number) := ⟨rfl, .rfl, rfl, fun h => h⟩
    have hend : r.failureOfEnd? (.collectDestroy t.number) = none := rfl
    rw [hend, Option.toList_none, List.append_nil]
    exact (hspared.trans (.recordDestroy hlive t result time)).blames hb
  | stop hw ha hs =>
    have hend : r.failureOfEnd? .observeStop = none := rfl
    rw [hend, Option.toList_none, List.append_nil]
    exact hb

theorem Blames.step (hg : g.Sound) (h : Reached g E r) {e : Event} (hs : r.step e = some r')
    (hb : Blames r fs) : Blames r' (fs ++ r.failuresOfStep e) := by
  rw [failuresOfStep, ← List.append_assoc]
  cases he : e.isNoted with
  | false =>
    have hend : r.failureOfEnd? e = none := by
      cases e with
      | collectTask n => cases he
      | _ => rfl
    rw [hend, startsOfStep_of_not_isNoted r he]
    have hspared := (Spared.undisturbed (works_of_step he hs).undisturbed).blames hb
    simpa using hspared
  | true =>
    obtain ⟨r₁, E', hn, hpath, hrested, rfl, hstarts⟩ := h.notes hg he hs
    have hnoted := hn.blames hg h hb
    rw [hstarts, startsOfResume]
    by_cases hw : r₁.phase = .working
    · rw [if_pos hw, resume_of_working hw]
      exact hnoted.turn hg (hpath.live hg h.numbered h.live) (hpath.numbered h.numbered) hrested
        (hpath.room h.room)
    · rw [if_neg hw, List.filterMap_nil, List.append_nil]
      exact (Spared.resume hw).blames hnoted

theorem Leads.blames (hg : g.Sound) {settings : RunSettings} {stopRequested : Bool} {h : Trace}
    (hl : Leads (ofGraph settings g stopRequested) h r) :
    Blames r (allFailures settings g stopRequested h) := by
  induction hl with
  | start =>
    have hturn := (blames_new settings g stopRequested).turn hg (live_new hg settings stopRequested)
      (numbered_new settings g stopRequested) (fun ha => by cases ha) (Nat.zero_le _)
    rw [allFailures, List.flatMap_nil, List.append_nil]
    exact hturn
  | @event h r r' e hl he ih =>
    obtain ⟨E, hr⟩ := hl.reached hg
    have hstep := ih.step hg hr he
    simpa [allFailures, List.append_assoc] using hstep

end Blames
end Run

end Workplan
