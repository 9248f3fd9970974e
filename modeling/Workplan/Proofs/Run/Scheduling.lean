import Workplan.Proofs.Run.History

/-! Scheduling: which nodes a run starts, and when. No node is started twice, none before its predecessors
have succeeded, none beyond the limit, and none after the first failure or a cancellation; and no node that
could start is left waiting. -/
namespace Workplan
set_option autoImplicit false

/-- The nodes that have been started, in order. -/
def Timeline.startedNodes (t : Timeline) : List NodeId :=
  (t.events.filter fun e => e.kind = .started).map fun e => e.node

section Moves
variable {g : Graph} {s t : Stage}

/-! ## Records -/

theorem Timeline.startedNodes_add (tl : Timeline) (id : NodeId) (kind : EventKind) (time : Int) :
    (tl.add id kind time).startedNodes =
      tl.startedNodes ++ if kind = .started then [id] else [] := by
  rw [startedNodes, startedNodes, add, List.filter_append, List.map_append]
  congr 1
  by_cases h : kind = .started
  · rw [if_pos h, List.filter_cons_of_pos (by simpa using h)]
    rfl
  · rw [if_neg h, List.filter_cons_of_neg (by simpa using h)]
    rfl

theorem Run.timeline_release (r : Run) (id : NodeId) : (r.release id).1.timeline = r.timeline :=
  timeline_spawnDestroys (some id) { r with slots := (r.slots.release id).2 } (r.slots.release id).1

theorem Run.timeline_blame (r : Run) (id : NodeId) (e : RunError) :
    (r.blame id e).timeline = r.timeline := by
  rw [blame_eq]

theorem Run.timeline_credit (r : Run) (owner : NodeId) : (r.credit owner).timeline = r.timeline := by
  rw [credit_eq]

theorem Moves.startedNodes (hm : Moves s t) :
    t.run.timeline.startedNodes = s.run.timeline.startedNodes := by
  cases hm with
  | note r E a l id time hk =>
    rw [Run.note, Timeline.startedNodes_add, if_neg hk, List.append_nil]
  | @conclude r E id w hE =>
    rw [Run.conclude_eq]
    exact congrArg Timeline.startedNodes (r.timeline_release id)
  | fail hf => exact congrArg Timeline.startedNodes (Run.timeline_blame _ _ _)
  | release r E a id l => rw [Run.timeline_release]
  | credit E ht hf ho => exact congrArg Timeline.startedNodes (Run.timeline_credit _ _)
  | drain E hw ht hd hp => exact congrArg Timeline.startedNodes (Run.timeline_spawnDestroys none _ _)
  | _ => rfl

theorem Path.startedNodes {l : List (Run × NodeId)} (hp : Path s l t) :
    t.run.timeline.startedNodes = s.run.timeline.startedNodes ++ l.map Prod.snd := by
  induction hp with
  | refl => rw [List.map_nil, List.append_nil]
  | move _ hm ih => rw [hm.startedNodes, ih]
  | start _ hb ih =>
    cases hb with
    | mk E ha hlimit hr =>
      rw [Run.begun, Run.note, Timeline.startedNodes_add, if_pos rfl, List.map_append,
        ← List.append_assoc, ← ih]
      rfl

/-! ## Acceptance -/

theorem Moves.not_accepting (hm : Moves s t) (h : s.run.accepting = false) :
    t.run.accepting = false := by
  cases hm with
  | conclude r hE => exact (Run.accepting_conclude r _ _).trans h
  | fail hf => exact Run.accepting_blame _ _ _
  | release r E a id l => exact (Run.agree_release r id).accepting.trans h
  | observe E ha hs => simp [Run.accepting]
  | @credit r E t ht result time hf owner ho =>
    exact (Run.accepting_credit (r.dropDestroy t.number) owner).trans h
  | drain E hw ht hd hp => exact (Run.agree_spawnDestroys none _ _).accepting.trans h
  | _ => exact h

theorem Path.of_not_accepting {l : List (Run × NodeId)} (hp : Path s l t)
    (h : s.run.accepting = false) : t.run.accepting = false ∧ l = [] := by
  induction hp with
  | refl => exact ⟨h, rfl⟩
  | move _ hm ih => exact ⟨hm.not_accepting ih.1, ih.2⟩
  | start _ hb ih =>
    cases hb with
    | mk E ha hlimit hr =>
      have hna := ih.1
      rw [ha] at hna
      cases hna

/-! ## Starts -/

/-- What holds of the run that a node is started in. -/
structure Run.Admits (settings : RunSettings) (r : Run) (id : NodeId) : Prop where
  kept : r.settings = settings
  accepting : r.accepting = true
  room : r.tasks.length < settings.limit
  ready : r.plan.isReady id = true

theorem Begins.hasStarted {id : NodeId} (hb : Begins s id t) :
    s.run.plan.hasStarted id = false ∧ t.run.plan.hasStarted id = true := by
  cases hb with
  | @mk r E id ha hlimit hr =>
    have hp := Plan.isPending_iff.1 (Plan.isPending_of_isReady hr)
    constructor
    · rw [Plan.hasStarted, hp]
      rfl
    · rw [Run.plan_begun, Plan.hasStarted, Plan.markRunning, Plan.status?_setStatus, if_pos rfl, hp]
      rfl

/-- A chain of moves starts nodes that have not been started before, and each of them once. -/
theorem Path.starts {l : List (Run × NodeId)} (hg : g.Sound) (hp : Path s l t)
    (hn : s.run.Numbered) (h : Live g s) :
    (∀ x ∈ l, s.run.plan.hasStarted x.2 = false ∧ t.run.plan.hasStarted x.2 = true ∧
      x.1.Admits s.run.settings x.2) ∧ (l.map Prod.snd).Nodup := by
  induction hp with
  | refl => exact ⟨fun x hx => (by cases hx), List.nodup_nil⟩
  | move hp hm ih =>
    refine ⟨fun x hx => ?_, ih.2⟩
    obtain ⟨hs, ht, hx⟩ := ih.1 x hx
    exact ⟨hs, (hm.evolves hg (hp.live hg hn h)).started ht, hx⟩
  | @start t u l id hp hb ih =>
    have hev := hp.evolves hg hn h
    constructor
    · intro x hx
      rcases List.mem_append.1 hx with hx | hx
      · obtain ⟨hs, ht, hx⟩ := ih.1 x hx
        exact ⟨hs, hb.evolves.started ht, hx⟩
      · rw [List.mem_singleton.1 hx]
        refine ⟨?_, hb.hasStarted.2, ?_⟩
        · rw [Bool.eq_false_iff]
          intro hs
          have := hev.started hs
          rw [hb.hasStarted.1] at this
          cases this
        · cases hb with
          | mk E ha hlimit hr => exact ⟨hp.settings, ha, hp.settings ▸ hlimit, hr⟩
    · rw [List.map_append]
      refine List.nodup_append.2 ⟨ih.2, List.nodup_singleton _, ?_⟩
      rintro a ha b hb' rfl
      obtain ⟨x, hx, rfl⟩ := List.mem_map.1 ha
      have hs := (ih.1 x hx).2.1
      rw [List.mem_singleton.1 hb', hb.hasStarted.1] at hs
      cases hs

end Moves

namespace Run
section Histories
variable {g : Graph} {settings : RunSettings} {stopRequested : Bool} {h : Trace} {r r' : Run}

theorem startsOf_append (h : Trace) (r : Run) (e : Event) :
    startsOf (h ++ [(r, e)]) = startsOf h ++ r.startsOfStep e := by
  rw [startsOf, startsOf, List.flatMap_append, List.flatMap_singleton]

theorem allStarts_append (settings : RunSettings) (g : Graph) (stopRequested : Bool) (h : Trace)
    (r : Run) (e : Event) : allStarts settings g stopRequested (h ++ [(r, e)]) =
      allStarts settings g stopRequested h ++ r.startsOfStep e := by
  rw [allStarts, startsOf_append, ← List.append_assoc, allStarts]

/-- What the nodes that a run has started have in common. -/
structure Started (r : Run) (starts : List (Run × NodeId)) : Prop where
  recorded : r.timeline.startedNodes = starts.map Prod.snd
  nodup : (starts.map Prod.snd).Nodup
  started : ∀ x ∈ starts, r.plan.hasStarted x.2 = true
  admitted : ∀ x ∈ starts, x.1.Admits r.settings x.2

theorem Started.path {E E' : Expansions} {starts l : List (Run × NodeId)} (hg : g.Sound)
    (hs : Started r starts) (hl : Live g ⟨r, E, none, []⟩) (hn : r.Numbered)
    (hp : Path ⟨r, E, none, []⟩ l ⟨r', E', none, []⟩) : Started r' (starts ++ l) := by
  obtain ⟨hstarts, hnodup⟩ := hp.starts hg hn hl
  have hev := hp.evolves hg hn hl
  constructor
  case recorded =>
    have := hp.startedNodes
    rw [hs.recorded] at this
    rw [List.map_append]
    exact this
  case nodup =>
    rw [List.map_append]
    refine List.nodup_append.2 ⟨hs.nodup, hnodup, ?_⟩
    rintro a ha b hb rfl
    obtain ⟨x, hx, rfl⟩ := List.mem_map.1 ha
    obtain ⟨y, hy, he⟩ := List.mem_map.1 hb
    have hnot := (hstarts y hy).1
    have hyes := hs.started x hx
    rw [he] at hnot
    rw [hnot] at hyes
    cases hyes
  case started =>
    intro x hx
    rcases List.mem_append.1 hx with hx | hx
    · exact hev.started (hs.started x hx)
    · exact (hstarts x hx).2.1
  case admitted =>
    intro x hx
    rcases List.mem_append.1 hx with hx | hx
    · rw [hp.settings]
      exact hs.admitted x hx
    · rw [hp.settings]
      exact (hstarts x hx).2.2

theorem Started.undisturbed {starts : List (Run × NodeId)} (hs : Started r starts)
    (h : Undisturbed r r') : Started r' starts := by
  constructor
  case recorded =>
    rw [h.timeline]
    exact hs.recorded
  case nodup => exact hs.nodup
  case started =>
    rw [h.plan]
    exact hs.started
  case admitted =>
    rw [h.settings]
    exact hs.admitted

theorem Leads.started (hg : g.Sound) (hl : Leads (ofGraph settings g stopRequested) h r) :
    Started r (allStarts settings g stopRequested h) := by
  induction hl with
  | start =>
    have hnone : Started (new settings g stopRequested) [] :=
      ⟨rfl, List.nodup_nil, fun x hx => (by cases hx), fun x hx => (by cases hx)⟩
    have hpath := hnone.path hg (live_new hg settings stopRequested)
      (numbered_new settings g stopRequested) (path_ofGraph hg settings stopRequested).1
    rw [List.nil_append] at hpath
    rw [allStarts, startsOf, List.flatMap_nil, List.append_nil]
    exact hpath
  | event hl he ih =>
    obtain ⟨E, hr⟩ := hl.reached hg
    rw [allStarts_append]
    rcases hr.step hg he with ⟨hw, hnil, -⟩ | ⟨-, E', hp, -⟩
    · rw [hnil, List.append_nil]
      exact ih.undisturbed hw.undisturbed
    · exact ih.path hg hr.live hr.numbered hp

theorem Leads.settings_eq (hg : g.Sound) (hl : Leads (ofGraph settings g stopRequested) h r) :
    r.settings = settings := by
  induction hl with
  | start => exact (path_ofGraph hg settings stopRequested).1.settings
  | event hl he ih =>
    obtain ⟨E, hr⟩ := hl.reached hg
    rcases hr.step hg he with ⟨hw, -, -⟩ | ⟨-, E', hp, -⟩
    · exact hw.undisturbed.settings.trans ih
    · exact hp.settings.trans ih

theorem Reached.not_accepting {E : Expansions} (hg : g.Sound) (hr : Reached g E r)
    (ha : r.accepting = false) (hl : Leads r h r') :
    (∃ E', Reached g E' r') ∧ r'.accepting = false ∧ startsOf h = [] := by
  induction hl with
  | start => exact ⟨⟨E, hr⟩, ha, rfl⟩
  | event _ he ih =>
    obtain ⟨⟨E', hr'⟩, ha', hnil⟩ := ih
    rw [startsOf_append, hnil, List.nil_append]
    rcases hr'.step hg he with ⟨hw, hnil', hreach⟩ | ⟨-, E'', hp, hreach⟩
    · exact ⟨⟨E', hreach⟩, hw.undisturbed.accepting.trans ha', hnil'⟩
    · obtain ⟨hacc, hnil'⟩ := hp.of_not_accepting ha'
      exact ⟨⟨E'', hreach⟩, hacc, hnil'⟩

theorem Leads.exists_split (hl : Leads r h r') {x : Run × Event} (hx : x ∈ h) : ∃ h₁ h₂ q,
    h = h₁ ++ x :: h₂ ∧ Leads r h₁ x.1 ∧ x.1.step x.2 = some q ∧ Leads q h₂ r' := by
  induction hl with
  | start => cases hx
  | @event h p p' e hl he ih =>
    rcases List.mem_append.1 hx with hx | hx
    · obtain ⟨h₁, h₂, q, rfl, hl₁, hq, hl₂⟩ := ih hx
      exact ⟨h₁, h₂ ++ [(p, e)], q, by simp, hl₁, hq, hl₂.event he⟩
    · rw [List.mem_singleton.1 hx]
      exact ⟨h, [], p', rfl, hl, he, .start⟩

theorem Leads.exists_of_mem (hl : Leads r h r') {x : Run × Event} (hx : x ∈ h) :
    ∃ h', Leads r h' x.1 := by
  obtain ⟨h₁, -, -, -, hl₁, -⟩ := hl.exists_split hx
  exact ⟨h₁, hl₁⟩

end Histories

/-! ## All starts of a history -/

/-- What a history that has led to a run says of the nodes that it starts. -/
structure Scheduling (g : Graph) (settings : RunSettings) (stopRequested : Bool) (h : Trace) (r : Run) :
    Prop where
  /-- The starts are those that the timeline shows. -/
  recorded : r.timeline.startedNodes = (allStarts settings g stopRequested h).map Prod.snd
  once : ((allStarts settings g stopRequested h).map Prod.snd).Nodup
  admitted : ∀ {q id}, (q, id) ∈ allStarts settings g stopRequested h →
    q.accepting = true ∧ q.tasks.length < settings.limit ∧ q.plan.isPending id = true ∧
    ∃ n, q.plan.node? id = some n ∧ ∀ p ∈ n.predecessors, q.plan.hasSucceeded p = true
  below : ∀ e ∈ h, e.1.tasks.length ≤ settings.limit
  room : r.tasks.length ≤ settings.limit
  shut : r.accepting = false → ∀ {h' r'}, Leads r h' r' → r'.accepting = false ∧ startsOf h' = []
  saturated : r.phase = .working → r.accepting = true →
    r.tasks.length = settings.limit ∨ ∀ id, r.plan.isReady id = false

end Run

/-- Safe scheduling. The nodes that a run of a built graph starts are those that its timeline shows; each
is started once, while the run accepts work, below the limit and after its predecessors have succeeded.
A run that does not accept work never starts a node again, the limit holds at all times, and a run that
accepts work and waits has reached the limit or has no node that is ready. -/
theorem Graph.scheduling_of_build {defs : Definitions} {registry : Registry} {g : Graph}
    (hb : Graph.build defs registry = .ok g) (hp : defs.PlainNames) (settings : RunSettings)
    (stopRequested : Bool) {h : Run.Trace} {r : Run}
    (hl : Run.Leads (Run.ofGraph settings g stopRequested) h r) :
    Run.Scheduling g settings stopRequested h r := by
  have hg := Graph.sound_of_build hb hp
  obtain ⟨E, hr⟩ := hl.reached hg
  have hs := hl.started hg
  have hset := hl.settings_eq hg
  have hroom : r.tasks.length ≤ settings.limit := by
    rw [← hset]
    exact hr.room
  constructor
  case recorded => exact hs.recorded
  case once => exact hs.nodup
  case admitted =>
    intro q id hq
    have hq' := hs.admitted _ hq
    obtain ⟨hpend, n, hn, hpred, -⟩ := Plan.isReady_iff.1 hq'.ready
    have hbelow := hq'.room
    rw [hset] at hbelow
    exact ⟨hq'.accepting, hbelow, hpend, n, hn, hpred⟩
  case below =>
    intro e he
    obtain ⟨h', hl'⟩ := hl.exists_of_mem he
    obtain ⟨E', hr'⟩ := hl'.reached hg
    rw [← hl'.settings_eq hg]
    exact hr'.room
  case room => exact hroom
  case shut =>
    intro ha h' r' hl'
    exact (hr.not_accepting hg ha hl').2
  case saturated =>
    intro hw ha
    refine (hr.atRest.saturated hw ha).imp_left fun hlimit => ?_
    rw [hset] at hlimit
    omega

/-! ## Two instances behind a resource -/

namespace Relay

/-- Step `a` uses a resource and says how many instances step `b` has. -/
def definitions : Definitions where
  resources := [⟨"db", "pool", .empty⟩]
  steps := [(StepDefinition.new "a" "emit").withUse (Reference.resource "db"),
    (StepDefinition.new "b" "emit").withCount (.reference (Reference.step "a"))]

/-- A runner that answers two, and a resource kind, all of which take their time. -/
def registry : Registry :=
  (Registry.empty.withRunner "emit"
    ⟨⟨[], [], ["pool"]⟩, fun _ w => (.wait 1 fun w => (.value (.ofNat 2), w), w)⟩).withKind "pool"
    ⟨⟨[]⟩, fun _ w => (.wait 2 fun w => (.value ⟨0⟩, w), w),
      fun _ w => (.wait 3 fun w => (.value (), w), w)⟩

def graph : Graph :=
  match Graph.build definitions registry with
  | .ok g => g
  | .error _ => ⟨.empty, []⟩

def settings : RunSettings := ⟨registry, 1, none⟩

def ended : Run := Run.runFor none 60 (Run.ofGraph settings graph false)

theorem plainNames : definitions.PlainNames := by
  unfold Definitions.PlainNames
  decide +kernel

/-- Five nodes are started one after the other, and never two at a time. -/
theorem schedules : ∃ h, Run.Leads (Run.ofGraph settings graph false) h ended ∧
    ((Run.allStarts settings graph false h).map Prod.snd).length = 5 ∧
    ((Run.allStarts settings graph false h).map Prod.snd).Nodup ∧
    ∀ e ∈ h, e.1.tasks.length ≤ 1 := by
  obtain ⟨h, hl⟩ := Run.leads_runFor none 60 (Run.ofGraph settings graph false)
  have hb : Graph.build definitions registry = .ok graph := rfl
  have hall := Graph.scheduling_of_build hb plainNames settings false hl
  have hstarts : ended.timeline.startedNodes.length = 5 := by decide +kernel
  refine ⟨h, hl, ?_, hall.once, hall.below⟩
  rw [← hall.recorded]
  exact hstarts

end Relay

end Workplan
