import Workplan.Proofs.Run.Confluence
import Workplan.Proofs.Run.Termination

/-! Schedule independence: when one run of a graph ends well, so does every other whose handlers answer
alike, with the same statuses and results. The end of the first run bounds the second; and wherever the
second has nothing left to do, it bounds the first, so that nothing is missing there. -/
namespace Workplan
set_option autoImplicit false

/-- Where a run has ended well. -/
structure Stage.Settled (g : Graph) (b : Behaviour) (s : Stage) : Prop where
  live : Live g s
  coherent : s.Coherent b
  still : s.Still
  pending : ∀ id, s.run.plan.isPending id = false

section Settled
variable {g : Graph} {s u : Stage} {b : Behaviour} {id : NodeId} {n : Node}

/-- All that has succeeded in the second stage has succeeded in the first. -/
def Stage.CaughtUp (s u : Stage) : Prop :=
  ∀ id, u.run.plan.hasSucceeded id = true → s.run.plan.hasSucceeded id = true

/-- A stage that has caught up with a good end has nothing but resources that have not succeeded. -/
theorem Stage.Within.hasSucceeded (hg : g.Sound) (h : s.Within u) (hs : Live g s)
    (hu : u.Settled g b) (hcaught : s.CaughtUp u) (hn : s.run.plan.node? id = some n)
    (hk : n.kind.isResource = false) : s.run.plan.hasSucceeded id = true := by
  obtain ⟨n', hn'⟩ := h.agrees.exists_node hs hu.live hn
  have hkind := hs.sound.unfolds.kind_later hg hu.live.sound.unfolds h.agrees.expansions hn hn'
  exact hcaught id (hu.still.paused.hasSucceeded hg hu.live.sound hn' (hkind ▸ hk) (hu.pending id))

theorem Stage.Within.not_hasWorkRemaining (hg : g.Sound) (h : s.Within u) (hs : Live g s)
    (hstill : s.Still) (htidy : s.run.plan.Tidy) (hu : u.Settled g b) (hcaught : s.CaughtUp u) :
    s.run.plan.hasWorkRemaining = false := by
  rw [Bool.eq_false_iff]
  intro hwork
  obtain ⟨id, st, hst, hterm⟩ := Plan.hasWorkRemaining_iff.1 hwork
  have hfinal : ∀ {x st n}, s.run.plan.status? x = some st → s.run.plan.node? x = some n →
      n.kind.isResource = false → st.isTerminal = true := by
    intro x st n hst hn hk
    have hsucc := Plan.hasSucceeded_iff.1 (h.hasSucceeded hg hs hu hcaught hn hk)
    cases hst.symm.trans hsucc
    rfl
  obtain ⟨n, hn⟩ := hs.sound.node_of_status hst
  cases hk : n.kind with
  | step inst =>
    rw [hfinal hst hn (by rw [hk]; rfl)] at hterm
    cases hterm
  | expansion replication template =>
    rw [hfinal hst hn (by rw [hk]; rfl)] at hterm
    cases hterm
  | resource name kind arguments =>
    obtain rfl := hs.sound.unfolds.eq_resource hn hg hk
    have hpend : s.run.plan.isPending (NodeId.resource name) = true := by
      cases st with
      | pending => exact Plan.isPending_iff.2 hst
      | running => exact absurd hst hstill.paused.running
      | succeeded => cases hterm
      | failed message => cases hterm
      | skipped reason => cases hterm
    obtain ⟨x, st', ⟨m, hm, hname⟩, hst', hterm'⟩ := htidy name hpend
    have hmk : m.kind.isResource = false := by
      cases hkind : m.kind with
      | step inst => rfl
      | expansion replication template => rfl
      | resource name kind arguments => rw [hkind] at hname; cases hname
    rw [hfinal hst' hm hmk] at hterm'
    cases hterm'

/-- A good end that has caught up with another one within which it is has the same statuses and results,
as far as it has any. -/
theorem Stage.Settled.status?_eq (hs : s.Settled g b) (hu : u.Settled g b) (h : s.Within u)
    (hcaught : s.CaughtUp u) {st : NodeStatus} (hst : s.run.plan.status? id = some st) :
    u.run.plan.status? id = some st := by
  have hskipped : ∀ {s : Stage} {st}, s.Settled g b → s.run.plan.status? id = some st →
      st ≠ .succeeded → st = .skipped Plan.idleReason := by
    intro s st hs hst hne
    cases st with
    | pending =>
      have hpend := hs.pending id
      rw [Plan.isPending_iff.2 hst] at hpend
      cases hpend
    | running => exact absurd hst hs.still.paused.running
    | succeeded => exact absurd rfl hne
    | failed message => exact absurd hst hs.still.paused.clean.failed
    | skipped reason => rw [(hs.still.paused.clean.skipped hst).1]
  obtain ⟨n, hn⟩ := hs.live.sound.node_of_status hst
  obtain ⟨st', hst'⟩ := hu.live.sound.status.2 (h.agrees.exists_node hs.live hu.live hn)
  by_cases hc : st = .succeeded
  · subst hc
    exact Plan.hasSucceeded_iff.1 (h.started (Plan.hasStarted_iff.2 ⟨_, hst, rfl⟩))
  · have hc' : st' ≠ .succeeded := by
      rintro rfl
      have hsucc := Plan.hasSucceeded_iff.1 (hcaught id (Plan.hasSucceeded_iff.2 hst'))
      exact hc (Option.some.inj (hst.symm.trans hsucc))
    rw [hskipped hs hst hc, ← hskipped hu hst' hc']
    exact hst'

theorem Stage.Settled.result?_eq (hs : s.Settled g b) (h : s.Within u) {v : Value}
    (hv : s.run.plan.result? id = some v) : u.run.plan.result? id = some v :=
  (h.agrees.result (hs.coherent.result hv)).trans hv

end Settled

namespace Run
section Turns
variable {g : Graph} {u : Stage} {b : Behaviour} {registry : Registry} {limit : Nat} {h : Trace}
variable {r r' : Run} {E : Expansions} {id : NodeId}

theorem Reached.settled (hr : Reached g E r) (he : r.phase = .ended)
    (hc : (Stage.mk r E none []).Coherent b) (hclean : r.plan.Clean) :
    (Stage.mk r E none []).Settled g b := by
  have hpend := (hr.atRest.stopped (by rw [he]; decide)).2.2
  refine ⟨hr.live, hc, ⟨⟨hclean, fun hrun => ?_⟩, fun id => ?_⟩, hpend⟩
  · have hterm := hr.isTerminal he hrun
    cases hterm
  · rw [Bool.eq_false_iff]
    intro hready
    have hp := Plan.isPending_of_isReady hready
    rw [hpend] at hp
    cases hp

theorem not_isForsaken (h : (Stage.mk r E none []).Attended True) : r.isForsaken = false := by
  rw [Bool.eq_false_iff]
  intro hf
  obtain ⟨hd, hne⟩ := Bool.and_eq_true_iff.1 hf
  have hnil : r.destroys = [] := List.isEmpty_iff.1 hd
  cases hl : r.deferred.toList with
  | nil => rw [hl] at hne; cases hne
  | cons e l =>
    obtain ⟨id, k, output⟩ := e
    have hget : r.deferred.get? id = some (k, output) :=
      (SortedMap.mem_toList_iff _ _ _).1 (hl ▸ List.mem_cons_self)
    obtain ⟨hpos, -, hk⟩ := h.waiting hget
    have hk' : r.owed id = k := hk trivial
    rw [owed, hnil] at hk'
    rw [← hk'] at hpos
    cases hpos

/-- A run has not stalled, and nothing in it is idle as long as it works. -/
def Unspoiled (r : Run) : Prop := r.stalled = [] ∧ (r.phase = .working → r.plan.Tidy)

theorem unspoiled_endIfQuiet (hst : r.stalled = []) (hp : r.phase ≠ .working) :
    r.endIfQuiet.Unspoiled := by
  rw [endIfQuiet]
  split
  next => exact ⟨hst, fun hc => by cases hc⟩
  next => exact ⟨hst, fun hc => absurd hc hp⟩

theorem Exhausted.still (h : r.Exhausted) (hl : Live g ⟨r, E, none, []⟩) (hc : r.plan.Clean)
    (ha : r.accepting = true) : (Stage.mk r E none []).Still := by
  refine ⟨⟨hc, fun hrun => ?_⟩, h.not_isReady ha⟩
  rcases hl.running hrun with hm | ⟨d, hd⟩ | ⟨o, ho⟩
  · rw [show (Stage.mk r E none []).run.tasks = [] from h.tasks] at hm
    cases hm
  · rw [show (Stage.mk r E none []).run.deferred = .empty from h.deferred] at hd
    cases hd
  · cases ho

/-- A turn of a run within a good end does not stall, as it stops only when it has caught up. -/
theorem Unspoiled.turn (hg : g.Sound) (hu : u.Settled g b)
    (hkept : Stage.Kept g (fun e => e ≠ .requestStop) fun s => s.Orderly g registry b u)
    (hcatch : ∀ s : Stage, Live g s → s.Coherent b → s.Still → s.CaughtUp u)
    (hl : Live g ⟨r, E, none, []⟩) (hn : r.Numbered) (hr : r.Rested)
    (hroom : r.tasks.length ≤ r.settings.limit) (hw : r.phase = .working)
    (ho : (Stage.mk r E none []).Orderly g registry b u) (h : r.Unspoiled) : r.turn.Unspoiled := by
  obtain ⟨hst, htidy⟩ := h
  have hobserve : r.observe = r := by
    have hstop : r.stopRequested = false := (ho.bounded hst).coherent.stopRequested
    rw [observe, hstop, Bool.and_false]
    rfl
  obtain ⟨hpath, hrested, hkeeps, hsat⟩ := path_schedule hl.sound hr hroom
  have ho' := hpath.keeps hg hkept hn hl ho
  have hl' := hpath.live hg hn hl
  have hst' : r.schedule.stalled = [] := hkeeps.stalled.trans hst
  have hb := ho'.bounded hst'
  have htidy' : r.schedule.plan.Tidy :=
    tidy_schedule (htidy hw) hl.sound hr hroom hb.smooth.accepting
  have hscheduled : r.scheduled = r.schedule := by
    rw [scheduled, hobserve, not_isForsaken ho'.attended]
    rfl
  rw [turn_eq, hscheduled]
  -- With nothing in flight the run has caught up with the good end, and there is nothing left to stall.
  by_cases hc : (r.schedule.tasks.isEmpty && r.schedule.deferred.toList.isEmpty) = true
  · rw [if_pos hc]
    obtain ⟨ht, hd⟩ := Bool.and_eq_true_iff.1 hc
    have hex : r.schedule.Exhausted := ⟨hkeeps.phase.trans hw, List.isEmpty_iff.1 ht,
      deferred_eq_empty (List.isEmpty_iff.1 hd), hrested, hsat⟩
    have hstill := hex.still hl' (ho'.clean hst') hb.smooth.accepting
    have hdone : r.schedule.plan.hasWorkRemaining = false :=
      hb.within.not_hasWorkRemaining hg hl' hstill htidy' hu (hcatch _ hl' hb.coherent hstill)
    have hunstalled : r.schedule.unstalled = r.schedule := by
      rw [unstalled, hdone, Bool.and_false]
      rfl
    have hagree := agree_spawnDestroys none
      { r.schedule with slots := r.schedule.slots.drain.2, phase := .tearingDown }
      r.schedule.slots.drain.1
    rw [stop_eq, hunstalled]
    refine unspoiled_endIfQuiet (hagree.stalled.trans hst') fun hworking => ?_
    cases hagree.phase.symm.trans hworking
  · rw [if_neg hc]
    exact ⟨hst', fun _ => htidy'⟩

theorem Unspoiled.notes {e : Event} (hg : g.Sound) (hr : Reached g E r) (hn : Notes r e r')
    (ha : r'.accepting = true) (h : r.Unspoiled) : r'.Unspoiled := by
  refine ⟨hn.keeps.stalled.trans h.1, fun hw => ?_⟩
  have htidy := h.2 (hn.keeps.phase.symm.trans hw)
  cases hn with
  | @task t ht result time hf =>
    have hcollect : Path ⟨r, E, none, []⟩ []
        ⟨r.dropTask t.number, E, some (t.node, some result), []⟩ := .single (.collect E ht hf)
    exact tidy_complete hg (hcollect.numbered hr.numbered) (hcollect.live hg hr.numbered hr.live)
      htidy (hr.live.task ht).2.2 time ha
  | @destroy t ht result time hf =>
    have hlive : Live g ⟨r.dropDestroy t.number, E, none, []⟩ := hr.live.frame rfl rfl rfl rfl
    exact tidy_recordDestroy hg hlive htidy t result time
  | stop hw ha hs => exact htidy

/-- A run within a good end does not stall. -/
theorem Leads.unspoiled (hg : g.Sound) (hu : u.Settled g b)
    (hkept : Stage.Kept g (fun e => e ≠ .requestStop) fun s => s.Orderly g registry b u)
    (hcatch : ∀ s : Stage, Live g s → s.Coherent b → s.Still → s.CaughtUp u)
    (hl : Leads (ofGraph ⟨registry, limit, none⟩ g false) h r) (hh : Uncancelled h) :
    r.Unspoiled := by
  induction hl with
  | start =>
    exact Unspoiled.turn hg hu hkept hcatch (live_new hg _ _) (numbered_new _ g _)
      (fun ha => by cases ha) (Nat.zero_le _) rfl (orderly_new hg registry limit)
      ⟨rfl, fun _ => Plan.Tidy.ofGraph hg⟩
  | @event h r r' e hl he ih =>
    have hbefore : Uncancelled h := fun x hx => hh x (List.mem_append_left _ hx)
    have hun := ih hbefore
    obtain ⟨⟨E, hr, ho⟩, -⟩ := hl.keeps hg hkept (orderly_new hg registry limit) hbefore
    cases hnoted : e.isNoted with
    | false =>
      have hdist := (works_of_step hnoted he).undisturbed
      refine ⟨hdist.stalled.trans hun.1, fun hw => ?_⟩
      rw [hdist.plan]
      exact hun.2 (hdist.phase.symm.trans hw)
    | true =>
      obtain ⟨r₁, E', hn, hpath, hrested, rfl, -⟩ := hr.notes hg hnoted he
      have ho' := hpath.keeps hg hkept hr.numbered hr.live ho
      have hst : r₁.stalled = [] := hn.keeps.stalled.trans hun.1
      have hun₁ := hun.notes hg hr hn (ho'.bounded hst).smooth.accepting
      rw [resume]
      split
      next hw =>
        exact hun₁.turn hg hu hkept hcatch (hpath.live hg hr.numbered hr.live)
          (hpath.numbered hr.numbered) hrested (hpath.room hr.room) hw ho'
      next hw => exact unspoiled_endIfQuiet hst (by rw [hw]; decide)
      next => exact hun₁

end Turns
end Run

theorem Graph.untimed_of_build {defs : Definitions} {registry : Registry} {g : Graph}
    (hb : Graph.build defs registry = .ok g) (hu : ∀ s ∈ defs.steps, s.timeoutMs = none) :
    g.Untimed := by
  intro id n hn
  have ht := Graph.timeout_of_build hb hn
  cases hk : n.kind with
  | step inst =>
    rw [hk] at ht
    obtain ⟨s, hs, he⟩ := ht
    exact he.trans (hu s hs)
  | expansion replication template =>
    rw [hk] at ht
    obtain ⟨s, hs, he⟩ := ht
    exact he.trans (hu s hs)
  | resource name kind arguments => trivial

/-- Schedule independence. Two runs of a graph without timeouts and cancellations, whose handlers answer
alike but may take different times, with any limits and in any order of events: if one of them ends well,
the other can go on until it ends after a bounded number of events, and then has ended well with the same
statuses and results. -/
theorem Graph.schedule_independence_of_build {defs : Definitions} {registry registry' : Registry}
    {g : Graph} {b : Behaviour} (hb : Graph.build defs registry = .ok g)
    (hb' : Graph.build defs registry' = .ok g) (hp : defs.PlainNames)
    (hu : ∀ s ∈ defs.steps, s.timeoutMs = none) (hR : registry.Follows b) (hR' : registry'.Follows b)
    (limit limit' : Nat) {h h' : Run.Trace} {r r' : Run}
    (hl : Run.Leads (Run.ofGraph ⟨registry, limit, none⟩ g false) h r) (hh : Run.Uncancelled h)
    (he : r.phase = .ended) {report : RunReport} (ho : r.outcome = .ok report)
    (hl' : Run.Leads (Run.ofGraph ⟨registry', limit', none⟩ g false) h' r')
    (hh' : Run.Uncancelled h') :
    Run.progressOf h' ≤ 3 * (report.statuses.keys.length + g.nodes.keys.length) ∧
    (r'.phase ≠ .ended → ∃ e r'', e.isProgress = true ∧ r'.step e = some r'') ∧
    (r'.phase = .ended → ∃ report', r'.outcome = .ok report' ∧
      report'.statuses = report.statuses ∧ report'.results = report.results) := by
  have hg := Graph.sound_of_build hb hp
  have hs := Graph.scoped_of_build hb
  have hreg' := Graph.registered_of_build hb'
  have huntimed : g.Untimed := Graph.untimed_of_build hb hu
  obtain ⟨rfl, hacc, hstalled⟩ := Run.outcome_eq_ok ho
  -- the end of the first run
  obtain ⟨⟨E, hr, -, hsmooth⟩, -⟩ := hl.keeps hg (Run.kept_coherent hg hs huntimed hR)
    ⟨@Run.provides_new g ⟨registry, limit, none⟩ false hg, fun _ =>
      ⟨Run.coherent_new g registry limit b, Run.clean_new g _ _⟩⟩ hh
  obtain ⟨hcoh, hclean⟩ := hsmooth ⟨hacc, hstalled⟩
  have hend := hr.settled he hcoh hclean
  -- a stage of any run bounds the first run when nothing goes on in it
  have hwithin : ∀ u : Stage, Live g u → u.Coherent b → u.Still →
      ∃ E', Run.Reached g E' r ∧ (Stage.mk r E' none []).Bounded b u := by
    intro u hu hcu hstill
    obtain ⟨⟨E', hr', hbounded⟩, -⟩ := hl.keeps hg
      (Run.kept_orderly hg hs (Graph.registered_of_build hb) huntimed hR hu hcu hstill)
      (Run.orderly_new hg registry limit) hh
    exact ⟨E', hr', hbounded.bounded hstalled⟩
  -- the end of the first run bounds the second
  have hkept := Run.kept_orderly hg hs hreg' huntimed hR' hend.live hend.coherent hend.still
  have hunspoiled := hl'.unspoiled hg hend hkept (fun u hu hcu hstill id hid => by
    obtain ⟨E', -, hbounded⟩ := hwithin u hu hcu hstill
    exact hbounded.within.started (Plan.hasStarted_of_hasSucceeded hid)) hh'
  obtain ⟨⟨E', hr', horderly⟩, -⟩ := hl'.keeps hg hkept (Run.orderly_new hg registry' limit') hh'
  have hbounded := horderly.bounded hunspoiled.1
  refine ⟨?_, hr'.exists_progress, fun he' => ?_⟩
  · refine hl'.progressOf_le_of_started hg hreg' fun id hid => ?_
    exact SortedMap.mem_keys.2 ⟨_, Plan.hasSucceeded_iff.1 (hbounded.within.started hid)⟩
  -- the end of the second run
  have hend' := hr'.settled he' hbounded.coherent (horderly.clean hunspoiled.1)
  obtain ⟨E'', hr'', hback⟩ := hwithin _ hend'.live hend'.coherent hend'.still
  have hend'' := hr''.settled he hback.coherent hclean
  have hsucc : ∀ id, r'.plan.hasSucceeded id = true → r.plan.hasSucceeded id = true :=
    fun id hid => hbounded.within.started (Plan.hasStarted_of_hasSucceeded hid)
  have hsucc' : ∀ id, r.plan.hasSucceeded id = true → r'.plan.hasSucceeded id = true :=
    fun id hid => hback.within.started (Plan.hasStarted_of_hasSucceeded hid)
  refine ⟨r'.report, ?_, SortedMap.ext_get? fun id => Option.ext fun st => ⟨?_, ?_⟩,
    SortedMap.ext_get? fun id => Option.ext fun v => ⟨?_, ?_⟩⟩
  · exact Run.outcome_of_smooth hbounded.smooth
  · exact hend'.status?_eq hend hbounded.within hsucc'
  · exact hend''.status?_eq hend' hback.within hsucc
  · exact hend'.result?_eq hbounded.within
  · exact hend''.result?_eq hback.within

/-! ## Two schedules -/

namespace Run
variable {r : Run}

theorem ne_requestStop_of_nextEvent? {e : Event} (h : r.nextEvent? none = some e) :
    e ≠ .requestStop := by
  rintro rfl
  have hobserve : r.observeEvent? ≠ some .requestStop := by grind [observeEvent?]
  have htask : ∀ t, r.taskEvent? t ≠ some .requestStop := by grind [taskEvent?]
  have hdestroy : ∀ d, r.destroyEvent? d ≠ some .requestStop := by grind [destroyEvent?]
  have hcollect : ∀ t, collectTask? t ≠ some .requestStop := by grind [collectTask?]
  have hcollect' : ∀ d, collectDestroy? d ≠ some .requestStop := by grind [collectDestroy?]
  rw [nextEvent?] at h
  split at h
  next => cases h
  next =>
    simp only [stopEvent?, Option.orElse_eq_orElse, Option.orElse_eq_or, Option.or_eq_some_iff] at h
    rcases h with h | ⟨-, h | ⟨-, h | ⟨-, h | ⟨-, h | ⟨-, h | ⟨-, h⟩⟩⟩⟩⟩⟩
    · cases h
    · exact hobserve h
    · obtain ⟨t, -, ht⟩ := List.exists_of_findSome?_eq_some h
      exact htask t ht
    · obtain ⟨d, -, hd⟩ := List.exists_of_findSome?_eq_some h
      exact hdestroy d hd
    · obtain ⟨t, -, ht⟩ := List.exists_of_findSome?_eq_some h
      exact hcollect t ht
    · obtain ⟨d, -, hd⟩ := List.exists_of_findSome?_eq_some h
      exact hcollect' d hd
    · obtain ⟨time, -, ht⟩ := Option.map_eq_some_iff.1 h
      cases ht

theorem uncancelled_runFor (fuel : Nat) (r : Run) :
    ∃ h, Leads r h (runFor none fuel r) ∧ Uncancelled h := by
  induction fuel generalizing r with
  | zero => exact ⟨[], .start, fun x hx => by cases hx⟩
  | succ fuel ih =>
    rw [runFor]
    split
    next r' hr =>
      obtain ⟨e, hnext, he⟩ := Option.bind_eq_some_iff.1 hr
      obtain ⟨h, hl, hh⟩ := ih r'
      refine ⟨[] ++ [(r, e)] ++ h, (Leads.start.event he).trans hl, fun x hx => ?_⟩
      rcases List.mem_append.1 hx with hx | hx
      · rw [List.mem_singleton.1 hx]
        exact ne_requestStop_of_nextEvent? hnext
      · exact hh x hx
    next => exact ⟨[], .start, fun x hx => by cases hx⟩

end Run

namespace Relay

/-- Handlers that take some times each; steps answer two, creations an instance, and destructions end in
some way. -/
def timed (step create destroy : Nat) (i : ResourceInstance) (answer : Answer Unit) : Registry :=
  (Registry.empty.withRunner "emit"
    ⟨⟨[], [], ["pool"]⟩, fun _ w => (.wait step fun w => (.value (.ofNat 2), w), w)⟩).withKind "pool"
    ⟨⟨[]⟩, fun _ w => (.wait create fun w => (.value i, w), w),
      fun _ w => (.wait destroy fun w => (answer, w), w)⟩

def behaviour : Behaviour := ⟨fun _ => [], fun _ _ _ => .ok (.ofNat 2), fun _ => [], fun _ _ _ => .ok ()⟩

theorem follows_timed (step create destroy : Nat) (i : ResourceInstance) (answer : Answer Unit) :
    (timed step create destroy i answer).Follows behaviour := by
  have hrunner : ∀ {name k}, (timed step create destroy i answer).runner? name = some k →
      k = ⟨⟨[], [], ["pool"]⟩, fun _ w => (.wait step fun w => (.value (.ofNat 2), w), w)⟩ := by
    intro name k hk
    simp only [timed, Registry.runner?, Registry.withRunner, Registry.withKind, Registry.empty,
      SortedMap.get?_insert] at hk
    split at hk
    next => exact (Option.some.inj hk).symm
    next => cases hk
  have hkind : ∀ {name k}, (timed step create destroy i answer).kind? name = some k →
      k = ⟨⟨[]⟩, fun _ w => (.wait create fun w => (.value i, w), w),
        fun _ w => (.wait destroy fun w => (answer, w), w)⟩ := by
    intro name k hk
    simp only [timed, Registry.kind?, Registry.withRunner, Registry.withKind, Registry.empty,
      SortedMap.get?_insert] at hk
    split at hk
    next => exact (Option.some.inj hk).symm
    next => cases hk
  constructor
  · intro name k hk
    rw [hrunner hk]
    exact ⟨rfl, fun call w => ⟨step, _, w, rfl, fun w => rfl⟩⟩
  · intro name k hk
    rw [hkind hk]
    exact ⟨rfl, fun call w => ⟨create, _, w, rfl, fun w => ⟨i, rfl⟩⟩⟩
  · intro name k hk i' w
    rw [hkind hk]
    exact ⟨destroy, _, w, rfl⟩

/-- Handlers with other waiting times, and with destructions that fail. -/
def slower : Registry := timed 5 1 0 ⟨7⟩ (.error "busy")

/-- The run of the slower handlers in virtual time, with three nodes at a time. -/
def overlapped : Run := Run.runFor none 60 (Run.ofGraph ⟨slower, 3, none⟩ graph false)

/-- The instances of step `b` overlap in one of the runs, in which the resource is not destroyed well, and
come one after the other in the other run. Both end with the same statuses and results. -/
theorem schedules_agree : overlapped.destroyErrors ≠ [] ∧
    overlapped.report.statuses = ended.report.statuses ∧
    overlapped.report.results = ended.report.results := by
  have hb : Graph.build definitions registry = .ok graph := rfl
  have hb' : Graph.build definitions slower = .ok graph := rfl
  have hsmooth : (Stage.mk ended .none none []).Smooth := ⟨by decide +kernel, by decide +kernel⟩
  have hok : ended.outcome = .ok ended.report := Run.outcome_of_smooth hsmooth
  obtain ⟨h, hl, hh⟩ := Run.uncancelled_runFor 60 (Run.ofGraph settings graph false)
  obtain ⟨h', hl', hh'⟩ := Run.uncancelled_runFor 60 (Run.ofGraph ⟨slower, 3, none⟩ graph false)
  obtain ⟨-, -, hend⟩ := Graph.schedule_independence_of_build hb hb' plainNames (by decide +kernel)
    (follows_timed 1 2 3 ⟨0⟩ (.value ())) (follows_timed 5 1 0 ⟨7⟩ (.error "busy")) 1 3 hl hh
    (by decide +kernel) hok hl' hh'
  obtain ⟨report', ho, hst, hres⟩ := hend (by decide +kernel)
  obtain ⟨rfl, -⟩ := Run.outcome_eq_ok ho
  exact ⟨by decide +kernel, hst, hres⟩

end Relay

end Workplan
