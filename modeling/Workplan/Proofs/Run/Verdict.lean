import Workplan.Proofs.Plan.Acyclicity
import Workplan.Proofs.Plan.Failure
import Workplan.Proofs.Run.Failures
import Workplan.Proofs.Run.Invariance
import Workplan.Proofs.Run.Provision
import Workplan.Proofs.Run.Results
import Workplan.Proofs.Run.Smoothness
import Workplan.Run.Report

/-! Verdicts: what the report of a run says when the run has ended. Every node has its final status, the
results are those of the step instances that have succeeded, a good end leaves nothing undone but resources
without any use, and a bad one is put down to the node that failed first. -/
namespace Workplan
open Relation
set_option autoImplicit false

/-! ## Behind a failure -/

/-- What waits for a node that has not succeeded has not started, not even behind other nodes. -/
theorem Plan.Sound.not_hasStarted {g : Graph} {E : Expansions} {p : Plan} (h : p.Sound g E)
    {x y : NodeId} (hx : p.hasSucceeded x = false) (hw : TransGen p.nodes.Waits y x) :
    p.hasStarted y = false := by
  have hstep : ∀ {a b}, p.nodes.Waits a b → p.hasSucceeded b = false → p.hasStarted a = false := by
    intro a b ⟨n, hn, hb⟩ hs
    rw [Bool.eq_false_iff]
    intro hst
    rw [h.gated hn hst hb] at hs
    cases hs
  induction hw using TransGen.head_induction_on with
  | single hab => exact hstep hab hx
  | head hab _ ih =>
    refine hstep hab ?_
    rw [Bool.eq_false_iff]
    intro hs
    rw [Plan.hasStarted_of_hasSucceeded hs] at ih
    cases ih

namespace Run
section Verdict
variable {g : Graph} {settings : RunSettings} {stopRequested : Bool} {h h' : Trace} {r r' : Run}
variable {E : Expansions} {x y : NodeId} {m : String}

theorem Leads.startedNodes_append (hg : g.Sound) (hl : Leads (ofGraph settings g stopRequested) h r)
    (hl' : Leads r h' r') :
    r'.timeline.startedNodes = r.timeline.startedNodes ++ (startsOf h').map Prod.snd := by
  rw [((hl.trans hl').started hg).recorded, (hl.started hg).recorded, allStarts, allStarts, startsOf,
    List.flatMap_append, ← startsOf, ← startsOf, ← List.append_assoc, List.map_append]

/-- Nothing behind a failed node is ever started. -/
theorem Leads.not_started (hg : g.Sound) (hl : Leads (ofGraph settings g stopRequested) h r)
    (hx : r.plan.status? x = some (.failed m)) (hw : TransGen r.plan.nodes.Waits y x)
    (hl' : Leads r h' r') : y ∉ r'.timeline.startedNodes := by
  obtain ⟨E, hr⟩ := hl.reached hg
  have hacc : r.accepting = false := by
    rw [Bool.eq_false_iff]
    intro ha
    obtain ⟨e, he, -⟩ := (hl.blames hg).status.1 hx
    rw [(hl.blames hg).accepting ha] at he
    cases he
  have hsucc : r.plan.hasSucceeded x = false := by
    rw [Bool.eq_false_iff, ne_eq, Plan.hasSucceeded_iff, hx]
    simp
  obtain ⟨-, -, hnone⟩ := hr.not_accepting hg hacc hl'
  rw [hl.startedNodes_append hg hl', hnone, List.map_nil, List.append_nil]
  intro hy
  rw [(hl.started hg).recorded] at hy
  obtain ⟨s, hs, rfl⟩ := List.mem_map.1 hy
  have hst := (hl.started hg).started s hs
  rw [hr.live.sound.not_hasStarted hsucc hw] at hst
  cases hst

/-! ## At the end -/

/-- Every node has its final status when the run has ended. -/
theorem Reached.isTerminal (hr : Reached g E r) (he : r.phase = .ended) {s : NodeStatus}
    (hs : r.plan.status? x = some s) : s.isTerminal = true := by
  obtain ⟨htasks, hdef, hpend⟩ := hr.atRest.stopped (by rw [he]; decide)
  cases s with
  | pending =>
    have := hpend x
    rw [Plan.isPending_iff.2 hs] at this
    cases this
  | running =>
    rcases hr.live.running hs with ht | ⟨d, hd⟩ | ⟨o, ho⟩
    · rw [show (Stage.mk r E none []).run.tasks = [] from htasks] at ht
      cases ht
    · rw [show (Stage.mk r E none []).run.deferred = .empty from hdef] at hd
      cases hd
    · cases ho
  | succeeded => rfl
  | failed m => rfl
  | skipped reason => rfl

theorem kept_yielded (hg : g.Sound) : Stage.Kept g (fun _ => True) Stage.Yielded where
  move := fun hm hn hl h => hm.yielded hg hn hl h
  start := fun hb _ hl h => hb.yielded hl h
  work := fun _ hw _ h => hw.yielded h

theorem Undisturbed.smooth (h : Undisturbed r r') (hs : (Stage.mk r' E none []).Smooth) :
    (Stage.mk r E none []).Smooth :=
  ⟨h.accepting.symm.trans hs.accepting, h.stalled.symm.trans hs.stalled⟩

theorem kept_clean (hg : g.Sound) :
    Stage.Kept g (fun _ => True) fun s => s.Smooth → s.run.plan.Clean where
  move := fun hm _ hl h ht => hm.clean hg hl (h (hm.smooth hl ht)) ht
  start := fun hb _ _ h ht => hb.clean (h (hb.smooth ht))
  work := fun _ hw _ h ht => by
    rw [hw.undisturbed.plan]
    exact h (hw.undisturbed.smooth ht)

theorem outcome_eq_ok {report : RunReport} (ho : r.outcome = .ok report) :
    report = r.report ∧ r.accepting = true ∧ r.stalled = [] := by
  rw [outcome] at ho
  split at ho
  next => cases ho
  next hf =>
    split at ho
    next => cases ho
    next hc =>
      split at ho
      next hs =>
        cases ho
        exact ⟨rfl, by simp [accepting, hf, hc], List.isEmpty_iff.1 hs⟩
      next => cases ho

theorem outcome_of_smooth (h : (Stage.mk r E none []).Smooth) : r.outcome = .ok r.report := by
  have hacc : r.accepting = true := h.accepting
  have hstalled : r.stalled = [] := h.stalled
  rw [accepting, Bool.and_eq_true_iff, Option.isNone_iff_eq_none, Bool.not_eq_true'] at hacc
  simp [outcome, hacc.1, hacc.2, hstalled]

theorem outcome_eq_failed {node : NodeId} {cause : RunError} {report : RunReport}
    (ho : r.outcome = .error (.failed node cause report)) :
    report = r.report ∧ r.failure = some (node, cause) := by
  rw [outcome] at ho
  split at ho
  next hf =>
    cases ho
    exact ⟨rfl, hf⟩
  next =>
    split at ho
    next => cases ho
    next =>
      split at ho
      next => cases ho
      next => cases ho

/-- Everything has been done: steps and placeholders have succeeded, and so have the resources, except
those of which no step instance that uses them has been started. -/
structure Accomplished (r : Run) : Prop where
  steps : ∀ {id n}, r.plan.node? id = some n → n.kind.isResource = false →
    r.plan.status? id = some .succeeded
  resources : ∀ {id n name kind arguments}, r.plan.node? id = some n →
    n.kind = .resource name kind arguments → r.plan.status? id = some .succeeded ∨
      (∃ reason, r.plan.status? id = some (.skipped reason)) ∧
        ∀ x m inst, r.plan.node? x = some m → m.kind = .step inst → name ∈ inst.uses →
          x ∉ r.timeline.startedNodes

theorem Leads.accomplished (hg : g.Sound) (hl : Leads (ofGraph settings g stopRequested) h r)
    (he : r.phase = .ended) (hsmooth : r.accepting = true ∧ r.stalled = []) : r.Accomplished := by
  obtain ⟨⟨E, hr, hc⟩, -⟩ := hl.keeps hg (kept_clean hg)
    (fun _ => clean_new g settings stopRequested) fun _ _ => trivial
  have hclean : r.plan.Clean := hc ⟨hsmooth.1, hsmooth.2⟩
  have hsound := hr.live.sound
  have hstatus : ∀ {id n}, r.plan.node? id = some n → r.plan.status? id = some .succeeded ∨
      ∃ reason, r.plan.status? id = some (.skipped reason) := by
    intro id n hn
    obtain ⟨s, hs⟩ := hsound.status.2 ⟨n, hn⟩
    have hs' : r.plan.status? id = some s := hs
    have hterm := hr.isTerminal he hs'
    cases s with
    | succeeded => exact .inl hs'
    | skipped reason => exact .inr ⟨reason, hs'⟩
    | failed m => exact absurd hs' hclean.failed
    | pending => cases hterm
    | running => cases hterm
  constructor
  · intro id n hn hk
    rcases hstatus hn with hs | ⟨reason, hs⟩
    · exact hs
    · obtain ⟨-, name, rfl, -⟩ := hclean.skipped hs
      rw [← hsound.unfolds.isResource_eq hn hg, NodeId.isResource_resource] at hk
      cases hk
  · intro id n name kind arguments hn hk
    refine (hstatus hn).imp_right fun ⟨reason, hs⟩ => ⟨⟨reason, hs⟩, fun x m inst hm hi hu hx => ?_⟩
    rw [(hl.started hg).recorded] at hx
    obtain ⟨s, hmem, rfl⟩ := List.mem_map.1 hx
    have hpred := hsound.unfolds.resource_mem_predecessors hg hm (by rw [hi]; rfl)
      (show name ∈ m.kind.uses by rw [hi]; exact hu)
    have hsucc := hsound.gated hm ((hl.started hg).started s hmem) hpred
    rw [← hsound.unfolds.eq_resource hn hg hk, Plan.hasSucceeded_iff] at hsucc
    exact absurd (hs.symm.trans hsucc) (by simp)

/-- Whenever a run waits that has not stalled, a node that fails takes with it what waits for the node, and
nothing else. -/
theorem Leads.fallout (hg : g.Sound) (hl : Leads (ofGraph settings g stopRequested) h r)
    (hstalled : r.stalled = []) {id : NodeId} (hrun : r.plan.status? id = some .running)
    (message : String) :
    r.plan.Fallout id message (r.plan.markFailed id message).1 (r.plan.markFailed id message).2 := by
  obtain ⟨⟨E, hr, hc⟩, -⟩ := hl.keeps hg (kept_clean hg)
    (fun _ => clean_new g settings stopRequested) fun _ _ => trivial
  refine hr.live.sound.fallout hg ?_ hrun message
  cases hacc : r.accepting with
  | true => exact .inl (hc ⟨hacc, hstalled⟩)
  | false => exact .inr fun id => hr.atRest.rested hacc id

end Verdict

/-! ## All that a report says -/

/-- What a history that has led to a run says of its failures and of its end. -/
structure Verdict (g : Graph) (settings : RunSettings) (stopRequested : Bool) (h : Trace) (r : Run) :
    Prop where
  /-- As long as a run has not stalled, a node that fails takes with it what waits for the node, and
  nothing else. -/
  fallout : r.stalled = [] → ∀ {id}, r.plan.status? id = some .running → ∀ message,
    r.plan.Fallout id message (r.plan.markFailed id message).1 (r.plan.markFailed id message).2
  unstarted : ∀ {x m y}, r.plan.status? x = some (.failed m) → TransGen r.plan.nodes.Waits y x →
    ∀ {h' r'}, Leads r h' r' → y ∉ r'.timeline.startedNodes
  known : r.phase = .ended → ∀ id,
    (∃ s, r.report.statuses.get? id = some s) ↔ ∃ n, r.plan.node? id = some n
  terminal : r.phase = .ended → ∀ {id s}, r.report.statuses.get? id = some s → s.isTerminal = true
  results : r.phase = .ended → ∀ id, (∃ v, r.report.results.get? id = some v) ↔
    r.report.statuses.get? id = some .succeeded ∧ r.plan.IsStep id
  good : r.phase = .ended → ∀ {report}, r.outcome = .ok report → report = r.report ∧ r.Accomplished
  bad : r.phase = .ended → ∀ {node cause report}, r.outcome = .error (.failed node cause report) →
    report.statuses.get? node = some (.failed cause.message) ∧
    report.timeline.failedNodes.head? = some node ∧
    (allFailures settings g stopRequested h).head? = some (node, cause)

end Run

/-- The verdict of a run. A node that fails takes with it what waits for it, as long as the run has not
stalled, and nothing behind a failed node is ever started. When the run has ended, all its nodes have their
final statuses and the results are those of the step instances that have succeeded. It ends well only if
everything has been done, and it fails only by the node that has failed first. -/
theorem Graph.verdict_of_build {defs : Definitions} {registry : Registry} {g : Graph}
    (hb : Graph.build defs registry = .ok g) (hp : defs.PlainNames) (settings : RunSettings)
    (stopRequested : Bool) {h : Run.Trace} {r : Run}
    (hl : Run.Leads (Run.ofGraph settings g stopRequested) h r) :
    Run.Verdict g settings stopRequested h r := by
  have hg := Graph.sound_of_build hb hp
  obtain ⟨⟨E, hr, hy⟩, -⟩ := hl.keeps hg (Run.kept_yielded hg)
    (Run.yielded_new settings g stopRequested) fun _ _ => trivial
  have hblames := hl.blames hg
  constructor
  case fallout =>
    intro hstalled id hrun message
    exact hl.fallout hg hstalled hrun message
  case unstarted =>
    intro x m y hx hw h' r' hl'
    exact hl.not_started hg hx hw hl'
  case known => exact fun _ id => hr.live.sound.status
  case terminal =>
    intro he id s hs
    exact hr.isTerminal he hs
  case results =>
    intro _ id
    refine Option.isSome_iff_exists.symm.trans (hy.result.trans ?_)
    rw [Plan.hasSucceeded_iff]
    exact .rfl
  case good =>
    intro he report ho
    obtain ⟨hrep, hsmooth⟩ := Run.outcome_eq_ok ho
    exact ⟨hrep, hl.accomplished hg he hsmooth⟩
  case bad =>
    intro _ node cause report ho
    obtain ⟨rfl, hf⟩ := Run.outcome_eq_failed ho
    have hfirst := hblames.first hf
    have hmem := List.mem_of_mem_head? (Option.mem_def.2 hfirst)
    refine ⟨hblames.status.2 ⟨cause, hmem, rfl⟩, ?_, hfirst⟩
    change r.timeline.failedNodes.head? = _
    rw [hblames.recorded, List.head?_map, hfirst]
    rfl

/-! ## A good end and a bad one -/

namespace Relay

def faulty : RunSettings :=
  ⟨registry.withRunner "emit"
    ⟨⟨[], [], ["pool"]⟩, fun _ w => (.wait 1 fun w => (.error "down", w), w)⟩, 1, none⟩

def failed : Run := Run.runFor none 60 (Run.ofGraph faulty graph false)

/-- Everything has been done, or step `a` has failed and step `b` is not started behind it. -/
theorem verdicts : ended.Accomplished ∧
    failed.report.statuses.get? (.step "a") = some (.failed "step failed: down") ∧
    failed.timeline.failedNodes.head? = some (.step "a") ∧
    NodeId.step "b" ∉ failed.timeline.startedNodes := by
  have hb : Graph.build definitions registry = .ok graph := rfl
  obtain ⟨h, hl⟩ := Run.leads_runFor none 60 (Run.ofGraph settings graph false)
  obtain ⟨h', hl'⟩ := Run.leads_runFor none 60 (Run.ofGraph faulty graph false)
  have hgood := Graph.verdict_of_build hb plainNames settings false hl
  have hbad := Graph.verdict_of_build hb plainNames faulty false hl'
  have hsmooth : (Stage.mk ended .none none []).Smooth := ⟨by decide +kernel, by decide +kernel⟩
  have hok : ended.outcome = .ok ended.report := Run.outcome_of_smooth hsmooth
  have hfailed : failed.outcome = .error (.failed (.step "a") (.step "down") failed.report) := by
    have hfailure : failed.failure = some (.step "a", .step "down") := by decide +kernel
    simp [Run.outcome, hfailure]
  obtain ⟨hstatus, hfirst, -⟩ := hbad.bad (by decide +kernel) hfailed
  have hwaits : failed.plan.nodes.Waits (.step "b") (.step "a") := by
    have hany : (failed.plan.nodes.get? (.step "b")).any
        (fun n => n.predecessors.toList.contains (.step "a")) = true := by decide +kernel
    obtain ⟨n, hn, hp⟩ := (Option.any_eq_true _ _).1 hany
    exact ⟨n, hn, List.contains_iff_mem.1 hp⟩
  refine ⟨(hgood.good (by decide +kernel) hok).2, hstatus, hfirst, ?_⟩
  exact hbad.unstarted hstatus (.single hwaits) .start

end Relay

end Workplan
