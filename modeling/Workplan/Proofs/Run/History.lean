import Workplan.Proofs.Run.Rest
import Workplan.Proofs.Run.Works
import Workplan.Run.VirtualTime

/-! Histories: the events that have happened to a run of a graph, with the runs that they happened to. Every
event is work between two turns or leads to a turn, and every run that events lead to is live and at
rest. -/
namespace Workplan
set_option autoImplicit false

/-- True of the events that a run takes note of. -/
def Event.isNoted : Event → Bool
  | .collectTask _ => true
  | .collectDestroy _ => true
  | .observeStop => true
  | _ => false

namespace Run

/-- The run with which the turn after an event begins. -/
def beforeTurn? (r : Run) : Event → Option Run
  | .collectTask n =>
    match r.task? n with
    | some ⟨_, node, _, .finished result time⟩ => some ((r.dropTask n).complete node result time)
    | _ => none
  | .collectDestroy n =>
    match r.destroy? n with
    | some ⟨number, resource, owner, inst, .finished result time⟩ =>
      if r.phase = .working then
        some ((r.dropDestroy n).recordDestroy ⟨number, resource, owner, inst, .finished result time⟩
          result time)
      else none
    | _ => none
  | .observeStop => if r.phase = .working ∧ r.accepting ∧ r.stopRequested then some r else none
  | _ => none

/-- The nodes that are started after an event. -/
def startsOfStep (r : Run) (e : Event) : List (Run × NodeId) :=
  match r.beforeTurn? e with
  | some r => r.startsOfTurn
  | none => []

/-- The nodes that are started when a run goes on. -/
def startsOfResume (r : Run) : List (Run × NodeId) := if r.phase = .working then r.startsOfTurn else []

/-- Events with the runs that they happen to. -/
abbrev Trace := List (Run × Event)

/-- The runs that events lead to, one after the other. -/
inductive Leads (r₀ : Run) : Trace → Run → Prop where
  | start : Leads r₀ [] r₀
  | event {h : Trace} {r r' : Run} {e : Event} (hl : Leads r₀ h r) (he : r.step e = some r') :
    Leads r₀ (h ++ [(r, e)]) r'

/-- The nodes that are started by events, with the runs that they are started in. -/
def startsOf (h : Trace) : List (Run × NodeId) := h.flatMap fun e => e.1.startsOfStep e.2

/-- The nodes that a run of a graph starts, in its first turn and by events. -/
def allStarts (settings : RunSettings) (g : Graph) (stopRequested : Bool) (h : Trace) :
    List (Run × NodeId) :=
  (new settings g stopRequested).startsOfTurn ++ startsOf h

/-- What holds of every run of a graph between two events. -/
structure Reached (g : Graph) (E : Expansions) (r : Run) : Prop where
  live : Live g ⟨r, E, none, []⟩
  numbered : r.Numbered
  atRest : r.AtRest
  room : r.tasks.length ≤ r.settings.limit

section Reached
variable {g : Graph} {r r' : Run} {E : Expansions} {e : Event}

/-! ## The first turn -/

theorem live_new (hg : g.Sound) (settings : RunSettings) (stopRequested : Bool) :
    Live g ⟨new settings g stopRequested, .none, none, []⟩ where
  sound := Plan.Sound.ofGraph hg
  tasks_nodup := List.nodup_nil
  task := fun ht => by cases ht
  fits := fun ht => by cases ht
  active := fun ha => by cases ha
  active_fits := fun ha => by cases ha
  deferred := fun hd => by cases hd
  running := by
    intro id hr
    obtain ⟨n, -, hs⟩ := Option.map_eq_some_iff.1
      ((SortedMap.get?_mapValues _ _ _).symm.trans (show (Plan.ofGraph g).status? id = _ from hr))
    cases hs
  ended_nodup := List.nodup_nil
  ended := fun hx => by cases hx
  expanded := by
    intro id n hn hk hx
    rcases hx with hx | ⟨d, hd⟩
    · have hs : (Plan.ofGraph g).status? id = some .succeeded := Plan.hasSucceeded_iff.1 hx
      rw [Plan.status?, Plan.ofGraph, SortedMap.get?_mapValues] at hs
      obtain ⟨m, -, hs⟩ := Option.map_eq_some_iff.1 hs
      cases hs
    · cases hd

theorem numbered_new (settings : RunSettings) (g : Graph) (stopRequested : Bool) :
    (new settings g stopRequested).Numbered :=
  ⟨List.nodup_nil, List.nodup_nil, fun _ h => (by cases h), fun _ h => (by cases h)⟩

theorem path_ofGraph (hg : g.Sound) (settings : RunSettings) (stopRequested : Bool) :
    Path ⟨new settings g stopRequested, .none, none, []⟩ (new settings g stopRequested).startsOfTurn
        ⟨ofGraph settings g stopRequested, .none, none, []⟩ ∧
      Reached g .none (ofGraph settings g stopRequested) := by
  have hl := live_new hg settings stopRequested
  have hn := numbered_new settings g stopRequested
  have hroom : (new settings g stopRequested).tasks.length ≤
      (new settings g stopRequested).settings.limit := Nat.zero_le _
  obtain ⟨hpath, hrest⟩ := path_turn hg hl hn (fun ha => by cases ha) hroom rfl
  exact ⟨hpath, hpath.live hg hn hl, hpath.numbered hn, hrest, hpath.room hroom⟩

/-! ## Work between two turns -/

theorem Undisturbed.atRest (h : Undisturbed r r') (hr : r.AtRest) : r'.AtRest where
  rested := by
    intro ha id
    rw [h.accepting] at ha
    rw [h.plan]
    exact hr.rested ha id
  saturated := by
    intro hw ha
    rw [h.phase] at hw
    rw [h.accepting] at ha
    rw [h.settings, h.length_tasks, h.plan]
    exact hr.saturated hw ha
  busy := by
    intro hw
    rw [h.phase] at hw
    exact (hr.busy hw).imp (mt h.tasks_eq_nil.1) (mt h.destroys_eq_nil.1)
  stopped := by
    intro hw
    rw [h.phase] at hw
    obtain ⟨ht, hd, hp⟩ := hr.stopped hw
    rw [h.plan, h.deferred]
    exact ⟨h.tasks_eq_nil.2 ht, hd, hp⟩
  tearing := by
    intro ht
    rw [h.phase] at ht
    exact mt h.destroys_eq_nil.1 (hr.tearing ht)
  quiet := by
    intro he
    rw [h.phase] at he
    exact h.destroys_eq_nil.2 (hr.quiet he)

theorem Works.reached (hw : Works r e r') (h : Reached g E r) : Reached g E r' := by
  have hu := hw.undisturbed
  refine ⟨hw.live h.numbered h.live, hu.numbered h.numbered, hu.atRest h.atRest, ?_⟩
  rw [hu.length_tasks, hu.settings]
  exact h.room

/-! ## Notes -/

/-- A chain of moves that ends at rest ends at a run that can be reached. -/
theorem Reached.path {E' : Expansions} {l : List (Run × NodeId)} (hg : g.Sound) (h : Reached g E r)
    (hp : Path ⟨r, E, none, []⟩ l ⟨r', E', none, []⟩) (hr : r'.AtRest) : Reached g E' r' :=
  ⟨hp.live hg h.numbered h.live, hp.numbered h.numbered, hr, hp.room h.room⟩

theorem Reached.working (h : Reached g E r) {t : Task} (ht : t ∈ r.tasks) : r.phase = .working := by
  by_contra hw
  rw [(h.atRest.stopped hw).1] at ht
  cases ht

theorem recordDestroy_of_empty (t : DestroyTask) (result : DestroyResult) (time : Nat)
    (hd : r.deferred = .empty) :
    (r.recordDestroy t result time).plan = r.plan ∧
      (r.recordDestroy t result time).tasks = r.tasks ∧
      (r.recordDestroy t result time).deferred = .empty := by
  rcases recordDestroy_cases r t result time with ⟨-, h⟩ | ⟨es, ⟨-, h⟩ | ⟨owner, -, h⟩⟩
  · rw [h]
    exact ⟨rfl, rfl, hd⟩
  · rw [h]
    exact ⟨rfl, rfl, hd⟩
  · have hget : (r.markDestroyed t.resource es time).deferred.get? owner = none := by
      change r.deferred.get? owner = none
      rw [hd]
      rfl
    rw [h, destroyDone, hget]
    exact ⟨rfl, rfl, hd⟩

/-! ## Events -/

/-- What a run has become when it has taken note of an event, before it goes on. -/
inductive Notes (r : Run) : Event → Run → Prop where
  | task {t : Task} (ht : t ∈ r.tasks) {result : WorkOutcome} {time : Nat}
    (hf : t.phase = .finished result time) :
    Notes r (.collectTask t.number) ((r.dropTask t.number).complete t.node result time)
  | destroy {t : DestroyTask} (ht : t ∈ r.destroys) {result : DestroyResult} {time : Nat}
    (hf : t.phase = .finished result time) :
    Notes r (.collectDestroy t.number) ((r.dropDestroy t.number).recordDestroy t result time)
  | stop (hw : r.phase = .working) (ha : r.accepting = true) (hs : r.stopRequested = true) :
    Notes r .observeStop r

theorem Notes.keeps {r₁ : Run} (hn : Notes r e r₁) : Keeps r r₁ := by
  cases hn with
  | @task t ht result time hf =>
    have hk := keeps_complete (r.dropTask t.number) t.node result time
    exact ⟨hk.settings, hk.phase, hk.stalled⟩
  | @destroy t ht result time hf =>
    have hk := keeps_recordDestroy (r.dropDestroy t.number) t result time
    exact ⟨hk.settings, hk.phase, hk.stalled⟩
  | stop hw ha hs => exact .refl r

/-- A run that does not work any more only notes the end of destructions, and nothing else changes. -/
theorem Notes.stopped {r₁ : Run} (hn : Notes r e r₁) (h : Reached g E r) (hw : r.phase ≠ .working) :
    r.destroys ≠ [] ∧ r₁.tasks = [] ∧ r₁.deferred = .empty ∧ ∀ id, r₁.plan.isPending id = false := by
  obtain ⟨htasks, hdef, hpend⟩ := h.atRest.stopped hw
  cases hn with
  | task ht hf => exact absurd (h.working ht) hw
  | @destroy t ht result time hf =>
    obtain ⟨hplan, htasks', hdef'⟩ :=
      recordDestroy_of_empty (r := r.dropDestroy t.number) t result time hdef
    rw [hplan, htasks', hdef']
    exact ⟨List.ne_nil_of_mem ht, htasks, rfl, hpend⟩
  | stop hw' ha hs => exact absurd hw' hw

/-- After an event has been noted, the run goes on until it is at rest. -/
theorem Notes.resume {E' : Expansions} {r₁ : Run} (hn : Notes r e r₁) (hg : g.Sound)
    (h : Reached g E r) (hp : Path ⟨r, E, none, []⟩ [] ⟨r₁, E', none, []⟩) (hr : r₁.Rested) :
    Path ⟨r₁, E', none, []⟩ r₁.startsOfResume ⟨r₁.resume, E', none, []⟩ ∧ r₁.resume.AtRest := by
  have hphase := hn.keeps.phase
  rw [Run.resume, startsOfResume]
  cases hw : r₁.phase with
  | working =>
    rw [if_pos rfl]
    exact path_turn hg (hp.live hg h.numbered h.live) (hp.numbered h.numbered) hr (hp.room h.room) hw
  | tearingDown =>
    obtain ⟨-, hstopped⟩ := hn.stopped h (by rw [← hphase, hw]; decide)
    rw [if_neg (by decide)]
    simp only [endIfQuiet]
    split
    next he =>
      have hquiet := List.isEmpty_iff.1 he
      exact ⟨.single (.close E' hw hquiet), fun _ => hstopped.2.2, fun hc => (by cases hc),
        fun hc => (by cases hc), fun _ => hstopped, fun hc => (by cases hc), fun _ => hquiet⟩
    next he =>
      refine ⟨.refl _, fun _ => hstopped.2.2, fun hc => ?_, fun hc => ?_, fun _ => hstopped,
        fun _ hq => he (List.isEmpty_iff.2 hq), fun hc => ?_⟩
      · cases hw.symm.trans hc
      · cases hw.symm.trans hc
      · cases hw.symm.trans hc
  | ended =>
    have hended := hphase.symm.trans hw
    obtain ⟨hne, -⟩ := hn.stopped h (by rw [hended]; decide)
    exact absurd (h.atRest.quiet hended) hne

theorem Reached.complete (hg : g.Sound) (h : Reached g E r) {t : Task} (ht : t ∈ r.tasks)
    {result : WorkOutcome} {time : Nat} (hf : t.phase = .finished result time) :
    ∃ E', Path ⟨r.dropTask t.number, E, some (t.node, some result), []⟩ []
        ⟨(r.dropTask t.number).complete t.node result time, E', none, []⟩ ∧
      ((r.dropTask t.number).complete t.node result time).Rested ∧
      ((r.dropTask t.number).complete t.node result time).phase = .working := by
  have hcollect : Path ⟨r, E, none, []⟩ [] ⟨r.dropTask t.number, E, some (t.node, some result), []⟩ :=
    .single (.collect E ht hf)
  have hlive := hcollect.live hg h.numbered h.live
  have hE : E t.node = none := (h.live.task ht).2.2
  have hpath : ∃ E', Path ⟨r.dropTask t.number, E, some (t.node, some result), []⟩ []
      ⟨(r.dropTask t.number).complete t.node result time, E', none, []⟩ := path_complete hE time
  obtain ⟨E', hcomplete⟩ := hpath
  have hrested : (r.dropTask t.number).Rested := h.atRest.rested.congr rfl rfl
  exact ⟨E', hcomplete, rested_complete hg hlive (hcollect.numbered h.numbered) hrested hE time,
    (keeps_complete _ _ _ _).phase.trans (h.working ht)⟩

/-- An event that is noted is followed by a turn, or by the end of the run. -/
theorem notes_of_step (hidle : r.phase ≠ .working → r.tasks = []) (he : e.isNoted = true)
    (hs : r.step e = some r') : ∃ r₁, Notes r e r₁ ∧ r' = r₁.resume ∧
      r.startsOfStep e = r₁.startsOfResume := by
  cases e with
  | collectTask n =>
    obtain ⟨node, deadline, result, time, hf, rfl⟩ := step_collectTask hs
    have ht := (mem_of_task? hf).1
    have hw : r.phase = .working := by
      by_contra hw
      rw [hidle hw] at ht
      cases ht
    have hphase : ((r.dropTask n).complete node result time).phase = .working :=
      (keeps_complete _ _ _ _).phase.trans hw
    refine ⟨_, .task ht rfl, ?_, ?_⟩
    · rw [resume, hphase]
    · rw [startsOfStep, beforeTurn?, hf, startsOfResume, if_pos hphase]
  | collectDestroy n =>
    rw [Run.step] at hs
    split at hs
    next t hf =>
      split at hs
      next result time hp =>
        obtain ⟨ht, rfl⟩ := mem_of_destroy? hf
        cases hs
        refine ⟨_, .destroy ht hp, rfl, ?_⟩
        have hphase := (keeps_recordDestroy (r.dropDestroy t.number) t result time).phase
        obtain ⟨number, resource, owner, inst, phase⟩ := t
        cases hp
        rw [startsOfStep, beforeTurn?, hf, startsOfResume, hphase]
        by_cases hw : r.phase = .working
        · simp only [if_pos hw]
          exact (if_pos hw).symm
        · simp only [if_neg hw]
          exact (if_neg hw).symm
      next => cases hs
    next => cases hs
  | observeStop =>
    rw [Run.step] at hs
    split at hs
    next hc =>
      cases hs
      obtain ⟨hw, ha, hstop⟩ := hc
      refine ⟨r, .stop hw ha hstop, ?_, ?_⟩
      · rw [resume, hw]
      · rw [startsOfStep, beforeTurn?, if_pos ⟨hw, ha, hstop⟩, startsOfResume, if_pos hw]
    next => cases hs
  | _ => cases he

theorem Reached.notes (hg : g.Sound) (h : Reached g E r) (he : e.isNoted = true)
    (hs : r.step e = some r') : ∃ r₁ E', Notes r e r₁ ∧ Path ⟨r, E, none, []⟩ [] ⟨r₁, E', none, []⟩ ∧
      r₁.Rested ∧ r' = r₁.resume ∧ r.startsOfStep e = r₁.startsOfResume := by
  obtain ⟨r₁, hn, hr', hstarts⟩ := notes_of_step (fun hw => (h.atRest.stopped hw).1) he hs
  cases hn with
  | @task t ht result time hf =>
    obtain ⟨E', hcomplete, hrested, -⟩ := h.complete hg ht hf
    have hcollect : Path ⟨r, E, none, []⟩ []
        ⟨r.dropTask t.number, E, some (t.node, some result), []⟩ := .single (.collect E ht hf)
    exact ⟨_, E', .task ht hf, hcollect.trans_nil hcomplete, hrested, hr', hstarts⟩
  | @destroy t ht result time hf =>
    have hlive : Live g ⟨r.dropDestroy t.number, E, none, []⟩ := h.live.frame rfl rfl rfl rfl
    have hrested : (r.dropDestroy t.number).Rested := h.atRest.rested.congr rfl rfl
    exact ⟨_, E, .destroy ht hf, path_recordDestroy ht hf,
      rested_recordDestroy hg hlive hrested t result time, hr', hstarts⟩
  | stop hw ha hstop => exact ⟨r, E, .stop hw ha hstop, .refl _, h.atRest.rested, hr', hstarts⟩

/-- The events that are not noted are work between two turns. -/
theorem works_of_step (he : e.isNoted = false) (hs : r.step e = some r') : Works r e r' := by
  cases e with
  | beginTask n =>
    obtain ⟨node, deadline, scope, work, hf, rfl⟩ := step_beginTask hs
    exact works_beginWork (mem_of_task? hf).1 rfl
  | finishTask n =>
    obtain ⟨node, deadline, wake, act, hf, rfl⟩ := step_finishTask hs
    exact works_finishAct (mem_of_task? hf).1 rfl
  | expireTask n =>
    rw [Run.step] at hs
    split at hs
    next number node deadline wake act hf =>
      obtain ⟨ht, rfl⟩ := mem_of_task? hf
      cases hs
      exact .task ht (.expire rfl rfl)
    next => cases hs
  | stopTask n =>
    rw [Run.step] at hs
    split at hs
    next number node deadline wake act hf =>
      obtain ⟨ht, rfl⟩ := mem_of_task? hf
      split at hs
      next hstop =>
        cases hs
        exact .task ht (.stop rfl hstop)
      next => cases hs
    next => cases hs
  | collectTask n => cases he
  | beginDestroy n =>
    obtain ⟨resource, owner, inst, handle, hf, rfl⟩ := step_beginDestroy hs
    exact works_callDestroy (mem_of_destroy? hf).1 rfl
  | finishDestroy n =>
    rw [Run.step] at hs
    split at hs
    next number resource owner inst wake act hf =>
      obtain ⟨ht, rfl⟩ := mem_of_destroy? hf
      cases hs
      exact .answerDestroy ht rfl rfl
    next => cases hs
  | collectDestroy n => cases he
  | requestStop =>
    cases hs
    exact .requestStop
  | observeStop => cases he
  | advance time =>
    rw [Run.step] at hs
    split at hs
    next h =>
      cases hs
      exact .advance h
    next => cases hs

theorem startsOfStep_of_not_isNoted (r : Run) (he : e.isNoted = false) : r.startsOfStep e = [] := by
  cases e with
  | collectTask n => cases he
  | collectDestroy n => cases he
  | observeStop => cases he
  | _ => rfl

theorem Reached.note (hg : g.Sound) (h : Reached g E r) (he : e.isNoted = true)
    (hs : r.step e = some r') :
    ∃ E', Path ⟨r, E, none, []⟩ (r.startsOfStep e) ⟨r', E', none, []⟩ ∧ Reached g E' r' := by
  obtain ⟨r₁, E', hn, hpath, hrested, rfl, hstarts⟩ := h.notes hg he hs
  obtain ⟨hresume, hrest⟩ := hn.resume hg h hpath hrested
  have hall := hpath.trans hresume
  rw [hstarts]
  exact ⟨E', hall, h.path hg hall hrest⟩

/-- What an event does: work between two turns, or a chain of moves. -/
theorem Reached.step (hg : g.Sound) (h : Reached g E r) (hs : r.step e = some r') :
    (Works r e r' ∧ r.startsOfStep e = [] ∧ Reached g E r') ∨
      (e.isNoted = true ∧ ∃ E', Path ⟨r, E, none, []⟩ (r.startsOfStep e) ⟨r', E', none, []⟩ ∧
        Reached g E' r') := by
  cases he : e.isNoted with
  | false =>
    have hw := works_of_step he hs
    exact .inl ⟨hw, startsOfStep_of_not_isNoted r he, hw.reached h⟩
  | true => exact .inr ⟨rfl, h.note hg he hs⟩

theorem Leads.reached (hg : g.Sound) {settings : RunSettings} {stopRequested : Bool} {h : Trace}
    (hl : Leads (ofGraph settings g stopRequested) h r) : ∃ E, Reached g E r := by
  induction hl with
  | start => exact ⟨.none, (path_ofGraph hg settings stopRequested).2⟩
  | event _ hs ih =>
    obtain ⟨E, hr⟩ := ih
    rcases hr.step hg hs with ⟨-, -, hr'⟩ | ⟨-, E', -, hr'⟩
    · exact ⟨E, hr'⟩
    · exact ⟨E', hr'⟩

/-! ## Virtual time -/

theorem Leads.trans {r₀ : Run} {h h' : Trace} (hl : Leads r₀ h r) (hl' : Leads r h' r') :
    Leads r₀ (h ++ h') r' := by
  induction hl' with
  | start =>
    rw [List.append_nil]
    exact hl
  | event _ he ih =>
    rw [← List.append_assoc]
    exact .event ih he

/-- An execution in virtual time is one of the histories. -/
theorem leads_runFor (stopAt : Option Nat) (fuel : Nat) (r : Run) :
    ∃ h, Leads r h (runFor stopAt fuel r) := by
  induction fuel generalizing r with
  | zero => exact ⟨[], .start⟩
  | succ fuel ih =>
    rw [runFor]
    split
    next r' hr =>
      obtain ⟨e, -, he⟩ := Option.bind_eq_some_iff.1 hr
      obtain ⟨h, hl⟩ := ih r'
      exact ⟨[] ++ [(r, e)] ++ h, (Leads.start.event he).trans hl⟩
    next => exact ⟨[], .start⟩

end Reached
end Run

end Workplan
