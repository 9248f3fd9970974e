import Workplan.Proofs.Run.Mirroring
import Workplan.Proofs.Run.ScheduleIndependence

/-! Teardown: what becomes of destructions does not show in the outcome of a run. As long as every destroy
handler gets as far as to wait, it may end in any way: the run with other destroy handlers and the same
events is a mirror image, and ends in the same way with the same statuses and results. A destroy handler
that panics before it waits is never reported; nodes that wait for it are settled without what is idle
then being skipped. -/
namespace Workplan
open Outcome
set_option autoImplicit false

/-- True of the events that only let time pass. -/
def Event.isAdvance : Event → Bool
  | .advance _ => true
  | _ => false

namespace Run
namespace Mirrors
variable {b : Behaviour} {R R' : Registry} {r r' : Run} {n : Nat} {e : Event}

/-! ## Tasks -/

@[elab_as_elim]
theorem task?_elim (h : Mirrors R R' r r') (n : Nat) {motive : Option Task → Option Task → Prop}
    (none : motive none none)
    (some : ∀ number number' node deadline deadline' phase phase',
      Option.isSome deadline = Option.isSome deadline' → TaskPhase.Mirrors R R' phase phase' →
      motive (some ⟨number, node, deadline, phase⟩) (some ⟨number', node, deadline', phase'⟩)) :
    motive (r.task? n) (r'.task? n) := by
  have ht : Option.Rel (Task.Mirrors R R') (r.task? n) (r'.task? n) :=
    Pointwise.find? h.tasks fun t t' ht => by rw [ht.number]
  generalize r.task? n = x at ht ⊢
  generalize r'.task? n = x' at ht ⊢
  cases ht with
  | none => exact none
  | @some t t' ht =>
    obtain ⟨number, node, deadline, phase⟩ := t
    obtain ⟨number', node', deadline', phase'⟩ := t'
    obtain ⟨-, hnode, hdeadline, hphase⟩ := ht
    obtain rfl : node = node' := hnode
    exact some _ _ _ _ _ _ _ hdeadline hphase

@[elab_as_elim]
theorem destroy?_elim (h : Mirrors R R' r r') (n : Nat)
    {motive : Option DestroyTask → Option DestroyTask → Prop} (none : motive none none)
    (some : ∀ number number' resource resource' owner owner' inst inst' phase phase',
      DestroyTask.Mirrors ⟨number, resource, owner, inst, phase⟩
        ⟨number', resource', owner', inst', phase'⟩ → DestroyPhase.Mirrors phase phase' →
      motive (some ⟨number, resource, owner, inst, phase⟩)
        (some ⟨number', resource', owner', inst', phase'⟩)) :
    motive (r.destroy? n) (r'.destroy? n) := by
  have hd : Option.Rel DestroyTask.Mirrors (r.destroy? n) (r'.destroy? n) :=
    Pointwise.find? h.destroys fun d d' hd => by rw [hd.number]
  generalize r.destroy? n = x at hd ⊢
  generalize r'.destroy? n = x' at hd ⊢
  cases hd with
  | none => exact none
  | some hd => exact some _ _ _ _ _ _ _ _ _ _ hd hd.phase

theorem setTaskPhase (h : Mirrors R R' r r') (n : Nat) {phase phase' : TaskPhase}
    (hp : phase.Mirrors R R' phase') : Mirrors R R' (r.setTaskPhase n phase) (r'.setTaskPhase n phase') where
  outline := h.outline
  tasks := by
    refine List.forall₂_map_left_iff.2 (List.forall₂_map_right_iff.2 (h.tasks.imp fun t t' ht => ?_))
    rw [ht.number]
    split
    next => exact ⟨rfl, ht.node, ht.deadline, hp⟩
    next => exact ht
  destroys := h.destroys
  registry := h.registry
  registry' := h.registry'

theorem setDestroyPhase (h : Mirrors R R' r r') (n : Nat) {phase phase' : DestroyPhase}
    (hp : phase.Mirrors phase') :
    Mirrors R R' (r.setDestroyPhase n phase) (r'.setDestroyPhase n phase') where
  outline := h.outline
  tasks := h.tasks
  destroys := by
    refine List.forall₂_map_left_iff.2 (List.forall₂_map_right_iff.2 (h.destroys.imp fun d d' hd => ?_))
    rw [hd.number]
    split
    next => exact ⟨rfl, hd.resource, hd.owner, hp⟩
    next => exact hd
  registry := h.registry
  registry' := h.registry'

theorem finishWith (h : Mirrors R R' r r') (n : Nat) {result result' : WorkOutcome}
    (hres : result = result') : Mirrors R R' (r.finishWith n result) (r'.finishWith n result') := by
  subst hres
  exact h.setTaskPhase n (.finished result _ _)

theorem dropTask (h : Mirrors R R' r r') (n : Nat) : Mirrors R R' (r.dropTask n) (r'.dropTask n) :=
  ⟨h.outline, Pointwise.filter h.tasks fun t t' ht => by rw [ht.number], h.destroys, h.registry,
    h.registry'⟩

theorem dropDestroy (h : Mirrors R R' r r') (n : Nat) :
    Mirrors R R' (r.dropDestroy n) (r'.dropDestroy n) :=
  ⟨h.outline, h.tasks, Pointwise.filter h.destroys fun d d' hd => by rw [hd.number], h.registry,
    h.registry'⟩

theorem afterCall {α : Type} (h : Mirrors R R' r r') (n : Nat)
    {pending : (World → Answer α × World) → PendingAct} {act act' : World → Answer α × World}
    (hact : (pending act).Mirrors (pending act')) (ms ms' : Nat) :
    Mirrors R R' (r.afterCall n pending (.wait ms act)) (r'.afterCall n pending (.wait ms' act')) := by
  simp only [Run.afterCall, h.stopRequested]
  split
  next => exact h.finishWith n rfl
  next => exact h.setTaskPhase n (.waiting _ _ hact)

theorem beginWork (hR : R.Mirrors b R') (h : Mirrors R R' r r') (n : Nat) (node : NodeId)
    (scope : Scope) {work work' : Work} (hw : work.Mirrors R R' work') :
    Mirrors R R' (r.beginWork n node scope work) (r'.beginWork n node scope work') := by
  cases hw with
  | @step name k k' hk hk' arguments resources resources' =>
    obtain ⟨hinputs, hall⟩ := hR.left.runner hk
    obtain ⟨hinputs', hall'⟩ := hR.right.runner hk'
    simp only [Run.beginWork, beginStep, hinputs, hinputs']
    cases Work.input (b.stepInputs name) arguments scope with
    | error e => exact h.finishWith n rfl
    | ok input =>
      obtain ⟨ms, act, w, hwait, hact⟩ := hall ⟨node, resources, input⟩ r.world
      obtain ⟨ms', act', w', hwait', hact'⟩ := hall' ⟨node, resources', input⟩ r'.world
      simp only [hwait, hwait']
      exact (h.withWorld w w').afterCall n (.answer fun v v' => (hact v).trans (hact' v').symm) ms ms'
  | @create kind k k' hk hk' name arguments =>
    obtain ⟨hinputs, hall⟩ := hR.left.kind hk
    obtain ⟨hinputs', hall'⟩ := hR.right.kind hk'
    have hneeds : r.slots.needsCreation name = r'.slots.needsCreation name := by
      rw [← Slots.needsCreation_outline, h.slots, Slots.needsCreation_outline]
    have hcontains : SortedMap.contains r.slots name = SortedMap.contains r'.slots name := by
      rw [← Slots.contains_outline, h.slots, Slots.contains_outline]
    simp only [Run.beginWork, beginCreate, hinputs, hinputs', hneeds, hcontains]
    cases Work.input (b.createInputs kind) arguments scope with
    | error e => exact h.finishWith n rfl
    | ok input =>
      obtain ⟨ms, act, w, hwait, hact⟩ := hall ⟨node, .empty, input⟩ r.world
      obtain ⟨ms', act', w', hwait', hact'⟩ := hall' ⟨node, .empty, input⟩ r'.world
      have hanswer : ∀ v v', (resultOfCreation (act v).1).map (fun _ => (⟨0⟩ : ResourceInstance)) =
          (resultOfCreation (act' v').1).map fun _ => ⟨0⟩ := by
        intro v v'
        obtain ⟨i, hi⟩ := hact v
        obtain ⟨i', hi'⟩ := hact' v'
        rw [hi, hi']
        cases b.create kind node input <;> rfl
      simp only [hwait, hwait']
      split
      next => exact (h.withWorld w w').afterCall n (.create name hanswer) ms ms'
      next =>
        split
        next => exact h.finishWith n rfl
        next => exact h.finishWith n rfl
  | expand replication => exact h.finishWith n rfl

theorem finishAct (h : Mirrors R R' r r') (n : Nat) {act act' : PendingAct} (hact : act.Mirrors act') :
    Mirrors R R' (r.finishAct n act) (r'.finishAct n act') := by
  cases hact with
  | answer ha => exact (h.withWorld _ _).finishWith n (congrArg resultOfStep (ha _ _))
  | @create name act act' ha =>
    have hacquire : r.slots.outline.acquire name
          ((resultOfCreation (act r.world).1).map fun _ => ⟨0⟩) =
        r'.slots.outline.acquire name ((resultOfCreation (act' r'.world).1).map fun _ => ⟨0⟩) := by
      rw [h.slots, ha r.world r'.world]
    rw [Slots.outline_acquire, Slots.outline_acquire] at hacquire
    obtain ⟨hres, hs⟩ := Prod.ext_iff.1 hacquire
    have hcreated : ∀ x : Except RunError ResourceInstance, (x.map fun _ => WorkResult.created) =
        (x.map fun _ => (⟨0⟩ : ResourceInstance)).map fun _ => .created := fun x => by
      cases x <;> rfl
    have hslots := (h.withWorld (act r.world).2 (act' r'.world).2).withSlots hs
    refine hslots.finishWith n ?_
    exact (hcreated _).trans ((congrArg _ hres).trans (hcreated _).symm)

/-! ## Destructions -/

theorem callDestroy (h : Mirrors R R' r r') (n : Nat) (i i' : ResourceInstance)
    {handle handle' : Handler ResourceInstance Unit} (hh : (DestroyPhase.queued handle).Reports)
    (hh' : (DestroyPhase.queued handle').Reports) :
    Mirrors R R' (r.callDestroy n i handle) (r'.callDestroy n i' handle') := by
  obtain ⟨ms, act, w, hwait⟩ := hh i r.world
  obtain ⟨ms', act', w', hwait'⟩ := hh' i' r'.world
  simp only [Run.callDestroy, hwait, hwait']
  exact (h.withWorld w w').setDestroyPhase n (.waiting _ _ _ _)

theorem resultOfDestroy_ne_lost (a : Answer Unit) : resultOfDestroy a ≠ .lost := by
  cases a <;> simp [resultOfDestroy]

/-! ## Events -/

theorem step (hR : R.Mirrors b R') (h : Mirrors R R' r r') (he : e.isAdvance = false) :
    Option.Rel (Mirrors R R') (r.step e) (r'.step e) := by
  -- Tasks and destructions with one number are in the same phase, so an event can happen to both or to none.
  cases e with
  | beginTask n =>
    simp only [Run.step]
    refine h.task?_elim n .none fun _ _ node _ _ _ _ _ hphase => ?_
    cases hphase with
    | queued scope hw => exact .some (h.beginWork hR n node scope hw)
    | waiting wake wake' hact => exact .none
    | finished result time time' => exact .none
  | finishTask n =>
    simp only [Run.step]
    refine h.task?_elim n .none fun _ _ _ _ _ _ _ _ hphase => ?_
    cases hphase with
    | queued scope hw => exact .none
    | waiting wake wake' hact => exact .some (h.finishAct n hact)
    | finished result time time' => exact .none
  | expireTask n =>
    simp only [Run.step]
    refine h.task?_elim n .none fun _ _ _ deadline deadline' _ _ hdeadline hphase => ?_
    rcases Pointwise.cases_of_isSome hdeadline with ⟨rfl, rfl⟩ | ⟨_, _, rfl, rfl⟩
    · exact .none
    · cases hphase with
      | queued scope hw => exact .none
      | waiting wake wake' hact => exact .some (h.finishWith n rfl)
      | finished result time time' => exact .none
  | stopTask n =>
    simp only [Run.step, h.stopRequested]
    refine h.task?_elim n .none fun _ _ _ _ _ _ _ _ hphase => ?_
    cases hphase with
    | queued scope hw => exact .none
    | waiting wake wake' hact =>
      simp only
      split
      next => exact .some (h.finishWith n rfl)
      next => exact .none
    | finished result time time' => exact .none
  | collectTask n =>
    simp only [Run.step]
    refine h.task?_elim n .none fun _ _ node _ _ _ _ _ hphase => ?_
    cases hphase with
    | queued scope hw => exact .none
    | waiting wake wake' hact => exact .none
    | finished result time time' =>
      exact .some (((h.dropTask n).complete hR node result time time').turn hR)
  | beginDestroy n =>
    simp only [Run.step]
    refine h.destroy?_elim n .none fun _ _ _ _ _ _ inst inst' _ _ _ hphase => ?_
    cases hphase with
    | queued hh hh' => exact .some (h.callDestroy n inst inst' hh hh')
    | waiting wake wake' act act' => exact .none
    | finished hres hres' time time' => exact .none
  | finishDestroy n =>
    simp only [Run.step]
    refine h.destroy?_elim n .none fun _ _ _ _ _ _ _ _ _ _ _ hphase => ?_
    cases hphase with
    | queued hh hh' => exact .none
    | waiting wake wake' act act' =>
      have hended := DestroyPhase.Mirrors.finished (resultOfDestroy_ne_lost (act r.world).1)
        (resultOfDestroy_ne_lost (act' r'.world).1)
      exact .some ((h.withWorld _ _).setDestroyPhase n (hended _ _))
    | finished hres hres' time time' => exact .none
  | collectDestroy n =>
    simp only [Run.step]
    refine h.destroy?_elim n .none fun _ _ _ _ _ _ _ _ _ _ hd hphase => ?_
    cases hphase with
    | queued hh hh' => exact .none
    | waiting wake wake' act act' => exact .none
    | finished hres hres' time time' =>
      exact .some (((h.dropDestroy n).recordDestroy hR hd hres hres' time time').resume hR)
  | requestStop =>
    exact .some (h.map (fun r => { r with stopRequested := true }) fun _ => ⟨rfl, rfl, rfl, rfl⟩)
  | observeStop =>
    have hcond : (r.phase = .working ∧ r.accepting ∧ r.stopRequested) ↔
        (r'.phase = .working ∧ r'.accepting ∧ r'.stopRequested) := by
      rw [h.phase, h.accepting, h.stopRequested]
    simp only [Run.step, hcond]
    split
    next => exact .some (h.turn hR)
    next => exact .none
  | advance time => cases he

end Mirrors

/-! ## Histories -/

/-- What has happened in a history, apart from the passing of time. -/
def happenings (h : Trace) : List Event := (h.map Prod.snd).filter fun e => !e.isAdvance

section Histories
variable {b : Behaviour} {R R' : Registry} {r₀ r₀' r r' : Run} {h h' : Trace} {e : Event}

theorem happenings_append (h : Trace) (r : Run) (e : Event) :
    happenings (h ++ [(r, e)]) = happenings h ++ if e.isAdvance then [] else [e] := by
  rw [happenings, happenings, List.map_append, List.filter_append]
  cases he : e.isAdvance <;> simp [he]

theorem world_of_advance (he : e.isAdvance = true) (hs : r.step e = some r') :
    ∃ w, r' = { r with world := w } := by
  cases e with
  | advance time =>
    rw [Run.step] at hs
    split at hs
    next => exact ⟨_, (Option.some.inj hs).symm⟩
    next => cases hs
  | _ => cases he

theorem Mirrors.exists_leads (hR : R.Mirrors b R') (hm : Mirrors R R' r₀ r₀') (hl : Leads r₀ h r) :
    ∃ h' r', Leads r₀' h' r' ∧ happenings h' = happenings h ∧ Mirrors R R' r r' := by
  induction hl with
  | start => exact ⟨[], r₀', .start, rfl, hm⟩
  | @event h r r₁ e hl he ih =>
    obtain ⟨h', r', hl', hh, hm'⟩ := ih
    cases hadv : e.isAdvance with
    | true =>
      obtain ⟨w, rfl⟩ := world_of_advance hadv he
      refine ⟨h', r', hl', ?_, hm'.withWorld w r'.world⟩
      rw [happenings_append, hh, hadv, if_pos rfl, List.append_nil]
    | false =>
      have hstep := hm'.step hR hadv
      rw [he] at hstep
      cases hs : r'.step e with
      | none => rw [hs] at hstep; cases hstep
      | some r₁' =>
        rw [hs] at hstep
        cases hstep with
        | some hm₁ =>
          refine ⟨h' ++ [(r', e)], r₁', hl'.event hs, ?_, hm₁⟩
          rw [happenings_append, happenings_append, hh]

theorem Mirrors.of_leads (hR : R.Mirrors b R') (hm : Mirrors R R' r₀ r₀') (hl : Leads r₀ h r)
    (hl' : Leads r₀' h' r') (hh : happenings h' = happenings h) : Mirrors R R' r r' := by
  -- On the first history: time that passes in it is dropped, and an event has to be met by the same event
  -- of the second, in which only time may have passed since.
  induction hl generalizing h' r' with
  | start =>
    induction hl' with
    | start => exact hm
    | @event h' r' r₁' e hl' he ih =>
      rw [happenings_append] at hh
      obtain ⟨hh, he'⟩ := List.append_eq_nil_iff.1 hh
      cases hadv : e.isAdvance with
      | true =>
        obtain ⟨w, rfl⟩ := world_of_advance hadv he
        exact (ih hh).withWorld _ w
      | false => rw [hadv] at he'; cases he'
  | @event h r r₁ e hl he ih =>
    cases hadv : e.isAdvance with
    | true =>
      obtain ⟨w, rfl⟩ := world_of_advance hadv he
      rw [happenings_append, hadv, if_pos rfl, List.append_nil] at hh
      exact (ih hl' hh).withWorld w _
    | false =>
      rw [happenings_append, hadv] at hh
      induction hl' with
      | start => exact absurd hh.symm (List.append_ne_nil_of_right_ne_nil _ (List.cons_ne_nil e []))
      | @event h' r' r₁' e' hl' he' ih' =>
        rw [happenings_append] at hh
        cases hadv' : e'.isAdvance with
        | true =>
          rw [hadv', if_pos rfl, List.append_nil] at hh
          obtain ⟨w, rfl⟩ := world_of_advance hadv' he'
          exact (ih' hh).withWorld _ w
        | false =>
          rw [hadv'] at hh
          obtain ⟨hbefore, hlast⟩ := List.append_inj' hh rfl
          obtain rfl : e' = e := (List.cons.inj hlast).1
          have hstep := (ih hl' hbefore).step hR hadv
          rw [he, he'] at hstep
          cases hstep with
          | some hm₁ => exact hm₁

end Histories
end Run

/-! ## Outcomes -/

/-- Reports that differ only in times and in destructions that have failed. -/
structure RunReport.Mirrors (q q' : RunReport) : Prop where
  statuses : q.statuses = q'.statuses
  results : q.results = q'.results
  timeline : q.timeline.outline = q'.timeline.outline

/-- Outcomes of one kind, with the same cause and with reports that agree. -/
inductive SameOutcome : Except ExecuteError RunReport → Except ExecuteError RunReport → Prop where
  | ok {q q' : RunReport} (h : q.Mirrors q') : SameOutcome (.ok q) (.ok q')
  | failed (node : NodeId) (cause : RunError) {q q' : RunReport} (h : q.Mirrors q') :
    SameOutcome (.error (.failed node cause q)) (.error (.failed node cause q'))
  | cancelled {q q' : RunReport} (h : q.Mirrors q') :
    SameOutcome (.error (.cancelled q)) (.error (.cancelled q'))
  | stalled (pending : List NodeId) {q q' : RunReport} (h : q.Mirrors q') :
    SameOutcome (.error (.stalled pending q)) (.error (.stalled pending q'))

theorem Run.Mirrors.outcome {R R' : Registry} {r r' : Run} (h : Run.Mirrors R R' r r') :
    SameOutcome r.outcome r'.outcome := by
  have hreport : r.report.Mirrors r'.report :=
    ⟨congrArg Plan.statuses h.plan, congrArg Plan.results h.plan, (congrArg Run.timeline h.outline :)⟩
  have hfailure : r.failure = r'.failure := (congrArg Run.failure h.outline :)
  have hcancelled : r.cancelled = r'.cancelled := (congrArg Run.cancelled h.outline :)
  have hstalled : r.stalled = r'.stalled := (congrArg Run.stalled h.outline :)
  rw [Run.outcome, Run.outcome, hfailure, hcancelled, hstalled]
  cases r'.failure with
  | some f => exact .failed f.1 f.2 hreport
  | none =>
    simp only
    split
    next => exact .cancelled hreport
    next =>
      split
      next => exact .ok hreport
      next => exact .stalled _ hreport

namespace Registry

/-- The registry with other destroy handlers. -/
def withDestroys (R : Registry) (destroy : String → Handler ResourceInstance Unit) : Registry :=
  { R with kinds := R.kinds.mapValues fun name k => { k with destroy := destroy name } }

theorem kind?_withDestroys (R : Registry) (destroy : String → Handler ResourceInstance Unit)
    (name : String) : (R.withDestroys destroy).kind? name =
      (R.kind? name).map fun k => { k with destroy := destroy name } :=
  SortedMap.get?_mapValues _ _ _

/-- Handlers of steps and creations follow a behaviour whatever the destroy handlers do, as long as these
wait. -/
theorem Follows.mirrors {R : Registry} {b : Behaviour} (h : R.Follows b)
    {destroy : String → Handler ResourceInstance Unit}
    (hd : ∀ name i w, ∃ ms act w', destroy name i w = (.wait ms act, w')) :
    R.Mirrors b (R.withDestroys destroy) where
  left := h
  right := by
    constructor
    · exact h.runner
    · intro name k hk
      rw [kind?_withDestroys] at hk
      obtain ⟨k₀, hk₀, rfl⟩ := Option.map_eq_some_iff.1 hk
      have hk₁ := h.kind hk₀
      exact hk₁
    · intro name k hk
      rw [kind?_withDestroys] at hk
      obtain ⟨k₀, hk₀, rfl⟩ := Option.map_eq_some_iff.1 hk
      exact hd name
  runners := fun _ => rfl
  kinds := fun name => by rw [kind?_withDestroys, Option.isSome_map]

end Registry

/-- Teardown does not show. When steps and creations follow a behaviour and all destroy handlers get as far
as to wait, every history of a run has a counterpart with any other such destroy handlers, and any two
histories in which the same happens end in the same way, with the same statuses, the same results and the
same events of nodes. -/
theorem Registry.Follows.teardown {registry : Registry} {b : Behaviour} (hR : registry.Follows b)
    {destroy : String → Handler ResourceInstance Unit}
    (hd : ∀ name i w, ∃ ms act w', destroy name i w = (.wait ms act, w')) (g : Graph) (parallel : Nat)
    (timeout : Option Nat) (stopRequested : Bool) {h : Run.Trace} {r : Run}
    (hl : Run.Leads (Run.ofGraph ⟨registry, parallel, timeout⟩ g stopRequested) h r) :
    (∃ h' r', Run.Leads (Run.ofGraph ⟨registry.withDestroys destroy, parallel, timeout⟩ g stopRequested)
      h' r' ∧ Run.happenings h' = Run.happenings h) ∧
    ∀ h' r', Run.Leads (Run.ofGraph ⟨registry.withDestroys destroy, parallel, timeout⟩ g stopRequested)
      h' r' → Run.happenings h' = Run.happenings h →
        r.phase = r'.phase ∧ SameOutcome r.outcome r'.outcome := by
  have hm := hR.mirrors hd
  have hturn := (Run.mirrors_new registry (registry.withDestroys destroy) parallel timeout g
    stopRequested).turn hm
  refine ⟨?_, fun h' r' hl' hh => ?_⟩
  · obtain ⟨h', r', hl', hh, -⟩ := hturn.exists_leads hm hl
    exact ⟨h', r', hl', hh⟩
  · have hmirror := hturn.of_leads hm hl hl' hh
    exact ⟨hmirror.phase, hmirror.outcome⟩

namespace Relay

def stuck : String → Handler ResourceInstance Unit :=
  fun _ _ w => (.wait 0 fun w => (.error "stuck", w), w)

/-- The run ends in the same way when the resource cannot be destroyed. -/
theorem ends_despite_teardown : ∃ h h' r', Run.Leads (Run.ofGraph settings graph false) h ended ∧
    Run.Leads (Run.ofGraph ⟨registry.withDestroys stuck, 1, none⟩ graph false) h' r' ∧
    Run.happenings h' = Run.happenings h ∧ r'.phase = .ended ∧
    SameOutcome ended.outcome r'.outcome := by
  obtain ⟨h, hl⟩ := Run.leads_runFor none 60 (Run.ofGraph settings graph false)
  obtain ⟨⟨h', r', hl', hh⟩, hall⟩ := Registry.Follows.teardown (follows_timed 1 2 3 ⟨0⟩ (.value ()))
    (fun _ _ w => ⟨0, _, w, rfl⟩ : ∀ name i w, ∃ ms act w', stuck name i w = (.wait ms act, w')) graph 1
    none false hl
  obtain ⟨hphase, hsame⟩ := hall h' r' hl' hh
  have hended : ended.phase = .ended := by decide +kernel
  exact ⟨h, h', r', hl, hl', hh, hphase.symm.trans hended, hsame⟩

end Relay

/-! ## A resource that is left over -/

namespace Leftover

/-- Step `b` shares one of its resources with step `a`, which says that `b` has no instances. -/
def definitions : Definitions where
  resources := [⟨"q", "pool", .empty⟩, ⟨"r", "pool", .empty⟩]
  steps := [(StepDefinition.new "a" "emit").withUse (Reference.resource "q"),
    (((StepDefinition.new "b" "emit").withCount (.reference (Reference.step "a"))).withUse
      (Reference.resource "q")).withUse (Reference.resource "r")]

/-- A runner that answers zero, and a resource kind whose instances are destroyed at once. -/
def registry : Registry :=
  (Registry.empty.withRunner "emit"
    ⟨⟨[], [], ["pool"]⟩, fun _ w => (.wait 0 fun w => (.value (.ofNat 0), w), w)⟩).withKind "pool"
    ⟨⟨[]⟩, fun _ w => (.wait 0 fun w => (.value ⟨0⟩, w), w),
      fun _ w => (.wait 0 fun w => (.value (), w), w)⟩

def ended (destroy : String → Handler ResourceInstance Unit) : Except BuildError Run :=
  (Graph.build definitions registry).map fun g =>
    Run.runFor none 60 (Run.ofGraph ⟨registry.withDestroys destroy, 2, none⟩ g false)

/-- Nothing is left over when the destruction of `q` fails. -/
example : (ended Relay.stuck).toOption.map Run.stalled = some [] := by decide +kernel

/-- Resource `r` is left over when the destroy handler of `q` panics before it waits. -/
example : (ended fun _ _ w => (.panic "stuck", w)).toOption.map Run.stalled =
    some [NodeId.resource "r"] := by decide +kernel

end Leftover

end Workplan
