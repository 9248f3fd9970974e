import Workplan.Proofs.Inputs
import Workplan.Proofs.Run.Faultlessness
import Workplan.Proofs.Run.Origins

/-! Handler inputs: what the handlers of a run are called with. A handler is called with a value for each
argument of the definition and no other, each of the declared kind. A node with an argument that has no
such value calls no handler, and fails with the one error that counts for its arguments (`Work.Fault`).

This holds for any names. Names that are not plain can make two steps share an id; a node is then told from
another by the number of its task. The scope of a node is the one that it is prepared with when it starts;
what starts without becoming a task, because the scope itself cannot be made or something that the node
uses is gone, never comes to its arguments. With plain names only the scope can fail. -/
namespace Workplan
open Outcome
set_option autoImplicit false

/-! ## What definitions give a node -/

/-- The declared inputs and the arguments that definitions give a node with a handler. -/
inductive NodeKind.Takes (defs : Definitions) (registry : Registry) :
    NodeKind → List InputSpec → SortedMap String Expression → Prop where
  | step {s : StepDefinition} {runner : Runner} (hs : s ∈ defs.steps)
    (hr : registry.runner? s.runner = some runner) (index : Option Nat) (vars : LoopVars) :
    Takes defs registry (.step (.ofDefinition s index vars)) runner.shape.inputs s.arguments
  | create {d : ResourceDefinition} {kind : ResourceKind} (hd : d ∈ defs.resources)
    (hk : registry.kind? d.kind = some kind) :
    Takes defs registry (.resource d.name d.kind d.arguments) kind.shape.inputs d.arguments

section Takes
variable {defs : Definitions} {registry : Registry} {kind : NodeKind} {inputs : List InputSpec}
variable {arguments : SortedMap String Expression}

theorem NodeKind.Takes.matches (ha : defs.Admissible registry)
    (h : kind.Takes defs registry inputs arguments) : InputSpec.Matches inputs arguments.keys := by
  cases h with
  | step hs hr index vars =>
    obtain ⟨runner, hr', hm, -⟩ := (ha.steps _ hs).registered
    cases hr.symm.trans hr'
    exact hm
  | create hd hk =>
    obtain ⟨kind, hk', hm⟩ := (ha.resources _ hd).registered
    cases hk.symm.trans hk'
    exact hm

theorem NodeKind.takes_step_iff {s : StepDefinition} (hs : s ∈ defs.steps) {runner : Runner}
    (hr : registry.runner? s.runner = some runner) {index : Option Nat} {vars : LoopVars} :
    (NodeKind.step (.ofDefinition s index vars)).Takes defs registry inputs arguments ↔
      inputs = runner.shape.inputs ∧ arguments = s.arguments := by
  constructor
  · intro h
    generalize hkind : NodeKind.step (.ofDefinition s index vars) = kind at h
    cases h with
    | @step s' runner' hs' hr' index' vars' =>
      have hinst := NodeKind.step.inj hkind
      have hrunner : s.runner = s'.runner := congrArg StepInstance.runner hinst
      rw [← hrunner] at hr'
      cases hr.symm.trans hr'
      exact ⟨rfl, (congrArg StepInstance.arguments hinst).symm⟩
    | create hd hk => cases hkind
  · rintro ⟨rfl, rfl⟩
    exact .step hs hr index vars

theorem NodeKind.takes_resource_iff {d : ResourceDefinition} (hd : d ∈ defs.resources)
    {kind : ResourceKind} (hk : registry.kind? d.kind = some kind) :
    (NodeKind.resource d.name d.kind d.arguments).Takes defs registry inputs arguments ↔
      inputs = kind.shape.inputs ∧ arguments = d.arguments := by
  constructor
  · intro h
    generalize hkind : NodeKind.resource d.name d.kind d.arguments = nodeKind at h
    cases h with
    | step hs hr index vars => cases hkind
    | @create d' kind' hd' hk' =>
      obtain ⟨-, hname, hargs⟩ := NodeKind.resource.inj hkind
      rw [← hname] at hk'
      cases hk.symm.trans hk'
      exact ⟨rfl, hargs.symm⟩
  · rintro ⟨rfl, rfl⟩
    exact .create hd hk

theorem Run.takes_iff_of_workOf {slots : Slots} {work : Work} (hd : kind.Declared defs)
    (hw : Run.workOf registry slots kind = .ok work) :
    work.Takes inputs arguments ↔ kind.Takes defs registry inputs arguments := by
  cases hd with
  | step hs index vars =>
    rw [Run.workOf] at hw
    split at hw
    next => cases hw
    next runner hr =>
      obtain ⟨resources, -, hw⟩ := bind_eq_ok.1 hw
      cases hw
      rw [NodeKind.takes_step_iff hs hr]
      exact Work.takes_step_iff
  | expansion hs hr =>
    cases hw
    exact iff_of_false (fun h => by cases h) fun h => by cases h
  | resource hd =>
    rw [Run.workOf] at hw
    split at hw
    next => cases hw
    next k hk =>
      cases hw
      rw [NodeKind.takes_resource_iff hd hk]
      exact Work.takes_create_iff

end Takes

theorem Graph.declared_of_build {defs : Definitions} {registry : Registry} {g : Graph}
    (hb : Graph.build defs registry = .ok g) {id : NodeId} {n : Node} (hn : g.node? id = some n) :
    n.kind.Declared defs := by
  obtain ⟨-, ls, hls, hlaid, -⟩ := Graph.laid_of_build hb
  exact Building.declared_of_made hls (hlaid.made hn)

namespace Run

/-! ## Tasks without an input -/

/-- A task of a history that has no input. It calls no handler and ends with the error, and when that is
noted, its node has failed with it. When the run has ended, it has been noted. -/
structure Refused (h : Trace) (r : Run) (t : Task) (e : RunError) : Prop where
  begins : ∀ q, (q, .beginTask t.number) ∈ h → q.call? (.beginTask t.number) = none ∧
    q.step (.beginTask t.number) = some (q.finishWith t.number (.error e))
  collected : ∀ q, (q, .collectTask t.number) ∈ h → ∃ q',
    q.beforeTurn? (.collectTask t.number) = some q' ∧
    (t.node, e) ∈ q.failuresOfStep (.collectTask t.number) ∧
    q'.plan.status? t.node = some (.failed e.message) ∧
    q'.timeline.failedNodes = q.timeline.failedNodes ++ [t.node] ∧
    (q.accepting = true → q'.failure = some (t.node, e))
  inFlight : (∃ u ∈ r.tasks, u.number = t.number ∧ (u = t ∨ ∃ time, u.phase = .finished (.error e) time)) ∨
    ∃ q, (q, .collectTask t.number) ∈ h
  ended : r.phase = .ended → ∃ q, (q, .collectTask t.number) ∈ h

section Histories
variable {defs : Definitions} {registry : Registry} {g : Graph} {settings : RunSettings}
variable {stopRequested : Bool} {h : Trace} {r : Run} {t : Task}

theorem mem_allStarts_append {x : Run × NodeId} {h' : Trace}
    (hx : x ∈ allStarts settings g stopRequested h) :
    x ∈ allStarts settings g stopRequested (h ++ h') := by
  rw [allStarts, startsOf, List.flatMap_append, ← List.append_assoc]
  exact List.mem_append_left _ hx

theorem mem_startedTasks_append {h' : Trace}
    (ht : t ∈ startedTasks (allStarts settings g stopRequested h)) :
    t ∈ startedTasks (allStarts settings g stopRequested (h ++ h')) := by
  obtain ⟨x, hx, hp⟩ := mem_startedTasks.1 ht
  exact mem_startedTasks.2 ⟨x, mem_allStarts_append hx, hp⟩

theorem Leads.exists_origin (hd : ∀ {id n}, g.node? id = some n → n.kind.Declared defs)
    (hl : Leads (ofGraph settings g stopRequested) h r) {q : Run} {e : Event} (hq : (q, e) ∈ h)
    {u : Task} (hu : u ∈ q.tasks) : (q.plan.status? u.node).isSome = true ∧
      ∃ t ∈ startedTasks (allStarts settings g stopRequested h), Develops t u := by
  obtain ⟨h₁, h₂, q', rfl, hl₁, -, -⟩ := hl.exists_split hq
  have ho := hl₁.origins hd
  obtain ⟨t, ht, hdev⟩ := ho.origin u hu
  exact ⟨ho.known u hu, t, mem_startedTasks_append ht, hdev⟩

theorem Leads.develops (hd : ∀ {id n}, g.node? id = some n → n.kind.Declared defs)
    (hl : Leads (ofGraph settings g stopRequested) h r)
    (ht : t ∈ startedTasks (allStarts settings g stopRequested h)) {q : Run} {e : Event}
    (hq : (q, e) ∈ h) {u : Task} (hu : u ∈ q.tasks) (hn : u.number = t.number) :
    (q.plan.status? u.node).isSome = true ∧ Develops t u := by
  obtain ⟨hknown, t', ht', hdev⟩ := hl.exists_origin hd hq hu
  obtain rfl := (hl.origins hd).eq_of_number ht' ht (hdev.number.symm.trans hn)
  exact ⟨hknown, hdev⟩

theorem Leads.refused (hd : ∀ {id n}, g.node? id = some n → n.kind.Declared defs)
    (hl : Leads (ofGraph settings g stopRequested) h r)
    (ht : t ∈ startedTasks (allStarts settings g stopRequested h)) {scope : Scope} {work : Work}
    (hphase : t.phase = .queued scope work) {inputs : List InputSpec}
    {arguments : SortedMap String Expression} (htakes : work.Takes inputs arguments) {e : RunError}
    (hi : Work.input inputs arguments scope = .error e) (hcancel : e ≠ .cancelled) :
    Refused h r t e := by
  have ho := hl.origins hd
  -- Whatever task has the number develops from `t`: it is queued as `t` was, or finished with the error.
  constructor
  case begins =>
    intro q hq
    obtain ⟨h₁, h₂, q', -, -, hstep, -⟩ := hl.exists_split hq
    obtain ⟨node, deadline, scope', work', hf, rfl⟩ := step_beginTask hstep
    have htask := (hl.develops hd ht hq (mem_of_task? hf).1 rfl).2.queued scope' work' rfl
    rw [← htask] at hphase
    cases hphase
    refine ⟨?_, ?_⟩
    · rw [call?, hf]
      exact (beginWork_of_error (n := t.number) htakes hi).1
    · rw [hstep, (beginWork_of_error htakes hi).2]
  case collected =>
    intro q hq
    obtain ⟨h₁, h₂, q', -, -, hstep, -⟩ := hl.exists_split hq
    obtain ⟨node, deadline, result, time, hf, -⟩ := step_collectTask hstep
    obtain ⟨hknown, hdev⟩ := hl.develops hd ht hq (mem_of_task? hf).1 rfl
    have hresult : result = .error e := by
      rcases hdev.refused hphase htakes hi with htask | ⟨time', hf'⟩
      · rw [← htask] at hphase
        cases hphase
      · cases hf'
        rfl
    have hnode : node = t.node := hdev.node
    subst hresult hnode
    obtain ⟨hstatus, hnoted, hfirst⟩ := fail_spec (r := q.dropTask t.number) hknown e time
    refine ⟨(q.dropTask t.number).fail t.node e time, ?_, ?_, hstatus, hnoted,
      fun ha => hfirst ha hcancel⟩
    · rw [beforeTurn?, hf]
      rfl
    · refine List.mem_append_left _ ?_
      rw [failureOfEnd?, hf]
      exact List.mem_singleton.2 rfl
  case inFlight =>
    rcases ho.fate t ht with ⟨u, hu, hn⟩ | hgone
    · obtain ⟨t', ht', hdev⟩ := ho.origin u hu
      obtain rfl := ho.eq_of_number ht' ht (hdev.number.symm.trans hn)
      exact .inl ⟨u, hu, hn, hdev.refused hphase htakes hi⟩
    · exact .inr hgone
  case ended =>
    intro he
    rcases ho.fate t ht with ⟨u, hu, -⟩ | hgone
    · rw [ho.idle (by rw [he]; decide)] at hu
      cases hu
    · exact hgone

theorem Leads.work_of_start (hd : ∀ {id n}, g.node? id = some n → n.kind.Declared defs)
    (hset : settings.registry = registry) (hl : Leads (ofGraph settings g stopRequested) h r)
    {s : Run} {id : NodeId} {n : Node} (hs : (s, id) ∈ allStarts settings g stopRequested h)
    (hn : (s.begun id).plan.node? id = some n) (hprep : (s.begun id).prepare id = .ok t) :
    ∃ scope work, t.phase = .queued scope work ∧ (s.begun id).plan.scopeFor n = .ok scope ∧
      ∀ {inputs arguments}, work.Takes inputs arguments ↔
        n.kind.Takes defs registry inputs arguments := by
  obtain ⟨n', scope, work, hn', hscope, hwork, rfl⟩ := prepare_eq_ok hprep
  cases hn.symm.trans hn'
  obtain ⟨hdeclared, hsettings⟩ := (hl.origins hd).begun (s, id) hs
  have hreg : (s.begun id).settings.registry = registry :=
    (congrArg RunSettings.registry hsettings).trans hset
  rw [hreg] at hwork
  exact ⟨scope, work, rfl, hscope, takes_iff_of_workOf (hdeclared.kind hn) hwork⟩

theorem ne_cancelled_of_fault {inputs : List InputSpec} {arguments : SortedMap String Expression}
    {scope : Scope} {e : RunError} (hf : Work.Fault inputs arguments scope e) : e ≠ .cancelled := by
  cases hf with
  | evaluation hn he hfirst => exact RunError.noConfusion
  | conversion hall hn he hv hfirst => exact RunError.noConfusion

theorem Leads.wellTyped (ha : defs.Admissible registry)
    (hd : ∀ {id n}, g.node? id = some n → n.kind.Declared defs) (hset : settings.registry = registry)
    (hl : Leads (ofGraph settings g stopRequested) h r) {q : Run} {e : Event} (hq : (q, e) ∈ h)
    {c : HandlerCall} (hc : q.call? e = some c) : ∃ s id n arguments,
      (s, id) ∈ allStarts settings g stopRequested h ∧ c.call.node = id ∧
      (s.begun id).plan.node? id = some n ∧ n.kind.Takes defs registry c.inputs arguments ∧
      Work.WellTyped c.inputs arguments c.call.input := by
  cases e with
  | beginTask k =>
    rw [call?] at hc
    split at hc
    next number node deadline scope work hf =>
      obtain ⟨-, t, ht, hdev⟩ := hl.exists_origin hd hq (mem_of_task? hf).1
      have htask := hdev.queued scope work rfl
      subst htask
      obtain ⟨hnode, arguments, htakes, hi⟩ := input_of_callOf? hc
      obtain ⟨⟨s, id⟩, hs, hprep⟩ := mem_startedTasks.1 ht
      obtain ⟨n, _, _, hn, -, -, he⟩ := prepare_eq_ok hprep
      obtain ⟨scope', work', hphase, -, hiff⟩ := hl.work_of_start hd hset hs hn hprep
      cases hphase
      have hid : node = id := congrArg Task.node he
      have htakes' := hiff.1 htakes
      exact ⟨s, id, n, arguments, hs, hnode.trans hid, hn, htakes',
        Work.wellTyped_of_input (htakes'.matches ha) hi⟩
    next => cases hc
  | _ => cases hc

end Histories

/-! ## All calls of a history -/

/-- What a history that has led to a run says of the inputs of handlers. -/
structure HandlerInputs (defs : Definitions) (registry : Registry) (g : Graph) (settings : RunSettings)
    (stopRequested : Bool) (h : Trace) (r : Run) : Prop where
  /-- The calls are those that are made: a task that begins calls this handler with these inputs and no
  other, and what the handler leaves of the world is what the run goes on with. -/
  made : ∀ {q n q'}, (q, .beginTask n) ∈ h → q.step (.beginTask n) = some q' →
    q'.world = ((q.call? (.beginTask n)).map (HandlerCall.worldAfter q.world)).getD q.world
  /-- Every call is one of a started node, with a value of the declared kind for each of its arguments. -/
  typed : ∀ {q e c}, (q, e) ∈ h → q.call? e = some c → ∃ s id n arguments,
    (s, id) ∈ allStarts settings g stopRequested h ∧ c.call.node = id ∧
    (s.begun id).plan.node? id = some n ∧ n.kind.Takes defs registry c.inputs arguments ∧
    Work.WellTyped c.inputs arguments c.call.input
  /-- A started node whose arguments have no input is refused with the error that counts. -/
  refused : ∀ {s id n t scope inputs arguments e}, (s, id) ∈ allStarts settings g stopRequested h →
    (s.begun id).plan.node? id = some n → (s.begun id).plan.scopeFor n = .ok scope →
    (s.begun id).prepare id = .ok t → n.kind.Takes defs registry inputs arguments →
    Work.Fault inputs arguments scope e → Refused h r t e
  /-- With plain names a started node gets a task, unless its scope cannot be made. -/
  prepared : defs.PlainNames → ∀ {s id}, (s, id) ∈ allStarts settings g stopRequested h →
    ∃ n, (s.begun id).plan.node? id = some n ∧ ((∃ t, (s.begun id).prepare id = .ok t) ∨
      ∃ e, (s.begun id).plan.scopeFor n = .error e ∧ (s.begun id).prepare id = .error e)
  /-- With plain names the error is what the ended run says of the node. -/
  reported : defs.PlainNames → ∀ {t e}, Refused h r t e → r.phase = .ended →
    r.plan.status? t.node = some (.failed e.message)

end Run

/-- Handlers receive well-typed inputs only. Whatever producers answer, every handler of a step or of a
creation is called for a node that has been started, with a value of the declared kind for each argument of
the node's definition and no other. A started node whose arguments have no input is refused: no handler is
called, and the node fails with the error of the first argument that cannot be evaluated or, if all can be,
of the first that cannot be converted. With plain names every started node comes to its arguments if its
scope can be made, and the failure is what the run reports of the node in the end. -/
theorem Graph.handler_inputs_of_build {defs : Definitions} {registry : Registry} {g : Graph}
    (hb : Graph.build defs registry = .ok g) (settings : RunSettings)
    (hset : settings.registry = registry) (stopRequested : Bool) {h : Run.Trace} {r : Run}
    (hl : Run.Leads (Run.ofGraph settings g stopRequested) h r) :
    Run.HandlerInputs defs registry g settings stopRequested h r := by
  obtain ⟨_, hvalid, -⟩ := bind_eq_ok.1 hb
  have ha := Definitions.admissible_of_validate hvalid
  have hd : ∀ {id n}, g.node? id = some n → n.kind.Declared defs := Graph.declared_of_build hb
  constructor
  case made =>
    intro q n q' _ hs
    exact Run.world_of_beginTask hs
  case typed =>
    intro q e c hq hc
    exact hl.wellTyped ha hd hset hq hc
  case refused =>
    intro s id n t scope inputs arguments e hs hn hscope hprep htakes hfault
    obtain ⟨scope', work, hphase, hscope', hiff⟩ := hl.work_of_start hd hset hs hn hprep
    cases hscope.symm.trans hscope'
    exact hl.refused hd (Run.mem_startedTasks.2 ⟨(s, id), hs, hprep⟩) hphase (hiff.2 htakes)
      (Work.input_eq_error_iff.2 hfault) (Run.ne_cancelled_of_fault hfault)
  case prepared =>
    intro hp s id hs
    have hg := Graph.sound_of_build hb hp
    have hr : g.Registered settings.registry := hset ▸ Graph.registered_of_build hb
    exact Run.StartsAt.exists_task hg hr ((hl.keeps hg (Run.kept_provides hg
      (Graph.scoped_of_build hb)) (Run.provides_new hg) fun _ _ => trivial).2 (s, id) hs)
  case reported =>
    intro hp t e href hended
    have hg := Graph.sound_of_build hb hp
    obtain ⟨q, hq⟩ := href.ended hended
    obtain ⟨q', -, hmem, -⟩ := href.collected q hq
    refine (hl.blames hg).status.2 ⟨e, ?_, rfl⟩
    exact List.mem_append_right _ (List.mem_flatMap.2 ⟨_, hq, hmem⟩)

/-! ## A word where a number is asked for -/

namespace Run

/-- Lets given events happen one after the other, as long as they can. -/
def replay : Run → List Event → Trace × Run
  | r, [] => ([], r)
  | r, e :: rest =>
    match r.step e with
    | none => ([], r)
    | some r' => ((r, e) :: (r'.replay rest).1, (r'.replay rest).2)

theorem leads_replay (r : Run) (es : List Event) : Leads r (r.replay es).1 (r.replay es).2 := by
  induction es generalizing r with
  | nil => exact .start
  | cons e es ih =>
    rw [replay]
    split
    next => exact .start
    next r' hs => exact (Leads.event .start hs).trans (ih r')

end Run

namespace Mistyped

/-- Step `a` says a word, and step `b` takes it for a number. -/
def definitions : Definitions where
  resources := []
  steps := [StepDefinition.new "a" "say",
    (StepDefinition.new "b" "take").withArgument "n" (.reference (Reference.step "a"))]

/-- A runner that answers a word, and one that is declared with a whole number. -/
def registry : Registry :=
  (Registry.empty.withRunner "say"
    ⟨⟨[], [], []⟩, fun _ w => (.wait 1 fun w => (.value (.string "two"), w), w)⟩).withRunner "take"
    ⟨⟨[⟨"n", .integer, true⟩], [], []⟩, fun c w => (.wait 1 fun w => (.value c.input, w), w)⟩

def graph : Graph :=
  match Graph.build definitions registry with
  | .ok g => g
  | .error _ => ⟨.empty, []⟩

def settings : RunSettings := ⟨registry, 1, none⟩

def events : List Event :=
  [.beginTask 0, .finishTask 0, .collectTask 0, .beginTask 1, .collectTask 1]

def history : Run.Trace := ((Run.ofGraph settings graph false).replay events).1

def ended : Run := ((Run.ofGraph settings graph false).replay events).2

def start : Run × NodeId :=
  ((Run.allStarts settings graph false history)[1]?).getD (ended, .step "b")

def errorOf? : TaskPhase → Option RunError
  | .queued scope (.step runner arguments _) =>
    match Work.input runner.shape.inputs arguments scope with
    | .ok _ => none
    | .error e => some e
  | _ => none

theorem errorOf?_eq_some {phase : TaskPhase} {e : RunError} (h : errorOf? phase = some e) :
    ∃ scope work inputs arguments, phase = .queued scope work ∧ Work.Takes work inputs arguments ∧
      Work.input inputs arguments scope = .error e := by
  unfold errorOf? at h
  split at h
  next scope runner arguments resources =>
    split at h
    next => cases h
    next hi =>
      cases h
      exact ⟨scope, _, _, arguments, rfl, .step runner arguments resources, hi⟩
  next => cases h

/-- The handler of step `b` is not called, and the step fails with the mismatch. -/
theorem refuses : ∃ t e, Run.startedTask? start = some t ∧ Run.Refused history ended t e ∧
    e = .inputType ⟨"n", .integer, "string"⟩ ∧ ended.phase = .ended ∧
    ended.plan.status? (.step "b") =
      some (.failed "argument 'n' must be an integer, but got string") := by
  have hb : Graph.build definitions registry = .ok graph := rfl
  have hl : Run.Leads (Run.ofGraph settings graph false) history ended := Run.leads_replay _ events
  have hinputs := Graph.handler_inputs_of_build hb settings rfl false hl
  have hlen : 1 < (Run.allStarts settings graph false history).length := by decide +kernel
  have hstart : start ∈ Run.allStarts settings graph false history := by
    rw [start, List.getElem?_eq_getElem hlen, Option.getD_some]
    exact List.getElem_mem hlen
  have herror : ((Run.startedTask? start).bind fun t => errorOf? t.phase) =
      some (.inputType ⟨"n", .integer, "string"⟩) := by decide +kernel
  obtain ⟨t, ht, herror⟩ := Option.bind_eq_some_iff.1 herror
  obtain ⟨scope, work, inputs, arguments, hphase, htakes, hi⟩ := errorOf?_eq_some herror
  have hprep := Run.startedTask?_eq_some.1 ht
  obtain ⟨n, _, _, hn, -, -, hnode⟩ := Run.prepare_eq_ok hprep
  obtain ⟨scope', work', hphase', hscope, hiff⟩ :=
    hl.work_of_start (Graph.declared_of_build hb) rfl hstart hn hprep
  cases hphase.symm.trans hphase'
  have href := hinputs.refused hstart hn hscope hprep (hiff.1 htakes) (Work.input_eq_error_iff.1 hi)
  have hid : t.node = .step "b" := by
    have hstep : start.2 = .step "b" := by decide +kernel
    rw [hnode, ← hstep]
  have hended : ended.phase = .ended := by decide +kernel
  have hplainNames : definitions.PlainNames := by
    unfold Definitions.PlainNames
    decide +kernel
  refine ⟨t, _, ht, href, rfl, hended, ?_⟩
  rw [← hid]
  exact hinputs.reported hplainNames href hended

end Mistyped

end Workplan
