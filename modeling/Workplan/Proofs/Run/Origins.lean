import Workplan.Proofs.Run.Proceeding

/-! Origins: where the tasks of a run come from and what becomes of them. Every task is the one that some
node got when it was started, no two starts share a number, and a task goes only when the run takes note of
its end. A task whose arguments have no input comes to nothing but this error: its begin calls no handler.

The run itself is not assumed to be sound, and so nothing here speaks of a node but through a start of it. -/
namespace Workplan
set_option autoImplicit false

/-! ## Calls -/

/-- The call of a handler with inputs. -/
inductive HandlerCall where
  | step (runner : Runner) (call : Call)
  | create (kind : ResourceKind) (call : Call)

namespace HandlerCall

/-- What the handler is called with. -/
def call : HandlerCall → Call
  | .step _ c => c
  | .create _ c => c

/-- The inputs that the handler is declared with. -/
def inputs : HandlerCall → List InputSpec
  | .step runner _ => runner.shape.inputs
  | .create kind _ => kind.shape.inputs

def worldAfter (w : World) : HandlerCall → World
  | .step runner c => (runner.handle c w).2
  | .create kind c => (kind.create c w).2

end HandlerCall

/-- The declared inputs and the arguments of work that has a handler for them. -/
inductive Work.Takes : Work → List InputSpec → SortedMap String Expression → Prop where
  | step (runner : Runner) (arguments : SortedMap String Expression)
    (resources : SortedMap String ResourceInstance) :
    Takes (.step runner arguments resources) runner.shape.inputs arguments
  | create (name : String) (kind : ResourceKind) (arguments : SortedMap String Expression) :
    Takes (.create name kind arguments) kind.shape.inputs arguments

section Takes
variable {inputs : List InputSpec} {arguments arguments' : SortedMap String Expression}

theorem Work.takes_step_iff {runner : Runner} {resources : SortedMap String ResourceInstance} :
    (Work.step runner arguments' resources).Takes inputs arguments ↔
      inputs = runner.shape.inputs ∧ arguments = arguments' := by
  constructor
  · rintro ⟨⟩
    exact ⟨rfl, rfl⟩
  · rintro ⟨rfl, rfl⟩
    exact .step runner arguments resources

theorem Work.takes_create_iff {name : String} {kind : ResourceKind} :
    (Work.create name kind arguments').Takes inputs arguments ↔
      inputs = kind.shape.inputs ∧ arguments = arguments' := by
  constructor
  · rintro ⟨⟩
    exact ⟨rfl, rfl⟩
  · rintro ⟨rfl, rfl⟩
    exact .create name kind arguments

end Takes

namespace Run

/-- The handler that work calls when it begins. -/
def callOf? (r : Run) (node : NodeId) (scope : Scope) : Work → Option HandlerCall
  | .step runner arguments resources =>
    match Work.input runner.shape.inputs arguments scope with
    | .ok input => some (.step runner ⟨node, resources, input⟩)
    | .error _ => none
  | .create name kind arguments =>
    match Work.input kind.shape.inputs arguments scope with
    | .ok input =>
      if r.slots.needsCreation name then some (.create kind ⟨node, .empty, input⟩) else none
    | .error _ => none
  | .expand _ => none

/-- The handler that an event calls with an input. -/
def call? (r : Run) : Event → Option HandlerCall
  | .beginTask n =>
    match r.task? n with
    | some ⟨_, node, _, .queued scope work⟩ => r.callOf? node scope work
    | _ => none
  | _ => none

section Calls
variable {r r' : Run} {n : Nat} {node : NodeId} {scope : Scope} {work : Work}

theorem world_beginWork (r : Run) (n : Nat) (node : NodeId) (scope : Scope) (work : Work) :
    (r.beginWork n node scope work).world =
      ((r.callOf? node scope work).map (HandlerCall.worldAfter r.world)).getD r.world := by
  cases work with
  | step runner arguments resources =>
    rw [beginWork, beginStep, callOf?]
    cases Work.input runner.shape.inputs arguments scope with
    | error e => rfl
    | ok input => exact congrArg Run.world (afterCall_eq r _ n .answer _)
  | create name kind arguments =>
    rw [beginWork, beginCreate, callOf?]
    cases Work.input kind.shape.inputs arguments scope with
    | error e => rfl
    | ok input =>
      dsimp only
      split
      next => exact congrArg Run.world (afterCall_eq r _ n (.create name) _)
      next =>
        split
        next => rfl
        next => rfl
  | expand replication => rfl

/-- A task that begins makes this call and no other: nothing else changes the world. -/
theorem world_of_beginTask (hs : r.step (.beginTask n) = some r') :
    r'.world = ((r.call? (.beginTask n)).map (HandlerCall.worldAfter r.world)).getD r.world := by
  obtain ⟨node, deadline, scope, work, hf, rfl⟩ := step_beginTask hs
  rw [call?, hf]
  exact world_beginWork r n node scope work

theorem input_of_callOf? {c : HandlerCall} (h : r.callOf? node scope work = some c) :
    c.call.node = node ∧ ∃ arguments, work.Takes c.inputs arguments ∧
      Work.input c.inputs arguments scope = .ok c.call.input := by
  cases work with
  | step runner arguments resources =>
    rw [callOf?] at h
    split at h
    next input hi =>
      cases h
      exact ⟨rfl, arguments, .step runner arguments resources, hi⟩
    next => cases h
  | create name kind arguments =>
    rw [callOf?] at h
    split at h
    next input hi =>
      split at h
      next =>
        cases h
        exact ⟨rfl, arguments, .create name kind arguments, hi⟩
      next => cases h
    next => cases h
  | expand replication => cases h

theorem beginWork_of_error {inputs : List InputSpec} {arguments : SortedMap String Expression}
    {e : RunError} (ht : work.Takes inputs arguments)
    (hi : Work.input inputs arguments scope = .error e) :
    r.callOf? node scope work = none ∧ r.beginWork n node scope work = r.finishWith n (.error e) := by
  cases ht with
  | step runner arguments resources =>
    rw [callOf?, beginWork, beginStep, hi]
    exact ⟨rfl, rfl⟩
  | create name kind arguments =>
    rw [callOf?, beginWork, beginCreate, hi]
    exact ⟨rfl, rfl⟩

end Calls

/-! ## What becomes of a task -/

/-- What a task can have become. -/
structure Develops (t u : Task) : Prop where
  number : u.number = t.number
  node : u.node = t.node
  queued : ∀ scope work, u.phase = .queued scope work → u = t
  refused : ∀ {scope work inputs arguments e}, t.phase = .queued scope work →
    Work.Takes work inputs arguments → Work.input inputs arguments scope = .error e →
    u = t ∨ ∃ time, u.phase = .finished (.error e) time

section Develops
variable {r r' : Run} {t u : Task}

theorem Develops.refl (t : Task) : Develops t t := ⟨rfl, rfl, fun _ _ _ => rfl, fun _ _ _ => .inl rfl⟩

/-- A task moves on from the queue, where it is refused if its arguments have no input, or from a wait. -/
theorem TaskMoves.queued_or_waiting {ev : Event} {phase : TaskPhase} {w : World} {slots : Slots}
    (h : TaskMoves r u ev phase w slots) :
    (∃ scope work, u.phase = .queued scope work ∧ ∀ inputs arguments e,
      Work.Takes work inputs arguments → Work.input inputs arguments scope = .error e →
        ∃ time, phase = .finished (.error e) time) ∨ ∃ wake act, u.phase = .waiting wake act := by
  cases h with
  | refuseStep hq hi =>
    refine .inl ⟨_, _, hq, fun inputs arguments e ht he => ?_⟩
    cases ht
    cases hi.symm.trans he
    exact ⟨_, rfl⟩
  | callStep hq hi hc =>
    refine .inl ⟨_, _, hq, fun inputs arguments e ht he => ?_⟩
    cases ht
    cases hi.symm.trans he
  | refuseCreate hq hi =>
    refine .inl ⟨_, _, hq, fun inputs arguments e ht he => ?_⟩
    cases ht
    cases hi.symm.trans he
    exact ⟨_, rfl⟩
  | callCreate hq hi hn hc =>
    refine .inl ⟨_, _, hq, fun inputs arguments e ht he => ?_⟩
    cases ht
    cases hi.symm.trans he
  | reuse hq hi hn hs =>
    refine .inl ⟨_, _, hq, fun inputs arguments e ht he => ?_⟩
    cases ht
    cases hi.symm.trans he
  | unavailable hq hi hs =>
    refine .inl ⟨_, _, hq, fun inputs arguments e ht he => ?_⟩
    cases ht
    cases hi.symm.trans he
  | expand hq => exact .inl ⟨_, _, hq, fun inputs arguments e ht => by cases ht⟩
  | answer hw hc => exact .inr ⟨_, _, hw⟩
  | create hw hc => exact .inr ⟨_, _, hw⟩
  | expire hw hd => exact .inr ⟨_, _, hw⟩
  | stop hw hs => exact .inr ⟨_, _, hw⟩

theorem Develops.moves (h : Develops t u) {ev : Event} {phase : TaskPhase} {w : World} {slots : Slots}
    (hm : TaskMoves r u ev phase w slots) : Develops t { u with phase := phase } where
  number := h.number
  node := h.node
  queued := fun scope work hq => absurd hq (hm.ne_queued scope work)
  refused := by
    intro scope work inputs arguments e hq ht hi
    right
    rcases h.refused hq ht hi with rfl | ⟨time, hf⟩
    · rcases hm.queued_or_waiting with ⟨scope', work', hq', hall⟩ | ⟨wake, act, hw⟩
      · cases hq.symm.trans hq'
        exact hall inputs arguments e ht hi
      · cases hq.symm.trans hw
    · rcases hm.queued_or_waiting with ⟨scope', work', hq', -⟩ | ⟨wake, act, hw⟩
      · cases hf.symm.trans hq'
      · cases hf.symm.trans hw

theorem Works.develops {ev : Event} (h : Works r ev r') (hn : r.Numbered) {u' : Task}
    (hu' : u' ∈ r'.tasks) : ∃ u ∈ r.tasks, ∀ t, Develops t u → Develops t u' := by
  cases h with
  | @task v ev phase w slots hv hm =>
    obtain ⟨u, hu, ⟨-, rfl⟩ | ⟨hnum, rfl⟩⟩ := mem_setTaskPhase hu'
    · exact ⟨u', hu, fun t h => h⟩
    · obtain rfl : u = v := Numbering.eq_of_number hn.tasks hu hv hnum
      exact ⟨u, hu, fun t h => h.moves hm⟩
  | callDestroy ht hq hc => exact ⟨u', hu', fun t h => h⟩
  | answerDestroy ht hw hc => exact ⟨u', hu', fun t h => h⟩
  | requestStop => exact ⟨u', hu', fun t h => h⟩
  | advance h => exact ⟨u', hu', fun t h => h⟩

end Develops

/-! ## The tasks of a history -/

def startedTasks (starts : List (Run × NodeId)) : List Task := starts.filterMap startedTask?

theorem mem_startedTasks {starts : List (Run × NodeId)} {t : Task} :
    t ∈ startedTasks starts ↔ ∃ x ∈ starts, (x.1.begun x.2).prepare x.2 = .ok t := by
  rw [startedTasks, List.mem_filterMap]
  exact exists_congr fun x => and_congr_right fun _ => startedTask?_eq_some

/-- What is known of the tasks of a run after a history. -/
structure Origins (defs : Definitions) (settings : RunSettings) (starts : List (Run × NodeId))
    (h : Trace) (r : Run) : Prop where
  configured : r.settings = settings
  declared : r.plan.Declared defs
  numbered : r.Numbered
  idle : r.phase ≠ .working → r.tasks = []
  begun : ∀ x ∈ starts, x.1.plan.Declared defs ∧ x.1.settings = settings
  nodup : ((startedTasks starts).map Task.number).Nodup
  given : ∀ t ∈ startedTasks starts, t.number < r.next
  known : ∀ u ∈ r.tasks, (r.plan.status? u.node).isSome = true
  origin : ∀ u ∈ r.tasks, ∃ t ∈ startedTasks starts, Develops t u
  fate : ∀ t ∈ startedTasks starts,
    (∃ u ∈ r.tasks, u.number = t.number) ∨ ∃ q, (q, .collectTask t.number) ∈ h

namespace Origins
variable {defs : Definitions} {settings : RunSettings} {starts l : List (Run × NodeId)}
variable {h h' : Trace} {r r' : Run}

theorem eq_of_number (ho : Origins defs settings starts h r) {t t' : Task}
    (ht : t ∈ startedTasks starts) (ht' : t' ∈ startedTasks starts) (hn : t.number = t'.number) :
    t = t' :=
  Numbering.eq_of_number ho.nodup ht ht' hn

theorem later (ho : Origins defs settings starts h r) (l : Trace) :
    Origins defs settings starts (h ++ l) r :=
  { ho with
    fate := fun t ht => (ho.fate t ht).imp_right fun ⟨q, hq⟩ => ⟨q, List.mem_append_left _ hq⟩ }

theorem proceeds (ho : Origins defs settings starts h r) (hp : Proceeds defs r l r')
    (hw : r.phase = .working ∨ l = []) :
    Origins defs settings (starts ++ l) h r' := by
  have hnum := hp.numbered ho.numbered
  have happend : startedTasks (starts ++ l) = startedTasks starts ++ startedTasks l :=
    List.filterMap_append
  have htasks : r'.tasks = r.tasks ++ startedTasks l := hp.tasks
  have hnew : ∀ t ∈ startedTasks l, t ∈ r'.tasks := fun t ht => by
    rw [htasks]
    exact List.mem_append_right _ ht
  have hstarts := hp.starts ho.declared
  -- Tasks get their numbers from `next` on, so that no number is given twice.
  constructor
  case configured => exact hp.settings.trans ho.configured
  case declared => exact hp.declared ho.declared
  case numbered => exact hnum
  case idle =>
    intro hphase
    rw [hp.phase] at hphase
    rw [htasks, ho.idle hphase, hw.resolve_left hphase]
    rfl
  case begun =>
    intro x hx
    rcases List.mem_append.1 hx with hx | hx
    · exact ho.begun x hx
    · exact ⟨(hstarts x hx).1, (hstarts x hx).2.trans ho.configured⟩
  case nodup =>
    rw [happend, List.map_append]
    refine List.nodup_append.2 ⟨ho.nodup, ?_, ?_⟩
    · have hall := hnum.tasks
      rw [htasks, List.map_append] at hall
      exact (List.nodup_append.1 hall).2.1
    · rintro a ha b hb rfl
      obtain ⟨t, ht, rfl⟩ := List.mem_map.1 ha
      obtain ⟨t', ht', he⟩ := List.mem_map.1 hb
      have := ho.given t ht
      have := hp.fresh t' ht'
      omega
  case given =>
    intro t ht
    rw [happend] at ht
    rcases List.mem_append.1 ht with ht | ht
    · exact Nat.lt_of_lt_of_le (ho.given t ht) hp.next
    · exact hnum.task_lt t (hnew t ht)
  case known =>
    intro u hu
    rw [htasks] at hu
    rcases List.mem_append.1 hu with hu | hu
    · exact hp.known (ho.known u hu)
    · obtain ⟨x, hx, hprep⟩ := mem_startedTasks.1 hu
      obtain ⟨n, scope, work, hn, -, -, rfl⟩ := prepare_eq_ok hprep
      exact hp.kept x hx ((hstarts x hx).1.status hn)
  case origin =>
    intro u hu
    rw [htasks] at hu
    rw [happend]
    rcases List.mem_append.1 hu with hu | hu
    · obtain ⟨t, ht, hd⟩ := ho.origin u hu
      exact ⟨t, List.mem_append_left _ ht, hd⟩
    · exact ⟨u, List.mem_append_right _ hu, .refl u⟩
  case fate =>
    intro t ht
    rw [happend] at ht
    rcases List.mem_append.1 ht with ht | ht
    · refine (ho.fate t ht).imp_left fun ⟨u, hu, hn⟩ => ⟨u, ?_, hn⟩
      rw [htasks]
      exact List.mem_append_left _ hu
    · exact .inl ⟨t, hnew t ht, rfl⟩

theorem proceeds_nil (ho : Origins defs settings starts h r) (hp : Proceeds defs r [] r') :
    Origins defs settings starts h r' := by
  have h' := ho.proceeds hp (.inr rfl)
  rwa [List.append_nil] at h'

theorem rephase (ho : Origins defs settings starts h r) (ht : r.tasks = []) (phase : RunPhase) :
    Origins defs settings starts h { r with phase := phase } :=
  { ho with
    numbered := ho.numbered.congr rfl rfl rfl
    idle := fun _ => ht }

theorem endIfQuiet (ho : Origins defs settings starts h r) (ht : r.tasks = []) :
    Origins defs settings starts h r.endIfQuiet := by
  rw [Run.endIfQuiet]
  split
  next => exact ho.rephase ht .ended
  next => exact ho

theorem stop (ho : Origins defs settings starts h r) (ht : r.tasks = []) :
    Origins defs settings starts h r.stop := by
  have hun : Proceeds defs r [] r.unstalled := by
    rw [unstalled]
    split
    next =>
      have hstalled : Proceeds defs (r.skipPending stallReason).1 []
          ((r.skipPending stallReason).1.withStalled (r.skipPending stallReason).2) :=
        .quiet rfl rfl rfl (Nat.le_refl _) (fun h => h.congr rfl rfl rfl) rfl
      exact (Proceeds.skipPending r stallReason).trans hstalled
    next => exact .refl r
  have htasks : r.unstalled.tasks = [] := by
    rw [hun.tasks, ht]
    rfl
  have hslots : Proceeds defs r.unstalled [] { r.unstalled with slots := r.unstalled.slots.drain.2 } :=
    .slots _ _
  have hover := ((ho.proceeds_nil hun).proceeds_nil hslots).rephase htasks .tearingDown
  have hdrained : Proceeds defs
      { r.unstalled with slots := r.unstalled.slots.drain.2, phase := .tearingDown } []
      r.unstalled.drained := .spawnDestroys none _ _
  rw [stop_eq]
  refine (hover.proceeds_nil hdrained).endIfQuiet ?_
  rw [hdrained.tasks]
  exact (List.append_nil _).trans htasks

theorem turn (ho : Origins defs settings starts h r) (hw : r.phase = .working) :
    Origins defs settings (starts ++ r.startsOfTurn) h r.turn := by
  have hscheduled := ho.proceeds (Proceeds.scheduled r) (.inl hw)
  rw [turn_eq]
  split
  next hquiet => exact hscheduled.stop (List.isEmpty_iff.1 (Bool.and_eq_true_iff.1 hquiet).1)
  next => exact hscheduled

theorem resume (ho : Origins defs settings starts h r) :
    Origins defs settings (starts ++ r.startsOfResume) h r.resume := by
  rw [startsOfResume, Run.resume]
  cases hp : r.phase with
  | working => exact ho.turn hp
  | tearingDown =>
    rw [if_neg (by decide), List.append_nil]
    exact ho.endIfQuiet (ho.idle (by rw [hp]; decide))
  | ended =>
    rw [if_neg (by decide), List.append_nil]
    exact ho

/-! ### Events -/

theorem dropTask (ho : Origins defs settings starts h r) (n : Nat) :
    Origins defs settings starts (h ++ [(r, .collectTask n)]) (r.dropTask n) := by
  have hmem : ∀ u, u ∈ (r.dropTask n).tasks ↔ u ∈ r.tasks ∧ u.number ≠ n := fun u => by
    rw [Run.dropTask, List.mem_filter, decide_eq_true_eq]
  constructor
  case configured => exact ho.configured
  case declared => exact ho.declared
  case numbered => exact ho.numbered.sublist List.filter_sublist (List.Sublist.refl _) rfl
  case idle =>
    intro hp
    rw [Run.dropTask, ho.idle hp]
    rfl
  case begun => exact ho.begun
  case nodup => exact ho.nodup
  case given => exact ho.given
  case known => exact fun u hu => ho.known u ((hmem u).1 hu).1
  case origin => exact fun u hu => ho.origin u ((hmem u).1 hu).1
  case fate =>
    intro t ht
    rcases (ho.later [(r, .collectTask n)]).fate t ht with ⟨u, hu, hnum⟩ | hgone
    · by_cases hn : t.number = n
      · exact .inr ⟨r, by simp [hn]⟩
      · exact .inl ⟨u, (hmem u).2 ⟨hu, fun hc => hn (hnum.symm.trans hc)⟩, hnum⟩
    · exact .inr hgone

theorem dropDestroy (ho : Origins defs settings starts h r) (n : Nat) :
    Origins defs settings starts h (r.dropDestroy n) :=
  { ho with numbered := ho.numbered.dropDestroy n }

theorem notes (ho : Origins defs settings starts h r) {e : Event} {r₁ : Run} (hn : Notes r e r₁) :
    Origins defs settings starts (h ++ [(r, e)]) r₁ := by
  cases hn with
  | @task t ht result time hf =>
    exact (ho.dropTask t.number).proceeds_nil (Proceeds.complete _ t.node result time)
  | @destroy t ht result time hf =>
    exact ((ho.later _).dropDestroy t.number).proceeds_nil (Proceeds.recordDestroy _ t result time)
  | stop hw ha hs => exact ho.later _

theorem works (ho : Origins defs settings starts h r) {e : Event} (hw : Works r e r') :
    Origins defs settings starts h r' := by
  have hu := hw.undisturbed
  constructor
  case configured => exact hu.settings.trans ho.configured
  case declared =>
    rw [hu.plan]
    exact ho.declared
  case numbered => exact hu.numbered ho.numbered
  case idle =>
    intro hp
    rw [hu.phase] at hp
    exact hu.tasks_eq_nil.2 (ho.idle hp)
  case begun => exact ho.begun
  case nodup => exact ho.nodup
  case given =>
    rw [hu.next]
    exact ho.given
  case known =>
    intro u hm
    have hnode : u.node ∈ r'.tasks.map Task.node := List.mem_map_of_mem hm
    rw [hu.nodes] at hnode
    obtain ⟨v, hv, he⟩ := List.mem_map.1 hnode
    rw [hu.plan, ← he]
    exact ho.known v hv
  case origin =>
    intro u hm
    obtain ⟨v, hv, hall⟩ := hw.develops ho.numbered hm
    obtain ⟨t, ht, hd⟩ := ho.origin v hv
    exact ⟨t, ht, hall t hd⟩
  case fate =>
    intro t ht
    refine (ho.fate t ht).imp_left fun ⟨u, hm, he⟩ => ?_
    have hnum : u.number ∈ r'.tasks.map Task.number := by
      rw [hu.task_numbers]
      exact List.mem_map_of_mem hm
    obtain ⟨v, hv, hvn⟩ := List.mem_map.1 hnum
    exact ⟨v, hv, hvn.trans he⟩

theorem step (ho : Origins defs settings starts h r) {e : Event} (hs : r.step e = some r') :
    Origins defs settings (starts ++ r.startsOfStep e) (h ++ [(r, e)]) r' := by
  cases he : e.isNoted with
  | false =>
    rw [startsOfStep_of_not_isNoted r he, List.append_nil]
    exact (ho.works (works_of_step he hs)).later _
  | true =>
    obtain ⟨r₁, hn, rfl, hstarts⟩ := notes_of_step ho.idle he hs
    rw [hstarts]
    exact (ho.notes hn).resume

end Origins

theorem origins_new {defs : Definitions} {g : Graph}
    (hd : ∀ {id n}, g.node? id = some n → n.kind.Declared defs) (settings : RunSettings)
    (stopRequested : Bool) :
    Origins defs settings [] [] (new settings g stopRequested) where
  configured := rfl
  declared := by
    constructor
    case kind => exact hd
    case status =>
      intro id n hn
      have hn' : g.nodes.get? id = some n := hn
      change ((Plan.ofGraph g).statuses.get? id).isSome = true
      rw [Plan.ofGraph, SortedMap.get?_mapValues, hn']
      rfl
  numbered := numbered_new settings g stopRequested
  idle := fun _ => rfl
  begun := fun x hx => by cases hx
  nodup := List.nodup_nil
  given := fun t ht => by cases ht
  known := fun u hu => by cases hu
  origin := fun u hu => by cases hu
  fate := fun t ht => by cases ht

theorem Leads.origins {defs : Definitions} {g : Graph}
    (hd : ∀ {id n}, g.node? id = some n → n.kind.Declared defs) {settings : RunSettings}
    {stopRequested : Bool} {h : Trace} {r : Run}
    (hl : Leads (ofGraph settings g stopRequested) h r) :
    Origins defs settings (allStarts settings g stopRequested h) h r := by
  induction hl with
  | start =>
    rw [allStarts, startsOf, List.flatMap_nil, List.append_nil]
    exact (origins_new hd settings stopRequested).turn rfl
  | @event h r r' e hl he ih =>
    rw [allStarts_append]
    exact ih.step he

end Run

end Workplan
