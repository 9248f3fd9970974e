import Workplan.Proofs.Run.Live

/-! Work: what the events between two turns do. Each touches one task or one destruction, or only the
clock or the caller's wish, and none of them changes the plan. -/
namespace Workplan
set_option autoImplicit false

namespace Run

/-! ## What an event does -/

/-- The phase of a task after the call of its handler. -/
def phaseAfterCall {α : Type} (r : Run) (w : World)
    (pending : (World → Answer α × World) → PendingAct) : Reaction α → TaskPhase
  | .panic m => .finished (.error (.panicked (panicReport m))) w.now
  | .wait ms act =>
    if r.stopRequested then .finished (.error .cancelled) w.now
    else .waiting (w.now + ms) (pending act)

theorem phaseAfterCall_cases {α : Type} (r : Run) (w : World)
    (pending : (World → Answer α × World) → PendingAct) (reaction : Reaction α) :
    (∃ m, r.phaseAfterCall w pending reaction = .finished (.error (.panicked m)) w.now) ∨
      r.phaseAfterCall w pending reaction = .finished (.error .cancelled) w.now ∨
      ∃ wake act, r.phaseAfterCall w pending reaction = .waiting wake (pending act) := by
  cases reaction with
  | panic m => exact .inl ⟨_, rfl⟩
  | wait ms act =>
    rw [phaseAfterCall]
    split
    next => exact .inr (.inl rfl)
    next => exact .inr (.inr ⟨_, act, rfl⟩)

/-- The phase of a destruction after the call of its handler. -/
def destroyPhaseAfterCall (w : World) : Reaction Unit → DestroyPhase
  | .panic _ => .finished .lost w.now
  | .wait ms act => .waiting (w.now + ms) act

/-- What an event does to a task: the next phase, with the world and the slots after it. -/
inductive TaskMoves (r : Run) (t : Task) : Event → TaskPhase → World → Slots → Prop where
  | refuseStep {scope : Scope} {runner : Runner} {arguments : SortedMap String Expression}
    {resources : SortedMap String ResourceInstance} {e : RunError}
    (hq : t.phase = .queued scope (.step runner arguments resources))
    (hi : Work.input runner.shape.inputs arguments scope = .error e) :
    TaskMoves r t (.beginTask t.number) (.finished (.error e) r.now) r.world r.slots
  | callStep {scope : Scope} {runner : Runner} {arguments : SortedMap String Expression}
    {resources : SortedMap String ResourceInstance} {input : Value} {reaction : Reaction Value}
    {w : World} (hq : t.phase = .queued scope (.step runner arguments resources))
    (hi : Work.input runner.shape.inputs arguments scope = .ok input)
    (hc : runner.handle ⟨t.node, resources, input⟩ r.world = (reaction, w)) :
    TaskMoves r t (.beginTask t.number) (r.phaseAfterCall w .answer reaction) w r.slots
  | refuseCreate {scope : Scope} {name : String} {kind : ResourceKind}
    {arguments : SortedMap String Expression} {e : RunError}
    (hq : t.phase = .queued scope (.create name kind arguments))
    (hi : Work.input kind.shape.inputs arguments scope = .error e) :
    TaskMoves r t (.beginTask t.number) (.finished (.error e) r.now) r.world r.slots
  | callCreate {scope : Scope} {name : String} {kind : ResourceKind}
    {arguments : SortedMap String Expression} {input : Value}
    {reaction : Reaction ResourceInstance} {w : World}
    (hq : t.phase = .queued scope (.create name kind arguments))
    (hi : Work.input kind.shape.inputs arguments scope = .ok input)
    (hn : r.slots.needsCreation name = true)
    (hc : kind.create ⟨t.node, .empty, input⟩ r.world = (reaction, w)) :
    TaskMoves r t (.beginTask t.number) (r.phaseAfterCall w (.create name) reaction) w r.slots
  /-- The slot of the resource is filled already. -/
  | reuse {scope : Scope} {name : String} {kind : ResourceKind}
    {arguments : SortedMap String Expression} {input : Value}
    (hq : t.phase = .queued scope (.create name kind arguments))
    (hi : Work.input kind.shape.inputs arguments scope = .ok input)
    (hn : r.slots.needsCreation name = false) (hs : r.slots.contains name = true) :
    TaskMoves r t (.beginTask t.number) (.finished (.ok .created) r.now) r.world r.slots
  | unavailable {scope : Scope} {name : String} {kind : ResourceKind}
    {arguments : SortedMap String Expression} {input : Value}
    (hq : t.phase = .queued scope (.create name kind arguments))
    (hi : Work.input kind.shape.inputs arguments scope = .ok input)
    (hs : r.slots.contains name = false) :
    TaskMoves r t (.beginTask t.number) (.finished (.error (.resourceUnavailable name)) r.now)
      r.world r.slots
  | expand {scope : Scope} {replication : Replication}
    (hq : t.phase = .queued scope (.expand replication)) :
    TaskMoves r t (.beginTask t.number)
      (.finished ((Work.instances replication t.node.text scope).map .expanded) r.now) r.world r.slots
  | answer {wake : Nat} {act : World → Answer Value × World} {answer : Answer Value} {w : World}
    (hw : t.phase = .waiting wake (.answer act)) (hc : act r.world = (answer, w)) :
    TaskMoves r t (.finishTask t.number) (.finished (resultOfStep answer) w.now) w r.slots
  | create {wake : Nat} {name : String} {act : World → Answer ResourceInstance × World}
    {answer : Answer ResourceInstance} {w : World}
    (hw : t.phase = .waiting wake (.create name act)) (hc : act r.world = (answer, w)) :
    TaskMoves r t (.finishTask t.number)
      (.finished ((r.slots.acquire name (resultOfCreation answer)).1.map fun _ => .created) w.now) w
      (r.slots.acquire name (resultOfCreation answer)).2
  | expire {wake deadline : Nat} {act : PendingAct} (hw : t.phase = .waiting wake act)
    (hd : t.deadline = some deadline) :
    TaskMoves r t (.expireTask t.number) (.finished (.error .deadlineExceeded) r.now) r.world r.slots
  | stop {wake : Nat} {act : PendingAct} (hw : t.phase = .waiting wake act)
    (hs : r.stopRequested = true) :
    TaskMoves r t (.stopTask t.number) (.finished (.error .cancelled) r.now) r.world r.slots

/-- What the events between two turns do to a run. -/
inductive Works (r : Run) : Event → Run → Prop where
  | task {t : Task} {e : Event} {phase : TaskPhase} {w : World} {slots : Slots} (ht : t ∈ r.tasks)
    (h : TaskMoves r t e phase w slots) :
    Works r e ({ r with world := w, slots := slots }.setTaskPhase t.number phase)
  | callDestroy {t : DestroyTask} {handle : Handler ResourceInstance Unit} {reaction : Reaction Unit}
    {w : World} (ht : t ∈ r.destroys) (hq : t.phase = .queued handle)
    (hc : handle t.inst r.world = (reaction, w)) :
    Works r (.beginDestroy t.number)
      ({ r with world := w }.setDestroyPhase t.number (destroyPhaseAfterCall w reaction))
  | answerDestroy {t : DestroyTask} {wake : Nat} {act : World → Answer Unit × World}
    {answer : Answer Unit} {w : World} (ht : t ∈ r.destroys) (hw : t.phase = .waiting wake act)
    (hc : act r.world = (answer, w)) :
    Works r (.finishDestroy t.number)
      ({ r with world := w }.setDestroyPhase t.number (.finished (resultOfDestroy answer) w.now))
  | requestStop : Works r .requestStop { r with stopRequested := true }
  | advance {time : Nat} (h : r.now ≤ time) :
    Works r (.advance time) { r with world := { r.world with now := time } }

section Inversion
variable {r r' : Run}

theorem mem_of_task? {n : Nat} {t : Task} (h : r.task? n = some t) : t ∈ r.tasks ∧ t.number = n :=
  ⟨List.mem_of_find?_eq_some h, by simpa using List.find?_some h⟩

theorem mem_of_destroy? {n : Nat} {t : DestroyTask} (h : r.destroy? n = some t) :
    t ∈ r.destroys ∧ t.number = n :=
  ⟨List.mem_of_find?_eq_some h, by simpa using List.find?_some h⟩

theorem task?_of_mem (hn : r.Numbered) {t : Task} (ht : t ∈ r.tasks) :
    r.task? t.number = some t := by
  cases hf : r.task? t.number with
  | none =>
    have := List.find?_eq_none.1 hf t ht
    simp at this
  | some u =>
    obtain ⟨hu, hnum⟩ := mem_of_task? hf
    rw [Numbering.eq_of_number hn.tasks hu ht hnum]

theorem destroy?_of_mem (hn : r.Numbered) {d : DestroyTask} (hd : d ∈ r.destroys) :
    r.destroy? d.number = some d := by
  cases hf : r.destroy? d.number with
  | none =>
    have := List.find?_eq_none.1 hf d hd
    simp at this
  | some u =>
    obtain ⟨hu, hnum⟩ := mem_of_destroy? hf
    rw [Numbering.eq_of_number hn.destroys hu hd hnum]

/-- Only a task that is queued begins. -/
theorem step_beginTask {n : Nat} (h : r.step (.beginTask n) = some r') :
    ∃ node deadline scope work, r.task? n = some ⟨n, node, deadline, .queued scope work⟩ ∧
      r' = r.beginWork n node scope work := by
  rw [Run.step] at h
  split at h
  next number node deadline scope work hf =>
    obtain rfl : number = n := (mem_of_task? hf).2
    exact ⟨node, deadline, scope, work, hf, (Option.some.inj h).symm⟩
  next => cases h

/-- Only a task whose handler has been called comes to the end of it. -/
theorem step_finishTask {n : Nat} (h : r.step (.finishTask n) = some r') :
    ∃ node deadline wake act, r.task? n = some ⟨n, node, deadline, .waiting wake act⟩ ∧
      r' = r.finishAct n act := by
  rw [Run.step] at h
  split at h
  next number node deadline wake act hf =>
    obtain rfl : number = n := (mem_of_task? hf).2
    exact ⟨node, deadline, wake, act, hf, (Option.some.inj h).symm⟩
  next => cases h

/-- Only a task that has finished is collected. -/
theorem step_collectTask {n : Nat} (h : r.step (.collectTask n) = some r') :
    ∃ node deadline result time, r.task? n = some ⟨n, node, deadline, .finished result time⟩ ∧
      r' = ((r.dropTask n).complete node result time).turn := by
  rw [Run.step] at h
  split at h
  next number node deadline result time hf =>
    obtain rfl : number = n := (mem_of_task? hf).2
    exact ⟨node, deadline, result, time, hf, (Option.some.inj h).symm⟩
  next => cases h

/-- Only a destruction that is queued begins. -/
theorem step_beginDestroy {n : Nat} (h : r.step (.beginDestroy n) = some r') :
    ∃ resource owner inst handle,
      r.destroy? n = some ⟨n, resource, owner, inst, .queued handle⟩ ∧
        r' = r.callDestroy n inst handle := by
  rw [Run.step] at h
  split at h
  next number resource owner inst handle hf =>
    obtain rfl : number = n := (mem_of_destroy? hf).2
    exact ⟨resource, owner, inst, handle, hf, (Option.some.inj h).symm⟩
  next => cases h

theorem afterCall_eq {α : Type} (r : Run) (w : World) (n : Nat)
    (pending : (World → Answer α × World) → PendingAct) (reaction : Reaction α) :
    ({ r with world := w }.afterCall n pending reaction) =
      { r with world := w }.setTaskPhase n (r.phaseAfterCall w pending reaction) := by
  cases reaction with
  | panic m => rfl
  | wait ms act =>
    simp only [afterCall, phaseAfterCall]
    split
    next => rfl
    next => rfl

theorem works_beginWork {t : Task} (ht : t ∈ r.tasks) {scope : Scope} {work : Work}
    (hq : t.phase = .queued scope work) :
    Works r (.beginTask t.number) (r.beginWork t.number t.node scope work) := by
  cases work with
  | step runner arguments resources =>
    simp only [beginWork, beginStep]
    cases hi : Work.input runner.shape.inputs arguments scope with
    | error e => exact .task ht (.refuseStep hq hi)
    | ok input =>
      simp only
      rw [afterCall_eq]
      exact .task ht (.callStep hq hi rfl)
  | create name kind arguments =>
    simp only [beginWork, beginCreate]
    cases hi : Work.input kind.shape.inputs arguments scope with
    | error e => exact .task ht (.refuseCreate hq hi)
    | ok input =>
      simp only
      split
      next hn =>
        rw [afterCall_eq]
        exact .task ht (.callCreate hq hi hn rfl)
      next hn =>
        split
        next hs => exact .task ht (.reuse hq hi (Bool.eq_false_iff.2 hn) hs)
        next hs => exact .task ht (.unavailable hq hi (Bool.eq_false_iff.2 hs))
  | expand replication => exact .task ht (.expand hq)

theorem works_finishAct {t : Task} (ht : t ∈ r.tasks) {wake : Nat} {act : PendingAct}
    (hw : t.phase = .waiting wake act) : Works r (.finishTask t.number) (r.finishAct t.number act) := by
  cases act with
  | answer act => exact .task ht (.answer hw rfl)
  | create name act => exact .task ht (.create hw rfl)

theorem works_callDestroy {t : DestroyTask} (ht : t ∈ r.destroys)
    {handle : Handler ResourceInstance Unit} (hq : t.phase = .queued handle) :
    Works r (.beginDestroy t.number) (r.callDestroy t.number t.inst handle) := by
  have h := Works.callDestroy ht hq (w := (handle t.inst r.world).2) rfl
  rw [callDestroy]
  cases hr : (handle t.inst r.world).1 with
  | panic m =>
    simp only [hr, destroyPhaseAfterCall] at h ⊢
    exact h
  | wait ms act =>
    simp only [hr, destroyPhaseAfterCall] at h ⊢
    exact h

theorem TaskMoves.ne_queued {t : Task} {e : Event} {phase : TaskPhase} {w : World} {slots : Slots}
    (h : TaskMoves r t e phase w slots) (scope : Scope) (work : Work) :
    phase ≠ .queued scope work := by
  have hcall : ∀ {α : Type} {w : World} {pending : (World → Answer α × World) → PendingAct}
      {reaction : Reaction α}, r.phaseAfterCall w pending reaction ≠ .queued scope work := by
    intro α w pending reaction hq
    rcases phaseAfterCall_cases r w pending reaction with ⟨m, he⟩ | he | ⟨wake, act, he⟩
    · cases he.symm.trans hq
    · cases he.symm.trans hq
    · cases he.symm.trans hq
  cases h with
  | callStep hq hi hc => exact hcall
  | callCreate hq hi hn hc => exact hcall
  | _ => exact TaskPhase.noConfusion

/-! ## What work leaves alone -/

theorem TaskMoves.fits {t : Task} {e : Event} {phase : TaskPhase} {w : World} {slots : Slots}
    (h : TaskMoves r t e phase w slots) {kind : NodeKind}
    (hf : t.phase.Fits r.settings.registry kind) : phase.Fits r.settings.registry kind := by
  have hcall : ∀ {α : Type} {w : World} {pending : (World → Answer α × World) → PendingAct}
      {reaction : Reaction α}, (∀ act, (pending act).Fits kind) →
      (r.phaseAfterCall w pending reaction).Fits r.settings.registry kind := by
    intro α w pending reaction hp
    rcases phaseAfterCall_cases r w pending reaction with ⟨m, he⟩ | he | ⟨wake, act, he⟩
    · rw [he]
      trivial
    · rw [he]
      trivial
    · rw [he]
      exact hp act
  cases h with
  | refuseStep hq hi => trivial
  | callStep hq hi hc =>
    rw [hq] at hf
    obtain ⟨inst, rfl, -⟩ := hf.of_step
    exact hcall fun act => trivial
  | refuseCreate hq hi => trivial
  | callCreate hq hi hn hc =>
    rw [hq] at hf
    obtain ⟨kindName, rfl, -⟩ := hf.of_create
    exact hcall fun act => rfl
  | reuse hq hi hn hs =>
    rw [hq] at hf
    obtain ⟨kindName, rfl, -⟩ := hf.of_create
    trivial
  | unavailable hq hi hs => trivial
  | @expand scope replication hq =>
    rw [hq] at hf
    obtain ⟨template, rfl⟩ := hf.of_expand
    cases Work.instances replication t.node.text scope with
    | error e => trivial
    | ok vars => trivial
  | @answer wake act answer w hw hc =>
    rw [hw] at hf
    obtain ⟨inst, rfl⟩ := hf.of_answer
    cases answer <;> trivial
  | @create wake name act answer w hw hc =>
    rw [hw] at hf
    obtain ⟨kindName, arguments, rfl⟩ := hf.of_creating
    cases (r.slots.acquire name (resultOfCreation answer)).1 with
    | error e => trivial
    | ok i => trivial
  | expire hw hd => trivial
  | stop hw hs => trivial

/-- What the work between two turns leaves alone. -/
structure Undisturbed (r r' : Run) : Prop where
  settings : r'.settings = r.settings
  deadline : r'.deadline = r.deadline
  plan : r'.plan = r.plan
  nodes : r'.tasks.map Task.node = r.tasks.map Task.node
  task_numbers : r'.tasks.map Task.number = r.tasks.map Task.number
  destroy_numbers : r'.destroys.map DestroyTask.number = r.destroys.map DestroyTask.number
  next : r'.next = r.next
  deferred : r'.deferred = r.deferred
  failure : r'.failure = r.failure
  cancelled : r'.cancelled = r.cancelled
  stalled : r'.stalled = r.stalled
  phase : r'.phase = r.phase
  timeline : r'.timeline = r.timeline

theorem map_setTaskPhase {α : Type} (f : Task → α) (hf : ∀ t phase, f { t with phase := phase } = f t)
    (n : Nat) (phase : TaskPhase) : (r.setTaskPhase n phase).tasks.map f = r.tasks.map f := by
  rw [setTaskPhase, List.map_map]
  refine List.map_congr_left fun t _ => ?_
  rw [Function.comp_apply]
  split
  next => exact hf t phase
  next => rfl

theorem map_setDestroyPhase {α : Type} (f : DestroyTask → α)
    (hf : ∀ t phase, f { t with phase := phase } = f t) (n : Nat) (phase : DestroyPhase) :
    (r.setDestroyPhase n phase).destroys.map f = r.destroys.map f := by
  rw [setDestroyPhase, List.map_map]
  refine List.map_congr_left fun t _ => ?_
  rw [Function.comp_apply]
  split
  next => exact hf t phase
  next => rfl

theorem Works.undisturbed {e : Event} (h : Works r e r') : Undisturbed r r' := by
  cases h with
  | task ht h =>
    exact ⟨rfl, rfl, rfl, map_setTaskPhase _ (fun _ _ => rfl) _ _,
      map_setTaskPhase _ (fun _ _ => rfl) _ _, rfl, rfl, rfl, rfl, rfl, rfl, rfl, rfl⟩
  | callDestroy ht hq hc =>
    exact ⟨rfl, rfl, rfl, rfl, rfl, map_setDestroyPhase _ (fun _ _ => rfl) _ _, rfl, rfl, rfl, rfl,
      rfl, rfl, rfl⟩
  | answerDestroy ht hw hc =>
    exact ⟨rfl, rfl, rfl, rfl, rfl, map_setDestroyPhase _ (fun _ _ => rfl) _ _, rfl, rfl, rfl, rfl,
      rfl, rfl, rfl⟩
  | requestStop => exact ⟨rfl, rfl, rfl, rfl, rfl, rfl, rfl, rfl, rfl, rfl, rfl, rfl, rfl⟩
  | advance h => exact ⟨rfl, rfl, rfl, rfl, rfl, rfl, rfl, rfl, rfl, rfl, rfl, rfl, rfl⟩

namespace Undisturbed

theorem numbered (h : Undisturbed r r') (hn : r.Numbered) : r'.Numbered where
  tasks := by
    rw [h.task_numbers]
    exact hn.tasks
  destroys := by
    rw [h.destroy_numbers]
    exact hn.destroys
  task_lt := by
    intro t ht
    have hm : t.number ∈ r'.tasks.map Task.number := List.mem_map_of_mem ht
    rw [h.task_numbers] at hm
    obtain ⟨u, hu, he⟩ := List.mem_map.1 hm
    rw [h.next, ← he]
    exact hn.task_lt u hu
  destroy_lt := by
    intro d hd
    have hm : d.number ∈ r'.destroys.map DestroyTask.number := List.mem_map_of_mem hd
    rw [h.destroy_numbers] at hm
    obtain ⟨u, hu, he⟩ := List.mem_map.1 hm
    rw [h.next, ← he]
    exact hn.destroy_lt u hu

theorem length_tasks (h : Undisturbed r r') : r'.tasks.length = r.tasks.length := by
  have := congrArg List.length h.nodes
  rwa [List.length_map, List.length_map] at this

theorem accepting (h : Undisturbed r r') : r'.accepting = r.accepting := by
  rw [Run.accepting, Run.accepting, h.failure, h.cancelled]

theorem tasks_eq_nil (h : Undisturbed r r') : r'.tasks = [] ↔ r.tasks = [] := by
  rw [← List.length_eq_zero_iff, ← List.length_eq_zero_iff, h.length_tasks]

theorem destroys_eq_nil (h : Undisturbed r r') : r'.destroys = [] ↔ r.destroys = [] := by
  have hlen := congrArg List.length h.destroy_numbers
  rw [List.length_map, List.length_map] at hlen
  rw [← List.length_eq_zero_iff, ← List.length_eq_zero_iff, hlen]

theorem live {g : Graph} {E : Expansions} (h : Undisturbed r r') (hl : Live g ⟨r, E, none, []⟩)
    (hfits : ∀ t' ∈ r'.tasks, ∃ t ∈ r.tasks, t'.node = t.node ∧ ∀ kind,
      t.phase.Fits r.settings.registry kind → t'.phase.Fits r.settings.registry kind) :
    Live g ⟨r', E, none, []⟩ where
  sound := by
    rw [h.plan]
    exact hl.sound
  tasks_nodup := by
    rw [h.nodes]
    exact hl.tasks_nodup
  task := by
    intro t' ht'
    obtain ⟨t, ht, hnode, -⟩ := hfits t' ht'
    rw [h.plan, h.deferred, hnode]
    exact hl.task ht
  fits := by
    intro t' ht'
    obtain ⟨t, ht, hnode, hphase⟩ := hfits t' ht'
    obtain ⟨n, hn, hf⟩ := hl.fits ht
    refine ⟨n, ?_, ?_⟩
    · rw [h.plan, hnode]
      exact hn
    · rw [h.settings]
      exact hphase _ hf
  active := fun ha => by cases ha
  active_fits := fun ha => by cases ha
  deferred := by
    intro id d hd
    rw [h.deferred] at hd
    rw [h.plan]
    exact hl.deferred hd
  running := by
    intro id hr
    rw [h.plan] at hr
    rw [h.nodes, h.deferred]
    exact hl.running hr
  ended_nodup := List.nodup_nil
  ended := fun hx => by cases hx
  expanded := by
    intro id n hn hk hx
    rw [h.plan] at hn hx
    rw [h.deferred] at hx
    exact hl.expanded hn hk hx

end Undisturbed

theorem mem_setTaskPhase {n : Nat} {phase : TaskPhase} {t' : Task}
    (h : t' ∈ (r.setTaskPhase n phase).tasks) :
    ∃ t ∈ r.tasks, (t.number ≠ n ∧ t' = t) ∨ (t.number = n ∧ t' = { t with phase := phase }) := by
  obtain ⟨t, ht, he⟩ := List.mem_map.1 h
  refine ⟨t, ht, ?_⟩
  split at he
  next hn => exact .inr ⟨hn, he.symm⟩
  next hn => exact .inl ⟨hn, he.symm⟩

theorem Works.live {g : Graph} {E : Expansions} {e : Event} (h : Works r e r') (hn : r.Numbered)
    (hl : Live g ⟨r, E, none, []⟩) : Live g ⟨r', E, none, []⟩ := by
  refine h.undisturbed.live hl fun t' ht' => ?_
  cases h with
  | @task u e phase w slots hu hm =>
    obtain ⟨t, ht, ⟨hne, rfl⟩ | ⟨hnum, rfl⟩⟩ := mem_setTaskPhase ht'
    · exact ⟨t', ht, rfl, fun kind hf => hf⟩
    · have htu : t = u := Numbering.eq_of_number hn.tasks ht hu hnum
      exact ⟨t, ht, rfl, fun kind hf => hm.fits (htu ▸ hf)⟩
  | callDestroy ht hq hc => exact ⟨t', ht', rfl, fun kind hf => hf⟩
  | answerDestroy ht hw hc => exact ⟨t', ht', rfl, fun kind hf => hf⟩
  | requestStop => exact ⟨t', ht', rfl, fun kind hf => hf⟩
  | advance h => exact ⟨t', ht', rfl, fun kind hf => hf⟩

end Inversion
end Run

end Workplan
