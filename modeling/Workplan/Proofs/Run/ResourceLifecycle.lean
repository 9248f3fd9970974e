import Workplan.Proofs.Run.Calls
import Workplan.Proofs.Run.Scheduling

/-! The life of a resource: it is created at most once, its instance is destroyed once and only after the
last node that uses it, and nothing is left alive when the run has ended. -/
namespace Workplan
set_option autoImplicit false

/-! ## The slots of a plan -/

namespace Run
section Slots
variable {p : Plan} {name : String}

/-- What a node of the plan adds to the slots. -/
def registerNode (p : Plan) (s : Slots) (n : Node) : Slots :=
  match n.kind with
  | .resource name kind _ => s.register name kind (p.consumersOf n.id).toList
  | _ => s

/-- A slot that is registered for a resource of a list of nodes. -/
def IsRegistered (p : Plan) (l : List Node) (name : String) (slot : Slot) : Prop :=
  ∃ n ∈ l, ∃ kind arguments, n.kind = .resource name kind arguments ∧
    slot = Slot.new kind (p.consumersOf n.id).toList

theorem get?_registerNode (s : Slots) (n : Node) {slot : Slot}
    (h : (registerNode p s n).get? name = some slot) :
    s.get? name = some slot ∨ IsRegistered p [n] name slot := by
  rw [registerNode] at h
  split at h
  next name' kind arguments hk =>
    rw [Slots.register, SortedMap.get?_insert] at h
    split at h
    next hn =>
      cases h
      exact .inr ⟨n, List.mem_singleton_self n, kind, arguments, by rw [hk, hn], rfl⟩
    next => exact .inl h
  next => exact .inl h

theorem exists_get?_registerNode (s : Slots) (n : Node)
    (h : (∃ slot, s.get? name = some slot) ∨
      ∃ kind arguments, n.kind = .resource name kind arguments) :
    ∃ slot, (registerNode p s n).get? name = some slot := by
  rw [registerNode]
  split
  next name' kind arguments hk =>
    rw [Slots.register, SortedMap.get?_insert]
    split
    next => exact ⟨_, rfl⟩
    next hn =>
      rcases h with h | ⟨kind', arguments', hk'⟩
      · exact h
      · cases hk.symm.trans hk'
        exact absurd rfl hn
  next hk =>
    rcases h with h | ⟨kind', arguments', hk'⟩
    · exact h
    · exact absurd hk' (hk _ _ _)

theorem get?_foldl_registerNode (l : List Node) (s : Slots) {slot : Slot}
    (h : (l.foldl (registerNode p) s).get? name = some slot) :
    s.get? name = some slot ∨ IsRegistered p l name slot := by
  induction l generalizing s with
  | nil => exact .inl h
  | cons n l ih =>
    rcases ih _ h with h | ⟨m, hm, hreg⟩
    · rcases get?_registerNode s n h with h | ⟨m, hm, hreg⟩
      · exact .inl h
      · exact .inr ⟨m, List.mem_cons.2 (.inl (List.mem_singleton.1 hm)), hreg⟩
    · exact .inr ⟨m, List.mem_cons_of_mem n hm, hreg⟩

theorem exists_get?_foldl_registerNode (l : List Node) (s : Slots)
    (h : (∃ slot, s.get? name = some slot) ∨
      ∃ n ∈ l, ∃ kind arguments, n.kind = .resource name kind arguments) :
    ∃ slot, (l.foldl (registerNode p) s).get? name = some slot := by
  induction l generalizing s with
  | nil =>
    rcases h with h | ⟨n, hn, -⟩
    · exact h
    · cases hn
  | cons n l ih =>
    refine ih _ ?_
    rcases h with h | ⟨m, hm, hk⟩
    · exact .inl (exists_get?_registerNode s n (.inl h))
    · rcases List.mem_cons.1 hm with rfl | hm
      · exact .inl (exists_get?_registerNode s m (.inr hk))
      · exact .inr ⟨m, hm, hk⟩

theorem registered_of_slotsOf {slot : Slot} (h : (slotsOf p).get? name = some slot) :
    IsRegistered p p.nodes.values name slot := by
  rcases get?_foldl_registerNode _ _ h with h | h
  · cases h
  · exact h

end Slots

section New
variable {g : Graph} {settings : RunSettings} {stopRequested : Bool}

theorem covered_new (hg : g.Sound) :
    (Stage.mk (new settings g stopRequested) .none none []).Covered := by
  intro x name hu _
  obtain ⟨n, hn, hname⟩ := hu
  have hn' : g.node? x = some n := hn
  obtain ⟨b, hb, -, hprod⟩ := hg.bound hn' hname
  obtain ⟨m, hm⟩ := hg.closed hn' hb (q := NodeId.resource name) (by rw [hprod]; simp)
  have hres := hg.isResource hm
  rw [NodeId.isResource_resource] at hres
  obtain ⟨name', kind, arguments, hk⟩ := NodeKind.exists_of_isResource hres.symm
  obtain rfl := NodeId.resource_inj (hg.resource hm hk)
  obtain ⟨slot, hslot⟩ := exists_get?_foldl_registerNode (p := Plan.ofGraph g)
    (Plan.ofGraph g).nodes.values .empty
    (.inr ⟨m, SortedMap.mem_values.2 ⟨_, hm⟩, kind, arguments, hk⟩)
  obtain ⟨m', hm', kind', arguments', hk', rfl⟩ := registered_of_slotsOf hslot
  obtain ⟨y, hy⟩ := SortedMap.mem_values.1 hm'
  have hid : m'.id = NodeId.resource name := (hg.linked.id_eq hy).trans (hg.resource hy hk')
  refine ⟨_, hslot, ?_, rfl⟩
  rw [Slot.new, SortedSet.mem_ofList, ← SortedSet.mem_def, hid, Plan.consumersOf,
    SortedSet.mem_ofList, List.mem_map]
  refine ⟨n, List.mem_filter.2 ⟨SortedMap.mem_values.2 ⟨x, hn'⟩, ?_⟩, hg.linked.id_eq hn'⟩
  rw [List.contains_iff_mem]
  exact ((NodeMap.Unfolds.start hg).mem_resources hn' hg).2 ⟨name, hname, rfl⟩

theorem ledger_new (hg : g.Sound) (hr : g.Registered settings.registry) :
    (new settings g stopRequested).Ledger g [] [] := by
  have hslot : ∀ {name slot}, (new settings g stopRequested).slots.get? name = some slot →
      (g.Declares name slot.kind ∧ ∃ k, settings.registry.kind? slot.kind = some k) ∧
        slot.created = none ∧ slot.handedBack = false := by
    intro name slot hs
    obtain ⟨n, hn, kind, arguments, hk, rfl⟩ := registered_of_slotsOf hs
    obtain ⟨x, hx⟩ := SortedMap.mem_values.1 hn
    obtain rfl := hg.resource hx hk
    exact ⟨⟨⟨n, arguments, hx, hk⟩, hr.kind hx hk⟩, rfl, rfl⟩
  constructor
  case kinds => exact fun hs => (hslot hs).1
  case filled =>
    intro name i
    refine ⟨fun hm => (by cases hm), ?_⟩
    rintro ⟨slot, hs, hc⟩
    cases (hslot hs).2.1.symm.trans hc
  case filled_nodup => exact List.nodup_nil
  case handed =>
    intro name i
    refine ⟨fun hm => (by cases hm), ?_⟩
    rintro ⟨slot, hs, hc, -⟩
    cases (hslot hs).2.1.symm.trans hc
  case handed_nodup => exact List.nodup_nil
  case unfilled => exact fun hs _ => (hslot hs).2.2
  case destroys => exact fun d hd => by cases hd
  case handlers => exact fun hd => by cases hd
  case drained => exact fun hp => absurd rfl hp
  case creating => exact fun ht => by cases ht

end New

/-! ## Calls of create handlers -/

/-- The resources whose create handlers have been called have started, and no task of theirs is about to
begin. -/
structure Called (calls : List String) (s : Stage) : Prop where
  nodup : calls.Nodup
  started : ∀ name ∈ calls, s.run.plan.hasStarted (NodeId.resource name) = true
  begun : ∀ name ∈ calls, ∀ t ∈ s.run.tasks, t.node = NodeId.resource name →
    ∀ scope work, t.phase ≠ .queued scope work
  active : ∀ name ∈ calls, ∀ o, s.active = some (NodeId.resource name, o) → o ≠ none

end Run

section Called
variable {g : Graph} {s t : Stage} {calls : List String}

theorem Moves.called (hg : g.Sound) (hm : Moves s t) (hl : Live g s) (h : Run.Called calls s) :
    Run.Called calls t := by
  have hev := hm.evolves hg hl
  have htasks : (∀ u ∈ t.run.tasks, u ∈ s.run.tasks ∨
      ∃ id, s.active = some (id, none) ∧ u.node = id) ∧
      (∀ id, t.active = some (id, none) → s.active = some (id, none)) := by
    cases hm with
    | collect E ht hf =>
      exact ⟨fun u hu => .inl (List.mem_of_mem_filter hu), fun id hi => by cases hi⟩
    | @enqueue r E id u hp hlimit =>
      refine ⟨fun v hv => ?_, fun id hi => by cases hi⟩
      rcases List.mem_append.1 hv with hv | hv
      · exact .inl hv
      · obtain ⟨node, scope, work, -, -, -, rfl⟩ := Run.prepare_eq_ok hp
        exact .inr ⟨id, rfl, by rw [List.mem_singleton.1 hv]⟩
    | conclude r hE =>
      refine ⟨fun u hu => .inl ?_, fun id hi => by cases hi⟩
      rw [Run.tasks_conclude] at hu
      exact hu
    | fail hf =>
      refine ⟨fun u hu => .inl ?_, fun id hi => by cases hi⟩
      rw [Run.tasks_blame] at hu
      exact hu
    | release r E a id l =>
      refine ⟨fun u hu => .inl ?_, fun id hi => hi⟩
      rw [(Run.agree_release r id).tasks] at hu
      exact hu
    | credit E ht hf ho =>
      refine ⟨fun u hu => .inl ?_, fun id hi => by cases hi⟩
      rw [Run.tasks_credit] at hu
      exact hu
    | drain E hw ht hd hp =>
      refine ⟨fun u hu => .inl ?_, fun id hi => by cases hi⟩
      rw [(Run.agree_spawnDestroys none _ _).tasks] at hu
      exact hu
    | _ => exact ⟨fun u hu => .inl hu, fun id hi => hi⟩
  constructor
  case nodup => exact h.nodup
  case started => exact fun name hn => hev.started (h.started name hn)
  case begun =>
    intro name hn u hu he scope work hq
    rcases htasks.1 u hu with hu | ⟨id, hi, hid⟩
    · exact h.begun name hn u hu he scope work hq
    · rw [← hid, he] at hi
      exact h.active name hn none hi rfl
  case active =>
    rintro name hn o hi rfl
    exact h.active name hn none (htasks.2 _ hi) rfl

theorem Begins.called {id : NodeId} (hb : Begins s id t) (h : Run.Called calls s) :
    Run.Called calls t := by
  have hev := hb.evolves
  have hnot := hb.hasStarted.1
  cases hb with
  | mk E ha hlimit hr =>
    refine ⟨h.nodup, fun name hn => hev.started (h.started name hn), h.begun, fun name hn o hi => ?_⟩
    cases hi
    rw [h.started name hn] at hnot
    cases hnot

theorem Path.called (hg : g.Sound) {l : List (Run × NodeId)} (hp : Path s l t)
    (hn : s.run.Numbered) (hl : Live g s) (h : Run.Called calls s) : Run.Called calls t := by
  induction hp with
  | refl => exact h
  | move hp hm ih => exact hm.called hg (hp.live hg hn hl) ih
  | start hp hb ih => exact hb.called ih

end Called

namespace Run
section Works
variable {g : Graph} {E : Expansions} {r r' : Run} {e : Event} {calls : List String}

/-! ## Work and the calls it makes -/

theorem Works.queued (hw : Works r e r') {t : Task} (ht : t ∈ r'.tasks) {scope : Scope} {work : Work}
    (hq : t.phase = .queued scope work) : t ∈ r.tasks ∧ e ≠ .beginTask t.number := by
  cases hw with
  | @task u e phase w slots hu hm =>
    obtain ⟨v, hv, ⟨hne, rfl⟩ | ⟨-, rfl⟩⟩ := mem_setTaskPhase ht
    · have hnum : ∀ n, e = .beginTask n → n = u.number := by
        intro n he
        cases hm <;> cases he <;> rfl
      exact ⟨hv, fun he => hne (hnum _ he)⟩
    · exact absurd hq (hm.ne_queued scope work)
  | callDestroy hd hp hc => exact ⟨ht, fun he => by cases he⟩
  | answerDestroy hd hp hc => exact ⟨ht, fun he => by cases he⟩
  | requestStop => exact ⟨ht, fun he => by cases he⟩
  | advance h => exact ⟨ht, fun he => by cases he⟩

theorem Works.called (hg : g.Sound) (h : Reached g E r) (hw : Works r e r')
    (hc : Called calls ⟨r, E, none, []⟩) :
    Called (calls ++ (r.createCall? e).toList) ⟨r', E, none, []⟩ := by
  have hold : ∀ name ∈ calls, r'.plan.hasStarted (NodeId.resource name) = true := by
    rw [hw.undisturbed.plan]
    exact hc.started
  have hbegun : ∀ name ∈ calls, ∀ t ∈ r'.tasks, t.node = NodeId.resource name →
      ∀ scope work, t.phase ≠ .queued scope work := fun name hn t ht hnode scope work hq =>
    hc.begun name hn t (hw.queued ht hq).1 hnode scope work hq
  cases hcall : r.createCall? e with
  | none =>
    rw [Option.toList_none, List.append_nil]
    exact ⟨hc.nodup, hold, hbegun, fun _ _ _ ho => by cases ho⟩
  | some name =>
    obtain ⟨t, ht, rfl, scope, kind, arguments, hq⟩ := task_of_createCall? hcall
    have hnode := node_of_creating hg h.live ht (.inr ⟨scope, kind, arguments, hq⟩)
    rw [Option.toList_some]
    constructor
    case nodup =>
      refine List.nodup_append.2 ⟨hc.nodup, List.nodup_singleton _, ?_⟩
      rintro a ha b hb rfl
      rw [List.mem_singleton.1 hb] at ha
      exact hc.begun name ha t ht hnode _ _ hq
    case started =>
      intro x hx
      rcases List.mem_append.1 hx with hx | hx
      · exact hold x hx
      · have hrun := (h.live.task ht).1
        rw [List.mem_singleton.1 hx, ← hnode]
        change r'.plan.hasStarted t.node = true
        rw [hw.undisturbed.plan, Plan.hasStarted, hrun]
        rfl
    case begun =>
      intro x hx u hu hnode' scope' work hq'
      rcases List.mem_append.1 hx with hx | hx
      · exact hbegun x hx u hu hnode' scope' work hq'
      · obtain ⟨hu', hne⟩ := hw.queued hu hq'
        rw [List.mem_singleton.1 hx, ← hnode] at hnode'
        exact hne (by rw [eq_of_node h.live hu' ht hnode'])
    case active => exact fun _ _ _ ho => by cases ho

end Works

/-! ## Along a history -/

section Histories
variable {g : Graph} {E : Expansions} {settings : RunSettings} {stopRequested : Bool}
variable {h h' : Trace} {r r' : Run} {e : Event} {name : String}

theorem createCalls_append (h : Trace) (r : Run) (e : Event) :
    createCalls (h ++ [(r, e)]) = createCalls h ++ (r.createCall? e).toList := by
  rw [createCalls, List.filterMap_append, createCalls, List.filterMap_cons]
  cases r.createCall? e <;> rfl

theorem creations_append (h : Trace) (r : Run) (e : Event) :
    creations (h ++ [(r, e)]) = creations h ++ (r.creation? e).toList := by
  rw [creations, List.filterMap_append, creations, List.filterMap_cons]
  cases r.creation? e <;> rfl

theorem destroyCalls_append (h : Trace) (r : Run) (e : Event) :
    destroyCalls (h ++ [(r, e)]) = destroyCalls h ++ (r.destroyCall? e).toList := by
  rw [destroyCalls, List.filterMap_append, destroyCalls, List.filterMap_cons]
  cases r.destroyCall? e <;> rfl

theorem calls_of_isNoted (he : e.isNoted = true) :
    r.createCall? e = none ∧ r.creation? e = none ∧ r.destroyCall? e = none := by
  cases e with
  | collectTask n => exact ⟨rfl, rfl, rfl⟩
  | collectDestroy n => exact ⟨rfl, rfl, rfl⟩
  | observeStop => exact ⟨rfl, rfl, rfl⟩
  | _ => cases he

/-- What holds of the resources of a run after a history. -/
structure Accounted (g : Graph) (E : Expansions) (h : Trace) (r : Run) : Prop where
  reached : Reached g E r
  ledger : r.Ledger g (creations h) (destroyCalls h)
  called : Called (createCalls h) ⟨r, E, none, []⟩
  covered : (Stage.mk r E none []).Covered

theorem Leads.accounted (hg : g.Sound) (hr : g.Registered settings.registry)
    (hl : Leads (ofGraph settings g stopRequested) h r) : ∃ E, Accounted g E h r := by
  induction hl with
  | start =>
    obtain ⟨hp, hreach⟩ := path_ofGraph hg settings stopRequested
    have hn := numbered_new settings g stopRequested
    have hlive := live_new hg settings stopRequested
    refine ⟨.none, hreach, hp.ledger hn (ledger_new hg hr), ?_, hp.covered hg hn hlive (covered_new hg)⟩
    exact ⟨List.nodup_nil, fun _ hx => (by cases hx), fun _ hx => (by cases hx),
      fun _ hx => (by cases hx)⟩
  | @event h r r' e _ hs ih =>
    obtain ⟨E, ha⟩ := ih
    rcases ha.reached.step hg hs with ⟨hw, -, hreach⟩ | ⟨he, E', hp, hreach⟩
    · refine ⟨E, hreach, ?_, ?_, hw.covered ha.covered⟩
      · rw [creations_append, destroyCalls_append]
        exact hw.ledger hg ha.reached ha.ledger
      · rw [createCalls_append]
        exact hw.called hg ha.reached ha.called
    · obtain ⟨hcall, hcreate, hdestroy⟩ := calls_of_isNoted (r := r) he
      have hn := ha.reached.numbered
      have hlive := ha.reached.live
      refine ⟨E', hreach, ?_, ?_, hp.covered hg hn hlive ha.covered⟩
      · rw [creations_append, destroyCalls_append, hcreate, hdestroy, Option.toList_none,
          List.append_nil, List.append_nil]
        exact hp.ledger hn ha.ledger
      · rw [createCalls_append, hcall, Option.toList_none, List.append_nil]
        exact hp.called hg hn hlive ha.called

theorem not_uses_of_covered (hc : (Stage.mk r E none []).Covered)
    (hb : r.slots.IsHandedBack name) {t : Task} (ht : t ∈ r.tasks) : ¬ r.plan.Uses t.node name :=
  fun hu => (hc t.node name hu (.inr (.inl (List.mem_map_of_mem ht)))).not_isHandedBack hb

/-- Once an instance has been handed back, no task uses it and no node that uses it is started. -/
theorem Reached.not_uses (hg : g.Sound) (hr : Reached g E r) (hc : (Stage.mk r E none []).Covered)
    (hb : r.slots.IsHandedBack name) (hl : Leads r h r') :
    (∃ E', Reached g E' r' ∧ (Stage.mk r' E' none []).Covered) ∧ r'.slots.IsHandedBack name ∧
      ∀ x ∈ startsOf h, ¬ x.1.plan.Uses x.2 name := by
  induction hl with
  | start => exact ⟨⟨E, hr, hc⟩, hb, fun x hx => by cases hx⟩
  | event _ he ih =>
    obtain ⟨⟨E', hr', hc'⟩, hb', hnot⟩ := ih
    rw [startsOf_append]
    rcases hr'.step hg he with ⟨hw, hnil, hreach⟩ | ⟨-, E'', hp, hreach⟩
    · rw [hnil, List.append_nil]
      exact ⟨⟨E', hreach, hw.covered hc'⟩, hw.isHandedBack hb', hnot⟩
    · refine ⟨⟨E'', hreach, hp.covered hg hr'.numbered hr'.live hc'⟩, hp.isHandedBack hb', ?_⟩
      intro x hx
      rcases List.mem_append.1 hx with hx | hx
      · exact hnot x hx
      · exact hp.not_uses hg hr'.numbered hr'.live hc' hb' x hx

/-- A run that a node is started in destroys nothing that the node or a task uses. -/
def Spares (q : Run) (id : NodeId) : Prop :=
  ∀ d ∈ q.destroys, ¬ q.plan.Uses id d.resource ∧ ∀ t ∈ q.tasks, ¬ q.plan.Uses t.node d.resource

end Histories
end Run

section Spares
variable {g : Graph} {s t : Stage} {created called : List (String × ResourceInstance)}

theorem Path.spares (hg : g.Sound) {l : List (Run × NodeId)} (hp : Path s l t)
    (hn : s.run.Numbered) (hl : Live g s) (hc : s.Covered) (hb : s.run.Ledger g created called) :
    ∀ x ∈ l, x.1.Spares x.2 := by
  induction hp with
  | refl => exact fun x hx => by cases hx
  | move hp hm ih => exact ih
  | @start t u l id hp hbegin ih =>
    intro x hx
    rcases List.mem_append.1 hx with hx | hx
    · exact ih x hx
    · obtain rfl := List.mem_singleton.1 hx
      have hcov := hp.covered hg hn hl hc
      have hled := hp.ledger hn hb
      cases hbegin with
      | mk E ha hlimit hr =>
        intro d hd
        have hback := hled.destroys d hd
        refine ⟨fun hu => ?_, fun u hu' => Run.not_uses_of_covered hcov hback hu'⟩
        exact (hcov id d.resource hu (.inl (Plan.isPending_of_isReady hr))).not_isHandedBack hback

end Spares

namespace Run
section Histories
variable {g : Graph} {settings : RunSettings} {stopRequested : Bool} {h : Trace} {r : Run}

theorem Leads.spares (hg : g.Sound) (hr : g.Registered settings.registry)
    (hl : Leads (ofGraph settings g stopRequested) h r) :
    ∀ x ∈ allStarts settings g stopRequested h, x.1.Spares x.2 := by
  induction hl with
  | start =>
    rw [allStarts, startsOf, List.flatMap_nil, List.append_nil]
    exact (path_ofGraph hg settings stopRequested).1.spares hg (numbered_new settings g stopRequested)
      (live_new hg settings stopRequested) (covered_new hg) (ledger_new hg hr)
  | event hl he ih =>
    obtain ⟨E, ha⟩ := hl.accounted hg hr
    rw [allStarts_append]
    intro x hx
    rcases List.mem_append.1 hx with hx | hx
    · exact ih x hx
    · rcases ha.reached.step hg he with ⟨-, hnil, -⟩ | ⟨-, E', hp, -⟩
      · rw [hnil] at hx
        cases hx
      · exact hp.spares hg ha.reached.numbered ha.reached.live ha.covered ha.ledger x hx

/-- The life of the resources of a run, over a history. -/
structure ResourceLifecycle (g : Graph) (settings : RunSettings) (stopRequested : Bool) (h : Trace)
    (r : Run) : Prop where
  /-- The calls spoken of are those that the events make. -/
  made : ∀ q e q', (q, e) ∈ h → q.step e = some q' → CallsMade g settings.registry q e q'
  create_once : (createCalls h).Nodup
  created_once : ((creations h).map Prod.fst).Nodup
  destroy_once : ((destroyCalls h).map Prod.fst).Nodup
  destroy_subset : destroyCalls h ⊆ creations h
  destroy_all : r.phase = .ended → (destroyCalls h).Perm (creations h)
  handler : ∀ d ∈ r.destroys, ∀ handle, d.phase = .queued handle → ∃ kind k,
    g.Declares d.resource kind ∧ settings.registry.kind? kind = some k ∧ handle = k.destroy
  /-- From the start of a destruction on, no task uses the resource. -/
  unused : ∀ d ∈ r.destroys, ∀ h' r', Leads r h' r' →
    ∀ t ∈ r'.tasks, ¬ r'.plan.Uses t.node d.resource
  /-- From the start of a destruction on, no node is started that uses the resource. -/
  unstarted : ∀ d ∈ r.destroys, ∀ h' r', Leads r h' r' →
    ∀ q id, (q, id) ∈ startsOf h' → ¬ q.plan.Uses id d.resource
  spares : ∀ q id, (q, id) ∈ allStarts settings g stopRequested h → q.Spares id

namespace Accounted
variable {E : Expansions}

theorem destroy_once (ha : Accounted g E h r) : ((destroyCalls h).map Prod.fst).Nodup := by
  have hall := ha.ledger.handed_nodup
  rw [List.map_append] at hall
  exact (List.nodup_append.1 hall).1

theorem destroy_subset (ha : Accounted g E h r) : destroyCalls h ⊆ creations h := by
  rintro ⟨name, i⟩ hm
  obtain ⟨slot, hs, hc, -⟩ := ha.ledger.handed.1 (List.mem_append_left _ hm)
  exact ha.ledger.filled.2 ⟨slot, hs, hc⟩

theorem destroy_all (ha : Accounted g E h r) (he : r.phase = .ended) :
    (destroyCalls h).Perm (creations h) := by
  refine (List.perm_ext_iff_of_nodup ha.destroy_once.of_map ha.ledger.filled_nodup.of_map).2 ?_
  rintro ⟨name, i⟩
  refine ⟨fun hm => ha.destroy_subset hm, fun hm => ?_⟩
  obtain ⟨slot, hs, hc⟩ := ha.ledger.filled.1 hm
  have hback := ha.ledger.drained (by rw [he]; decide) hs hc
  have hm' := ha.ledger.handed.2 ⟨slot, hs, hc, hback⟩
  rw [queuedInstances, ha.reached.atRest.quiet he, List.filterMap_nil, List.append_nil] at hm'
  exact hm'

end Accounted

theorem Leads.callsMade (hg : g.Sound) (hr : g.Registered settings.registry)
    (hl : Leads (ofGraph settings g stopRequested) h r) {q q' : Run} {e : Event} (hq : (q, e) ∈ h)
    (hs : q.step e = some q') : CallsMade g settings.registry q e q' := by
  obtain ⟨h', hl'⟩ := hl.exists_of_mem hq
  obtain ⟨E, ha⟩ := hl'.accounted hg hr
  rw [← hl'.settings_eq hg]
  exact ha.reached.callsMade hg ha.ledger hs

end Histories
end Run

/-- The life of resources. Every create handler is called at most once, and every destroy handler once for
each instance that has been created, before the run ends and with the handler of its kind. From the time
that the destruction of an instance is started on, no task uses the resource and no node is started that
does. -/
theorem Graph.resource_lifecycle_of_build {defs : Definitions} {registry : Registry} {g : Graph}
    (hb : Graph.build defs registry = .ok g) (hp : defs.PlainNames) (settings : RunSettings)
    (hset : settings.registry = registry) (stopRequested : Bool) {h : Run.Trace} {r : Run}
    (hl : Run.Leads (Run.ofGraph settings g stopRequested) h r) :
    Run.ResourceLifecycle g settings stopRequested h r := by
  subst hset
  have hg := Graph.sound_of_build hb hp
  have hr := Graph.registered_of_build hb
  obtain ⟨E, ha⟩ := hl.accounted hg hr
  constructor
  case made => exact fun q e q' hq hs => hl.callsMade hg hr hq hs
  case create_once => exact ha.called.nodup
  case created_once => exact ha.ledger.filled_nodup
  case destroy_once => exact ha.destroy_once
  case destroy_subset => exact ha.destroy_subset
  case destroy_all => exact ha.destroy_all
  case handler =>
    intro d hd handle hq
    rw [← hl.settings_eq hg]
    exact ha.ledger.handlers hd hq
  case unused =>
    intro d hd h' r' hl' t ht
    obtain ⟨⟨E', -, hc⟩, hback, -⟩ := ha.reached.not_uses hg ha.covered (ha.ledger.destroys d hd) hl'
    exact Run.not_uses_of_covered hc hback ht
  case unstarted =>
    intro d hd h' r' hl' q id hq
    obtain ⟨-, -, hnot⟩ := ha.reached.not_uses hg ha.covered (ha.ledger.destroys d hd) hl'
    exact hnot _ hq
  case spares => exact fun q id hq => hl.spares hg hr _ hq

/-- The resource of the two instances is destroyed by the end of the run. -/
theorem Relay.destroys : ∃ h, Run.Leads (Run.ofGraph settings graph false) h ended ∧
    (Run.destroyCalls h).Perm (Run.creations h) := by
  obtain ⟨h, hl⟩ := Run.leads_runFor none 60 (Run.ofGraph settings graph false)
  have hb : Graph.build definitions registry = .ok graph := rfl
  have hlives := Graph.resource_lifecycle_of_build hb plainNames settings rfl false hl
  have hended : ended.phase = .ended := by decide +kernel
  exact ⟨h, hl, hlives.destroy_all hended⟩

end Workplan
