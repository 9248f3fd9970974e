import Workplan.Proofs.Run.Ledger

/-! Calls: which handlers of resources an event calls, and what it writes into the ledger of instances. The
calls are those that the event makes, as the world behind it shows (`Run.CallsMade`). -/
namespace Workplan
set_option autoImplicit false

namespace Run

/-- The resource whose create handler an event calls. -/
def createCall? (r : Run) : Event → Option String
  | .beginTask n =>
    match r.task? n with
    | some ⟨_, _, _, .queued scope (.create name kind arguments)⟩ =>
      match Work.input kind.shape.inputs arguments scope with
      | .ok _ => if r.slots.needsCreation name then some name else none
      | .error _ => none
    | _ => none
  | _ => none

/-- The instance that a create handler answers when an event lets it end. -/
def creation? (r : Run) : Event → Option (String × ResourceInstance)
  | .finishTask n =>
    match r.task? n with
    | some ⟨_, _, _, .waiting _ (.create name act)⟩ =>
      match (act r.world).1 with
      | .value i => some (name, i)
      | _ => none
    | _ => none
  | _ => none

/-- The instance that an event calls a destroy handler with. -/
def destroyCall? (r : Run) : Event → Option (String × ResourceInstance)
  | .beginDestroy n =>
    match r.destroy? n with
    | some ⟨_, resource, _, inst, .queued _⟩ => some (resource, inst)
    | _ => none
  | _ => none

/-- The calls of create handlers, by the names of the resources. -/
def createCalls (h : Trace) : List String := h.filterMap fun e => e.1.createCall? e.2

/-- The creations that have succeeded. -/
def creations (h : Trace) : List (String × ResourceInstance) :=
  h.filterMap fun e => e.1.creation? e.2

/-- The calls of destroy handlers. -/
def destroyCalls (h : Trace) : List (String × ResourceInstance) :=
  h.filterMap fun e => e.1.destroyCall? e.2

/-- The calls of handlers that an event is counted for are those that it makes: what a handler leaves of
the world is what the run goes on with. -/
structure CallsMade (g : Graph) (registry : Registry) (r : Run) (e : Event) (r' : Run) : Prop where
  create : ∀ {name}, r.createCall? e = some name → ∃ kindName kind c, g.Declares name kindName ∧
    registry.kind? kindName = some kind ∧ c.node = NodeId.resource name ∧
    r'.world = (kind.create c r.world).2
  /-- A creation that begins without being counted calls nothing. -/
  create_none : ∀ {t scope name kind arguments}, t ∈ r.tasks → e = .beginTask t.number →
    t.phase = .queued scope (.create name kind arguments) → r.createCall? e = none →
      r'.world = r.world
  creation_iff : ∀ {name i}, r.creation? e = some (name, i) ↔ ∃ t ∈ r.tasks,
    e = .finishTask t.number ∧ ∃ wake act, t.phase = .waiting wake (.create name act) ∧
      act r.world = (.value i, r'.world)
  destroy : ∀ {name i}, r.destroyCall? e = some (name, i) → ∃ kindName kind,
    g.Declares name kindName ∧ registry.kind? kindName = some kind ∧
      r'.world = (kind.destroy i r.world).2
  /-- No destruction begins without being counted. -/
  destroy_some : ∀ {n}, e = .beginDestroy n → ∃ c, r.destroyCall? e = some c

section Look
variable {r : Run}

theorem task_of_createCall? {e : Event} {name : String} (h : r.createCall? e = some name) :
    ∃ t ∈ r.tasks, e = .beginTask t.number ∧
      ∃ scope kind arguments, t.phase = .queued scope (.create name kind arguments) := by
  cases e with
  | beginTask n =>
    rw [createCall?] at h
    split at h
    next number node deadline scope name' kind arguments hf =>
      obtain ⟨ht, rfl⟩ := mem_of_task? hf
      split at h
      next input hi =>
        split at h
        next hneeds =>
          cases h
          exact ⟨_, ht, rfl, scope, kind, arguments, rfl⟩
        next => cases h
      next => cases h
    next => cases h
  | _ => cases h

theorem task_of_creation? {e : Event} {name : String} {i : ResourceInstance}
    (h : r.creation? e = some (name, i)) : ∃ t ∈ r.tasks, e = .finishTask t.number ∧
      ∃ wake act, t.phase = .waiting wake (.create name act) ∧ (act r.world).1 = .value i := by
  cases e with
  | finishTask n =>
    rw [creation?] at h
    split at h
    next number node deadline wake name' act hf =>
      obtain ⟨ht, rfl⟩ := mem_of_task? hf
      split at h
      next i' hi =>
        cases h
        exact ⟨_, ht, rfl, wake, act, rfl, hi⟩
      next => cases h
    next => cases h
  | _ => cases h

theorem creation?_of_mem (hn : r.Numbered) {t : Task} (ht : t ∈ r.tasks) {wake : Nat}
    {name : String} {act : World → Answer ResourceInstance × World}
    (hw : t.phase = .waiting wake (.create name act)) :
    r.creation? (.finishTask t.number) = match (act r.world).1 with
      | .value i => some (name, i)
      | _ => none := by
  rw [creation?, task?_of_mem hn ht]
  obtain ⟨number, node, deadline, phase⟩ := t
  cases hw
  rfl

theorem destroyCall?_of_mem (hn : r.Numbered) {d : DestroyTask} (hd : d ∈ r.destroys)
    {handle : Handler ResourceInstance Unit} (hq : d.phase = .queued handle) :
    r.destroyCall? (.beginDestroy d.number) = some (d.resource, d.inst) := by
  rw [destroyCall?, destroy?_of_mem hn hd]
  obtain ⟨number, resource, owner, inst, phase⟩ := d
  cases hq
  rfl

end Look

/-! ## Entries of the ledger -/

namespace Ledger
variable {created called : List (String × ResourceInstance)} {r : Run} {g : Graph} {E : Expansions}

theorem setTaskPhase (h : r.Ledger g created called) (n : Nat) (w : World) (phase : TaskPhase)
    (hphase : ∀ wake name act, phase = .waiting wake (.create name act) →
      ∃ slot, r.slots.get? name = some slot ∧ slot.created = none) :
    ({ r with world := w }.setTaskPhase n phase).Ledger g created called := by
  refine h.frame rfl (Slots.Alike.refl _) rfl (fun d hd => hd) (fun hp => hp)
    fun t' ht' wake name act hw => ?_
  obtain ⟨t, ht, ⟨-, rfl⟩ | ⟨-, rfl⟩⟩ := mem_setTaskPhase (r := { r with world := w }) ht'
  · exact .inl ht
  · exact .inr (hphase wake name act hw)

theorem fill (h : r.Ledger g created called) (hw : r.phase = .working) {name : String} {slot : Slot}
    (hs : r.slots.get? name = some slot) (hc : slot.created = none) (i : ResourceInstance)
    (hother : ∀ t ∈ r.tasks, ∀ wake act, t.phase ≠ .waiting wake (.create name act)) :
    ({ r with slots := r.slots.insert name { slot with created := some i } } : Run).Ledger g
      (created ++ [(name, i)]) called := by
  have hget : ∀ {x s}, (r.slots.insert name { slot with created := some i }).get? x = some s ↔
      (x = name ∧ s = { slot with created := some i }) ∨ (x ≠ name ∧ r.slots.get? x = some s) := by
    intro x s
    rw [SortedMap.get?_insert]
    by_cases hx : x = name
    · simp [hx, eq_comm]
    · simp [hx]
  -- Every other slot is as before, and this one had nothing in it that could have been handed back.
  have hh := h.unfilled hs hc
  have hne : ∀ {x s j}, r.slots.get? x = some s → s.created = some j → x ≠ name := by
    rintro x s j hx hj rfl
    cases hs.symm.trans hx
    cases hc.symm.trans hj
  constructor
  case kinds =>
    intro x s hx
    rcases hget.1 hx with ⟨rfl, rfl⟩ | ⟨-, hx⟩
    · have hk := h.kinds hs
      exact hk
    · exact h.kinds hx
  case filled =>
    intro x j
    rw [List.mem_append, List.mem_singleton, h.filled]
    constructor
    · rintro (⟨s, hx, hj⟩ | he)
      · exact ⟨s, hget.2 (.inr ⟨hne hx hj, hx⟩), hj⟩
      · cases he
        exact ⟨_, hget.2 (.inl ⟨rfl, rfl⟩), rfl⟩
    · rintro ⟨s, hx, hj⟩
      rcases hget.1 hx with ⟨rfl, rfl⟩ | ⟨-, hx⟩
      · cases hj
        exact .inr rfl
      · exact .inl ⟨s, hx, hj⟩
  case filled_nodup =>
    rw [List.map_append]
    refine List.nodup_append.2 ⟨h.filled_nodup, List.nodup_singleton _, ?_⟩
    rintro a ha b hb rfl
    obtain ⟨⟨x, j⟩, hm, rfl⟩ := List.mem_map.1 ha
    obtain ⟨s, hx, hj⟩ := h.filled.1 hm
    exact hne hx hj (List.mem_singleton.1 hb)
  case handed =>
    intro x j
    have hold : (x, j) ∈ called ++ r.queuedInstances ↔ _ := h.handed
    refine hold.trans ?_
    constructor
    · rintro ⟨s, hx, hj, hb⟩
      exact ⟨s, hget.2 (.inr ⟨hne hx hj, hx⟩), hj, hb⟩
    · rintro ⟨s, hx, hj, hb⟩
      rcases hget.1 hx with ⟨rfl, rfl⟩ | ⟨-, hx⟩
      · have hb' : slot.handedBack = true := hb
        rw [hh] at hb'
        cases hb'
      · exact ⟨s, hx, hj, hb⟩
  case handed_nodup => exact h.handed_nodup
  case unfilled =>
    intro x s hx hn
    rcases hget.1 hx with ⟨rfl, rfl⟩ | ⟨-, hx⟩
    · cases hn
    · exact h.unfilled hx hn
  case destroys =>
    intro d hd
    obtain ⟨s, hx, hb⟩ := h.destroys d hd
    refine ⟨s, hget.2 (.inr ⟨?_, hx⟩), hb⟩
    intro he
    rw [he] at hx
    cases hs.symm.trans hx
    rw [hh] at hb
    cases hb
  case handlers => exact h.handlers
  case drained => exact fun hp => absurd hw hp
  case creating =>
    intro t wake x act ht hp
    obtain ⟨s, hx, hn⟩ := h.creating ht hp
    refine ⟨s, hget.2 (.inr ⟨?_, hx⟩), hn⟩
    rintro rfl
    exact hother t ht wake act hp

theorem setDestroyPhase (h : r.Ledger g created called) (hn : r.Numbered) {d : DestroyTask}
    (hd : d ∈ r.destroys) (w : World) {phase : DestroyPhase} (hp : ∀ handle, phase ≠ .queued handle) :
    ({ r with world := w }.setDestroyPhase d.number phase).Ledger g created
      (called ++ (queuedInstance d).toList) := by
  obtain ⟨l₁, l₂, hsplit, hmap, -⟩ := Numbering.exists_split hn.destroys hd
  have hdestroys : ({ r with world := w }.setDestroyPhase d.number phase).destroys =
      l₁ ++ { d with phase := phase } :: l₂ := hmap fun t => { t with phase := phase }
  have hmem : ∀ x ∈ ({ r with world := w }.setDestroyPhase d.number phase).destroys,
      x = { d with phase := phase } ∨ x ∈ r.destroys := by
    intro x hx
    rw [hdestroys] at hx
    rw [hsplit]
    rcases List.mem_append.1 hx with hx | hx
    · exact .inr (List.mem_append_left _ hx)
    · rcases List.mem_cons.1 hx with rfl | hx
      · exact .inl rfl
      · exact .inr (List.mem_append_right _ (List.mem_cons_of_mem d hx))
  have hnew : queuedInstance { d with phase := phase } = none := by
    cases phase with
    | queued handle => exact absurd rfl (hp handle)
    | waiting wake act => rfl
    | finished result time => rfl
  have hold : r.queuedInstances = l₁.filterMap queuedInstance ++
      ((queuedInstance d).toList ++ l₂.filterMap queuedInstance) := by
    rw [queuedInstances, hsplit, List.filterMap_append, List.filterMap_cons]
    cases queuedInstance d <;> rfl
  have hqueued : ({ r with world := w }.setDestroyPhase d.number phase).queuedInstances =
      l₁.filterMap queuedInstance ++ l₂.filterMap queuedInstance := by
    rw [queuedInstances, hdestroys, List.filterMap_append, List.filterMap_cons, hnew]
  -- The instance passes from the queue to those that handlers have been called with.
  have hperm : ((called ++ (queuedInstance d).toList) ++
      ({ r with world := w }.setDestroyPhase d.number phase).queuedInstances).Perm
      (called ++ r.queuedInstances) := by
    rw [hqueued, hold, List.append_assoc]
    refine List.Perm.append_left called ?_
    rw [← List.append_assoc, ← List.append_assoc]
    exact List.Perm.append_right _ List.perm_append_comm
  constructor
  case kinds => exact h.kinds
  case filled => exact h.filled
  case filled_nodup => exact h.filled_nodup
  case handed => exact hperm.mem_iff.trans h.handed
  case handed_nodup => exact (hperm.map Prod.fst).nodup_iff.2 h.handed_nodup
  case unfilled => exact h.unfilled
  case destroys =>
    intro x hx
    rcases hmem x hx with rfl | hx
    · have hback := h.destroys d hd
      exact hback
    · exact h.destroys x hx
  case handlers =>
    intro x handle hx hq
    rcases hmem x hx with rfl | hx
    · exact absurd hq (hp handle)
    · exact h.handlers hx hq
  case drained => exact h.drained
  case creating => exact h.creating

end Ledger

section Works
variable {created called : List (String × ResourceInstance)} {r r' : Run} {g : Graph}
variable {E : Expansions} {e : Event}

theorem node_of_creating (hg : g.Sound) (hl : Live g ⟨r, E, none, []⟩) {t : Task} (ht : t ∈ r.tasks)
    {name : String} (hw : (∃ wake act, t.phase = .waiting wake (.create name act)) ∨
      ∃ scope kind arguments, t.phase = .queued scope (.create name kind arguments)) :
    t.node = NodeId.resource name := by
  obtain ⟨n, hn, hf⟩ := hl.fits ht
  rcases hw with ⟨wake, act, hw⟩ | ⟨scope, kind, arguments, hw⟩
  · rw [hw] at hf
    obtain ⟨kindName, arguments, hk⟩ := hf.of_creating
    exact hl.sound.unfolds.eq_resource hn hg hk
  · rw [hw] at hf
    obtain ⟨kindName, hk, -⟩ := hf.of_create
    exact hl.sound.unfolds.eq_resource hn hg hk

theorem eq_of_node (hl : Live g ⟨r, E, none, []⟩) {t u : Task} (ht : t ∈ r.tasks)
    (hu : u ∈ r.tasks) (h : t.node = u.node) : t = u :=
  List.inj_on_of_nodup_map hl.tasks_nodup ht hu h

theorem TaskMoves.destroyCall? {t : Task} {phase : TaskPhase} {w : World} {slots : Slots}
    (h : TaskMoves r t e phase w slots) : r.destroyCall? e = none := by
  cases h <;> rfl

theorem eq_of_phaseAfterCall {α : Type} {w : World} {wake : Nat} {act : PendingAct}
    {pending : (World → Answer α × World) → PendingAct} {reaction : Reaction α}
    (h : r.phaseAfterCall w pending reaction = .waiting wake act) : ∃ act', act = pending act' := by
  rcases phaseAfterCall_cases r w pending reaction with ⟨m, he⟩ | he | ⟨wake', act', he⟩
  · cases he.symm.trans h
  · cases he.symm.trans h
  · cases he.symm.trans h
    exact ⟨act', rfl⟩

/-- Who waits for a creation has found that the slot needs one. -/
theorem TaskMoves.needsCreation {t : Task} {phase : TaskPhase} {w : World} {slots : Slots}
    (h : TaskMoves r t e phase w slots) {wake : Nat} {name : String}
    {act : World → Answer ResourceInstance × World} (hp : phase = .waiting wake (.create name act)) :
    r.slots.needsCreation name = true := by
  cases h with
  | callStep hq hi hc =>
    obtain ⟨act', he⟩ := eq_of_phaseAfterCall hp
    cases he
  | callCreate hq hi hn hc =>
    obtain ⟨act', he⟩ := eq_of_phaseAfterCall hp
    cases he
    exact hn
  | _ => cases hp

theorem ledger_create (hg : g.Sound) (h : Reached g E r) (hb : r.Ledger g created called) {t : Task}
    (ht : t ∈ r.tasks) {wake : Nat} {name : String} {act : World → Answer ResourceInstance × World}
    {answer : Answer ResourceInstance} {w : World}
    (hw : t.phase = .waiting wake (.create name act)) (hc : act r.world = (answer, w)) :
    ({ r with
        world := w
        slots := (r.slots.acquire name (resultOfCreation answer)).2 }.setTaskPhase t.number
      (.finished ((r.slots.acquire name (resultOfCreation answer)).1.map fun _ => .created)
        w.now)).Ledger g (created ++ (r.creation? (.finishTask t.number)).toList) called := by
  obtain ⟨slot, hs, hnone⟩ := hb.creating ht hw
  have hset := hb.setTaskPhase t.number w
    (.finished ((r.slots.acquire name (resultOfCreation answer)).1.map fun _ => .created) w.now)
    fun wake name act he => by cases he
  rw [creation?_of_mem h.numbered ht hw, hc, Slots.acquire_eq hs hnone]
  rw [Slots.acquire_eq hs hnone] at hset
  cases answer with
  | value i =>
    refine hset.fill (h.working ht) hs hnone i fun u hu wake' act' hu' => ?_
    obtain ⟨u₀, hu₀, ⟨hne, rfl⟩ | ⟨-, rfl⟩⟩ := mem_setTaskPhase (r := { r with world := w }) hu
    · have hut : u = t := eq_of_node h.live hu₀ ht
        ((node_of_creating hg h.live hu₀ (.inl ⟨_, _, hu'⟩)).trans
          (node_of_creating hg h.live ht (.inl ⟨_, _, hw⟩)).symm)
      exact hne (by rw [hut])
    · cases hu'
  | error m =>
    rw [Option.toList_none, List.append_nil]
    exact hset
  | panic m =>
    rw [Option.toList_none, List.append_nil]
    exact hset

theorem Works.ledger (hg : g.Sound) (h : Reached g E r) (hw : Works r e r')
    (hb : r.Ledger g created called) : r'.Ledger g (created ++ (r.creation? e).toList)
      (called ++ (r.destroyCall? e).toList) := by
  cases hw with
  | @task t e phase w slots ht hm =>
    rw [hm.destroyCall?, Option.toList_none, List.append_nil]
    have hset : ({ r with world := w }.setTaskPhase t.number phase).Ledger g (created ++ []) called := by
      rw [List.append_nil]
      exact hb.setTaskPhase t.number w phase fun wake name act he =>
        Slots.needsCreation_iff.1 (hm.needsCreation he)
    cases hm with
    | answer hw hc =>
      have hnone : r.creation? (.finishTask t.number) = none := by
        rw [creation?, task?_of_mem h.numbered ht]
        obtain ⟨number, node, deadline, phase⟩ := t
        cases hw
        rfl
      rw [hnone]
      exact hset
    | create hw hc => exact ledger_create hg h hb ht hw hc
    | _ => exact hset
  | @callDestroy d handle reaction w hd hq hc =>
    have hphase : ∀ handle, destroyPhaseAfterCall w reaction ≠ .queued handle := by
      intro handle
      cases reaction <;> simp [destroyPhaseAfterCall]
    have hset := hb.setDestroyPhase h.numbered hd w hphase
    rw [destroyCall?_of_mem h.numbered hd hq]
    rw [queuedInstance, hq] at hset
    simpa only [creation?, Option.toList_none, List.append_nil] using hset
  | @answerDestroy d wake act answer w hd hw hc =>
    have hphase : ∀ handle, DestroyPhase.finished (resultOfDestroy answer) w.now ≠ .queued handle :=
      fun handle he => by cases he
    have hset := hb.setDestroyPhase h.numbered hd w hphase
    rw [queuedInstance, hw] at hset
    simpa only [creation?, Run.destroyCall?, Option.toList_none, List.append_nil] using hset
  | requestStop =>
    simp only [creation?, Run.destroyCall?, Option.toList_none, List.append_nil]
    exact hb.congr rfl rfl rfl (fun hp => hp) fun t ht _ _ _ _ => ht
  | advance ht =>
    simp only [creation?, Run.destroyCall?, Option.toList_none, List.append_nil]
    exact hb.congr rfl rfl rfl (fun hp => hp) fun t ht _ _ _ _ => ht

end Works

/-! ## The calls are made -/

section Made
variable {created called : List (String × ResourceInstance)} {r r' : Run} {g : Graph}
variable {E : Expansions} {e : Event} {n : Nat}

theorem declares_of_creating (hg : g.Sound) (hl : Live g ⟨r, E, none, []⟩) {t : Task}
    (ht : t ∈ r.tasks) {scope : Scope} {name : String} {kind : ResourceKind}
    {arguments : SortedMap String Expression}
    (hq : t.phase = .queued scope (.create name kind arguments)) : ∃ kindName,
      g.Declares name kindName ∧ r.settings.registry.kind? kindName = some kind := by
  have hnode := node_of_creating hg hl ht (.inr ⟨scope, kind, arguments, hq⟩)
  obtain ⟨n, hn, hf⟩ := hl.fits ht
  rw [hq] at hf
  obtain ⟨kindName, hk, hkind⟩ := hf.of_create
  obtain ⟨bs, hbp, -⟩ := hl.sound.unfolds.known hn
  obtain ⟨m, hm, hmk, -⟩ := hbp.exists_declared (.inr (by rw [hk]; rfl))
  exact ⟨kindName, ⟨m, arguments, hnode ▸ hm, hmk.trans hk⟩, hkind⟩

/-- A creation that begins is counted and calls the handler of its kind, or does neither. -/
theorem world_of_creation (hn : r.Numbered) {t : Task} (ht : t ∈ r.tasks) {scope : Scope} {name : String}
    {kind : ResourceKind} {arguments : SortedMap String Expression}
    (hq : t.phase = .queued scope (.create name kind arguments))
    (hs : r.step (.beginTask t.number) = some r') :
    (r.createCall? (.beginTask t.number) = some name ∧
      ∃ c, c.node = t.node ∧ r'.world = (kind.create c r.world).2) ∨
    r.createCall? (.beginTask t.number) = none ∧ r'.world = r.world := by
  have hf := task?_of_mem hn ht
  obtain ⟨number, node, deadline, phase⟩ := t
  cases hq
  rw [Run.step, hf] at hs
  cases hs
  rw [createCall?, hf, beginWork, beginCreate]
  dsimp only
  cases Work.input kind.shape.inputs arguments scope with
  | error e => exact .inr ⟨rfl, rfl⟩
  | ok input =>
    dsimp only
    split
    next =>
      exact .inl ⟨rfl, ⟨node, .empty, input⟩, rfl, congrArg Run.world (afterCall_eq r _ number _ _)⟩
    next =>
      right
      split
      next => exact ⟨rfl, rfl⟩
      next => exact ⟨rfl, rfl⟩

/-- The end of a creation goes on with what the handler leaves. -/
theorem world_of_created (hn : r.Numbered) {t : Task} (ht : t ∈ r.tasks) {wake : Nat} {name : String}
    {act : World → Answer ResourceInstance × World} (hw : t.phase = .waiting wake (.create name act))
    (hs : r.step (.finishTask t.number) = some r') : r'.world = (act r.world).2 := by
  have hf := task?_of_mem hn ht
  obtain ⟨number, node, deadline, phase⟩ := t
  cases hw
  rw [Run.step, hf] at hs
  cases hs
  rfl

theorem world_callDestroy (r : Run) (n : Nat) (i : ResourceInstance)
    (handle : Handler ResourceInstance Unit) :
    (r.callDestroy n i handle).world = (handle i r.world).2 := by
  rw [callDestroy]
  cases hr : (handle i r.world).1 with
  | panic m =>
    simp only [hr]
    rfl
  | wait ms act =>
    simp only [hr]
    rfl

theorem Reached.callsMade (hg : g.Sound) (h : Reached g E r) (hb : r.Ledger g created called)
    (hs : r.step e = some r') : CallsMade g r.settings.registry r e r' := by
  constructor
  case create =>
    intro name hc
    obtain ⟨t, ht, rfl, scope, kind, arguments, hq⟩ := task_of_createCall? hc
    obtain ⟨kindName, hd, hk⟩ := declares_of_creating hg h.live ht hq
    have hnode := node_of_creating hg h.live ht (.inr ⟨scope, kind, arguments, hq⟩)
    rcases world_of_creation h.numbered ht hq hs with ⟨-, c, hc', hw⟩ | ⟨hc', -⟩
    · exact ⟨kindName, kind, c, hd, hk, hc'.trans hnode, hw⟩
    · cases hc'.symm.trans hc
  case create_none =>
    intro t scope name kind arguments ht he hq hc
    subst he
    rcases world_of_creation h.numbered ht hq hs with ⟨hc', -⟩ | ⟨-, hw⟩
    · cases hc'.symm.trans hc
    · exact hw
  case creation_iff =>
    intro name i
    constructor
    · intro hc
      obtain ⟨t, ht, rfl, wake, act, hw, hi⟩ := task_of_creation? hc
      exact ⟨t, ht, rfl, wake, act, hw, Prod.ext hi (world_of_created h.numbered ht hw hs).symm⟩
    · rintro ⟨t, ht, rfl, wake, act, hw, hact⟩
      rw [creation?_of_mem h.numbered ht hw, hact]
  case destroy =>
    intro name i hc
    cases e with
    | beginDestroy n =>
      obtain ⟨resource, owner, inst, handle, hf, rfl⟩ := step_beginDestroy hs
      rw [destroyCall?, hf] at hc
      cases hc
      obtain ⟨kindName, kind, hd, hk, rfl⟩ := hb.handlers (mem_of_destroy? hf).1 rfl
      exact ⟨kindName, kind, hd, hk, world_callDestroy r n i kind.destroy⟩
    | _ => cases hc
  case destroy_some =>
    intro n he
    subst he
    obtain ⟨resource, owner, inst, handle, hf, rfl⟩ := step_beginDestroy hs
    exact ⟨(resource, inst), by rw [destroyCall?, hf]⟩

end Made
end Run

end Workplan
