import Workplan.Proofs.Run.Behaviour
import Workplan.Proofs.Run.Deferral

/-! Mirroring: two runs whose handlers answer alike and whose destructions all report, at different times,
with different instances and with different ends of the destructions. What the runs do between two waits
does not depend on these, so that one run stays the mirror image of the other. -/
namespace Workplan
open Outcome
set_option autoImplicit false

/-! ## Slots without instances -/

/-- The slot with a blank in place of its instance. -/
def Slot.outline (s : Slot) : Slot := { s with created := s.created.map fun _ => ⟨0⟩ }

/-- What is handed back with a blank in place of the instance. -/
def Released.outline (x : Released) : Released := { x with inst := ⟨0⟩ }

namespace Slots
variable {s s' : Slots} {name : String}

def outline (s : Slots) : Slots := s.mapValues fun _ slot => slot.outline

theorem get?_outline (s : Slots) (name : String) :
    s.outline.get? name = (s.get? name).map Slot.outline := SortedMap.get?_mapValues _ _ _

theorem outline_handBackWith {f : String → Slot → Option Released × Slot}
    (hf : ∀ name slot, f name slot.outline = ((f name slot).1.map Released.outline,
      (f name slot).2.outline)) (s : Slots) :
    s.outline.handBackWith f = ((s.handBackWith f).1.map Released.outline,
      (s.handBackWith f).2.outline) := by
  refine Prod.ext ?_ (SortedMap.ext_get? fun name => ?_)
  · rw [handBackWith, handBackWith, List.map_filterMap]
    change (s.toList.map _).filterMap _ = _
    rw [List.filterMap_map]
    refine List.filterMap_congr fun e _ => ?_
    exact congrArg Prod.fst (hf e.1 e.2)
  · rw [get?_handBackWith, get?_outline, get?_outline, get?_handBackWith, Option.map_map,
      Option.map_map]
    cases s.get? name with
    | none => rfl
    | some slot => exact congrArg some (congrArg Prod.snd (hf name slot))

theorem outline_handBack (name : String) (slot : Slot) : slot.outline.handBack name =
    (slot.handBack name).map fun x => (x.1.outline, x.2.outline) := by
  rw [Slot.handBack, Slot.handBack, Slot.live?, Slot.live?]
  cases hb : slot.handedBack <;> cases hc : slot.created <;> simp [Slot.outline, hb, hc, Released.outline]

theorem outline_release (s : Slots) (consumer : NodeId) : s.outline.release consumer =
    ((s.release consumer).1.map Released.outline, (s.release consumer).2.outline) := by
  refine outline_handBackWith (fun name slot => ?_) s
  obtain ⟨kind, created, consumers, handedBack⟩ := slot
  have hback := outline_handBack name ⟨kind, created, consumers.erase consumer, handedBack⟩
  simp only [Slot.outline] at hback
  by_cases hc : consumer ∈ consumers ∧ (consumers.erase consumer).isEmpty = true
  · simp only [Slot.release, Slot.outline, hc, and_self, ↓reduceIte]
    rw [hback]
    cases Slot.handBack name ⟨kind, created, consumers.erase consumer, handedBack⟩ <;> rfl
  · simp only [Slot.release, Slot.outline, hc, ↓reduceIte]
    rfl

theorem outline_drain (s : Slots) :
    s.outline.drain = (s.drain.1.map Released.outline, s.drain.2.outline) := by
  refine outline_handBackWith (fun name slot => ?_) s
  simp only [outline_handBack]
  cases slot.handBack name <;> rfl

theorem outline_addConsumers (s : Slots) (name : String) (consumers : List NodeId) :
    (s.addConsumers name consumers).outline = s.outline.addConsumers name consumers := by
  refine SortedMap.ext_get? fun x => ?_
  rw [get?_outline, get?_addConsumers, get?_addConsumers, get?_outline]
  split
  next => rw [Option.map_map, Option.map_map]; rfl
  next => rfl

theorem outline_foldl_addConsumers (uses : List (String × NodeId)) (s : Slots) :
    (uses.foldl (fun s e => s.addConsumers e.1 [e.2]) s).outline =
      uses.foldl (fun s e => s.addConsumers e.1 [e.2]) s.outline := by
  induction uses generalizing s with
  | nil => rfl
  | cons e uses ih => rw [List.foldl_cons, List.foldl_cons, ih, outline_addConsumers]

theorem outline_insert (s : Slots) (name : String) (slot : Slot) :
    outline (s.insert name slot) = s.outline.insert name slot.outline := by
  refine SortedMap.ext_get? fun x => ?_
  rw [get?_outline, SortedMap.get?_insert, SortedMap.get?_insert, get?_outline]
  split <;> rfl

theorem needsCreation_outline (s : Slots) (name : String) :
    s.outline.needsCreation name = s.needsCreation name := by
  rw [needsCreation, needsCreation, get?_outline]
  cases s.get? name with
  | none => rfl
  | some slot => exact Option.isNone_map

theorem contains_outline (s : Slots) (name : String) :
    SortedMap.contains s.outline name = SortedMap.contains s name := by
  rw [SortedMap.contains, SortedMap.contains, get?_outline, Option.isSome_map]

theorem isSome_instance?_outline (s : Slots) (name : String) :
    (s.outline.instance? name).isSome = (s.instance? name).isSome := by
  rw [instance?, instance?, get?_outline]
  cases s.get? name with
  | none => rfl
  | some slot =>
    change slot.outline.live?.isSome = slot.live?.isSome
    rw [Slot.live?, Slot.live?]
    cases hb : slot.handedBack <;> simp [Slot.outline, hb]

theorem outline_acquire (s : Slots) (name : String) (creation : Except RunError ResourceInstance) :
    s.outline.acquire name (creation.map fun _ => ⟨0⟩) =
      ((s.acquire name creation).1.map fun _ => ⟨0⟩, (s.acquire name creation).2.outline) := by
  rw [acquire, acquire, get?_outline]
  cases s.get? name with
  | none => rfl
  | some slot =>
    obtain ⟨kind, created, consumers, handedBack⟩ := slot
    cases created with
    | some i => rfl
    | none =>
      cases creation with
      | error e => rfl
      | ok i => exact Prod.ext rfl (outline_insert s name ⟨kind, some i, consumers, handedBack⟩).symm

end Slots

/-! ## What mirrors what -/

/-- Registries with handlers for the same names that follow one behaviour. -/
structure Registry.Mirrors (b : Behaviour) (R R' : Registry) : Prop where
  left : R.Follows b
  right : R'.Follows b
  runners : ∀ name, (R.runner? name).isSome = (R'.runner? name).isSome
  kinds : ∀ name, (R.kind? name).isSome = (R'.kind? name).isSome

/-- The same work with handlers of the same name. -/
inductive Work.Mirrors (R R' : Registry) : Work → Work → Prop where
  | step {name : String} {k k' : Runner} (h : R.runner? name = some k) (h' : R'.runner? name = some k')
    (arguments : SortedMap String Expression) (resources resources' : SortedMap String ResourceInstance) :
    Mirrors R R' (.step k arguments resources) (.step k' arguments resources')
  | create {kind : String} {k k' : ResourceKind} (h : R.kind? kind = some k)
    (h' : R'.kind? kind = some k') (name : String) (arguments : SortedMap String Expression) :
    Mirrors R R' (.create name k arguments) (.create name k' arguments)
  | expand (replication : Replication) : Mirrors R R' (.expand replication) (.expand replication)

/-- Handlers that are going to answer alike. -/
inductive PendingAct.Mirrors : PendingAct → PendingAct → Prop where
  | answer {act act' : World → Answer Value × World} (h : ∀ w w', (act w).1 = (act' w').1) :
    Mirrors (.answer act) (.answer act')
  | create (name : String) {act act' : World → Answer ResourceInstance × World}
    (h : ∀ w w', (resultOfCreation (act w).1).map (fun _ => (⟨0⟩ : ResourceInstance)) =
      (resultOfCreation (act' w').1).map fun _ => ⟨0⟩) :
    Mirrors (.create name act) (.create name act')

inductive TaskPhase.Mirrors (R R' : Registry) : TaskPhase → TaskPhase → Prop where
  | queued (scope : Scope) {work work' : Work} (h : work.Mirrors R R' work') :
    Mirrors R R' (.queued scope work) (.queued scope work')
  | waiting (wake wake' : Nat) {act act' : PendingAct} (h : act.Mirrors act') :
    Mirrors R R' (.waiting wake act) (.waiting wake' act')
  | finished (result : WorkOutcome) (time time' : Nat) :
    Mirrors R R' (.finished result time) (.finished result time')

structure Task.Mirrors (R R' : Registry) (t t' : Task) : Prop where
  number : t.number = t'.number
  node : t.node = t'.node
  deadline : t.deadline.isSome = t'.deadline.isSome
  phase : t.phase.Mirrors R R' t'.phase

/-- Destructions that have come equally far and report in the end. -/
inductive DestroyPhase.Mirrors : DestroyPhase → DestroyPhase → Prop where
  | queued {handle handle' : Handler ResourceInstance Unit} (h : (DestroyPhase.queued handle).Reports)
    (h' : (DestroyPhase.queued handle').Reports) : Mirrors (.queued handle) (.queued handle')
  | waiting (wake wake' : Nat) (act act' : World → Answer Unit × World) :
    Mirrors (.waiting wake act) (.waiting wake' act')
  | finished {result result' : DestroyResult} (h : result ≠ .lost) (h' : result' ≠ .lost)
    (time time' : Nat) : Mirrors (.finished result time) (.finished result' time')

structure DestroyTask.Mirrors (d d' : DestroyTask) : Prop where
  number : d.number = d'.number
  resource : d.resource = d'.resource
  owner : d.owner = d'.owner
  phase : d.phase.Mirrors d'.phase

/-- The timeline without times. -/
def Timeline.outline (t : Timeline) : Timeline := ⟨t.events.map fun e => { e with time := 0 }⟩

theorem Timeline.outline_add (t : Timeline) (id : NodeId) (kind : EventKind) (time : Int) :
    (t.add id kind time).outline = t.outline.add id kind 0 := by
  simp only [Timeline.add, Timeline.outline, List.map_append, List.map_cons, List.map_nil]

namespace Run

/-- What a run decides by, apart from its handlers, tasks and destructions. -/
def outline (r : Run) : Run :=
  { r with
    settings := ⟨.empty, r.settings.parallel, none⟩
    deadline := r.deadline.map fun _ => 0
    slots := r.slots.outline
    world := World.start
    timeline := r.timeline.outline
    tasks := []
    destroys := []
    destroyErrors := [] }

/-- One run is the mirror image of another. -/
structure Mirrors (R R' : Registry) (r r' : Run) : Prop where
  outline : r.outline = r'.outline
  tasks : List.Forall₂ (Task.Mirrors R R') r.tasks r'.tasks
  destroys : List.Forall₂ DestroyTask.Mirrors r.destroys r'.destroys
  registry : r.settings.registry = R
  registry' : r'.settings.registry = R'

namespace Mirrors
variable {b : Behaviour} {R R' : Registry} {r r' : Run} {id : NodeId} {ids ids' : List NodeId}

theorem plan (h : Mirrors R R' r r') : r.plan = r'.plan := (congrArg Run.plan h.outline :)

theorem slots (h : Mirrors R R' r r') : r.slots.outline = r'.slots.outline :=
  (congrArg Run.slots h.outline :)

theorem deferred (h : Mirrors R R' r r') : r.deferred = r'.deferred := (congrArg Run.deferred h.outline :)

theorem accepting (h : Mirrors R R' r r') : r.accepting = r'.accepting :=
  (congrArg Run.accepting h.outline :)

theorem stopRequested (h : Mirrors R R' r r') : r.stopRequested = r'.stopRequested :=
  (congrArg Run.stopRequested h.outline :)

theorem phase (h : Mirrors R R' r r') : r.phase = r'.phase := (congrArg Run.phase h.outline :)

theorem next (h : Mirrors R R' r r') : r.next = r'.next := (congrArg Run.next h.outline :)

theorem limit (h : Mirrors R R' r r') : r.settings.limit = r'.settings.limit :=
  (congrArg (fun c : Run => c.settings.limit) h.outline :)

theorem isEmpty_destroys (h : Mirrors R R' r r') : r.destroys.isEmpty = r'.destroys.isEmpty :=
  Pointwise.isEmpty_eq h.destroys

theorem isEmpty_tasks (h : Mirrors R R' r r') : r.tasks.isEmpty = r'.tasks.isEmpty :=
  Pointwise.isEmpty_eq h.tasks

/-- The same is done to both runs, and it does not look at what they differ in. -/
theorem map (h : Mirrors R R' r r') (f : Run → Run) (hf : ∀ r, (f r).outline = f r.outline ∧
    (f r).tasks = r.tasks ∧ (f r).destroys = r.destroys ∧ (f r).settings = r.settings) :
    Mirrors R R' (f r) (f r') := by
  obtain ⟨ho, ht, hd, hs⟩ := hf r
  obtain ⟨ho', ht', hd', hs'⟩ := hf r'
  refine ⟨?_, ?_, ?_, ?_, ?_⟩
  · rw [ho, ho', h.outline]
  · rw [ht, ht']
    exact h.tasks
  · rw [hd, hd']
    exact h.destroys
  · rw [hs]
    exact h.registry
  · rw [hs']
    exact h.registry'

theorem withSlots (h : Mirrors R R' r r') {s s' : Slots} (hs : s.outline = s'.outline) :
    Mirrors R R' { r with slots := s } { r' with slots := s' } where
  outline := (congrArg (fun c : Run => { c with slots := s.outline }) h.outline).trans
    (congrArg (fun x => { r'.outline with slots := x }) hs)
  tasks := h.tasks
  destroys := h.destroys
  registry := h.registry
  registry' := h.registry'

theorem withWorld (h : Mirrors R R' r r') (w w' : World) :
    Mirrors R R' { r with world := w } { r' with world := w' } :=
  ⟨h.outline, h.tasks, h.destroys, h.registry, h.registry'⟩

theorem note (h : Mirrors R R' r r') (id : NodeId) (kind : EventKind) (time time' : Nat) :
    Mirrors R R' (r.note id kind time) (r'.note id kind time') where
  outline := by
    have hnote : ∀ (r : Run) (time : Nat), (r.note id kind time).outline = r.outline.note id kind 0 :=
      fun r time => congrArg (fun x => { r.outline with timeline := x })
        (Timeline.outline_add r.timeline id kind time)
    rw [hnote, hnote, h.outline]
  tasks := h.tasks
  destroys := h.destroys
  registry := h.registry
  registry' := h.registry'

/-! ## Releasing -/

theorem spawnDestroy (hR : R.Mirrors b R') (h : Mirrors R R' r r') (owner : Option NodeId)
    {x x' : Released} (hx : x.outline = x'.outline) :
    Mirrors R R' (r.spawnDestroy owner x).1 (r'.spawnDestroy owner x').1 ∧
      (r.spawnDestroy owner x).2 = (r'.spawnDestroy owner x').2 := by
  have hname : x.name = x'.name := (congrArg Released.name hx :)
  have hkind : x.kind = x'.kind := (congrArg Released.kind hx :)
  simp only [Run.spawnDestroy, h.registry, h.registry', hkind]
  rcases Pointwise.cases_of_isSome (hR.kinds x'.kind) with ⟨hk, hk'⟩ | ⟨k, k', hk, hk'⟩
  · rw [hk, hk']
    exact ⟨⟨h.outline, h.tasks, h.destroys, h.registry, h.registry'⟩, rfl⟩
  · rw [hk, hk']
    refine ⟨⟨congrArg (fun c : Run => { c with next := c.next + 1 }) h.outline, h.tasks, ?_,
      h.registry, h.registry'⟩, rfl⟩
    refine List.rel_append h.destroys (.cons ⟨h.next, hname, rfl, ?_⟩ .nil)
    exact .queued (hR.left.destroy hk) (hR.right.destroy hk')

theorem spawnDestroys (hR : R.Mirrors b R') (h : Mirrors R R' r r') (owner : Option NodeId)
    {l l' : List Released} (hl : l.map Released.outline = l'.map Released.outline) :
    Mirrors R R' (Run.spawnDestroys owner r l).1 (Run.spawnDestroys owner r' l').1 ∧
      (Run.spawnDestroys owner r l).2 = (Run.spawnDestroys owner r' l').2 := by
  induction l generalizing l' r r' with
  | nil =>
    obtain rfl := List.map_eq_nil_iff.1 hl.symm
    exact ⟨h, rfl⟩
  | cons x l ih =>
    cases l' with
    | nil => cases hl
    | cons x' l' =>
      obtain ⟨hx, hl⟩ := List.cons.inj hl
      obtain ⟨hspawn, hone⟩ := h.spawnDestroy hR owner hx
      obtain ⟨hrest, hcount⟩ := ih hspawn hl
      refine ⟨hrest, ?_⟩
      simp only [Run.spawnDestroys, hone, hcount]

theorem release (hR : R.Mirrors b R') (h : Mirrors R R' r r') (id : NodeId) :
    Mirrors R R' (r.release id).1 (r'.release id).1 ∧ (r.release id).2 = (r'.release id).2 := by
  have hrelease := congrArg (fun s => Slots.release s id) h.slots
  simp only [Slots.outline_release] at hrelease
  obtain ⟨hl, hs⟩ := Prod.ext_iff.1 hrelease
  exact (h.withSlots hs).spawnDestroys hR (some id) hl

theorem recordSkipped (hR : R.Mirrors b R') (h : Mirrors R R' r r') (hids : ids = ids') :
    Mirrors R R' (r.recordSkipped ids) (r'.recordSkipped ids') := by
  subst hids
  induction ids generalizing r r' with
  | nil => exact h
  | cons id ids ih => exact ih ((h.note id .skipped r.now r'.now).release hR id).1

/-! ## Skipping -/

theorem skipPending (hR : R.Mirrors b R') (h : Mirrors R R' r r') (reason : String) :
    Mirrors R R' (r.skipPending reason).1 (r'.skipPending reason).1 ∧
      (r.skipPending reason).2 = (r'.skipPending reason).2 := by
  have hids : (r.plan.skipPending reason).2 = (r'.plan.skipPending reason).2 := by rw [h.plan]
  have hplan := h.map (fun r => { r with plan := (r.plan.skipPending reason).1 })
    fun _ => ⟨rfl, rfl, rfl, rfl⟩
  exact ⟨hplan.recordSkipped hR hids, hids⟩

theorem skipIdle (hR : R.Mirrors b R') (h : Mirrors R R' r r') :
    Mirrors R R' r.skipIdle r'.skipIdle := by
  have hids : r.plan.skipIdleResources.2 = r'.plan.skipIdleResources.2 := by rw [h.plan]
  have hplan := h.map (fun r => { r with plan := r.plan.skipIdleResources.1 })
    fun _ => ⟨rfl, rfl, rfl, rfl⟩
  exact hplan.recordSkipped hR hids

theorem skipUnlessAccepting (hR : R.Mirrors b R') (h : Mirrors R R' r r') :
    Mirrors R R' r.skipUnlessAccepting r'.skipUnlessAccepting := by
  rw [Run.skipUnlessAccepting, Run.skipUnlessAccepting, h.accepting]
  split
  next => exact h
  next => exact (h.skipPending hR _).1

/-! ## Ends -/

theorem settle (h : Mirrors R R' r r') (id : NodeId) (output : Option Value) :
    Mirrors R R' (r.settle id output) (r'.settle id output) :=
  h.map (fun r => r.settle id output) fun _ => ⟨rfl, rfl, rfl, rfl⟩

theorem succeed (hR : R.Mirrors b R') (h : Mirrors R R' r r') (id : NodeId) (output : Option Value)
    (time time' : Nat) : Mirrors R R' (r.succeed id output time) (r'.succeed id output time') := by
  obtain ⟨hrelease, hcount⟩ := (h.note id .succeeded time time').release hR id
  simp only [Run.succeed, hcount]
  split
  next => exact hrelease.settle id output
  next =>
    let waiting := ((r'.note id .succeeded time').release id).2
    exact hrelease.map (fun r => { r with deferred := r.deferred.insert id (waiting, output) })
      fun _ => ⟨rfl, rfl, rfl, rfl⟩

theorem blame (h : Mirrors R R' r r') (id : NodeId) (e : RunError) :
    Mirrors R R' (r.blame id e) (r'.blame id e) := by
  rw [Run.blame, Run.blame, h.accepting]
  by_cases ha : (!r'.accepting) = true
  · rw [if_pos ha, if_pos ha]
    exact h
  · rw [if_neg ha, if_neg ha]
    by_cases he : e = .cancelled
    · rw [if_pos he, if_pos he]
      exact h.map (fun r => { r with cancelled := true }) fun _ => ⟨rfl, rfl, rfl, rfl⟩
    · rw [if_neg he, if_neg he]
      exact h.map (fun r => { r with failure := some (id, e), stopRequested := true })
        fun _ => ⟨rfl, rfl, rfl, rfl⟩

theorem fail (hR : R.Mirrors b R') (h : Mirrors R R' r r') (id : NodeId) (e : RunError)
    (time time' : Nat) : Mirrors R R' (r.fail id e time) (r'.fail id e time') := by
  have hids : (r.plan.markFailed id e.message).2 = (r'.plan.markFailed id e.message).2 := by
    rw [h.plan]
  have hplan := (h.note id .failed time time').map
    (fun r => { r with plan := (r.plan.markFailed id e.message).1 }) fun _ => ⟨rfl, rfl, rfl, rfl⟩
  exact (((hplan.blame id e).recordSkipped hR hids).release hR id).1.skipUnlessAccepting hR

theorem addConsumers (h : Mirrors R R' r r') (children : List NodeId) :
    Mirrors R R' (r.addConsumers children) (r'.addConsumers children) := by
  refine h.withSlots ?_
  rw [Slots.outline_foldl_addConsumers, Slots.outline_foldl_addConsumers, h.slots, h.plan]

theorem expanded (hR : R.Mirrors b R') (h : Mirrors R R' r r') (id : NodeId) (vars : List LoopVars)
    (time time' : Nat) : Mirrors R R' (r.expanded id vars time) (r'.expanded id vars time') := by
  rw [Run.expanded, Run.expanded, ← h.plan]
  split
  next e he => exact h.fail hR id _ time time'
  next p children he =>
    have hplan := h.map (fun r => { r with plan := p }) fun _ => ⟨rfl, rfl, rfl, rfl⟩
    exact (((hplan.addConsumers children).succeed hR id none time time').skipIdle
      hR).skipUnlessAccepting hR

theorem complete (hR : R.Mirrors b R') (h : Mirrors R R' r r') (id : NodeId) (result : WorkOutcome)
    (time time' : Nat) : Mirrors R R' (r.complete id result time) (r'.complete id result time') := by
  cases result with
  | error e => exact h.fail hR id e time time'
  | ok w =>
    cases w with
    | output v => exact h.succeed hR id (some v) time time'
    | created => exact h.succeed hR id none time time'
    | expanded vars => exact h.expanded hR id vars time time'

theorem destroyDone (hR : R.Mirrors b R') (h : Mirrors R R' r r') (owner : NodeId) :
    Mirrors R R' (r.destroyDone owner) (r'.destroyDone owner) := by
  have hget : r'.deferred.get? owner = r.deferred.get? owner := by rw [h.deferred]
  rw [Run.destroyDone, Run.destroyDone, hget]
  cases r.deferred.get? owner with
  | none => exact h
  | some d =>
    obtain ⟨waiting, output⟩ := d
    by_cases hw : 1 < waiting
    · simp only [if_pos hw]
      exact h.map (fun r => { r with deferred := r.deferred.insert owner (waiting - 1, output) })
        fun _ => ⟨rfl, rfl, rfl, rfl⟩
    · simp only [if_neg hw]
      have hdef := h.map (fun r => { r with deferred := r.deferred.erase owner })
        fun _ => ⟨rfl, rfl, rfl, rfl⟩
      exact (hdef.settle owner output).skipIdle hR

theorem recordDestroy (hR : R.Mirrors b R') (h : Mirrors R R' r r') {d d' : DestroyTask}
    (hd : d.Mirrors d') {result result' : DestroyResult} (hres : result ≠ .lost)
    (hres' : result' ≠ .lost) (time time' : Nat) :
    Mirrors R R' (r.recordDestroy d result time) (r'.recordDestroy d' result' time') := by
  have hmark : ∀ es es', Mirrors R R' (r.markDestroyed d.resource es time)
      (r'.markDestroyed d'.resource es' time') := by
    intro es es'
    have hnote := h.note (NodeId.resource d'.resource) .destroyed time time'
    rw [hd.resource]
    exact ⟨hnote.outline, hnote.tasks, hnote.destroys, hnote.registry, hnote.registry'⟩
  obtain ⟨hlost, -⟩ | ⟨es, hcase⟩ := Run.recordDestroy_cases r d result time
  · exact absurd hlost hres
  obtain ⟨hlost', -⟩ | ⟨es', hcase'⟩ := Run.recordDestroy_cases r' d' result' time'
  · exact absurd hlost' hres'
  rcases hcase with ⟨ho, he⟩ | ⟨owner, ho, he⟩
  · rcases hcase' with ⟨-, he'⟩ | ⟨owner', ho', -⟩
    · rw [he, he']
      exact hmark es es'
    · cases (ho.symm.trans hd.owner).trans ho'
  · rcases hcase' with ⟨ho', -⟩ | ⟨owner', ho', he'⟩
    · cases (ho.symm.trans hd.owner).trans ho'
    · cases (ho.symm.trans hd.owner).trans ho'
      rw [he, he']
      exact (hmark es es').destroyDone hR owner

theorem settleDeferred (h : Mirrors R R' r r') : Mirrors R R' r.settleDeferred r'.settleDeferred := by
  have hfold : ∀ (l : List (NodeId × (Nat × Option Value))) {r r' : Run}, Mirrors R R' r r' →
      Mirrors R R' (l.foldl (fun r e => r.settle e.1 e.2.2) r)
        (l.foldl (fun r e => r.settle e.1 e.2.2) r') := by
    intro l
    induction l with
    | nil => exact fun h => h
    | cons e l ih => exact fun h => ih (h.settle e.1 e.2.2)
  rw [Run.settleDeferred, Run.settleDeferred, ← h.deferred]
  exact hfold _ (h.map (fun r => { r with deferred := .empty }) fun _ => ⟨rfl, rfl, rfl, rfl⟩)

/-! ## Turns -/

theorem dependencies {s s' : Slots} (hs : s.outline = s'.outline) (names : List String) :
    Both (fun _ _ => True) (Run.dependencies s names) (Run.dependencies s' names) := by
  induction names with
  | nil => exact .ok trivial
  | cons name names ih =>
    have hsome : (s.instance? name).isSome = (s'.instance? name).isSome := by
      rw [← Slots.isSome_instance?_outline, hs, Slots.isSome_instance?_outline]
    simp only [Run.dependencies]
    rcases Pointwise.cases_of_isSome hsome with ⟨hi, hi'⟩ | ⟨i, i', hi, hi'⟩
    · rw [hi, hi']
      exact .error _
    · rw [hi, hi']
      exact ih.bind fun _ _ _ => .ok trivial

theorem workOf (hR : R.Mirrors b R') {s s' : Slots} (hs : s.outline = s'.outline) (kind : NodeKind) :
    Both (Work.Mirrors R R') (Run.workOf R s kind) (Run.workOf R' s' kind) := by
  cases kind with
  | step inst =>
    simp only [Run.workOf]
    rcases Pointwise.cases_of_isSome (hR.runners inst.runner) with ⟨hk, hk'⟩ | ⟨k, k', hk, hk'⟩
    · rw [hk, hk']
      exact .error _
    · rw [hk, hk']
      exact (dependencies hs inst.uses).bind fun deps deps' _ =>
        .ok (.step hk hk' inst.arguments deps deps')
  | resource name kind arguments =>
    simp only [Run.workOf]
    rcases Pointwise.cases_of_isSome (hR.kinds kind) with ⟨hk, hk'⟩ | ⟨k, k', hk, hk'⟩
    · rw [hk, hk']
      exact .error _
    · rw [hk, hk']
      exact .ok (.create hk hk' name arguments)
  | expansion replication template => exact .ok (.expand replication)

theorem isSome_deadlineOf (h : Mirrors R R' r r') (kind : NodeKind) :
    (r.deadlineOf kind).isSome = (r'.deadlineOf kind).isSome := by
  have hdeadline : (r.deadline.map fun _ => 0) = r'.deadline.map fun _ => 0 :=
    (congrArg Run.deadline h.outline :)
  have hsome : r.deadline.isSome = r'.deadline.isSome := by
    rw [← Option.isSome_map, hdeadline, Option.isSome_map]
  cases kind with
  | step inst =>
    simp only [deadlineOf]
    cases inst.timeoutMs with
    | none => exact hsome
    | some ms => rfl
  | resource name kind arguments => exact hsome
  | expansion replication template => exact hsome

theorem prepare (hR : R.Mirrors b R') (h : Mirrors R R' r r') (id : NodeId) :
    Both (Task.Mirrors R R') (r.prepare id) (r'.prepare id) := by
  rw [Run.prepare, Run.prepare, ← h.plan, h.registry, h.registry']
  cases r.plan.node? id with
  | none => exact .error _
  | some n =>
    refine (Both.refl (r.plan.scopeFor n)).bind ?_
    rintro scope _ rfl
    refine (workOf hR h.slots n.kind).bind fun work work' hwork => .ok ?_
    exact ⟨h.next, rfl, h.isSome_deadlineOf n.kind, .queued scope hwork⟩

theorem start (hR : R.Mirrors b R') (h : Mirrors R R' r r') (id : NodeId) :
    Mirrors R R' (r.start id) (r'.start id) := by
  have hplan := h.map (fun r => { r with plan := r.plan.markRunning id }) fun _ => ⟨rfl, rfl, rfl, rfl⟩
  have hnote := hplan.note id .started r.now r'.now
  have hprepare := hnote.prepare hR id
  rw [Run.start, Run.start]
  revert hprepare
  generalize Run.prepare _ id = x
  generalize Run.prepare _ id = x'
  intro hprepare
  cases hprepare with
  | error e => exact hnote.fail hR id e _ _
  | ok ht =>
    exact ⟨congrArg (fun c : Run => { c with next := c.next + 1 }) hnote.outline,
      List.rel_append hnote.tasks (.cons ht .nil), hnote.destroys, hnote.registry, hnote.registry'⟩

theorem startAll (hR : R.Mirrors b R') (h : Mirrors R R' r r') (ids : List NodeId) :
    Mirrors R R' (r.startAll ids) (r'.startAll ids) := by
  induction ids generalizing r r' with
  | nil => exact h
  | cons id ids ih =>
    rw [Run.startAll, Run.startAll, h.accepting]
    split
    next => exact ih (h.start hR id)
    next => exact h

theorem schedule (hR : R.Mirrors b R') (h : Mirrors R R' r r') :
    Mirrors R R' r.schedule r'.schedule := by
  rw [Run.schedule, Run.schedule, h.accepting, h.plan, h.limit, h.tasks.length_eq]
  split
  next => exact h.startAll hR _
  next => exact h

theorem observe (hR : R.Mirrors b R') (h : Mirrors R R' r r') : Mirrors R R' r.observe r'.observe := by
  have hcond : (r.accepting && r.stopRequested) = (r'.accepting && r'.stopRequested) := by
    rw [h.accepting, h.stopRequested]
  rw [Run.observe, Run.observe, hcond]
  split
  next =>
    have hcancelled := h.map (fun r => { r with cancelled := true }) fun _ => ⟨rfl, rfl, rfl, rfl⟩
    exact (hcancelled.skipPending hR _).1
  next => exact h

theorem endIfQuiet (h : Mirrors R R' r r') : Mirrors R R' r.endIfQuiet r'.endIfQuiet := by
  rw [Run.endIfQuiet, Run.endIfQuiet, h.isEmpty_destroys]
  split
  next => exact h.map (fun r => { r with phase := .ended }) fun _ => ⟨rfl, rfl, rfl, rfl⟩
  next => exact h

theorem unstalled (hR : R.Mirrors b R') (h : Mirrors R R' r r') :
    Mirrors R R' r.unstalled r'.unstalled := by
  rw [Run.unstalled, Run.unstalled, h.accepting, h.plan]
  split
  next =>
    obtain ⟨hskip, hids⟩ := h.skipPending hR stallReason
    rw [hids]
    exact hskip.map (fun r => { r with stalled := (r'.skipPending stallReason).2 })
      fun _ => ⟨rfl, rfl, rfl, rfl⟩
  next => exact h

theorem stop (hR : R.Mirrors b R') (h : Mirrors R R' r r') : Mirrors R R' r.stop r'.stop := by
  have hun := h.unstalled hR
  have hdrain := congrArg Slots.drain hun.slots
  simp only [Slots.outline_drain] at hdrain
  obtain ⟨hl, hs⟩ := Prod.ext_iff.1 hdrain
  have hphase := (hun.withSlots hs).map (fun r => { r with phase := .tearingDown })
    fun _ => ⟨rfl, rfl, rfl, rfl⟩
  rw [stop_eq, stop_eq]
  exact (hphase.spawnDestroys hR none hl).1.endIfQuiet

theorem turn (hR : R.Mirrors b R') (h : Mirrors R R' r r') : Mirrors R R' r.turn r'.turn := by
  have hsched := (h.observe hR).schedule hR
  have hscheduled : Mirrors R R' r.scheduled r'.scheduled := by
    have hforsaken : r.observe.schedule.isForsaken = r'.observe.schedule.isForsaken := by
      rw [isForsaken, isForsaken, hsched.isEmpty_destroys, hsched.deferred]
    rw [scheduled, scheduled, hforsaken]
    split
    next => exact (hsched.settleDeferred.observe hR).schedule hR
    next => exact hsched
  rw [turn_eq, turn_eq, hscheduled.isEmpty_tasks, hscheduled.deferred]
  split
  next => exact hscheduled.stop hR
  next => exact hscheduled

theorem resume (hR : R.Mirrors b R') (h : Mirrors R R' r r') : Mirrors R R' r.resume r'.resume := by
  rw [Run.resume, Run.resume, ← h.phase]
  cases r.phase with
  | working => exact h.turn hR
  | tearingDown => exact h.endIfQuiet
  | ended => exact h

end Mirrors

theorem mirrors_new (R R' : Registry) (parallel : Nat) (timeout : Option Nat) (g : Graph)
    (stopRequested : Bool) : Mirrors R R' (new ⟨R, parallel, timeout⟩ g stopRequested)
      (new ⟨R', parallel, timeout⟩ g stopRequested) :=
  ⟨rfl, .nil, .nil, rfl, rfl⟩

end Run

end Workplan
