import Workplan.Proofs.Outcome
import Workplan.Run

/-! Releasing: what the release of a node leaves alone, which destructions it starts, and what is prepared
for a node that starts. -/
namespace Workplan
open Outcome
set_option autoImplicit false

namespace Run

/-- The runs differ in slots, destructions and records only. -/
structure Agree (r r' : Run) : Prop where
  settings : r'.settings = r.settings
  deadline : r'.deadline = r.deadline
  plan : r'.plan = r.plan
  world : r'.world = r.world
  tasks : r'.tasks = r.tasks
  deferred : r'.deferred = r.deferred
  failure : r'.failure = r.failure
  cancelled : r'.cancelled = r.cancelled
  stopRequested : r'.stopRequested = r.stopRequested
  stalled : r'.stalled = r.stalled
  phase : r'.phase = r.phase

namespace Agree
variable {r r' r'' : Run}

theorem refl (r : Run) : Agree r r := ⟨rfl, rfl, rfl, rfl, rfl, rfl, rfl, rfl, rfl, rfl, rfl⟩

theorem trans (h : Agree r r') (h' : Agree r' r'') : Agree r r'' where
  settings := h'.settings.trans h.settings
  deadline := h'.deadline.trans h.deadline
  plan := h'.plan.trans h.plan
  world := h'.world.trans h.world
  tasks := h'.tasks.trans h.tasks
  deferred := h'.deferred.trans h.deferred
  failure := h'.failure.trans h.failure
  cancelled := h'.cancelled.trans h.cancelled
  stopRequested := h'.stopRequested.trans h.stopRequested
  stalled := h'.stalled.trans h.stalled
  phase := h'.phase.trans h.phase

theorem accepting (h : Agree r r') : r'.accepting = r.accepting := by
  rw [Run.accepting, Run.accepting, h.failure, h.cancelled]

theorem note (r : Run) (id : NodeId) (kind : EventKind) (time : Nat) :
    Agree r (r.note id kind time) := ⟨rfl, rfl, rfl, rfl, rfl, rfl, rfl, rfl, rfl, rfl, rfl⟩

end Agree

def IsDestroy (registry : Registry) (owner : Option NodeId) (number : Nat) (x : Released)
    (d : DestroyTask) : Prop :=
  ∃ k, registry.kind? x.kind = some k ∧
    d = ⟨number, x.name, owner, x.inst, .queued k.destroy⟩

/-- What starting destructions comes to: the tasks `ds`, numbered in order, and the errors `es`. A destruction
is left out only if there is no handler for it. -/
structure Spawns (owner : Option NodeId) (r : Run) (l : List Released) (ds : List DestroyTask)
    (es : List DestroyError) : Prop where
  eq : (spawnDestroys owner r l).1 = { r with
    destroys := r.destroys ++ ds
    next := r.next + ds.length
    destroyErrors := r.destroyErrors ++ es }
  count : (spawnDestroys owner r l).2 = ds.length
  numbers : ds.map DestroyTask.number = List.range' r.next ds.length
  isDestroy : ∀ d ∈ ds, ∃ x ∈ l, IsDestroy r.settings.registry owner d.number x d
  instances : (∀ x ∈ l, ∃ k, r.settings.registry.kind? x.kind = some k) →
    ds.map (fun d => (d.resource, d.inst)) = l.map fun x => (x.name, x.inst)

namespace Spawns
variable {owner : Option NodeId} {r : Run} {x : Released} {l : List Released} {ds : List DestroyTask}
variable {es : List DestroyError}

theorem nil (owner : Option NodeId) (r : Run) : Spawns owner r [] [] [] where
  eq := by simp [spawnDestroys]
  count := rfl
  numbers := rfl
  isDestroy := fun d hd => by cases hd
  instances := fun _ => rfl

theorem refuse (hk : r.settings.registry.kind? x.kind = none)
    (h : Spawns owner (r.spawnDestroy owner x).1 l ds es) : Spawns owner r (x :: l) ds
      (⟨x.name, s!"no handler registered for kind '{x.kind}'"⟩ :: es) := by
  have heq := h.eq
  have hcount := h.count
  have hnumbers := h.numbers
  have hall := h.isDestroy
  simp only [spawnDestroy, hk] at heq hcount hnumbers hall
  constructor
  case eq =>
    simp only [spawnDestroys, spawnDestroy, hk, heq, List.append_assoc]
    rfl
  case count =>
    simp only [spawnDestroys, spawnDestroy, hk, hcount]
    rfl
  case numbers => exact hnumbers
  case isDestroy =>
    intro d hd
    obtain ⟨y, hy, hd⟩ := hall d hd
    exact ⟨y, List.mem_cons_of_mem x hy, hd⟩
  case instances =>
    intro hreg
    obtain ⟨k, hk'⟩ := hreg x List.mem_cons_self
    cases hk.symm.trans hk'

theorem cons {k : ResourceKind} (hk : r.settings.registry.kind? x.kind = some k)
    (h : Spawns owner (r.spawnDestroy owner x).1 l ds es) :
    Spawns owner r (x :: l) (⟨r.next, x.name, owner, x.inst, .queued k.destroy⟩ :: ds) es := by
  have heq := h.eq
  have hcount := h.count
  have hnumbers := h.numbers
  have hall := h.isDestroy
  have hinstances := h.instances
  simp only [spawnDestroy, hk] at heq hcount hnumbers hall hinstances
  constructor
  case eq =>
    simp only [spawnDestroys, spawnDestroy, hk, heq, List.append_assoc, List.length_cons]
    congr 1
    omega
  case count =>
    simp only [spawnDestroys, spawnDestroy, hk, hcount, List.length_cons]
    rfl
  case numbers => rw [List.map_cons, hnumbers, List.length_cons, List.range'_succ]
  case isDestroy =>
    intro d hd
    rcases List.mem_cons.1 hd with rfl | hd
    · exact ⟨x, List.mem_cons_self, k, hk, rfl⟩
    · obtain ⟨y, hy, hd⟩ := hall d hd
      exact ⟨y, List.mem_cons_of_mem x hy, hd⟩
  case instances =>
    intro hreg
    rw [List.map_cons, List.map_cons, hinstances fun y hy => hreg y (List.mem_cons_of_mem x hy)]

end Spawns

theorem exists_spawns (owner : Option NodeId) (r : Run) (l : List Released) :
    ∃ ds es, Spawns owner r l ds es := by
  induction l generalizing r with
  | nil => exact ⟨[], [], .nil owner r⟩
  | cons x l ih =>
    obtain ⟨ds, es, h⟩ := ih (r.spawnDestroy owner x).1
    cases hk : r.settings.registry.kind? x.kind with
    | none => exact ⟨ds, _, h.refuse hk⟩
    | some k => exact ⟨_, es, h.cons hk⟩

theorem agree_spawnDestroys (owner : Option NodeId) (r : Run) (l : List Released) :
    Agree r (spawnDestroys owner r l).1 := by
  obtain ⟨ds, es, h⟩ := exists_spawns owner r l
  rw [h.eq]
  exact ⟨rfl, rfl, rfl, rfl, rfl, rfl, rfl, rfl, rfl, rfl, rfl⟩

theorem timeline_spawnDestroys (owner : Option NodeId) (r : Run) (l : List Released) :
    (spawnDestroys owner r l).1.timeline = r.timeline := by
  obtain ⟨ds, es, h⟩ := exists_spawns owner r l
  rw [h.eq]

theorem agree_release (r : Run) (id : NodeId) : Agree r (r.release id).1 := by
  have h := agree_spawnDestroys (some id) { r with slots := (r.slots.release id).2 }
    (r.slots.release id).1
  exact ⟨h.settings, h.deadline, h.plan, h.world, h.tasks, h.deferred, h.failure, h.cancelled,
    h.stopRequested, h.stalled, h.phase⟩

theorem agree_recordSkippedOne (r : Run) (id : NodeId) : Agree r (r.recordSkippedOne id) :=
  (Agree.note r id .skipped r.now).trans (agree_release _ id)

theorem agree_recordSkipped (r : Run) (ids : List NodeId) : Agree r (r.recordSkipped ids) := by
  induction ids generalizing r with
  | nil => exact Agree.refl r
  | cons id ids ih => exact (agree_recordSkippedOne r id).trans (ih _)

/-- Blaming a node changes who is blamed and whether the run goes on. -/
theorem blame_eq (r : Run) (id : NodeId) (e : RunError) :
    r.blame id e = { r with
      failure := (r.blame id e).failure
      cancelled := (r.blame id e).cancelled
      stopRequested := (r.blame id e).stopRequested } := by
  rw [blame]
  split
  next => rfl
  next => split <;> rfl

@[simp] theorem plan_blame (r : Run) (id : NodeId) (e : RunError) : (r.blame id e).plan = r.plan := by
  rw [blame_eq]

@[simp] theorem tasks_blame (r : Run) (id : NodeId) (e : RunError) : (r.blame id e).tasks = r.tasks := by
  rw [blame_eq]

@[simp] theorem deferred_blame (r : Run) (id : NodeId) (e : RunError) :
    (r.blame id e).deferred = r.deferred := by
  rw [blame_eq]

@[simp] theorem destroys_blame (r : Run) (id : NodeId) (e : RunError) :
    (r.blame id e).destroys = r.destroys := by
  rw [blame_eq]

theorem prepare_eq_ok {r : Run} {id : NodeId} {t : Task} (h : r.prepare id = .ok t) :
    ∃ node scope work, r.plan.node? id = some node ∧ r.plan.scopeFor node = .ok scope ∧
      workOf r.settings.registry r.slots node.kind = .ok work ∧
      t = ⟨r.next, id, r.deadlineOf node.kind, .queued scope work⟩ := by
  rw [prepare] at h
  split at h
  next => cases h
  next node hn =>
    obtain ⟨scope, hscope, h⟩ := bind_eq_ok.1 h
    obtain ⟨work, hwork, h⟩ := bind_eq_ok.1 h
    cases h
    exact ⟨node, scope, work, hn, hscope, hwork, rfl⟩

end Run

end Workplan
