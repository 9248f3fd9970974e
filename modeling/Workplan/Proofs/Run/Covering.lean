import Workplan.Proofs.Plan.Cleanliness
import Workplan.Proofs.Run.History
import Workplan.Proofs.Run.Slots

/-! Covering: a node that uses a resource is among the consumers of its slot until the node has been
released, and a slot with such a consumer has not been handed back. This covers the instances that are made
during the run, for which their placeholder keeps the place. -/
namespace Workplan
set_option autoImplicit false

/-- A node is a consumer of a resource that has not been handed back. -/
def Slots.IsHeld (s : Slots) (name : String) (x : NodeId) : Prop :=
  ∃ slot, s.get? name = some slot ∧ x ∈ slot.consumers ∧ slot.handedBack = false

/-- The instance of a resource has been handed back. -/
def Slots.IsHandedBack (s : Slots) (name : String) : Prop :=
  ∃ slot, s.get? name = some slot ∧ slot.handedBack = true

def Stage.Holds (s : Stage) (x : NodeId) : Prop :=
  s.run.plan.isPending x = true ∨ x ∈ s.run.tasks.map Task.node ∨ (∃ o, s.active = some (x, o)) ∨
    x ∈ s.ended

/-- Every node that has not been released is a consumer of what it uses. -/
def Stage.Covered (s : Stage) : Prop :=
  ∀ x name, s.run.plan.Uses x name → s.Holds x → s.run.slots.IsHeld name x

namespace Slots.IsHeld
variable {s : Slots} {name : String} {x : NodeId}

theorem not_isHandedBack (h : s.IsHeld name x) : ¬ s.IsHandedBack name := by
  rintro ⟨slot, hs, hh⟩
  obtain ⟨slot', hs', -, hh'⟩ := h
  cases hs.symm.trans hs'
  rw [hh] at hh'
  cases hh'

theorem release {consumer : NodeId} (h : s.IsHeld name x) (hne : x ≠ consumer) :
    (s.release consumer).2.IsHeld name x := by
  obtain ⟨slot, hs, hx, hh⟩ := h
  refine ⟨(slot.release name consumer).2, ?_, Slot.mem_consumers_release.2 ⟨hx, hne⟩, ?_⟩
  · rw [Slots.release_eq, Slots.get?_handBackWith, hs]
    rfl
  · rw [Slot.handedBack_release hx hne]
    exact hh

theorem addConsumers (h : s.IsHeld name x) (uses : List (String × NodeId)) :
    (uses.foldl (fun s e => s.addConsumers e.1 [e.2]) s).IsHeld name x ∧
      ∀ c, (name, c) ∈ uses → (uses.foldl (fun s e => s.addConsumers e.1 [e.2]) s).IsHeld name c := by
  obtain ⟨slot, hs, hx, hh⟩ := h
  obtain ⟨slot', hs', -, -, hh', hm⟩ := Slots.get?_foldl_addConsumers uses hs
  rw [hh] at hh'
  exact ⟨⟨slot', hs', (hm x).2 (.inl hx), hh'⟩, fun c hc => ⟨slot', hs', (hm c).2 (.inr hc), hh'⟩⟩

end Slots.IsHeld

namespace Run

theorem slots_spawnDestroys (owner : Option NodeId) (r : Run) (l : List Released) :
    (spawnDestroys owner r l).1.slots = r.slots := by
  obtain ⟨ds, es, h⟩ := exists_spawns owner r l
  rw [h.eq]

theorem slots_release (r : Run) (id : NodeId) : (r.release id).1.slots = (r.slots.release id).2 :=
  slots_spawnDestroys (some id) { r with slots := (r.slots.release id).2 } (r.slots.release id).1

theorem slots_conclude (r : Run) (id : NodeId) (output : Option Value) :
    (r.conclude id output).slots = (r.slots.release id).2 := by
  rw [conclude_eq]
  exact slots_release r id

theorem slots_blame (r : Run) (id : NodeId) (e : RunError) : (r.blame id e).slots = r.slots := by
  rw [blame_eq]

theorem slots_credit (r : Run) (owner : NodeId) : (r.credit owner).slots = r.slots := by
  rw [credit_eq]

theorem mem_usesOf {p : Plan} {c : NodeId} {n : Node} {name : String} (hn : p.node? c = some n)
    (hr : n.kind.isResource = false) (hx : n.kind.isExpansion = false) (hu : name ∈ n.kind.uses) :
    name ∈ usesOf p c := by
  rw [usesOf, hn, Option.map_some]
  cases hk : n.kind with
  | step inst =>
    rw [hk] at hu
    exact hu
  | resource name' kind args => simp [NodeKind.isResource, hk] at hr
  | expansion replication template => simp [NodeKind.isExpansion, hk] at hx

end Run

section Moves
variable {g : Graph} {s t : Stage}

theorem Stage.Covered.mono (h : s.Covered) (hs : t.run.slots = s.run.slots)
    (hn : t.run.plan.nodes = s.run.plan.nodes) (hh : ∀ x, t.Holds x → s.Holds x) : t.Covered := by
  intro x name hu hx
  rw [hs]
  refine h x name ?_ (hh x hx)
  obtain ⟨n, hnode, hname⟩ := hu
  rw [Plan.node?, hn] at hnode
  exact ⟨n, hnode, hname⟩

theorem Stage.Covered.release (h : s.Covered) {id : NodeId}
    (hs : t.run.slots = (s.run.slots.release id).2) (hn : t.run.plan.nodes = s.run.plan.nodes)
    (hh : ∀ x, t.Holds x → s.Holds x ∧ x ≠ id) : t.Covered := by
  intro x name hu hx
  rw [hs]
  refine (h x name ?_ (hh x hx).1).release (hh x hx).2
  obtain ⟨n, hnode, hname⟩ := hu
  rw [Plan.node?, hn] at hnode
  exact ⟨n, hnode, hname⟩

theorem Moves.covered_expand (hg : g.Sound) {r : Run} {E : Expansions} {id : NodeId}
    {vars : List LoopVars} {p : Plan} {children : List NodeId} {o : Option WorkOutcome}
    (hl : Live g ⟨r, E, some (id, o), []⟩) (h : (Stage.mk r E (some (id, o)) []).Covered)
    (hE : E id = none) (he : r.plan.expand id vars = .ok (p, children)) :
    (Stage.mk ({ r with plan := p }.addConsumers children) (E.set id vars) (some (id, o)) []).Covered := by
  have hx := hl.sound.expands hg hE he
  obtain ⟨n, hn⟩ := hl.node_of_running hx.running
  intro x name hu hh
  obtain ⟨n', hn', hname⟩ := hu
  have hn'' : p.node? x = some n' := hn'
  by_cases hc : x ∈ children
  · -- the placeholder has kept the place
    obtain ⟨huses, hres, hexp⟩ := hx.child hc hn hn''
    rw [huses] at hname
    have hheld := h id name ⟨n, hn, hname⟩ (.inr (.inr (.inl ⟨o, rfl⟩)))
    refine (hheld.addConsumers _).2 x (List.mem_flatMap.2 ⟨x, hc, List.mem_map.2 ⟨name, ?_, rfl⟩⟩)
    exact Run.mem_usesOf hn'' hres hexp (by rw [huses]; exact hname)
  · obtain ⟨m, hm⟩ := (hx.known hn'').resolve_left hc
    obtain ⟨m', hm', hk, -⟩ := hx.kept hm
    cases hn''.symm.trans hm'
    have hold : (Stage.mk r E (some (id, o)) []).Holds x := by
      rcases hh with hp | hh
      · refine .inl ?_
        have hp' : p.isPending x = true := hp
        rw [Plan.isPending_iff, hx.status, if_neg hc] at hp'
        exact Plan.isPending_iff.2 hp'
      · exact .inr hh
    exact ((h x name ⟨m, hm, by rw [← hk]; exact hname⟩ hold).addConsumers _).1

section Cases
variable {r : Run} {E : Expansions} {id : NodeId}

theorem Stage.Covered.collect (h : (Stage.mk r E none []).Covered) {t : Task} (ht : t ∈ r.tasks)
    (o : Option WorkOutcome) : (Stage.mk (r.dropTask t.number) E (some (t.node, o)) []).Covered := by
  refine h.mono rfl rfl fun x hx => ?_
  rcases hx with hx | hx | ⟨o, hx⟩ | hx
  · exact .inl hx
  · obtain ⟨u, hu, he⟩ := List.mem_map.1 hx
    exact .inr (.inl (List.mem_map.2 ⟨u, List.mem_of_mem_filter hu, he⟩))
  · cases hx
    exact .inr (.inl (List.mem_map_of_mem ht))
  · cases hx

theorem Stage.Covered.enqueue (h : (Stage.mk r E (some (id, none)) []).Covered) {t : Task}
    (ht : r.prepare id = .ok t) :
    (Stage.mk { r with tasks := r.tasks ++ [t], next := r.next + 1 } E none []).Covered := by
  refine h.mono rfl rfl fun x hx => ?_
  rcases hx with hx | hx | ⟨o, hx⟩ | hx
  · exact .inl hx
  · simp only [List.map_append, List.mem_append] at hx
    rcases hx with hx | hx
    · exact .inr (.inl hx)
    · obtain ⟨node, scope, work, -, -, -, rfl⟩ := Run.prepare_eq_ok ht
      obtain rfl : x = id := by simpa using hx
      exact .inr (.inr (.inl ⟨none, rfl⟩))
  · cases hx
  · cases hx

theorem Stage.Covered.conclude {o : Option WorkOutcome} (hl : Live g ⟨r, E, some (id, o), []⟩)
    (h : (Stage.mk r E (some (id, o)) []).Covered) (output : Option Value) :
    (Stage.mk (r.conclude id output) E none []).Covered := by
  obtain ⟨hrun, -, htask⟩ := hl.active rfl
  have hplan := (Run.agree_release r id).plan
  refine h.release (Run.slots_conclude r id output) ?_ fun x hx => ?_
  · simp only [Run.conclude]
    split
    next => exact (Plan.nodes_markSucceeded _ _ _).trans (congrArg Plan.nodes hplan)
    next => exact congrArg Plan.nodes hplan
  · rcases hx with hx | hx | ⟨o, hx⟩ | hx
    · have hp : r.plan.isPending x = true := by
        simp only [Run.conclude] at hx
        split at hx
        next =>
          have hp := Run.isPending_settle hx
          rwa [hplan] at hp
        next => rwa [← hplan]
      refine ⟨.inl hp, ?_⟩
      rintro rfl
      cases hrun.symm.trans (Plan.isPending_iff.1 hp)
    · rw [Run.tasks_conclude] at hx
      refine ⟨.inr (.inl hx), ?_⟩
      rintro rfl
      exact htask hx
    · cases hx
    · cases hx

theorem Stage.Covered.fail {o : Option WorkOutcome} (h : (Stage.mk r E (some (id, o)) []).Covered)
    (e : RunError) : (Stage.mk ({ r with plan := (r.plan.markFailed id e.message).1 }.blame id e) E
      none ((r.plan.markFailed id e.message).2 ++ [id])).Covered := by
  have hsk := Plan.skips_markFailed r.plan id e.message
  have hpend : ∀ {x}, (r.plan.setStatus id (.failed e.message)).isPending x = true →
      (Stage.mk r E (some (id, o)) []).Holds x := by
    intro x hp
    rw [Plan.isPending_iff, Plan.status?_setStatus] at hp
    split at hp
    next hx => exact .inr (.inr (.inl ⟨o, by rw [hx]⟩))
    next => exact .inl (Plan.isPending_iff.2 hp)
  refine h.mono (Run.slots_blame _ id e) ?_ fun x hx => ?_
  · rw [Run.plan_blame]
    exact hsk.nodes
  · rcases hx with hx | hx | ⟨o, hx⟩ | hx
    · rw [Run.plan_blame] at hx
      exact hpend (hsk.isPending.1 hx).1
    · rw [Run.tasks_blame] at hx
      exact .inr (.inl hx)
    · cases hx
    · rcases List.mem_append.1 hx with hx | hx
      · exact hpend (hsk.pending x hx)
      · exact .inr (.inr (.inl ⟨o, by rw [List.mem_singleton.1 hx]⟩))

theorem Stage.Covered.release_ended {a : Option (NodeId × Option WorkOutcome)} {l : List NodeId}
    (hl : Live g ⟨r, E, a, id :: l⟩) (h : (Stage.mk r E a (id :: l)).Covered) :
    (Stage.mk (r.release id).1 E a l).Covered := by
  have hagree := Run.agree_release r id
  obtain ⟨st, hst, hterm⟩ := hl.ended (List.mem_cons_self (a := id) (l := l))
  have hst' : r.plan.status? id = some st := hst
  refine h.release (Run.slots_release r id) (congrArg Plan.nodes hagree.plan)
    fun x hx => ?_
  rcases hx with hx | hx | ⟨o, hx⟩ | hx
  · rw [hagree.plan] at hx
    refine ⟨.inl hx, ?_⟩
    rintro rfl
    cases hst'.symm.trans (Plan.isPending_iff.1 hx)
    cases hterm
  · rw [hagree.tasks] at hx
    refine ⟨.inr (.inl hx), ?_⟩
    rintro rfl
    obtain ⟨u, hu, he⟩ := List.mem_map.1 hx
    have hrun := (hl.task hu).1
    rw [he] at hrun
    cases hst'.symm.trans hrun
    cases hterm
  · refine ⟨.inr (.inr (.inl ⟨o, hx⟩)), ?_⟩
    rintro rfl
    cases hst'.symm.trans (hl.active hx).1
    cases hterm
  · refine ⟨.inr (.inr (.inr (List.mem_cons_of_mem id hx))), ?_⟩
    rintro rfl
    exact (List.nodup_cons.1 hl.ended_nodup).1 hx

theorem Stage.Covered.skips {reason : String} {ids : List NodeId} {p' : Plan}
    (h : (Stage.mk r E none []).Covered) (hs : Plan.Skips reason r.plan ids p') :
    (Stage.mk { r with plan := p' } E none ids).Covered := by
  refine h.mono rfl hs.nodes fun x hx => ?_
  rcases hx with hx | hx | ⟨o, hx⟩ | hx
  · exact .inl (hs.isPending.1 hx).1
  · exact .inr (.inl hx)
  · cases hx
  · exact .inl (hs.pending x hx)

theorem Stage.Covered.settle (h : (Stage.mk r E none []).Covered) (output : Option Value) :
    (Stage.mk (r.settle id output) E none []).Covered := by
  refine h.mono rfl (Plan.nodes_markSucceeded _ _ _) fun x hx => ?_
  rcases hx with hx | hx | ⟨o, hx⟩ | hx
  · exact .inl (Run.isPending_settle hx)
  · exact .inr (.inl hx)
  · cases hx
  · cases hx

theorem Stage.Covered.credit (h : (Stage.mk r E none []).Covered) (owner : NodeId) :
    (Stage.mk (r.credit owner) E none []).Covered := by
  rw [Run.credit]
  split
  next => exact h
  next =>
    split
    next => exact h.mono rfl rfl fun x hx => hx
    next =>
      have he : (Stage.mk { r with deferred := r.deferred.erase owner } E none []).Covered :=
        h.mono rfl rfl fun x hx => hx
      exact he.settle _

theorem Stage.Covered.of_drained (ht : r.tasks = []) (hp : ∀ id, r.plan.isPending id = false) :
    (Stage.mk r E none []).Covered := by
  intro x name _ hx
  rcases hx with hx | hx | ⟨o, hx⟩ | hx
  · have hx' : r.plan.isPending x = true := hx
    rw [hp x] at hx'
    cases hx'
  · have hx' : x ∈ r.tasks.map Task.node := hx
    rw [ht] at hx'
    cases hx'
  · cases hx
  · cases hx

theorem Stage.Covered.begin (h : (Stage.mk r E none []).Covered) (hr : r.plan.isReady id = true) :
    (Stage.mk (r.begun id) E (some (id, none)) []).Covered := by
  refine h.mono rfl rfl fun x hx => ?_
  rcases hx with hx | hx | ⟨o, hx⟩ | hx
  · exact .inl (Plan.isPending_markRunning.1 hx).1
  · exact .inr (.inl hx)
  · cases hx
    exact .inl (Plan.isPending_of_isReady hr)
  · cases hx

end Cases

theorem Moves.covered (hg : g.Sound) (hm : Moves s t) (hl : Live g s) (h : s.Covered) :
    t.Covered := by
  cases hm with
  | note r E a l id time hk => exact h.mono rfl rfl fun x hx => hx
  | blemish r E e => exact h.mono rfl rfl fun x hx => hx
  | collect E ht hf => exact h.collect ht _
  | enqueue E hp hlimit => exact h.enqueue hp
  | expand hE he => exact Moves.covered_expand hg hl h hE he
  | conclude r hE => exact h.conclude hl _
  | fail hf => exact h.fail _
  | release r E a id l => exact h.release_ended hl
  | skipIdle r E => exact h.skips hl.sound.skips_skipIdleResources
  | @skipAll r E reason ha => exact h.skips (Plan.skips_skipPending r.plan reason).1
  | observe E ha hs => exact h.mono rfl rfl fun x hx => hx
  | lose E ht hf => exact h.mono rfl rfl fun x hx => hx
  | discard E ht hf ho => exact h.mono rfl rfl fun x hx => hx
  | @credit r E t ht result time hf owner ho =>
    have hd : (Stage.mk (r.dropDestroy t.number) E none []).Covered := h.mono rfl rfl fun x hx => hx
    exact hd.credit owner
  | @giveUp r E hd id d hget =>
    have he : (Stage.mk { r with deferred := r.deferred.erase id } E none []).Covered :=
      h.mono rfl rfl fun x hx => hx
    exact he.settle _
  | @stall r E ha ht hd hr hw =>
    exact (h.skips (Plan.skips_skipPending r.plan Run.stallReason).1).mono rfl rfl fun x hx => hx
  | @drain r E hw ht hd hp =>
    have hagree := Run.agree_spawnDestroys none
      { r with slots := r.slots.drain.2, phase := .tearingDown } r.slots.drain.1
    refine .of_drained (hagree.tasks.trans ht) fun id => ?_
    rw [hagree.plan]
    exact hp id
  | close E hp hd => exact h.mono rfl rfl fun x hx => hx

theorem Begins.covered {id : NodeId} (hb : Begins s id t) (h : s.Covered) : t.Covered := by
  cases hb with
  | mk E ha hlimit hr => exact h.begin hr

theorem Path.covered (hg : g.Sound) {l : List (Run × NodeId)} (hp : Path s l t)
    (hn : s.run.Numbered) (hl : Live g s) (h : s.Covered) : t.Covered := by
  induction hp with
  | refl => exact h
  | move hp hm ih => exact hm.covered hg (hp.live hg hn hl) ih
  | start hp hb ih => exact hb.covered ih

end Moves

/-! ## What stays of the slots -/

theorem Slots.get?_acquire (s : Slots) (name : String) (creation : Except RunError ResourceInstance)
    {x : String} {slot : Slot} (h : s.get? x = some slot) :
    ∃ slot', (s.acquire name creation).2.get? x = some slot' ∧ slot'.kind = slot.kind ∧
      slot'.consumers = slot.consumers ∧ slot'.handedBack = slot.handedBack := by
  rw [acquire]
  split
  next => exact ⟨slot, h, rfl, rfl, rfl⟩
  next held hs =>
    split
    next => exact ⟨slot, h, rfl, rfl, rfl⟩
    next i _ =>
      by_cases hx : x = name
      · subst hx
        cases hs.symm.trans h
        refine ⟨{ slot with created := some i }, ?_, rfl, rfl, rfl⟩
        rw [SortedMap.get?_insert, if_pos rfl]
      · refine ⟨slot, ?_, rfl, rfl, rfl⟩
        rw [SortedMap.get?_insert, if_neg hx]
        exact h
    next => exact ⟨slot, h, rfl, rfl, rfl⟩

namespace Slots.IsHandedBack
variable {s : Slots} {name : String}

theorem handBackWith {f : String → Slot → Option Released × Slot} (h : s.IsHandedBack name)
    (hf : ∀ name slot, Slot.HandsBack name slot (f name slot)) :
    (s.handBackWith f).2.IsHandedBack name := by
  obtain ⟨slot, hs, hh⟩ := h
  exact ⟨(f name slot).2, Slots.get?_handBackWith_of_get? hs, (hf name slot).stays hh⟩

theorem of_mem_handBackWith {f : String → Slot → Option Released × Slot}
    (hf : ∀ name slot, Slot.HandsBack name slot (f name slot)) {x : Released}
    (hx : x ∈ (s.handBackWith f).1) : (s.handBackWith f).2.IsHandedBack x.name := by
  obtain ⟨slot, hs, -, -, hh⟩ := Slots.marked_of_mem_handBackWith hf hx
  exact ⟨_, Slots.get?_handBackWith_of_get? hs, hh⟩

theorem release (h : s.IsHandedBack name) (id : NodeId) : (s.release id).2.IsHandedBack name :=
  h.handBackWith fun _ _ => Slot.handsBack_release

theorem drain (h : s.IsHandedBack name) : s.drain.2.IsHandedBack name :=
  h.handBackWith fun _ _ => Slot.handsBack_drain

theorem addConsumers (h : s.IsHandedBack name) (uses : List (String × NodeId)) :
    (uses.foldl (fun s e => s.addConsumers e.1 [e.2]) s).IsHandedBack name := by
  obtain ⟨slot, hs, hh⟩ := h
  obtain ⟨slot', hs', -, -, hh', -⟩ := Slots.get?_foldl_addConsumers uses hs
  exact ⟨slot', hs', hh'.trans hh⟩

end Slots.IsHandedBack

section HandedBack
variable {g : Graph} {s t : Stage} {name : String}

theorem Moves.isHandedBack (hm : Moves s t) (h : s.run.slots.IsHandedBack name) :
    t.run.slots.IsHandedBack name := by
  cases hm with
  | expand hE he => exact h.addConsumers _
  | conclude r hE =>
    rw [Run.slots_conclude]
    exact h.release _
  | fail hf =>
    rw [Run.slots_blame]
    exact h
  | release r E a id l =>
    rw [Run.slots_release]
    exact h.release id
  | credit E ht hf ho =>
    rw [Run.slots_credit]
    exact h
  | drain E hw ht hd hp =>
    rw [Run.slots_spawnDestroys]
    exact h.drain
  | _ => exact h

theorem Path.isHandedBack {l : List (Run × NodeId)} (hp : Path s l t)
    (h : s.run.slots.IsHandedBack name) : t.run.slots.IsHandedBack name := by
  induction hp with
  | refl => exact h
  | move hp hm ih => exact hm.isHandedBack ih
  | start hp hb ih =>
    cases hb with
    | mk E ha hlimit hr => exact ih

/-- A node that uses what has been handed back is not started any more. -/
theorem Path.not_uses (hg : g.Sound) {l : List (Run × NodeId)} (hp : Path s l t)
    (hn : s.run.Numbered) (hl : Live g s) (hc : s.Covered) (h : s.run.slots.IsHandedBack name) :
    ∀ x ∈ l, ¬ x.1.plan.Uses x.2 name := by
  induction hp with
  | refl => exact fun x hx => by cases hx
  | move hp hm ih => exact ih
  | @start t u l id hp hb ih =>
    intro x hx hu
    rcases List.mem_append.1 hx with hx | hx
    · exact ih x hx hu
    · obtain rfl := List.mem_singleton.1 hx
      have hcov := hp.covered hg hn hl hc
      cases hb with
      | mk E ha hlimit hr =>
        exact (hcov id name hu (.inl (Plan.isPending_of_isReady hr))).not_isHandedBack
          (hp.isHandedBack h)

end HandedBack

namespace Run
section Works
variable {r r' : Run} {e : Event} {E : Expansions} {name : String}

theorem TaskMoves.slots {t : Task} {phase : TaskPhase} {w : World} {slots : Slots}
    (h : TaskMoves r t e phase w slots) {x : String} {slot : Slot} (hs : r.slots.get? x = some slot) :
    ∃ slot', slots.get? x = some slot' ∧ slot'.kind = slot.kind ∧
      slot'.consumers = slot.consumers ∧ slot'.handedBack = slot.handedBack := by
  cases h with
  | create hw hc => exact r.slots.get?_acquire _ _ hs
  | _ => exact ⟨slot, hs, rfl, rfl, rfl⟩

theorem Works.slots (h : Works r e r') {x : String} {slot : Slot} (hs : r.slots.get? x = some slot) :
    ∃ slot', r'.slots.get? x = some slot' ∧ slot'.kind = slot.kind ∧
      slot'.consumers = slot.consumers ∧ slot'.handedBack = slot.handedBack := by
  cases h with
  | task ht hm => exact hm.slots hs
  | _ => exact ⟨slot, hs, rfl, rfl, rfl⟩

theorem Works.isHandedBack (h : Works r e r') (hs : r.slots.IsHandedBack name) :
    r'.slots.IsHandedBack name := by
  obtain ⟨slot, hs, hh⟩ := hs
  obtain ⟨slot', hs', -, -, hh'⟩ := h.slots hs
  exact ⟨slot', hs', hh'.trans hh⟩

theorem Works.covered (h : Works r e r') (hc : (Stage.mk r E none []).Covered) :
    (Stage.mk r' E none []).Covered := by
  have hund := h.undisturbed
  intro x name hu hx
  have hu' : r'.plan.Uses x name := hu
  rw [hund.plan] at hu'
  have hold : (Stage.mk r E none []).Holds x := by
    rcases hx with hx | hx | ⟨o, hx⟩ | hx
    · have hx' : r'.plan.isPending x = true := hx
      rw [hund.plan] at hx'
      exact .inl hx'
    · have hx' : x ∈ r'.tasks.map Task.node := hx
      rw [hund.nodes] at hx'
      exact .inr (.inl hx')
    · cases hx
    · cases hx
  obtain ⟨slot, hs, hm, hh⟩ := hc x name hu' hold
  obtain ⟨slot', hs', -, hcons, hh'⟩ := h.slots hs
  refine ⟨slot', hs', ?_, hh'.trans hh⟩
  rw [hcons]
  exact hm

end Works
end Run

end Workplan
