import Workplan.Proofs.Run.ResourceLifecycle

/-! Stock: the slot of a resource is filled exactly when the creation of the resource has ended well,
whether the run has taken note of that or not. So a resource that has succeeded can be handed out, and a
creation that begins finds its slot empty. -/
namespace Workplan
set_option autoImplicit false

/-- The work of a node has ended well. -/
def Stage.HasEnded (s : Stage) (id : NodeId) : Prop :=
  s.run.plan.hasSucceeded id = true ∨ (∃ d, s.run.deferred.get? id = some d) ∨
    (∃ w, s.active = some (id, some (.ok w))) ∨
    ∃ t ∈ s.run.tasks, t.node = id ∧ ∃ w time, t.phase = .finished (.ok w) time

/-- The slots of a stage are filled as its nodes say. -/
structure Stage.Stocked (s : Stage) : Prop where
  slot : ∀ {name n}, s.run.plan.node? (NodeId.resource name) = some n →
    ∃ slot, s.run.slots.get? name = some slot
  filled : ∀ {name slot}, s.run.slots.get? name = some slot →
    ((∃ i, slot.created = some i) ↔ s.HasEnded (NodeId.resource name))

/-! ## What fills no slot -/

namespace Slots

/-- The slots hold what they have held. -/
def SameCreated (s s' : Slots) : Prop :=
  ∀ name, (s'.get? name).map Slot.created = (s.get? name).map Slot.created

theorem sameCreated_handBackWith {f : String → Slot → Option Released × Slot}
    (hf : ∀ name slot, Slot.HandsBack name slot (f name slot)) (s : Slots) :
    s.SameCreated (s.handBackWith f).2 := by
  intro name
  rw [get?_handBackWith, Option.map_map]
  exact Option.map_congr fun slot _ => (hf name slot).created

theorem sameCreated_release (s : Slots) (id : NodeId) : s.SameCreated (s.release id).2 :=
  sameCreated_handBackWith (fun _ _ => Slot.handsBack_release) s

theorem sameCreated_drain (s : Slots) : s.SameCreated s.drain.2 :=
  sameCreated_handBackWith (fun _ _ => Slot.handsBack_drain) s

theorem Alike.sameCreated {s s' : Slots} (h : s.Alike s') : s.SameCreated s' := by
  intro name
  cases hs : s.get? name with
  | none =>
    cases hs' : s'.get? name with
    | none => rfl
    | some slot' =>
      obtain ⟨slot, hslot⟩ := h.2 hs'
      rw [hs] at hslot
      cases hslot
  | some slot =>
    obtain ⟨slot', hs', -, hc, -⟩ := h.1 hs
    simp [hs', hc]

end Slots

section Moves
variable {g : Graph} {s t : Stage}

theorem Live.resource_known (hg : g.Sound) (hs : Live g s) (ht : Live g t) {name : String} {n : Node}
    (hn : t.run.plan.node? (NodeId.resource name) = some n) :
    ∃ m, s.run.plan.node? (NodeId.resource name) = some m := by
  obtain ⟨bs, hbp, -⟩ := ht.sound.unfolds.known hn
  have hk : n.kind.isResource = true :=
    (hbp.isResource hg).symm.trans (NodeId.isResource_resource name)
  obtain ⟨m, hm, -⟩ := hbp.exists_declared (.inr hk)
  exact hs.sound.unfolds.complete (.declared hm)

theorem Live.isResource_of_id (hg : g.Sound) (hs : Live g s) {name : String} {n : Node}
    (hn : s.run.plan.node? (NodeId.resource name) = some n) : n.kind.isResource = true :=
  (hs.sound.unfolds.isResource_eq hn hg).symm.trans (NodeId.isResource_resource name)

theorem Stage.Stocked.frame (hg : g.Sound) (h : s.Stocked) (hs : Live g s) (ht : Live g t)
    (hslots : s.run.slots.SameCreated t.run.slots)
    (hended : ∀ name, t.HasEnded (NodeId.resource name) ↔ s.HasEnded (NodeId.resource name)) :
    t.Stocked := by
  constructor
  · intro name n hn
    obtain ⟨m, hm⟩ := hs.resource_known hg ht hn
    obtain ⟨slot, hslot⟩ := h.slot hm
    have hsame := hslots name
    rw [hslot] at hsame
    obtain ⟨slot', hslot', -⟩ := Option.map_eq_some_iff.1 hsame
    exact ⟨slot', hslot'⟩
  · intro name slot' hslot'
    have hsame := hslots name
    rw [hslot'] at hsame
    obtain ⟨slot, hslot, hc⟩ := Option.map_eq_some_iff.1 hsame.symm
    rw [hended, ← h.filled hslot, hc]

/-! ## Who has ended -/

section Ended
variable {r : Run} {E : Expansions} {id x : NodeId} {o : Option WorkOutcome}

theorem Stage.hasEnded_collect (hn : r.Numbered) {t : Task} (ht : t ∈ r.tasks) {result : WorkOutcome}
    {time : Nat} (hf : t.phase = .finished result time) :
    (Stage.mk (r.dropTask t.number) E (some (t.node, some result)) []).HasEnded x ↔
      (Stage.mk r E none []).HasEnded x := by
  unfold HasEnded
  refine or_congr Iff.rfl (or_congr Iff.rfl ?_)
  constructor
  · rintro (⟨w, hw⟩ | ⟨u, hu, hrest⟩)
    · cases hw
      exact .inr ⟨t, ht, rfl, w, time, hf⟩
    · exact .inr ⟨u, List.mem_of_mem_filter hu, hrest⟩
  · rintro (⟨w, hw⟩ | ⟨u, hu, hnode, w, time', hphase⟩)
    · cases hw
    · by_cases he : u.number = t.number
      · obtain rfl := Numbering.eq_of_number hn.tasks hu ht he
        cases hf.symm.trans hphase
        exact .inl ⟨w, by rw [hnode]⟩
      · exact .inr ⟨u, List.mem_filter.2 ⟨hu, by simpa using he⟩, hnode, w, time', hphase⟩

theorem Stage.hasEnded_enqueue {t : Task} (h : r.prepare id = .ok t) :
    (Stage.mk { r with tasks := r.tasks ++ [t], next := r.next + 1 } E none []).HasEnded x ↔
      (Stage.mk r E (some (id, none)) []).HasEnded x := by
  obtain ⟨node, scope, work, -, -, -, rfl⟩ := Run.prepare_eq_ok h
  unfold HasEnded
  simp

theorem Run.hasSucceeded_settle {output : Option Value} (hrun : r.plan.status? id = some .running) :
    (r.settle id output).plan.hasSucceeded x = true ↔ x = id ∨ r.plan.hasSucceeded x = true := by
  rw [Run.settle, Plan.hasSucceeded_iff, Plan.hasSucceeded_iff, Plan.status?_markSucceeded]
  by_cases hx : x = id
  · simp [hx, hrun]
  · simp [hx]

theorem Stage.hasEnded_settle {w : WorkResult} (hrun : r.plan.status? id = some .running)
    (output : Option Value) : (Stage.mk (r.settle id output) E none []).HasEnded x ↔
      (Stage.mk r E (some (id, some (.ok w))) []).HasEnded x := by
  unfold HasEnded
  rw [Run.hasSucceeded_settle hrun]
  simp only [Run.settle]
  by_cases hx : x = id
  · simp [hx]
  · have hx' : id ≠ x := fun h => hx h.symm
    simp [hx, hx']

theorem Stage.hasEnded_defer {w : WorkResult} (d : Nat × Option Value) :
    (Stage.mk { r with deferred := r.deferred.insert id d } E none []).HasEnded x ↔
      (Stage.mk r E (some (id, some (.ok w))) []).HasEnded x := by
  unfold HasEnded
  simp only [SortedMap.get?_insert]
  by_cases hx : x = id
  · simp [hx]
  · have hx' : id ≠ x := fun h => hx h.symm
    simp [hx, hx']

theorem Stage.hasEnded_agree {r' : Run} (h : Run.Agree r r') (a : Option (NodeId × Option WorkOutcome))
    (l l' : List NodeId) :
    (Stage.mk r' E a l').HasEnded x ↔ (Stage.mk r E a l).HasEnded x := by
  unfold HasEnded
  simp only [h.plan, h.deferred, h.tasks]

theorem Stage.hasEnded_conclude {w : WorkResult} (hrun : r.plan.status? id = some .running)
    (output : Option Value) : (Stage.mk (r.conclude id output) E none []).HasEnded x ↔
      (Stage.mk r E (some (id, some (.ok w))) []).HasEnded x := by
  have hagree := Run.agree_release r id
  rw [← hagree.plan] at hrun
  have hsame : (Stage.mk (r.release id).1 E (some (id, some (.ok w))) []).HasEnded x ↔
      (Stage.mk r E (some (id, some (.ok w))) []).HasEnded x :=
    hasEnded_agree hagree _ [] []
  simp only [Run.conclude]
  split
  next => exact (hasEnded_settle hrun output).trans hsame
  next => exact (hasEnded_defer _).trans hsame

theorem Stage.hasEnded_undefer (hrun : r.plan.status? id = some .running) {d : Nat × Option Value}
    (hd : r.deferred.get? id = some d) (output : Option Value) :
    (Stage.mk ({ r with deferred := r.deferred.erase id }.settle id output) E none []).HasEnded x ↔
      (Stage.mk r E none []).HasEnded x := by
  have hrun' : ({ r with deferred := r.deferred.erase id } : Run).plan.status? id = some .running :=
    hrun
  unfold HasEnded
  rw [Run.hasSucceeded_settle hrun']
  simp only [Run.settle, SortedMap.get?_erase]
  by_cases hx : x = id
  · simp [hx, hd]
  · simp [hx]

theorem Stage.hasEnded_credit (hl : Live g ⟨r, E, none, []⟩) (owner : NodeId) :
    (Stage.mk (r.credit owner) E none []).HasEnded x ↔ (Stage.mk r E none []).HasEnded x := by
  rw [Run.credit]
  split
  next => exact Iff.rfl
  next waiting output hd =>
    split
    next =>
      unfold HasEnded
      simp only [SortedMap.get?_insert]
      by_cases hx : x = owner
      · simp [hx, hd]
      · simp [hx]
    next => exact hasEnded_undefer (hl.deferred hd) hd output

theorem Stage.hasEnded_skips {reason : String} {ids : List NodeId} {p' : Plan}
    (h : Plan.Skips reason r.plan ids p') {a : Option (NodeId × Option WorkOutcome)}
    {l l' : List NodeId} : (Stage.mk { r with plan := p' } E a l').HasEnded x ↔
      (Stage.mk r E a l).HasEnded x := by
  unfold HasEnded
  simp only [h.hasSucceeded]

theorem Stage.hasEnded_begin (hp : r.plan.isPending id = true) :
    (Stage.mk (r.begun id) E (some (id, none)) []).HasEnded x ↔
      (Stage.mk r E none []).HasEnded x := by
  unfold HasEnded
  simp only [Plan.hasSucceeded_markRunning hp, Run.begun, Run.note]
  simp

theorem Stage.hasEnded_fail (hg : g.Sound) (hl : Live g ⟨r, E, some (id, o), []⟩) {e : RunError}
    (hf : r.Fails E id o e) {name : String} :
    (Stage.mk ({ r with plan := (r.plan.markFailed id e.message).1 }.blame id e) E none
      ((r.plan.markFailed id e.message).2 ++ [id])).HasEnded (NodeId.resource name) ↔
      (Stage.mk r E (some (id, o)) []).HasEnded (NodeId.resource name) := by
  obtain ⟨hrun, -, -⟩ := hl.active rfl
  have hsucc : ∀ {y}, (r.plan.markFailed id e.message).1.hasSucceeded y = r.plan.hasSucceeded y :=
    Plan.hasSucceeded_markFailed hrun e.message
  have hactive : ∀ w, o = some (.ok w) → NodeId.resource name ≠ id := by
    rintro w ho rfl
    obtain ⟨n, hn⟩ := hl.node_of_running hrun
    have hres := hl.isResource_of_id hg hn
    have hfits := (hl.active_fits rfl).2 _ n ho hn
    cases hf with
    | prepare h => cases ho
    | work => cases ho
    | expansion hE h =>
      cases ho
      obtain ⟨_, _, _, hk⟩ := NodeKind.exists_of_isResource hres
      rw [hk] at hfits
      cases hfits
  unfold HasEnded
  simp only [Run.plan_blame, Run.tasks_blame, hsucc, Run.deferred_blame]
  refine or_congr Iff.rfl (or_congr Iff.rfl (or_congr ?_ Iff.rfl))
  constructor
  · rintro ⟨w, hw⟩
    cases hw
  · rintro ⟨w, hw⟩
    cases hw
    exact absurd rfl (hactive w rfl)

end Ended

theorem Moves.stocked (hg : g.Sound) (hm : Moves s t) (hn : s.run.Numbered) (hs : Live g s)
    (h : s.Stocked) : t.Stocked := by
  -- Slots are filled by the work between two turns. Moves hand back what is in them or add consumers.
  have ht := hm.live hg hn hs
  have hsame : s.run.slots = t.run.slots → s.run.slots.SameCreated t.run.slots := by
    intro he
    rw [he]
    exact fun _ => rfl
  cases hm with
  | note r E a l id time hk => exact h.frame hg hs ht (hsame rfl) fun _ => Iff.rfl
  | blemish r E e => exact h.frame hg hs ht (hsame rfl) fun _ => Iff.rfl
  | collect E hm hf =>
    exact h.frame hg hs ht (hsame rfl) fun _ => Stage.hasEnded_collect hn hm hf
  | enqueue E hp hlimit => exact h.frame hg hs ht (hsame rfl) fun _ => Stage.hasEnded_enqueue hp
  | @expand r E id vars p children hE he =>
    have hx := hs.sound.expands hg hE he
    refine h.frame hg hs ht (Slots.Alike.addConsumers _ _).sameCreated fun name => ?_
    have hsucc : p.hasSucceeded (NodeId.resource name) =
        r.plan.hasSucceeded (NodeId.resource name) := hx.hasSucceeded hs.sound
    unfold Stage.HasEnded
    simp only [Run.addConsumers, hsucc]
  | conclude r hE =>
    refine h.frame hg hs ht ?_ fun _ => Stage.hasEnded_conclude (hs.active rfl).1 _
    rw [Run.slots_conclude]
    exact Slots.sameCreated_release _ _
  | fail hf =>
    refine h.frame hg hs ht (hsame ?_) fun _ => Stage.hasEnded_fail hg hs hf
    rw [Run.slots_blame]
  | release r E a id l =>
    refine h.frame hg hs ht ?_ fun _ =>
      Stage.hasEnded_agree (Run.agree_release r id) a (id :: l) l
    rw [Run.slots_release]
    exact Slots.sameCreated_release _ _
  | skipIdle r E =>
    exact h.frame hg hs ht (hsame rfl) fun _ =>
      Stage.hasEnded_skips hs.sound.skips_skipIdleResources
  | @skipAll r E reason ha =>
    exact h.frame hg hs ht (hsame rfl) fun _ =>
      Stage.hasEnded_skips (Plan.skips_skipPending r.plan reason).1
  | observe E ha hs' => exact h.frame hg hs ht (hsame rfl) fun _ => Iff.rfl
  | lose E hm hf => exact h.frame hg hs ht (hsame rfl) fun _ => Iff.rfl
  | discard E hm hf ho => exact h.frame hg hs ht (hsame rfl) fun _ => Iff.rfl
  | @credit r E d hm result time hf owner ho =>
    refine h.frame hg hs ht (hsame ?_) fun name => ?_
    · exact (Run.slots_credit (r.dropDestroy d.number) owner).symm
    · have hd : Live g ⟨r.dropDestroy d.number, E, none, []⟩ := hs.frame rfl rfl rfl rfl
      exact Stage.hasEnded_credit hd owner
  | giveUp E hd hget =>
    exact h.frame hg hs ht (hsame rfl) fun _ => Stage.hasEnded_undefer (hs.deferred hget) hget _
  | @stall r E ha hm hd hr hw =>
    refine h.frame hg hs ht (hsame rfl) fun name => ?_
    have hskip : (Stage.mk { r with plan := (r.plan.skipPending Run.stallReason).1 } E none []).HasEnded
        (NodeId.resource name) ↔ (Stage.mk r E none []).HasEnded (NodeId.resource name) :=
      Stage.hasEnded_skips (Plan.skips_skipPending r.plan Run.stallReason).1
    exact hskip
  | @drain r E hw hm hd hp =>
    have hagree := Run.agree_spawnDestroys none
      { r with slots := r.slots.drain.2, phase := .tearingDown } r.slots.drain.1
    refine h.frame hg hs ht ?_ fun _ => Stage.hasEnded_agree hagree none [] []
    rw [Run.slots_spawnDestroys]
    exact Slots.sameCreated_drain _
  | close E hp hd => exact h.frame hg hs ht (hsame rfl) fun _ => Iff.rfl

theorem Begins.stocked (hg : g.Sound) {id : NodeId} (hb : Begins s id t) (hs : Live g s)
    (h : s.Stocked) : t.Stocked := by
  have ht := hb.live hs
  cases hb with
  | mk E ha hlimit hr =>
    exact h.frame hg hs ht (fun _ => rfl) fun _ =>
      Stage.hasEnded_begin (Plan.isPending_of_isReady hr)

end Moves

namespace Run

/-! ## Work between two turns -/

section Works
variable {g : Graph} {r r' : Run} {e : Event} {E : Expansions} {t : Task}

theorem needsCreation_of_creating (hl : Live g ⟨r, E, none, []⟩)
    (h : (Stage.mk r E none []).Stocked) (ht : t ∈ r.tasks) {name : String}
    (hnode : t.node = NodeId.resource name)
    (hf : ∀ w time, t.phase ≠ .finished (.ok w) time) : r.slots.needsCreation name = true := by
  obtain ⟨hrun, hdef, -⟩ := hl.task ht
  obtain ⟨n, hn⟩ := hl.node_of_running hrun
  rw [hnode] at hn
  obtain ⟨slot, hslot⟩ := h.slot hn
  refine Slots.needsCreation_iff.2 ⟨slot, hslot, ?_⟩
  cases hc : slot.created with
  | none => rfl
  | some i =>
    rcases (h.filled hslot).1 ⟨i, hc⟩ with hs | ⟨d, hd⟩ | ⟨w, hw⟩ | ⟨u, hu, hun, w, time, hphase⟩
    · rw [← hnode] at hs
      cases hrun.symm.trans (Plan.hasSucceeded_iff.1 hs)
    · rw [← hnode] at hd
      cases hdef.symm.trans hd
    · cases hw
    · obtain rfl := eq_of_node hl hu ht (hun.trans hnode.symm)
      exact absurd hphase (hf w time)

theorem hasEnded_setTaskPhase (hn : (r.tasks.map Task.number).Nodup) (ht : t ∈ r.tasks)
    (hf : ∀ w time, t.phase ≠ .finished (.ok w) time) {phase : TaskPhase} {x : NodeId} :
    (Stage.mk (r.setTaskPhase t.number phase) E none []).HasEnded x ↔
      (Stage.mk r E none []).HasEnded x ∨ t.node = x ∧ ∃ w time, phase = .finished (.ok w) time := by
  have htask : (∃ u ∈ (r.setTaskPhase t.number phase).tasks, u.node = x ∧
      ∃ w time, u.phase = .finished (.ok w) time) ↔
      (∃ u ∈ r.tasks, u.node = x ∧ ∃ w time, u.phase = .finished (.ok w) time) ∨
        t.node = x ∧ ∃ w time, phase = .finished (.ok w) time := by
    constructor
    · rintro ⟨u, hu, hrest⟩
      obtain ⟨v, hv, ⟨-, rfl⟩ | ⟨hnum, rfl⟩⟩ := mem_setTaskPhase hu
      · exact .inl ⟨u, hv, hrest⟩
      · obtain rfl := Numbering.eq_of_number hn hv ht hnum
        exact .inr hrest
    · rintro (⟨u, hu, hnode, w, time, hp⟩ | hrest)
      · refine ⟨u, List.mem_map.2 ⟨u, hu, if_neg fun hnum => ?_⟩, hnode, w, time, hp⟩
        obtain rfl := Numbering.eq_of_number hn hu ht hnum
        exact hf w time hp
      · exact ⟨{ t with phase := phase }, List.mem_map.2 ⟨t, ht, if_pos rfl⟩, hrest⟩
  unfold Stage.HasEnded
  rw [htask]
  simp only [or_assoc]
  rfl

theorem stocked_setTaskPhase (hn : r.Numbered) (h : (Stage.mk r E none []).Stocked)
    (ht : t ∈ r.tasks) (hf : ∀ w time, t.phase ≠ .finished (.ok w) time) {phase : TaskPhase}
    (hphase : ∀ name, t.node = NodeId.resource name → ∀ w time, phase ≠ .finished (.ok w) time)
    (w : World) : (Stage.mk ({ r with world := w }.setTaskPhase t.number phase) E none []).Stocked := by
  refine ⟨h.slot, fun {name slot} hs => (h.filled hs).trans ?_⟩
  have hset : (Stage.mk ({ r with world := w }.setTaskPhase t.number phase) E none []).HasEnded
      (NodeId.resource name) ↔ (Stage.mk { r with world := w } E none []).HasEnded
        (NodeId.resource name) ∨ t.node = NodeId.resource name ∧
          ∃ v time, phase = .finished (.ok v) time :=
    hasEnded_setTaskPhase (r := { r with world := w }) (E := E) hn.tasks ht hf
  refine (hset.trans (or_iff_left ?_)).symm
  rintro ⟨hnode, v, time, hv⟩
  exact hphase _ hnode v time hv

theorem stocked_create (hg : g.Sound) (hn : r.Numbered) (hl : Live g ⟨r, E, none, []⟩)
    (h : (Stage.mk r E none []).Stocked) (ht : t ∈ r.tasks) {wake : Nat} {name : String}
    {act : World → Answer ResourceInstance × World} (hw : t.phase = .waiting wake (.create name act))
    (w : World) (creation : Except RunError ResourceInstance) :
    (Stage.mk ({ r with world := w, slots := (r.slots.acquire name creation).2 }.setTaskPhase t.number
      (.finished ((r.slots.acquire name creation).1.map fun _ => .created) w.now)) E none []).Stocked := by
  have hf : ∀ v time, t.phase ≠ .finished (.ok v) time := fun v time he => by
    rw [hw] at he
    cases he
  have hnode := node_of_creating hg hl ht (.inl ⟨wake, act, hw⟩)
  obtain ⟨slot, hslot, hnone⟩ := Slots.needsCreation_iff.1
    (needsCreation_of_creating hl h ht hnode hf)
  rw [Slots.acquire_eq hslot hnone]
  cases creation with
  | error e => exact stocked_setTaskPhase hn h ht hf (fun _ _ v time he => by cases he) w
  | ok i =>
    have hget : ∀ x, (r.slots.insert name { slot with created := some i }).get? x =
        if x = name then some { slot with created := some i } else r.slots.get? x :=
      fun x => SortedMap.get?_insert _ _ _ _
    let filled : Run :=
      { r with world := w, slots := r.slots.insert name { slot with created := some i } }
    have hset : ∀ x, (Stage.mk (filled.setTaskPhase t.number (.finished (.ok .created) w.now)) E none
        []).HasEnded x ↔ (Stage.mk filled E none []).HasEnded x ∨ t.node = x ∧
          ∃ v time, TaskPhase.finished (.ok .created) w.now = .finished (.ok v) time :=
      fun x => hasEnded_setTaskPhase (r := filled) (E := E) hn.tasks ht hf
    refine ⟨fun {x n} hx => ?_, fun {x held} hx => ?_⟩
    · obtain ⟨held, hheld⟩ := h.slot hx
      by_cases hxn : x = name
      · exact ⟨_, (hget x).trans (if_pos hxn)⟩
      · exact ⟨held, ((hget x).trans (if_neg hxn)).trans hheld⟩
    · have hx' : (r.slots.insert name { slot with created := some i }).get? x = some held := hx
      rw [hget] at hx'
      refine Iff.trans ?_ (hset (NodeId.resource x)).symm
      by_cases hxn : x = name
      · rw [if_pos hxn] at hx'
        cases hx'
        rw [hxn]
        exact iff_of_true ⟨i, rfl⟩ (.inr ⟨hnode, _, _, rfl⟩)
      · rw [if_neg hxn] at hx'
        refine (h.filled hx').trans (or_iff_left ?_).symm
        rintro ⟨hnode', -⟩
        exact hxn (NodeId.resource_inj (hnode'.symm.trans hnode))

theorem phaseAfterCall_ne {α : Type} (r : Run) (w : World)
    (pending : (World → Answer α × World) → PendingAct) (reaction : Reaction α) (v : WorkResult)
    (time : Nat) : r.phaseAfterCall w pending reaction ≠ .finished (.ok v) time := by
  intro hf
  rcases phaseAfterCall_cases r w pending reaction with ⟨m, he⟩ | he | ⟨wake, act, he⟩
  · cases he.symm.trans hf
  · cases he.symm.trans hf
  · cases he.symm.trans hf

theorem fits_resource (hg : g.Sound) (hl : Live g ⟨r, E, none, []⟩) (ht : t ∈ r.tasks) {name : String}
    (hnode : t.node = NodeId.resource name) : ∃ name' kindName arguments,
      t.phase.Fits r.settings.registry (.resource name' kindName arguments) := by
  obtain ⟨n, hn, hf⟩ := hl.fits ht
  have hn' : r.plan.node? t.node = some n := hn
  rw [hnode] at hn'
  have hres := hl.isResource_of_id hg hn'
  obtain ⟨name', kindName, arguments, hk⟩ := NodeKind.exists_of_isResource hres
  rw [hk] at hf
  exact ⟨name', kindName, arguments, hf⟩

theorem Works.stocked (hg : g.Sound) (hw : Works r e r') (hn : r.Numbered)
    (hl : Live g ⟨r, E, none, []⟩) (h : (Stage.mk r E none []).Stocked) :
    (Stage.mk r' E none []).Stocked := by
  cases hw with
  | callDestroy hd hq hc => exact ⟨h.slot, h.filled⟩
  | answerDestroy hd hw hc => exact ⟨h.slot, h.filled⟩
  | requestStop => exact ⟨h.slot, h.filled⟩
  | advance ht => exact ⟨h.slot, h.filled⟩
  | @task t e phase w slots ht hm =>
    cases hm with
    | create hw hc => exact stocked_create hg hn hl h ht hw w _
    | refuseStep hq hi =>
      exact stocked_setTaskPhase hn h ht (by simp [hq]) (fun _ _ v time he => by cases he) _
    | callStep hq hi hc =>
      exact stocked_setTaskPhase hn h ht (by simp [hq]) (fun _ _ => phaseAfterCall_ne r w _ _) _
    | refuseCreate hq hi =>
      exact stocked_setTaskPhase hn h ht (by simp [hq]) (fun _ _ v time he => by cases he) _
    | callCreate hq hi hneeds hc =>
      exact stocked_setTaskPhase hn h ht (by simp [hq]) (fun _ _ => phaseAfterCall_ne r w _ _) _
    | @reuse scope name kind arguments input hq hi hneeds hs =>
      have hnode := node_of_creating hg hl ht (.inr ⟨scope, kind, arguments, hq⟩)
      rw [needsCreation_of_creating hl h ht hnode (by simp [hq])] at hneeds
      cases hneeds
    | unavailable hq hi hs =>
      exact stocked_setTaskPhase hn h ht (by simp [hq]) (fun _ _ v time he => by cases he) _
    | expand hq =>
      refine stocked_setTaskPhase hn h ht (by simp [hq]) (fun name hnode => ?_) _
      obtain ⟨name', kindName, arguments, hf⟩ := fits_resource hg hl ht hnode
      rw [hq] at hf
      cases hf
    | answer hw hc =>
      refine stocked_setTaskPhase hn h ht (by simp [hw]) (fun name hnode => ?_) _
      obtain ⟨name', kindName, arguments, hf⟩ := fits_resource hg hl ht hnode
      rw [hw] at hf
      cases hf
    | expire hw hd =>
      exact stocked_setTaskPhase hn h ht (by simp [hw]) (fun _ _ v time he => by cases he) _
    | stop hw hs =>
      exact stocked_setTaskPhase hn h ht (by simp [hw]) (fun _ _ v time he => by cases he) _

end Works

theorem stocked_new {g : Graph} (hg : g.Sound) (settings : RunSettings) (stopRequested : Bool) :
    (Stage.mk (new settings g stopRequested) .none none []).Stocked := by
  constructor
  · intro name n hn
    have hn' : g.node? (NodeId.resource name) = some n := hn
    have hres := hg.isResource hn'
    rw [NodeId.isResource_resource] at hres
    obtain ⟨name', kind, arguments, hk⟩ := NodeKind.exists_of_isResource hres.symm
    obtain rfl := NodeId.resource_inj (hg.resource hn' hk)
    exact exists_get?_foldl_registerNode (p := Plan.ofGraph g) (Plan.ofGraph g).nodes.values .empty
      (.inr ⟨n, SortedMap.mem_values.2 ⟨_, hn'⟩, kind, arguments, hk⟩)
  · intro name slot hslot
    obtain ⟨n, hn, kind, arguments, hk, rfl⟩ := registered_of_slotsOf hslot
    refine iff_of_false (by rintro ⟨i, hi⟩; cases hi) ?_
    rintro (hs | ⟨d, hd⟩ | ⟨w, hw⟩ | ⟨u, hu, -⟩)
    · have hst : (Plan.ofGraph g).status? (NodeId.resource name) = some .succeeded :=
        Plan.hasSucceeded_iff.1 hs
      rw [Plan.status?, Plan.ofGraph, SortedMap.get?_mapValues] at hst
      obtain ⟨m, -, hst⟩ := Option.map_eq_some_iff.1 hst
      cases hst
    · cases hd
    · cases hw
    · cases hu

end Run

end Workplan
