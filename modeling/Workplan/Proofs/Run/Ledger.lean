import Workplan.Proofs.Run.Covering

/-! The ledger of instances: which have been created and whose destruction has been started, as lists that
grow with the run, against what the slots say. Every instance is handed back once, and nothing else is. -/
namespace Workplan
set_option autoImplicit false

/-- The slots are those of before up to who the consumers are. -/
def Slots.Alike (s s' : Slots) : Prop :=
  (∀ {name slot}, s.get? name = some slot → ∃ slot', s'.get? name = some slot' ∧
    slot'.kind = slot.kind ∧ slot'.created = slot.created ∧ slot'.handedBack = slot.handedBack) ∧
  ∀ {name slot'}, s'.get? name = some slot' → ∃ slot, s.get? name = some slot

namespace Slots.Alike
variable {s s' : Slots}

theorem refl (s : Slots) : Alike s s := ⟨fun h => ⟨_, h, rfl, rfl, rfl⟩, fun h => ⟨_, h⟩⟩

theorem symm (h : Alike s s') : Alike s' s := by
  constructor
  · intro name slot' hs'
    obtain ⟨slot, hs⟩ := h.2 hs'
    obtain ⟨slot'', hs'', hk, hc, hh⟩ := h.1 hs
    cases hs'.symm.trans hs''
    exact ⟨slot, hs, hk.symm, hc.symm, hh.symm⟩
  · intro name slot hs
    obtain ⟨slot', hs', -⟩ := h.1 hs
    exact ⟨slot', hs'⟩

theorem addConsumers (s : Slots) (uses : List (String × NodeId)) :
    Alike s (uses.foldl (fun s e => s.addConsumers e.1 [e.2]) s) := by
  constructor
  · intro name slot hs
    obtain ⟨slot', hs', hk, hc, hh, -⟩ := Slots.get?_foldl_addConsumers uses hs
    exact ⟨slot', hs', hk, hc, hh⟩
  · intro name slot' hs'
    exact Slots.exists_of_get?_foldl_addConsumers uses hs'

end Slots.Alike

/-- A graph declares a resource of a kind. -/
def Graph.Declares (g : Graph) (name kind : String) : Prop :=
  ∃ n arguments, g.node? (NodeId.resource name) = some n ∧ n.kind = .resource name kind arguments

namespace Run

def queuedInstance (d : DestroyTask) : Option (String × ResourceInstance) :=
  match d.phase with
  | .queued _ => some (d.resource, d.inst)
  | _ => none

/-- The instances whose destruction has been started and has not begun. -/
def queuedInstances (r : Run) : List (String × ResourceInstance) := r.destroys.filterMap queuedInstance

/-- What the slots say about the instances that have been created, and about those for which a destroy
handler has been called. -/
structure Ledger (g : Graph) (r : Run) (created called : List (String × ResourceInstance)) : Prop where
  kinds : ∀ {name slot}, r.slots.get? name = some slot →
    g.Declares name slot.kind ∧ ∃ k, r.settings.registry.kind? slot.kind = some k
  filled : ∀ {name i}, (name, i) ∈ created ↔
    ∃ slot, r.slots.get? name = some slot ∧ slot.created = some i
  filled_nodup : (created.map Prod.fst).Nodup
  handed : ∀ {name i}, (name, i) ∈ called ++ r.queuedInstances ↔
    ∃ slot, r.slots.get? name = some slot ∧ slot.created = some i ∧ slot.handedBack = true
  handed_nodup : ((called ++ r.queuedInstances).map Prod.fst).Nodup
  unfilled : ∀ {name slot}, r.slots.get? name = some slot → slot.created = none →
    slot.handedBack = false
  destroys : ∀ d ∈ r.destroys, r.slots.IsHandedBack d.resource
  handlers : ∀ {d handle}, d ∈ r.destroys → d.phase = .queued handle →
    ∃ kind k, g.Declares d.resource kind ∧ r.settings.registry.kind? kind = some k ∧ handle = k.destroy
  drained : r.phase ≠ .working → ∀ {name slot i}, r.slots.get? name = some slot →
    slot.created = some i → slot.handedBack = true
  /-- The slot that a creation will fill is empty. -/
  creating : ∀ {t wake name act}, t ∈ r.tasks → t.phase = .waiting wake (.create name act) →
    ∃ slot, r.slots.get? name = some slot ∧ slot.created = none

namespace Ledger
variable {g : Graph} {created called : List (String × ResourceInstance)} {r r' : Run}

theorem frame (h : r.Ledger g created called) (hset : r'.settings = r.settings)
    (hs : r.slots.Alike r'.slots) (hq : r'.queuedInstances = r.queuedInstances)
    (hd : ∀ d ∈ r'.destroys, d ∈ r.destroys)
    (hp : r'.phase ≠ .working → r.phase ≠ .working)
    (ht : ∀ t ∈ r'.tasks, ∀ wake name act, t.phase = .waiting wake (.create name act) →
      t ∈ r.tasks ∨ ∃ slot, r.slots.get? name = some slot ∧ slot.created = none) :
    r'.Ledger g created called where
  kinds := by
    intro name slot' hs'
    obtain ⟨slot, hs₀, hk, -, -⟩ := hs.symm.1 hs'
    rw [hset, ← hk]
    exact h.kinds hs₀
  filled := by
    intro name i
    rw [h.filled]
    constructor
    · rintro ⟨slot, hs₀, hc⟩
      obtain ⟨slot', hs', -, hc', -⟩ := hs.1 hs₀
      exact ⟨slot', hs', hc'.trans hc⟩
    · rintro ⟨slot', hs', hc'⟩
      obtain ⟨slot, hs₀, -, hc, -⟩ := hs.symm.1 hs'
      exact ⟨slot, hs₀, hc.trans hc'⟩
  filled_nodup := h.filled_nodup
  handed := by
    intro name i
    rw [hq, h.handed]
    constructor
    · rintro ⟨slot, hs₀, hc, hh⟩
      obtain ⟨slot', hs', -, hc', hh'⟩ := hs.1 hs₀
      exact ⟨slot', hs', hc'.trans hc, hh'.trans hh⟩
    · rintro ⟨slot', hs', hc', hh'⟩
      obtain ⟨slot, hs₀, -, hc, hh⟩ := hs.symm.1 hs'
      exact ⟨slot, hs₀, hc.trans hc', hh.trans hh'⟩
  handed_nodup := by
    rw [hq]
    exact h.handed_nodup
  unfilled := by
    intro name slot' hs' hc'
    obtain ⟨slot, hs₀, -, hc, hh⟩ := hs.symm.1 hs'
    rw [← hh]
    exact h.unfilled hs₀ (hc.trans hc')
  destroys := by
    intro d hd'
    obtain ⟨slot, hs₀, hh⟩ := h.destroys d (hd d hd')
    obtain ⟨slot', hs', -, -, hh'⟩ := hs.1 hs₀
    exact ⟨slot', hs', hh'.trans hh⟩
  handlers := by
    intro d handle hd' hq'
    rw [hset]
    exact h.handlers (hd d hd') hq'
  drained := by
    intro hp' name slot' i hs' hc'
    obtain ⟨slot, hs₀, -, hc, hh⟩ := hs.symm.1 hs'
    rw [← hh]
    exact h.drained (hp hp') hs₀ (hc.trans hc')
  creating := by
    intro t wake name act ht' hw
    obtain ⟨slot, hs₀, hc⟩ : ∃ slot, r.slots.get? name = some slot ∧ slot.created = none := by
      rcases ht t ht' wake name act hw with ht | hslot
      · exact h.creating ht hw
      · exact hslot
    obtain ⟨slot', hs', -, hc', -⟩ := hs.1 hs₀
    exact ⟨slot', hs', hc'.trans hc⟩

theorem congr (h : r.Ledger g created called) (hset : r'.settings = r.settings)
    (hs : r'.slots = r.slots) (hd : r'.destroys = r.destroys)
    (hp : r'.phase ≠ .working → r.phase ≠ .working)
    (ht : ∀ t ∈ r'.tasks, ∀ wake name act, t.phase = .waiting wake (.create name act) → t ∈ r.tasks) :
    r'.Ledger g created called := by
  refine h.frame hset ?_ ?_ ?_ hp fun t hm wake name act hw => .inl (ht t hm wake name act hw)
  · rw [hs]
    exact Slots.Alike.refl _
  · rw [queuedInstances, queuedInstances, hd]
  · intro d hm
    rw [hd] at hm
    exact hm

/-- Plan, timeline and whatever else is not about resources are of no account. -/
theorem same (h : r.Ledger g created called) (hset : r'.settings = r.settings)
    (hs : r'.slots = r.slots) (hd : r'.destroys = r.destroys) (hp : r'.phase = r.phase)
    (ht : r'.tasks = r.tasks) : r'.Ledger g created called :=
  h.congr hset hs hd (fun hw => hp ▸ hw) fun _ hm _ _ _ _ => ht ▸ hm

theorem dropDestroy (h : r.Ledger g created called) (hn : r.Numbered) {d : DestroyTask}
    (hd : d ∈ r.destroys) {result : DestroyResult} {time : Nat}
    (hf : d.phase = .finished result time) : (r.dropDestroy d.number).Ledger g created called := by
  obtain ⟨l₁, l₂, hsplit, -, hfilter⟩ := Numbering.exists_split hn.destroys hd
  have hdestroys : (r.dropDestroy d.number).destroys = l₁ ++ l₂ := hfilter
  refine h.frame rfl (Slots.Alike.refl _) ?_ (fun x hx => List.mem_of_mem_filter hx) (fun hp => hp)
    fun t ht wake name act _ => .inl ht
  have hnone : queuedInstance d = none := by
    rw [queuedInstance, hf]
  rw [queuedInstances, hdestroys, queuedInstances, hsplit, List.filterMap_append,
    List.filterMap_append, List.filterMap_cons, hnone]

/-! ## Handing back -/

theorem queuedInstances_spawnDestroys (owner : Option NodeId) (l : List Released)
    (hk : ∀ x ∈ l, ∃ k, r.settings.registry.kind? x.kind = some k) :
    (Run.spawnDestroys owner r l).1.queuedInstances =
      r.queuedInstances ++ l.map fun x => (x.name, x.inst) := by
  obtain ⟨ds, es, h⟩ := exists_spawns owner r l
  have hqueued : ds.filterMap queuedInstance = ds.map fun d => (d.resource, d.inst) := by
    rw [← List.filterMap_eq_map]
    refine List.filterMap_congr fun d hd => ?_
    obtain ⟨x, -, k, -, hd'⟩ := h.isDestroy d hd
    rw [queuedInstance, hd']
    rfl
  rw [h.eq, queuedInstances, List.filterMap_append, hqueued, h.instances hk]
  rfl

theorem mem_destroys_spawnDestroys (owner : Option NodeId) (l : List Released)
    {d : DestroyTask} (hd : d ∈ (Run.spawnDestroys owner r l).1.destroys) :
    d ∈ r.destroys ∨ ∃ x ∈ l, ∃ k, r.settings.registry.kind? x.kind = some k ∧
      d.resource = x.name ∧ d.phase = .queued k.destroy := by
  obtain ⟨ds, es, h⟩ := exists_spawns owner r l
  rw [h.eq] at hd
  rcases List.mem_append.1 hd with hd | hd
  · exact .inl hd
  · obtain ⟨x, hx, k, hk, hd'⟩ := h.isDestroy d hd
    exact .inr ⟨x, hx, k, hk, by rw [hd'], by rw [hd']⟩

theorem handBack (h : r.Ledger g created called) {f : String → Slot → Option Released × Slot}
    (hf : ∀ name slot, Slot.HandsBack name slot (f name slot)) (owner : Option NodeId)
    {phase : RunPhase} (hp : phase ≠ .working → r.phase ≠ .working ∨
      ∀ name slot, (f name slot).2.live? = none) :
    (Run.spawnDestroys owner { r with slots := (r.slots.handBackWith f).2, phase := phase }
      (r.slots.handBackWith f).1).1.Ledger g created called := by
  have hagree := agree_spawnDestroys owner
    { r with slots := (r.slots.handBackWith f).2, phase := phase } (r.slots.handBackWith f).1
  have hslots := slots_spawnDestroys owner
    { r with slots := (r.slots.handBackWith f).2, phase := phase } (r.slots.handBackWith f).1
  have hreg : ∀ x ∈ (r.slots.handBackWith f).1, g.Declares x.name x.kind ∧
      ∃ k, r.settings.registry.kind? x.kind = some k := by
    intro x hx
    obtain ⟨slot, hs, hk⟩ := Slots.kind_of_mem_handBackWith hf hx
    rw [← hk]
    exact h.kinds hs
  have hqueued := queuedInstances_spawnDestroys
    (r := { r with slots := (r.slots.handBackWith f).2, phase := phase }) owner
    (r.slots.handBackWith f).1 fun x hx => (hreg x hx).2
  -- The instances handed back join the queue of destructions, those of before stay in it.
  constructor
  case kinds =>
    intro name slot' hs'
    rw [hslots] at hs'
    obtain ⟨slot, hs, rfl⟩ := Slots.exists_of_get?_handBackWith hs'
    rw [hagree.settings, (hf name slot).kind]
    exact h.kinds hs
  case filled =>
    intro name i
    rw [hslots, Slots.exists_created_handBackWith hf]
    exact h.filled
  case filled_nodup => exact h.filled_nodup
  case handed =>
    intro name i
    rw [hqueued, ← List.append_assoc, List.mem_append, hslots, Slots.exists_handed_handBackWith hf]
    exact or_congr h.handed .rfl
  case handed_nodup =>
    rw [hqueued, ← List.append_assoc, List.map_append, List.map_map]
    refine List.nodup_append.2 ⟨h.handed_nodup, Slots.nodup_handBackWith hf, ?_⟩
    rintro a ha b hb rfl
    obtain ⟨⟨name, i⟩, hm, rfl⟩ := List.mem_map.1 ha
    obtain ⟨slot, hs, hc, hh⟩ := h.handed.1 hm
    obtain ⟨x, hx, he⟩ := List.mem_map.1 hb
    obtain ⟨slot', hs', -, hh', -⟩ := Slots.marked_of_mem_handBackWith hf hx
    have he' : x.name = name := he
    rw [he'] at hs'
    cases hs.symm.trans hs'
    rw [hh] at hh'
    cases hh'
  case unfilled =>
    intro name slot' hs' hc
    rw [hslots] at hs'
    obtain ⟨slot, hs, rfl⟩ := Slots.exists_of_get?_handBackWith hs'
    rw [(hf name slot).created] at hc
    rcases (hf name slot).released with ⟨-, he⟩ | ⟨i, -, hc', -⟩
    · rw [he]
      exact h.unfilled hs hc
    · cases hc.symm.trans hc'
  case destroys =>
    intro d hd
    rw [hslots]
    rcases mem_destroys_spawnDestroys owner _ hd with hd | ⟨x, hx, k, hk, he, -⟩
    · exact (h.destroys d hd).handBackWith hf
    · rw [he]
      exact .of_mem_handBackWith hf hx
  case handlers =>
    intro d handle hd hq
    rw [hagree.settings]
    rcases mem_destroys_spawnDestroys owner _ hd with hd | ⟨x, hx, k, hk, he, hphase⟩
    · exact h.handlers hd hq
    · rw [he]
      rw [hphase] at hq
      cases hq
      exact ⟨x.kind, k, (hreg x hx).1, hk, rfl⟩
  case drained =>
    intro hphase name slot' i hs' hc
    rw [hagree.phase] at hphase
    rw [hslots] at hs'
    obtain ⟨slot, hs, rfl⟩ := Slots.exists_of_get?_handBackWith hs'
    rcases hp hphase with hold | hlive
    · rw [(hf name slot).created] at hc
      exact (hf name slot).stays (h.drained hold hs hc)
    · exact Slot.handedBack_of_live?_eq_none (hlive name slot) hc
  case creating =>
    intro t wake name act ht hw
    rw [hagree.tasks] at ht
    rw [hslots, Slots.exists_created_handBackWith hf]
    exact h.creating ht hw

theorem release (h : r.Ledger g created called) (id : NodeId) :
    (r.release id).1.Ledger g created called :=
  h.handBack (fun _ _ => Slot.handsBack_release) (some id) fun hp => .inl hp

theorem drain (h : r.Ledger g created called) : (Run.spawnDestroys none
    { r with slots := r.slots.drain.2, phase := .tearingDown } r.slots.drain.1).1.Ledger g created
      called :=
  h.handBack (fun _ _ => Slot.handsBack_drain) none fun _ => .inr fun _ _ => Slot.live?_drain

end Ledger

section Moves
variable {g : Graph} {created called : List (String × ResourceInstance)}

theorem Ledger.conclude {r : Run} (h : r.Ledger g created called) (id : NodeId)
    (output : Option Value) : (r.conclude id output).Ledger g created called := by
  rw [conclude_eq]
  exact (h.release id).same rfl rfl rfl rfl rfl

theorem Ledger.blame {r : Run} (h : r.Ledger g created called) (id : NodeId) (e : RunError) :
    (r.blame id e).Ledger g created called := by
  rw [blame_eq]
  exact h.same rfl rfl rfl rfl rfl

theorem Ledger.credit {r : Run} (h : r.Ledger g created called) (owner : NodeId) :
    (r.credit owner).Ledger g created called := by
  rw [credit_eq]
  exact h.same rfl rfl rfl rfl rfl

end Moves
end Run

section Moves
variable {g : Graph} {s t : Stage} {created called : List (String × ResourceInstance)}

theorem Moves.ledger (hm : Moves s t) (hn : s.run.Numbered) (h : s.run.Ledger g created called) :
    t.run.Ledger g created called := by
  cases hm with
  | note r E a l id time hk => exact h.same rfl rfl rfl rfl rfl
  | blemish r E e => exact h.same rfl rfl rfl rfl rfl
  | collect E ht hf =>
    exact h.congr rfl rfl rfl (fun hp => hp) fun t ht' _ _ _ _ => List.mem_of_mem_filter ht'
  | @enqueue r E id t hp hlimit =>
    refine h.congr rfl rfl rfl (fun hp => hp) fun u hu wake name act hw => ?_
    rcases List.mem_append.1 hu with hu | hu
    · exact hu
    · obtain ⟨node, scope, work, -, -, -, rfl⟩ := Run.prepare_eq_ok hp
      rw [List.mem_singleton.1 hu] at hw
      cases hw
  | expand hE he =>
    exact h.frame rfl (Slots.Alike.addConsumers _ _) rfl (fun d hd => hd) (fun hp => hp)
      fun t ht _ _ _ _ => .inl ht
  | conclude r hE => exact h.conclude _ _
  | @fail r E id o e hf =>
    have hp : ({ r with plan := (r.plan.markFailed id e.message).1 } : Run).Ledger g created called :=
      h.same rfl rfl rfl rfl rfl
    exact hp.blame id e
  | release r E a id l => exact h.release id
  | skipIdle r E => exact h.same rfl rfl rfl rfl rfl
  | skipAll E reason ha => exact h.same rfl rfl rfl rfl rfl
  | observe E ha hs => exact h.same rfl rfl rfl rfl rfl
  | lose E ht hf => exact h.dropDestroy hn ht hf
  | discard E ht hf ho => exact h.dropDestroy hn ht hf
  | credit E ht hf ho => exact (h.dropDestroy hn ht hf).credit _
  | giveUp E hd hget => exact h.same rfl rfl rfl rfl rfl
  | stall E ha ht hd hr hw => exact h.same rfl rfl rfl rfl rfl
  | drain E hw ht hd hp => exact h.drain
  | close E hp hd =>
    refine h.congr rfl rfl rfl (fun _ => ?_) fun t ht _ _ _ _ => ht
    rw [hp]
    decide

theorem Path.ledger {l : List (Run × NodeId)} (hp : Path s l t) (hn : s.run.Numbered)
    (h : s.run.Ledger g created called) : t.run.Ledger g created called := by
  induction hp with
  | refl => exact h
  | move hp hm ih => exact hm.ledger (hp.numbered hn) ih
  | start hp hb ih =>
    cases hb with
    | mk E ha hlimit hr => exact ih.same rfl rfl rfl rfl rfl

end Moves

end Workplan
