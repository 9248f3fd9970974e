import Workplan.Proofs.Run.Release

/-! Slots: what happens to the slot of a resource. Handing back collects the instances of the slots that it
marks and changes nothing else but consumers; a slot whose consumers are not all released is not handed
back. -/
namespace Workplan
set_option autoImplicit false

/-- What handing back may do to one slot. -/
structure Slot.HandsBack (name : String) (slot : Slot) (out : Option Released × Slot) : Prop where
  kind : out.2.kind = slot.kind
  created : out.2.created = slot.created
  released : (out.1 = none ∧ out.2.handedBack = slot.handedBack) ∨
    ∃ i, out.1 = some ⟨name, slot.kind, i⟩ ∧ slot.created = some i ∧ slot.handedBack = false ∧
      out.2.handedBack = true

theorem Slot.HandsBack.stays {name : String} {slot : Slot} {out : Option Released × Slot}
    (h : HandsBack name slot out) (hh : slot.handedBack = true) : out.2.handedBack = true := by
  rcases h.released with ⟨-, he⟩ | ⟨i, -, -, -, he⟩
  · exact he.trans hh
  · exact he

namespace Slot
variable {name : String} {slot : Slot} {consumer : NodeId}

theorem live?_eq_some {i : ResourceInstance} : slot.live? = some i ↔
    slot.created = some i ∧ slot.handedBack = false := by
  rw [live?]
  cases slot.handedBack <;> simp

theorem live?_eq_none : slot.live? = none ↔ (slot.handedBack = false → slot.created = none) := by
  rw [live?]
  cases slot.handedBack <;> simp

theorem handedBack_of_live?_eq_none {i : ResourceInstance} (h : slot.live? = none)
    (hc : slot.created = some i) : slot.handedBack = true := by
  cases hh : slot.handedBack with
  | true => rfl
  | false =>
    rw [live?_eq_none.1 h hh] at hc
    cases hc

theorem handsBack_handBack (consumers : SortedSet NodeId) : HandsBack name slot
    (match ({ slot with consumers := consumers } : Slot).handBack name with
      | some (r, handed) => (some r, handed)
      | none => (none, { slot with consumers := consumers })) := by
  rw [handBack]
  cases hl : ({ slot with consumers := consumers } : Slot).live? with
  | none => exact ⟨rfl, rfl, .inl ⟨rfl, rfl⟩⟩
  | some i =>
    obtain ⟨hc, hh⟩ := live?_eq_some.1 hl
    exact ⟨rfl, rfl, .inr ⟨i, rfl, hc, hh, rfl⟩⟩

theorem handsBack_release : HandsBack name slot (slot.release name consumer) := by
  rw [release]
  split
  next => exact handsBack_handBack _
  next => exact ⟨rfl, rfl, .inl ⟨rfl, rfl⟩⟩

theorem mem_consumers_release {x : NodeId} :
    x ∈ (slot.release name consumer).2.consumers ↔ x ∈ slot.consumers ∧ x ≠ consumer := by
  have h : (slot.release name consumer).2.consumers = slot.consumers.erase consumer := by
    rw [release]
    split
    next =>
      rw [handBack]
      cases ({ slot with consumers := slot.consumers.erase consumer } : Slot).live? <;> rfl
    next => rfl
  rw [h, SortedSet.mem_erase]

theorem handedBack_release {x : NodeId} (hx : x ∈ slot.consumers) (hne : x ≠ consumer) :
    (slot.release name consumer).2.handedBack = slot.handedBack := by
  rw [release, if_neg]
  rintro ⟨-, he⟩
  have hm : x ∈ slot.consumers.erase consumer := SortedSet.mem_erase.2 ⟨hx, hne⟩
  rw [SortedSet.mem_def, List.isEmpty_iff.1 he] at hm
  cases hm

/-- Draining hands back whatever is alive. -/
def drain (name : String) (slot : Slot) : Option Released × Slot :=
  match slot.handBack name with
  | some (r, handed) => (some r, handed)
  | none => (none, slot)

theorem handsBack_drain : HandsBack name slot (slot.drain name) := handsBack_handBack slot.consumers

theorem live?_drain : (slot.drain name).2.live? = none := by
  rw [drain, handBack]
  cases hl : slot.live? with
  | none => exact hl
  | some i => rfl

end Slot

namespace Slots
variable {s : Slots} {name : String} {f : String → Slot → Option Released × Slot}

theorem get?_handBackWith (f : String → Slot → Option Released × Slot) (s : Slots) (name : String) :
    (s.handBackWith f).2.get? name = (s.get? name).map fun slot => (f name slot).2 :=
  SortedMap.get?_mapValues _ _ _

theorem get?_handBackWith_of_get? {slot : Slot} (hs : s.get? name = some slot) :
    (s.handBackWith f).2.get? name = some (f name slot).2 := by
  rw [get?_handBackWith, hs]
  rfl

theorem exists_of_get?_handBackWith {slot' : Slot}
    (hs : (s.handBackWith f).2.get? name = some slot') :
    ∃ slot, s.get? name = some slot ∧ (f name slot).2 = slot' := by
  rw [get?_handBackWith] at hs
  exact Option.map_eq_some_iff.1 hs

section HandsBack
variable (hf : ∀ name slot, Slot.HandsBack name slot (f name slot))
include hf

theorem mem_handBackWith {x : Released} : x ∈ (s.handBackWith f).1 ↔
    ∃ slot, s.get? x.name = some slot ∧ (f x.name slot).1 = some x := by
  rw [handBackWith, List.mem_filterMap]
  constructor
  · rintro ⟨⟨name, slot⟩, he, hx⟩
    have hname : x.name = name := by
      rcases (hf name slot).released with ⟨hn, -⟩ | ⟨i, hi, -⟩
      · cases hn.symm.trans hx
      · cases hi.symm.trans hx
        rfl
    subst hname
    exact ⟨slot, (SortedMap.mem_toList_iff _ _ _).1 he, hx⟩
  · rintro ⟨slot, hs, hx⟩
    exact ⟨(x.name, slot), (SortedMap.mem_toList_iff _ _ _).2 hs, hx⟩

theorem kind_of_mem_handBackWith {x : Released} (hx : x ∈ (s.handBackWith f).1) :
    ∃ slot, s.get? x.name = some slot ∧ slot.kind = x.kind := by
  obtain ⟨slot, hs, hxs⟩ := (mem_handBackWith hf).1 hx
  rcases (hf x.name slot).released with ⟨hnone, -⟩ | ⟨i, hi, -⟩
  · cases hnone.symm.trans hxs
  · exact ⟨slot, hs, by rw [← Option.some.inj (hi.symm.trans hxs)]⟩

theorem mem_map_handBackWith {i : ResourceInstance} :
    (name, i) ∈ ((s.handBackWith f).1.map fun x => (x.name, x.inst)) ↔
      ∃ slot, s.get? name = some slot ∧ slot.created = some i ∧ slot.handedBack = false ∧
        (f name slot).2.handedBack = true := by
  rw [List.mem_map]
  constructor
  · rintro ⟨x, hx, he⟩
    cases he
    obtain ⟨slot, hs, hxs⟩ := (mem_handBackWith hf).1 hx
    rcases (hf x.name slot).released with ⟨hnone, -⟩ | ⟨i, hi, hc, hh, hh'⟩
    · cases hnone.symm.trans hxs
    · have hx' : x.inst = i := by
        rw [← Option.some.inj (hi.symm.trans hxs)]
      rw [hx']
      exact ⟨slot, hs, hc, hh, hh'⟩
  · rintro ⟨slot, hs, hc, hh, hh'⟩
    rcases (hf name slot).released with ⟨-, he⟩ | ⟨j, hj, hc', -, -⟩
    · rw [he, hh] at hh'
      cases hh'
    · cases hc.symm.trans hc'
      exact ⟨⟨name, slot.kind, i⟩, (mem_handBackWith hf).2 ⟨slot, hs, hj⟩, rfl⟩

theorem exists_created_handBackWith {c : Option ResourceInstance} :
    (∃ slot, (s.handBackWith f).2.get? name = some slot ∧ slot.created = c) ↔
      ∃ slot, s.get? name = some slot ∧ slot.created = c := by
  constructor
  · rintro ⟨slot', hs', hc⟩
    obtain ⟨slot, hs, rfl⟩ := exists_of_get?_handBackWith hs'
    exact ⟨slot, hs, (hf name slot).created.symm.trans hc⟩
  · rintro ⟨slot, hs, hc⟩
    exact ⟨_, get?_handBackWith_of_get? hs, (hf name slot).created.trans hc⟩

/-- The instances that have been handed back are those of before and those that are collected. -/
theorem exists_handed_handBackWith {i : ResourceInstance} :
    (∃ slot, (s.handBackWith f).2.get? name = some slot ∧ slot.created = some i ∧
        slot.handedBack = true) ↔
      (∃ slot, s.get? name = some slot ∧ slot.created = some i ∧ slot.handedBack = true) ∨
        (name, i) ∈ (s.handBackWith f).1.map fun x => (x.name, x.inst) := by
  rw [mem_map_handBackWith hf]
  constructor
  · rintro ⟨slot', hs', hc, hh'⟩
    obtain ⟨slot, hs, rfl⟩ := exists_of_get?_handBackWith hs'
    rw [(hf name slot).created] at hc
    cases hh : slot.handedBack with
    | true => exact .inl ⟨slot, hs, hc, hh⟩
    | false => exact .inr ⟨slot, hs, hc, hh, hh'⟩
  · rintro (⟨slot, hs, hc, hh⟩ | ⟨slot, hs, hc, -, hh'⟩)
    · exact ⟨_, get?_handBackWith_of_get? hs, (hf name slot).created.trans hc, (hf name slot).stays hh⟩
    · exact ⟨_, get?_handBackWith_of_get? hs, (hf name slot).created.trans hc, hh'⟩

theorem marked_of_mem_handBackWith {x : Released} (hx : x ∈ (s.handBackWith f).1) :
    ∃ slot, s.get? x.name = some slot ∧ slot.created = some x.inst ∧ slot.handedBack = false ∧
      (f x.name slot).2.handedBack = true :=
  (mem_map_handBackWith hf).1 (List.mem_map_of_mem (f := fun x : Released => (x.name, x.inst)) hx)

theorem nodup_handBackWith : ((s.handBackWith f).1.map Released.name).Nodup := by
  have hall : ∀ l : List (String × Slot),
      ((l.filterMap fun e => (f e.1 e.2).1).map Released.name).Sublist (l.map Prod.fst) := by
    intro l
    induction l with
    | nil => exact List.Sublist.refl _
    | cons e l ih =>
      rcases (hf e.1 e.2).released with ⟨hn, -⟩ | ⟨i, hi, -⟩
      · rw [List.filterMap_cons, hn]
        exact ih.cons e.1
      · rw [List.filterMap_cons, hi]
        exact ih.cons_cons e.1
  exact (hall s.toList).nodup s.nodup_keys

end HandsBack

theorem release_eq (s : Slots) (consumer : NodeId) :
    s.release consumer = s.handBackWith fun name slot => slot.release name consumer := rfl

/-! ## Consumers -/

theorem get?_addConsumers (s : Slots) (name x : String) (consumers : List NodeId) :
    (s.addConsumers name consumers).get? x = if x = name then (s.get? x).map fun slot =>
      { slot with consumers := consumers.foldl SortedSet.insert slot.consumers } else s.get? x :=
  SortedMap.get?_modify _ _ _ _

theorem get?_foldl_addConsumers (uses : List (String × NodeId)) {slot : Slot}
    (h : s.get? name = some slot) : ∃ slot',
      (uses.foldl (fun s e => s.addConsumers e.1 [e.2]) s).get? name = some slot' ∧
      slot'.kind = slot.kind ∧ slot'.created = slot.created ∧ slot'.handedBack = slot.handedBack ∧
      ∀ c, c ∈ slot'.consumers ↔ c ∈ slot.consumers ∨ (name, c) ∈ uses := by
  induction uses generalizing s slot with
  | nil => exact ⟨slot, h, rfl, rfl, rfl, fun c => by simp⟩
  | cons e uses ih =>
    rw [List.foldl_cons]
    by_cases hn : name = e.1
    · have hget : (s.addConsumers e.1 [e.2]).get? name =
          some { slot with consumers := [e.2].foldl SortedSet.insert slot.consumers } := by
        rw [get?_addConsumers, if_pos hn, h]
        rfl
      obtain ⟨slot', hs', hk, hc, hh, hm⟩ := ih hget
      refine ⟨slot', hs', hk, hc, hh, fun c => ?_⟩
      rw [hm c, SortedSet.mem_foldl_insert, List.mem_singleton, List.mem_cons, or_assoc]
      have he : c = e.2 ↔ (name, c) = e := by
        rw [Prod.ext_iff]
        exact ⟨fun hc => ⟨hn, hc⟩, fun hc => hc.2⟩
      rw [he]
    · have hget : (s.addConsumers e.1 [e.2]).get? name = some slot := by
        rw [get?_addConsumers, if_neg hn]
        exact h
      obtain ⟨slot', hs', hk, hc, hh, hm⟩ := ih hget
      refine ⟨slot', hs', hk, hc, hh, fun c => ?_⟩
      have he : (name, c) ≠ e := by
        rintro rfl
        exact hn rfl
      rw [hm c, List.mem_cons, or_iff_right he]

theorem exists_of_get?_foldl_addConsumers (uses : List (String × NodeId)) {slot' : Slot}
    (h : (uses.foldl (fun s e => s.addConsumers e.1 [e.2]) s).get? name = some slot') :
    ∃ slot, s.get? name = some slot := by
  induction uses generalizing s with
  | nil => exact ⟨slot', h⟩
  | cons e uses ih =>
    obtain ⟨slot, hs⟩ := ih h
    rw [get?_addConsumers] at hs
    split at hs
    next =>
      obtain ⟨slot₀, hs₀, -⟩ := Option.map_eq_some_iff.1 hs
      exact ⟨slot₀, hs₀⟩
    next => exact ⟨slot, hs⟩

/-! ## Creation -/

theorem needsCreation_iff : s.needsCreation name = true ↔
    ∃ slot, s.get? name = some slot ∧ slot.created = none := by
  rw [needsCreation]
  cases s.get? name <;> simp

theorem acquire_eq {slot : Slot} (h : s.get? name = some slot) (hc : slot.created = none)
    (creation : Except RunError ResourceInstance) :
    s.acquire name creation = (creation, match creation with
      | .ok i => s.insert name { slot with created := some i }
      | .error _ => s) := by
  rw [acquire, h]
  cases creation with
  | ok i => simp only [hc]
  | error e => simp only [hc]

end Slots

end Workplan
