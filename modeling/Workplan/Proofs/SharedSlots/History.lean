import Workplan.Proofs.SharedSlots

/-! Histories of shared slots: what holds of everything that callers have seen, whichever way their steps
have come to follow each other. What has been created and what has been handed back can be read off the
slots at any time; all else follows from that. -/
namespace Workplan
open Function SlotEvent
set_option autoImplicit false

namespace Slot

theorem release_eq_some {slot : Slot} {name : String} {consumer : NodeId} {r : Released} :
    (slot.release name consumer).1 = some r ↔ r = ⟨name, slot.kind, r.inst⟩ ∧
      slot.live? = some r.inst ∧ ∀ c, c ∈ slot.consumers ↔ c = consumer := by
  have hlast : (consumer ∈ slot.consumers ∧ (slot.consumers.erase consumer).isEmpty = true) ↔
      ∀ c, c ∈ slot.consumers ↔ c = consumer := by
    constructor
    · rintro ⟨hmem, hempty⟩ c
      refine ⟨fun hc => by_contra fun hne => ?_, fun hc => hc ▸ hmem⟩
      have hm : c ∈ slot.consumers.erase consumer := SortedSet.mem_erase.2 ⟨hc, hne⟩
      rw [SortedSet.mem_def, List.isEmpty_iff.1 hempty] at hm
      cases hm
    · intro h
      refine ⟨(h consumer).2 rfl, List.isEmpty_iff.2 (List.eq_nil_iff_forall_not_mem.2 fun c hc => ?_)⟩
      obtain ⟨hm, hne⟩ := SortedSet.mem_erase.1 (SortedSet.mem_def.2 hc)
      exact hne ((h c).1 hm)
  rw [← hlast, release]
  split
  next hc =>
    simp only [handBack, live?, hc, and_self, and_true]
    cases slot.handedBack with
    | true => simp
    | false =>
      cases slot.created with
      | none => simp
      | some j =>
        simp only [Bool.false_eq_true, if_false, Option.map_some, Option.some.injEq]
        constructor
        · rintro rfl
          exact ⟨rfl, rfl⟩
        · rintro ⟨h, rfl⟩
          exact h.symm
  next hc => simp [hc]

end Slot

namespace SharedSlots

section Logs
variable {m m' : SharedSlots} {h h' : List SlotEvent} {e : SlotEvent} {x : String}
  {i : ResourceInstance} {r : Released}

@[simp] theorem creations_append : creations (h ++ h') = creations h ++ creations h' :=
  List.filterMap_append

@[simp] theorem creations_nil : creations [] = [] := rfl

@[simp] theorem creations_cons : creations (e :: h) = e.created?.toList ++ creations h := by
  rw [creations, creations, List.filterMap_cons]
  cases e.created? <;> rfl

theorem creations_singleton : creations [e] = e.created?.toList := by
  rw [creations_cons]
  exact List.append_nil _

@[simp] theorem handedBack_append : handedBack (h ++ h') = handedBack h ++ handedBack h' :=
  List.filterMap_append

@[simp] theorem handedBack_singleton : handedBack [e] = e.handed?.toList := by
  rw [handedBack]
  cases hc : e.handed? <;> simp [hc]

theorem exclusive_empty : empty.Exclusive := ⟨nofun, nofun⟩

theorem Steps.exclusive (hx : m.Exclusive) (hs : Steps m h m') : m'.Exclusive := by
  induction hs with
  | nil => exact hx
  | snoc _ he ih => exact he.exclusive ih

theorem Steps.made (hx : m.Exclusive) (hs : Steps m h m') : m'.slots.made? x = some i ↔
    m.slots.made? x = some i ∨ (x, i) ∈ creations h := by
  induction hs with
  | nil => simp [creations]
  | snoc hs he ih => rw [he.made (hs.exclusive hx), ih]; simp [or_assoc]

theorem Steps.gone (hx : m.Exclusive) (hs : Steps m h m') : m'.slots.isGone x = true ↔
    m.slots.isGone x = true ∨ ∃ r ∈ handedBack h, r.name = x := by
  induction hs with
  | nil => simp [handedBack]
  | snoc hs he ih => rw [he.gone (hs.exclusive hx), ih]; simp [or_and_right, exists_or, or_assoc]

end Logs

/-! ## From the beginning -/

section History
variable {m : SharedSlots} {h : List SlotEvent} {x : String} {i : ResourceInstance} {r : Released}

theorem Steps.made_iff (hs : Steps .empty h m) : m.slots.made? x = some i ↔ (x, i) ∈ creations h :=
  (hs.made exclusive_empty).trans (or_iff_right nofun)

theorem Steps.gone_iff (hs : Steps .empty h m) :
    m.slots.isGone x = true ↔ ∃ r ∈ handedBack h, r.name = x :=
  (hs.gone exclusive_empty).trans (or_iff_right nofun)

theorem nodup_map_append_toList {α β : Type} {f : α → β} {l : List α} {o : Option α}
    (hl : (l.map f).Nodup) (ho : ∀ a, o = some a → f a ∉ l.map f) :
    ((l ++ o.toList).map f).Nodup := by
  cases o with
  | none => simpa using hl
  | some a =>
    rw [List.map_append]
    refine List.nodup_append.2 ⟨hl, List.nodup_singleton _, fun b hb c hc hbc => ho a rfl ?_⟩
    rw [← List.mem_singleton.1 hc, ← hbc]
    exact hb

theorem Steps.nodup_creations (hs : Steps .empty h m) : ((creations h).map Prod.fst).Nodup := by
  induction hs with
  | nil => exact List.nodup_nil
  | snoc hs he ih =>
    rw [creations_append, creations_singleton]
    refine nodup_map_append_toList ih fun p hp hmem => ?_
    obtain ⟨⟨x, i⟩, hm, rfl⟩ := List.mem_map.1 hmem
    cases (he.made_of_created (hs.exclusive exclusive_empty) hp).symm.trans (hs.made_iff.2 hm)

theorem Steps.nodup_handedBack (hs : Steps .empty h m) : ((handedBack h).map Released.name).Nodup := by
  induction hs with
  | nil => exact List.nodup_nil
  | snoc hs he ih =>
    rw [handedBack_append, handedBack_singleton]
    refine nodup_map_append_toList ih fun r hr hmem => ?_
    cases (he.live_of_handed hr).2.symm.trans (hs.gone_iff.2 (List.mem_map.1 hmem))

theorem Steps.created_of_obtained (hs : Steps .empty h m) (ho : (x, i) ∈ obtained h) :
    (x, i) ∈ creations h := by
  induction hs with
  | nil => cases ho
  | @snoc h m' m'' e hs he ih =>
    rw [obtained, List.filterMap_append, List.mem_append] at ho
    rcases ho with ho | ho
    · rw [creations_append, List.mem_append]
      exact .inl (ih ho)
    · have ho : e.obtained? = some (x, i) := by simpa using ho
      exact (hs.snoc he).made_iff.1 (he.made_of_obtained (hs.exclusive exclusive_empty) ho)

theorem Steps.created_of_handedBack (hs : Steps .empty h m) (hr : r ∈ handedBack h) :
    (r.name, r.inst) ∈ creations h := by
  induction hs with
  | nil => cases hr
  | @snoc h m' m'' e hs he ih =>
    rw [handedBack_append, List.mem_append] at hr
    rw [creations_append, List.mem_append]
    rcases hr with hr | hr
    · exact .inl (ih hr)
    · have hr : e.handed? = some r := by simpa using hr
      exact .inl (hs.made_iff.1 (he.live_of_handed hr).1)

theorem Steps.perm_answers (hs : Steps .empty h m) :
    (answers h ++ m.sweep.elim [] fun s => s.2.2).Perm (handedBack h) := by
  induction hs with
  | nil => exact .refl _
  | @snoc h m' m'' e hs he ih =>
    rw [answers, List.flatMap_append, handedBack_append, handedBack_singleton]
    cases he with
    | start sweep hlock _ => simpa [answers, answered, handed?, hlock] using ih
    | @visit sweep name left found slot hlock hn =>
      simpa [answers, answered, handed?, hlock] using ih.append_right _
    | @finish sweep found hlock =>
      rw [hlock] at ih
      simpa [answers, answered, handed?] using ((sweep.perm_answer found).append_left _).trans ih
    | _ => simpa [answers, answered, handed?] using ih

end History

/-! ## Calls that come to nothing -/

def without (m : SharedSlots) (c : Nat) : SharedSlots := { m with callers := update m.callers c none }

section Without
variable {m m' : SharedSlots} {h : List SlotEvent} {e : SlotEvent} {c : Nat} {x : String}

theorem Step.waiting (hs : Step m e m') (hc : m'.callers c ≠ none) (he : ∀ x, e ≠ .enter c x) :
    m.callers c ≠ none := by
  have hother : ∀ {c'} {y : Option (String × Bool)}, (c = c' → m.callers c ≠ none) →
      update m.callers c' y c ≠ none → m.callers c ≠ none := by
    intro c' y hself hc
    by_cases hcc : c = c'
    · exact hself hcc
    · rwa [update_of_ne hcc] at hc
  cases hs with
  | @enter c' name _ _ _ => exact hother (fun hcc => absurd (hcc ▸ rfl) (he name)) hc
  | create hwait _ _ => exact hother (by rintro rfl; simp [hwait]) hc
  | created _ hwait => exact hother (by rintro rfl; simp [hwait]) hc
  | join _ hwait _ => exact hother (by rintro rfl; simp [hwait]) hc
  | leave hwait => exact hother (by rintro rfl; simp [hwait]) hc
  | _ => exact hc

theorem without_of_startsCreation (hs : Step m e m') (he : e.startsCreation c = true) :
    m'.without c = m.without c := by
  cases hs with
  | @create c' =>
    rw [of_decide_eq_true he]
    simp only [without, update_idem]
  | _ => cases he

/-- While a caller waits, the others do as they would do without it. -/
theorem Step.without (hs : Step m e m') (hc' : m'.callers c ≠ none) (he : ∀ x, e ≠ .enter c x)
    (hstart : e.startsCreation c = false) : Step (m.without c) e (m'.without c) := by
  have hcomm : ∀ {c'} {y : Option (String × Bool)} (slots : Slots), c' ≠ c →
      SharedSlots.without ⟨slots, update m.callers c' y, m.sweep⟩ c =
        ⟨slots, update (m.without c).callers c' y, m.sweep⟩ := by
    intro c' y slots hcc
    simp only [SharedSlots.without, update_comm hcc]
  have hkept : ∀ {c' : Nat}, c' ≠ c → (m.without c).callers c' = m.callers c' := fun hcc =>
    update_of_ne hcc _ _
  have hends : ∀ {c'}, update m.callers c' none c ≠ none → c' ≠ c := by
    rintro c' h rfl
    exact h (update_self _ _ _)
  cases hs with
  | register kind consumers hlock hn => exact .register kind consumers hlock hn
  | addConsumers name consumers hlock => exact .addConsumers name consumers hlock
  | look name hlock => exact .look name hlock
  | refuse c' creation hlock hn => exact .refuse c' creation hlock hn
  | @enter c' name hlock hn hfree =>
    have hcc : c' ≠ c := fun hcc => he name (hcc ▸ rfl)
    rw [hcomm _ hcc]
    exact .enter hlock hn ((hkept hcc).trans hfree)
  | @create c' name hwait hn alone =>
    have hcc : c' ≠ c := of_decide_eq_false hstart
    rw [hcomm _ hcc]
    -- nobody creates the resource, all the less without the one that waits
    refine .create ((hkept hcc).trans hwait) hn fun d hd => ?_
    by_cases hdc : d = c
    · rw [hdc, SharedSlots.without] at hd
      cases (update_self c none m.callers).symm.trans hd
    · exact alone d ((hkept hdc).symm.trans hd)
  | created creation hwait =>
    have hcc := hends hc'
    rw [hcomm _ hcc]
    exact .created creation ((hkept hcc).trans hwait)
  | join creation hwait hn =>
    have hcc := hends hc'
    rw [hcomm _ hcc]
    exact .join creation ((hkept hcc).trans hwait) hn
  | leave hwait =>
    have hcc := hends hc'
    rw [hcomm _ hcc]
    exact .leave ((hkept hcc).trans hwait)
  | start sweep hlock hleft => exact .start sweep hlock hleft
  | visit hlock hn => exact .visit hlock hn
  | finish hlock => exact .finish hlock

theorem Steps.without (hs : Steps m h m') (hc : m'.callers c ≠ none) (hno : ∀ x, .enter c x ∉ h) :
    Steps (m.without c) (h.filter fun e => !e.startsCreation c) (m'.without c) := by
  induction hs with
  | nil => exact .nil
  | @snoc h p p' e hs he ih =>
    have hne : ∀ x, e ≠ .enter c x := by
      rintro x rfl
      exact hno x (by simp)
    have ih := ih (he.waiting hc hne) fun x hx => hno x (List.mem_append_left _ hx)
    rw [List.filter_append]
    cases hstart : e.startsCreation c with
    | false =>
      have hkeeps : [e].filter (fun e => !e.startsCreation c) = [e] := by simp [hstart]
      rw [hkeeps]
      exact ih.snoc (he.without hc hne hstart)
    | true =>
      have hdrops : [e].filter (fun e => !e.startsCreation c) = [] := by simp [hstart]
      rw [hdrops, List.append_nil, without_of_startsCreation he hstart]
      exact ih

theorem Step.of_fruitless (hs : Step m e m') (he : e.IsFruitless c) :
    m.callers c ≠ none ∧ m' = m.without c := by
  cases he with
  | failed name err answer =>
    cases hs with
    | created _ hwait => exact ⟨by simp [hwait], by rw [Slots.acquire_error]; rfl⟩
  | left =>
    cases hs with
    | leave hwait => exact ⟨by simp [hwait], rfl⟩

/-- A call that comes to nothing might as well not have been made. -/
theorem Steps.of_fruitless {h₁ h₂ : List SlotEvent}
    (hs : Steps m (h₁ ++ .enter c x :: (h₂ ++ [e])) m') (he : e.IsFruitless c)
    (hno : ∀ y, .enter c y ∉ h₂) : Steps m (h₁ ++ h₂.filter fun e => !e.startsCreation c) m' := by
  obtain ⟨p, hbefore, hs⟩ := hs.exists_middle
  obtain ⟨q, henter, hs⟩ := hs.exists_first
  obtain ⟨q', hmeanwhile, hlast⟩ := hs.exists_middle
  obtain ⟨hwait, rfl⟩ := hlast.step_of_singleton.of_fruitless he
  have hq : q.without c = p := by
    cases henter with
    | enter _ _ hfree =>
      rw [SharedSlots.without, update_idem, ← hfree, update_eq_self]
  -- what happens between the entry and the end of the call happens without the caller as well
  have hrest := hmeanwhile.without hwait hno
  rw [hq] at hrest
  exact hbefore.trans hrest

end Without

/-! ## Drains -/

section Drain
variable {m m' : SharedSlots} {h h' : List SlotEvent} {x : String} {i : ResourceInstance}

theorem Step.gone_of_drain {found : Option Released} (hs : Step m (.visit .drain x found) m')
    (hm : m.slots.made? x = some i) : m'.slots.isGone x = true := by
  cases hs with
  | @visit _ _ left _ slot _ hn =>
    have hcreated : (slot.drain x).2.created = some i := by
      rw [Slots.made?, hn] at hm
      exact Slot.handsBack_drain.created.trans hm
    rw [Slots.isGone, SortedMap.get?_insert, if_pos rfl]
    by_contra hgone
    have hlive : (slot.drain x).2.live? = none := Slot.live?_drain
    have hnone := Slot.live?_eq_none.1 hlive (Bool.eq_false_iff.2 hgone)
    cases hnone.symm.trans hcreated

theorem Steps.gone_of_drain {found : Option Released} (hs : Steps .empty (h ++ h') m)
    (hc : (x, i) ∈ creations h) (hv : .visit .drain x found ∈ h') : m.slots.isGone x = true := by
  obtain ⟨a, b, rfl⟩ := List.append_of_mem hv
  obtain ⟨p, hbefore, hs⟩ := hs.exists_middle
  obtain ⟨q, hwait, hs⟩ := hs.exists_middle
  obtain ⟨q', hvisit, hafter⟩ := hs.exists_first
  have hp := hbefore.exclusive exclusive_empty
  have hq := hwait.exclusive hp
  have hmade := (hwait.made hp).2 (.inl (hbefore.made_iff.2 hc))
  exact (hafter.gone (hvisit.exclusive hq)).2 (.inl (hvisit.gone_of_drain hmade))

theorem Steps.visited {sweep : Sweep} {left : List String} {found : List Released}
    (hlock : m.sweep = some (sweep, left, found)) (hs : Steps m h m') :
    (∃ left' found', m'.sweep = some (sweep, left', found') ∧
      ∀ x ∈ left, x ∈ left' ∨ ∃ r, .visit sweep x r ∈ h) ∨
    ∀ x ∈ left, ∃ r, .visit sweep x r ∈ h := by
  -- while the sweep is on its way, nobody else gets the lock, and its list only becomes shorter
  induction hs with
  | nil => exact .inl ⟨left, found, hlock, fun x hx => .inl hx⟩
  | @snoc h p p' e hs he ih =>
    have hmono : ∀ {x}, (∃ r, .visit sweep x r ∈ h) → ∃ r, .visit sweep x r ∈ h ++ [e] :=
      fun ⟨r, hr⟩ => ⟨r, List.mem_append_left _ hr⟩
    rcases ih with ⟨left', found', hp, hleft⟩ | hall
    · have hstays : p'.sweep = p.sweep → ∃ left' found', p'.sweep = some (sweep, left', found') ∧
          ∀ x ∈ left, x ∈ left' ∨ ∃ r, .visit sweep x r ∈ h ++ [e] := fun heq =>
        ⟨left', found', heq.trans hp, fun x hx => (hleft x hx).imp_right hmono⟩
      cases he with
      | start _ hfree _ => cases hp.symm.trans hfree
      | @visit _ name rest _ slot hp' _ =>
        cases hp.symm.trans hp'
        refine .inl ⟨rest, _, rfl, fun x hx => ?_⟩
        rcases hleft x hx with hx | hx
        · rcases List.mem_cons.1 hx with rfl | hx
          · exact .inr ⟨_, List.mem_append_right _ (List.mem_singleton_self _)⟩
          · exact .inl hx
        · exact .inr (hmono hx)
      | finish hp' =>
        cases hp.symm.trans hp'
        exact .inr fun x hx => hmono ((hleft x hx).resolve_left List.not_mem_nil)
      | _ => exact .inl (hstays rfl)
    · exact .inr fun x hx => hmono (hall x hx)

theorem Steps.visited_of_finish {h₁ h₂ h₃ : List SlotEvent} {answer : List Released}
    (hs : Steps .empty (h₁ ++ .start .drain :: (h₂ ++ .finish .drain answer :: h₃)) m)
    (hc : (x, i) ∈ creations h₁) : ∃ found, .visit .drain x found ∈ h₂ := by
  obtain ⟨p, hbefore, hs⟩ := hs.exists_middle
  obtain ⟨q, hstart, hs⟩ := hs.exists_first
  obtain ⟨q', hdrain, hs⟩ := hs.exists_middle
  obtain ⟨q'', hfinish, -⟩ := hs.exists_first
  have hkey : x ∈ p.slots.keys := by
    have hmade := hbefore.made_iff.2 hc
    rw [Slots.made?] at hmade
    obtain ⟨slot, hslot, -⟩ := Option.bind_eq_some_iff.1 hmade
    exact SortedMap.mem_keys.2 ⟨slot, hslot⟩
  cases hstart with
  | start sweep _ hleft =>
    rcases hdrain.visited rfl with ⟨left, found, hq, hall⟩ | hall
    · cases hfinish with
      | finish hq' =>
        cases hq.symm.trans hq'
        exact (hall x (hleft.mem_iff.2 hkey)).resolve_left List.not_mem_nil
    · exact hall x (hleft.mem_iff.2 hkey)

end Drain

/-! ## What callers can rely on -/

/-- What holds of the slots `m` after the events `h`. -/
structure Faithful (h : List SlotEvent) (m : SharedSlots) : Prop where
  /-- In a slot, one creation succeeds at most. -/
  creations_once : ((creations h).map Prod.fst).Nodup
  /-- The slot holds that instance from then on. -/
  made : ∀ {x i}, m.slots.made? x = some i ↔ (x, i) ∈ creations h
  /-- Whoever is given an instance is given that one. -/
  obtained : ∀ {x i}, (x, i) ∈ obtained h → (x, i) ∈ creations h
  /-- It is handed back once at most, whichever way. -/
  handedBack_once : ((handedBack h).map Released.name).Nodup
  handedBack : ∀ {r}, r ∈ handedBack h → (r.name, r.inst) ∈ creations h
  /-- The calls answer what is handed back; a sweep that has not ended is going to. -/
  answers : (answers h ++ m.sweep.elim [] fun s => s.2.2).Perm (SlotEvent.handedBack h)
  /-- A release hands back the live instance of which it removes the last consumer. -/
  released : ∀ {h₁ h₂ c x found}, h = h₁ ++ .visit (.release c) x found :: h₂ → ∃ p slot,
    Steps .empty h₁ p ∧ p.slots.get? x = some slot ∧ ∀ r, found = some r ↔
      r = ⟨x, slot.kind, r.inst⟩ ∧ slot.live? = some r.inst ∧ ∀ c', c' ∈ slot.consumers ↔ c' = c
  /-- An instance is there from its creation until it is handed back. -/
  live : ∀ {x i}, m.slots.instance? x = some i ↔
    (x, i) ∈ creations h ∧ ∀ r ∈ SlotEvent.handedBack h, r.name ≠ x
  /-- So says the answer, too. -/
  looks : ∀ {h₁ h₂ x answer i}, h = h₁ ++ .look x answer :: h₂ → (answer = some i ↔
    (x, i) ∈ creations h₁ ∧ ∀ r ∈ SlotEvent.handedBack h₁, r.name ≠ x)
  /-- A call that comes to nothing might as well not have been made. -/
  fruitless : ∀ {h₁ h₂ c x e}, h = h₁ ++ .enter c x :: (h₂ ++ [e]) → e.IsFruitless c →
    (∀ y, .enter c y ∉ h₂) → Steps .empty (h₁ ++ h₂.filter fun e => !e.startsCreation c) m
  /-- Nothing is left over by a drain if no creation ends behind it. -/
  drained : ∀ {h₁ h₂ h₃ answer}, h = h₁ ++ .start .drain :: (h₂ ++ .finish .drain answer :: h₃) →
    (∀ {a e b x i}, h₂ = a ++ e :: b → e.created? = some (x, i) →
      ∃ found, .visit .drain x found ∈ b) → creations h₃ = [] →
    ((SlotEvent.handedBack h).map fun r => (r.name, r.inst)).Perm (creations h)

section Faithful
variable {m : SharedSlots} {h : List SlotEvent} {x : String} {i : ResourceInstance}

theorem Steps.live_iff (hs : Steps .empty h m) : m.slots.instance? x = some i ↔
    (x, i) ∈ creations h ∧ ∀ r ∈ handedBack h, r.name ≠ x := by
  rw [Slots.instance?_eq_some, hs.made_iff, ← Bool.not_eq_true, hs.gone_iff]
  simp only [not_exists, not_and]

/-- Whatever has been created is handed back by a drain that no creation ends behind. -/
theorem Steps.gone_of_drained {h₁ h₂ h₃ : List SlotEvent} {answer : List Released}
    (hs : Steps .empty (h₁ ++ .start .drain :: (h₂ ++ .finish .drain answer :: h₃)) m)
    (hbehind : ∀ {a e b x i}, h₂ = a ++ e :: b → e.created? = some (x, i) →
      ∃ found, .visit .drain x found ∈ b) (hafter : creations h₃ = []) (hc : (x, i) ∈
      creations (h₁ ++ .start .drain :: (h₂ ++ .finish .drain answer :: h₃))) :
    m.slots.isGone x = true := by
  have hparts : (x, i) ∈ creations h₁ ∨ (x, i) ∈ creations h₂ := by
    simpa [created?, hafter] using hc
  rcases hparts with hc | hc
  · obtain ⟨found, hv⟩ := hs.visited_of_finish hc
    exact hs.gone_of_drain hc (List.mem_cons_of_mem _ (List.mem_append_left _ hv))
  · obtain ⟨e, he, hcreated⟩ := List.mem_filterMap.1 hc
    obtain ⟨a, b, hab⟩ := List.append_of_mem he
    obtain ⟨found, hv⟩ := hbehind hab hcreated
    have hsplit : h₁ ++ .start .drain :: (h₂ ++ .finish .drain answer :: h₃) =
        (h₁ ++ .start .drain :: (a ++ [e])) ++ (b ++ .finish .drain answer :: h₃) := by
      simp [hab]
    rw [hsplit] at hs
    refine hs.gone_of_drain (i := i) ?_ (List.mem_append_left _ hv)
    simp [hcreated]

theorem Steps.faithful (hs : Steps .empty h m) : Faithful h m where
  creations_once := hs.nodup_creations
  made := hs.made_iff
  obtained := hs.created_of_obtained
  handedBack_once := hs.nodup_handedBack
  handedBack := hs.created_of_handedBack
  answers := hs.perm_answers
  released {h₁ h₂ c x found} hh := by
    subst hh
    obtain ⟨p, hbefore, hs⟩ := hs.exists_middle
    obtain ⟨q, hvisit, -⟩ := hs.exists_first
    cases hvisit with
    | @visit _ _ _ _ slot _ hn => exact ⟨p, slot, hbefore, hn, fun r => Slot.release_eq_some⟩
  live := hs.live_iff
  looks {h₁ h₂ x answer i} hh := by
    subst hh
    obtain ⟨p, hbefore, hs⟩ := hs.exists_middle
    obtain ⟨q, hlook, -⟩ := hs.exists_first
    cases hlook with
    | look => exact hbefore.live_iff
  fruitless hh he hno := by
    subst hh
    exact hs.of_fruitless he hno
  drained {h₁ h₂ h₃ answer} hh hbehind hafter := by
    -- neither list repeats anything, so that it is enough to compare their members
    have hnodup : ((handedBack h).map fun r => (r.name, r.inst)).Nodup := by
      refine List.Nodup.of_map Prod.fst ?_
      rw [List.map_map]
      exact hs.nodup_handedBack
    refine (List.perm_ext_iff_of_nodup hnodup (.of_map _ hs.nodup_creations)).2 fun ⟨x, i⟩ => ?_
    constructor
    · intro hp
      obtain ⟨r, hr, he⟩ := List.mem_map.1 hp
      exact he ▸ hs.created_of_handedBack hr
    · intro hp
      have hgone : m.slots.isGone x = true := by
        subst hh
        exact hs.gone_of_drained hbehind hafter hp
      obtain ⟨r, hr, rfl⟩ := hs.gone_iff.1 hgone
      have hinst : some r.inst = some i :=
        (hs.made_iff.2 (hs.created_of_handedBack hr)).symm.trans (hs.made_iff.2 hp)
      exact List.mem_map.2 ⟨r, hr, by rw [Option.some.inj hinst]⟩

end Faithful

end SharedSlots

/-! Two nodes use a pool. The first caller fails to create it, the second one succeeds while the first node
is released. -/
namespace Contention
open SharedSlots

def pool : ResourceInstance := ⟨7⟩
def load : NodeId := .step "load"
def dump : NodeId := .step "dump"

def history : List SlotEvent := [
  .register "db" "pool" [load, dump],
  .enter 0 "db", .create 0, .enter 1 "db",
  .acquire 0 "db" (some (.error (.create "no"))) (.error (.create "no")),
  .create 1, .enter 2 "db",
  .start (.release load), .visit (.release load) "db" none,
  .acquire 1 "db" (some (.ok pool)) (.ok pool), .finish (.release load) [],
  .acquire 2 "db" none (.ok pool), .look "db" (some pool),
  .start (.release dump), .visit (.release dump) "db" (some ⟨"db", "pool", pool⟩),
  .finish (.release dump) [⟨"db", "pool", pool⟩], .look "db" none,
  .start .drain, .visit .drain "db" none, .finish .drain []]

theorem steps_history : ∃ m, Steps .empty history m := by
  apply Exists.intro
  apply Steps.cons (.register "pool" [load, dump] rfl rfl)
  apply Steps.cons (.enter rfl rfl rfl)
  apply Steps.cons (.create rfl rfl (by intro c; grind [SharedSlots.empty, update_apply]))
  apply Steps.cons (.enter rfl rfl rfl)
  apply Steps.cons (.created (.error (.create "no")) rfl)
  apply Steps.cons (.create rfl rfl (by intro c; grind [SharedSlots.empty, update_apply]))
  apply Steps.cons (.enter rfl rfl rfl)
  apply Steps.cons (.start _ rfl (.refl ["db"]))
  apply Steps.cons (.visit_eq (by rfl) (by rfl) (by rfl))
  apply Steps.cons (.created (.ok pool) rfl)
  apply Steps.cons (.finish rfl)
  apply Steps.cons (.join (.ok pool) rfl rfl)
  apply Steps.cons (.look "db" rfl)
  apply Steps.cons (.start _ rfl (.refl ["db"]))
  apply Steps.cons (.visit_eq (by rfl) (by rfl) (by rfl))
  apply Steps.cons (.finish rfl)
  apply Steps.cons (.look "db" rfl)
  exact steps_sweep .drain rfl

theorem keeps_pool : creations history = [("db", pool)] ∧
    handedBack history = [⟨"db", "pool", pool⟩] ∧ ∃ m, Steps .empty history m ∧ Faithful history m :=
  have ⟨m, hs⟩ := steps_history
  ⟨rfl, rfl, m, hs, hs.faithful⟩

end Contention

end Workplan
