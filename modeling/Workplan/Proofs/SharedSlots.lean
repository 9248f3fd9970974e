import Mathlib.Data.List.Sort
import Mathlib.Logic.Function.Basic
import Workplan.Proofs.Run.Slots

/-! Shared slots: the slots of a run in the hands of several callers at once. Whoever declares, looks up,
extends or goes through the slots holds a lock. A creation does not, so it may end while a release or a
drain is on its way, in front of it or behind it. That is why a sweep over the slots is taken apart into
visits here; in one piece it is `Slots.release` or `Slots.drain` (`SharedSlots.steps_sweep`). Two creations
of one slot exclude each other, and that is all that is known about callers.

Everything that callers see is read off the list of what has happened: which creations have succeeded, who
was given which instance, and what has been handed back for destruction. -/
namespace Workplan
open Function
set_option autoImplicit false

/-! ## What happens -/

/-- A way through all slots. -/
inductive Sweep where
  /-- A consumer is removed everywhere. -/
  | release (consumer : NodeId)
  | drain

namespace Sweep

def visit : Sweep → String → Slot → Option Released × Slot
  | .release consumer, name, slot => slot.release name consumer
  | .drain, name, slot => slot.drain name

/-- What is answered in the end: what has been found, in the case of a drain ordered by name. -/
def answer : Sweep → List Released → List Released
  | .release _, found => found
  | .drain, found => found.mergeSort fun a b => decide (a.name ≤ b.name)

theorem handsBack_visit (sweep : Sweep) (name : String) (slot : Slot) :
    slot.HandsBack name (sweep.visit name slot) := by
  cases sweep with
  | release consumer => exact Slot.handsBack_release
  | drain => exact Slot.handsBack_drain

theorem perm_answer (sweep : Sweep) (found : List Released) : (sweep.answer found).Perm found := by
  cases sweep with
  | release consumer => exact .refl _
  | drain => exact List.mergeSort_perm _ _

def run : Sweep → Slots → List Released × Slots
  | .release consumer, s => s.release consumer
  | .drain, s => s.drain

theorem run_eq (sweep : Sweep) (s : Slots) : sweep.run s = s.handBackWith sweep.visit := by
  cases sweep <;> rfl

theorem answer_run (sweep : Sweep) (s : Slots) : sweep.answer (sweep.run s).1 = (sweep.run s).1 := by
  cases sweep with
  | release consumer => rfl
  | drain =>
    refine List.mergeSort_of_pairwise ?_
    rw [run_eq]
    refine List.pairwise_filterMap.2 (s.sorted.imp fun {a b} hab r hr r' hr' => ?_)
    have hname : ∀ {a : String × Slot} {r : Released},
        (drain.visit a.1 a.2).1 = some r → r.name = a.1 := by
      intro a r hr
      rcases (handsBack_visit .drain a.1 a.2).released with ⟨hnone, -⟩ | ⟨i, hi, -⟩
      · cases hnone.symm.trans hr
      · cases hi.symm.trans hr
        rfl
    rw [hname hr, hname hr']
    exact decide_eq_true (String.not_lt.1 fun h => KeyOrder.irrefl _ (KeyOrder.trans hab h))

end Sweep

/-- What happens at shared slots. -/
inductive SlotEvent where
  | register (name kind : String) (consumers : List NodeId)
  | addConsumers (name : String) (consumers : List NodeId)
  | look (name : String) (answer : Option ResourceInstance)
  /-- A caller begins to wait for an instance. -/
  | enter (caller : Nat) (name : String)
  /-- A caller begins the creation. -/
  | create (caller : Nat)
  /-- A caller is answered; the creation is its own if it has run one. -/
  | acquire (caller : Nat) (name : String) (creation : Option (Except RunError ResourceInstance))
    (answer : Except RunError ResourceInstance)
  /-- A caller gives up, also in the middle of its creation. -/
  | leave (caller : Nat)
  | start (sweep : Sweep)
  | visit (sweep : Sweep) (name : String) (found : Option Released)
  | finish (sweep : Sweep) (answer : List Released)

structure SharedSlots where
  slots : Slots
  /-- For a caller that waits, the resource, and whether it is the one that creates it. -/
  callers : Nat → Option (String × Bool)
  /-- The sweep that holds the lock, the names it has not come to, and what it has found. -/
  sweep : Option (Sweep × List String × List Released)

namespace SharedSlots

def empty : SharedSlots := ⟨.empty, fun _ => none, none⟩

/-- The steps of the callers, in any order that the lock and the exclusion of creations allow. -/
inductive Step : SharedSlots → SlotEvent → SharedSlots → Prop where
  | register {m : SharedSlots} {name : String} (kind : String) (consumers : List NodeId)
    (hlock : m.sweep = none) (hn : m.slots.get? name = none) :
    Step m (.register name kind consumers) { m with slots := m.slots.register name kind consumers }
  | addConsumers {m : SharedSlots} (name : String) (consumers : List NodeId) (hlock : m.sweep = none) :
    Step m (.addConsumers name consumers) { m with slots := m.slots.addConsumers name consumers }
  | look {m : SharedSlots} (name : String) (hlock : m.sweep = none) :
    Step m (.look name (m.slots.instance? name)) m
  /-- A resource that is not declared is refused at once. -/
  | refuse {m : SharedSlots} {name : String} (c : Nat) (creation : Except RunError ResourceInstance)
    (hlock : m.sweep = none) (hn : m.slots.contains name = false) :
    Step m (.acquire c name none (m.slots.acquire name creation).1) m
  | enter {m : SharedSlots} {c : Nat} {name : String} (hlock : m.sweep = none)
    (hn : m.slots.contains name = true) (hc : m.callers c = none) :
    Step m (.enter c name) { m with callers := update m.callers c (some (name, false)) }
  | create {m : SharedSlots} {c : Nat} {name : String} (hc : m.callers c = some (name, false))
    (hn : m.slots.needsCreation name = true) (alone : ∀ c', m.callers c' ≠ some (name, true)) :
    Step m (.create c) { m with callers := update m.callers c (some (name, true)) }
  | created {m : SharedSlots} {c : Nat} {name : String} (creation : Except RunError ResourceInstance)
    (hc : m.callers c = some (name, true)) :
    Step m (.acquire c name (some creation) (m.slots.acquire name creation).1)
      { m with slots := (m.slots.acquire name creation).2, callers := update m.callers c none }
  /-- Whoever finds the slot filled creates nothing. -/
  | join {m : SharedSlots} {c : Nat} {name : String} (creation : Except RunError ResourceInstance)
    (hc : m.callers c = some (name, false)) (hn : m.slots.needsCreation name = false) :
    Step m (.acquire c name none (m.slots.acquire name creation).1)
      { m with callers := update m.callers c none }
  | leave {m : SharedSlots} {c : Nat} {x : String × Bool} (hc : m.callers c = some x) :
    Step m (.leave c) { m with callers := update m.callers c none }
  | start {m : SharedSlots} (sweep : Sweep) {left : List String} (hlock : m.sweep = none)
    (hleft : left.Perm m.slots.keys) : Step m (.start sweep) { m with sweep := some (sweep, left, []) }
  | visit {m : SharedSlots} {sweep : Sweep} {name : String} {left : List String}
    {found : List Released} {slot : Slot} (hlock : m.sweep = some (sweep, name :: left, found))
    (hn : m.slots.get? name = some slot) :
    Step m (.visit sweep name (sweep.visit name slot).1)
      { m with
        slots := m.slots.insert name (sweep.visit name slot).2
        sweep := some (sweep, left, found ++ (sweep.visit name slot).1.toList) }
  | finish {m : SharedSlots} {sweep : Sweep} {found : List Released}
    (hlock : m.sweep = some (sweep, [], found)) :
    Step m (.finish sweep (sweep.answer found)) { m with sweep := none }

theorem Step.visit_eq {m : SharedSlots} {sweep : Sweep} {name : String} {left : List String}
    {found : List Released} {slot slot' : Slot} {r : Option Released}
    (hlock : m.sweep = some (sweep, name :: left, found)) (hn : m.slots.get? name = some slot)
    (hv : sweep.visit name slot = (r, slot')) : Step m (.visit sweep name r)
      ⟨m.slots.insert name slot', m.callers, some (sweep, left, found ++ r.toList)⟩ := by
  have h := Step.visit hlock hn
  rwa [hv] at h

inductive Steps (m : SharedSlots) : List SlotEvent → SharedSlots → Prop where
  | nil : Steps m [] m
  | snoc {h : List SlotEvent} {m' m'' : SharedSlots} {e : SlotEvent} (hs : Steps m h m')
    (he : Step m' e m'') : Steps m (h ++ [e]) m''

section Steps
variable {m m' m'' : SharedSlots} {h h' : List SlotEvent} {e : SlotEvent}

theorem Steps.trans (hs : Steps m h m') (hs' : Steps m' h' m'') : Steps m (h ++ h') m'' := by
  induction hs' with
  | nil => rw [List.append_nil]; exact hs
  | snoc _ he ih => rw [← List.append_assoc]; exact .snoc ih he

theorem Steps.exists_middle (hs : Steps m (h ++ h') m'') : ∃ m', Steps m h m' ∧ Steps m' h' m'' := by
  generalize hl : h ++ h' = l at hs
  induction hs generalizing h' with
  | nil =>
    obtain ⟨rfl, rfl⟩ := List.append_eq_nil_iff.1 hl
    exact ⟨m, .nil, .nil⟩
  | snoc hs he ih =>
    rcases List.eq_nil_or_concat' h' with rfl | ⟨h', x, rfl⟩
    · rw [List.append_nil] at hl
      subst hl
      exact ⟨_, .snoc hs he, .nil⟩
    · rw [← List.append_assoc] at hl
      obtain ⟨hh, he'⟩ := List.append_inj' hl rfl
      cases he'
      obtain ⟨m', hm, hm'⟩ := ih hh
      exact ⟨m', hm, .snoc hm' he⟩

theorem Steps.eq_of_nil (hs : Steps m [] m') : m' = m := by
  generalize hl : ([] : List SlotEvent) = l at hs
  cases hs with
  | nil => rfl
  | snoc _ _ => simp at hl

theorem Steps.exists_last (hs : Steps m (h ++ [e]) m'') : ∃ m', Steps m h m' ∧ Step m' e m'' := by
  generalize hl : h ++ [e] = l at hs
  cases hs with
  | nil => simp at hl
  | snoc hs he =>
    obtain ⟨rfl, he'⟩ := List.append_inj' hl rfl
    cases he'
    exact ⟨_, hs, he⟩

theorem Steps.step_of_singleton (hs : Steps m [e] m') : Step m e m' := by
  obtain ⟨m₁, hs, he⟩ := exists_last (h := []) hs
  rw [hs.eq_of_nil] at he
  exact he

theorem Steps.exists_first (hs : Steps m (e :: h) m'') : ∃ m', Step m e m' ∧ Steps m' h m'' := by
  obtain ⟨m', he, hs⟩ := Steps.exists_middle (h := [e]) hs
  exact ⟨m', he.step_of_singleton, hs⟩

theorem Steps.cons (he : Step m e m') (hs : Steps m' h m'') : Steps m (e :: h) m'' :=
  (Steps.nil.snoc he).trans hs

end Steps

end SharedSlots

/-! ## What is seen -/

namespace SlotEvent

/-- A creation that succeeds. -/
def created? : SlotEvent → Option (String × ResourceInstance)
  | .acquire _ name (some (.ok i)) _ => some (name, i)
  | _ => none

def obtained? : SlotEvent → Option (String × ResourceInstance)
  | .acquire _ name _ (.ok i) => some (name, i)
  | _ => none

def handed? : SlotEvent → Option Released
  | .visit _ _ found => found
  | _ => none

def answered : SlotEvent → List Released
  | .finish _ answer => answer
  | _ => []

/-- The call ends without an instance of its own making: the creation has failed, or the caller left. -/
inductive IsFruitless (c : Nat) : SlotEvent → Prop where
  | failed (name : String) (e : RunError) (answer : Except RunError ResourceInstance) :
    IsFruitless c (.acquire c name (some (.error e)) answer)
  | left : IsFruitless c (.leave c)

def startsCreation (c : Nat) : SlotEvent → Bool
  | .create c' => c' = c
  | _ => false

def creations (h : List SlotEvent) : List (String × ResourceInstance) := h.filterMap created?

def obtained (h : List SlotEvent) : List (String × ResourceInstance) := h.filterMap obtained?

def handedBack (h : List SlotEvent) : List Released := h.filterMap handed?

def answers (h : List SlotEvent) : List Released := h.flatMap answered

end SlotEvent

/-! ## Slots -/

namespace Slots

/-- The instance of a slot, also after it has been handed back. -/
def made? (s : Slots) (name : String) : Option ResourceInstance := (s.get? name).bind Slot.created

def isGone (s : Slots) (name : String) : Bool := (s.get? name).any Slot.handedBack

section Views
variable {s : Slots} {name x : String} {i : ResourceInstance}

theorem instance?_eq_some : s.instance? name = some i ↔
    s.made? name = some i ∧ s.isGone name = false := by
  rw [instance?, made?, isGone]
  cases s.get? name with
  | none => simp
  | some slot => exact Slot.live?_eq_some

theorem needsCreation_iff_made? : s.needsCreation name = true ↔
    s.contains name = true ∧ s.made? name = none := by
  rw [needsCreation, made?, SortedMap.contains]
  cases s.get? name with
  | none => simp
  | some slot => simp [Option.isNone_iff_eq_none]

theorem views_register (hn : s.get? name = none) (kind : String) (consumers : List NodeId) :
    (s.register name kind consumers).made? x = s.made? x ∧
      (s.register name kind consumers).isGone x = s.isGone x := by
  rw [made?, made?, isGone, isGone, register, SortedMap.get?_insert]
  split
  next hx =>
    rw [hx, hn]
    exact ⟨rfl, rfl⟩
  next => exact ⟨rfl, rfl⟩

theorem views_addConsumers (consumers : List NodeId) :
    (s.addConsumers name consumers).made? x = s.made? x ∧
      (s.addConsumers name consumers).isGone x = s.isGone x := by
  rw [made?, made?, isGone, isGone, get?_addConsumers]
  split
  next => cases s.get? x <;> exact ⟨rfl, rfl⟩
  next => exact ⟨rfl, rfl⟩

theorem acquire_of_needsCreation (hn : s.needsCreation name = true)
    (creation : Except RunError ResourceInstance) : (s.acquire name creation).1 = creation ∧
      (∀ x i, (s.acquire name creation).2.made? x = some i ↔
        s.made? x = some i ∨ (x = name ∧ creation = .ok i)) ∧
      ∀ x, (s.acquire name creation).2.isGone x = s.isGone x := by
  obtain ⟨slot, hs, hc⟩ := needsCreation_iff.1 hn
  rw [acquire_eq hs hc]
  refine ⟨rfl, fun x i => ?_, fun x => ?_⟩
  · cases creation with
    | error e => simp
    | ok j =>
      rw [made?, SortedMap.get?_insert]
      by_cases hx : x = name
      · simp [hx, made?, hs, hc]
      · rw [if_neg hx]
        simp [hx, made?]
  · cases creation with
    | error e => rfl
    | ok j =>
      rw [isGone, isGone, SortedMap.get?_insert]
      split
      next hx => simp [hx, hs]
      next => rfl

theorem acquire_error (s : Slots) (name : String) (e : RunError) : (s.acquire name (.error e)).2 = s := by
  rw [acquire]
  split
  next => rfl
  next slot _ => cases slot.created <;> rfl

theorem acquire_slots (s : Slots) (name : String) (creation : Except RunError ResourceInstance) :
    (s.acquire name creation).2 = s ∨ ∃ slot, (s.acquire name creation).2 = s.insert name slot := by
  rw [acquire]
  split
  next => exact .inl rfl
  next slot _ =>
    cases slot.created with
    | some i => exact .inl rfl
    | none =>
      cases creation with
      | error e => exact .inl rfl
      | ok i => exact .inr ⟨_, rfl⟩

theorem acquire_of_not_needsCreation (hn : s.needsCreation name = false)
    (creation : Except RunError ResourceInstance) (ha : (s.acquire name creation).1 = .ok i) :
    s.made? name = some i := by
  rw [acquire] at ha
  rw [needsCreation] at hn
  rw [made?]
  cases hs : s.get? name with
  | none => rw [hs] at ha; cases ha
  | some slot =>
    rw [hs] at ha hn
    cases hc : slot.created with
    | none => simp [hc] at hn
    | some j =>
      simp only [hc] at ha
      cases ha
      exact hc

variable {slot : Slot} {sweep : Sweep}

theorem made?_visit (hs : s.get? name = some slot) :
    made? (s.insert name (sweep.visit name slot).2) x = s.made? x := by
  rw [made?, made?, SortedMap.get?_insert]
  split
  next hx =>
    rw [hx, hs]
    exact (sweep.handsBack_visit name slot).created
  next => rfl

/-- A visit marks the slot when it takes the instance out, and takes out only what is live. -/
theorem visit_cases (sweep : Sweep) (hs : s.get? name = some slot) :
    ((sweep.visit name slot).1 = none ∧
      ∀ x, isGone (s.insert name (sweep.visit name slot).2) x = s.isGone x) ∨
    ∃ i, (sweep.visit name slot).1 = some ⟨name, slot.kind, i⟩ ∧ s.made? name = some i ∧
      s.isGone name = false ∧
      ∀ x, isGone (s.insert name (sweep.visit name slot).2) x = (s.isGone x || decide (name = x)) := by
  have hgone : ∀ x, isGone (s.insert name (sweep.visit name slot).2) x =
      if x = name then (sweep.visit name slot).2.handedBack else s.isGone x := by
    intro x
    rw [isGone, SortedMap.get?_insert]
    split
    next => rfl
    next => rfl
  rcases (sweep.handsBack_visit name slot).released with ⟨hnone, hh⟩ | ⟨i, hi, hc, hlive, hh⟩
  · refine .inl ⟨hnone, fun x => ?_⟩
    rw [hgone, hh]
    split
    next hx => simp [isGone, hx, hs]
    next => rfl
  · refine .inr ⟨i, hi, by simp [made?, hs, hc], by simp [isGone, hs, hlive], fun x => ?_⟩
    rw [hgone, hh]
    by_cases hx : x = name
    · simp [hx]
    · simp [hx, Ne.symm hx]

end Views
end Slots

/-! ## Steps -/

namespace SharedSlots
open SlotEvent

/-- Whoever creates is the only one for its slot, and the slot is empty. -/
structure Exclusive (m : SharedSlots) : Prop where
  needs : ∀ {c name}, m.callers c = some (name, true) → m.slots.needsCreation name = true
  alone : ∀ {c c' name}, m.callers c = some (name, true) → m.callers c' = some (name, true) → c = c'

section Step
variable {m m' : SharedSlots} {e : SlotEvent} {x : String} {i : ResourceInstance} {r : Released}

/-- A slot is filled by a creation that succeeds, and by nothing else. -/
theorem Step.made (hx : m.Exclusive) (hs : Step m e m') : m'.slots.made? x = some i ↔
    m.slots.made? x = some i ∨ e.created? = some (x, i) := by
  cases hs with
  | register kind consumers _ hn => simp [Slots.views_register hn, created?]
  | addConsumers name consumers _ => simp [Slots.views_addConsumers, created?]
  | look => simp [created?]
  | refuse => simp [created?]
  | enter => simp [created?]
  | create => simp [created?]
  | @created c name creation hc =>
    rw [(Slots.acquire_of_needsCreation (hx.needs hc) creation).2.1]
    cases creation with
    | error e => simp [created?]
    | ok j => simp [created?, eq_comm, Prod.ext_iff]
  | join => simp [created?]
  | leave => simp [created?]
  | start => simp [created?]
  | visit _ hn => simp [Slots.made?_visit hn, created?]
  | finish => simp [created?]

theorem Step.made_of_created (hx : m.Exclusive) (hs : Step m e m') (hc : e.created? = some (x, i)) :
    m.slots.made? x = none := by
  cases hs with
  | @created c name creation hcall =>
    cases creation with
    | error e => cases hc
    | ok j =>
      cases hc
      exact (Slots.needsCreation_iff_made?.1 (hx.needs hcall)).2
  | _ => cases hc

theorem Step.made_of_obtained (hx : m.Exclusive) (hs : Step m e m') (ho : e.obtained? = some (x, i)) :
    m'.slots.made? x = some i := by
  have hanswer : ∀ {name : String} {answer : Except RunError ResourceInstance} {c creation},
      obtained? (.acquire c name creation answer) = some (x, i) → name = x ∧ answer = .ok i := by
    intro name answer c creation h
    cases answer with
    | error e => cases h
    | ok j =>
      cases h
      exact ⟨rfl, rfl⟩
  cases hs with
  | @refuse name c creation _ hn =>
    obtain ⟨rfl, ha⟩ := hanswer ho
    have hneeds : m.slots.needsCreation name = false := by
      rw [Slots.needsCreation]
      rw [SortedMap.contains, Option.isSome_eq_false_iff, Option.isNone_iff_eq_none] at hn
      rw [hn]
    exact Slots.acquire_of_not_needsCreation hneeds creation ha
  | @created c name creation hc =>
    obtain ⟨rfl, ha⟩ := hanswer ho
    obtain ⟨hfirst, hmade, -⟩ := Slots.acquire_of_needsCreation (hx.needs hc) creation
    exact (hmade name i).2 (.inr ⟨rfl, hfirst.symm.trans ha⟩)
  | @join c name creation _ hn =>
    obtain ⟨rfl, ha⟩ := hanswer ho
    exact Slots.acquire_of_not_needsCreation hn creation ha
  | _ => cases ho

theorem Step.gone (hx : m.Exclusive) (hs : Step m e m') : m'.slots.isGone x = true ↔
    m.slots.isGone x = true ∨ ∃ r, e.handed? = some r ∧ r.name = x := by
  cases hs with
  | register kind consumers _ hn => simp [Slots.views_register hn, handed?]
  | addConsumers name consumers _ => simp [Slots.views_addConsumers, handed?]
  | look => simp [handed?]
  | refuse => simp [handed?]
  | enter => simp [handed?]
  | create => simp [handed?]
  | @created c name creation hc =>
    simp [(Slots.acquire_of_needsCreation (hx.needs hc) creation).2.2, handed?]
  | join => simp [handed?]
  | leave => simp [handed?]
  | start => simp [handed?]
  | @visit sweep name left found slot _ hn =>
    rcases Slots.visit_cases sweep hn with ⟨hnone, hgone⟩ | ⟨j, hj, -, -, hgone⟩
    · simp [hgone, handed?, hnone]
    · simp [hgone, handed?, hj]
  | finish => simp [handed?]

theorem Step.live_of_handed (hs : Step m e m') (hr : e.handed? = some r) :
    m.slots.made? r.name = some r.inst ∧ m.slots.isGone r.name = false := by
  cases hs with
  | @visit sweep name left found slot _ hn =>
    rcases Slots.visit_cases sweep hn with ⟨hnone, -⟩ | ⟨j, hj, hmade, hgone, -⟩
    · cases hnone.symm.trans hr
    · cases hj.symm.trans hr
      exact ⟨hmade, hgone⟩
  | _ => cases hr

theorem Step.contains (hs : Step m e m') (hn : m.slots.contains x = true) :
    m'.slots.contains x = true := by
  have hinsert : ∀ (name : String) (slot : Slot), (m.slots.insert name slot).contains x = true := by
    intro name slot
    rw [SortedMap.contains, SortedMap.get?_insert]
    split
    next => rfl
    next => exact hn
  cases hs with
  | register kind consumers _ _ => exact hinsert _ _
  | addConsumers name consumers _ =>
    rw [SortedMap.contains, Slots.get?_addConsumers]
    split
    next => rw [Option.isSome_map]; exact hn
    next => exact hn
  | @created c name creation _ =>
    rcases Slots.acquire_slots m.slots name creation with h | ⟨slot, h⟩
    · rw [h]; exact hn
    · rw [h]; exact hinsert _ _
  | visit _ _ => exact hinsert _ _
  | _ => exact hn

/-- Whoever creates has been at it before, and its slot is not filled, or begins in an empty slot. -/
theorem Step.creating_cases {c : Nat} (hx : m.Exclusive) (hs : Step m e m')
    (hc : m'.callers c = some (x, true)) :
    (m.callers c = some (x, true) ∧ ∀ i, e.created? ≠ some (x, i)) ∨
    (e = .create c ∧ m.slots.needsCreation x = true ∧ ∀ c', m.callers c' ≠ some (x, true)) := by
  have hother : ∀ {c'} {y : Option (String × Bool)}, y ≠ some (x, true) →
      update m.callers c' y c = some (x, true) → c ≠ c' ∧ m.callers c = some (x, true) := by
    intro c' y hy h
    by_cases hcc : c = c'
    · rw [hcc, update_self] at h
      exact absurd h hy
    · rw [update_of_ne hcc] at h
      exact ⟨hcc, h⟩
  cases hs with
  | enter => exact .inl ⟨(hother (by simp) hc).2, by simp [created?]⟩
  | @create c' name hwait hn alone =>
    dsimp only at hc
    by_cases hcc : c = c'
    · subst hcc
      rw [update_self] at hc
      cases hc
      exact .inr ⟨rfl, hn, alone⟩
    · rw [update_of_ne hcc] at hc
      exact .inl ⟨hc, by simp [created?]⟩
  | @created c' name creation hcall =>
    -- another caller is through, and since creations of a slot exclude each other, with another slot
    obtain ⟨hcc, hcreates⟩ := hother (by simp) hc
    refine .inl ⟨hcreates, fun i hi => ?_⟩
    cases creation with
    | error e => cases hi
    | ok j =>
      cases hi
      exact hcc (hx.alone hcreates hcall)
  | join => exact .inl ⟨(hother (by simp) hc).2, by simp [created?]⟩
  | leave => exact .inl ⟨(hother (by simp) hc).2, by simp [created?]⟩
  | _ => exact .inl ⟨hc, by simp [created?]⟩

theorem Step.exclusive (hx : m.Exclusive) (hs : Step m e m') : m'.Exclusive where
  needs {c name} hc := by
    have hn : m.slots.needsCreation name = true ∧ ∀ i, e.created? ≠ some (name, i) := by
      rcases hs.creating_cases hx hc with ⟨hc, hne⟩ | ⟨rfl, hn, -⟩
      · exact ⟨hx.needs hc, hne⟩
      · exact ⟨hn, by simp [created?]⟩
    obtain ⟨hcontains, hmade⟩ := Slots.needsCreation_iff_made?.1 hn.1
    refine Slots.needsCreation_iff_made?.2
      ⟨hs.contains hcontains, Option.eq_none_iff_forall_ne_some.2 fun i hi => ?_⟩
    rcases (hs.made hx).1 hi with hi | hi
    · cases hmade.symm.trans hi
    · exact hn.2 i hi
  alone {c c' name} hc hc' := by
    rcases hs.creating_cases hx hc with ⟨hc, -⟩ | ⟨rfl, -, halone⟩
    · rcases hs.creating_cases hx hc' with ⟨hc', -⟩ | ⟨-, -, halone⟩
      · exact hx.alone hc hc'
      · exact absurd hc (halone c)
    · rcases hs.creating_cases hx hc' with ⟨hc', -⟩ | ⟨he, -, -⟩
      · exact absurd hc' (halone c')
      · cases he
        rfl

end Step

/-! ## Sweeps in one piece -/

theorem steps_visits (sweep : Sweep) {l : List (String × Slot)} (hl : (l.map Prod.fst).Nodup)
    {m : SharedSlots} {found : List Released}
    (hlock : m.sweep = some (sweep, l.map Prod.fst, found))
    (hget : ∀ e ∈ l, m.slots.get? e.1 = some e.2) : ∃ slots,
      Steps m (l.map fun e => .visit sweep e.1 (sweep.visit e.1 e.2).1)
        ⟨slots, m.callers, some (sweep, [], found ++ l.filterMap fun e => (sweep.visit e.1 e.2).1)⟩ ∧
      ∀ x, slots.get? x = if x ∈ l.map Prod.fst then
        (m.slots.get? x).map fun slot => (sweep.visit x slot).2 else m.slots.get? x := by
  induction l generalizing m found with
  | nil =>
    obtain ⟨slots, callers, lock⟩ := m
    cases hlock
    rw [List.filterMap_nil, List.append_nil]
    exact ⟨slots, .nil, fun x => by simp⟩
  | cons e l ih =>
    obtain ⟨hnew, hl⟩ := List.nodup_cons.1 hl
    have hstep := Step.visit hlock (hget e List.mem_cons_self)
    obtain ⟨slots, hs, hslots⟩ := ih hl
      (m := ⟨m.slots.insert e.1 (sweep.visit e.1 e.2).2, m.callers, some (sweep, l.map Prod.fst,
        found ++ (sweep.visit e.1 e.2).1.toList)⟩) rfl fun e' he' => by
        rw [SortedMap.get?_insert, if_neg, hget e' (List.mem_cons_of_mem e he')]
        rintro heq
        exact hnew (heq ▸ List.mem_map_of_mem he')
    refine ⟨slots, ?_, fun x => ?_⟩
    · have hall := (Steps.nil.snoc hstep).trans hs
      rw [List.append_assoc] at hall
      cases ho : (sweep.visit e.1 e.2).1 with
      | none => simpa [ho] using hall
      | some r => simpa [ho] using hall
    · rw [hslots, SortedMap.get?_insert, List.map_cons]
      by_cases hx : x = e.1
      · subst hx
        rw [if_neg hnew, if_pos rfl, if_pos List.mem_cons_self, hget e List.mem_cons_self]
        rfl
      · rw [if_neg hx]
        exact if_congr (List.mem_cons.trans (or_iff_right hx)).symm rfl rfl

/-- What is seen of a sweep that nobody comes between. -/
def sweepEvents (sweep : Sweep) (s : Slots) : List SlotEvent :=
  .start sweep :: (s.toList.map fun e => .visit sweep e.1 (sweep.visit e.1 e.2).1) ++
    [.finish sweep (sweep.run s).1]

/-- A sweep may take place in one piece. -/
theorem steps_sweep (sweep : Sweep) {m : SharedSlots} (hlock : m.sweep = none) :
    Steps m (sweepEvents sweep m.slots) { m with slots := (sweep.run m.slots).2 } := by
  have hstart := Step.start sweep hlock (.refl m.slots.keys)
  obtain ⟨slots, hs, hslots⟩ := steps_visits sweep m.slots.nodup_keys
    (m := { m with sweep := some (sweep, m.slots.keys, []) }) rfl
    fun e he => (SortedMap.mem_toList_iff _ _ _).1 he
  have hfound : (m.slots.toList.filterMap fun e => (sweep.visit e.1 e.2).1) = (sweep.run m.slots).1 := by
    rw [Sweep.run_eq]
    rfl
  have hend : slots = (sweep.run m.slots).2 := by
    refine SortedMap.ext_get? fun x => ?_
    rw [hslots, Sweep.run_eq, Slots.get?_handBackWith]
    split
    next => rfl
    next hx =>
      cases hn : m.slots.get? x with
      | none => rfl
      | some slot => exact absurd (SortedMap.mem_keys.2 ⟨slot, hn⟩) hx
  have hfinish := (((Steps.nil.snoc hstart).trans hs).snoc (.finish rfl))
  rw [hfound, List.nil_append, List.nil_append, Sweep.answer_run, ← hlock, hend] at hfinish
  exact hfinish

end SharedSlots

end Workplan
