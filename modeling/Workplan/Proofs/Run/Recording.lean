import Workplan.Proofs.Run.Covering
import Workplan.Proofs.Run.Failures

/-! Recording: what a run writes into its timeline, function by function. The story of a node, which is what
has been recorded of its work, can be told from the status of the node before and after each of them; and
as long as no destruction is noted, none is recorded, and destructions are started only of instances that
have not been handed back before. -/
namespace Workplan
set_option autoImplicit false

/-! ## Stories -/

/-- What has been recorded of the work of a node, in order. The destruction of a resource is no part of its
work. -/
def Timeline.storyOf (t : Timeline) (id : NodeId) : List EventKind :=
  (t.events.filter fun e => e.node = id ∧ e.kind ≠ .destroyed).map fun e => e.kind

theorem Timeline.storyOf_add (tl : Timeline) (id : NodeId) {kind : EventKind}
    (hk : kind ≠ .destroyed) (time : Int) (x : NodeId) :
    (tl.add id kind time).storyOf x = tl.storyOf x ++ if x = id then [kind] else [] := by
  rw [storyOf, storyOf, add, List.filter_append, List.map_append]
  congr 1
  by_cases hx : x = id
  · rw [if_pos hx, List.filter_cons_of_pos (by simpa [hx] using hk)]
    rfl
  · rw [if_neg hx, List.filter_cons_of_neg (by simp [Ne.symm hx])]
    rfl

theorem Timeline.storyOf_add_destroyed (tl : Timeline) (id : NodeId) (time : Int) (x : NodeId) :
    (tl.add id .destroyed time).storyOf x = tl.storyOf x := by
  rw [storyOf, storyOf, add, List.filter_append, List.filter_cons_of_neg (by simp), List.filter_nil,
    List.append_nil]

/-- The story of a node with a status, if it is known whether the work of a running node has ended. -/
def NodeStatus.story (ended : Bool) : NodeStatus → List EventKind
  | .pending => []
  | .running => if ended then [.started, .succeeded] else [.started]
  | .succeeded => [.started, .succeeded]
  | .failed _ => [.started, .failed]
  | .skipped _ => [.skipped]

namespace Run

/-- The story that the status of a node calls for. The work of a node that waits for destructions has
ended. -/
def storyFor (r : Run) (id : NodeId) : List EventKind :=
  match r.plan.status? id with
  | some s => s.story (r.deferred.get? id).isSome
  | none => []

def Told (r : Run) : Prop := ∀ id, r.timeline.storyOf id = r.storyFor id

end Run

/-! ## Spent instances -/

/-- An instance of a resource has been created and handed back. -/
def Slots.IsSpent (s : Slots) (name : String) : Prop :=
  ∃ slot i, s.get? name = some slot ∧ slot.created = some i ∧ slot.handedBack = true

namespace Slots.IsSpent
variable {s : Slots} {name : String}

theorem isHandedBack (h : s.IsSpent name) : s.IsHandedBack name := by
  obtain ⟨slot, -, hs, -, hh⟩ := h
  exact ⟨slot, hs, hh⟩

theorem handBackWith {f : String → Slot → Option Released × Slot} (h : s.IsSpent name)
    (hf : ∀ name slot, Slot.HandsBack name slot (f name slot)) : (s.handBackWith f).2.IsSpent name := by
  obtain ⟨slot, i, hs, hc, hh⟩ := h
  exact ⟨(f name slot).2, i, Slots.get?_handBackWith_of_get? hs, (hf name slot).created.trans hc,
    (hf name slot).stays hh⟩

theorem addConsumers (h : s.IsSpent name) (uses : List (String × NodeId)) :
    (uses.foldl (fun s e => s.addConsumers e.1 [e.2]) s).IsSpent name := by
  obtain ⟨slot, i, hs, hc, hh⟩ := h
  obtain ⟨slot', hs', -, hc', hh', -⟩ := Slots.get?_foldl_addConsumers uses hs
  exact ⟨slot', i, hs', hc'.trans hc, hh'.trans hh⟩

theorem acquire (h : s.IsSpent name) (x : String) (creation : Except RunError ResourceInstance) :
    (s.acquire x creation).2.IsSpent name := by
  obtain ⟨slot, i, hs, hc, hh⟩ := h
  rw [Slots.acquire]
  split
  next => exact ⟨slot, i, hs, hc, hh⟩
  next held hx =>
    split
    next => exact ⟨slot, i, hs, hc, hh⟩
    next j hnone =>
      have hne : name ≠ x := by
        rintro rfl
        cases hx.symm.trans hs
        cases hnone.symm.trans hc
      exact ⟨slot, i, by rw [SortedMap.get?_insert, if_neg hne, hs], hc, hh⟩
    next => exact ⟨slot, i, hs, hc, hh⟩

end Slots.IsSpent

namespace Run

/-- What is added to timeline and destructions while no destruction is noted. -/
structure Spends (r r' : Run) : Prop where
  events : ∃ es, r'.timeline.events = r.timeline.events ++ es ∧ ∀ e ∈ es, e.kind ≠ .destroyed
  destroys : ∃ ds, r'.destroys = r.destroys ++ ds ∧ (ds.map DestroyTask.resource).Nodup ∧
    ∀ d ∈ ds, ¬ r.slots.IsSpent d.resource ∧ r'.slots.IsSpent d.resource
  spent : ∀ {name}, r.slots.IsSpent name → r'.slots.IsSpent name

namespace Spends
variable {r r' r'' : Run} {id : NodeId}

theorem trans (h : Spends r r') (h' : Spends r' r'') : Spends r r'' where
  events := by
    obtain ⟨es, he, hes⟩ := h.events
    obtain ⟨es', he', hes'⟩ := h'.events
    refine ⟨es ++ es', by rw [he', he, List.append_assoc], fun e hm => ?_⟩
    exact (List.mem_append.1 hm).elim (hes e) (hes' e)
  destroys := by
    obtain ⟨ds, hd, hnd, hds⟩ := h.destroys
    obtain ⟨ds', hd', hnd', hds'⟩ := h'.destroys
    refine ⟨ds ++ ds', by rw [hd', hd, List.append_assoc], ?_, fun d hm => ?_⟩
    · rw [List.map_append]
      refine List.nodup_append.2 ⟨hnd, hnd', ?_⟩
      rintro a ha b hb rfl
      obtain ⟨d, hdm, rfl⟩ := List.mem_map.1 ha
      obtain ⟨d', hdm', he⟩ := List.mem_map.1 hb
      -- what the second part spends has not been spent by the first
      exact (hds' d' hdm').1 (he ▸ (hds d hdm).2)
    · rcases List.mem_append.1 hm with hm | hm
      · exact ⟨(hds d hm).1, h'.spent (hds d hm).2⟩
      · exact ⟨fun hs => (hds' d hm).1 (h.spent hs), (hds' d hm).2⟩
  spent := fun hs => h'.spent (h.spent hs)

theorem same (ht : r'.timeline = r.timeline) (hd : r'.destroys = r.destroys)
    (hs : r'.slots = r.slots) : Spends r r' where
  events := ⟨[], by rw [ht, List.append_nil], fun e he => by cases he⟩
  destroys := ⟨[], by rw [hd, List.append_nil], List.nodup_nil, fun d hm => by cases hm⟩
  spent := fun h => by rwa [hs]

theorem refl (r : Run) : Spends r r := same rfl rfl rfl

theorem note (r : Run) (id : NodeId) {kind : EventKind} (hk : kind ≠ .destroyed) (time : Nat) :
    Spends r (r.note id kind time) :=
  { refl r with
    events := ⟨[⟨id, kind, time⟩], rfl, fun e he => by rwa [List.mem_singleton.1 he]⟩ }

theorem sublist_spawnDestroys (owner : Option NodeId) (r : Run) (l : List Released) :
    ∃ ds, (Run.spawnDestroys owner r l).1.destroys = r.destroys ++ ds ∧
      (ds.map DestroyTask.resource).Sublist (l.map Released.name) := by
  induction l generalizing r with
  | nil => exact ⟨[], (List.append_nil _).symm, List.Sublist.refl _⟩
  | cons x l ih =>
    obtain ⟨ds, hds, hsub⟩ := ih (r.spawnDestroy owner x).1
    rw [spawnDestroys_cons]
    cases hk : r.settings.registry.kind? x.kind with
    | none =>
      simp only [Run.spawnDestroy, hk] at hds ⊢
      exact ⟨ds, hds, hsub.cons _⟩
    | some k =>
      simp only [Run.spawnDestroy, hk, List.append_assoc] at hds ⊢
      exact ⟨_, hds, hsub.cons_cons _⟩

theorem handBack {f : String → Slot → Option Released × Slot}
    (hf : ∀ name slot, Slot.HandsBack name slot (f name slot)) (owner : Option NodeId) (r : Run)
    (phase : RunPhase) : Spends r (Run.spawnDestroys owner
      { r with slots := (r.slots.handBackWith f).2, phase := phase } (r.slots.handBackWith f).1).1 := by
  have hslots := slots_spawnDestroys owner
    { r with slots := (r.slots.handBackWith f).2, phase := phase } (r.slots.handBackWith f).1
  constructor
  case events =>
    refine ⟨[], ?_, fun e he => by cases he⟩
    rw [timeline_spawnDestroys, List.append_nil]
  case destroys =>
    obtain ⟨ds, hds, hsub⟩ := sublist_spawnDestroys owner
      { r with slots := (r.slots.handBackWith f).2, phase := phase } (r.slots.handBackWith f).1
    refine ⟨ds, hds, hsub.nodup (Slots.nodup_handBackWith hf), fun d hd => ?_⟩
    obtain ⟨x, hx, he⟩ := List.mem_map.1 (hsub.subset (List.mem_map_of_mem hd))
    obtain ⟨slot, hs, hc, hh, hh'⟩ := Slots.marked_of_mem_handBackWith hf hx
    rw [hslots, ← he]
    constructor
    · rintro ⟨slot', i, hs', -, hback⟩
      cases hs.symm.trans hs'
      rw [hh] at hback
      cases hback
    · exact ⟨_, _, Slots.get?_handBackWith_of_get? hs, (hf x.name slot).created.trans hc, hh'⟩
  case spent =>
    intro name h
    rw [hslots]
    exact h.handBackWith hf

theorem release (r : Run) (id : NodeId) : Spends r (r.release id).1 :=
  handBack (fun _ _ => Slot.handsBack_release) (some id) r r.phase

theorem recordSkipped (r : Run) (ids : List NodeId) : Spends r (r.recordSkipped ids) := by
  induction ids generalizing r with
  | nil => exact refl r
  | cons id ids ih =>
    exact ((note r id (by decide) r.now).trans (release _ id)).trans (ih (r.recordSkippedOne id))

theorem conclude (r : Run) (id : NodeId) (output : Option Value) : Spends r (r.conclude id output) := by
  rw [conclude_eq]
  exact (release r id).trans (same rfl rfl rfl)

theorem blame (r : Run) (id : NodeId) (e : RunError) : Spends r (r.blame id e) :=
  same (timeline_blame r id e) (destroys_blame r id e) (slots_blame r id e)

theorem addConsumers (r : Run) (p : Plan) (children : List NodeId) :
    Spends r ({ r with plan := p }.addConsumers children) where
  events := (refl r).events
  destroys := ⟨[], (List.append_nil _).symm, List.nodup_nil, fun d hm => by cases hm⟩
  spent := fun h => h.addConsumers _

end Spends

/-! ## What is told -/

section Told
variable {r r' : Run} {id : NodeId}

theorem Told.congr (h : r.Told) (ht : r'.timeline = r.timeline) (hd : r'.deferred = r.deferred)
    (hp : r'.plan = r.plan) : r'.Told := by
  intro x
  rw [ht, storyFor, hd, hp]
  exact h x

theorem timeline_recordSkippedOne (r : Run) (id : NodeId) :
    (r.recordSkippedOne id).timeline = r.timeline.add id .skipped r.now :=
  timeline_release (r.note id .skipped r.now) id

theorem storyOf_recordSkipped {ids : List NodeId} (hnd : ids.Nodup) (r : Run) (x : NodeId) :
    (r.recordSkipped ids).timeline.storyOf x =
      r.timeline.storyOf x ++ if x ∈ ids then [.skipped] else [] := by
  induction ids generalizing r with
  | nil => exact (List.append_nil _).symm
  | cons id ids ih =>
    obtain ⟨hid, hnd⟩ := List.nodup_cons.1 hnd
    have hrest := ih hnd (r.recordSkippedOne id)
    rw [timeline_recordSkippedOne, Timeline.storyOf_add _ _ (by decide)] at hrest
    refine hrest.trans ?_
    by_cases hx : x = id
    · rw [if_pos hx, if_neg (by rwa [hx]), if_pos (List.mem_cons.2 (.inl hx)), List.append_nil]
    · simp [hx]

theorem Told.skips {reason : String} {ids : List NodeId} (h : r.Told)
    (hs : Plan.Skips reason r.plan ids r'.plan) (ht : r'.timeline = r.timeline)
    (hd : r'.deferred = r.deferred) : (r'.recordSkipped ids).Told := by
  have hagree := agree_recordSkipped r' ids
  intro x
  rw [storyOf_recordSkipped hs.nodup, storyFor, hagree.plan, hagree.deferred, ht, hd, h x, storyFor,
    hs.status]
  by_cases hx : x ∈ ids
  · rw [if_pos hx, if_pos hx, Plan.isPending_iff.1 (hs.pending x hx)]
    rfl
  · rw [if_neg hx, if_neg hx, List.append_nil]

theorem Told.setStatus {s : NodeStatus} {kind : EventKind} {b : Bool} (h : r.Told)
    (hs : r.plan.status? id = some s) (hd : (r.deferred.get? id).isSome = b) (s' : NodeStatus)
    (hstory : s'.story b = s.story b ++ [kind]) (hk : kind ≠ .destroyed) (time : Nat)
    (hp : ∀ x, r'.plan.status? x = (r.plan.setStatus id s').status? x)
    (ht : r'.timeline = r.timeline.add id kind time) (hd' : r'.deferred = r.deferred) : r'.Told := by
  intro x
  rw [ht, Timeline.storyOf_add _ _ hk, storyFor, hp, Plan.status?_setStatus, hd', h x, storyFor]
  by_cases hx : x = id
  · simp only [hx, if_true, hs, hd, hstory, Option.map_some]
  · rw [if_neg hx, if_neg hx, List.append_nil]

theorem Told.succeed (h : r.Told) (hs : r.plan.status? id = some .running)
    (hd : r.deferred.get? id = none) (output : Option Value) (time : Nat) :
    (r.succeed id output time).Told := by
  have hagree := agree_release (r.note id .succeeded time) id
  have htime : ((r.note id .succeeded time).release id).1.timeline =
      r.timeline.add id .succeeded time := timeline_release _ id
  rw [succeed_eq]
  simp only [Run.conclude]
  split
  next =>
    refine h.setStatus hs rfl .succeeded (by rw [hd]; rfl) (by decide) time (fun x => ?_) htime
      hagree.deferred
    change (Plan.markSucceeded _ id output).status? x = _
    rw [Plan.status?_markSucceeded, ← Plan.status?_setStatus, hagree.plan]
    rfl
  next =>
    intro x
    change ((r.note id .succeeded time).release id).1.timeline.storyOf x = _
    rw [htime, Timeline.storyOf_add _ _ (by decide), storyFor, h x, storyFor, hagree.plan,
      SortedMap.get?_insert, hagree.deferred]
    change _ = match r.plan.status? x with
      | some s => s.story (if x = id then _ else r.deferred.get? x).isSome
      | none => []
    by_cases hx : x = id
    · rw [if_pos hx, if_pos hx, hx, hs, hd]
      rfl
    · rw [if_neg hx, if_neg hx, List.append_nil]

end Told

/-! ## What is recorded -/

/-- How a run goes on that takes no note of a destruction. -/
structure Records (r r' : Run) : Prop extends Spends r r' where
  told : r.Told → r'.Told

namespace Records
variable {g : Graph} {E : Expansions} {r r' r'' : Run} {id : NodeId}

theorem trans (h : Records r r') (h' : Records r' r'') : Records r r'' :=
  ⟨h.toSpends.trans h'.toSpends, fun ht => h'.told (h.told ht)⟩

theorem same (ht : r'.timeline = r.timeline) (hd : r'.destroys = r.destroys) (hs : r'.slots = r.slots)
    (hdef : r'.deferred = r.deferred) (hp : r'.plan = r.plan) : Records r r' :=
  ⟨.same ht hd hs, fun h => h.congr ht hdef hp⟩

theorem refl (r : Run) : Records r r := same rfl rfl rfl rfl rfl

theorem release (r : Run) (id : NodeId) : Records r (r.release id).1 :=
  have hagree := agree_release r id
  ⟨.release r id, fun h => h.congr (timeline_release r id) hagree.deferred hagree.plan⟩

theorem skips {reason : String} {ids : List NodeId} {p : Plan} (hs : Plan.Skips reason r.plan ids p) :
    Records r ({ r with plan := p }.recordSkipped ids) :=
  have hplan : Spends r { r with plan := p } := .same rfl rfl rfl
  ⟨hplan.trans (.recordSkipped _ ids), fun h => Told.skips (r := r) h hs rfl rfl⟩

theorem skipPending (r : Run) (reason : String) : Records r (r.skipPending reason).1 :=
  skips (Plan.skips_skipPending r.plan reason).1

theorem skipIdle (hs : r.plan.Sound g E) : Records r r.skipIdle := skips hs.skips_skipIdleResources

theorem skipUnlessAccepting (r : Run) : Records r r.skipUnlessAccepting := by
  rw [Run.skipUnlessAccepting]
  split
  next => exact refl r
  next => exact skipPending r cancelReason

/-! ### Ends of nodes -/

theorem succeed (hs : r.plan.status? id = some .running) (hd : r.deferred.get? id = none)
    (output : Option Value) (time : Nat) : Records r (r.succeed id output time) :=
  have hnote : Spends r (r.note id .succeeded time) := .note r id (by decide) time
  ⟨hnote.trans (.conclude _ id output), fun h => h.succeed hs hd output time⟩

theorem fail (hs : r.plan.status? id = some .running) (hd : r.deferred.get? id = none) (e : RunError)
    (time : Nat) : Records r (r.fail id e time) := by
  let noted : Run := { r.note id .failed time with plan := r.plan.setStatus id (.failed e.message) }
  let marked : Run := { r.note id .failed time with plan := (r.plan.markFailed id e.message).1 }
  have hskips : Plan.Skips s!"dependency {id.text} failed" noted.plan
      (r.plan.markFailed id e.message).2 (marked.blame id e).plan := by
    rw [plan_blame]
    exact Plan.skips_markFailed r.plan id e.message
  have hfailed : Records r ((marked.blame id e).recordSkipped (r.plan.markFailed id e.message).2) := by
    constructor
    case toSpends =>
      have hmarked : Spends (r.note id .failed time) marked := .same rfl rfl rfl
      exact (((Spends.note r id (by decide) time).trans hmarked).trans (.blame marked id e)).trans
        (.recordSkipped _ _)
    case told =>
      intro h
      have htold : noted.Told := h.setStatus hs rfl (.failed e.message) (by rw [hd]; rfl)
        (by decide) time (fun _ => rfl) rfl rfl
      exact htold.skips hskips (timeline_blame marked id e) (deferred_blame marked id e)
  rw [fail_eq]
  exact (hfailed.trans (release _ id)).trans (skipUnlessAccepting _)

theorem splice {p : Plan} {children : List NodeId}
    (hfresh : ∀ x ∈ children, r.plan.status? x = none)
    (hstatus : ∀ x, p.status? x = if x ∈ children then some .pending else r.plan.status? x) :
    Records r ({ r with plan := p }.addConsumers children) := by
  refine ⟨.addConsumers r p children, fun h x => ?_⟩
  change r.timeline.storyOf x = match p.status? x with
    | some s => s.story (r.deferred.get? x).isSome
    | none => []
  rw [h x, storyFor, hstatus]
  by_cases hx : x ∈ children
  · rw [if_pos hx, hfresh x hx]
    rfl
  · rw [if_neg hx]

theorem complete (hg : g.Sound) {result : WorkOutcome}
    (hl : Live g ⟨r, E, some (id, some result), []⟩) (hn : r.Numbered) (hE : E id = none)
    (time : Nat) : Records r (r.complete id result time) := by
  have hrun : r.plan.status? id = some .running := (hl.active rfl).1
  have hdef : r.deferred.get? id = none := (hl.active rfl).2.1
  match result with
  | .error e => exact fail hrun hdef e time
  | .ok (.output v) => exact succeed hrun hdef (some v) time
  | .ok .created => exact succeed hrun hdef none time
  | .ok (.expanded vars) =>
    rw [Run.complete]
    cases hx : r.plan.expand id vars with
    | error e =>
      rw [expanded_eq_error hx]
      exact fail hrun hdef (.expansion e) time
    | ok out =>
      obtain ⟨p, children⟩ := out
      have hexp := Plan.Sound.expands hg hl.sound hE hx
      have hfresh : ∀ x ∈ children, r.plan.status? x = none :=
        fun x hc => hexp.status_eq_none hl.sound hc
      have hsplice := splice hfresh hexp.status
      have hrun' : p.status? id = some .running := hexp.keeps_status hl.sound hrun
      have hsucceed : Path ⟨r, E, some (id, some (.ok (.expanded vars))), []⟩ [] _ :=
        (Path.single (.expand hE hx)).trans_nil
          (path_succeed (fun _ he => by cases he; exact Expansions.set_self) time)
      have hsound := (hsucceed.live hg hn hl).sound
      rw [expanded_eq_ok hx]
      have hended := succeed (r := { r with plan := p }.addConsumers children) hrun' hdef none time
      exact ((hsplice.trans hended).trans (skipIdle hsound)).trans (skipUnlessAccepting _)

/-! ### Ends of destructions -/

/-- The story of a node that has waited for destructions does not change when it has succeeded. -/
theorem told_settle {owner : NodeId} {d : Nat × Option Value} {m : SortedMap NodeId (Nat × Option Value)}
    (hs : r.plan.status? owner = some .running) (hd : r.deferred.get? owner = some d)
    (hm : ∀ x, x ≠ owner → m.get? x = r.deferred.get? x) (output : Option Value) (h : r.Told) :
    ({ r with deferred := m }.settle owner output).Told := by
  intro x
  change r.timeline.storyOf x = match (r.plan.markSucceeded owner output).status? x with
    | some s => s.story (m.get? x).isSome
    | none => []
  rw [h x, storyFor, Plan.status?_markSucceeded]
  by_cases hx : x = owner
  · rw [hx, if_pos rfl, hs, hd]
    rfl
  · rw [if_neg hx, hm x hx]

theorem credit (hl : Live g ⟨r, E, none, []⟩) (owner : NodeId) : Records r (r.credit owner) := by
  rw [Run.credit]
  split
  next => exact refl r
  next waiting output hd =>
    split
    next =>
      refine ⟨.same rfl rfl rfl, fun h x => ?_⟩
      change r.timeline.storyOf x = match r.plan.status? x with
        | some s => s.story ((r.deferred.insert owner _).get? x).isSome
        | none => []
      rw [h x, storyFor, SortedMap.get?_insert]
      by_cases hx : x = owner
      · rw [hx, if_pos rfl, hd]
        rfl
      · rw [if_neg hx]
    next =>
      refine ⟨.same rfl rfl rfl, told_settle (hl.deferred hd) hd (fun x hx => ?_) output⟩
      rw [SortedMap.get?_erase, if_neg hx]

theorem destroyDone (hg : g.Sound) (hl : Live g ⟨r, E, none, []⟩) (owner : NodeId) :
    Records r (r.destroyDone owner) := by
  rcases destroyDone_cases r owner with ⟨-, h⟩ | h
  · rw [h]
    exact credit hl owner
  · rw [h]
    exact (credit hl owner).trans (skipIdle (hl.credit hg owner).sound)

theorem settleDeferred
    (hdef : ∀ id d, r.deferred.get? id = some d → r.plan.status? id = some .running) :
    Records r r.settleDeferred := by
  have hall : ∀ (l : List (NodeId × (Nat × Option Value))) (r : Run), r.deferred.toList = l →
      (∀ id d, r.deferred.get? id = some d → r.plan.status? id = some .running) →
      Records r (l.foldl (fun r e => r.settle e.1 e.2.2) { r with deferred := .empty }) := by
    intro l
    induction l with
    | nil =>
      intro r hl _
      exact same rfl rfl rfl (deferred_eq_empty hl).symm rfl
    | cons e l ih =>
      intro r hl hdef
      have hget : r.deferred.get? e.1 = some e.2 :=
        (SortedMap.mem_toList_iff _ _ _).1 (hl ▸ List.mem_cons_self)
      have herase : ∀ x, x ≠ e.1 → (r.deferred.erase e.1).get? x = r.deferred.get? x := by
        intro x hx
        rw [SortedMap.get?_erase, if_neg hx]
      have hfirst : Records r ({ r with deferred := r.deferred.erase e.1 }.settle e.1 e.2.2) :=
        ⟨.same rfl rfl rfl, told_settle (hdef _ _ hget) hget herase e.2.2⟩
      refine hfirst.trans (ih _ (erase_head hl) fun x d hx => ?_)
      have hx' : (r.deferred.erase e.1).get? x = some d := hx
      have hne : x ≠ e.1 := by
        rintro rfl
        rw [SortedMap.get?_erase, if_pos rfl] at hx'
        cases hx'
      change (r.plan.markSucceeded e.1 e.2.2).status? x = _
      rw [Plan.status?_markSucceeded, if_neg hne]
      exact hdef x d ((herase x hne).symm.trans hx')
  exact hall _ r rfl hdef

/-! ### Turns -/

theorem observe (r : Run) : Records r r.observe := by
  rw [Run.observe]
  split
  next =>
    have hcancel : Records r { r with cancelled := true } := same rfl rfl rfl rfl rfl
    exact hcancel.trans (skipPending _ cancelReason)
  next => exact refl r

theorem start (hl : Live g ⟨r, E, none, []⟩) (hp : r.plan.isPending id = true) :
    Records r (r.start id) := by
  have hpend := Plan.isPending_iff.1 hp
  have hdef := hl.not_deferred hpend (by decide)
  have hbegun : Records r (r.begun id) := by
    have hmark : Spends r { r with plan := r.plan.markRunning id } := .same rfl rfl rfl
    refine ⟨hmark.trans (.note _ id (by decide) _), fun h => ?_⟩
    exact h.setStatus hpend rfl .running (by rw [hdef]; rfl) (by decide) r.now (fun _ => rfl)
      rfl rfl
  have hrun : (r.begun id).plan.status? id = some .running := by
    rw [plan_begun, Plan.markRunning, Plan.status?_setStatus, if_pos rfl, hpend]
    rfl
  rcases start_cases r id with ⟨t, -, h⟩ | ⟨e, -, h⟩
  · rw [h]
    exact hbegun.trans (same rfl rfl rfl rfl rfl)
  · rw [h]
    exact hbegun.trans (fail hrun hdef e r.now)

theorem endIfQuiet (r : Run) : Records r r.endIfQuiet := by
  rw [Run.endIfQuiet]
  split
  next => exact same rfl rfl rfl rfl rfl
  next => exact refl r

theorem stop (r : Run) : Records r r.stop := by
  have hun : Records r r.unstalled := by
    rw [unstalled]
    split
    next => exact (skipPending r stallReason).trans (same rfl rfl rfl rfl rfl)
    next => exact refl r
  have hagree := agree_spawnDestroys none
    { r.unstalled with slots := r.unstalled.slots.drain.2, phase := .tearingDown }
    r.unstalled.slots.drain.1
  have hdrained : Records r.unstalled r.unstalled.drained :=
    ⟨.handBack (fun _ _ => Slot.handsBack_drain) none _ _, fun h =>
      h.congr (timeline_spawnDestroys none _ _) hagree.deferred hagree.plan⟩
  rw [stop_eq]
  exact (hun.trans hdrained).trans (endIfQuiet _)

theorem turn (hg : g.Sound) (hl : Live g ⟨r, E, none, []⟩) (hn : r.Numbered) (hr : r.Rested)
    (hroom : r.tasks.length ≤ r.settings.limit) : Records r r.turn := by
  have hkeeps : TurnKeeps g E fun r' _ => Records r r' := by
    constructor
    case start => exact fun hlive hp h => h.trans (start hlive hp)
    case observe => exact fun h => h.trans (observe _)
    case settle => exact fun hlive h => h.trans (settleDeferred fun _ _ hd => hlive.deferred hd)
    case stop => exact fun h => h.trans (stop _)
  exact hkeeps.turn hg hl hn hr hroom (l := []) (refl r)

theorem resume (hg : g.Sound) (hl : Live g ⟨r, E, none, []⟩) (hn : r.Numbered) (hr : r.Rested)
    (hroom : r.tasks.length ≤ r.settings.limit) : Records r r.resume := by
  rw [Run.resume]
  split
  next => exact turn hg hl hn hr hroom
  next => exact endIfQuiet r
  next => exact refl r

end Records
end Run

end Workplan
