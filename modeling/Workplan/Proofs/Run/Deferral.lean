import Workplan.Proofs.Run.Scheduling

/-! Deferral: a node that has to wait for destructions waits at least for those that are in flight on its
behalf, and whoever has succeeded has none. When handlers of destructions always wait, each of them reports
in the end, so that a node waits for exactly those that are in flight, and is not left to wait for nothing. -/
namespace Workplan
set_option autoImplicit false

def DestroyPhase.Reports : DestroyPhase → Prop
  | .queued handle => ∀ i w, ∃ ms act w', handle i w = (.wait ms act, w')
  | .waiting _ _ => True
  | .finished result _ => result ≠ .lost

/-- The handlers of destructions always wait. -/
def Registry.DestroysReport (R : Registry) : Prop :=
  ∀ {name k}, R.kind? name = some k → (DestroyPhase.queued k.destroy).Reports

/-- The number of destructions in flight on behalf of a node. -/
def Run.owed (r : Run) (id : NodeId) : Nat := r.destroys.countP fun d => d.owner = some id

/-- A node has failed or has been skipped. -/
def Plan.Fallen (p : Plan) (id : NodeId) : Prop :=
  ∃ st, p.status? id = some st ∧ st.isTerminal = true ∧ st ≠ .succeeded

theorem Plan.Fallen.evolves {p p' : Plan} {id : NodeId} (h : p.Fallen id) (hev : p.Evolves p') :
    p'.Fallen id := by
  obtain ⟨st, hst, hterm, hne⟩ := h
  exact ⟨st, hev.final hst hterm, hterm, hne⟩

theorem Plan.Skips.fallen {reason : String} {p p' : Plan} {ids : List NodeId}
    (h : Skips reason p ids p') {id : NodeId} (hid : id ∈ ids) : p'.Fallen id :=
  ⟨_, (h.status id).trans (if_pos hid), rfl, by simp⟩

/-- Nodes wait for the destructions on their behalf; if handlers are reliable, then each of these reports. -/
structure Stage.Attended (reliable : Prop) (s : Stage) : Prop where
  reports : reliable → ∀ {d}, d ∈ s.run.destroys → d.phase.Reports
  owner : ∀ {d id}, d ∈ s.run.destroys → d.owner = some id →
    (∃ x, s.run.deferred.get? id = some x) ∨ s.run.plan.Fallen id
  waiting : ∀ {id k output}, s.run.deferred.get? id = some (k, output) →
    0 < k ∧ s.run.owed id ≤ k ∧ (reliable → s.run.owed id = k)
  ended : ∀ {id}, id ∈ s.ended → s.run.plan.Fallen id

namespace Run
variable {r : Run} {id x : NodeId} {d : DestroyTask}

theorem owed_eq_zero (h : ∀ d ∈ r.destroys, d.owner ≠ some id) : r.owed id = 0 := by
  rw [owed, List.countP_eq_zero]
  intro d hd
  simpa using h d hd

theorem owed_dropDestroy (hn : r.Numbered) (hd : d ∈ r.destroys) :
    r.owed x = (r.dropDestroy d.number).owed x + if d.owner = some x then 1 else 0 := by
  obtain ⟨l₁, l₂, hsplit, -, hfilter⟩ := Numbering.exists_split hn.destroys hd
  have hdrop : (r.dropDestroy d.number).destroys = l₁ ++ l₂ := hfilter
  rw [owed, owed, hdrop, hsplit, List.countP_append, List.countP_append, List.countP_cons]
  simp only [decide_eq_true_eq]
  omega

theorem destroys_spawnDestroys (owner : Option NodeId) (r : Run) (l : List Released) :
    ∃ ds, (spawnDestroys owner r l).1.destroys = r.destroys ++ ds ∧
      (spawnDestroys owner r l).2 = ds.length ∧
      ∀ d ∈ ds, d.owner = owner ∧ ∃ name k, r.settings.registry.kind? name = some k ∧
        d.phase = .queued k.destroy := by
  obtain ⟨ds, es, h⟩ := exists_spawns owner r l
  refine ⟨ds, ?_, h.count, fun d hd => ?_⟩
  · rw [h.eq]
  · obtain ⟨y, -, k, hk, he⟩ := h.isDestroy d hd
    rw [he]
    exact ⟨rfl, y.kind, k, hk, rfl⟩

theorem destroys_release (r : Run) (id : NodeId) :
    ∃ ds, (r.release id).1.destroys = r.destroys ++ ds ∧ (r.release id).2 = ds.length ∧
      ∀ d ∈ ds, d.owner = some id ∧ ∃ name k, r.settings.registry.kind? name = some k ∧
        d.phase = .queued k.destroy :=
  destroys_spawnDestroys (some id) { r with slots := (r.slots.release id).2 } (r.slots.release id).1

theorem owed_append {r' : Run} {owner : Option NodeId} {ds : List DestroyTask}
    (h : r'.destroys = r.destroys ++ ds) (hall : ∀ d ∈ ds, d.owner = owner) :
    r'.owed x = r.owed x + if owner = some x then ds.length else 0 := by
  rw [owed, owed, h, List.countP_append]
  by_cases hx : owner = some x
  · rw [if_pos hx, (List.countP_eq_length (l := ds)).2]
    intro d hd
    simp [hall d hd, hx]
  · rw [if_neg hx, (List.countP_eq_zero (l := ds)).2]
    intro d hd
    simpa [hall d hd] using hx

end Run

section Moves
variable {g : Graph} {s t : Stage} {r : Run} {E : Expansions} {id : NodeId} {reliable : Prop}
variable {a : Option (NodeId × Option WorkOutcome)} {l : List NodeId}

theorem Stage.Attended.not_owner (h : s.Attended reliable) (hnot : s.run.deferred.get? id = none)
    {st : NodeStatus} (hst : s.run.plan.status? id = some st)
    (hlive : st.isTerminal = false ∨ st = .succeeded) : ∀ d ∈ s.run.destroys, d.owner ≠ some id := by
  intro d hd ho
  rcases h.owner hd ho with ⟨x, hx⟩ | ⟨st', hst', hterm, hne⟩
  · cases hnot.symm.trans hx
  · cases hst.symm.trans hst'
    rcases hlive with hlive | rfl
    · rw [hterm] at hlive
      cases hlive
    · exact hne rfl

theorem Stage.Attended.frame (h : s.Attended reliable) (hd : t.run.destroys = s.run.destroys)
    (hdef : t.run.deferred = s.run.deferred) (hev : s.run.plan.Evolves t.run.plan)
    (hended : ∀ {id}, id ∈ t.ended → t.run.plan.Fallen id) : t.Attended reliable := by
  constructor
  case reports =>
    intro hrel d hm
    rw [hd] at hm
    exact h.reports hrel hm
  case owner =>
    intro d x hm ho
    rw [hd] at hm
    rw [hdef]
    exact (h.owner hm ho).imp_right fun hx => hx.evolves hev
  case waiting =>
    intro x k output hx
    rw [hdef] at hx
    have ho : t.run.owed x = s.run.owed x := by rw [Run.owed, Run.owed, hd]
    rw [ho]
    exact h.waiting hx
  case ended => exact hended

/-- Destructions start. A node on whose behalf they do waits for exactly these, or has fallen. -/
theorem Stage.Attended.append {r' : Run} {a' : Option (NodeId × Option WorkOutcome)} {l' : List NodeId}
    {owner : Option NodeId} {ds : List DestroyTask} (h : (Stage.mk r E a l).Attended reliable)
    (hR : reliable → r.settings.registry.DestroysReport) (hds : r'.destroys = r.destroys ++ ds)
    (hall : ∀ d ∈ ds, d.owner = owner ∧ ∃ name k, r.settings.registry.kind? name = some k ∧
      d.phase = .queued k.destroy)
    (hev : r.plan.Evolves r'.plan)
    (hdef : ∀ {x}, owner ≠ some x → r'.deferred.get? x = r.deferred.get? x)
    (howner : ∀ {x}, owner = some x → (r'.deferred.get? x = none ∧ r'.plan.Fallen x) ∨
      r.owed x = 0 ∧ 0 < ds.length ∧ ∃ output, r'.deferred.get? x = some (ds.length, output))
    (hended : ∀ {x}, x ∈ l' → r'.plan.Fallen x) : (Stage.mk r' E a' l').Attended reliable := by
  constructor
  case reports =>
    intro hrel d hm
    rw [hds] at hm
    rcases List.mem_append.1 hm with hm | hm
    · exact h.reports hrel hm
    · obtain ⟨-, name, k, hk, hq⟩ := hall d hm
      rw [hq]
      exact hR hrel hk
  case owner =>
    intro d x hm ho
    show (∃ y, r'.deferred.get? x = some y) ∨ r'.plan.Fallen x
    by_cases hx : owner = some x
    · rcases howner hx with ⟨-, hfallen⟩ | ⟨-, -, output, hget⟩
      · exact .inr hfallen
      · exact .inl ⟨_, hget⟩
    · rw [hds] at hm
      rcases List.mem_append.1 hm with hm | hm
      · rw [hdef hx]
        exact (h.owner hm ho).imp_right fun hf => hf.evolves hev
      · exact absurd ((hall d hm).1.symm.trans ho) hx
  case waiting =>
    intro x k output hget
    show 0 < k ∧ r'.owed x ≤ k ∧ (reliable → r'.owed x = k)
    have hget' : r'.deferred.get? x = some (k, output) := hget
    rw [Run.owed_append hds fun d hd => (hall d hd).1]
    by_cases hx : owner = some x
    · rcases howner hx with ⟨hnone, -⟩ | ⟨hzero, hpos, output', hget''⟩
      · cases hnone.symm.trans hget'
      · cases hget''.symm.trans hget'
        rw [if_pos hx, hzero, Nat.zero_add]
        exact ⟨hpos, Nat.le_refl _, fun _ => rfl⟩
    · rw [if_neg hx]
      rw [hdef hx] at hget'
      exact h.waiting hget'
  case ended => exact hended

theorem Stage.Attended.release (h : (Stage.mk r E a (id :: l)).Attended reliable)
    (hR : reliable → r.settings.registry.DestroysReport) (hnot : r.deferred.get? id = none) :
    (Stage.mk (r.release id).1 E a l).Attended reliable := by
  have hagree := Run.agree_release r id
  obtain ⟨ds, hds, -, hall⟩ := Run.destroys_release r id
  have hev : r.plan.Evolves (r.release id).1.plan := hagree.plan ▸ .refl _
  refine h.append hR hds hall hev (fun _ => by rw [hagree.deferred]) ?_ ?_
  · rintro x hx
    cases hx
    refine .inl ⟨?_, (h.ended List.mem_cons_self).evolves hev⟩
    rw [hagree.deferred]
    exact hnot
  · exact fun hx => (h.ended (List.mem_cons_of_mem _ hx)).evolves hev

theorem Stage.Attended.conclude {o : Option WorkOutcome} (hl : Live g ⟨r, E, some (id, o), []⟩)
    (h : (Stage.mk r E (some (id, o)) []).Attended reliable)
    (hR : reliable → r.settings.registry.DestroysReport) (output : Option Value) :
    (Stage.mk (r.conclude id output) E none []).Attended reliable := by
  obtain ⟨hrun, hdef, -⟩ := hl.active rfl
  have hagree := Run.agree_release r id
  obtain ⟨ds, hds, hlen, hall⟩ := Run.destroys_release r id
  -- Nothing was owed to the node before, so that what it waits for are the destructions just started.
  have hzero : r.owed id = 0 := Run.owed_eq_zero (h.not_owner hdef hrun (.inl rfl))
  simp only [Run.conclude]
  split
  next hw =>
    have hnil : ds = [] := by
      rw [hlen] at hw
      exact List.length_eq_zero_iff.1 hw
    rw [hnil, List.append_nil] at hds
    refine h.frame hds hagree.deferred ?_ fun hx => by cases hx
    have hev := Plan.evolves_markSucceeded hrun rfl output
    rw [Run.settle, hagree.plan]
    exact hev
  next hw =>
    refine h.append hR hds hall (hagree.plan ▸ .refl _) ?_ ?_ fun hx => by cases hx
    · intro x hx
      have hne : x ≠ id := fun he => hx (by rw [he])
      simp only [SortedMap.get?_insert, if_neg hne, hagree.deferred]
    · rintro x hx
      cases hx
      refine .inr ⟨hzero, ?_, output, ?_⟩
      · omega
      · simp only [SortedMap.get?_insert, if_true, hlen]

/-- A destruction on behalf of nobody, or one that is lost, is not in flight any more. -/
theorem Stage.Attended.drop (hn : r.Numbered) (h : (Stage.mk r E none []).Attended reliable)
    {d : DestroyTask} (hd : d ∈ r.destroys) (ho : reliable → d.owner = none) :
    (Stage.mk (r.dropDestroy d.number) E none []).Attended reliable := by
  have hsub : ∀ {u}, u ∈ (r.dropDestroy d.number).destroys → u ∈ r.destroys :=
    fun hu => List.mem_of_mem_filter hu
  refine ⟨fun hrel {u} hu => h.reports hrel (hsub hu), fun hu hou => h.owner (hsub hu) hou,
    fun {x k out} hx => ?_, fun hx => by cases hx⟩
  obtain ⟨hpos, hle, hk⟩ := h.waiting hx
  have hdrop := Run.owed_dropDestroy hn hd (x := x)
  change r.owed x ≤ k at hle
  refine ⟨hpos, ?_, fun hrel => ?_⟩
  · change (r.dropDestroy d.number).owed x ≤ k
    omega
  · have hk' : r.owed x = k := hk hrel
    rw [ho hrel, if_neg (by simp)] at hdrop
    change (r.dropDestroy d.number).owed x = k
    omega

/-- The entry of one node changes: it goes on waiting for what it is owed, or does not wait any more. -/
theorem Stage.Attended.redefer {r' : Run} (h : (Stage.mk r E none []).Attended reliable) (id : NodeId)
    (hsub : ∀ {d}, d ∈ r'.destroys → d ∈ r.destroys) (hev : r.plan.Evolves r'.plan)
    (howed : ∀ {x}, x ≠ id → r'.owed x = r.owed x)
    (hdef : ∀ {x}, x ≠ id → r'.deferred.get? x = r.deferred.get? x)
    (hid : (∃ k output, r'.deferred.get? id = some (k, output) ∧ 0 < k ∧ r'.owed id ≤ k ∧
        (reliable → r'.owed id = k)) ∨
      r'.deferred.get? id = none ∧ (r'.owed id = 0 ∨ r.deferred.get? id = none)) :
    (Stage.mk r' E none []).Attended reliable := by
  constructor
  case reports => exact fun hrel _ hd => h.reports hrel (hsub hd)
  case owner =>
    intro d x hm ho
    show (∃ y, r'.deferred.get? x = some y) ∨ r'.plan.Fallen x
    have hold := (h.owner (hsub hm) ho).imp_right fun hf => hf.evolves hev
    by_cases hx : x = id
    · subst hx
      rcases hid with ⟨k, output, hget, -⟩ | ⟨-, hzero | hnone⟩
      · exact .inl ⟨_, hget⟩
      · have hcount := List.countP_eq_zero.1 hzero d hm
        simp [ho] at hcount
      · exact .inr (hold.resolve_left fun ⟨y, hy⟩ => by cases hnone.symm.trans hy)
    · rw [hdef hx]
      exact hold
  case waiting =>
    intro x k output hget
    show 0 < k ∧ r'.owed x ≤ k ∧ (reliable → r'.owed x = k)
    have hget' : r'.deferred.get? x = some (k, output) := hget
    by_cases hx : x = id
    · subst hx
      rcases hid with ⟨k', output', hget'', hk⟩ | ⟨hnone, -⟩
      · cases hget''.symm.trans hget'
        exact hk
      · cases hnone.symm.trans hget'
    · rw [howed hx]
      rw [hdef hx] at hget'
      exact h.waiting hget'
  case ended => exact fun hx => by cases hx

theorem Stage.Attended.credit (hl : Live g ⟨r, E, none, []⟩) (hn : r.Numbered)
    (h : (Stage.mk r E none []).Attended reliable) {d : DestroyTask} (hd : d ∈ r.destroys)
    (ho : d.owner = some id) :
    (Stage.mk ((r.dropDestroy d.number).credit id) E none []).Attended reliable := by
  have hsub : ∀ {u}, u ∈ (r.dropDestroy d.number).destroys → u ∈ r.destroys :=
    fun hu => List.mem_of_mem_filter hu
  have howed : ∀ {x}, x ≠ id → (r.dropDestroy d.number).owed x = r.owed x := by
    intro x hx
    have hdrop := Run.owed_dropDestroy hn hd (x := x)
    rw [ho, if_neg fun he => hx (Option.some.inj he).symm] at hdrop
    exact hdrop.symm
  have hself : r.owed id = (r.dropDestroy d.number).owed id + 1 := by
    rw [Run.owed_dropDestroy hn hd, ho, if_pos rfl]
  -- The node is owed one destruction less, all others what they were.
  simp only [Run.credit]
  split
  next hnone => exact h.redefer id hsub (.refl _) howed (fun _ => rfl) (.inr ⟨hnone, .inr hnone⟩)
  next waiting output hget =>
    obtain ⟨-, hle, hk⟩ : 0 < waiting ∧ r.owed id ≤ waiting ∧ (reliable → r.owed id = waiting) :=
      h.waiting hget
    split
    next hw =>
      refine h.redefer id hsub (.refl _) howed (fun hx => ?_) (.inl ⟨waiting - 1, output, ?_, ?_, ?_, ?_⟩)
      · exact (SortedMap.get?_insert _ _ _ _).trans (if_neg hx)
      · exact (SortedMap.get?_insert _ _ _ _).trans (if_pos rfl)
      · omega
      · show (r.dropDestroy d.number).owed id ≤ waiting - 1
        omega
      · intro hrel
        have hexact := hk hrel
        show (r.dropDestroy d.number).owed id = waiting - 1
        omega
    next hw =>
      -- it was the last one
      have hlast : (r.dropDestroy d.number).owed id = 0 := by omega
      refine h.redefer id hsub (Plan.evolves_markSucceeded (hl.deferred hget) rfl output) howed
        (fun hx => ?_) (.inr ⟨?_, .inl hlast⟩)
      · exact (SortedMap.get?_erase _ _ _).trans (if_neg hx)
      · exact (SortedMap.get?_erase _ _ _).trans (if_pos rfl)

theorem Moves.attended (hg : g.Sound) (hm : Moves s t) (hn : s.run.Numbered) (hl : Live g s)
    (hR : reliable → s.run.settings.registry.DestroysReport) (h : s.Attended reliable) :
    t.Attended reliable := by
  have hev := hm.evolves hg hl
  have hnil : ∀ {p : Plan} {x : NodeId}, x ∈ ([] : List NodeId) → p.Fallen x := fun hx => by cases hx
  cases hm with
  | note r E a l id time hk => exact h.frame rfl rfl hev h.ended
  | conclude r hE => exact h.conclude hl hR _
  | @fail r E id o e hf =>
    apply h.frame (Run.destroys_blame _ _ _) (Run.deferred_blame _ _ _) hev
    intro x hx
    have hskips := Plan.skips_markFailed r.plan id e.message
    rw [Run.plan_blame]
    by_cases hm : x ∈ (r.plan.markFailed id e.message).2
    · exact hskips.fallen hm
    · obtain rfl := List.mem_singleton.1 ((List.mem_append.1 hx).resolve_left hm)
      exact ⟨_, Plan.status?_markFailed (hl.active rfl).1 _, rfl, by simp⟩
  | release r E a id l =>
    exact h.release hR (hl.not_deferred_of_ended List.mem_cons_self)
  | skipIdle r E => exact h.frame rfl rfl hev hl.sound.skips_skipIdleResources.fallen
  | skipAll E reason ha => exact h.frame rfl rfl hev (Plan.skips_skipPending _ reason).1.fallen
  | stall E ha ht hd hr hw => exact h.frame rfl rfl hev (Plan.skips_skipPending _ _).1.fallen
  | lose E hm hf =>
    apply h.drop hn hm
    intro hrel
    have hrep := h.reports hrel hm
    rw [hf] at hrep
    exact absurd rfl hrep
  | discard E hm hf ho => exact h.drop hn hm fun _ => ho
  | credit E hm hf ho => exact h.credit hl hn hm ho
  | @giveUp r E hd id d hget =>
    have hzero : ∀ {r' : Run} {x}, r'.destroys = r.destroys → r'.owed x = 0 :=
      fun he => by rw [Run.owed, he, hd, List.countP_nil]
    refine h.redefer id (fun hu => hu) hev (fun _ => (hzero rfl).trans (hzero rfl).symm) (fun hx => ?_)
      (.inr ⟨?_, .inl (hzero rfl)⟩)
    · exact (SortedMap.get?_erase _ _ _).trans (if_neg hx)
    · exact (SortedMap.get?_erase _ _ _).trans (if_pos rfl)
  | @drain r E hw hm hd hp =>
    obtain ⟨ds, hds, -, hall⟩ := Run.destroys_spawnDestroys none
      { r with slots := r.slots.drain.2, phase := .tearingDown } r.slots.drain.1
    refine h.append hR hds hall hev (fun _ => ?_) (fun hx => by cases hx) hnil
    rw [(Run.agree_spawnDestroys none _ _).deferred]
  | _ => exact h.frame rfl rfl hev hnil

theorem Begins.attended (hb : Begins s id t) (h : s.Attended reliable) : t.Attended reliable := by
  have hev := hb.evolves
  cases hb with
  | mk E ha hlimit hr => exact h.frame rfl rfl hev fun hx => by cases hx

namespace Run

theorem Works.attended {r r' : Run} {e : Event} (hw : Works r e r')
    (h : (Stage.mk r E none []).Attended reliable) : (Stage.mk r' E none []).Attended reliable := by
  -- Work changes the phases of destructions, and neither their owners nor their number.
  have hphase : ∀ {w : World} {d : DestroyTask} {phase : DestroyPhase}, d ∈ r.destroys →
      (reliable → phase.Reports) →
      (Stage.mk ({ r with world := w }.setDestroyPhase d.number phase) E none []).Attended
        reliable := by
    intro w d phase hd hrep
    have hmem : ∀ {u}, u ∈ ({ r with world := w }.setDestroyPhase d.number phase).destroys →
        ∃ v ∈ r.destroys, u.owner = v.owner ∧ (reliable → u.phase.Reports) := by
      intro u hu
      obtain ⟨v, hv, he⟩ := List.mem_map.1 hu
      refine ⟨v, hv, ?_⟩
      split at he
      next => rw [← he]; exact ⟨rfl, hrep⟩
      next => rw [← he]; exact ⟨rfl, fun hrel => h.reports hrel hv⟩
    have howed : ∀ x, ({ r with world := w }.setDestroyPhase d.number phase).owed x = r.owed x := by
      intro x
      rw [owed, owed, setDestroyPhase, List.countP_map]
      refine List.countP_congr fun v _ => ?_
      rw [Function.comp_apply]
      split <;> rfl
    constructor
    case reports =>
      intro hrel u hu
      obtain ⟨v, -, -, hv⟩ := hmem hu
      exact hv hrel
    case owner =>
      intro u x hu ho
      obtain ⟨v, hv, hown, -⟩ := hmem hu
      exact h.owner hv (hown.symm.trans ho)
    case waiting =>
      intro x k out hx
      rw [howed]
      exact h.waiting hx
    case ended => exact h.ended
  cases hw with
  | callDestroy hd hq hc =>
    refine hphase hd fun hrel => ?_
    have hrep := h.reports hrel hd
    rw [hq] at hrep
    obtain ⟨ms, act, w', hwait⟩ := hrep _ r.world
    cases hc.symm.trans hwait
    trivial
  | @answerDestroy d wake act answer w hd hw hc =>
    refine hphase hd fun _ => ?_
    cases answer <;> exact fun he => by cases he
  | task ht hm => exact ⟨h.reports, h.owner, h.waiting, h.ended⟩
  | requestStop => exact ⟨h.reports, h.owner, h.waiting, h.ended⟩
  | advance ht => exact ⟨h.reports, h.owner, h.waiting, h.ended⟩

theorem attended_new (settings : RunSettings) (g : Graph) (stopRequested : Bool) :
    (Stage.mk (new settings g stopRequested) .none none []).Attended reliable :=
  ⟨fun _ {d} hd => (by cases hd), fun hd => (by cases hd), fun hd => (by cases hd),
    fun hd => (by cases hd)⟩

end Run

end Moves

end Workplan
