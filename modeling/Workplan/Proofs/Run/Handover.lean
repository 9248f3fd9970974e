import Workplan.Proofs.Run.Deferral
import Workplan.Proofs.Run.Retention
import Workplan.Proofs.Run.Verdict

/-! Handover: what depends on a node starts only when the resources that the node was the last to use are
gone. While a destruction is in flight, the node on behalf of which it was started waits for it or has not
succeeded at all; and a destruction leaves the flight only when it has finished, well or not. -/
namespace Workplan
set_option autoImplicit false

/-! ## Destructions in flight -/

/-- The handler of a destruction has ended in some way. -/
def DestroyTask.IsFinished (d : DestroyTask) : Prop :=
  ∃ result time, d.phase = .finished result time

/-- A destruction, however far it has come. -/
def DestroyTask.Same (d d' : DestroyTask) : Prop := d'.number = d.number ∧ d'.owner = d.owner

/-- A destruction has finished during a history. -/
def Run.Over (h : Run.Trace) (d : DestroyTask) : Prop :=
  ∃ y ∈ h, ∃ d' ∈ y.1.destroys, d.Same d' ∧ d'.IsFinished

section Moves
variable {g : Graph} {s t : Stage} {r r' : Run} {E : Expansions} {id x : NodeId} {d : DestroyTask}

theorem Run.mem_dropDestroy (hn : r.Numbered) {u : DestroyTask} (hu : u ∈ r.destroys)
    (hd : d ∈ r.destroys) (hne : d ≠ u) : d ∈ (r.dropDestroy u.number).destroys := by
  apply List.mem_filter.2 ⟨hd, ?_⟩
  simpa using fun he => hne (Numbering.eq_of_number hn.destroys hd hu he)

theorem Live.not_owner (hl : Live g ⟨r, E, none, []⟩) (ha : (Stage.mk r E none []).Attended False)
    (hs : r.plan.hasSucceeded id = true) : ∀ d ∈ r.destroys, d.owner ≠ some id := by
  have hst := Plan.hasSucceeded_iff.1 hs
  exact ha.not_owner (hl.not_deferred hst (by decide)) hst (.inr rfl)

theorem Run.destroys_credit (r : Run) (owner : NodeId) : (r.credit owner).destroys = r.destroys := by
  rw [credit_eq]

theorem Run.destroys_conclude (r : Run) (id : NodeId) (output : Option Value) :
    (r.conclude id output).destroys = (r.release id).1.destroys := by
  rw [conclude_eq]

theorem Moves.mem_destroys (hm : Moves s t) (hn : s.run.Numbered) (hd : d ∈ s.run.destroys) :
    d ∈ t.run.destroys ∨ d.IsFinished := by
  have hdrop : ∀ {r : Run} {u : DestroyTask} {result : DestroyResult} {time : Nat}, r.Numbered →
      u ∈ r.destroys → u.phase = .finished result time → d ∈ r.destroys →
      d ∈ (r.dropDestroy u.number).destroys ∨ d.IsFinished := by
    intro r u result time hn hu hf hd
    by_cases he : d = u
    · exact .inr ⟨result, time, he ▸ hf⟩
    · exact .inl (Run.mem_dropDestroy hn hu hd he)
  cases hm with
  | conclude r hE =>
    obtain ⟨ds, hds, -⟩ := Run.destroys_release r _
    rw [Run.destroys_conclude, hds]
    exact .inl (List.mem_append_left _ hd)
  | fail hf =>
    rw [Run.destroys_blame]
    exact .inl hd
  | release r E a id l =>
    obtain ⟨ds, hds, -⟩ := Run.destroys_release r id
    rw [hds]
    exact .inl (List.mem_append_left _ hd)
  | lose E hu hf => exact hdrop hn hu hf hd
  | discard E hu hf ho => exact hdrop hn hu hf hd
  | credit E hu hf ho =>
    rw [Run.destroys_credit]
    exact hdrop hn hu hf hd
  | @drain r E hw ht hdef hp =>
    obtain ⟨ds, hds, -⟩ := Run.destroys_spawnDestroys none
      { r with slots := r.slots.drain.2, phase := .tearingDown } r.slots.drain.1
    rw [hds]
    exact .inl (List.mem_append_left _ hd)
  | _ => exact .inl hd

theorem Path.mem_destroys {l : List (Run × NodeId)} (hp : Path s l t) (hn : s.run.Numbered)
    (hd : d ∈ s.run.destroys) : d ∈ t.run.destroys ∨ d.IsFinished := by
  induction hp with
  | refl => exact .inl hd
  | move hp hm ih => exact ih.elim (hm.mem_destroys (hp.numbered hn)) .inr
  | start hp hb ih =>
    cases hb
    exact ih

theorem Run.Works.mem_destroys {e : Event} (hw : Works r e r') (hd : d ∈ r.destroys) :
    ∃ d' ∈ r'.destroys, d.Same d' := by
  have hphase : ∀ (w : World) (n : Nat) (phase : DestroyPhase),
      ∃ d' ∈ ({ r with world := w }.setDestroyPhase n phase).destroys, d.Same d' := by
    intro w n phase
    refine ⟨_, List.mem_map_of_mem hd, ?_⟩
    split
    next => exact ⟨rfl, rfl⟩
    next => exact ⟨rfl, rfl⟩
  cases hw with
  | callDestroy => exact hphase _ _ _
  | answerDestroy => exact hphase _ _ _
  | task ht hm => exact ⟨d, hd, rfl, rfl⟩
  | requestStop => exact ⟨d, hd, rfl, rfl⟩
  | advance => exact ⟨d, hd, rfl, rfl⟩

end Moves

/-! ## The number of destructions that a node waits for -/

/-- The destructions on behalf of a node have not finished, and it waits for all of them. -/
structure Stage.Fresh (id : NodeId) (s : Stage) : Prop where
  unfinished : ∀ {d}, d ∈ s.run.destroys → d.owner = some id → ¬ d.IsFinished
  waiting : ∀ {k output}, s.run.deferred.get? id = some (k, output) → s.run.owed id = k

section Fresh
variable {g : Graph} {s t : Stage} {r : Run} {E : Expansions} {id x : NodeId}

theorem Stage.Fresh.frame (h : s.Fresh x) (hd : t.run.destroys = s.run.destroys)
    (hdef : ∀ {d}, t.run.deferred.get? x = some d → s.run.deferred.get? x = some d) : t.Fresh x := by
  constructor
  · intro d hm
    rw [hd] at hm
    exact h.unfinished hm
  · intro k output hx
    rw [Run.owed, hd]
    exact h.waiting (hdef hx)

theorem Stage.Fresh.append {ds : List DestroyTask} (h : s.Fresh x)
    (hd : t.run.destroys = s.run.destroys ++ ds) (hds : ∀ d ∈ ds, ∃ handle, d.phase = .queued handle)
    (hw : ∀ {k output}, t.run.deferred.get? x = some (k, output) → t.run.owed x = k) : t.Fresh x := by
  refine ⟨fun {d} hm ho hf => ?_, hw⟩
  rw [hd] at hm
  rcases List.mem_append.1 hm with hm | hm
  · exact h.unfinished hm ho hf
  · obtain ⟨handle, hq⟩ := hds d hm
    obtain ⟨result, time, hf⟩ := hf
    cases hq.symm.trans hf

theorem Stage.Fresh.drop (h : (Stage.mk r E none []).Fresh x) (hn : r.Numbered) {u : DestroyTask}
    (hu : u ∈ r.destroys) (hf : u.IsFinished) :
    (Stage.mk (r.dropDestroy u.number) E none []).Fresh x := by
  refine ⟨fun hm => h.unfinished (List.mem_of_mem_filter hm), fun {k output} hx => ?_⟩
  have howed : r.owed x = k := h.waiting hx
  have hdrop := Run.owed_dropDestroy hn hu (x := x)
  rw [if_neg fun ho => h.unfinished hu ho hf] at hdrop
  change (r.dropDestroy u.number).owed x = k
  omega

theorem Stage.Fresh.conclude {o : Option WorkOutcome} (hl : Live g ⟨r, E, some (id, o), []⟩)
    (h : (Stage.mk r E (some (id, o)) []).Fresh x) (hnone : r.owed id = 0) (output : Option Value) :
    (Stage.mk (r.conclude id output) E none []).Fresh x := by
  obtain ⟨ds, hds, hlen, hall⟩ := Run.destroys_release r id
  have hdestroys : (r.conclude id output).destroys = r.destroys ++ ds :=
    (Run.destroys_conclude r id output).trans hds
  have howed := Run.owed_append (x := x) hdestroys fun d hd => (hall d hd).1
  apply h.append hdestroys
  · intro d hd
    obtain ⟨-, name, k, -, hq⟩ := hall d hd
    exact ⟨_, hq⟩
  · intro k output' hx
    change (r.conclude id output).owed x = k
    have hdef := (Run.agree_release r id).deferred
    by_cases hxid : x = id
    · subst hxid
      simp only [Run.conclude] at hx
      split at hx
      next =>
        have hx' : (r.release x).1.deferred.get? x = some (k, output') := hx
        rw [hdef] at hx'
        cases (hl.active rfl).2.1.symm.trans hx'
      next =>
        rw [SortedMap.get?_insert, if_pos rfl] at hx
        cases hx
        rw [howed, if_pos rfl, hnone, hlen, Nat.zero_add]
    · rw [howed, if_neg fun he => hxid (Option.some.inj he).symm, Nat.add_zero]
      refine @h.waiting k output' ?_
      simp only [Run.conclude] at hx
      split at hx
      next => exact hdef ▸ hx
      next =>
        rw [SortedMap.get?_insert, if_neg hxid, hdef] at hx
        exact hx

theorem Run.deferred_credit_of_ne (r : Run) (hne : x ≠ id) :
    (r.credit id).deferred.get? x = r.deferred.get? x := by
  rw [credit]
  split
  next => rfl
  next =>
    split
    next => rw [SortedMap.get?_insert, if_neg hne]
    next =>
      change (r.deferred.erase id).get? x = _
      rw [SortedMap.get?_erase, if_neg hne]

/-- A turn in which no destruction on behalf of a node is noted leaves the number as it is. -/
theorem Moves.fresh (hm : Moves s t) (hn : s.run.Numbered) (hl : Live g s)
    (ha : s.Attended False) (h : s.Fresh x) : t.Fresh x := by
  cases hm with
  | conclude r hE =>
    obtain ⟨hrun, hdef, -⟩ := hl.active rfl
    exact h.conclude hl (Run.owed_eq_zero (ha.not_owner hdef hrun (.inl rfl))) _
  | fail hf =>
    apply h.frame (Run.destroys_blame _ _ _)
    intro d hx
    rw [Run.deferred_blame] at hx
    exact hx
  | release r E a id l =>
    obtain ⟨ds, hds, -, hall⟩ := Run.destroys_release r id
    apply h.append hds
    · intro d hd
      obtain ⟨-, name, k, -, hq⟩ := hall d hd
      exact ⟨_, hq⟩
    · intro k output hx
      rw [(Run.agree_release r id).deferred] at hx
      have hne : some id ≠ some x := by
        rintro ⟨⟩
        cases (hl.not_deferred_of_ended List.mem_cons_self).symm.trans hx
      rw [Run.owed_append hds fun d hd => (hall d hd).1, if_neg hne]
      exact h.waiting hx
  | lose E hu hf => exact h.drop hn hu ⟨_, _, hf⟩
  | discard E hu hf ho => exact h.drop hn hu ⟨_, _, hf⟩
  | @credit r E u hu result time hf owner ho =>
    have hne : x ≠ owner := by
      rintro rfl
      exact h.unfinished hu ho ⟨_, _, hf⟩
    apply (h.drop hn hu ⟨_, _, hf⟩).frame (Run.destroys_credit _ _)
    intro d hx
    rw [Run.deferred_credit_of_ne _ hne] at hx
    exact hx
  | @giveUp r E hd id d hget =>
    refine h.frame rfl fun {d'} hx => ?_
    change (r.deferred.erase id).get? x = some d' at hx
    rw [SortedMap.get?_erase] at hx
    split at hx
    next => cases hx
    next => exact hx
  | @drain r E hw ht hdef hp =>
    have hagree := Run.agree_spawnDestroys none
      { r with slots := r.slots.drain.2, phase := .tearingDown } r.slots.drain.1
    obtain ⟨ds, hds, -, hall⟩ := Run.destroys_spawnDestroys none
      { r with slots := r.slots.drain.2, phase := .tearingDown } r.slots.drain.1
    apply h.append hds
    · intro d hd
      obtain ⟨-, name, k, -, hq⟩ := hall d hd
      exact ⟨_, hq⟩
    · intro k output hx
      rw [hagree.deferred] at hx
      have hx' : r.deferred.get? x = some (k, output) := hx
      rw [hdef] at hx'
      cases hx'
  | _ => exact h.frame rfl id

end Fresh

/-! ## Histories -/

namespace Run
section Histories
variable {g : Graph} {settings : RunSettings} {stopRequested : Bool} {h h' : Trace} {r r' q : Run}
variable {E : Expansions} {e : Event} {id : NodeId} {d : DestroyTask}

theorem Over.mono (ho : Over h d) (hsub : h ⊆ h') : Over h' d := by
  obtain ⟨y, hy, hd⟩ := ho
  exact ⟨y, hsub hy, hd⟩

theorem kept_attended (hg : g.Sound) : Stage.Kept g (fun _ => True) (Stage.Attended False) where
  move := fun hm hn hl h => hm.attended hg hn hl False.elim h
  start := fun hb _ _ h => hb.attended h
  work := fun _ hw _ h => hw.attended h

theorem kept_fresh (hg : g.Sound) (x : NodeId) :
    Stage.Kept g (fun _ => False) fun s => s.Attended False ∧ s.Fresh x where
  move := fun hm hn hl h => ⟨hm.attended hg hn hl False.elim h.1, hm.fresh hn hl h.1 h.2⟩
  start := fun hb _ _ h => by
    refine ⟨hb.attended h.1, ?_⟩
    cases hb
    exact h.2.frame rfl fun hx => hx
  work := fun he => he.elim

theorem Leads.attended (hg : g.Sound) (hl : Leads (ofGraph settings g stopRequested) h r) :
    (∃ E, Reached g E r ∧ (Stage.mk r E none []).Attended False) ∧
      ∀ x ∈ allStarts settings g stopRequested h, StartsAt g (Stage.Attended False) x :=
  hl.keeps hg (kept_attended hg) (attended_new settings g stopRequested) fun _ _ => trivial

theorem Reached.inFlight (hg : g.Sound) (hr : Reached g E r) (he : r.step e = some r')
    (hd : d ∈ r.destroys) : (∃ d' ∈ r'.destroys, d.Same d') ∨ d.IsFinished := by
  rcases hr.step hg he with ⟨hw, -⟩ | ⟨-, E', hp, -⟩
  · exact .inl (hw.mem_destroys hd)
  · exact (hp.mem_destroys hr.numbered hd).imp_left fun hm => ⟨d, hm, rfl, rfl⟩

theorem Leads.inFlight (hg : g.Sound) (hl : Leads (ofGraph settings g stopRequested) h r) :
    ∀ y ∈ h, ∀ d ∈ y.1.destroys, (∃ d' ∈ r.destroys, d.Same d') ∨ Over h d := by
  induction hl with
  | start => simp
  | @event h r r' e hl he ih =>
    obtain ⟨E, hr⟩ := hl.reached hg
    intro y hy d hd
    have hnow : (∃ d' ∈ r.destroys, d.Same d') ∨ Over h d := by
      rcases List.mem_append.1 hy with hy | hy
      · exact ih y hy d hd
      · obtain rfl := List.mem_singleton.1 hy
        exact .inl ⟨d, hd, rfl, rfl⟩
    rcases hnow with ⟨d₁, hd₁, hsame⟩ | hover
    · rcases hr.inFlight hg he hd₁ with ⟨d₂, hd₂, hsame₂⟩ | hf
      · exact .inl ⟨d₂, hd₂, hsame₂.1.trans hsame.1, hsame₂.2.trans hsame.2⟩
      · exact .inr ⟨(r, e), List.mem_append_right _ List.mem_cons_self, d₁, hd₁, hsame, hf⟩
    · exact .inr (hover.mono (List.subset_append_left _ _))

theorem Admits.exists_node (ha : q.Admits settings id) : ∃ n, q.plan.node? id = some n ∧
    ∀ p ∈ n.predecessors, q.plan.hasSucceeded p = true := by
  obtain ⟨-, n, hn, hq, -⟩ := Plan.isReady_iff.1 ha.ready
  exact ⟨n, hn, hq⟩

theorem Leads.over_of_hasSucceeded (hg : g.Sound)
    (hl : Leads (ofGraph settings g stopRequested) h r) (hs : r.plan.hasSucceeded id = true) :
    r.owed id = 0 ∧ ∀ y ∈ h, ∀ d ∈ y.1.destroys, d.owner = some id → Over h d := by
  obtain ⟨⟨E, hr, ha⟩, -⟩ := hl.attended hg
  have hnone : ∀ d ∈ r.destroys, d.owner ≠ some id := hr.live.not_owner ha hs
  refine ⟨owed_eq_zero hnone, fun y hy d hd ho => ?_⟩
  rcases hl.inFlight hg y hy d hd with ⟨d', hd', hsame⟩ | hover
  · exact absurd (hsame.2.trans ho) (hnone d' hd')
  · exact hover

/-- When a node is started after an event, what has been destroyed on behalf of a predecessor has
finished. -/
theorem Leads.over_of_starts (hg : g.Sound) (hl : Leads (ofGraph settings g stopRequested) h r)
    (he : r.step e = some r') (hx : (q, id) ∈ r.startsOfStep e) {p : NodeId}
    (hp : q.plan.hasSucceeded p = true) :
    ∀ y ∈ h ++ [(r, e)], ∀ d ∈ y.1.destroys, d.owner = some p → Over (h ++ [(r, e)]) d := by
  obtain ⟨E, hr⟩ := hl.reached hg
  have hall := (hl.event he).attended hg
  obtain ⟨E', u, ha, hlive, -, -⟩ := hall.2 (q, id) (by
    rw [allStarts_append]
    exact List.mem_append_right _ hx)
  have hnone : ∀ d ∈ q.destroys, d.owner ≠ some p := hlive.not_owner ha hp
  -- what is in flight before the event is so when the node is started, or has finished
  have hnow : ∀ d ∈ r.destroys, d.owner = some p → d.IsFinished := by
    intro d hd ho
    rcases hr.step hg he with ⟨-, hnil, -⟩ | ⟨-, E'', hpath, -⟩
    · rw [hnil] at hx
      cases hx
    · obtain ⟨l, E₁, u', hpath', -⟩ := hpath.exists_begins hx
      rcases hpath'.mem_destroys hr.numbered hd with hm | hf
      · exact absurd ho (hnone d hm)
      · exact hf
  have hlast : (r, e) ∈ h ++ [(r, e)] := List.mem_append_right _ List.mem_cons_self
  intro y hy d hd ho
  rcases List.mem_append.1 hy with hy | hy
  · rcases hl.inFlight hg y hy d hd with ⟨d', hd', hsame⟩ | hover
    · exact ⟨(r, e), hlast, d', hd', hsame, hnow d' hd' (hsame.2.trans ho)⟩
    · exact hover.mono (List.subset_append_left _ _)
  · obtain rfl := List.mem_singleton.1 hy
    exact ⟨(r, e), hlast, d, hd, ⟨rfl, rfl⟩, hnow d hd ho⟩

/-- The end of a task is noted by a chain of moves that starts with its node as the active one. -/
theorem Reached.path_collect (hg : g.Sound) (hr : Reached g E r) {t : Task} (ht : t ∈ r.tasks)
    {result : WorkOutcome} {time : Nat} (hf : t.phase = .finished result time)
    (he : r.step (.collectTask t.number) = some r') :
    ∃ l E', Path ⟨r.dropTask t.number, E, some (t.node, some result), []⟩ l ⟨r', E', none, []⟩ ∧
      Reached g E' r' := by
  have hcollect : Path ⟨r, E, none, []⟩ [] ⟨r.dropTask t.number, E, some (t.node, some result), []⟩ :=
    .single (.collect E ht hf)
  obtain ⟨E', hcomplete, hrested, hphase⟩ := hr.complete hg ht hf
  have hnoted := hcollect.trans_nil hcomplete
  obtain ⟨hresume, hrest⟩ := (Notes.task ht hf).resume hg hr hnoted hrested
  have heq : r' = ((r.dropTask t.number).complete t.node result time).resume := by
    obtain ⟨number, node, deadline, phase⟩ := t
    cases hf
    rw [Run.step, task?_of_mem hr.numbered ht] at he
    rw [resume, hphase]
    exact (Option.some.inj he).symm
  rw [heq]
  exact ⟨_, E', hcomplete.trans hresume, hr.path hg (hnoted.trans hresume) hrest⟩

/-- A node whose work has ended well waits for exactly the destructions on its behalf, and its result is
retained from then on. -/
theorem Leads.retains (hg : g.Sound) (hl : Leads (ofGraph settings g stopRequested) h r) {t : Task}
    (ht : t ∈ r.tasks) {w : WorkResult} {time : Nat} (hf : t.phase = .finished (.ok w) time)
    (he : r.step (.collectTask t.number) = some r') :
    (∀ {k output}, r'.deferred.get? t.node = some (k, output) → r'.owed t.node = k) ∧
      ∀ {h' r''}, Leads r' h' r'' → r''.Retains t.node w := by
  have hhonours := kept_honours hg t.node w
  have hall := hl.keeps hg ((kept_attended hg).and (kept_yielded hg))
    ⟨attended_new settings g stopRequested, yielded_new settings g stopRequested⟩ fun _ _ => trivial
  obtain ⟨⟨E, hr, ha, hy⟩, -⟩ := hall
  obtain ⟨l, E', hpath, hr'⟩ := hr.path_collect hg ht hf he
  have hm : Moves ⟨r, E, none, []⟩ ⟨r.dropTask t.number, E, some (t.node, some (.ok w)), []⟩ :=
    .collect E ht hf
  have hn₀ := hm.numbered hr.numbered
  have hl₀ := hm.live hg hr.numbered hr.live
  have ha₀ := (kept_attended hg).move hm hr.numbered hr.live ha
  have hy₀ := hm.yielded hg hr.numbered hr.live hy
  obtain ⟨hrun, hdef, -⟩ := hl₀.active rfl
  have hfresh : (Stage.mk (r.dropTask t.number) E (some (t.node, some (.ok w))) []).Fresh t.node :=
    ⟨fun hd ho => absurd ho (ha₀.not_owner hdef hrun (.inl rfl) _ hd),
      fun hx => by cases hdef.symm.trans hx⟩
  obtain ⟨-, hfresh'⟩ := hpath.keeps hg (kept_fresh hg t.node) hn₀ hl₀ ⟨ha₀, hfresh⟩
  refine ⟨hfresh'.waiting, fun {h' r''} hl' => ?_⟩
  have hkept := hpath.keeps hg hhonours hn₀ hl₀ ⟨hy₀, .inl rfl⟩
  obtain ⟨E'', -, -, hend⟩ := hr'.keeps hg hhonours hkept hl' fun _ _ => trivial
  exact hend.retains

end Histories

/-! ## All nodes of a history -/

/-- What a history that has led to a run says of the destructions that its nodes wait for. -/
structure Handover (g : Graph) (settings : RunSettings) (stopRequested : Bool) (h : Trace) (r : Run) :
    Prop where
  unowed : ∀ {q id}, (q, id) ∈ allStarts settings g stopRequested h → ∃ n, q.plan.node? id = some n ∧
    ∀ p ∈ n.predecessors, q.owed p = 0
  /-- Whatever was to be destroyed on behalf of the predecessors of a node that starts is over. -/
  starting : ∀ {e r'}, r.step e = some r' → ∀ {q id}, (q, id) ∈ r.startsOfStep e →
    ∃ n, q.plan.node? id = some n ∧ ∀ p ∈ n.predecessors, ∀ y ∈ h ++ [(r, e)],
      ∀ d ∈ y.1.destroys, d.owner = some p → Over (h ++ [(r, e)]) d
  succeeded : ∀ {id}, r.plan.hasSucceeded id = true →
    r.owed id = 0 ∧ ∀ y ∈ h, ∀ d ∈ y.1.destroys, d.owner = some id → Over h d
  /-- What has ended well waits for the destructions in flight on its behalf, and keeps its result. -/
  kept : ∀ {t}, t ∈ r.tasks → ∀ {w time}, t.phase = .finished (.ok w) time →
    ∃ r', r.step (.collectTask t.number) = some r' ∧
      (∀ k output, r'.deferred.get? t.node = some (k, output) → r'.owed t.node = k) ∧
      ∀ h' r'', Leads r' h' r'' → r''.Retains t.node w
  waiting : ∀ {id k output}, r.deferred.get? id = some (k, output) →
    0 < k ∧ r.owed id ≤ k ∧ r.plan.status? id = some .running
  done : r.phase = .ended → r.deferred = .empty ∧ ∀ id, r.plan.status? id ≠ some .running

end Run

/-- Handover. Whenever a run of a built graph starts a node, nothing is being destroyed on behalf of the
predecessors that it has then, and whatever has been has finished; a placeholder is no predecessor any more
when its instances, if there are any, have taken its place. The same holds of every node that has
succeeded. A node whose work has ended well waits for as many destructions as are in flight on its behalf
then, and its result is kept unchanged until it has succeeded and from there on; only the instances of a
placeholder may be refused. What a node counts never falls below what is in flight, and at the end no node
is left running. -/
theorem Graph.handover_of_build {defs : Definitions} {registry : Registry} {g : Graph}
    (hb : Graph.build defs registry = .ok g) (hp : defs.PlainNames) (settings : RunSettings)
    (stopRequested : Bool) {h : Run.Trace} {r : Run}
    (hl : Run.Leads (Run.ofGraph settings g stopRequested) h r) :
    Run.Handover g settings stopRequested h r := by
  have hg := Graph.sound_of_build hb hp
  obtain ⟨⟨E, hr, ha⟩, hall⟩ := hl.attended hg
  constructor
  case unowed =>
    intro q id hx
    obtain ⟨E', u, ha', hl', -, -⟩ := hall (q, id) hx
    obtain ⟨n, hn, hq⟩ := ((hl.started hg).admitted (q, id) hx).exists_node
    exact ⟨n, hn, fun p hp => Run.owed_eq_zero (hl'.not_owner ha' (hq p hp))⟩
  case starting =>
    intro e r' he q id hx
    have hx' : (q, id) ∈ Run.allStarts settings g stopRequested (h ++ [(r, e)]) := by
      rw [Run.allStarts_append]
      exact List.mem_append_right _ hx
    obtain ⟨n, hn, hq⟩ := (((hl.event he).started hg).admitted (q, id) hx').exists_node
    exact ⟨n, hn, fun p hp => hl.over_of_starts hg he hx (hq p hp)⟩
  case succeeded =>
    intro id hs
    exact hl.over_of_hasSucceeded hg hs
  case kept =>
    intro t ht w time hf
    obtain ⟨r', he⟩ : ∃ r', r.step (.collectTask t.number) = some r' := by
      have ht' := Run.task?_of_mem hr.numbered ht
      obtain ⟨number, node, deadline, phase⟩ := t
      cases hf
      rw [Run.step, ht']
      exact ⟨_, rfl⟩
    obtain ⟨hcount, hkept⟩ := hl.retains hg ht hf he
    exact ⟨r', he, fun k output => hcount, fun h' r'' => hkept⟩
  case waiting =>
    intro id k output hd
    obtain ⟨hpos, hle, -⟩ := ha.waiting hd
    exact ⟨hpos, hle, hr.live.deferred hd⟩
  case done =>
    intro hend
    refine ⟨(hr.atRest.stopped (by rw [hend]; decide)).2.1, fun id hrun => ?_⟩
    have hterm := hr.isTerminal hend hrun
    cases hterm

namespace Relay

/-- The run when the resource that step `a` has used is gone, and this has not been noted yet. -/
def freed : Run := Run.runFor none 11 (Run.ofGraph settings graph false)

/-- Step `a` still waits for one destruction; when it is noted, step `b` starts, and it has finished. -/
theorem hands_over : ∃ h, Run.Leads (Run.ofGraph settings graph false) h freed ∧
    freed.plan.status? (.step "a") = some .running ∧ freed.owed (.step "a") = 1 ∧
    (freed.startsOfStep (.collectDestroy 2)).map Prod.snd = [.step "b"] ∧
    ∀ d ∈ freed.destroys, d.owner = some (.step "a") →
      Run.Over (h ++ [(freed, .collectDestroy 2)]) d := by
  obtain ⟨h, hl⟩ := Run.leads_runFor none 11 (Run.ofGraph settings graph false)
  have hb : Graph.build definitions registry = .ok graph := rfl
  have hall := Graph.handover_of_build hb plainNames settings false hl
  have hstep : ∃ r', freed.step (.collectDestroy 2) = some r' :=
    Option.isSome_iff_exists.1 (by decide +kernel)
  have hstarts : (freed.startsOfStep (.collectDestroy 2)).map Prod.snd = [.step "b"] := by
    decide +kernel
  have hpred : ∀ x ∈ freed.startsOfStep (.collectDestroy 2),
      (x.1.plan.node? x.2).any (fun n => NodeId.step "a" ∈ n.predecessors) = true := by
    decide +kernel
  refine ⟨h, hl, by decide +kernel, by decide +kernel, hstarts, fun d hd ho => ?_⟩
  obtain ⟨r', he⟩ := hstep
  obtain ⟨⟨q, id⟩, hx, -⟩ : ∃ x ∈ freed.startsOfStep (.collectDestroy 2), x.2 = .step "b" :=
    List.mem_map.1 (hstarts ▸ List.mem_singleton_self _)
  obtain ⟨n, hn, hover⟩ := hall.starting he hx
  have ha : NodeId.step "a" ∈ n.predecessors := by
    have hany := hpred _ hx
    rw [hn] at hany
    simpa using hany
  exact hover _ ha _ (List.mem_append_right _ List.mem_cons_self) d hd ho

end Relay

end Workplan
