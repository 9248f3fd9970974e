import Mathlib.Algebra.GroupWithZero.Nat
import Workplan.Proofs.Run.ResourceLifecycle

/-! Termination: how much can happen to a run. Apart from cancellations and the passing of time, every event
brings a task or a destruction nearer to its end. There are as many of these as nodes that are started and
destroy handlers that are called, and a run that has not ended can always go on. -/
namespace Workplan
set_option autoImplicit false

/-- True of the events that bring a task or a destruction nearer to its end. -/
def Event.isProgress : Event → Bool
  | .requestStop => false
  | .observeStop => false
  | .advance _ => false
  | _ => true

/-- The number of events that a task needs to end and to be noted. -/
def TaskPhase.remaining : TaskPhase → Nat
  | .queued _ _ => 3
  | .waiting _ _ => 2
  | .finished _ _ => 1

/-- The number of events that a destruction needs to end and to be noted, once its handler has been
called. -/
def DestroyPhase.remaining : DestroyPhase → Nat
  | .queued _ => 0
  | .waiting _ _ => 2
  | .finished _ _ => 1

/-- The number of events that the work in flight needs. -/
def Run.remaining (r : Run) : Nat :=
  (r.tasks.map fun t => t.phase.remaining).sum + (r.destroys.map fun d => d.phase.remaining).sum

/-- The number of events that the work of a stage needs. A node that is being started will have a task. -/
def Stage.remaining (s : Stage) : Nat :=
  s.run.remaining + match s.active with
    | some (_, none) => 3
    | _ => 0

namespace Run
variable {r r' : Run} {e : Event}

theorem remaining_congr (ht : r'.tasks = r.tasks) (hd : r'.destroys = r.destroys) :
    r'.remaining = r.remaining := by
  rw [remaining, remaining, ht, hd]

/-! ## Moves -/

theorem remaining_spawnDestroys (owner : Option NodeId) (r : Run) (l : List Released) :
    (spawnDestroys owner r l).1.remaining = r.remaining := by
  obtain ⟨ds, es, h⟩ := exists_spawns owner r l
  have hzero : (ds.map fun d => d.phase.remaining).sum = 0 := by
    have hmap : ds.map (fun d => d.phase.remaining) = ds.map fun _ => 0 :=
      List.map_congr_left fun d hd => by
        obtain ⟨x, -, k, -, he⟩ := h.isDestroy d hd
        rw [he]
        rfl
    rw [hmap, List.map_const', List.sum_replicate_nat, Nat.mul_zero]
  rw [h.eq, remaining, remaining, List.map_append, List.sum_append, hzero, Nat.add_zero]

theorem remaining_release (r : Run) (id : NodeId) : (r.release id).1.remaining = r.remaining :=
  remaining_spawnDestroys (some id) { r with slots := (r.slots.release id).2 } (r.slots.release id).1

theorem remaining_conclude (r : Run) (id : NodeId) (output : Option Value) :
    (r.conclude id output).remaining = r.remaining := by
  rw [conclude_eq]
  exact remaining_release r id

theorem remaining_credit (r : Run) (owner : NodeId) : (r.credit owner).remaining = r.remaining := by
  rw [credit_eq]
  rfl

theorem remaining_dropTask (hn : r.Numbered) {t : Task} (ht : t ∈ r.tasks) :
    r.remaining = (r.dropTask t.number).remaining + t.phase.remaining := by
  obtain ⟨l₁, l₂, hsplit, -, hfilter⟩ := Numbering.exists_split hn.tasks ht
  have hdrop : (r.dropTask t.number).tasks = l₁ ++ l₂ := hfilter
  rw [remaining, remaining, hdrop, hsplit]
  simp only [List.map_append, List.map_cons, List.sum_append, List.sum_cons]
  change _ + (List.map _ r.destroys).sum = _ + (List.map _ r.destroys).sum + _
  omega

theorem remaining_dropDestroy (hn : r.Numbered) {d : DestroyTask} (hd : d ∈ r.destroys) :
    r.remaining = (r.dropDestroy d.number).remaining + d.phase.remaining := by
  obtain ⟨l₁, l₂, hsplit, -, hfilter⟩ := Numbering.exists_split hn.destroys hd
  have hdrop : (r.dropDestroy d.number).destroys = l₁ ++ l₂ := hfilter
  rw [remaining, remaining, hdrop, hsplit]
  simp only [List.map_append, List.map_cons, List.sum_append, List.sum_cons]
  change (List.map _ r.tasks).sum + _ = (List.map _ r.tasks).sum + _ + _
  omega

end Run

theorem Moves.remaining_le {s t : Stage} (hm : Moves s t) (hn : s.run.Numbered) :
    t.remaining ≤ s.remaining := by
  have hdrop : ∀ {r : Run} {d : DestroyTask}, r.Numbered → d ∈ r.destroys →
      (r.dropDestroy d.number).remaining ≤ r.remaining := fun hn hd => by
    rw [Run.remaining_dropDestroy hn hd]
    exact Nat.le_add_right _ _
  cases hm with
  | note r E a l id time hk => exact Nat.le_refl _
  | blemish r E e => exact Nat.le_refl _
  | collect E ht hf =>
    have h := Run.remaining_dropTask hn ht
    exact Nat.add_le_add_right (h ▸ Nat.le_add_right _ _) 0
  | @enqueue r E id t hp hlimit =>
    obtain ⟨n, scope, work, -, -, -, rfl⟩ := Run.prepare_eq_ok hp
    simp only [Stage.remaining, Run.remaining, List.map_append, List.sum_append, List.map_cons,
      List.map_nil, List.sum_cons, List.sum_nil, TaskPhase.remaining]
    omega
  | expand hE he => exact Nat.le_refl _
  | @conclude r E id w hE => exact Nat.le_of_eq (Run.remaining_conclude r id w.output?)
  | @fail r E id o e hf =>
    have h : ({ r with plan := (r.plan.markFailed id e.message).1 }.blame id e).remaining =
        r.remaining := Run.remaining_congr (Run.tasks_blame _ id e) (Run.destroys_blame _ id e)
    exact Nat.le_trans (Nat.le_of_eq h) (Nat.le_add_right _ _)
  | release r E a id l => exact Nat.add_le_add_right (Nat.le_of_eq (Run.remaining_release r id)) _
  | skipIdle r E => exact Nat.le_refl _
  | skipAll E reason ha => exact Nat.le_refl _
  | observe E ha hs => exact Nat.le_refl _
  | lose E ht hf => exact hdrop hn ht
  | discard E ht hf ho => exact hdrop hn ht
  | credit E ht hf ho => exact Nat.le_trans (Nat.le_of_eq (Run.remaining_credit _ _)) (hdrop hn ht)
  | giveUp E hd hget => exact Nat.le_refl _
  | stall E ha ht hd hr hw => exact Nat.le_refl _
  | drain E hw ht hd hp => exact Nat.le_of_eq (Run.remaining_spawnDestroys _ _ _)
  | close E hp hd => exact Nat.le_refl _

theorem Path.remaining_le {s t : Stage} {l : List (Run × NodeId)} (hp : Path s l t)
    (hn : s.run.Numbered) : t.remaining ≤ s.remaining + 3 * l.length := by
  induction hp with
  | refl => exact Nat.le_refl _
  | move hp hm ih => exact Nat.le_trans (hm.remaining_le (hp.numbered hn)) ih
  | @start t u l id hp hb ih =>
    obtain ⟨E, ha, hlimit, hr⟩ := hb
    rw [List.length_append, List.length_singleton]
    exact Nat.le_trans (Nat.add_le_add_right ih 3) (by omega)

namespace Run
variable {g : Graph} {r r' : Run} {E : Expansions} {e : Event}

/-! ## Events -/

theorem remaining_setTaskPhase (hn : r.Numbered) {t : Task} (ht : t ∈ r.tasks) (w : World)
    (slots : Slots) (phase : TaskPhase) :
    ({ r with world := w, slots := slots }.setTaskPhase t.number phase).remaining +
      t.phase.remaining = r.remaining + phase.remaining := by
  obtain ⟨l₁, l₂, hsplit, hmap, -⟩ := Numbering.exists_split hn.tasks ht
  have htasks : ({ r with world := w, slots := slots }.setTaskPhase t.number phase).tasks =
      l₁ ++ { t with phase := phase } :: l₂ := hmap fun t => { t with phase := phase }
  rw [remaining, remaining, htasks, hsplit]
  simp only [List.map_append, List.map_cons, List.sum_append, List.sum_cons]
  change _ + (List.map _ r.destroys).sum + _ = _ + (List.map _ r.destroys).sum + _
  omega

theorem remaining_setDestroyPhase (hn : r.Numbered) {d : DestroyTask} (hd : d ∈ r.destroys)
    (w : World) (phase : DestroyPhase) :
    ({ r with world := w }.setDestroyPhase d.number phase).remaining + d.phase.remaining =
      r.remaining + phase.remaining := by
  obtain ⟨l₁, l₂, hsplit, hmap, -⟩ := Numbering.exists_split hn.destroys hd
  have hdestroys : ({ r with world := w }.setDestroyPhase d.number phase).destroys =
      l₁ ++ { d with phase := phase } :: l₂ := hmap fun d => { d with phase := phase }
  rw [remaining, remaining, hdestroys, hsplit]
  simp only [List.map_append, List.map_cons, List.sum_append, List.sum_cons]
  change (List.map _ r.tasks).sum + _ + _ = (List.map _ r.tasks).sum + _ + _
  omega

theorem TaskMoves.remaining_lt {t : Task} {phase : TaskPhase} {w : World} {slots : Slots}
    (h : TaskMoves r t e phase w slots) : phase.remaining < t.phase.remaining := by
  have hcall : ∀ {α : Type} {pending : (World → Answer α × World) → PendingAct}
      {reaction : Reaction α}, (r.phaseAfterCall w pending reaction).remaining < 3 := by
    intro α pending reaction
    rcases phaseAfterCall_cases r w pending reaction with ⟨m, he⟩ | he | ⟨wake, act, he⟩
    · rw [he]
      exact Nat.lt_of_sub_eq_succ rfl
    · rw [he]
      exact Nat.lt_of_sub_eq_succ rfl
    · rw [he]
      exact Nat.lt_of_sub_eq_succ rfl
  cases h with
  | callStep hq hi hc => rw [hq]; exact hcall
  | callCreate hq hi hn hc => rw [hq]; exact hcall
  | refuseStep hq => rw [hq]; exact Nat.lt_of_sub_eq_succ rfl
  | refuseCreate hq => rw [hq]; exact Nat.lt_of_sub_eq_succ rfl
  | reuse hq => rw [hq]; exact Nat.lt_of_sub_eq_succ rfl
  | unavailable hq => rw [hq]; exact Nat.lt_of_sub_eq_succ rfl
  | expand hq => rw [hq]; exact Nat.lt_of_sub_eq_succ rfl
  | answer hw => rw [hw]; exact Nat.lt_of_sub_eq_succ rfl
  | create hw => rw [hw]; exact Nat.lt_of_sub_eq_succ rfl
  | expire hw => rw [hw]; exact Nat.lt_of_sub_eq_succ rfl
  | stop hw => rw [hw]; exact Nat.lt_of_sub_eq_succ rfl

theorem Works.remaining_le (hw : Works r e r') (hn : r.Numbered) :
    r'.remaining + e.isProgress.toNat ≤ r.remaining + 3 * (r.destroyCall? e).toList.length := by
  cases hw with
  | @task t e phase w slots ht h =>
    have hset := remaining_setTaskPhase hn ht w slots phase
    have hlt := h.remaining_lt
    have he : e.isProgress.toNat ≤ 1 := Bool.toNat_le _
    omega
  | @callDestroy d handle reaction w hd hq hc =>
    have hset := remaining_setDestroyPhase hn hd w (destroyPhaseAfterCall w reaction)
    have hphase : (destroyPhaseAfterCall w reaction).remaining ≤ 2 := by
      cases reaction with
      | panic m => exact Nat.le_of_sub_eq_zero rfl
      | wait ms act => exact Nat.le_refl _
    have hold : d.phase.remaining = 0 := by rw [hq]; rfl
    rw [destroyCall?_of_mem hn hd hq]
    change _ + 1 ≤ _ + 3
    omega
  | @answerDestroy d wake act answer w hd hw hc =>
    have hset := remaining_setDestroyPhase hn hd w (.finished (resultOfDestroy answer) w.now)
    have hold : d.phase.remaining = 2 := by rw [hw]; rfl
    have hnew : (DestroyPhase.finished (resultOfDestroy answer) w.now).remaining = 1 := rfl
    change _ + 1 ≤ _ + 0
    omega
  | requestStop => exact Nat.le_refl _
  | advance h => exact Nat.le_refl _

theorem remaining_recordDestroy (hn : r.Numbered) (d : DestroyTask) (result : DestroyResult)
    (time : Nat) : (r.recordDestroy d result time).remaining ≤ r.remaining := by
  rcases recordDestroy_cases r d result time with ⟨-, he⟩ | ⟨es, ⟨-, he⟩ | ⟨owner, -, he⟩⟩
  · exact Nat.le_of_eq (congrArg remaining he)
  · rw [he]
    exact Nat.le_refl _
  · have hnoted : (r.markDestroyed d.resource es time).Numbered := hn.congr rfl rfl rfl
    have hcredit := remaining_credit (r.markDestroyed d.resource es time) owner
    rw [he]
    rcases destroyDone_cases (r.markDestroyed d.resource es time) owner with ⟨-, hd⟩ | hd
    · rw [hd]
      exact Nat.le_of_eq hcredit
    · rw [hd]
      exact Nat.le_trans ((path_skipIdle _ .none).remaining_le (hnoted.credit owner))
        (Nat.le_of_eq hcredit)

theorem Notes.remaining_le (hn : Notes r e r') (hr : Reached g E r) :
    r'.remaining + e.isProgress.toNat ≤ r.remaining := by
  cases hn with
  | @task t ht result time hf =>
    have hcollect : Path ⟨r, E, none, []⟩ []
        ⟨r.dropTask t.number, E, some (t.node, some result), []⟩ := .single (.collect E ht hf)
    have hcomplete : ∃ E', Path ⟨r.dropTask t.number, E, some (t.node, some result), []⟩ []
        ⟨(r.dropTask t.number).complete t.node result time, E', none, []⟩ :=
      path_complete (hr.live.task ht).2.2 time
    obtain ⟨E', hpath⟩ := hcomplete
    have hle := hpath.remaining_le (hcollect.numbered hr.numbered)
    have hdrop := remaining_dropTask hr.numbered ht
    have hone : t.phase.remaining = 1 := by rw [hf]; rfl
    simp only [Stage.remaining, List.length_nil] at hle
    change _ + 1 ≤ _
    omega
  | @destroy d hd result time hf =>
    have hle := remaining_recordDestroy (hr.numbered.dropDestroy d.number) d result time
    have hdrop := remaining_dropDestroy hr.numbered hd
    have hone : d.phase.remaining = 1 := by rw [hf]; rfl
    change _ + 1 ≤ _
    omega
  | stop hw ha hs => exact Nat.le_refl _

/-! ## Histories -/

section Histories
variable {settings : RunSettings} {stopRequested : Bool} {h : Trace}

/-- The number of events that have brought work nearer to its end. -/
def progressOf (h : Trace) : Nat := h.countP fun x => x.2.isProgress

theorem progressOf_append (h : Trace) (r : Run) (e : Event) :
    progressOf (h ++ [(r, e)]) = progressOf h + e.isProgress.toNat := by
  rw [progressOf, progressOf, List.countP_append, List.countP_singleton]
  cases e.isProgress <;> rfl

/-- There is no more to do than the nodes that have been started and the calls of destroy handlers ask
for. -/
theorem Leads.progressOf_le (hg : g.Sound) (hl : Leads (ofGraph settings g stopRequested) h r) :
    progressOf h + r.remaining ≤
      3 * ((allStarts settings g stopRequested h).length + (destroyCalls h).length) := by
  induction hl with
  | start =>
    have hle := (path_ofGraph hg settings stopRequested).1.remaining_le (numbered_new settings g _)
    have hnone : startsOf [] = [] := rfl
    rw [allStarts, hnone, List.append_nil]
    simp only [Stage.remaining] at hle
    change 0 + _ ≤ _
    have hnew : (new settings g stopRequested).remaining = 0 := rfl
    omega
  | @event h r r' e hl he ih =>
    obtain ⟨E, hr⟩ := hl.reached hg
    rw [progressOf_append, allStarts_append, destroyCalls_append, List.length_append,
      List.length_append]
    cases hnoted : e.isNoted with
    | false =>
      have hle := (works_of_step hnoted he).remaining_le hr.numbered
      rw [startsOfStep_of_not_isNoted r hnoted, List.length_nil]
      omega
    | true =>
      obtain ⟨r₁, E', hn, hpath, hrested, rfl, hstarts⟩ := hr.notes hg hnoted he
      have hle := hn.remaining_le hr
      have hresume := (hn.resume hg hr hpath hrested).1.remaining_le (hpath.numbered hr.numbered)
      simp only [Stage.remaining] at hresume
      rw [hstarts, (calls_of_isNoted hnoted).2.2, Option.toList_none, List.length_nil]
      omega

/-- The events bring in no more nodes than there are, and call no more destroy handlers than there are
resources. -/
theorem Leads.progressOf_le_of_started (hg : g.Sound) (hreg : g.Registered settings.registry)
    (hl : Leads (ofGraph settings g stopRequested) h r) {ids : List NodeId}
    (hids : ∀ id, r.plan.hasStarted id = true → id ∈ ids) :
    progressOf h ≤ 3 * (ids.length + g.nodes.keys.length) := by
  have hstarted := hl.started hg
  obtain ⟨E, -, hledger, -⟩ := hl.accounted hg hreg
  have hstarts : (allStarts settings g stopRequested h).length ≤ ids.length := by
    rw [← List.length_map Prod.snd]
    refine (hstarted.nodup.subperm fun id hid => ?_).length_le
    obtain ⟨x, hx, rfl⟩ := List.mem_map.1 hid
    exact hids _ (hstarted.started x hx)
  have hnodup : ((destroyCalls h).map Prod.fst).Nodup :=
    List.Nodup.sublist ((List.sublist_append_left _ _).map _) hledger.handed_nodup
  have hcalls : (destroyCalls h).length ≤ g.nodes.keys.length := by
    rw [← List.length_map Prod.fst, ← List.length_map NodeId.resource]
    refine ((hnodup.map fun _ _ => NodeId.resource_inj).subperm fun id hid => ?_).length_le
    obtain ⟨name, hname, rfl⟩ := List.mem_map.1 hid
    obtain ⟨x, hx, rfl⟩ := List.mem_map.1 hname
    obtain ⟨slot, hslot, -⟩ := hledger.handed.1 (List.mem_append_left _ hx)
    obtain ⟨n, arguments, hn, -⟩ := (hledger.kinds hslot).1
    exact SortedMap.mem_keys.2 ⟨n, hn⟩
  have hle := hl.progressOf_le hg
  omega

end Histories

/-! ## Going on -/

/-- A run that has not ended can go on. -/
theorem Reached.exists_progress (hr : Reached g E r) (h : r.phase ≠ .ended) :
    ∃ e r', e.isProgress = true ∧ r.step e = some r' := by
  have htask : ∀ t ∈ r.tasks, ∃ e r', e.isProgress = true ∧ r.step e = some r' := by
    intro t ht
    have hfind := task?_of_mem hr.numbered ht
    obtain ⟨number, node, deadline, phase⟩ := t
    cases phase with
    | queued scope work => exact ⟨.beginTask number, _, rfl, by rw [Run.step, hfind]⟩
    | waiting wake act => exact ⟨.finishTask number, _, rfl, by rw [Run.step, hfind]⟩
    | finished result time => exact ⟨.collectTask number, _, rfl, by rw [Run.step, hfind]⟩
  have hdestroy : ∀ d ∈ r.destroys, ∃ e r', e.isProgress = true ∧ r.step e = some r' := by
    intro d hd
    have hfind := destroy?_of_mem hr.numbered hd
    obtain ⟨number, resource, owner, inst, phase⟩ := d
    cases phase with
    | queued handle => exact ⟨.beginDestroy number, _, rfl, by rw [Run.step, hfind]⟩
    | waiting wake act => exact ⟨.finishDestroy number, _, rfl, by rw [Run.step, hfind]⟩
    | finished result time => exact ⟨.collectDestroy number, _, rfl, by rw [Run.step, hfind]⟩
  have hbusy : r.tasks ≠ [] ∨ r.destroys ≠ [] := by
    cases hp : r.phase with
    | working => exact hr.atRest.busy hp
    | tearingDown => exact .inr (hr.atRest.tearing hp)
    | ended => exact absurd hp h
  rcases hbusy with hne | hne
  · obtain ⟨t, ht⟩ := List.exists_mem_of_ne_nil _ hne
    exact htask t ht
  · obtain ⟨d, hd⟩ := List.exists_mem_of_ne_nil _ hne
    exact hdestroy d hd

end Run

end Workplan
