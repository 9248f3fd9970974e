import Workplan.Proofs.Run.Confluence
import Workplan.Proofs.Run.Recording
import Workplan.Proofs.Run.Verdict

/-! Chronicles: what the report of a run says of its nodes. The timeline tells of every node what its status
says, and of a resource that it has been destroyed at most once, after the ends of all nodes that have
been started and use it. For once an instance has been handed back, no node that uses it works or is
started any more, and that was so already when its destruction ended. -/
namespace Workplan
set_option autoImplicit false

/-- The resources whose destruction has ended, in the order in which that has been noted. -/
def Timeline.destroyedNodes (t : Timeline) : List NodeId :=
  (t.events.filter fun e => e.kind = .destroyed).map fun e => e.node

theorem append_eq_append_cons {α : Type} {l l' as bs : List α} {a : α}
    (h : l ++ l' = as ++ a :: bs) :
    (∃ cs, l = as ++ a :: cs) ∨ ∃ cs, as = l ++ cs ∧ l' = cs ++ a :: bs := by
  rcases List.append_eq_append_iff.1 h with ⟨cs, has, hl'⟩ | ⟨cs, hl, hcons⟩
  · exact .inr ⟨cs, has, hl'⟩
  · rcases List.cons_eq_append_iff.1 hcons with ⟨rfl, hl'⟩ | ⟨ds, rfl, -⟩
    · exact .inr ⟨[], by rw [hl, List.append_nil, List.append_nil], hl'⟩
    · exact .inl ⟨ds, hl⟩

/-! ## Nodes that use what has been handed back -/

section Path
variable {g : Graph} {s t : Stage} {name : String} {x : NodeId}

theorem Plan.Evolves.uses {p p' : Plan} (h : p.Evolves p') {n : Node} (hn : p.node? x = some n)
    (hu : p'.Uses x name) : p.Uses x name := by
  obtain ⟨n', hn', hname⟩ := hu
  obtain ⟨n'', hn'', hk⟩ := h.kind hn
  cases hn'.symm.trans hn''
  exact ⟨n, hn, hk ▸ hname⟩

/-- A node that has been started and uses what has been handed back was started before that. -/
theorem Path.started_before (hg : g.Sound) {l : List (Run × NodeId)} (hp : Path s l t)
    (hn : s.run.Numbered) (hl : Live g s) (hc : s.Covered) (hb : s.run.slots.IsHandedBack name)
    (hu : t.run.plan.Uses x name) (hs : t.run.plan.hasStarted x = true) :
    s.run.plan.Uses x name ∧ s.run.plan.hasStarted x = true := by
  have hknown : ∀ {u : Stage}, Live g u → u.run.plan.hasStarted x = true →
      ∃ n, u.run.plan.node? x = some n := by
    intro u hlive hst
    obtain ⟨st, hst, -⟩ := Plan.hasStarted_iff.1 hst
    exact hlive.sound.node_of_status hst
  induction hp with
  | refl => exact ⟨hu, hs⟩
  | move hp hm ih =>
    have hlive := hp.live hg hn hl
    have hst := hm.hasStarted hg hlive hs
    obtain ⟨n, hnode⟩ := hknown hlive hst
    exact ih ((hm.evolves hg hlive).uses hnode hu) hst
  | @start u v l id hp hbegin ih =>
    have hlive := hp.live hg hn hl
    have hcov := hp.covered hg hn hl hc
    cases hbegin with
    | @mk r E _ ha hlimit hr =>
      obtain ⟨hpend, n, hnode, -⟩ := Plan.isReady_iff.1 hr
      -- the node that is started now holds what it uses
      have hne : x ≠ id := by
        rintro rfl
        exact (hcov x name hu (.inl hpend)).not_isHandedBack (hp.isHandedBack hb)
      refine ih hu ?_
      have hst : (r.plan.setStatus id .running).hasStarted x = true := hs
      rwa [Plan.hasStarted, Plan.status?_setStatus, if_neg hne] at hst

end Path

namespace Run
section Works
variable {r r' : Run} {e : Event} {name : String}

theorem Works.map_destroys {α : Type} (f : DestroyTask → α)
    (hf : ∀ t phase, f { t with phase := phase } = f t) (hw : Works r e r') :
    r'.destroys.map f = r.destroys.map f := by
  cases hw with
  | callDestroy hd hq hc => exact map_setDestroyPhase f hf _ _
  | answerDestroy hd hw hc => exact map_setDestroyPhase f hf _ _
  | _ => rfl

theorem Works.isSpent (hw : Works r e r') (h : r.slots.IsSpent name) : r'.slots.IsSpent name := by
  cases hw with
  | task ht hm =>
    cases hm with
    | create hw hc => exact h.acquire _ _
    | _ => exact h
  | _ => exact h

end Works

/-! ## Chronicles -/

/-- The resources that have been destroyed or are being destroyed. -/
def gone (r : Run) : List NodeId :=
  r.timeline.destroyedNodes ++ r.destroys.map fun d => NodeId.resource d.resource

/-- What the timeline of a run says, at any time between its events. -/
structure Chronicle (r : Run) : Prop where
  told : r.Told
  nodup : r.gone.Nodup
  spent : ∀ id ∈ r.gone, ∃ name, id = NodeId.resource name ∧ r.slots.IsSpent name
  /-- What uses a resource has ended before the resource is destroyed. -/
  outlived : ∀ {es e es'}, r.timeline.events = es ++ e :: es' → e.kind = .destroyed →
    ∀ {name x}, e.node = NodeId.resource name → r.plan.Uses x name → r.plan.hasStarted x = true →
      ∃ e' ∈ es, e'.node = x ∧ e'.kind.endsWork = true

section Chronicle
variable {g : Graph} {E : Expansions} {r r' : Run} {name : String} {x : NodeId}

theorem Spends.gone_eq (h : Spends r r') : ∃ ds : List String, r'.gone = r.gone ++ ds.map NodeId.resource ∧
    ds.Nodup ∧ ∀ d ∈ ds, ¬ r.slots.IsSpent d ∧ r'.slots.IsSpent d := by
  obtain ⟨es, he, hes⟩ := h.events
  obtain ⟨ds, hd, hnd, hds⟩ := h.destroys
  refine ⟨ds.map DestroyTask.resource, ?_, hnd, fun d hm => ?_⟩
  · have hnone : (es.filter fun e => e.kind = .destroyed) = [] :=
      List.filter_eq_nil_iff.2 fun e hm => by simpa using hes e hm
    rw [gone, gone, Timeline.destroyedNodes, Timeline.destroyedNodes, he, hd, List.filter_append, hnone,
      List.append_nil, List.map_append, List.map_map, List.append_assoc]
    rfl
  · obtain ⟨u, hu, rfl⟩ := List.mem_map.1 hm
    exact hds u hu

theorem Chronicle.records (h : r.Chronicle) (hr : Records r r')
    (hbefore : ∀ {name x}, r.slots.IsSpent name → r'.plan.Uses x name →
      r'.plan.hasStarted x = true → r.plan.Uses x name ∧ r.plan.hasStarted x = true) :
    r'.Chronicle := by
  obtain ⟨ds, hgone, hnd, hds⟩ := hr.gone_eq
  constructor
  case told => exact hr.told h.told
  case nodup =>
    rw [hgone]
    refine List.nodup_append.2 ⟨h.nodup, hnd.map fun _ _ => NodeId.resource_inj, ?_⟩
    rintro a ha b hb rfl
    obtain ⟨name, rfl, hspent⟩ := h.spent a ha
    obtain ⟨d, hd, he⟩ := List.mem_map.1 hb
    exact (hds d hd).1 (NodeId.resource_inj he ▸ hspent)
  case spent =>
    intro id hid
    rw [hgone] at hid
    rcases List.mem_append.1 hid with hid | hid
    · obtain ⟨name, hname, hspent⟩ := h.spent id hid
      exact ⟨name, hname, hr.spent hspent⟩
    · obtain ⟨d, hd, rfl⟩ := List.mem_map.1 hid
      exact ⟨d, rfl, (hds d hd).2⟩
  case outlived =>
    intro es e es' hes hk name x hname hu hst
    obtain ⟨new, hnew, hnone⟩ := hr.events
    rw [hnew] at hes
    rcases append_eq_append_cons hes with ⟨cs, hold⟩ | ⟨cs, -, hl⟩
    · have hmem : e.node ∈ r.gone := by
        refine List.mem_append_left _ (List.mem_map_of_mem (List.mem_filter.2 ⟨?_, by simpa using hk⟩))
        rw [hold]
        exact List.mem_append_right _ List.mem_cons_self
      obtain ⟨name', hname', hspent⟩ := h.spent _ hmem
      obtain rfl := NodeId.resource_inj (hname.symm.trans hname')
      obtain ⟨hu', hst'⟩ := hbefore hspent hu hst
      exact h.outlived hold hk hname hu' hst'
    · exact absurd hk (hnone e (hl ▸ List.mem_append_right _ List.mem_cons_self))

/-- The end of a node that was started and uses what has been handed back has been recorded. -/
theorem Told.exists_end (h : r.Told) (hl : Live g ⟨r, E, none, []⟩)
    (hc : (Stage.mk r E none []).Covered) (hs : r.slots.IsSpent name) (hu : r.plan.Uses x name)
    (hst : r.plan.hasStarted x = true) :
    ∃ e ∈ r.timeline.events, e.node = x ∧ e.kind.endsWork = true := by
  have hfree : ¬ (Stage.mk r E none []).Holds x :=
    fun hx => (hc x name hu hx).not_isHandedBack hs.isHandedBack
  have hend : ∃ kind ∈ r.timeline.storyOf x, kind.endsWork = true := by
    obtain ⟨s, hstatus, hstarted⟩ := Plan.hasStarted_iff.1 hst
    rw [h x, storyFor, hstatus]
    cases s with
    | pending => cases hstarted
    | running =>
      rcases hl.running hstatus with ht | ⟨d, hd⟩ | ⟨o, ho⟩
      · exact absurd (.inr (.inl ht)) hfree
      · have hd' : r.deferred.get? x = some d := hd
        exact ⟨.succeeded, by simp [hd', NodeStatus.story], rfl⟩
      · cases ho
    | succeeded => exact ⟨.succeeded, by simp [NodeStatus.story], rfl⟩
    | failed m => exact ⟨.failed, by simp [NodeStatus.story], rfl⟩
    | skipped reason => cases hstarted
  obtain ⟨kind, hk, hends⟩ := hend
  obtain ⟨e, he, rfl⟩ := List.mem_map.1 hk
  obtain ⟨he, hx⟩ := List.mem_filter.1 he
  exact ⟨e, he, (of_decide_eq_true hx).1, hends⟩

theorem Chronicle.dropDestroy (h : r.Chronicle) (n : Nat) : (r.dropDestroy n).Chronicle := by
  have hsub : (r.dropDestroy n).gone.Sublist r.gone :=
    (List.Sublist.refl _).append (List.filter_sublist.map _)
  exact ⟨h.told.congr rfl rfl rfl, hsub.nodup h.nodup, fun id hid => h.spent id (hsub.subset hid),
    h.outlived⟩

theorem Chronicle.markDestroyed (h : r.Chronicle) (hl : Live g ⟨r, E, none, []⟩) (hn : r.Numbered)
    (hc : (Stage.mk r E none []).Covered) {t : DestroyTask} (ht : t ∈ r.destroys)
    (es : List DestroyError) (time : Nat) :
    ((r.dropDestroy t.number).markDestroyed t.resource es time).Chronicle := by
  have hperm : ((r.dropDestroy t.number).markDestroyed t.resource es time).gone.Perm r.gone := by
    obtain ⟨l₁, l₂, hsplit, -, hfilter⟩ := Numbering.exists_split hn.destroys ht
    have hdestroys : ((r.dropDestroy t.number).markDestroyed t.resource es time).destroys = l₁ ++ l₂ :=
      hfilter
    have hnodes : ((r.dropDestroy t.number).markDestroyed t.resource es time).timeline.destroyedNodes =
        r.timeline.destroyedNodes ++ [NodeId.resource t.resource] := by
      change ((r.timeline.events ++ [_]).filter _).map _ = _
      rw [List.filter_append, List.map_append]
      rfl
    rw [gone, hdestroys, hnodes, gone, hsplit, List.map_append, List.map_append, List.map_cons,
      List.append_assoc, List.singleton_append]
    exact List.perm_middle.symm.append_left _
  constructor
  case told =>
    intro x
    refine Eq.trans ?_ (h.told x)
    exact Timeline.storyOf_add_destroyed _ _ _ _
  case nodup => exact hperm.nodup_iff.2 h.nodup
  case spent => exact fun id hid => h.spent id (hperm.mem_iff.1 hid)
  case outlived =>
    intro as e bs hes hk name x hname hu hst
    rcases append_eq_append_cons hes with ⟨cs, hold⟩ | ⟨cs, has, hlast⟩
    · exact h.outlived hold hk hname hu hst
    · obtain ⟨rfl, hcons⟩ : cs = [] ∧ [_] = e :: bs := by
        rcases List.cons_eq_append_iff.1 hlast with ⟨hnil, hcons⟩ | ⟨ds, -, hnil⟩
        · exact ⟨hnil, hcons.symm⟩
        · cases ds <;> cases hnil
      obtain rfl := (List.cons.inj hcons).1
      obtain rfl := NodeId.resource_inj hname
      obtain ⟨name, he, hspent⟩ := h.spent (NodeId.resource t.resource)
        (List.mem_append_right _ (List.mem_map_of_mem ht))
      rw [NodeId.resource_inj he] at hu
      obtain ⟨e', he', hend⟩ := h.told.exists_end hl hc hspent hu hst
      exact ⟨e', has ▸ List.mem_append_left _ he', hend⟩

/-! ## Along a history -/

theorem chronicle_new (settings : RunSettings) (g : Graph) (stopRequested : Bool) :
    (new settings g stopRequested).Chronicle := by
  constructor
  case told =>
    intro x
    have hstatus : (new settings g stopRequested).plan.status? x =
        (g.nodes.get? x).map fun _ => NodeStatus.pending :=
      SortedMap.get?_mapValues _ _ _
    rw [storyFor, hstatus]
    cases g.nodes.get? x <;> rfl
  case nodup => exact List.nodup_nil
  case spent => exact fun id hid => by cases hid
  case outlived =>
    intro es e es' hes
    cases es <;> cases hes

theorem Notes.chronicle {e : Event} {r₁ : Run} {E' : Expansions} (hn : Notes r e r₁) (hg : g.Sound)
    (h : Reached g E r) (hcov : (Stage.mk r E none []).Covered)
    (hp : Path ⟨r, E, none, []⟩ [] ⟨r₁, E', none, []⟩) (hc : r.Chronicle) : r₁.Chronicle := by
  have hbefore : ∀ {name x}, r.slots.IsSpent name → r₁.plan.Uses x name →
      r₁.plan.hasStarted x = true → r.plan.Uses x name ∧ r.plan.hasStarted x = true :=
    fun hs hu hst => hp.started_before hg h.numbered h.live hcov hs.isHandedBack hu hst
  cases hn with
  | @task t ht result time hf =>
    have hcollect : Path ⟨r, E, none, []⟩ []
        ⟨r.dropTask t.number, E, some (t.node, some result), []⟩ := .single (.collect E ht hf)
    have hdrop : Records r (r.dropTask t.number) := .same rfl rfl rfl rfl rfl
    have hE : E t.node = none := (h.live.task ht).2.2
    exact hc.records (hdrop.trans (.complete hg (hcollect.live hg h.numbered h.live)
      (hcollect.numbered h.numbered) hE time)) hbefore
  | @destroy t ht result time hf =>
    rcases recordDestroy_cases (r.dropDestroy t.number) t result time with
      ⟨-, he⟩ | ⟨es, ⟨-, he⟩ | ⟨owner, -, he⟩⟩
    · rw [he]
      exact hc.dropDestroy t.number
    · rw [he]
      exact hc.markDestroyed h.live h.numbered hcov ht es time
    · have hlive : Live g ⟨(r.dropDestroy t.number).markDestroyed t.resource es time, E, none, []⟩ :=
        h.live.frame rfl rfl rfl rfl
      rw [he] at hbefore ⊢
      exact (hc.markDestroyed h.live h.numbered hcov ht es time).records
        (.destroyDone hg hlive owner) hbefore
  | stop hw ha hs => exact hc

theorem Works.chronicle {e : Event} (hw : Works r e r') (hc : r.Chronicle) : r'.Chronicle := by
  have hund := hw.undisturbed
  have hgone : r'.gone = r.gone := by
    rw [gone, gone, hund.timeline, hw.map_destroys _ fun _ _ => rfl]
  constructor
  case told => exact hc.told.congr hund.timeline hund.deferred hund.plan
  case nodup =>
    rw [hgone]
    exact hc.nodup
  case spent =>
    intro id hid
    rw [hgone] at hid
    obtain ⟨name, hname, hspent⟩ := hc.spent id hid
    exact ⟨name, hname, hw.isSpent hspent⟩
  case outlived =>
    rw [hund.timeline, hund.plan]
    exact hc.outlived

theorem Chronicle.resume {l : List (Run × NodeId)} (hc : r.Chronicle) (hg : g.Sound)
    (hl : Live g ⟨r, E, none, []⟩) (hn : r.Numbered) (hcov : (Stage.mk r E none []).Covered)
    (hr : r.Rested) (hroom : r.tasks.length ≤ r.settings.limit)
    (hp : Path ⟨r, E, none, []⟩ l ⟨r.resume, E, none, []⟩) : r.resume.Chronicle :=
  hc.records (.resume hg hl hn hr hroom) fun hs hu hst =>
    hp.started_before hg hn hl hcov hs.isHandedBack hu hst

theorem Leads.chronicle {settings : RunSettings} {stopRequested : Bool} {h : Trace} (hg : g.Sound)
    (hl : Leads (ofGraph settings g stopRequested) h r) :
    ∃ E, Reached g E r ∧ (Stage.mk r E none []).Covered ∧ r.Chronicle := by
  induction hl with
  | start =>
    obtain ⟨hp, hreach⟩ := path_ofGraph hg settings stopRequested
    have hlive := live_new hg settings stopRequested
    have hnum := numbered_new settings g stopRequested
    exact ⟨.none, hreach, hp.covered hg hnum hlive (covered_new hg),
      (chronicle_new settings g stopRequested).resume hg hlive hnum (covered_new hg)
        (fun ha => by cases ha) (Nat.zero_le _) hp⟩
  | @event h r r' e _ hs ih =>
    obtain ⟨E, hreach, hcov, hc⟩ := ih
    cases he : e.isNoted with
    | false =>
      have hw := works_of_step he hs
      exact ⟨E, hw.reached hreach, hw.covered hcov, hw.chronicle hc⟩
    | true =>
      obtain ⟨r₁, E', hn, hp, hrested, rfl, -⟩ := hreach.notes hg he hs
      obtain ⟨hresume, hrest⟩ := hn.resume hg hreach hp hrested
      have hlive := hp.live hg hreach.numbered hreach.live
      have hnum := hp.numbered hreach.numbered
      have hcov' := hp.covered hg hreach.numbered hreach.live hcov
      exact ⟨E', hreach.path hg (hp.trans hresume) hrest, hresume.covered hg hnum hlive hcov',
        (hn.chronicle hg hreach hcov hp hc).resume hg hlive hnum hcov' hrested
          (hp.room hreach.room) hresume⟩

theorem kept_stocked (hg : g.Sound) : Stage.Kept g (fun _ => True) Stage.Stocked where
  move := fun hm hn hl h => hm.stocked hg hn hl h
  start := fun hb _ hl h => hb.stocked hg hl h
  work := fun _ hw hr h => hw.stocked hg hr.numbered hr.live h

theorem Reached.succeeded_of_spent (hr : Reached g E r) (hstock : (Stage.mk r E none []).Stocked)
    (he : r.phase = .ended) (hs : r.slots.IsSpent name) :
    r.plan.hasSucceeded (NodeId.resource name) = true := by
  obtain ⟨slot, i, hslot, hcreated, -⟩ := hs
  obtain ⟨htasks, hdef, -⟩ := hr.atRest.stopped (by rw [he]; decide)
  rcases (hstock.filled hslot).1 ⟨i, hcreated⟩ with hsucc | ⟨d, hd⟩ | ⟨w, hw⟩ | ⟨t, ht, -⟩
  · exact hsucc
  · have hd' : r.deferred.get? (NodeId.resource name) = some d := hd
    rw [hdef] at hd'
    cases hd'
  · cases hw
  · have ht' : t ∈ r.tasks := ht
    rw [htasks] at ht'
    cases ht'

theorem Told.exists_status (h : r.Told) {e : TimelineEvent} (he : e ∈ r.timeline.events)
    (hk : e.kind ≠ .destroyed) : ∃ s, r.plan.status? e.node = some s := by
  have hstory : e.kind ∈ r.timeline.storyOf e.node :=
    List.mem_map_of_mem (List.mem_filter.2 ⟨he, by simpa using hk⟩)
  rw [h e.node, storyFor] at hstory
  cases hs : r.plan.status? e.node with
  | none =>
    rw [hs] at hstory
    cases hstory
  | some s => exact ⟨s, rfl⟩

theorem Told.hasStarted (h : r.Told) (hw : r.timeline.wasStarted x = true) :
    r.plan.hasStarted x = true := by
  have hne : r.timeline.eventsOf x .started ≠ [] := by
    intro hnil
    rw [Timeline.wasStarted, Timeline.firstTime?, hnil] at hw
    cases hw
  obtain ⟨e, he⟩ := List.exists_mem_of_ne_nil _ hne
  obtain ⟨he, hx⟩ := List.mem_filter.1 he
  rw [Bool.and_eq_true_iff, decide_eq_true_iff, decide_eq_true_iff] at hx
  have hstory : EventKind.started ∈ r.timeline.storyOf x :=
    List.mem_map.2 ⟨e, List.mem_filter.2 ⟨he, by simp [hx]⟩, hx.2⟩
  rw [h x, storyFor] at hstory
  cases hs : r.plan.status? x with
  | none =>
    rw [hs] at hstory
    cases hstory
  | some s =>
    rw [hs] at hstory
    refine Plan.hasStarted_iff.2 ⟨s, hs, ?_⟩
    cases s with
    | pending => cases hstory
    | skipped reason => simp [NodeStatus.story] at hstory
    | _ => rfl

end Chronicle

/-- The timeline of a report agrees with its statuses. -/
structure TimelineAgrees (r : Run) : Prop where
  story : ∀ {id s}, r.report.statuses.get? id = some s →
    (s = .succeeded ∧ r.report.timeline.storyOf id = [.started, .succeeded]) ∨
    (∃ m, s = .failed m ∧ r.report.timeline.storyOf id = [.started, .failed]) ∨
    ∃ reason, s = .skipped reason ∧ r.report.timeline.storyOf id = [.skipped]
  known : ∀ e ∈ r.report.timeline.events, ∃ s, r.report.statuses.get? e.node = some s
  destroyed_once : r.report.timeline.destroyedNodes.Nodup
  /-- Before a resource is destroyed, the work of all that has run with it is over. -/
  destroyed : ∀ {es e es'}, r.report.timeline.events = es ++ e :: es' → e.kind = .destroyed →
    ∃ name n kind arguments, e.node = NodeId.resource name ∧ r.plan.node? e.node = some n ∧
      n.kind = .resource name kind arguments ∧
      r.report.statuses.get? e.node = some .succeeded ∧
      ∀ x, r.plan.Uses x name → r.report.ran x = true →
        ∃ e' ∈ es, e'.node = x ∧ e'.kind.endsWork = true

end Run

/-- Timeline and statuses agree. In the report of a run that has ended, a node that has succeeded or failed
has been started once and then ended once, in the way its status says; a node that has been skipped has
only been skipped; and nothing else has been recorded but the ends of destructions. No node has been
destroyed twice, and each that has been is a resource that has succeeded and that no step has used whose
end had not been recorded before. -/
theorem Graph.chronicle_of_build {defs : Definitions} {registry : Registry} {g : Graph}
    (hb : Graph.build defs registry = .ok g) (hp : defs.PlainNames) (settings : RunSettings)
    (stopRequested : Bool) {h : Run.Trace} {r : Run}
    (hl : Run.Leads (Run.ofGraph settings g stopRequested) h r) (he : r.phase = .ended) :
    r.TimelineAgrees := by
  have hg := Graph.sound_of_build hb hp
  obtain ⟨E, hr, -, hc⟩ := hl.chronicle hg
  obtain ⟨⟨E', hr', hstock⟩, -⟩ := hl.keeps hg (Run.kept_stocked hg)
    (Run.stocked_new hg settings stopRequested) fun _ _ => trivial
  have hgone : ∀ e ∈ r.timeline.events, e.kind = .destroyed → ∃ name, e.node = NodeId.resource name ∧
      r.plan.status? e.node = some .succeeded := by
    intro e hm hk
    obtain ⟨name, hname, hspent⟩ := hc.spent e.node (List.mem_append_left _
      (List.mem_map_of_mem (List.mem_filter.2 ⟨hm, by simpa using hk⟩)))
    exact ⟨name, hname, hname ▸ Plan.hasSucceeded_iff.1 (hr'.succeeded_of_spent hstock he hspent)⟩
  constructor
  case story =>
    intro id s hs
    have hstory : r.timeline.storyOf id = s.story (r.deferred.get? id).isSome := by
      rw [hc.told id, Run.storyFor, show r.plan.status? id = some s from hs]
    have hterm := hr.isTerminal he hs
    cases s with
    | pending => cases hterm
    | running => cases hterm
    | succeeded => exact .inl ⟨rfl, hstory⟩
    | failed m => exact .inr (.inl ⟨m, rfl, hstory⟩)
    | skipped reason => exact .inr (.inr ⟨reason, rfl, hstory⟩)
  case known =>
    intro e hm
    by_cases hk : e.kind = .destroyed
    · obtain ⟨name, -, hs⟩ := hgone e hm hk
      exact ⟨_, hs⟩
    · exact hc.told.exists_status hm hk
  case destroyed_once => exact (List.nodup_append.1 hc.nodup).1
  case destroyed =>
    intro es e es' hes hk
    have hm : e ∈ r.timeline.events := by
      rw [show r.timeline.events = es ++ e :: es' from hes]
      exact List.mem_append_right _ List.mem_cons_self
    obtain ⟨name, hname, hs⟩ := hgone e hm hk
    obtain ⟨n, hn⟩ := hr.live.sound.node_of_status hs
    have hn' : r.plan.node? (NodeId.resource name) = some n := hname ▸ hn
    have hres := hr.live.isResource_of_id hg hn'
    obtain ⟨name', kind, arguments, hkind⟩ := NodeKind.exists_of_isResource hres
    obtain rfl := NodeId.resource_inj (hr.live.sound.unfolds.eq_resource hn' hg hkind)
    exact ⟨_, n, kind, arguments, hname, hn, hkind, hs, fun x hu hx =>
      hc.outlived hes hk hname hu (hc.told.hasStarted hx)⟩

namespace Relay

/-- Step `a` fails, step `b` is skipped behind it, and the resource that step `a` uses is destroyed after
the failure. -/
theorem chronicles : failed.report.timeline.storyOf (.step "a") = [.started, .failed] ∧
    failed.report.timeline.storyOf (.step "b") = [.skipped] ∧
    ∃ es e es', failed.report.timeline.events = es ++ e :: es' ∧ e.node = .resource "db" ∧
      e.kind = .destroyed ∧ ∃ e' ∈ es, e'.node = .step "a" ∧ e'.kind.endsWork = true := by
  have hb : Graph.build definitions registry = .ok graph := rfl
  obtain ⟨h, hl⟩ := Run.leads_runFor none 60 (Run.ofGraph faulty graph false)
  have hagrees := Graph.chronicle_of_build hb plainNames faulty false hl (by decide +kernel)
  have ha : failed.report.statuses.get? (.step "a") = some (.failed "step failed: down") := by
    decide +kernel
  have hs : failed.report.statuses.get? (.step "b") = some (.skipped "dependency step.a failed") := by
    decide +kernel
  have hdb : NodeId.resource "db" ∈ failed.timeline.destroyedNodes := by decide +kernel
  have huses : failed.plan.Uses (.step "a") "db" := by
    have hany : (failed.plan.node? (.step "a")).any (fun n => n.kind.uses.contains "db") = true := by
      decide +kernel
    obtain ⟨n, hn, hu⟩ := (Option.any_eq_true _ _).1 hany
    exact ⟨n, hn, List.contains_iff_mem.1 hu⟩
  refine ⟨?_, ?_, ?_⟩
  · rcases hagrees.story ha with ⟨hc, -⟩ | ⟨m, -, h⟩ | ⟨reason, hc, -⟩
    · cases hc
    · exact h
    · cases hc
  · rcases hagrees.story hs with ⟨hc, -⟩ | ⟨m, hc, -⟩ | ⟨reason, -, h⟩
    · cases hc
    · cases hc
    · exact h
  · obtain ⟨e, he, hnode⟩ := List.mem_map.1 hdb
    obtain ⟨he, hk⟩ := List.mem_filter.1 he
    obtain ⟨es, es', hsplit⟩ := List.append_of_mem he
    have hk' : e.kind = .destroyed := of_decide_eq_true hk
    obtain ⟨name, -, -, -, hname, -, -, -, hend⟩ := hagrees.destroyed hsplit hk'
    obtain rfl := NodeId.resource_inj (hnode.symm.trans hname)
    exact ⟨es, e, es', hsplit, hnode, hk', hend (.step "a") huses (by decide +kernel)⟩

end Relay

end Workplan
