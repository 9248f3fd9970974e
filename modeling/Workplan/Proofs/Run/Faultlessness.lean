import Workplan.Proofs.Plan.Scoping
import Workplan.Proofs.Run.Failures
import Workplan.Proofs.Run.Invariance
import Workplan.Proofs.Run.Provision
import Workplan.Proofs.Run.Results
import Workplan.Proofs.Run.Verdict

/-! Faultlessness: a node can fail because of what handlers answer, of a value that does not fit, of a
deadline or of a cancellation, but never because the run itself has lost something. What a node names is
bound when it starts, what it uses is alive, its handler is there, and a placeholder is expanded while it
runs. -/
namespace Workplan
open Outcome
set_option autoImplicit false

/-- Failures that show that the run has gone wrong, and not the work of a node. -/
inductive RunError.IsInternal : RunError → Prop where
  | eval (e : EvalError) : IsInternal (.eval e)
  | resourceUnavailable (name : String) : IsInternal (.resourceUnavailable name)
  | missingHandler (description : String) : IsInternal (.missingHandler description)
  | notExpandable (id : NodeId) : IsInternal (.expansion (.notExpandable id))

/-! ## Expansions -/

theorem resolveProducers_ne_notExpandable {id x : NodeId} {r : Reference} {role : BindingRole}
    {instances : List NodeId} : resolveProducers id r role instances ≠ .error (.notExpandable x) := by
  intro h
  rcases Building.resolveProducers_eq_error h with ⟨i, -, -, he⟩ | ⟨-, ⟨-, he⟩ | ⟨-, he⟩⟩
  · cases he
  · cases he
  · split at he
    next => cases he
    next => cases he

namespace Plan

theorem rewire_ne_notExpandable {nodes : NodeMap} {p x : NodeId} {instances ids : List NodeId} :
    rewire nodes p instances ids ≠ .error (.notExpandable x) := by
  induction ids with
  | nil => intro h; cases h
  | cons id ids ih =>
    intro h
    rw [rewire] at h
    split at h
    next => exact ih h
    next node _ =>
      rcases bind_eq_error.1 h with h | ⟨bs, -, h⟩
      · obtain ⟨b, -, h⟩ := exists_of_mapM_eq_error h
        rw [resolveBinding] at h
        split at h
        next =>
          rcases bind_eq_error.1 h with h | ⟨ids, -, h⟩
          · exact resolveProducers_ne_notExpandable h
          · cases h
        next => cases h
      · rcases bind_eq_error.1 h with h | ⟨others, -, h⟩
        · exact ih h
        · cases h

/-- A running placeholder can only fail to be expanded because a reference does not fit its instances. -/
theorem expand_ne_notExpandable {p : Plan} {id x : NodeId} {n : Node} {vars : List LoopVars}
    (hs : p.status? id = some .running) (hn : p.node? id = some n) (hk : n.kind.isExpansion = true) :
    p.expand id vars ≠ .error (.notExpandable x) := by
  intro h
  rw [expand, hn] at h
  dsimp only at h
  split at h
  next =>
    rcases bind_eq_error.1 h with h | ⟨changes, -, h⟩
    · exact rewire_ne_notExpandable h
    · cases h
  next hno =>
    obtain ⟨r, t, hkind⟩ := NodeKind.exists_of_isExpansion hk
    exact hno r t hkind hs

end Plan

/-! ## Proper tasks -/

/-- What the work of a kind of node comes to is its own doing. -/
def WorkOutcome.Proper (kind : NodeKind) : WorkOutcome → Prop
  | .error e => ¬ e.IsInternal
  | .ok (.expanded vars) => ∀ replication template, kind = .expansion replication template →
      ∀ v ∈ vars, replication.scope.Bound v
  | .ok _ => True

/-- A task that waits to begin finds what it names. -/
def TaskPhase.Proper (kind : NodeKind) : TaskPhase → Prop
  | .queued scope _ => ∀ e ∈ kind.expressions, scope.Binds e
  | .waiting _ _ => True
  | .finished result _ => WorkOutcome.Proper kind result

/-- Nothing in a stage has gone wrong by the run's own doing. -/
structure Stage.Proper (g : Graph) (s : Stage) : Prop where
  furnish : s.expansions.Furnish g
  task : ∀ {t n}, t ∈ s.run.tasks → s.run.plan.node? t.node = some n → t.phase.Proper n.kind
  active : ∀ {id o n}, s.active = some (id, some o) → s.run.plan.node? id = some n →
    WorkOutcome.Proper n.kind o

namespace Run
section Works
variable {g : Graph} {r r' : Run} {e : Event} {E : Expansions} {t : Task} {phase : TaskPhase}
variable {w : World} {slots : Slots} {kind : NodeKind}

theorem proper_resultOfStep (kind : NodeKind) (answer : Answer Value) :
    WorkOutcome.Proper kind (resultOfStep answer) := by
  cases answer with
  | value v => trivial
  | error m =>
    intro h
    cases h
  | panic m =>
    intro h
    cases h

theorem proper_phaseAfterCall {α : Type} (r : Run) (w : World)
    (pending : (World → Answer α × World) → PendingAct) (reaction : Reaction α) (kind : NodeKind) :
    (r.phaseAfterCall w pending reaction).Proper kind := by
  rcases phaseAfterCall_cases r w pending reaction with ⟨m, he⟩ | he | ⟨wake, act, he⟩
  · rw [he]
    exact fun h => nomatch h
  · rw [he]
    exact fun h => nomatch h
  · rw [he]
    trivial

theorem proper_acquire {s : Slots} {name : String} (hs : ∃ slot, s.get? name = some slot)
    (answer : Answer ResourceInstance) (kind : NodeKind) : WorkOutcome.Proper kind
      ((s.acquire name (resultOfCreation answer)).1.map fun _ => WorkResult.created) := by
  obtain ⟨slot, hslot⟩ := hs
  rw [Slots.acquire, hslot]
  cases hc : slot.created with
  | some i => simp [hc, Except.map, WorkOutcome.Proper]
  | none =>
    cases answer with
    | value i => simp [hc, resultOfCreation, Except.map, WorkOutcome.Proper]
    | error m =>
      simp only [hc, resultOfCreation]
      intro h
      cases h
    | panic m =>
      simp only [hc, resultOfCreation]
      intro h
      cases h

theorem proper_instances {replication : Replication} {template : StepInstance} {scope : Scope}
    (step : String)
    (h : ∀ e ∈ (NodeKind.expansion replication template).expressions, scope.Binds e) :
    WorkOutcome.Proper (.expansion replication template)
      ((Work.instances replication step scope).map .expanded) := by
  rcases Work.instances_cases step fun e he => h e (Option.mem_toList.2 he) with ⟨v, hv⟩ | hnil
  · rw [hv]
    cases hx : replication.expand step v with
    | error e =>
      intro h
      cases h
    | ok vars =>
      intro replication' template' hk
      cases hk
      exact Replication.bound_of_expand hx
  · rw [hnil]
    intro replication' template' hk v hv
    cases hv

theorem TaskMoves.proper (h : TaskMoves r t e phase w slots)
    (hfits : t.phase.Fits r.settings.registry kind) (hp : t.phase.Proper kind)
    (hslot : ∀ name kindName arguments, kind = .resource name kindName arguments →
      ∃ slot, r.slots.get? name = some slot) : phase.Proper kind := by
  cases h with
  | @refuseStep scope runner arguments resources e hq hi =>
    rw [hq] at hfits hp
    obtain ⟨inst, rfl, -, rfl⟩ := hfits.of_step
    obtain ⟨m, rfl⟩ := Work.exists_mismatch hp hi
    exact fun h => nomatch h
  | callStep hq hi hc => exact proper_phaseAfterCall r w _ _ kind
  | @refuseCreate scope name k arguments e hq hi =>
    rw [hq] at hfits hp
    obtain ⟨kindName, rfl, -⟩ := hfits.of_create
    obtain ⟨m, rfl⟩ := Work.exists_mismatch hp hi
    exact fun h => nomatch h
  | callCreate hq hi hn hc => exact proper_phaseAfterCall r w _ _ kind
  | reuse hq hi hn hs => trivial
  | @unavailable scope name k arguments input hq hi hs =>
    rw [hq] at hfits
    obtain ⟨kindName, rfl, -⟩ := hfits.of_create
    obtain ⟨slot, hslot⟩ := hslot _ _ _ rfl
    rw [SortedMap.contains, hslot] at hs
    cases hs
  | @expand scope replication hq =>
    rw [hq] at hfits hp
    obtain ⟨template, rfl⟩ := hfits.of_expand
    exact proper_instances _ hp
  | answer hw hc => exact proper_resultOfStep kind _
  | @create wake name act answer w hw hc =>
    rw [hw] at hfits
    obtain ⟨kindName, arguments, rfl⟩ := hfits.of_creating
    exact proper_acquire (hslot _ _ _ rfl) answer _
  | expire hw hd => exact fun h => nomatch h
  | stop hw hs => exact fun h => nomatch h

theorem Works.proper (hg : g.Sound) (hw : Works r e r') (hn : r.Numbered) (hl : Live g ⟨r, E, none, []⟩)
    (hs : (Stage.mk r E none []).Stocked) (h : (Stage.mk r E none []).Proper g) :
    (Stage.mk r' E none []).Proper g := by
  have hplan := hw.undisturbed.plan
  refine ⟨h.furnish, fun {u n} hu hnode => ?_, fun ha => (by cases ha)⟩
  have hn' : r.plan.node? u.node = some n := hplan ▸ hnode
  cases hw with
  | @task t e phase w slots ht htm =>
    obtain ⟨u', hu', rfl⟩ := List.mem_map.1 hu
    split
    next heq =>
      rw [if_pos heq] at hn'
      obtain rfl := Numbering.eq_of_number hn.tasks hu' ht heq
      obtain ⟨m, hm, hfits⟩ := hl.fits ht
      cases (show r.plan.node? u'.node = some m from hm).symm.trans hn'
      refine htm.proper hfits (h.task ht hm) fun name kindName arguments hk => hs.slot (n := n) ?_
      rw [← hl.sound.unfolds.eq_resource hm hg hk]
      exact hm
    next hne =>
      rw [if_neg hne] at hn'
      exact h.task hu' hn'
  | callDestroy ht hq hc => exact h.task hu hn'
  | answerDestroy ht hw hc => exact h.task hu hn'
  | requestStop => exact h.task hu hn'
  | advance ht => exact h.task hu hn'

end Works
end Run

/-! ## Moves -/

section Moves
variable {g : Graph} {s t : Stage}

theorem Stage.Proper.frame (h : s.Proper g) (hl : Live g s) (hev : s.run.plan.Evolves t.run.plan)
    (hE : t.expansions = s.expansions) (htask : ∀ u ∈ t.run.tasks, u ∈ s.run.tasks)
    (hactive : ∀ {id o}, t.active = some (id, some o) → s.active = some (id, some o)) :
    t.Proper g where
  furnish := by
    intro p vars n replication template hp
    rw [hE] at hp
    exact h.furnish hp
  task := by
    intro u n hu hn
    obtain ⟨m, hm, -⟩ := hl.fits (htask u hu)
    obtain ⟨n', hn', hk⟩ := hev.kind hm
    cases hn.symm.trans hn'
    rw [hk]
    exact h.task (htask u hu) hm
  active := by
    intro id o n ha hn
    have ha' := hactive ha
    obtain ⟨m, hm⟩ := hl.node_of_running (hl.active ha').1
    obtain ⟨n', hn', hk⟩ := hev.kind hm
    cases hn.symm.trans hn'
    rw [hk]
    exact h.active ha' hm

theorem Moves.proper (hg : g.Sound) (hs : g.Scoped) (hm : Moves s t) (hl : Live g s)
    (h : s.Proper g) : t.Proper g := by
  have hev := hm.evolves hg hl
  cases hm with
  | @collect r E t ht result time hf =>
    refine ⟨h.furnish, fun hu hn => h.task (List.mem_filter.1 hu).1 hn, fun ha hn => ?_⟩
    cases ha
    have hp := h.task ht hn
    rw [hf] at hp
    exact hp
  | @enqueue r E id t hp hlimit =>
    refine ⟨h.furnish, fun {u n} hu hn => ?_, fun ha => (by cases ha)⟩
    rcases List.mem_append.1 hu with hu | hu
    · exact h.task hu hn
    · cases List.mem_singleton.1 hu
      obtain ⟨m, scope, work, hm, hscope, -, rfl⟩ := Run.prepare_eq_ok hp
      cases hm.symm.trans hn
      exact Plan.binds_of_scopeFor (hl.sound.unfolds.scoped hs h.furnish hm) hscope
  | @expand r E id vars p children hE he =>
    obtain ⟨n, hn⟩ := hl.node_of_running (hl.active rfl).1
    obtain ⟨n', hn', hk'⟩ := hev.kind hn
    refine ⟨?_, fun {u m} hu hm => ?_, fun {x o m} ha hm => ?_⟩
    · -- the instances of the placeholder are those that it has been evaluated to
      intro q vars' m replication template hq hmq hk
      change (E.set id vars) q = some vars' at hq
      by_cases hqid : q = id
      · subst hqid
        rw [Expansions.set_self] at hq
        cases hq
        exact h.active rfl hn replication template
          ((hl.sound.unfolds.kind_eq hn hg hmq).trans hk)
      · rw [Expansions.set_of_ne hqid] at hq
        exact h.furnish hq hmq hk
    · obtain ⟨m₀, hm₀, -⟩ := hl.fits hu
      obtain ⟨m', hm', hk⟩ := hev.kind hm₀
      cases hm.symm.trans hm'
      rw [hk]
      exact h.task hu hm₀
    · cases ha
      cases hm.symm.trans hn'
      rw [hk']
      exact h.active rfl hn
  | conclude r hE =>
    refine h.frame hl hev rfl (fun u hu => ?_) fun ha => (by cases ha)
    rwa [Run.tasks_conclude] at hu
  | fail hf =>
    refine h.frame hl hev rfl (fun u hu => ?_) fun ha => (by cases ha)
    rwa [Run.tasks_blame] at hu
  | release r E a id l =>
    refine h.frame hl hev rfl (fun u hu => ?_) fun ha => ha
    rwa [(Run.agree_release r id).tasks] at hu
  | @credit r E t ht result time hf owner ho =>
    refine h.frame hl hev rfl (fun u hu => ?_) fun ha => (by cases ha)
    rwa [Run.tasks_credit] at hu
  | drain E hw ht hd hp =>
    refine h.frame hl hev rfl (fun u hu => ?_) fun ha => (by cases ha)
    rwa [(Run.agree_spawnDestroys none _ _).tasks] at hu
  | _ => exact h.frame hl hev rfl (fun u hu => hu) fun ha => ha

theorem Begins.proper {id : NodeId} (hb : Begins s id t) (hl : Live g s) (h : s.Proper g) :
    t.Proper g := by
  have hev := hb.evolves
  cases hb
  exact h.frame hl hev rfl (fun u hu => hu) fun ha => (by cases ha)

end Moves

/-! ## What a node finds -/

/-- What the stages of a run provide: what nodes use is alive, what they name is bound, and every output
that they read is there. -/
structure Stage.Provides (g : Graph) (registry : Registry) (s : Stage) : Prop where
  settings : s.run.settings.registry = registry
  covered : s.Covered
  stocked : s.Stocked
  yielded : s.Yielded
  proper : s.Proper g

namespace Run
section Provision
variable {g : Graph} {registry : Registry} {settings : RunSettings} {stopRequested : Bool}
variable {h : Trace} {r : Run} {id : NodeId} {E : Expansions}

theorem kept_provides (hg : g.Sound) (hs : g.Scoped) :
    Stage.Kept g (fun _ => True) (Stage.Provides g registry) where
  move := fun hm hn hl h => ⟨by rw [hm.settings]; exact h.settings, hm.covered hg hl h.covered,
    hm.stocked hg hn hl h.stocked, hm.yielded hg hn hl h.yielded, hm.proper hg hs hl h.proper⟩
  start := fun {s id t} hb _ hl h => by
    refine ⟨?_, hb.covered h.covered, hb.stocked hg hl h.stocked, hb.yielded hl h.yielded,
      hb.proper hl h.proper⟩
    cases hb
    exact h.settings
  work := fun _ hw hr h => ⟨(congrArg RunSettings.registry hw.undisturbed.settings).trans h.settings,
    hw.covered h.covered, hw.stocked hg hr.numbered hr.live h.stocked, hw.yielded h.yielded,
    hw.proper hg hr.numbered hr.live h.stocked h.proper⟩

theorem provides_new (hg : g.Sound) :
    (Stage.mk (new settings g stopRequested) .none none []).Provides g settings.registry where
  settings := rfl
  covered := covered_new hg
  stocked := stocked_new hg settings stopRequested
  yielded := yielded_new settings g stopRequested
  proper := ⟨fun hp => (by cases hp), fun ht => (by cases ht), fun ha => (by cases ha)⟩

/-- What a node finds when it is started: every value that it reads is the output of a step instance that
has succeeded, its expressions are bound, and the resources of a step instance are alive. -/
structure Finds (q : Run) (n : Node) : Prop where
  bound : ∀ scope, q.plan.scopeFor n = .ok scope → ∀ e ∈ n.kind.expressions, scope.Binds e
  missing : ∀ e, q.plan.scopeFor n = .error e → ∃ p attr, e = .missingOutput p attr
  read : ∀ b ∈ n.bindings, b.role.readsValue = true → ∀ p ∈ b.producers,
    q.plan.hasSucceeded p = true ∧ q.plan.IsStep p ∧ (q.plan.result? p).isSome = true
  single : ∀ b ∈ n.bindings, b.role.readsValue = true → b.reference.index ≠ .splat →
    ∃ p, b.producers = [p]
  alive : ∀ inst, n.kind = .step inst → ∀ name ∈ inst.uses, ∃ i, q.slots.instance? name = some i

theorem StartsAt.finds (hg : g.Sound) (hs : g.Scoped) {x : Run × NodeId}
    (h : StartsAt g (Stage.Provides g registry) x) :
    ∃ n, (x.1.begun x.2).plan.node? x.2 = some n ∧ (x.1.begun x.2).Finds n := by
  obtain ⟨E, u, hp, hl, hn, hb⟩ := h
  have hcov := hb.covered hp.covered
  have hstock := hb.stocked hg hl hp.stocked
  have hyield := hb.yielded hl hp.yielded
  have hlive := hb.live hl
  obtain ⟨q, id⟩ := x
  cases hb with
  | mk E ha hlimit hr =>
    obtain ⟨hpend, n, hnode, hpred, -⟩ := Plan.isReady_iff.1 hr
    have hscoped := hl.sound.unfolds.scoped hs hp.proper.furnish hnode
    refine ⟨n, hnode, fun scope hsc => Plan.binds_of_scopeFor hscoped hsc,
      fun e he => Plan.missingOutput_of_scopeFor he, fun b hb' hrole p hp' => ?_,
      fun b hb' _ hidx => hscoped.single b hb' hidx, fun inst hk name hu => ?_⟩
    · have huses : b.role ≠ .uses := fun hc => by rw [hc] at hrole; cases hrole
      have hsucc : (q.begun id).plan.hasSucceeded p = true := by
        rw [plan_begun, Plan.hasSucceeded_markRunning hpend]
        exact hpred p
          ((hl.sound.unfolds.mem_predecessors hnode).2 ⟨b, hb', by simp [Node.gates, huses], hp'⟩)
      have hstep : (q.begun id).plan.IsStep p := hl.sound.unfolds.isStep hg hnode hb' huses hp'
        fun m hm hk => hlive.expanded hm hk (.inl hsucc)
      exact ⟨hsucc, hstep, hyield.result.2 ⟨hsucc, hstep⟩⟩
    · have hrun : (q.begun id).plan.hasStarted id = true :=
        Plan.hasStarted_iff.2 ⟨_, (hlive.active rfl).1, rfl⟩
      exact exists_instance_of_uses hg hlive hcov hstock hnode (by rw [hk]; rfl) hrun
        (.inr (.inr (.inl ⟨none, rfl⟩))) (show name ∈ n.kind.uses by rw [hk]; exact hu)

/-! ## The failures of a run -/

theorem StartsAt.exists_task (hg : g.Sound) (hr : g.Registered registry) {x : Run × NodeId}
    (h : StartsAt g (Stage.Provides g registry) x) :
    ∃ n, (x.1.begun x.2).plan.node? x.2 = some n ∧ ((∃ t, (x.1.begun x.2).prepare x.2 = .ok t) ∨
      ∃ e, (x.1.begun x.2).plan.scopeFor n = .error e ∧
        (x.1.begun x.2).prepare x.2 = .error e) := by
  obtain ⟨E, u, hp, hl, hn, hb⟩ := h
  have hcov := hb.covered hp.covered
  have hstock := hb.stocked hg hl hp.stocked
  have hlive := hb.live hl
  obtain ⟨q, id⟩ := x
  cases hb with
  | mk E ha hlimit hready =>
    have hset : (q.begun id).settings.registry = registry := hp.settings
    exact prepare_cases hg (r := q.begun id) (hset ▸ hr) hlive hcov hstock

theorem StartsAt.not_isInternal (hg : g.Sound) (hr : g.Registered registry) {x : Run × NodeId}
    (h : StartsAt g (Stage.Provides g registry) x) {f : Failure} (hf : failureOfStart? x = some f) :
    ¬ f.2.IsInternal := by
  obtain ⟨n, -, hcase⟩ := h.exists_task hg hr
  rw [failureOfStart?] at hf
  rcases hcase with ⟨t, ht⟩ | ⟨e, he, hprep⟩
  · rw [ht] at hf
    cases hf
  · rw [hprep] at hf
    cases hf
    obtain ⟨p, a, rfl⟩ := Plan.missingOutput_of_scopeFor he
    intro h
    cases h

theorem not_isInternal_of_end (hl : Live g ⟨r, E, none, []⟩)
    (hp : (Stage.mk r E none []).Proper g) {e : Event} {f : Failure}
    (hf : r.failureOfEnd? e = some f) : ¬ f.2.IsInternal := by
  cases e with
  | collectTask n =>
    rw [failureOfEnd?] at hf
    split at hf
    next number node deadline result time ht =>
      obtain ⟨hmem, -⟩ := mem_of_task? ht
      obtain ⟨m, hm, hfits⟩ := hl.fits hmem
      have hproper := hp.task hmem hm
      have hrun := (hl.task hmem).1
      cases result with
      | error e =>
        cases hf
        exact hproper
      | ok work =>
        cases work with
        | output v => cases hf
        | created => cases hf
        | expanded vars =>
          have hk : m.kind.isExpansion = true := by
            cases hkind : m.kind with
            | expansion r t => rfl
            | step inst => rw [hkind] at hfits; cases hfits
            | resource name kind arguments => rw [hkind] at hfits; cases hfits
          rw [failureOfResult?] at hf
          split at hf
          next => cases hf
          next e he =>
            cases hf
            intro hint
            cases hint with
            | notExpandable x => exact Plan.expand_ne_notExpandable hrun hm hk he
    next => cases hf
  | _ => cases hf

theorem Leads.not_isInternal (hg : g.Sound) (hs : g.Scoped) (hr : g.Registered settings.registry)
    (hl : Leads (ofGraph settings g stopRequested) h r) :
    ∀ f ∈ allFailures settings g stopRequested h, ¬ f.2.IsInternal := by
  have hkeeps : ∀ {h r}, Leads (ofGraph settings g stopRequested) h r →
      (∃ E, Reached g E r ∧ (Stage.mk r E none []).Provides g settings.registry) ∧
        ∀ x ∈ allStarts settings g stopRequested h,
          StartsAt g (Stage.Provides g settings.registry) x :=
    fun hl => hl.keeps hg (kept_provides hg hs) (provides_new hg) fun _ _ => trivial
  induction hl with
  | start =>
    intro f hf
    rw [allFailures, List.flatMap_nil, List.append_nil] at hf
    obtain ⟨x, hx, hf⟩ := List.mem_filterMap.1 hf
    exact StartsAt.not_isInternal hg hr ((hkeeps .start).2 x (List.mem_append_left _ hx)) hf
  | @event h r r' e hl he ih =>
    intro f hf
    rw [allFailures, List.flatMap_append, ← List.append_assoc, List.flatMap_singleton] at hf
    rcases List.mem_append.1 hf with hf | hf
    · exact ih f hf
    · rcases List.mem_append.1 hf with hf | hf
      · obtain ⟨E, hreach, hp⟩ := (hkeeps hl).1
        exact not_isInternal_of_end hreach.live hp.proper (Option.mem_toList.1 hf)
      · obtain ⟨x, hx, hf⟩ := List.mem_filterMap.1 hf
        refine StartsAt.not_isInternal hg hr ((hkeeps (hl.event he)).2 x ?_) hf
        rw [allStarts_append]
        exact List.mem_append_right _ hx

end Provision
end Run

/-- Validated workflows do not go wrong internally. Whatever handlers do, no node fails because a
reference or a variable is not bound, a resource is gone, a handler is not registered or a placeholder
cannot be expanded at all; the list of failures leaves no failed node out. A node that is started finds all
that it reads and uses. -/
theorem Graph.faultless_of_build {defs : Definitions} {registry : Registry} {g : Graph}
    (hb : Graph.build defs registry = .ok g) (hp : defs.PlainNames) (settings : RunSettings)
    (hset : settings.registry = registry) (stopRequested : Bool) {h : Run.Trace} {r : Run}
    (hl : Run.Leads (Run.ofGraph settings g stopRequested) h r) :
    (∀ f ∈ Run.allFailures settings g stopRequested h, ¬ f.2.IsInternal) ∧
    (∀ id m, r.plan.status? id = some (.failed m) ↔
      ∃ e, (id, e) ∈ Run.allFailures settings g stopRequested h ∧ m = e.message) ∧
    ∀ q id, (q, id) ∈ Run.allStarts settings g stopRequested h →
      ∃ n, (q.begun id).plan.node? id = some n ∧ (q.begun id).Finds n := by
  have hg := Graph.sound_of_build hb hp
  have hs := Graph.scoped_of_build hb
  have hr : g.Registered settings.registry := hset ▸ Graph.registered_of_build hb
  refine ⟨hl.not_isInternal hg hs hr, fun id m => (hl.blames hg).status, fun q id hx => ?_⟩
  exact Run.StartsAt.finds hg hs
    ((hl.keeps hg (Run.kept_provides hg hs) (Run.provides_new hg) fun _ _ => trivial).2 (q, id) hx)

/-- Step `a` fails by what its runner answers, and what has been started has found what it needs. -/
theorem Relay.faultless : ∃ h, Run.Leads (Run.ofGraph faulty graph false) h failed ∧
    (∃ e, (NodeId.step "a", e) ∈ Run.allFailures faulty graph false h ∧
      e.message = "step failed: down" ∧ ¬ e.IsInternal) ∧
    ∀ q id, (q, id) ∈ Run.allStarts faulty graph false h →
      ∃ n, (q.begun id).plan.node? id = some n ∧ (q.begun id).Finds n := by
  have hb : Graph.build definitions faulty.registry = .ok graph := rfl
  obtain ⟨h, hl⟩ := Run.leads_runFor none 60 (Run.ofGraph faulty graph false)
  obtain ⟨hexternal, hall, hfinds⟩ := Graph.faultless_of_build hb plainNames faulty rfl false hl
  have hstatus : failed.plan.status? (.step "a") = some (.failed "step failed: down") := by
    decide +kernel
  obtain ⟨e, he, hm⟩ := (hall _ _).1 hstatus
  exact ⟨h, hl, ⟨e, he, hm.symm, hexternal _ he⟩, hfinds⟩

end Workplan
