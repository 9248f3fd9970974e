import Workplan.Proofs.Plan.Evolution
import Workplan.Proofs.Plan.Operations
import Workplan.Proofs.Plan.Readiness
import Workplan.Proofs.Run.Numbering

/-! Live stages: where the running nodes of a plan are. Each has a task, waits for destructions or is the
active one, and only one of the three; its task does what its kind of node asks for. -/
namespace Workplan
set_option autoImplicit false

/-! ## Work that fits its node -/

/-- A result that the work of a kind of node can have. -/
def WorkResult.Fits : NodeKind → WorkResult → Prop
  | .step _, .output _ => True
  | .resource _ _ _, .created => True
  | .expansion _ _, .expanded _ => True
  | _, _ => False

/-- An outcome that the work of a kind of node can have. -/
def WorkOutcome.Fits (kind : NodeKind) : WorkOutcome → Prop
  | .ok w => w.Fits kind
  | .error _ => True

theorem WorkResult.fits_expanded {kind : NodeKind} (h : kind.isExpansion = true)
    {vars : List LoopVars} : (WorkResult.expanded vars).Fits kind := by
  cases kind with
  | step inst => cases h
  | resource name kindName arguments => cases h
  | expansion replication template => trivial

theorem WorkResult.Fits.exists_expanded {kind : NodeKind} (h : kind.isExpansion = true)
    {w : WorkResult} (hw : w.Fits kind) : ∃ vars, w = .expanded vars := by
  cases kind with
  | step inst => cases h
  | resource name kindName arguments => cases h
  | expansion replication template =>
    cases w with
    | output v => cases hw
    | created => cases hw
    | expanded vars => exact ⟨vars, rfl⟩

/-- The work that a kind of node asks for. -/
def Work.Fits (registry : Registry) : NodeKind → Work → Prop
  | .step inst, .step runner arguments _ =>
    registry.runner? inst.runner = some runner ∧ arguments = inst.arguments
  | .resource name kindName arguments, .create name' kind arguments' =>
    name' = name ∧ registry.kind? kindName = some kind ∧ arguments' = arguments
  | .expansion replication _, .expand replication' => replication' = replication
  | _, _ => False

/-- What the handler of a kind of node can be about to do. -/
def PendingAct.Fits : NodeKind → PendingAct → Prop
  | .step _, .answer _ => True
  | .resource name _ _, .create name' _ => name' = name
  | _, _ => False

/-- How far a task of a kind of node can have come. -/
def TaskPhase.Fits (registry : Registry) (kind : NodeKind) : TaskPhase → Prop
  | .queued _ work => work.Fits registry kind
  | .waiting _ act => act.Fits kind
  | .finished result _ => WorkOutcome.Fits kind result

namespace TaskPhase.Fits
variable {registry : Registry} {kind : NodeKind} {scope : Scope} {wake : Nat}

theorem of_step {k : Runner} {arguments : SortedMap String Expression}
    {resources : SortedMap String ResourceInstance}
    (h : TaskPhase.Fits registry kind (.queued scope (.step k arguments resources))) :
    ∃ inst, kind = .step inst ∧ registry.runner? inst.runner = some k ∧ arguments = inst.arguments := by
  cases kind with
  | step inst => exact ⟨inst, rfl, h⟩
  | resource name kindName arguments => cases h
  | expansion replication template => cases h

theorem of_create {name : String} {k : ResourceKind} {arguments : SortedMap String Expression}
    (h : TaskPhase.Fits registry kind (.queued scope (.create name k arguments))) :
    ∃ kindName, kind = .resource name kindName arguments ∧ registry.kind? kindName = some k := by
  cases kind with
  | step inst => cases h
  | resource name' kindName arguments' =>
    obtain ⟨rfl, hk, rfl⟩ := h
    exact ⟨kindName, rfl, hk⟩
  | expansion replication template => cases h

theorem of_expand {replication : Replication}
    (h : TaskPhase.Fits registry kind (.queued scope (.expand replication))) :
    ∃ template, kind = .expansion replication template := by
  cases kind with
  | step inst => cases h
  | resource name kindName arguments => cases h
  | expansion replication' template =>
    obtain rfl : replication = replication' := h
    exact ⟨template, rfl⟩

theorem of_answer {act : World → Answer Value × World}
    (h : TaskPhase.Fits registry kind (.waiting wake (.answer act))) : ∃ inst, kind = .step inst := by
  cases kind with
  | step inst => exact ⟨inst, rfl⟩
  | resource name kindName arguments => cases h
  | expansion replication template => cases h

theorem of_creating {name : String} {act : World → Answer ResourceInstance × World}
    (h : TaskPhase.Fits registry kind (.waiting wake (.create name act))) :
    ∃ kindName arguments, kind = .resource name kindName arguments := by
  cases kind with
  | step inst => cases h
  | resource name' kindName arguments =>
    obtain rfl : name = name' := h
    exact ⟨kindName, arguments, rfl⟩
  | expansion replication template => cases h

end TaskPhase.Fits

theorem Run.fits_of_workOf {registry : Registry} {slots : Slots} {kind : NodeKind} {work : Work}
    (h : workOf registry slots kind = .ok work) : work.Fits registry kind := by
  cases kind with
  | step inst =>
    rw [workOf] at h
    split at h
    next => cases h
    next runner hr =>
      obtain ⟨resources, -, h⟩ := Outcome.bind_eq_ok.1 h
      cases h
      exact ⟨hr, rfl⟩
  | resource name kindName arguments =>
    rw [workOf] at h
    split at h
    next => cases h
    next kind hk =>
      cases h
      exact ⟨rfl, hk, rfl⟩
  | expansion replication template =>
    cases h
    exact rfl

/-! ## Live stages -/

/-- Where the running nodes of a stage are. -/
structure Live (g : Graph) (s : Stage) : Prop where
  sound : s.run.plan.Sound g s.expansions
  tasks_nodup : (s.run.tasks.map Task.node).Nodup
  task : ∀ {t}, t ∈ s.run.tasks → s.run.plan.status? t.node = some .running ∧
    s.run.deferred.get? t.node = none ∧ s.expansions t.node = none
  fits : ∀ {t}, t ∈ s.run.tasks → ∃ n, s.run.plan.node? t.node = some n ∧
    t.phase.Fits s.run.settings.registry n.kind
  active : ∀ {id o}, s.active = some (id, o) → s.run.plan.status? id = some .running ∧
    s.run.deferred.get? id = none ∧ id ∉ s.run.tasks.map Task.node
  active_fits : ∀ {id o}, s.active = some (id, o) →
    (s.expansions id = none ∨ ∃ vars, o = some (.ok (.expanded vars)) ∧ s.expansions id = some vars) ∧
    ∀ result n, o = some result → s.run.plan.node? id = some n → WorkOutcome.Fits n.kind result
  deferred : ∀ {id d}, s.run.deferred.get? id = some d → s.run.plan.status? id = some .running
  running : ∀ {id}, s.run.plan.status? id = some .running →
    id ∈ s.run.tasks.map Task.node ∨ (∃ d, s.run.deferred.get? id = some d) ∨
      ∃ o, s.active = some (id, o)
  ended_nodup : s.ended.Nodup
  ended : ∀ {id}, id ∈ s.ended → ∃ st, s.run.plan.status? id = some st ∧ st.isTerminal = true
  /-- A placeholder whose work has ended well has been expanded. -/
  expanded : ∀ {id n}, s.run.plan.node? id = some n → n.kind.isExpansion = true →
    (s.run.plan.hasSucceeded id = true ∨ ∃ d, s.run.deferred.get? id = some d) →
    ∃ vars, s.expansions id = some vars

namespace Live
variable {g : Graph} {r r' : Run} {E : Expansions} {a : Option (NodeId × Option WorkOutcome)}
variable {l : List NodeId} {id : NodeId}

theorem frame (h : Live g ⟨r, E, a, l⟩) (hs : r'.settings = r.settings) (hp : r'.plan = r.plan)
    (ht : r'.tasks = r.tasks) (hd : r'.deferred = r.deferred) : Live g ⟨r', E, a, l⟩ := by
  cases r
  cases r'
  cases hs
  cases hp
  cases ht
  cases hd
  exact ⟨h.sound, h.tasks_nodup, h.task, h.fits, h.active, h.active_fits, h.deferred, h.running,
    h.ended_nodup, h.ended, h.expanded⟩

theorem released {l' : List NodeId} (h : Live g ⟨r, E, a, l⟩) (hl : l'.Sublist l) :
    Live g ⟨r, E, a, l'⟩ :=
  ⟨h.sound, h.tasks_nodup, h.task, h.fits, h.active, h.active_fits, h.deferred, h.running,
    hl.nodup h.ended_nodup, fun hid => h.ended (hl.subset hid), h.expanded⟩

theorem agree (h : Live g ⟨r, E, a, l⟩) (ha : Run.Agree r r') : Live g ⟨r', E, a, l⟩ :=
  h.frame ha.settings ha.plan ha.tasks ha.deferred

/-! ### Changes of the plan -/

theorem skips {reason : String} {ids : List NodeId} {p' : Plan} (h : Live g ⟨r, E, none, []⟩)
    (hs : Plan.Skips reason r.plan ids p') : Live g ⟨{ r with plan := p' }, E, none, ids⟩ where
  sound := h.sound.skips hs
  tasks_nodup := h.tasks_nodup
  task := by
    intro t ht
    exact ⟨hs.running.2 (h.task ht).1, (h.task ht).2⟩
  fits := by
    intro t ht
    obtain ⟨n, hn, hf⟩ := h.fits ht
    obtain ⟨n', hn', hk⟩ := hs.evolves.kind hn
    exact ⟨n', hn', by rw [hk]; exact hf⟩
  active := fun ha => by cases ha
  active_fits := fun ha => by cases ha
  deferred := fun hd => hs.running.2 (h.deferred hd)
  running := fun hr => h.running (hs.running.1 hr)
  ended_nodup := hs.nodup
  ended := by
    intro x hx
    exact ⟨_, by rw [hs.status x, if_pos hx], rfl⟩
  expanded := by
    intro x n hn hk hx
    have hn' : r.plan.node? x = some n := (hs.node? x).symm.trans hn
    rw [hs.hasSucceeded] at hx
    exact h.expanded hn' hk hx

theorem node_of_running (h : Live g ⟨r, E, a, l⟩) (hr : r.plan.status? id = some .running) :
    ∃ n, r.plan.node? id = some n :=
  h.sound.node_of_status hr

theorem task_ne_active {o : Option WorkOutcome} (h : Live g ⟨r, E, some (id, o), l⟩) {t : Task}
    (ht : t ∈ r.tasks) : t.node ≠ id := by
  rintro rfl
  exact (h.active rfl).2.2 (List.mem_map_of_mem ht)

theorem deferred_ne_active {o : Option WorkOutcome} (h : Live g ⟨r, E, some (id, o), l⟩) {x : NodeId}
    {d : Nat × Option Value} (hd : r.deferred.get? x = some d) : x ≠ id := by
  rintro rfl
  cases (h.active rfl).2.1.symm.trans hd

/-- Who waits for destructions is running, so nobody else waits. -/
theorem not_deferred (h : Live g ⟨r, E, a, l⟩) {st : NodeStatus} (hst : r.plan.status? id = some st)
    (hne : st ≠ .running) : r.deferred.get? id = none := by
  cases hd : r.deferred.get? id with
  | none => rfl
  | some d => exact absurd (Option.some.inj (hst.symm.trans (h.deferred hd))) hne

theorem not_deferred_of_ended (h : Live g ⟨r, E, a, l⟩) (hid : id ∈ l) : r.deferred.get? id = none := by
  obtain ⟨st, hst, hterm⟩ := h.ended hid
  refine h.not_deferred hst ?_
  rintro rfl
  cases hterm

theorem task_ne_deferred (h : Live g ⟨r, E, a, l⟩) {t : Task} (ht : t ∈ r.tasks)
    {d : Nat × Option Value} (hd : r.deferred.get? id = some d) : t.node ≠ id := by
  rintro rfl
  cases (h.task ht).2.1.symm.trans hd

theorem settle {o : Option WorkOutcome} (h : Live g ⟨r, E, some (id, o), []⟩)
    (hE : ∀ n, r.plan.node? id = some n → n.kind.isExpansion = true → ∃ vars, E id = some vars)
    (output : Option Value) : Live g ⟨r.settle id output, E, none, []⟩ := by
  have hrun := (h.active rfl).1
  have hstatus : ∀ {x}, x ≠ id → (r.settle id output).plan.status? x = r.plan.status? x := by
    intro x hx
    rw [Run.settle, Plan.status?_markSucceeded, if_neg hx]
  have hself : (r.settle id output).plan.status? id = some .succeeded := by
    rw [Run.settle, Plan.status?_markSucceeded, if_pos rfl, hrun]
    rfl
  have hnode : ∀ x, (r.settle id output).plan.node? x = r.plan.node? x :=
    fun x => Plan.node?_markSucceeded _ _ _ _
  constructor
  case sound => exact h.sound.markSucceeded hrun output
  case tasks_nodup => exact h.tasks_nodup
  case task =>
    intro t ht
    exact ⟨(hstatus (h.task_ne_active ht)).trans (h.task ht).1, (h.task ht).2⟩
  case fits =>
    intro t ht
    obtain ⟨n, hn, hf⟩ := h.fits ht
    exact ⟨n, (hnode _).trans hn, hf⟩
  case active => exact fun ha => by cases ha
  case active_fits => exact fun ha => by cases ha
  case deferred => exact fun hd => (hstatus (h.deferred_ne_active hd)).trans (h.deferred hd)
  case running =>
    intro x hx
    have hne : x ≠ id := by
      rintro rfl
      rw [hself] at hx
      cases hx
    rcases h.running ((hstatus hne).symm.trans hx) with hx | hx | ⟨o', hx⟩
    · exact .inl hx
    · exact .inr (.inl hx)
    · cases hx
      exact absurd rfl hne
  case ended_nodup => exact List.nodup_nil
  case ended => exact fun hx => by cases hx
  case expanded =>
    intro x n hn hk hx
    have hn' : r.plan.node? x = some n := (hnode x).symm.trans hn
    by_cases hne : x = id
    · subst hne
      exact hE n hn' hk
    · refine h.expanded hn' hk (hx.imp_left fun hs => ?_)
      rw [Plan.hasSucceeded_iff, hstatus hne] at hs
      exact Plan.hasSucceeded_iff.2 hs

theorem defer {o : Option WorkOutcome} (h : Live g ⟨r, E, some (id, o), []⟩)
    (hE : ∀ n, r.plan.node? id = some n → n.kind.isExpansion = true → ∃ vars, E id = some vars)
    (d : Nat × Option Value) :
    Live g ⟨{ r with deferred := r.deferred.insert id d }, E, none, []⟩ := by
  have hrun := (h.active rfl).1
  have hget : ∀ {x}, x ≠ id → (r.deferred.insert id d).get? x = r.deferred.get? x := by
    intro x hx
    rw [SortedMap.get?_insert, if_neg hx]
  have hself : (r.deferred.insert id d).get? id = some d := by
    rw [SortedMap.get?_insert, if_pos rfl]
  constructor
  case sound => exact h.sound
  case tasks_nodup => exact h.tasks_nodup
  case task =>
    intro t ht
    exact ⟨(h.task ht).1, (hget (h.task_ne_active ht)).trans (h.task ht).2.1, (h.task ht).2.2⟩
  case fits => exact h.fits
  case active => exact fun ha => by cases ha
  case active_fits => exact fun ha => by cases ha
  case deferred =>
    intro x d' hd
    by_cases hne : x = id
    · subst hne
      exact hrun
    · exact h.deferred ((hget hne).symm.trans hd)
  case running =>
    intro x hx
    rcases h.running hx with hx | ⟨d', hx⟩ | ⟨o', hx⟩
    · exact .inl hx
    · exact .inr (.inl ⟨d', (hget (h.deferred_ne_active hx)).trans hx⟩)
    · cases hx
      exact .inr (.inl ⟨d, hself⟩)
  case ended_nodup => exact List.nodup_nil
  case ended => exact fun hx => by cases hx
  case expanded =>
    intro x n hn hk hx
    by_cases hne : x = id
    · subst hne
      exact hE n hn hk
    · rcases hx with hx | ⟨d', hx⟩
      · exact h.expanded hn hk (.inl hx)
      · exact h.expanded hn hk (.inr ⟨d', (hget hne).symm.trans hx⟩)

theorem undefer (hg : g.Sound) (h : Live g ⟨r, E, none, []⟩) {d : Nat × Option Value}
    (hd : r.deferred.get? id = some d) :
    ∃ o, Live g ⟨{ r with deferred := r.deferred.erase id }, E, some (id, o), []⟩ := by
  have hrun := h.deferred hd
  have hget : ∀ {x}, x ≠ id → (r.deferred.erase id).get? x = r.deferred.get? x := by
    intro x hx
    rw [SortedMap.get?_erase, if_neg hx]
  have hself : (r.deferred.erase id).get? id = none := by
    rw [SortedMap.get?_erase, if_pos rfl]
  -- What the node has come to is not remembered; that a placeholder has been expanded is told by `E`.
  have hlive : ∀ o, ((E id = none ∧ o = none) ∨ ∃ vars, o = some (.ok (.expanded vars)) ∧
      E id = some vars) →
      Live g ⟨{ r with deferred := r.deferred.erase id }, E, some (id, o), []⟩ := by
    intro o ho
    constructor
    case sound => exact h.sound
    case tasks_nodup => exact h.tasks_nodup
    case task =>
      intro t ht
      exact ⟨(h.task ht).1, (hget (h.task_ne_deferred ht hd)).trans (h.task ht).2.1, (h.task ht).2.2⟩
    case fits => exact h.fits
    case active =>
      intro x o' hx
      cases hx
      refine ⟨hrun, hself, fun hm => ?_⟩
      obtain ⟨t, ht, he⟩ := List.mem_map.1 hm
      exact h.task_ne_deferred ht hd he
    case active_fits =>
      intro x o' hx
      cases hx
      refine ⟨ho.imp_left And.left, fun result n hres hn => ?_⟩
      rcases ho with ⟨-, rfl⟩ | ⟨vars, rfl, hE⟩
      · cases hres
      · cases hres
        obtain ⟨m, hm, hk⟩ := h.sound.unfolds.expanded hE
        rw [h.sound.unfolds.kind_eq hn hg hm]
        exact WorkResult.fits_expanded hk
    case deferred =>
      intro x d' hx
      by_cases hne : x = id
      · rw [hne]
        exact hrun
      · exact h.deferred ((hget hne).symm.trans hx)
    case running =>
      intro x hx
      rcases h.running hx with hx | ⟨d', hx⟩ | ⟨o', hx⟩
      · exact .inl hx
      · by_cases hne : x = id
        · exact .inr (.inr ⟨o, by rw [hne]⟩)
        · exact .inr (.inl ⟨d', (hget hne).trans hx⟩)
      · cases hx
    case ended_nodup => exact List.nodup_nil
    case ended => exact fun hx => by cases hx
    case expanded =>
      intro x n hn hk hx
      rcases hx with hx | ⟨d', hx⟩
      · exact h.expanded hn hk (.inl hx)
      · have hne : x ≠ id := by
          rintro rfl
          rw [hself] at hx
          cases hx
        exact h.expanded hn hk (.inr ⟨d', (hget hne).symm.trans hx⟩)
  cases hE : E id with
  | none => exact ⟨none, hlive none (.inl ⟨hE, rfl⟩)⟩
  | some vars => exact ⟨_, hlive _ (.inr ⟨vars, rfl, hE⟩)⟩

/-! ### Tasks -/

theorem collect (h : Live g ⟨r, E, none, []⟩) (hn : r.Numbered) {t : Task} (ht : t ∈ r.tasks)
    {result : WorkOutcome} {time : Nat} (hf : t.phase = .finished result time) :
    Live g ⟨r.dropTask t.number, E, some (t.node, some result), []⟩ := by
  obtain ⟨l₁, l₂, hsplit, -, hfilter⟩ := Numbering.exists_split hn.tasks ht
  have htasks : (r.dropTask t.number).tasks = l₁ ++ l₂ := hfilter
  have hsub : ∀ {u}, u ∈ (r.dropTask t.number).tasks → u ∈ r.tasks :=
    fun hu => List.mem_of_mem_filter hu
  have hperm : (r.tasks.map Task.node).Perm (t.node :: (l₁ ++ l₂).map Task.node) := by
    rw [hsplit, List.map_append, List.map_cons, List.map_append]
    exact List.perm_middle
  have hnd := List.nodup_cons.1 (hperm.nodup_iff.1 h.tasks_nodup)
  obtain ⟨hrun, hdef, hE⟩ := h.task ht
  constructor
  case sound => exact h.sound
  case tasks_nodup =>
    rw [htasks]
    exact hnd.2
  case task => exact fun hu => h.task (hsub hu)
  case fits => exact fun hu => h.fits (hsub hu)
  case active =>
    intro x o hx
    cases hx
    refine ⟨hrun, hdef, ?_⟩
    rw [htasks]
    exact hnd.1
  case active_fits =>
    intro x o hx
    cases hx
    refine ⟨.inl hE, fun res n hres hnode => ?_⟩
    cases hres
    obtain ⟨m, hm, hfit⟩ := h.fits ht
    have hnode' : r.plan.node? t.node = some n := hnode
    cases hm.symm.trans hnode'
    rw [hf] at hfit
    exact hfit
  case deferred => exact h.deferred
  case running =>
    intro x hx
    rcases h.running hx with hx | hx | ⟨o, hx⟩
    · rcases List.mem_cons.1 (hperm.mem_iff.1 hx) with rfl | hx
      · exact .inr (.inr ⟨_, rfl⟩)
      · refine .inl ?_
        rw [htasks]
        exact hx
    · exact .inr (.inl hx)
    · cases hx
  case ended_nodup => exact List.nodup_nil
  case ended => exact fun hx => by cases hx
  case expanded => exact h.expanded

theorem enqueue (h : Live g ⟨r, E, some (id, none), []⟩) {t : Task} (ht : r.prepare id = .ok t) :
    Live g ⟨{ r with tasks := r.tasks ++ [t], next := r.next + 1 }, E, none, []⟩ := by
  obtain ⟨hrun, hdef, htask⟩ := h.active rfl
  have hE : E id = none := by
    rcases (h.active_fits rfl).1 with hE | ⟨vars, ho, -⟩
    · exact hE
    · cases ho
  obtain ⟨node, scope, work, hnode, -, hwork, rfl⟩ := Run.prepare_eq_ok ht
  constructor
  case sound => exact h.sound
  case tasks_nodup =>
    simp only [List.map_append, List.map_cons, List.map_nil]
    refine List.nodup_append.2 ⟨h.tasks_nodup, List.nodup_singleton _, ?_⟩
    rintro x hx y hy rfl
    rw [List.mem_singleton.1 hy] at hx
    exact htask hx
  case task =>
    intro u hu
    rcases List.mem_append.1 hu with hu | hu
    · exact h.task hu
    · rw [List.mem_singleton.1 hu]
      exact ⟨hrun, hdef, hE⟩
  case fits =>
    intro u hu
    rcases List.mem_append.1 hu with hu | hu
    · exact h.fits hu
    · rw [List.mem_singleton.1 hu]
      exact ⟨node, hnode, Run.fits_of_workOf hwork⟩
  case active => exact fun hx => by cases hx
  case active_fits => exact fun hx => by cases hx
  case deferred => exact h.deferred
  case running =>
    intro x hx
    rcases h.running hx with hx | hx | ⟨o, hx⟩
    · refine .inl ?_
      simp only [List.map_append, List.mem_append]
      exact .inl hx
    · exact .inr (.inl hx)
    · cases hx
      refine .inl ?_
      simp
  case ended_nodup => exact List.nodup_nil
  case ended => exact fun hx => by cases hx
  case expanded => exact h.expanded

theorem begin (h : Live g ⟨r, E, none, []⟩) (hr : r.plan.isReady id = true) :
    Live g ⟨{ r with plan := r.plan.markRunning id }, E, some (id, none), []⟩ := by
  obtain ⟨hp, node, hnode, hq, -⟩ := Plan.isReady_iff.1 hr
  have hpend := Plan.isPending_iff.1 hp
  have hstatus : ∀ {x}, x ≠ id → (r.plan.markRunning id).status? x = r.plan.status? x := by
    intro x hx
    rw [Plan.markRunning, Plan.status?_setStatus, if_neg hx]
  have hself : (r.plan.markRunning id).status? id = some .running := by
    rw [Plan.markRunning, Plan.status?_setStatus, if_pos rfl, hpend]
    rfl
  -- The node was pending, so it is not the node of a task and does not wait for destructions.
  have hne : ∀ {x}, r.plan.status? x = some .running → x ≠ id := by
    rintro x hx rfl
    rw [hpend] at hx
    cases hx
  constructor
  case sound =>
    refine h.sound.markRunning hp fun n hn => ?_
    cases hnode.symm.trans hn
    exact hq
  case tasks_nodup => exact h.tasks_nodup
  case task =>
    intro t ht
    obtain ⟨hrun, hrest⟩ := h.task ht
    exact ⟨(hstatus (hne hrun)).trans hrun, hrest⟩
  case fits => exact h.fits
  case active =>
    intro x o hx
    cases hx
    refine ⟨hself, h.not_deferred hpend (by decide), fun hm => ?_⟩
    obtain ⟨t, ht, he⟩ := List.mem_map.1 hm
    exact hne (h.task ht).1 he
  case active_fits =>
    intro x o hx
    cases hx
    refine ⟨.inl ?_, fun result n hres => by cases hres⟩
    cases hE : E id with
    | none => exact hE
    | some vars =>
      have hst := Plan.not_isPending_of_hasStarted (h.sound.opened hE)
      rw [hp] at hst
      cases hst
  case deferred => exact fun hd => (hstatus (hne (h.deferred hd))).trans (h.deferred hd)
  case running =>
    intro x hx
    by_cases hxid : x = id
    · exact .inr (.inr ⟨none, by rw [hxid]⟩)
    · rcases h.running ((hstatus hxid).symm.trans hx) with hx | hx | ⟨o, hx⟩
      · exact .inl hx
      · exact .inr (.inl hx)
      · cases hx
  case ended_nodup => exact List.nodup_nil
  case ended => exact fun hx => by cases hx
  case expanded =>
    intro x n hn hk hx
    exact h.expanded hn hk (hx.imp_left (Plan.hasSucceeded_markRunning hp).symm.trans)

/-! ### Ends -/

theorem fail {o : Option WorkOutcome} (h : Live g ⟨r, E, some (id, o), []⟩) (message : String) :
    Live g ⟨{ r with plan := (r.plan.markFailed id message).1 }, E, none,
      (r.plan.markFailed id message).2 ++ [id]⟩ := by
  have hrun := (h.active rfl).1
  have hskips := Plan.skips_markFailed r.plan id message
  have hstatus : ∀ {x}, x ≠ id →
      (r.plan.setStatus id (.failed message)).status? x = r.plan.status? x := by
    intro x hx
    rw [Plan.status?_setStatus, if_neg hx]
  have hself : (r.plan.setStatus id (.failed message)).status? id = some (.failed message) := by
    rw [Plan.status?_setStatus, if_pos rfl, hrun]
    rfl
  have hrunning : ∀ {x}, (r.plan.markFailed id message).1.status? x = some .running ↔
      x ≠ id ∧ r.plan.status? x = some .running := by
    intro x
    rw [hskips.running]
    by_cases hx : x = id
    · rw [hx, hself]
      simp
    · rw [hstatus hx]
      exact ⟨fun h => ⟨hx, h⟩, fun h => h.2⟩
  have hsid : id ∉ (r.plan.markFailed id message).2 := by
    intro hm
    cases hself.symm.trans (Plan.isPending_iff.1 (hskips.pending id hm))
  -- Those that are skipped with the node were pending, so that nothing else stops running.
  constructor
  case sound => exact h.sound.markFailed hrun message
  case tasks_nodup => exact h.tasks_nodup
  case task =>
    intro t ht
    exact ⟨hrunning.2 ⟨h.task_ne_active ht, (h.task ht).1⟩, (h.task ht).2⟩
  case fits =>
    intro t ht
    obtain ⟨n, hn, hf⟩ := h.fits ht
    obtain ⟨n', hn', hk⟩ := (Plan.evolves_markFailed hrun message).kind hn
    exact ⟨n', hn', by rw [hk]; exact hf⟩
  case active => exact fun hx => by cases hx
  case active_fits => exact fun hx => by cases hx
  case deferred => exact fun hd => hrunning.2 ⟨h.deferred_ne_active hd, h.deferred hd⟩
  case running =>
    intro x hx
    obtain ⟨hne, hx⟩ := hrunning.1 hx
    rcases h.running hx with hx | hx | ⟨o', hx⟩
    · exact .inl hx
    · exact .inr (.inl hx)
    · cases hx
      exact absurd rfl hne
  case ended_nodup =>
    refine List.nodup_append.2 ⟨hskips.nodup, List.nodup_singleton _, ?_⟩
    rintro x hx y hy rfl
    rw [List.mem_singleton.1 hy] at hx
    exact hsid hx
  case ended =>
    intro x hx
    rcases List.mem_append.1 hx with hx | hx
    · exact ⟨_, by rw [hskips.status x, if_pos hx], rfl⟩
    · rw [List.mem_singleton.1 hx]
      exact ⟨_, by rw [hskips.status id, if_neg hsid, hself], rfl⟩
  case expanded =>
    intro x n hn hk hx
    have hn' : r.plan.node? x = some n := (hskips.node? x).symm.trans hn
    exact h.expanded hn' hk (hx.imp_left (Plan.hasSucceeded_markFailed hrun message).symm.trans)

theorem expand (hg : g.Sound) {vars : List LoopVars}
    (h : Live g ⟨r, E, some (id, some (.ok (.expanded vars))), []⟩) (hE : E id = none) {p' : Plan}
    {children : List NodeId} (he : r.plan.expand id vars = .ok (p', children)) :
    Live g ⟨{ r with plan := p' }, E.set id vars, some (id, some (.ok (.expanded vars))), []⟩ := by
  obtain ⟨hrun, hdef, htask⟩ := h.active rfl
  have hx := h.sound.expands hg hE he
  have hev := h.sound.evolves_of_expands hx
  have hold : ∀ {x s}, r.plan.status? x = some s → p'.status? x = some s := by
    intro x s hs
    exact hx.keeps_status h.sound hs
  have hfits : ∀ {x n}, r.plan.node? x = some n → ∃ n', p'.node? x = some n' ∧ n'.kind = n.kind :=
    fun hn => hev.kind hn
  -- Nodes keep their statuses and kinds, and the instances come in as pending nodes.
  constructor
  case sound => exact h.sound.expand hg hE he
  case tasks_nodup => exact h.tasks_nodup
  case task =>
    intro t ht
    obtain ⟨hr, hd, hE'⟩ := h.task ht
    exact ⟨hold hr, hd, (Expansions.set_of_ne (h.task_ne_active ht)).trans hE'⟩
  case fits =>
    intro t ht
    obtain ⟨n, hn, hf⟩ := h.fits ht
    obtain ⟨n', hn', hk⟩ := hfits hn
    exact ⟨n', hn', by rw [hk]; exact hf⟩
  case active =>
    intro x o hxo
    cases hxo
    exact ⟨hold hrun, hdef, htask⟩
  case active_fits =>
    intro x o hxo
    cases hxo
    refine ⟨.inr ⟨vars, rfl, Expansions.set_self⟩, fun result n hres hn => ?_⟩
    cases hres
    obtain ⟨m, hm⟩ := h.node_of_running hrun
    obtain ⟨m', hm', hk⟩ := hfits hm
    have hn' : p'.node? id = some n := hn
    cases hm'.symm.trans hn'
    rw [hk]
    exact (h.active_fits rfl).2 _ m rfl hm
  case deferred => exact fun hd => hold (h.deferred hd)
  case running =>
    intro x hr
    exact h.running ((hx.status_iff h.sound (by decide)).1 hr)
  case ended_nodup => exact List.nodup_nil
  case ended => exact fun hm => by cases hm
  case expanded =>
    intro x n' hn' hk hxs
    by_cases hxid : x = id
    · exact ⟨vars, by rw [hxid]; exact Expansions.set_self⟩
    · have hxs' : r.plan.hasSucceeded x = true ∨ ∃ d, r.deferred.get? x = some d := by
        refine hxs.imp_left fun hs => ?_
        rw [hx.hasSucceeded h.sound] at hs
        exact hs
      have hknown : ∃ s, r.plan.status? x = some s := by
        rcases hxs' with hs | ⟨d, hd⟩
        · exact ⟨_, Plan.hasSucceeded_iff.1 hs⟩
        · exact ⟨_, h.deferred hd⟩
      obtain ⟨n, hn⟩ := h.sound.status.1 hknown
      obtain ⟨m, hm, hmk⟩ := hfits hn
      have hn'' : p'.node? x = some n' := hn'
      cases hm.symm.trans hn''
      obtain ⟨vars', hv⟩ := h.expanded hn (by rw [← hmk]; exact hk) hxs'
      exact ⟨vars', (Expansions.set_of_ne hxid).trans hv⟩

/-! ### Moves -/

theorem conclude {w : WorkResult} (h : Live g ⟨r, E, some (id, some (.ok w)), []⟩)
    (hE : ∀ vars, w = .expanded vars → E id = some vars) (output : Option Value) :
    Live g ⟨r.conclude id output, E, none, []⟩ := by
  have hr := h.agree (Run.agree_release r id)
  have hexp : ∀ n, (r.release id).1.plan.node? id = some n → n.kind.isExpansion = true →
      ∃ vars, E id = some vars := by
    intro n hn hk
    have hfit := (hr.active_fits rfl).2 _ n rfl hn
    obtain ⟨vars, rfl⟩ := WorkResult.Fits.exists_expanded hk hfit
    exact ⟨vars, hE vars rfl⟩
  simp only [Run.conclude]
  split
  next => exact hr.settle hexp output
  next => exact hr.defer hexp _

theorem settle_deferred (hg : g.Sound) (h : Live g ⟨r, E, none, []⟩) {d : Nat × Option Value}
    (hd : r.deferred.get? id = some d) (output : Option Value) :
    Live g ⟨{ r with deferred := r.deferred.erase id }.settle id output, E, none, []⟩ := by
  obtain ⟨o, ho⟩ := h.undefer hg hd
  exact ho.settle (fun n hn hk => h.expanded hn hk (.inr ⟨d, hd⟩)) output

theorem credit (hg : g.Sound) (h : Live g ⟨r, E, none, []⟩) (owner : NodeId) :
    Live g ⟨r.credit owner, E, none, []⟩ := by
  rw [Run.credit]
  split
  next => exact h
  next waiting output hd =>
    split
    next =>
      obtain ⟨o, ho⟩ := h.undefer hg hd
      have hdefer := ho.defer (fun n hn hk => h.expanded hn hk (.inr ⟨_, hd⟩)) (waiting - 1, output)
      have herase : (r.deferred.erase owner).insert owner (waiting - 1, output) =
          r.deferred.insert owner (waiting - 1, output) := by
        refine SortedMap.ext_get? fun k => ?_
        rw [SortedMap.get?_insert, SortedMap.get?_insert, SortedMap.get?_erase]
        split
        next => rfl
        next => rfl
      simp only [herase] at hdefer
      exact hdefer
    next => exact h.settle_deferred hg hd output

theorem blame (h : Live g ⟨r, E, a, l⟩) (id : NodeId) (e : RunError) :
    Live g ⟨r.blame id e, E, a, l⟩ := by
  rw [Run.blame_eq]
  exact h.frame rfl rfl rfl rfl

end Live

section Moves
variable {g : Graph} {s t : Stage}

theorem Moves.live (hg : g.Sound) (hm : Moves s t) (hn : s.run.Numbered) (h : Live g s) :
    Live g t := by
  cases hm with
  | note r E a l id time hk => exact h.frame rfl rfl rfl rfl
  | blemish r E e => exact h.frame rfl rfl rfl rfl
  | collect E ht hf => exact h.collect hn ht hf
  | enqueue E hp hlimit => exact h.enqueue hp
  | expand hE he => exact (h.expand hg hE he).frame rfl rfl rfl rfl
  | conclude r hE => exact h.conclude hE _
  | fail hf => exact (h.fail _).blame _ _
  | release r E a id l => exact (h.released (List.sublist_cons_self id l)).agree (Run.agree_release r id)
  | skipIdle r E => exact h.skips h.sound.skips_skipIdleResources
  | @skipAll r E reason ha => exact h.skips (Plan.skips_skipPending r.plan reason).1
  | observe E ha hs => exact h.frame rfl rfl rfl rfl
  | lose E ht hf => exact h.frame rfl rfl rfl rfl
  | discard E ht hf ho => exact h.frame rfl rfl rfl rfl
  | @credit r E t ht result time hf owner ho =>
    have hd : Live g ⟨r.dropDestroy t.number, E, none, []⟩ := h.frame rfl rfl rfl rfl
    exact hd.credit hg owner
  | giveUp E hd hget => exact h.settle_deferred hg hget _
  | @stall r E ha ht hd hr hw =>
    exact (h.skips (Plan.skips_skipPending r.plan Run.stallReason).1).frame rfl rfl rfl rfl
  | @drain r E hw ht hd hp =>
    have hs : Live g ⟨{ r with slots := r.slots.drain.2, phase := .tearingDown }, E, none, []⟩ :=
      h.frame rfl rfl rfl rfl
    exact hs.agree (Run.agree_spawnDestroys none _ _)
  | close E hp hd => exact h.frame rfl rfl rfl rfl

theorem Begins.live {id : NodeId} (hb : Begins s id t) (h : Live g s) : Live g t := by
  cases hb with
  | mk E ha hlimit hr => exact (h.begin hr).frame rfl rfl rfl rfl

theorem Path.live (hg : g.Sound) {l : List (Run × NodeId)} (hp : Path s l t) (hn : s.run.Numbered)
    (h : Live g s) : Live g t := by
  induction hp with
  | refl => exact h
  | move hp hm ih => exact hm.live hg (hp.numbered hn) ih
  | start hp hb ih => exact hb.live ih

/-! ## Evolution -/

theorem Moves.evolves (hg : g.Sound) (hm : Moves s t) (h : Live g s) :
    s.run.plan.Evolves t.run.plan := by
  cases hm with
  | note r E a l id time hk => exact .refl _
  | blemish r E e => exact .refl _
  | collect E ht hf => exact .refl _
  | enqueue E hp hlimit => exact .refl _
  | expand hE he => exact h.sound.evolves_of_expands (h.sound.expands hg hE he)
  | @conclude r E id w hE =>
    have hplan := (Run.agree_release r id).plan
    simp only [Run.conclude]
    split
    next =>
      rw [Run.settle, hplan]
      exact Plan.evolves_markSucceeded (h.active rfl).1 rfl _
    next =>
      rw [hplan]
      exact .refl _
  | @fail r E id o e hf =>
    have hev := Plan.evolves_markFailed (h.active rfl).1 e.message
    rw [Run.plan_blame]
    exact hev
  | release r E a id l =>
    rw [(Run.agree_release r id).plan]
    exact .refl _
  | skipIdle r E => exact h.sound.skips_skipIdleResources.evolves
  | @skipAll r E reason ha => exact (Plan.skips_skipPending r.plan reason).1.evolves
  | observe E ha hs => exact .refl _
  | lose E ht hf => exact .refl _
  | discard E ht hf ho => exact .refl _
  | @credit r E t ht result time hf owner ho =>
    simp only [Run.credit]
    split
    next => exact .refl _
    next waiting output hd =>
      split
      next => exact .refl _
      next => exact Plan.evolves_markSucceeded (h.deferred hd) rfl _
  | giveUp E hd hget => exact Plan.evolves_markSucceeded (h.deferred hget) rfl _
  | @stall r E ha ht hd hr hw => exact (Plan.skips_skipPending r.plan Run.stallReason).1.evolves
  | @drain r E hw ht hd hp =>
    rw [(Run.agree_spawnDestroys none _ _).plan]
    exact .refl _
  | close E hp hd => exact .refl _

theorem Begins.evolves {id : NodeId} (hb : Begins s id t) : s.run.plan.Evolves t.run.plan := by
  cases hb with
  | mk E ha hlimit hr =>
    exact Plan.evolves_setStatus (Plan.isPending_iff.1 (Plan.isReady_iff.1 hr).1) rfl rfl

theorem Path.evolves (hg : g.Sound) {l : List (Run × NodeId)} (hp : Path s l t)
    (hn : s.run.Numbered) (h : Live g s) : s.run.plan.Evolves t.run.plan := by
  induction hp with
  | refl => exact .refl _
  | move hp hm ih => exact ih.trans (hm.evolves hg (hp.live hg hn h))
  | start hp hb ih => exact ih.trans hb.evolves

end Moves

end Workplan
