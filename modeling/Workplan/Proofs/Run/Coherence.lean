import Workplan.Proofs.Run.Behaviour
import Workplan.Proofs.Run.Smoothness
import Workplan.Proofs.Run.Stock

/-! Coherence: what a smooth run knows is what the behaviour of its handlers says. Every task is under way
to the outcome of its node, and the nodes that have ended well have the results of their evaluation. The
evaluation of a node that has started never changes, so that this is kept by every move. -/
namespace Workplan
set_option autoImplicit false

/-- The stages agree on what has ended well in the first: it is expanded and has given the same results in
the second. They may be stages of two runs. -/
structure Stage.Agrees (s t : Stage) : Prop where
  expansions : ∀ {q vars}, s.expansions q = some vars → t.expansions q = some vars
  result : ∀ {q}, s.run.plan.hasSucceeded q = true → t.run.plan.result? q = s.run.plan.result? q

section Evaluation
variable {g : Graph} {s t : Stage} {b : Behaviour} {id : NodeId} {n n' : Node}

theorem Stage.Agrees.scopeFor (hg : g.Sound) (h : s.Agrees t) (hs : Live g s) (ht : Live g t)
    (hn : s.run.plan.node? id = some n) (hn' : t.run.plan.node? id = some n')
    (hst : s.run.plan.hasStarted id = true) :
    n'.kind = n.kind ∧ t.run.plan.scopeFor n' = s.run.plan.scopeFor n :=
  Plan.scopeFor_later hg hs.sound (fun hn hk hq => hs.expanded hn hk (.inl hq)) ht.sound h.expansions
    h.result hn hn' hst

theorem Stage.Agrees.evaluate (hg : g.Sound) (h : s.Agrees t) (hs : Live g s) (ht : Live g t)
    (hn : s.run.plan.node? id = some n) (hn' : t.run.plan.node? id = some n')
    (hst : s.run.plan.hasStarted id = true) :
    b.evaluate t.run.plan id n' = b.evaluate s.run.plan id n := by
  obtain ⟨hk, hscope⟩ := h.scopeFor hg hs ht hn hn' hst
  unfold Behaviour.evaluate
  rw [hk, hscope]

theorem Stage.Agrees.exists_node (h : s.Agrees t) (hs : Live g s) (ht : Live g t)
    (hn : s.run.plan.node? id = some n) : ∃ n', t.run.plan.node? id = some n' :=
  hs.sound.unfolds.exists_later ht.sound.unfolds h.expansions hn

/-! ## Agreement along a run -/

theorem Run.result?_settle {r : Run} {output : Option Value} {q : NodeId} (hq : q ≠ id) :
    (r.settle id output).plan.result? q = r.plan.result? q := by
  rw [Run.settle, Plan.result?_markSucceeded, if_neg fun hc => hq hc.1]

theorem Run.result?_settle_of_running {r : Run} {output : Option Value} {q : NodeId}
    (hr : r.plan.status? id = some .running) (hq : r.plan.hasSucceeded q = true) :
    (r.settle id output).plan.result? q = r.plan.result? q := by
  refine Run.result?_settle ?_
  rintro rfl
  cases hr.symm.trans (Plan.hasSucceeded_iff.1 hq)

theorem Moves.agrees (hg : g.Sound) (hm : Moves s t) (hl : Live g s) : s.Agrees t := by
  -- Results are written for running nodes when they succeed, never over those of nodes that have.
  have hsame : t.expansions = s.expansions → (∀ {q}, s.run.plan.hasSucceeded q = true →
      t.run.plan.result? q = s.run.plan.result? q) → s.Agrees t :=
    fun he hr => ⟨fun hq => he ▸ hq, hr⟩
  cases hm with
  | note r E a l id time hk => exact hsame rfl fun _ => rfl
  | blemish r E e => exact hsame rfl fun _ => rfl
  | collect E hm hf => exact hsame rfl fun _ => rfl
  | enqueue E hp hlimit => exact hsame rfl fun _ => rfl
  | @expand r E id vars p children hE he =>
    have hx := hl.sound.expands hg hE he
    refine ⟨fun {q vars'} hq => ?_, fun _ => ?_⟩
    · have hne : q ≠ id := by
        rintro rfl
        cases hE.symm.trans hq
      exact (Expansions.set_of_ne hne).trans hq
    · exact hx.result? _
  | @conclude r E id w hE =>
    have hagree := Run.agree_release r id
    refine hsame rfl fun {q} hq => ?_
    simp only [Run.conclude]
    split
    next =>
      rw [← hagree.plan] at hq ⊢
      refine Run.result?_settle_of_running ?_ hq
      rw [hagree.plan]
      exact (hl.active rfl).1
    next => rw [hagree.plan]
  | @fail r E id o e hf =>
    refine hsame rfl fun {q} _ => ?_
    show (Run.blame _ _ _).plan.result? q = r.plan.result? q
    rw [Run.plan_blame]
    exact (Plan.skips_markFailed r.plan id e.message).result? q
  | release r E a id l =>
    refine hsame rfl fun _ => ?_
    rw [(Run.agree_release r id).plan]
  | skipIdle r E => exact hsame rfl fun _ => hl.sound.skips_skipIdleResources.result? _
  | @skipAll r E reason ha =>
    exact hsame rfl fun _ => (Plan.skips_skipPending r.plan reason).1.result? _
  | observe E ha hs => exact hsame rfl fun _ => rfl
  | lose E hm hf => exact hsame rfl fun _ => rfl
  | discard E hm hf ho => exact hsame rfl fun _ => rfl
  | @credit r E d hm result time hf owner ho =>
    refine hsame rfl fun {q} hq => ?_
    simp only [Run.credit]
    split
    next => rfl
    next waiting output hd =>
      split
      next => rfl
      next => exact Run.result?_settle_of_running (r := { r.dropDestroy d.number with
          deferred := (r.dropDestroy d.number).deferred.erase owner }) (hl.deferred hd) hq
  | @giveUp r E hd id d hget =>
    exact hsame rfl fun hq => Run.result?_settle_of_running
      (r := { r with deferred := r.deferred.erase id }) (hl.deferred hget) hq
  | @stall r E ha hm hd hr hw =>
    exact hsame rfl fun _ => (Plan.skips_skipPending r.plan Run.stallReason).1.result? _
  | drain E hw hm hd hp =>
    refine hsame rfl fun _ => ?_
    rw [(Run.agree_spawnDestroys none _ _).plan]
  | close E hp hd => exact hsame rfl fun _ => rfl

theorem Begins.agrees (hb : Begins s id t) : s.Agrees t := by
  cases hb
  exact ⟨fun h => h, fun _ => rfl⟩

end Evaluation

/-! ## Coherent stages -/

/-- The work of a node has ended with an output, and its instances are known. -/
def Stage.Yields (b : Behaviour) (s : Stage) (id : NodeId) (output : Option Value) : Prop :=
  ∃ n w, s.run.plan.node? id = some n ∧ b.evaluate s.run.plan id n = .ok w ∧ output = w.output? ∧
    ∀ vars, w = .expanded vars → s.expansions id = some vars

/-- What a stage knows of its nodes is what their evaluation says. -/
structure Stage.Coherent (b : Behaviour) (s : Stage) : Prop where
  deadline : s.run.deadline = none
  stopRequested : s.run.stopRequested = false
  task : ∀ {t}, t ∈ s.run.tasks → t.deadline = none ∧ ∀ n, s.run.plan.node? t.node = some n →
    t.phase.Follows b t.node n.kind (s.run.plan.scopeFor n)
  active : ∀ {id result n}, s.active = some (id, some result) → s.run.plan.node? id = some n →
    result = b.evaluate s.run.plan id n
  deferred : ∀ {id d}, s.run.deferred.get? id = some d → s.Yields b id d.2
  succeeded : ∀ {id}, s.run.plan.hasSucceeded id = true → s.Yields b id (s.run.plan.result? id)
  result : ∀ {id v}, s.run.plan.result? id = some v → s.run.plan.hasSucceeded id = true

/-- No step of a graph has a timeout of its own. -/
def Graph.Untimed (g : Graph) : Prop := ∀ {id n}, g.node? id = some n →
  match n.kind with
  | .step inst => inst.timeoutMs = none
  | .expansion _ template => template.timeoutMs = none
  | .resource _ _ _ => True

section Coherent
variable {g : Graph} {s t : Stage} {b : Behaviour} {id : NodeId} {output : Option Value}

theorem Stage.Yields.later (hg : g.Sound) (h : s.Yields b id output) (ha : s.Agrees t)
    (hs : Live g s) (ht : Live g t) (hst : s.run.plan.hasStarted id = true) :
    t.Yields b id output := by
  obtain ⟨n, w, hn, hw, ho, hE⟩ := h
  obtain ⟨n', hn'⟩ := ha.exists_node hs ht hn
  refine ⟨n', w, hn', ?_, ho, fun vars he => ha.expansions (hE vars he)⟩
  rw [ha.evaluate hg hs ht hn hn' hst]
  exact hw

theorem Stage.Coherent.carry (hg : g.Sound) (h : s.Coherent b) (ha : s.Agrees t) (hs : Live g s)
    (ht : Live g t) (hdeadline : t.run.deadline = s.run.deadline)
    (hstop : t.run.stopRequested = s.run.stopRequested)
    (htask : ∀ u ∈ t.run.tasks, u ∈ s.run.tasks ∨ u.deadline = none ∧
      ∀ n, t.run.plan.node? u.node = some n →
        u.phase.Follows b u.node n.kind (t.run.plan.scopeFor n))
    (hactive : ∀ {x result n}, t.active = some (x, some result) → t.run.plan.node? x = some n →
      result = b.evaluate t.run.plan x n)
    (hdeferred : ∀ {x d}, t.run.deferred.get? x = some d →
      s.run.plan.hasStarted x = true ∧ s.Yields b x d.2)
    (hsucceeded : ∀ {x}, t.run.plan.hasSucceeded x = true →
      s.run.plan.hasStarted x = true ∧ s.Yields b x (t.run.plan.result? x))
    (hresult : ∀ {x v}, t.run.plan.result? x = some v → t.run.plan.hasSucceeded x = true) :
    t.Coherent b := by
  constructor
  case deadline => exact hdeadline.trans h.deadline
  case stopRequested => exact hstop.trans h.stopRequested
  case task =>
    intro u hu
    rcases htask u hu with hu | hnew
    · obtain ⟨hd, hf⟩ := h.task hu
      obtain ⟨n, hn⟩ := hs.node_of_running (hs.task hu).1
      have hstarted : s.run.plan.hasStarted u.node = true :=
        Plan.hasStarted_iff.2 ⟨_, (hs.task hu).1, rfl⟩
      refine ⟨hd, fun n' hn' => ?_⟩
      obtain ⟨hk, hscope⟩ := ha.scopeFor hg hs ht hn hn' hstarted
      rw [hk, hscope]
      exact hf n hn
    · exact hnew
  case active => exact hactive
  case deferred =>
    intro x d hd
    obtain ⟨hst, hy⟩ := hdeferred hd
    exact hy.later hg ha hs ht hst
  case succeeded =>
    intro x hx
    obtain ⟨hst, hy⟩ := hsucceeded hx
    exact hy.later hg ha hs ht hst
  case result => exact hresult

theorem Live.hasStarted_of_deferred (hs : Live g s) {d : Nat × Option Value}
    (hd : s.run.deferred.get? id = some d) : s.run.plan.hasStarted id = true :=
  Plan.hasStarted_iff.2 ⟨_, hs.deferred hd, rfl⟩

/-- The plan stays as it is, while tasks come and go. -/
theorem Stage.Coherent.retask (hg : g.Sound) (h : s.Coherent b) (hs : Live g s) (ht : Live g t)
    (he : t.expansions = s.expansions) (hp : t.run.plan = s.run.plan)
    (hdeadline : t.run.deadline = s.run.deadline)
    (hstop : t.run.stopRequested = s.run.stopRequested)
    (hdeferred : t.run.deferred = s.run.deferred)
    (htask : ∀ u ∈ t.run.tasks, u ∈ s.run.tasks ∨ u.deadline = none ∧
      ∀ n, s.run.plan.node? u.node = some n →
        u.phase.Follows b u.node n.kind (s.run.plan.scopeFor n))
    (hactive : ∀ {x result n}, t.active = some (x, some result) → s.run.plan.node? x = some n →
      result = b.evaluate s.run.plan x n) : t.Coherent b := by
  have ha : s.Agrees t := ⟨fun hq => he ▸ hq, fun _ => by rw [hp]⟩
  refine h.carry hg ha hs ht hdeadline hstop ?_ ?_ ?_ ?_ ?_
  · rw [hp]
    exact htask
  · rw [hp]
    exact hactive
  · intro x d hd
    rw [hdeferred] at hd
    exact ⟨hs.hasStarted_of_deferred hd, h.deferred hd⟩
  · intro x hx
    rw [hp] at hx ⊢
    exact ⟨Plan.hasStarted_of_hasSucceeded hx, h.succeeded hx⟩
  · rw [hp]
    exact h.result

theorem Stage.Coherent.frame (hg : g.Sound) (h : s.Coherent b) (hs : Live g s) (ht : Live g t)
    (he : t.expansions = s.expansions) (hp : t.run.plan = s.run.plan)
    (hdeadline : t.run.deadline = s.run.deadline)
    (hstop : t.run.stopRequested = s.run.stopRequested) (htask : ∀ u ∈ t.run.tasks, u ∈ s.run.tasks)
    (hactive : ∀ {x result}, t.active = some (x, some result) → s.active = some (x, some result))
    (hdeferred : t.run.deferred = s.run.deferred) : t.Coherent b :=
  h.retask hg hs ht he hp hdeadline hstop hdeferred (fun u hu => .inl (htask u hu))
    fun hx hn => h.active (hactive hx) hn

theorem Stage.Coherent.agree (hg : g.Sound) {r r' : Run} {E : Expansions}
    {a : Option (NodeId × Option WorkOutcome)} {l l' : List NodeId}
    (h : (Stage.mk r E a l).Coherent b) (hs : Live g ⟨r, E, a, l⟩) (ht : Live g ⟨r', E, a, l'⟩)
    (ha : Run.Agree r r') : (Stage.mk r' E a l').Coherent b :=
  h.frame hg hs ht rfl ha.plan ha.deadline ha.stopRequested (fun _ hu => ha.tasks ▸ hu) (fun hx => hx)
    ha.deferred

theorem Stage.Coherent.settle (hg : g.Sound) {r r' : Run} {E : Expansions}
    {a : Option (NodeId × Option WorkOutcome)} (h : (Stage.mk r E a []).Coherent b)
    (hs : Live g ⟨r, E, a, []⟩) (hrun : r.plan.status? id = some .running)
    (hy : (Stage.mk r E a []).Yields b id output) (hr' : r' = { r with deferred := r'.deferred }.settle
      id output) (hdef : ∀ {x d}, r'.deferred.get? x = some d → r.deferred.get? x = some d)
    (ht : Live g ⟨r', E, none, []⟩) : (Stage.mk r' E none []).Coherent b := by
  have hplan : r'.plan = (r.settle id output).plan := by rw [hr']; rfl
  have hnot : ∀ v, r.plan.result? id ≠ some v := by
    intro v hv
    cases hrun.symm.trans (Plan.hasSucceeded_iff.1 (h.result hv))
  have hself : (r.settle id output).plan.result? id = output := by
    rw [Run.settle, Plan.result?_markSucceeded]
    cases output with
    | some v => simp
    | none =>
      rw [if_neg (by simp)]
      cases hv : r.plan.result? id with
      | none => rfl
      | some v => exact absurd hv (hnot v)
  have ha : (Stage.mk r E a []).Agrees ⟨r', E, none, []⟩ := by
    refine ⟨fun hq => hq, fun {q} hq => ?_⟩
    show r'.plan.result? q = r.plan.result? q
    rw [hplan]
    exact Run.result?_settle_of_running hrun hq
  refine h.carry hg ha hs ht (by rw [hr']; rfl) (by rw [hr']; rfl) (fun u hu => .inl ?_)
    (fun hx => by cases hx) ?_ ?_ ?_
  · have hu' : u ∈ r'.tasks := hu
    rw [hr'] at hu'
    exact hu'
  · exact fun hd => ⟨hs.hasStarted_of_deferred (hdef hd), h.deferred (hdef hd)⟩
  · intro x hx
    show r.plan.hasStarted x = true ∧ (Stage.mk r E a []).Yields b x (r'.plan.result? x)
    have hx' : r'.plan.hasSucceeded x = true := hx
    rw [hplan] at hx' ⊢
    by_cases hxid : x = id
    · subst hxid
      rw [hself]
      exact ⟨Plan.hasStarted_iff.2 ⟨_, hrun, rfl⟩, hy⟩
    · have hx₀ := ((Run.hasSucceeded_settle hrun).1 hx').resolve_left hxid
      rw [Run.result?_settle hxid]
      exact ⟨Plan.hasStarted_of_hasSucceeded hx₀, h.succeeded hx₀⟩
  · intro x v hx
    show r'.plan.hasSucceeded x = true
    have hx' : r'.plan.result? x = some v := hx
    rw [hplan] at hx' ⊢
    refine (Run.hasSucceeded_settle hrun).2 ?_
    by_cases hxid : x = id
    · exact .inl hxid
    · rw [Run.result?_settle hxid] at hx'
      exact .inr (h.result hx')

theorem Stage.Coherent.undefer (hg : g.Sound) {r : Run} {E : Expansions}
    (h : (Stage.mk r E none []).Coherent b) (hs : Live g ⟨r, E, none, []⟩) {d : Nat × Option Value}
    (hd : r.deferred.get? id = some d) :
    (Stage.mk ({ r with deferred := r.deferred.erase id }.settle id d.2) E none []).Coherent b := by
  refine h.settle hg hs (hs.deferred hd) (h.deferred hd) rfl ?_ (hs.settle_deferred hg hd _)
  intro x d' hx
  have hx' : (r.deferred.erase id).get? x = some d' := hx
  rw [SortedMap.get?_erase] at hx'
  split at hx'
  next => cases hx'
  next => exact hx'

theorem Stage.Coherent.defer (hg : g.Sound) {r : Run} {E : Expansions}
    {a : Option (NodeId × Option WorkOutcome)} (h : (Stage.mk r E a []).Coherent b)
    (hs : Live g ⟨r, E, a, []⟩) (k : Nat)
    (ht : Live g ⟨{ r with deferred := r.deferred.insert id (k, output) }, E, none, []⟩)
    (hrun : r.plan.status? id = some .running) (hy : (Stage.mk r E a []).Yields b id output) :
    (Stage.mk { r with deferred := r.deferred.insert id (k, output) } E none []).Coherent b := by
  refine h.carry hg ⟨fun hq => hq, fun _ => rfl⟩ hs ht rfl rfl (fun u hu => .inl hu)
    (fun hx => by cases hx) ?_ ?_ h.result
  · intro x d hd
    have hd' : (r.deferred.insert id (k, output)).get? x = some d := hd
    rw [SortedMap.get?_insert] at hd'
    by_cases hxid : x = id
    · rw [if_pos hxid] at hd'
      cases hd'
      rw [hxid]
      exact ⟨Plan.hasStarted_iff.2 ⟨_, hrun, rfl⟩, hy⟩
    · rw [if_neg hxid] at hd'
      exact ⟨hs.hasStarted_of_deferred hd', h.deferred hd'⟩
  · exact fun hx => ⟨Plan.hasStarted_of_hasSucceeded hx, h.succeeded hx⟩

theorem Stage.Coherent.skips (hg : g.Sound) {r : Run} {E : Expansions} {p' : Plan} {reason : String}
    {ids l : List NodeId} (h : (Stage.mk r E none []).Coherent b) (hs : Live g ⟨r, E, none, []⟩)
    (hsk : Plan.Skips reason r.plan ids p') (ht : Live g ⟨{ r with plan := p' }, E, none, l⟩) :
    (Stage.mk { r with plan := p' } E none l).Coherent b := by
  refine h.carry hg ⟨fun hq => hq, fun _ => hsk.result? _⟩ hs ht rfl rfl (fun u hu => .inl hu)
    (fun hx => by cases hx) ?_ ?_ ?_
  · exact fun hd => ⟨hs.hasStarted_of_deferred hd, h.deferred hd⟩
  · intro x hx
    have hx' : p'.hasSucceeded x = true := hx
    rw [hsk.hasSucceeded] at hx'
    refine ⟨Plan.hasStarted_of_hasSucceeded hx', ?_⟩
    show (Stage.mk r E none []).Yields b x (p'.result? x)
    rw [hsk.result?]
    exact h.succeeded hx'
  · intro x v hx
    have hx' : p'.result? x = some v := hx
    rw [hsk.result?] at hx'
    show p'.hasSucceeded x = true
    rw [hsk.hasSucceeded]
    exact h.result hx'

theorem Stage.Coherent.yields_active {r : Run} {E : Expansions} {w : WorkResult}
    (h : (Stage.mk r E (some (id, some (.ok w))) []).Coherent b)
    (hs : Live g ⟨r, E, some (id, some (.ok w)), []⟩)
    (hE : ∀ vars, w = .expanded vars → E id = some vars) :
    (Stage.mk r E (some (id, some (.ok w))) []).Yields b id w.output? := by
  obtain ⟨n, hn⟩ := hs.node_of_running (hs.active rfl).1
  exact ⟨n, w, hn, (h.active rfl hn).symm, rfl, hE⟩

theorem Graph.Untimed.deadlineOf (hg : g.Untimed) {r : Run} {E : Expansions}
    (hs : r.plan.Sound g E) (hd : r.deadline = none) {n : Node} (hn : r.plan.node? id = some n) :
    r.deadlineOf n.kind = none := by
  obtain ⟨bs, hbp, -⟩ := hs.unfolds.known hn
  generalize n.kind = kind at hbp
  cases hbp with
  | @declared _ m h =>
    have ht := hg h
    generalize m.kind = kind at ht
    cases kind with
    | step inst =>
      have ht' : inst.timeoutMs = none := ht
      simp only [Run.deadlineOf, ht', hd]
    | resource name kindName arguments => exact hd
    | expansion replication template => exact hd
  | @spliced _ m replication template vars i v h hk hE hv =>
    have ht := hg h
    rw [hk] at ht
    have ht' : (template.instantiate i v).timeoutMs = none := ht
    simp only [Run.deadlineOf, ht', hd]

/-! ## Coherence along a run -/

theorem Stage.Coherent.collect (hg : g.Sound) {r : Run} {E : Expansions}
    (h : (Stage.mk r E none []).Coherent b) (hs : Live g ⟨r, E, none, []⟩) {u : Task}
    (hm : u ∈ r.tasks) {result : WorkOutcome} {time : Nat} (hf : u.phase = .finished result time)
    (ht : Live g ⟨r.dropTask u.number, E, some (u.node, some result), []⟩) :
    (Stage.mk (r.dropTask u.number) E (some (u.node, some result)) []).Coherent b := by
  refine h.retask hg hs ht rfl rfl rfl rfl rfl (fun v hv => .inl (List.mem_of_mem_filter hv)) ?_
  intro x result' n hx hnode
  cases hx
  have hfollows := (h.task hm).2 n hnode
  rw [hf] at hfollows
  exact hfollows

theorem Stage.Coherent.enqueue (hg : g.Sound) (hu : g.Untimed) {r : Run} {E : Expansions}
    (h : (Stage.mk r E (some (id, none)) []).Coherent b) (hs : Live g ⟨r, E, some (id, none), []⟩)
    {u : Task} (hp : r.prepare id = .ok u)
    (ht : Live g ⟨{ r with tasks := r.tasks ++ [u], next := r.next + 1 }, E, none, []⟩) :
    (Stage.mk { r with tasks := r.tasks ++ [u], next := r.next + 1 } E none []).Coherent b := by
  refine h.retask hg hs ht rfl rfl rfl rfl rfl (fun v hv => ?_) fun hx => by cases hx
  rcases List.mem_append.1 hv with hv | hv
  · exact .inl hv
  · right
    obtain ⟨node, scope, work, hnode, hscope, -, rfl⟩ := Run.prepare_eq_ok hp
    rw [List.mem_singleton.1 hv]
    refine ⟨hu.deadlineOf hs.sound h.deadline hnode, fun n hn' => ?_⟩
    cases hnode.symm.trans hn'
    exact hscope

theorem Stage.Coherent.expand (hg : g.Sound) {r : Run} {E : Expansions} {vars : List LoopVars}
    {p : Plan} {children : List NodeId}
    (h : (Stage.mk r E (some (id, some (.ok (.expanded vars)))) []).Coherent b)
    (hs : Live g ⟨r, E, some (id, some (.ok (.expanded vars))), []⟩) (hE : E id = none)
    (he : r.plan.expand id vars = .ok (p, children))
    (ht : Live g ⟨{ r with plan := p }.addConsumers children, E.set id vars,
      some (id, some (.ok (.expanded vars))), []⟩) :
    (Stage.mk ({ r with plan := p }.addConsumers children) (E.set id vars)
      (some (id, some (.ok (.expanded vars)))) []).Coherent b := by
  have ha := (Moves.expand hE he).agrees hg hs
  have hx := hs.sound.expands hg hE he
  have hsucc : ∀ {x}, p.hasSucceeded x = r.plan.hasSucceeded x := hx.hasSucceeded hs.sound
  refine h.carry hg ha hs ht rfl rfl (fun v hv => .inl hv) ?_ ?_ ?_ ?_
  · -- the placeholder runs, so that its evaluation is still that of before
    intro x result n' hxa hn'
    cases hxa
    obtain ⟨n, hnode⟩ := hs.node_of_running hx.running
    rw [ha.evaluate hg hs ht hnode hn' (Plan.hasStarted_iff.2 ⟨_, hx.running, rfl⟩)]
    exact h.active rfl hnode
  · exact fun hd => ⟨hs.hasStarted_of_deferred hd, h.deferred hd⟩
  · intro x hxs
    have hxs' := hsucc.symm.trans hxs
    refine ⟨Plan.hasStarted_of_hasSucceeded hxs', ?_⟩
    show (Stage.mk r E _ []).Yields b x (p.result? x)
    rw [hx.result?]
    exact h.succeeded hxs'
  · intro x v hxv
    have hxv' : p.result? x = some v := hxv
    rw [hx.result?] at hxv'
    exact hsucc.trans (h.result hxv')

theorem Stage.Coherent.conclude (hg : g.Sound) {r : Run} {E : Expansions} {w : WorkResult}
    (h : (Stage.mk r E (some (id, some (.ok w))) []).Coherent b)
    (hs : Live g ⟨r, E, some (id, some (.ok w)), []⟩)
    (hE : ∀ vars, w = .expanded vars → E id = some vars)
    (ht : Live g ⟨r.conclude id w.output?, E, none, []⟩) :
    (Stage.mk (r.conclude id w.output?) E none []).Coherent b := by
  have hagree := Run.agree_release r id
  have hrel := hs.agree hagree
  have hcoh := h.agree hg hs hrel hagree
  have hy := hcoh.yields_active hrel hE
  simp only [Run.conclude] at ht ⊢
  split at ht
  next hw =>
    rw [if_pos hw]
    exact hcoh.settle hg hrel (hrel.active rfl).1 hy rfl (fun hd => hd) ht
  next hw =>
    rw [if_neg hw]
    exact hcoh.defer hg hrel _ ht (hrel.active rfl).1 hy

theorem Stage.Coherent.credit (hg : g.Sound) {r : Run} {E : Expansions}
    (h : (Stage.mk r E none []).Coherent b) (hs : Live g ⟨r, E, none, []⟩) {owner : NodeId}
    (ht : Live g ⟨r.credit owner, E, none, []⟩) : (Stage.mk (r.credit owner) E none []).Coherent b := by
  simp only [Run.credit] at ht ⊢
  split
  next => exact h
  next waiting output hget =>
    rw [hget] at ht
    split
    next hw =>
      simp only [if_pos hw] at ht
      exact h.defer hg hs _ ht (hs.deferred hget) (h.deferred hget)
    next => exact h.undefer hg hs hget

theorem Moves.coherent (hg : g.Sound) (hu : g.Untimed) (hm : Moves s t) (hn : s.run.Numbered)
    (hs : Live g s) (h : s.Coherent b) (hsmooth : t.Smooth) : t.Coherent b := by
  have ht := hm.live hg hn hs
  cases hm with
  | note r E a l id time hk => exact h.agree hg hs ht (Run.Agree.note r id _ time)
  | blemish r E e => exact h.frame hg hs ht rfl rfl rfl rfl (fun _ hu => hu) (fun hx => hx) rfl
  | collect E hm hf => exact h.collect hg hs hm hf ht
  | enqueue E hp hlimit => exact h.enqueue hg hu hs hp ht
  | expand hE he => exact h.expand hg hs hE he ht
  | conclude r hE => exact h.conclude hg hs hE ht
  -- A smooth run still accepts, so it neither fails nor is cancelled nor stalls.
  | fail hf =>
    have hacc := hsmooth.accepting
    rw [Run.accepting_blame] at hacc
    cases hacc
  | skipAll E reason hacc =>
    have hacc' : _ = true := hsmooth.accepting
    cases hacc.symm.trans hacc'
  | observe E hacc hstop =>
    have hacc' := hsmooth.accepting
    simp [Run.accepting] at hacc'
  | stall E hacc hm hd hr hw => exact absurd hsmooth.stalled (hs.skipPending_ne_nil hm hd hw _)
  | release r E a id l => exact h.agree hg hs ht (Run.agree_release r id)
  | skipIdle r E => exact h.skips hg hs hs.sound.skips_skipIdleResources ht
  | lose E hm hf => exact h.frame hg hs ht rfl rfl rfl rfl (fun _ hu => hu) (fun hx => hx) rfl
  | discard E hm hf ho => exact h.frame hg hs ht rfl rfl rfl rfl (fun _ hu => hu) (fun hx => hx) rfl
  | @credit r E d hm result time hf owner ho =>
    have hd : Live g ⟨r.dropDestroy d.number, E, none, []⟩ := hs.frame rfl rfl rfl rfl
    have hcoh : (Stage.mk (r.dropDestroy d.number) E none []).Coherent b :=
      h.frame hg hs hd rfl rfl rfl rfl (fun _ hu => hu) (fun hx => hx) rfl
    exact hcoh.credit hg hd ht
  | giveUp E hd hget => exact h.undefer hg hs hget
  | @drain r E hw hm hd hp =>
    have hagree := Run.agree_spawnDestroys none
      { r with slots := r.slots.drain.2, phase := .tearingDown } r.slots.drain.1
    exact h.frame hg hs ht rfl hagree.plan hagree.deadline hagree.stopRequested
      (fun _ hu => hagree.tasks ▸ hu) (fun hx => hx) hagree.deferred
  | close E hp hd => exact h.frame hg hs ht rfl rfl rfl rfl (fun _ hu => hu) (fun hx => hx) rfl

theorem Begins.coherent (hg : g.Sound) (hb : Begins s id t) (hs : Live g s) (h : s.Coherent b) :
    t.Coherent b := by
  have ht := hb.live hs
  have ha := hb.agrees
  cases hb with
  | @mk r E id hacc hlimit hr =>
    have hp := Plan.isPending_of_isReady hr
    have hsucc : ∀ {x}, (r.begun id).plan.hasSucceeded x = r.plan.hasSucceeded x :=
      Plan.hasSucceeded_markRunning hp
    refine h.carry hg ha hs ht rfl rfl (fun u hu => .inl hu) (fun hx => by cases hx) ?_ ?_ ?_
    · exact fun hd => ⟨hs.hasStarted_of_deferred hd, h.deferred hd⟩
    · intro x hx
      have hx' : (r.begun id).plan.hasSucceeded x = true := hx
      rw [hsucc] at hx'
      exact ⟨Plan.hasStarted_of_hasSucceeded hx', h.succeeded hx'⟩
    · exact fun hx => hsucc.trans (h.result hx)

namespace Run

theorem Works.coherent {r r' : Run} {e : Event} {E : Expansions} (hg : g.Sound) (hw : Works r e r')
    (hn : r.Numbered) (hs : Live g ⟨r, E, none, []⟩) (hstock : (Stage.mk r E none []).Stocked)
    (hR : r.settings.registry.Follows b) (h : (Stage.mk r E none []).Coherent b)
    (he : e ≠ .requestStop) : (Stage.mk r' E none []).Coherent b := by
  have ht := hw.live hn hs
  cases hw with
  | callDestroy hd hq hc => exact h.frame hg hs ht rfl rfl rfl rfl (fun _ hu => hu) (fun hx => hx) rfl
  | answerDestroy hd hw hc =>
    exact h.frame hg hs ht rfl rfl rfl rfl (fun _ hu => hu) (fun hx => hx) rfl
  | requestStop => exact absurd rfl he
  | advance htime => exact h.frame hg hs ht rfl rfl rfl rfl (fun _ hu => hu) (fun hx => hx) rfl
  | @task u e phase w slots hu hm =>
    refine h.carry hg ⟨fun hq => hq, fun _ => rfl⟩ hs ht rfl rfl (fun v hv => ?_)
      (fun hx => by cases hx) ?_ ?_ h.result
    · obtain ⟨v', hv', ⟨-, rfl⟩ | ⟨hnum, rfl⟩⟩ := mem_setTaskPhase hv
      · exact .inl hv'
      · right
        obtain rfl := Numbering.eq_of_number hn.tasks hv' hu hnum
        obtain ⟨hd, hf⟩ := h.task hu
        obtain ⟨n, hnode, hfits⟩ := hs.fits hu
        refine ⟨hd, fun n' hn' => ?_⟩
        cases hnode.symm.trans hn'
        refine hm.follows hR h.stopRequested hd hfits (hf n hnode) ?_ ?_
        · intro scope name kind arguments hq
          exact needsCreation_of_creating hs hstock hu
            (node_of_creating hg hs hu (.inr ⟨scope, kind, arguments, hq⟩)) (by simp [hq])
        · intro wake name act hw
          exact needsCreation_of_creating hs hstock hu
            (node_of_creating hg hs hu (.inl ⟨wake, act, hw⟩)) (by simp [hw])
    · exact fun hd => ⟨hs.hasStarted_of_deferred hd, h.deferred hd⟩
    · exact fun hx => ⟨Plan.hasStarted_of_hasSucceeded hx, h.succeeded hx⟩

theorem coherent_new (g : Graph) (registry : Registry) (limit : Nat) (b : Behaviour) :
    (Stage.mk (new ⟨registry, limit, none⟩ g false) .none none []).Coherent b where
  deadline := rfl
  stopRequested := rfl
  task := fun ht => by cases ht
  active := fun hx => by cases hx
  deferred := fun hd => by cases hd
  succeeded := by
    intro id hx
    have hst : (Plan.ofGraph g).status? id = some .succeeded := Plan.hasSucceeded_iff.1 hx
    rw [Plan.status?, Plan.ofGraph, SortedMap.get?_mapValues] at hst
    obtain ⟨m, -, hst⟩ := Option.map_eq_some_iff.1 hst
    cases hst
  result := fun hx => by cases hx

end Run

end Coherent

end Workplan
