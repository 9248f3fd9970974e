import Workplan.Proofs.Plan.Persistence
import Workplan.Proofs.Plan.Readiness
import Workplan.Proofs.Plan.Scoping

/-! Clean plans: nothing has failed, and nothing has been skipped but resources whose users have all ended.
As long as nothing fails and nobody skips what is pending, a plan stays clean: the instances of a running
placeholder use what it uses, so that no resource gets a new user after it has been skipped. A plan is tidy
when the converse holds as well: each resource that is still to be created has a user that has not ended. -/
namespace Workplan
set_option autoImplicit false

/-! ## Users of resources -/

/-- A node of the plan uses the resource with a name. -/
def Plan.Uses (p : Plan) (x : NodeId) (name : String) : Prop :=
  ∃ n, p.node? x = some n ∧ name ∈ n.kind.uses

theorem NodeMap.Unfolds.resource_mem_predecessors {g : Graph} {E : Expansions} {nodes : NodeMap}
    (hg : g.Sound) (h : nodes.Unfolds g E) {id : NodeId} {n : Node} (hn : nodes.get? id = some n)
    (hx : n.kind.isExpansion = false) {name : String} (hu : name ∈ n.kind.uses) :
    NodeId.resource name ∈ n.predecessors := by
  have hres : NodeId.resource name ∈ n.resources := (h.mem_resources hn hg).2 ⟨name, hu, rfl⟩
  obtain ⟨b, hb, hq⟩ := List.mem_flatMap.1 hres
  refine (h.mem_predecessors hn).2 ⟨b, (List.mem_filter.1 hb).1, ?_, hq⟩
  simp [Node.gates, hx]

theorem NodeMap.Unfolds.uses_of_mem_predecessors {g : Graph} {E : Expansions} {nodes : NodeMap}
    (hg : g.Sound) (h : nodes.Unfolds g E) {id : NodeId} {n : Node} (hn : nodes.get? id = some n)
    {name : String} (hm : NodeId.resource name ∈ n.predecessors) :
    name ∈ n.kind.uses ∧ n.kind.isExpansion = false := by
  obtain ⟨b, hb, hgate, hq⟩ := (h.mem_predecessors hn).1 hm
  have hrole : b.role = .uses := by
    by_contra hrole
    have := h.not_isResource hg hn hb hrole hq
    rw [NodeId.isResource_resource] at this
    cases this
  obtain ⟨name', hname, hprod⟩ := h.producers_of_uses hn hg hb hrole
  rw [hprod] at hq
  obtain rfl := NodeId.resource_inj (List.mem_singleton.1 hq)
  refine ⟨hname, ?_⟩
  simpa [Node.gates, hrole] using hgate

/-! ## Clean plans -/

/-- No node has failed, and the resources that have been skipped have no use any more. -/
structure Plan.Clean (p : Plan) : Prop where
  failed : ∀ {id message}, p.status? id ≠ some (.failed message)
  skipped : ∀ {id reason}, p.status? id = some (.skipped reason) → reason = Plan.idleReason ∧
    ∃ name, id = NodeId.resource name ∧
      ∀ x, p.Uses x name → ∃ st, p.status? x = some st ∧ st.isTerminal = true

namespace Plan.Clean
variable {g : Graph} {E : Expansions} {p p' : Plan} {id : NodeId}

theorem ofGraph (g : Graph) : (Plan.ofGraph g).Clean := by
  have hpend : ∀ {id st}, (Plan.ofGraph g).status? id = some st → st = .pending := by
    intro id st hst
    rw [Plan.status?, Plan.ofGraph, SortedMap.get?_mapValues] at hst
    obtain ⟨m, -, hst⟩ := Option.map_eq_some_iff.1 hst
    exact hst.symm
  constructor
  · intro id message hx
    cases hpend hx
  · intro id reason hx
    cases hpend hx

theorem mono (h : p.Clean) (hev : p.Evolves p')
    (hfailed : ∀ {x message}, p'.status? x = some (.failed message) →
      p.status? x = some (.failed message))
    (hskipped : ∀ {x reason}, p'.status? x = some (.skipped reason) →
      p.status? x = some (.skipped reason))
    (huses : ∀ {id reason x name}, p.status? id = some (.skipped reason) →
      id = NodeId.resource name → p'.Uses x name → p.Uses x name) : p'.Clean := by
  constructor
  · intro x message hx
    exact h.failed (hfailed hx)
  · intro x reason hx
    obtain ⟨hreason, name, hname, hall⟩ := h.skipped (hskipped hx)
    refine ⟨hreason, name, hname, fun y hy => ?_⟩
    obtain ⟨st, hst, hterm⟩ := hall y (huses (hskipped hx) hname hy)
    exact ⟨st, hev.final hst hterm, hterm⟩

theorem congr (h : p.Clean) (hn : p'.nodes = p.nodes) (hs : p'.statuses = p.statuses) : p'.Clean := by
  cases p
  cases p'
  cases hn
  cases hs
  exact ⟨h.failed, h.skipped⟩

theorem setStatus (h : p.Clean) {st st' : NodeStatus} (hst : p.status? id = some st)
    (ht : st.isTerminal = false) (hst' : st' = .running ∨ st' = .succeeded) :
    (p.setStatus id st').Clean := by
  have hstarted : st'.isStarted = true := by
    rcases hst' with rfl | rfl
    · rfl
    · rfl
  have hother : ∀ {x st''}, (p.setStatus id st').status? x = some st'' → st'' ≠ st' →
      p.status? x = some st'' := by
    intro x st'' hx hne
    rw [status?_setStatus] at hx
    by_cases hxid : x = id
    · rw [if_pos hxid, hxid, hst] at hx
      exact absurd (Option.some.inj hx).symm hne
    · rw [if_neg hxid] at hx
      exact hx
  refine h.mono (evolves_setStatus hst ht hstarted) (fun hx => hother hx ?_) (fun hx => hother hx ?_)
    fun _ _ hu => hu
  · rintro rfl
    rcases hst' with he | he <;> cases he
  · rintro rfl
    rcases hst' with he | he <;> cases he

theorem markSucceeded (h : p.Clean) (hst : p.status? id = some .running) (output : Option Value) :
    (p.markSucceeded id output).Clean := by
  have hs : (p.setStatus id .succeeded).Clean := h.setStatus hst rfl (.inr rfl)
  cases output with
  | none => exact hs
  | some v => exact hs.congr rfl rfl

theorem expand (h : p.Clean) (hs : p.Sound g E) {vars : List LoopVars} {children : List NodeId}
    (hx : Expands p id vars children p') (hnode : ∃ n, p.node? id = some n) : p'.Clean := by
  obtain ⟨n, hn⟩ := hnode
  refine h.mono (hs.evolves_of_expands hx) (hx.status_iff hs (by simp)).1
    (hx.status_iff hs (by simp)).1 ?_
  rintro x reason y name hst rfl ⟨m', hm', hname⟩
  rcases hx.known hm' with hc | ⟨m, hm⟩
  · -- the placeholder is still running, so that nothing that it uses has been skipped
    rw [(hx.child hc hn hm').1] at hname
    obtain ⟨-, name', he, hall⟩ := h.skipped hst
    obtain rfl := NodeId.resource_inj he
    obtain ⟨st, hst', hterm⟩ := hall id ⟨n, hn, hname⟩
    cases hx.running.symm.trans hst'
    cases hterm
  · obtain ⟨m'', hm'', hk, -⟩ := hx.kept hm
    cases hm'.symm.trans hm''
    exact ⟨m, hm, hk ▸ hname⟩

theorem skipIdle (hg : g.Sound) (h : p.Clean) (hs : p.Sound g E) : p.skipIdleResources.1.Clean := by
  have hsk := hs.skips_skipIdleResources
  have huses : ∀ {x name}, p.skipIdleResources.1.Uses x name → p.Uses x name := by
    rintro x name ⟨n, hn, hname⟩
    exact ⟨n, (hsk.node? x).symm.trans hn, hname⟩
  constructor
  · intro x message hx
    rw [hsk.status] at hx
    split at hx
    next => cases hx
    next => exact h.failed hx
  · intro x reason hx
    rw [hsk.status] at hx
    split at hx
    next hm =>
      cases hx
      obtain ⟨n, hn, hk, hp, hlive⟩ := hs.mem_idleResources.1 hm
      obtain ⟨name, hname⟩ := hs.unfolds.exists_eq_resource hn hg hk
      refine ⟨rfl, name, hname, fun y hy => ?_⟩
      obtain ⟨m, hm, hused⟩ := huses hy
      obtain ⟨st, hst⟩ := hs.status.2 ⟨m, hm⟩
      have hterm : st.isTerminal = true := by
        by_contra hterm
        refine hlive (List.mem_flatMap.2 ⟨m, List.mem_filter.2 ⟨SortedMap.mem_values.2 ⟨y, hm⟩, ?_⟩,
          (hs.unfolds.mem_resources hm hg).2 ⟨name, hused, hname⟩⟩)
        have hid : m.id = y := hs.unfolds.linked.id_eq hm
        rw [hid, isUnfinished, hst]
        simpa using hterm
      exact ⟨st, hsk.evolves.final hst hterm, hterm⟩
    next =>
      obtain ⟨hreason, name, hname, hall⟩ := h.skipped hx
      refine ⟨hreason, name, hname, fun y hy => ?_⟩
      obtain ⟨st, hst, hterm⟩ := hall y (huses hy)
      exact ⟨st, hsk.evolves.final hst hterm, hterm⟩

end Plan.Clean

/-! ## Tidy plans -/

/-- Every pending resource has a user that has not reached its final status. -/
def Plan.Tidy (p : Plan) : Prop := ∀ name, p.isPending (NodeId.resource name) = true →
  ∃ x st, p.Uses x name ∧ p.status? x = some st ∧ st.isTerminal = false

namespace Plan.Tidy
variable {g : Graph} {E : Expansions} {p p' : Plan} {id : NodeId}

theorem congr (h : p.Tidy) (hn : p'.nodes = p.nodes) (hs : p'.statuses = p.statuses) : p'.Tidy := by
  cases p
  cases p'
  cases hn
  cases hs
  exact h

theorem ofGraph (hg : g.Sound) : (Plan.ofGraph g).Tidy := by
  intro name hp
  have hs := Sound.ofGraph hg
  obtain ⟨n, hn⟩ := hs.node_of_isPending hp
  have hk : n.kind.isResource = true := by
    have hid := hg.isResource hn
    rw [← hid, NodeId.isResource_resource]
  have hused : ∃ q m, g.node? q = some m ∧ NodeId.resource name ∈ m.resources := hg.used hn hk
  obtain ⟨q, m, hm, hmem⟩ := hused
  obtain ⟨name', hname, he⟩ := (hs.unfolds.mem_resources hm hg).1 hmem
  obtain rfl := NodeId.resource_inj he
  refine ⟨q, .pending, ⟨m, hm, hname⟩, ?_, rfl⟩
  have hm' : g.nodes.get? q = some m := hm
  rw [Plan.status?, Plan.ofGraph, SortedMap.get?_mapValues, hm']
  rfl

/-- A node gets another status; if it is final, none of the resources that it uses may be pending. -/
theorem setStatus (h : p.Tidy) {st : NodeStatus} (hst : st ≠ .pending)
    (huses : st.isTerminal = true → ∀ name, p.Uses id name →
      p.isPending (NodeId.resource name) = false) : (p.setStatus id st).Tidy := by
  intro name hp
  have hpend : p.isPending (NodeId.resource name) = true := by
    rw [isPending_iff, status?_setStatus] at hp
    split at hp
    next =>
      obtain ⟨_, -, rfl⟩ := Option.map_eq_some_iff.1 hp
      exact absurd rfl hst
    next => exact isPending_iff.2 hp
  obtain ⟨x, st', hx, hst', hterm⟩ := h name hpend
  by_cases hid : x = id
  · subst hid
    refine ⟨x, st, hx, by rw [status?_setStatus, if_pos rfl, hst']; rfl, ?_⟩
    rw [Bool.eq_false_iff]
    intro hend
    rw [huses hend name hx] at hpend
    cases hpend
  · exact ⟨x, st', hx, by rw [status?_setStatus, if_neg hid, hst'], hterm⟩

theorem markRunning (h : p.Tidy) (id : NodeId) : (p.markRunning id).Tidy :=
  h.setStatus (by simp) fun hend => by cases hend

theorem foldl_markRunning (h : p.Tidy) (ids : List NodeId) : (ids.foldl Plan.markRunning p).Tidy := by
  induction ids generalizing p with
  | nil => exact h
  | cons id ids ih => exact ih (h.markRunning id)

theorem markSucceeded (h : p.Tidy) (hg : g.Sound) (hs : p.Sound g E)
    (hrun : p.status? id = some .running)
    (hk : ∀ n, p.node? id = some n → n.kind.isExpansion = false) (output : Option Value) :
    (p.markSucceeded id output).Tidy := by
  have hset : (p.setStatus id .succeeded).Tidy := by
    refine h.setStatus (by simp) fun _ name ⟨n, hn, hname⟩ => ?_
    have hpred := hs.unfolds.resource_mem_predecessors hg hn (hk n hn) hname
    have hsucc := hs.gated hn (hasStarted_iff.2 ⟨_, hrun, rfl⟩) hpred
    rw [Bool.eq_false_iff]
    intro hp
    cases (isPending_iff.1 hp).symm.trans (hasSucceeded_iff.1 hsucc)
  cases output with
  | none => exact hset
  | some v => exact hset.congr rfl rfl

end Plan.Tidy

theorem Plan.Sound.tidy_skipIdleResources {g : Graph} {E : Expansions} {p : Plan} (hs : p.Sound g E)
    (hg : g.Sound) : p.skipIdleResources.1.Tidy := by
  have hskips := hs.skips_skipIdleResources
  intro name hp
  obtain ⟨hpend, hnot⟩ := hskips.isPending.1 hp
  obtain ⟨n, hn⟩ := hs.node_of_isPending hpend
  have hk : n.kind.isResource = true := by
    rw [← hs.unfolds.isResource_eq hn hg, NodeId.isResource_resource]
  have hlive : NodeId.resource name ∈ p.liveResources := by
    by_contra hno
    exact hnot (hs.mem_idleResources.2 ⟨n, hn, hk, hpend, hno⟩)
  obtain ⟨m, hm, hmem⟩ := List.mem_flatMap.1 hlive
  obtain ⟨hval, hunf⟩ := List.mem_filter.1 hm
  obtain ⟨x, hx⟩ := SortedMap.mem_values.1 hval
  obtain rfl : m.id = x := hs.unfolds.linked.id_eq hx
  obtain ⟨name', hname, he⟩ := (hs.unfolds.mem_resources hx hg).1 hmem
  obtain rfl := NodeId.resource_inj he
  obtain ⟨st, hst⟩ := hs.status.2 ⟨m, hx⟩
  rw [Plan.isUnfinished, hst] at hunf
  -- only resources are skipped, and those use nothing
  have hkept : m.id ∉ p.skipIdleResources.2 := by
    intro hid
    obtain ⟨m', hm', hk', -⟩ := hs.mem_idleResources.1 hid
    cases (show p.node? m.id = some m from hx).symm.trans hm'
    rw [NodeKind.isResource_of_mem_uses hname] at hk'
    cases hk'
  refine ⟨m.id, st, ⟨m, ?_, hname⟩, ?_, by simpa using hunf⟩
  · exact (hskips.node? m.id).trans hx
  · rw [hskips.status, if_neg hkept, hst]

/-! ## Paused plans -/

/-- Nothing has gone wrong, and no node is running. -/
structure Plan.Paused (p : Plan) : Prop where
  clean : p.Clean
  running : ∀ {id}, p.status? id ≠ some .running

namespace Plan.Paused
variable {g : Graph} {E : Expansions} {p : Plan} {id : NodeId} {n : Node}

theorem hasSucceeded (h : p.Paused) (hg : g.Sound) (hs : p.Sound g E) (hn : p.node? id = some n)
    (hk : n.kind.isResource = false) (hp : p.isPending id = false) : p.hasSucceeded id = true := by
  obtain ⟨st, hst⟩ := hs.status.2 ⟨n, hn⟩
  have hst' : p.status? id = some st := hst
  cases st with
  | pending => rw [isPending_iff.2 hst'] at hp; cases hp
  | running => exact absurd hst' h.running
  | succeeded => exact hasSucceeded_iff.2 hst'
  | failed message => exact absurd hst' h.clean.failed
  | skipped reason =>
    obtain ⟨-, name, rfl, -⟩ := h.clean.skipped hst'
    rw [← hs.unfolds.isResource_eq hn hg, NodeId.isResource_resource] at hk
    cases hk

theorem hasSucceeded_resource (h : p.Paused) {name : String}
    (hn : ∃ s, p.status? (NodeId.resource name) = some s) {c : NodeId} (hc : p.isPending c = true)
    (hu : p.Uses c name) (hp : p.isPending (NodeId.resource name) = false) :
    p.hasSucceeded (NodeId.resource name) = true := by
  obtain ⟨st, hst⟩ := hn
  cases st with
  | pending => rw [isPending_iff.2 hst] at hp; cases hp
  | running => exact absurd hst h.running
  | succeeded => exact hasSucceeded_iff.2 hst
  | failed message => exact absurd hst h.clean.failed
  | skipped reason =>
    obtain ⟨-, name', he, hall⟩ := h.clean.skipped hst
    obtain rfl := NodeId.resource_inj he
    obtain ⟨st, hst', hterm⟩ := hall c hu
    cases hst'.symm.trans (isPending_iff.1 hc)
    cases hterm

end Plan.Paused

/-- A pending resource of which the predecessors have succeeded is ready when a pending node waits for it
and for nothing but resources. -/
theorem Plan.Sound.isReady_resource {g : Graph} {E : Expansions} {p : Plan} (hs : p.Sound g E)
    {id : NodeId} {n : Node} (hn : p.node? id = some n) (hp : p.isPending id = true)
    (hq : ∀ q ∈ n.predecessors, p.hasSucceeded q = true) {c : NodeId} {m : Node}
    (hm : p.node? c = some m) (hc : p.isPending c = true) (hmem : id ∈ m.predecessors)
    (hawaits : p.Awaits m) : p.isReady id = true := by
  apply isReady_iff.2 ⟨hp, n, hn, hq, fun _ => ?_⟩
  apply isDemanded_iff.2 ⟨c, ?_, hc, m, hm, hawaits⟩
  exact (hs.unfolds.linked.mem_successors hn).2 ⟨m, hm, hmem⟩

end Workplan
