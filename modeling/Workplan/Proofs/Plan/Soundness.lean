import Workplan.Proofs.Plan.Expansion
import Workplan.Proofs.Plan.Statuses

/-! Sound plans: what holds of the plan of a graph after any number of operations. The scan order and the
statuses cover the nodes, a node has started only behind its predecessors, and only started placeholders
have been expanded. Every operation keeps that. -/
namespace Workplan
open Outcome
set_option autoImplicit false

namespace Plan

/-- What holds of a plan of which some placeholders have been expanded. -/
structure Sound (g : Graph) (E : Expansions) (p : Plan) : Prop where
  unfolds : p.nodes.Unfolds g E
  status : ∀ {id}, (∃ s, p.status? id = some s) ↔ ∃ n, p.node? id = some n
  order_nodup : p.order.Nodup
  mem_order : ∀ {id}, id ∈ p.order ↔ ∃ n, p.node? id = some n
  gated : ∀ {id n q}, p.node? id = some n → p.hasStarted id = true → q ∈ n.predecessors →
    p.hasSucceeded q = true
  opened : ∀ {id vars}, E id = some vars → p.hasStarted id = true

theorem Sound.ofGraph {g : Graph} (hg : g.Sound) : (ofGraph g).Sound g Expansions.none where
  unfolds := NodeMap.Unfolds.start hg
  status := by
    intro id
    simp only [status?, node?, Plan.ofGraph, SortedMap.get?_mapValues]
    cases g.nodes.get? id <;> simp
  order_nodup := hg.ordered.nodup
  mem_order := hg.ordered.mem_iff
  gated := by
    intro id n q hn hs
    obtain ⟨s, hs, hst⟩ := hasStarted_iff.1 hs
    simp only [status?, Plan.ofGraph, SortedMap.get?_mapValues, Option.map_eq_some_iff] at hs
    obtain ⟨m, -, rfl⟩ := hs
    cases hst
  opened := fun h => by cases h

namespace Sound
variable {g : Graph} {E : Expansions} {p p' : Plan}

theorem node_of_status (h : p.Sound g E) {id : NodeId} {s : NodeStatus}
    (hs : p.status? id = some s) : ∃ n, p.node? id = some n :=
  h.status.1 ⟨s, hs⟩

theorem node_of_isPending (h : p.Sound g E) {id : NodeId} (hp : p.isPending id = true) :
    ∃ n, p.node? id = some n :=
  h.node_of_status (isPending_iff.1 hp)

theorem restatus (h : p.Sound g E) (hnodes : p'.nodes = p.nodes) (horder : p'.order = p.order)
    (hdom : ∀ id, (∃ s, p'.status? id = some s) ↔ ∃ s, p.status? id = some s)
    (hsucc : ∀ id, p.hasSucceeded id = true → p'.hasSucceeded id = true)
    (hkeep : ∀ id, p.hasStarted id = true → p'.hasStarted id = true)
    (hstart : ∀ id n, p.node? id = some n → p'.hasStarted id = true → p.hasStarted id = false →
      ∀ q ∈ n.predecessors, p.hasSucceeded q = true) : p'.Sound g E where
  unfolds := by
    rw [hnodes]
    exact h.unfolds
  status := by
    intro id
    rw [hdom id, h.status, node?, node?, hnodes]
  order_nodup := by
    rw [horder]
    exact h.order_nodup
  mem_order := by
    intro id
    rw [horder, h.mem_order, node?, node?, hnodes]
  gated := by
    intro id n q hn hs hq
    have hn' : p.node? id = some n := by
      rw [node?, ← hnodes]
      exact hn
    cases hst : p.hasStarted id with
    | true => exact hsucc q (h.gated hn' hst hq)
    | false => exact hsucc q (hstart id n hn' hs hst q hq)
  opened := fun hE => hkeep _ (h.opened hE)

theorem skips (h : p.Sound g E) {reason : String} {ids : List NodeId}
    (hs : Skips reason p ids p') : p'.Sound g E := by
  refine h.restatus hs.nodes hs.order (fun id => ?_) (fun id => ?_) (fun id => ?_) ?_
  · rw [hs.status id]
    by_cases hid : id ∈ ids
    · rw [if_pos hid, isPending_iff.1 (hs.pending id hid)]
      simp
    · rw [if_neg hid]
  · rw [hs.hasSucceeded]
    exact fun hid => hid
  · rw [hs.hasStarted]
    exact fun hid => hid
  · intro id n hn hst hnot
    rw [hs.hasStarted, hnot] at hst
    cases hst

/-! ## Single nodes -/

section SetStatus
variable {id : NodeId} {s : NodeStatus}

theorem exists_status?_setStatus (x : NodeId) :
    (∃ t, (p.setStatus id s).status? x = some t) ↔ ∃ t, p.status? x = some t := by
  rw [status?_setStatus]
  split
  next => simp
  next => exact Iff.rfl

theorem hasStarted_setStatus (hs : s.isStarted = true) {x : NodeId} (hx : p.hasStarted x = true) :
    (p.setStatus id s).hasStarted x = true := by
  obtain ⟨t, ht, hst⟩ := hasStarted_iff.1 hx
  rw [hasStarted_iff, status?_setStatus, ht]
  by_cases hxid : x = id
  · exact ⟨s, by rw [if_pos hxid]; rfl, hs⟩
  · exact ⟨t, by rw [if_neg hxid], hst⟩

theorem hasSucceeded_setStatus_of_ne {x : NodeId} (hx : x ≠ id) :
    (p.setStatus id s).hasSucceeded x = p.hasSucceeded x := by
  rw [hasSucceeded, hasSucceeded, status?_setStatus, if_neg hx]

theorem hasSucceeded_setStatus (hid : p.status? id ≠ some .succeeded) (hs : s ≠ .succeeded)
    {x : NodeId} : (p.setStatus id s).hasSucceeded x = p.hasSucceeded x := by
  by_cases hx : x = id
  · subst hx
    have hnew : (p.setStatus x s).status? x ≠ some .succeeded := by
      rw [status?_setStatus, if_pos rfl]
      cases p.status? x with
      | none => simp
      | some t => exact fun h => hs (Option.some.inj h)
    rw [Bool.eq_iff_iff, hasSucceeded_iff, hasSucceeded_iff]
    exact iff_of_false hnew hid
  · exact hasSucceeded_setStatus_of_ne hx

theorem hasStarted_setStatus_of_ne {x : NodeId} (hx : x ≠ id) :
    (p.setStatus id s).hasStarted x = p.hasStarted x := by
  rw [hasStarted, hasStarted, status?_setStatus, if_neg hx]

theorem markRunning (h : p.Sound g E) (hp : p.isPending id = true)
    (hq : ∀ n, p.node? id = some n → ∀ q ∈ n.predecessors, p.hasSucceeded q = true) :
    (p.markRunning id).Sound g E := by
  refine h.restatus rfl rfl exists_status?_setStatus (fun x hx => ?_)
    (fun x hx => hasStarted_setStatus rfl hx) ?_
  · rw [Plan.markRunning, hasSucceeded_setStatus_of_ne, hx]
    rintro rfl
    rw [hasSucceeded_iff, isPending_iff.1 hp] at hx
    cases hx
  · intro x n hn hst hnot
    by_cases hx : x = id
    · subst hx
      exact hq n hn
    · rw [Plan.markRunning, hasStarted_setStatus_of_ne hx, hnot] at hst
      cases hst

theorem setStatus_of_running (h : p.Sound g E) (hr : p.status? id = some .running)
    (hs : s.isStarted = true) : (p.setStatus id s).Sound g E := by
  refine h.restatus rfl rfl exists_status?_setStatus (fun x hx => ?_)
    (fun x hx => hasStarted_setStatus hs hx) ?_
  · rw [hasSucceeded_setStatus_of_ne, hx]
    rintro rfl
    rw [hasSucceeded_iff, hr] at hx
    cases hx
  · intro x n hn hst hnot
    by_cases hx : x = id
    · subst hx
      rw [hasStarted, hr] at hnot
      cases hnot
    · rw [hasStarted_setStatus_of_ne hx, hnot] at hst
      cases hst

end SetStatus

theorem markSucceeded (h : p.Sound g E) {id : NodeId} (hr : p.status? id = some .running)
    (output : Option Value) : (p.markSucceeded id output).Sound g E := by
  have hs := h.setStatus_of_running hr (s := .succeeded) rfl
  cases output with
  | none => exact hs
  | some v =>
    exact hs.restatus rfl rfl (fun _ => Iff.rfl) (fun _ h => h) (fun _ h => h) fun id n hn hst hnot => by
      exact absurd (hst.symm.trans hnot) (by decide)

theorem markFailed (h : p.Sound g E) {id : NodeId} (hr : p.status? id = some .running)
    (message : String) : (p.markFailed id message).1.Sound g E :=
  (h.setStatus_of_running hr rfl).skips (skips_markFailed p id message)

theorem skipPending (h : p.Sound g E) (reason : String) : (p.skipPending reason).1.Sound g E :=
  h.skips (skips_skipPending p reason).1

theorem not_isPending_skipPending (h : p.Sound g E) (reason : String) (id : NodeId) :
    (p.skipPending reason).1.isPending id = false := by
  cases hp : (p.skipPending reason).1.isPending id with
  | false => rfl
  | true =>
    have hp₀ := ((skips_skipPending p reason).1.isPending.1 hp).1
    have hnot := (skips_skipPending p reason).2 id (h.mem_order.2 (h.node_of_isPending hp₀))
    rw [hp] at hnot
    cases hnot

/-! ## Idle resources -/

theorem mem_idleResources (h : p.Sound g E) {id : NodeId} : id ∈ p.idleResources ↔
    ∃ n, p.node? id = some n ∧ n.kind.isResource = true ∧ p.isPending id = true ∧
      id ∉ p.liveResources := by
  simp only [idleResources, List.mem_map, List.mem_filter, Bool.and_eq_true, Bool.not_eq_true',
    ← Bool.not_eq_true, List.contains_iff_mem, Node.isResource_eq]
  constructor
  · rintro ⟨n, ⟨hn, ⟨hr, hl⟩, hp⟩, rfl⟩
    obtain ⟨k, hk⟩ := SortedMap.mem_values.1 hn
    have hid : n.id = k := h.unfolds.linked.id_eq hk
    exact ⟨n, by rw [hid]; exact hk, hr, hp, hl⟩
  · rintro ⟨n, hn, hr, hp, hl⟩
    have hid : n.id = id := h.unfolds.linked.id_eq hn
    subst hid
    exact ⟨n, ⟨SortedMap.mem_values.2 ⟨_, hn⟩, ⟨hr, hl⟩, hp⟩, rfl⟩

theorem nodup_idleResources (h : p.Sound g E) : p.idleResources.Nodup := by
  have hsub : p.idleResources.Sublist p.nodes.keys := by
    rw [← h.unfolds.linked.map_id_values]
    exact List.filter_sublist.map Node.id
  exact hsub.nodup p.nodes.nodup_keys

theorem skips_skipIdleResources (h : p.Sound g E) :
    Skips idleReason p p.skipIdleResources.2 p.skipIdleResources.1 := by
  refine skips_foldl_setStatus p.idleResources h.nodup_idleResources p fun id hid => ?_
  obtain ⟨n, -, -, hp, -⟩ := h.mem_idleResources.1 hid
  exact hp

theorem skipIdleResources (h : p.Sound g E) : p.skipIdleResources.1.Sound g E :=
  h.skips h.skips_skipIdleResources

end Sound

/-! ## Expansion -/

theorem get?_foldl_insert_pending (l : List NodeId) (m : SortedMap NodeId NodeStatus) (x : NodeId) :
    (l.foldl (fun m c => m.insert c .pending) m).get? x =
      if x ∈ l then some .pending else m.get? x := by
  induction l generalizing m with
  | nil => simp
  | cons a l ih =>
    rw [List.foldl_cons, ih, SortedMap.get?_insert]
    by_cases hl : x ∈ l <;> by_cases ha : x = a <;> simp [hl, ha]

/-- What the first expansion of a placeholder does to a plan. -/
structure Expands (p : Plan) (id : NodeId) (vars : List LoopVars) (children : List NodeId)
    (p' : Plan) : Prop where
  running : p.status? id = some .running
  children_eq : children = id.children vars.length
  nodup : children.Nodup
  results : p'.results = p.results
  order : p'.order = p.order ++ children
  fresh : ∀ c ∈ children, p.node? c = none
  status : ∀ x, p'.status? x = if x ∈ children then some .pending else p.status? x
  isExpansion : ∀ n, p.node? id = some n → n.kind.isExpansion = true
  /-- An instance is a step that uses what the placeholder uses. -/
  child : ∀ {c n n'}, c ∈ children → p.node? id = some n → p'.node? c = some n' →
    n'.kind.uses = n.kind.uses ∧ n'.kind.isResource = false ∧ n'.kind.isExpansion = false
  made : ∀ c ∈ children, ∃ n', p'.node? c = some n'
  kept : ∀ {x n}, p.node? x = some n → ∃ n', p'.node? x = some n' ∧ n'.kind = n.kind ∧
    ∀ q ∈ n.predecessors, q ≠ id → q ∈ n'.predecessors
  /-- Only nodes behind the placeholder have changed. -/
  unchanged : ∀ {x n}, p.node? x = some n → id ∉ n.predecessors → ∃ n', p'.node? x = some n' ∧
    n'.kind = n.kind ∧ n'.bindings = n.bindings ∧ n'.predecessors = n.predecessors
  known : ∀ {x n'}, p'.node? x = some n' → x ∈ children ∨ ∃ n, p.node? x = some n

namespace Expands
variable {g : Graph} {E : Expansions} {p p' : Plan} {id x : NodeId} {vars : List LoopVars}
variable {children : List NodeId} {s : NodeStatus}

theorem not_mem_of_status (hx : Expands p id vars children p') (h : p.Sound g E)
    (hs : p.status? x = some s) : x ∉ children := by
  intro hc
  obtain ⟨n, hn⟩ := h.node_of_status hs
  cases (hx.fresh x hc).symm.trans hn

theorem status_eq_none (hx : Expands p id vars children p') (h : p.Sound g E)
    (hc : x ∈ children) : p.status? x = none := by
  cases hs : p.status? x with
  | none => rfl
  | some s => exact absurd hc (hx.not_mem_of_status h hs)

theorem status_iff (hx : Expands p id vars children p') (h : p.Sound g E) (hne : s ≠ .pending) :
    p'.status? x = some s ↔ p.status? x = some s := by
  rw [hx.status]
  split
  next hc =>
    refine iff_of_false (fun hs => hne (Option.some.inj hs).symm) fun hs => ?_
    exact hx.not_mem_of_status h hs hc
  next => exact .rfl

theorem keeps_status (hx : Expands p id vars children p') (h : p.Sound g E)
    (hs : p.status? x = some s) : p'.status? x = some s := by
  rw [hx.status, if_neg (hx.not_mem_of_status h hs), hs]

theorem hasSucceeded (hx : Expands p id vars children p') (h : p.Sound g E) :
    p'.hasSucceeded x = p.hasSucceeded x := by
  rw [Bool.eq_iff_iff, hasSucceeded_iff, hasSucceeded_iff, hx.status_iff h (by decide)]

theorem hasStarted (hx : Expands p id vars children p') (h : p.Sound g E) :
    p'.hasStarted x = p.hasStarted x := by
  rw [Bool.eq_iff_iff, hasStarted_iff, hasStarted_iff]
  refine exists_congr fun s => and_congr_left fun hst => hx.status_iff h ?_
  rintro rfl
  cases hst

theorem result? (hx : Expands p id vars children p') (x : NodeId) : p'.result? x = p.result? x := by
  rw [Plan.result?, Plan.result?, hx.results]

end Expands

namespace Sound
variable {g : Graph} {E : Expansions} {p p' : Plan} {id : NodeId} {vars : List LoopVars}
variable {children : List NodeId}

theorem expanding (hg : g.Sound) (h : p.Sound g E) (hE : E id = none)
    (he : p.expand id vars = .ok (p', children)) : ∃ node template changes,
      Expanding g E p.nodes id node template vars changes ∧ p.status? id = some .running ∧
      (∃ replication, node.kind = .expansion replication template) ∧
      children = id.children vars.length ∧
      p' = { p with
        nodes := Expanding.after p.nodes id node template vars changes
        statuses := children.foldl (fun m c => m.insert c .pending) p.statuses
        order := p.order ++ children } := by
  obtain ⟨node, replication, template, changes, hn, hk, hs, hc, hch, rfl⟩ := expand_eq_ok.1 he
  obtain ⟨bs, hbp, -⟩ := h.unfolds.known hn
  obtain ⟨n, hd, hdk, -⟩ := hbp.exists_declared (.inl (by rw [hk]; rfl))
  rw [hk] at hdk
  have hstep := (hg.expansion hd hdk).1
  have hids : Building.instanceIds template.step vars.length = id.children vars.length := by
    rw [hstep]
    rfl
  rw [hids] at hc hch
  exact ⟨node, template, changes, ⟨hg, h.unfolds, ⟨n, replication, hd, hdk⟩, hE, hn, hc⟩, hs,
    ⟨replication, hk⟩, hch, rfl⟩

theorem expands (hg : g.Sound) (h : p.Sound g E) (hE : E id = none)
    (he : p.expand id vars = .ok (p', children)) : Expands p id vars children p' := by
  obtain ⟨node, template, changes, hx, hs, ⟨replication, hk⟩, hch, rfl⟩ := h.expanding hg hE he
  have hids : children = (Expanding.instances node template vars).map Node.id :=
    hch.trans hx.map_id_instances.symm
  have hchild : ∀ {c}, c ∈ children ↔ ∃ n ∈ Expanding.instances node template vars, c = n.id := by
    intro c
    rw [hids, List.mem_map]
    exact exists_congr fun n => and_congr_right fun _ => eq_comm
  -- A node of the new plan is an instance, the placeholder, a node rebound behind it, or one of before.
  constructor
  case running => exact hs
  case children_eq => exact hch
  case nodup =>
    rw [hch]
    exact NodeId.nodup_children _ _
  case results => rfl
  case order => rfl
  case fresh =>
    intro c hc
    obtain ⟨n, hn, rfl⟩ := hchild.1 hc
    exact hx.get?_instance hn
  case status => exact fun x => get?_foldl_insert_pending _ _ _
  case isExpansion =>
    intro n hn
    cases hn.symm.trans hx.found
    rw [hk]
    rfl
  case child =>
    intro c n n' hc hn hn'
    cases hn.symm.trans hx.found
    obtain ⟨m, hm, rfl⟩ := hchild.1 hc
    cases hn'.symm.trans (hx.get?_after_instance hm)
    obtain ⟨i, v, -, rfl⟩ := hx.mem_instances.1 hm
    rw [hk]
    exact ⟨rfl, rfl, rfl⟩
  case made =>
    intro c hc
    obtain ⟨m, hm, rfl⟩ := hchild.1 hc
    exact ⟨_, hx.get?_after_instance hm⟩
  case kept =>
    intro x n hn
    by_cases hxid : x = id
    · subst hxid
      cases hn.symm.trans hx.found
      exact ⟨_, hx.get?_after_self, rfl, fun q hq _ => hq⟩
    · by_cases hq : id ∈ n.predecessors
      · obtain ⟨⟨_, bs⟩, hc, rfl⟩ := List.mem_map.1 ((hx.mem_changes hn).2 hq)
        exact ⟨_, hx.get?_after_changed hc hn, rfl, fun q => (hx.replaced_rebound hc hn).kept⟩
      · exact ⟨_, hx.get?_after_other hn hxid hq, rfl, fun q hq _ => hq⟩
  case unchanged =>
    intro x n hn hq
    by_cases hxid : x = id
    · subst hxid
      cases hn.symm.trans hx.found
      exact ⟨_, hx.get?_after_self, rfl, rfl, rfl⟩
    · exact ⟨_, hx.get?_after_other hn hxid hq, rfl, rfl, rfl⟩
  case known =>
    intro x n' hn'
    rcases hx.cases_after hn' with ⟨c, hc, rfl, -⟩ | ⟨rfl, -⟩ | ⟨n, bs, -, hn, -, -⟩ |
      ⟨n, -, hn, -, -⟩
    · exact .inl (hchild.2 ⟨c, hc, rfl⟩)
    · exact .inr ⟨node, hx.found⟩
    · exact .inr ⟨n, hn⟩
    · exact .inr ⟨n, hn⟩

theorem expand (hg : g.Sound) (h : p.Sound g E) (hE : E id = none)
    (he : p.expand id vars = .ok (p', children)) : p'.Sound g (E.set id vars) := by
  have hx := h.expands hg hE he
  constructor
  case unfolds =>
    obtain ⟨node, template, changes, hexp, -, -, -, rfl⟩ := h.expanding hg hE he
    exact hexp.unfolds_after
  case status =>
    intro x
    by_cases hc : x ∈ children
    · rw [hx.status, if_pos hc]
      exact ⟨fun _ => hx.made x hc, fun _ => ⟨_, rfl⟩⟩
    · rw [hx.status, if_neg hc, h.status]
      constructor
      · rintro ⟨n, hn⟩
        obtain ⟨n', hn', -⟩ := hx.kept hn
        exact ⟨n', hn'⟩
      · rintro ⟨n', hn'⟩
        exact (hx.known hn').resolve_left hc
  case order_nodup =>
    rw [hx.order, List.nodup_append]
    refine ⟨h.order_nodup, hx.nodup, ?_⟩
    rintro a ha b hb rfl
    obtain ⟨n, hn⟩ := h.mem_order.1 ha
    cases (hx.fresh a hb).symm.trans hn
  case mem_order =>
    intro x
    rw [hx.order, List.mem_append, h.mem_order]
    constructor
    · rintro (⟨n, hn⟩ | hc)
      · obtain ⟨n', hn', -⟩ := hx.kept hn
        exact ⟨n', hn'⟩
      · exact hx.made x hc
    · rintro ⟨n', hn'⟩
      exact (hx.known hn').symm
  case gated =>
    intro x n' q hn' hst hq
    have hst' : p.hasStarted x = true := (hx.hasStarted h).symm.trans hst
    have hc : x ∉ children := by
      intro hc
      rw [hasStarted, hx.status, if_pos hc] at hst
      cases hst
    obtain ⟨n, hn⟩ := (hx.known hn').resolve_left hc
    -- a started node does not wait for the placeholder, which is running
    have hid : id ∉ n.predecessors := by
      intro hid
      have hsucc := hasSucceeded_iff.1 (h.gated hn hst' hid)
      rw [hx.running] at hsucc
      cases hsucc
    obtain ⟨m, hm, -, -, hpred⟩ := hx.unchanged hn hid
    cases hn'.symm.trans hm
    rw [hpred] at hq
    exact (hx.hasSucceeded h).trans (h.gated hn hst' hq)
  case opened =>
    intro x vars' hx'
    by_cases hxid : x = id
    · subst hxid
      exact hasStarted_iff.2 ⟨_, hx.keeps_status h hx.running, rfl⟩
    · rw [Expansions.set_of_ne hxid] at hx'
      exact (hx.hasStarted h).trans (h.opened hx')

end Sound
end Plan

end Workplan
