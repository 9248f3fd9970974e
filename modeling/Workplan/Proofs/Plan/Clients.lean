import Workplan.Proofs.Graph.WellFormed
import Workplan.Proofs.Plan.Acyclicity
import Workplan.Proofs.Plan.Evolution

/-! Clients: who works on a plan and keeps to a few rules. A node is started only after the plan has
offered it, only running nodes end, and a placeholder that has been expanded is not expanded again until
its success is reported. Everything else is free: a client may expand any id with any instances, and may
skip at any time. The plan stays well formed (`Graph.plan_wellFormed_of_build`).

An expansion changes a plan in place, by many small writes. It is done so here (`Plan.InPlace.expand`), so
that a refused expansion leaves behind what has been written up to then. That this is the plan as it was
(`Plan.InPlace.on_expand`) is because all bindings are resolved before the first write. -/
namespace Workplan
open Outcome
set_option autoImplicit false

/-! ## Changes in place -/

/-- A computation that changes a plan in place. An error does not take back what has been written. -/
abbrev Plan.InPlace := ExceptT BuildError (StateM Plan)

namespace Plan.InPlace
variable {α β : Type}

/-- The outcome of a computation, and the plan that it leaves behind. -/
def on (x : InPlace α) (p : Plan) : Except BuildError α × Plan := Id.run ((ExceptT.run x).run p)

theorem on_bind (x : InPlace α) (f : α → InPlace β) (p : Plan) :
    (x >>= f).on p = match x.on p with
      | (.ok a, p') => (f a).on p'
      | (.error e, p') => (.error e, p') := by
  simp only [on, ExceptT.run_bind, StateT.run_bind, Id.run_bind]
  rcases StateT.run (ExceptT.run x) p with ⟨_ | _, _⟩ <;> rfl

theorem on_modify (f : Plan → Plan) (p : Plan) : on (modify f) p = (.ok (), f p) := rfl

theorem on_liftExcept (x : Except BuildError α) (p : Plan) : on (liftExcept x) p = (x, p) := by
  cases x <;> rfl

theorem on_forM {f : α → InPlace Unit} {w : Plan → α → Plan}
    (hf : ∀ a p, (f a).on p = (.ok (), w p a)) (l : List α) (p : Plan) :
    (l.forM f).on p = (.ok (), l.foldl w p) := by
  induction l generalizing p with
  | nil => rfl
  | cons a l ih =>
    have hbind := on_bind (f a) (fun _ => l.forM f) p
    rw [hf] at hbind
    exact hbind.trans (ih (w p a))

/-- Adds an instance in four writes. -/
def addInstance (n : Node) : InPlace Unit := do
  modify fun p => { p with nodes := link p.nodes n }
  modify fun p => { p with statuses := p.statuses.insert n.id .pending }
  modify fun p => { p with order := p.order ++ [n.id] }
  modify fun p => { p with nodes := p.nodes.insert n.id n }

/-- Gives a node new bindings. -/
def rebind (change : NodeId × List Binding) : InPlace Unit :=
  modify fun p => { p with nodes := Plan.rebind p.nodes change }

/-- Adds the instances, rebinds the nodes behind the placeholder, and cuts the placeholder off. -/
def splice (placeholder : NodeId) (ns : List Node) (changes : List (NodeId × List Binding)) :
    InPlace Unit := do
  ns.forM addInstance
  changes.forM rebind
  modify fun p =>
    { p with nodes := p.nodes.modify placeholder fun n => { n with successors := .empty } }

/-- Splices instances in place of a running placeholder. -/
def expand (placeholder : NodeId) (vars : List LoopVars) : InPlace (List NodeId) := do
  let p ← get
  match p.node? placeholder with
  | none => throw (.notExpandable placeholder)
  | some node =>
    match node.kind, p.status? placeholder with
    | .expansion _ template, some .running => do
      let children := Building.instanceIds template.step vars.length
      let changes ← liftExcept (rewire p.nodes placeholder children node.successors.toList)
      let inherited := node.bindings.filter fun b => b.role ≠ .replication
      splice placeholder (instanceNodes template inherited vars) changes
      return children
    | _, _ => throw (.notExpandable placeholder)

theorem foldl_rebind (changes : List (NodeId × List Binding)) (p : Plan) :
    changes.foldl (fun p change => { p with nodes := Plan.rebind p.nodes change }) p =
      { p with nodes := changes.foldl Plan.rebind p.nodes } := by
  induction changes generalizing p with
  | nil => rfl
  | cons change changes ih => exact ih _

theorem on_splice (placeholder : NodeId) (ns : List Node) (changes : List (NodeId × List Binding))
    (p : Plan) : (splice placeholder ns changes).on p =
      (.ok (), { ns.foldl Plan.addInstance p with
        nodes := (changes.foldl Plan.rebind (ns.foldl Plan.addInstance p).nodes).modify placeholder
          fun n => { n with successors := .empty } }) := by
  have hadd : ∀ n p, (addInstance n).on p = (.ok (), p.addInstance n) := fun _ _ => rfl
  have hrebind : ∀ change p, (rebind change).on p =
      (.ok (), { p with nodes := Plan.rebind p.nodes change }) := fun _ _ => rfl
  simp only [splice, on_bind, on_forM hadd, on_forM hrebind, on_modify, foldl_rebind]

theorem on_expand (placeholder : NodeId) (vars : List LoopVars) (p : Plan) :
    (expand placeholder vars).on p = match p.expand placeholder vars with
      | .ok (p', children) => (.ok children, p')
      | .error e => (.error e, p) := by
  have hget : (get : InPlace Plan).on p = (.ok p, p) := rfl
  rw [expand, on_bind, hget, Plan.expand]
  cases hn : p.node? placeholder with
  | none =>
    simp only [hn]
    rfl
  | some node =>
    simp only [hn]
    cases node.kind with
    | expansion replication template =>
      cases p.status? placeholder with
      | none => rfl
      | some status =>
        cases status with
        | running =>
          simp only [on_bind, on_liftExcept]
          cases rewire p.nodes placeholder (Building.instanceIds template.step vars.length)
              node.successors.toList with
          | error e => rfl
          | ok changes =>
            simp only [on_splice]
            rfl
        | _ => rfl
    | _ => rfl

end Plan.InPlace

/-! ## Well-formed plans -/

namespace Plan

/-- What holds of a plan as long as its client keeps to the rules. -/
structure WellFormed (p : Plan) : Prop where
  order : p.order.Perm p.nodes.keys
  statuses : p.statuses.keys.Perm p.nodes.keys
  woven : p.nodes.Woven
  /-- A node has started only behind its predecessors. -/
  gated : ∀ {id n q}, p.node? id = some n → p.hasStarted id = true → q ∈ n.predecessors →
    p.status? q = some .succeeded

theorem Sound.wellFormed {g : Graph} {E : Expansions} {p : Plan} (hg : g.Sound) (h : p.Sound g E) :
    p.WellFormed where
  order := by
    apply (List.perm_ext_iff_of_nodup h.order_nodup (SortedMap.nodup_keys _)).2
    intro id
    rw [h.mem_order, SortedMap.mem_keys]
    exact .rfl
  statuses := by
    apply (List.perm_ext_iff_of_nodup (SortedMap.nodup_keys _) (SortedMap.nodup_keys _)).2
    intro id
    rw [SortedMap.mem_keys, SortedMap.mem_keys]
    exact h.status
  woven := h.unfolds.linked.woven h.unfolds.predecessors fun hn hb hq =>
    h.unfolds.exists_producer hn hg hb hq
  gated := fun hn hs hq => hasSucceeded_iff.1 (h.gated hn hs hq)

end Plan

/-! ## Statuses -/

/-- The ways in which one operation changes a status. -/
inductive NodeStatus.Next : NodeStatus → NodeStatus → Prop where
  | start : Next .pending .running
  | succeed : Next .running .succeeded
  | fail (message : String) : Next .running (.failed message)
  | skip (reason : String) : Next .pending (.skipped reason)

namespace Plan

/-- Every status is the same or the next, and new nodes are pending. -/
structure Advances (p p' : Plan) : Prop where
  next : ∀ {id s}, p.status? id = some s → ∃ s', p'.status? id = some s' ∧ (s' = s ∨ s.Next s')
  fresh : ∀ {id s}, p.status? id = none → p'.status? id = some s → s = .pending

namespace Advances
variable {p p' p'' : Plan} {id : NodeId}

theorem refl (p : Plan) : p.Advances p :=
  ⟨fun hs => ⟨_, hs, .inl rfl⟩, fun hn hs => by cases hn.symm.trans hs⟩

theorem setStatus {s s' : NodeStatus} (hs : p.status? id = some s) (hn : s.Next s') :
    p.Advances (p.setStatus id s') where
  next := by
    intro x t ht
    by_cases hx : x = id
    · subst hx
      cases hs.symm.trans ht
      exact ⟨s', by simp [status?_setStatus, hs], .inr hn⟩
    · exact ⟨t, by simp [status?_setStatus, hx, ht], .inl rfl⟩
  fresh := by
    intro x t hx ht
    rw [status?_setStatus, hx] at ht
    simp at ht

theorem skips {reason : String} {ids : List NodeId} (h : p.Advances p') (hs : Skips reason p' ids p'')
    (hp : ∀ id ∈ ids, p'.status? id = p.status? id) : p.Advances p'' where
  next := by
    intro x t ht
    rw [hs.status x]
    by_cases hx : x ∈ ids
    · rw [if_pos hx]
      have hpend := isPending_iff.1 (hs.pending x hx)
      rw [hp x hx, ht] at hpend
      cases hpend
      exact ⟨_, rfl, .inr (.skip reason)⟩
    · rw [if_neg hx]
      exact h.next ht
  fresh := by
    intro x t hx ht
    rw [hs.status x] at ht
    split at ht
    next hm =>
      have hpend := isPending_iff.1 (hs.pending x hm)
      rw [hp x hm, hx] at hpend
      cases hpend
    next => exact h.fresh hx ht

theorem markSucceeded (hs : p.status? id = some .running) (output : Option Value) :
    p.Advances (p.markSucceeded id output) := by
  have h := setStatus hs .succeed
  cases output with
  | none => exact h
  | some v => exact ⟨h.next, h.fresh⟩

theorem markFailed (hs : p.status? id = some .running) (message : String) :
    p.Advances (p.markFailed id message).1 := by
  have hskips := skips_markFailed p id message
  apply (setStatus hs (.fail message)).skips hskips
  intro x hx
  -- the node itself has failed, so it is not among those that are skipped
  have hne : x ≠ id := by
    rintro rfl
    have hpend := isPending_iff.1 (hskips.pending x hx)
    simp [status?_setStatus, hs] at hpend
  simp [status?_setStatus, hne]

theorem expands {g : Graph} {E : Expansions} {vars : List LoopVars} {children : List NodeId}
    (h : p.Sound g E) (hx : Expands p id vars children p') : p.Advances p' where
  next := fun hs => ⟨_, hx.keeps_status h hs, .inl rfl⟩
  fresh := by
    intro x s hn hs
    by_contra hne
    cases hn.symm.trans ((hx.status_iff h hne).1 hs)

end Advances
end Plan

/-! ## Clients -/

namespace Plan

/-- A plan in the hands of a client. -/
structure Client where
  plan : Plan
  /-- The nodes that the plan has offered. -/
  offered : List NodeId
  /-- The placeholders that have been expanded and have to succeed. -/
  owed : List NodeId

namespace Client

/-- What a client may do. -/
inductive Calls : Client → Client → Prop where
  | ask (c : Client) (limit : Nat) : Calls c { c with offered := c.plan.ready limit ++ c.offered }
  /-- A node that has been offered can be started as long as it is pending. -/
  | start {c : Client} {id : NodeId} (ho : id ∈ c.offered) (hp : c.plan.isPending id = true) :
    Calls c { c with plan := c.plan.markRunning id }
  | succeed {c : Client} {id : NodeId} (output : Option Value)
    (hr : c.plan.status? id = some .running) :
    Calls c { c with
      plan := c.plan.markSucceeded id output
      owed := c.owed.filter fun q => q ≠ id }
  | fail {c : Client} {id : NodeId} (message : String) (hr : c.plan.status? id = some .running) :
    Calls c { c with plan := (c.plan.markFailed id message).1 }
  | expand {c : Client} {id : NodeId} {vars : List LoopVars} {children : List NodeId} {p' : Plan}
    (hf : id ∉ c.owed) (he : (InPlace.expand id vars).on c.plan = (.ok children, p')) :
    Calls c { c with plan := p', owed := id :: c.owed }
  | refused {c : Client} {id : NodeId} {vars : List LoopVars} {e : BuildError} {p' : Plan}
    (he : (InPlace.expand id vars).on c.plan = (.error e, p')) : Calls c { c with plan := p' }
  | skipPending (c : Client) (reason : String) :
    Calls c { c with plan := (c.plan.skipPending reason).1 }
  | skipIdle (c : Client) : Calls c { c with plan := c.plan.skipIdleResources.1 }

/-- The states that a client of a graph gets to. -/
inductive Reached (g : Graph) : Client → Prop where
  | start : Reached g ⟨ofGraph g, [], []⟩
  | call {c c' : Client} (h : Reached g c) (hc : Calls c c') : Reached g c'

/-- What a client can rely on: behind an offered node everything has succeeded, and a placeholder that
has been expanded is owed its success until it has ended. -/
structure Sound (g : Graph) (E : Expansions) (c : Client) : Prop where
  plan : c.plan.Sound g E
  offered : ∀ {id}, id ∈ c.offered → ∃ n, c.plan.node? id = some n ∧
    ∀ q ∈ n.predecessors, c.plan.hasSucceeded q = true
  owed : ∀ {id vars}, E id = some vars →
    id ∈ c.owed ∨ ∃ s, c.plan.status? id = some s ∧ s.isTerminal = true

section Calls
variable {g : Graph} {E : Expansions} {c c' : Client} {p' : Plan} {id : NodeId}

theorem on_expand_ok {p : Plan} {vars : List LoopVars} {children : List NodeId}
    (h : (InPlace.expand id vars).on p = (.ok children, p')) :
    p.expand id vars = .ok (p', children) := by
  rw [InPlace.on_expand] at h
  split at h
  next he =>
    cases h
    exact he
  next => cases h

theorem on_expand_error {p : Plan} {vars : List LoopVars} {e : BuildError}
    (h : (InPlace.expand id vars).on p = (.error e, p')) : p' = p := by
  rw [InPlace.on_expand] at h
  split at h
  next => cases h
  next =>
    cases h
    rfl

theorem Sound.restatus (hc : c.Sound g E) (hp : p'.Sound g E) (hnodes : p'.nodes = c.plan.nodes)
    (hev : c.plan.Evolves p') : ({ c with plan := p' } : Client).Sound g E where
  plan := hp
  offered := by
    intro x hx
    obtain ⟨n, hn, hq⟩ := hc.offered hx
    refine ⟨n, ?_, fun q hm => hev.hasSucceeded (hq q hm)⟩
    rw [node?, hnodes]
    exact hn
  owed := fun hE => (hc.owed hE).imp_right fun ⟨s, hs, ht⟩ => ⟨s, hev.final hs ht, ht⟩

theorem Sound.start (hc : c.Sound g E) (ho : id ∈ c.offered) (hp : c.plan.isPending id = true) :
    ({ c with plan := c.plan.markRunning id } : Client).Sound g E := by
  obtain ⟨n, hn, hq⟩ := hc.offered ho
  apply hc.restatus (hc.plan.markRunning hp fun m hm => ?_) rfl
  · exact evolves_setStatus (isPending_iff.1 hp) rfl rfl
  · cases hn.symm.trans hm
    exact hq

theorem Sound.succeed (hc : c.Sound g E) (output : Option Value)
    (hr : c.plan.status? id = some .running) :
    ({ c with plan := c.plan.markSucceeded id output, owed := c.owed.filter fun q => q ≠ id } :
      Client).Sound g E := by
  have h := hc.restatus (hc.plan.markSucceeded hr output) (nodes_markSucceeded _ _ _)
    (evolves_markSucceeded hr rfl output)
  refine ⟨h.plan, h.offered, fun {x vars} hE => ?_⟩
  by_cases hx : x = id
  · subst hx
    exact .inr ⟨.succeeded, by simp [status?_markSucceeded, hr], rfl⟩
  · exact (h.owed hE).imp_left fun hm => List.mem_filter.2 ⟨hm, by simpa using hx⟩

theorem Sound.expand (hg : g.Sound) (hc : c.Sound g E) {vars : List LoopVars}
    {children : List NodeId} (hf : id ∉ c.owed) (he : c.plan.expand id vars = .ok (p', children)) :
    ∃ E', c.plan.Advances p' ∧ ({ c with plan := p', owed := id :: c.owed } : Client).Sound g E' := by
  have hrun : c.plan.status? id = some .running := by
    obtain ⟨node, replication, template, changes, -, -, hs, -⟩ := expand_eq_ok.1 he
    exact hs
  -- a placeholder that runs and is owed nothing has not been expanded
  have hE : E id = none := by
    cases hE : E id with
    | none => rfl
    | some vars' =>
      rcases hc.owed hE with ho | ⟨s, hs, ht⟩
      · exact absurd ho hf
      · cases hrun.symm.trans hs
        cases ht
  have hx := hc.plan.expands hg hE he
  have hev := hc.plan.evolves_of_expands hx
  refine ⟨E.set id vars, .expands hc.plan hx, hc.plan.expand hg hE he, fun {x} ho => ?_,
    fun {x vars'} hEx => ?_⟩
  · obtain ⟨n, hn, hq⟩ := hc.offered ho
    have hnot : id ∉ n.predecessors := by
      intro hm
      cases hrun.symm.trans (hasSucceeded_iff.1 (hq id hm))
    obtain ⟨n', hn', -, -, hpred⟩ := hx.unchanged hn hnot
    refine ⟨n', hn', fun q hm => hev.hasSucceeded (hq q ?_)⟩
    rw [← hpred]
    exact hm
  · by_cases hxid : x = id
    · exact .inl (hxid ▸ List.mem_cons_self)
    · rw [Expansions.set_of_ne hxid] at hEx
      exact (hc.owed hEx).imp (List.mem_cons_of_mem id) fun ⟨s, hs, ht⟩ => ⟨s, hev.final hs ht, ht⟩

theorem Calls.sound (hg : g.Sound) (hc : c.Sound g E) (h : Calls c c') :
    ∃ E', c.plan.Advances c'.plan ∧ c'.Sound g E' := by
  cases h with
  | ask limit =>
    refine ⟨E, .refl _, hc.plan, fun {x} hx => ?_, hc.owed⟩
    rcases List.mem_append.1 hx with hx | hx
    · obtain ⟨-, n, hn, hq, -⟩ := isReady_iff.1 (List.mem_filter.1 (List.mem_of_mem_take hx)).2
      exact ⟨n, hn, hq⟩
    · exact hc.offered hx
  | start ho hp => exact ⟨E, .setStatus (isPending_iff.1 hp) .start, hc.start ho hp⟩
  | succeed output hr => exact ⟨E, .markSucceeded hr output, hc.succeed output hr⟩
  | fail message hr =>
    exact ⟨E, .markFailed hr message, hc.restatus (hc.plan.markFailed hr message)
      (skips_markFailed _ _ message).nodes (evolves_markFailed hr message)⟩
  | expand hf he => exact hc.expand hg hf (on_expand_ok he)
  | refused he =>
    rw [on_expand_error he]
    exact ⟨E, .refl _, hc⟩
  | skipPending reason =>
    have hs := (skips_skipPending c.plan reason).1
    exact ⟨E, (Advances.refl _).skips hs fun _ _ => rfl,
      hc.restatus (hc.plan.skipPending reason) hs.nodes hs.evolves⟩
  | skipIdle =>
    have hs := hc.plan.skips_skipIdleResources
    exact ⟨E, (Advances.refl _).skips hs fun _ _ => rfl,
      hc.restatus hc.plan.skipIdleResources hs.nodes hs.evolves⟩

theorem Reached.sound (hg : g.Sound) (h : Reached g c) : ∃ E, c.Sound g E := by
  induction h with
  | start =>
    refine ⟨_, Plan.Sound.ofGraph hg, fun hx => ?_, fun hE => ?_⟩
    · cases hx
    · cases hE
  | call h hc ih =>
    obtain ⟨E, hs⟩ := ih
    obtain ⟨E', -, hs'⟩ := hc.sound hg hs
    exact ⟨E', hs'⟩

end Calls
end Client
end Plan

/-- The plan of a built graph is well formed whatever a client has done with it, each further call moves
statuses on by one step at most, and an expansion that is refused leaves the plan as it was. -/
theorem Graph.plan_wellFormed_of_build {defs : Definitions} {registry : Registry} {g : Graph}
    (hb : Graph.build defs registry = .ok g) (hp : defs.PlainNames) {c : Plan.Client}
    (hr : c.Reached g) : c.plan.WellFormed ∧ (∀ c', c.Calls c' → c.plan.Advances c'.plan) ∧
      ∀ id vars e p', (Plan.InPlace.expand id vars).on c.plan = (.error e, p') → p' = c.plan := by
  have hg := Graph.sound_of_build hb hp
  obtain ⟨E, hs⟩ := hr.sound hg
  refine ⟨hs.plan.wellFormed hg, fun c' hc => ?_, fun id vars e p' h => Plan.Client.on_expand_error h⟩
  obtain ⟨E', ha, -⟩ := hc.sound hg hs
  exact ha

/-! ## A client of two steps -/

namespace Feedback

def answered : Plan :=
  (initial.markRunning (NodeId.step "a")).markSucceeded (NodeId.step "a") none

/-- The client that has started what it was offered, and has expanded the placeholder of `b`. -/
def client : Plan.Client where
  plan := expanded
  offered := answered.ready 1 ++ (initial.ready 1 ++ [])
  owed := [NodeId.step "b"]

theorem reached : client.Reached graph := by
  have ha : Plan.Client.Reached graph
      ⟨initial.markRunning (NodeId.step "a"), initial.ready 1 ++ [], []⟩ :=
    (Plan.Client.Reached.start.call (.ask _ 1)).call (.start (by decide +kernel) (by decide +kernel))
  have ha' : Plan.Client.Reached graph ⟨answered, initial.ready 1 ++ [], []⟩ :=
    ha.call (.succeed none (by decide +kernel))
  have hb : Plan.Client.Reached graph ⟨running, client.offered, []⟩ :=
    (ha'.call (.ask _ 1)).call (.start (by decide +kernel) (by decide +kernel))
  have he : (Plan.InPlace.expand (NodeId.step "b") [.count 0]).on running =
      (.ok [NodeId.ofInstance "b" 0], expanded) := by
    rw [Plan.InPlace.on_expand, show running.expand (NodeId.step "b") [.count 0] =
      .ok (expanded, [NodeId.ofInstance "b" 0]) from rfl]
  exact hb.call (.expand List.not_mem_nil he)

/-- The plan is well formed, and expanding step `a` is refused and changes nothing. -/
theorem client_wellFormed : client.Reached graph ∧ expanded.WellFormed ∧
    ∃ e, (Plan.InPlace.expand (NodeId.step "a") []).on expanded = (.error e, expanded) := by
  have hb : Graph.build definitions registry = .ok graph := rfl
  have hp : definitions.PlainNames := by
    unfold Definitions.PlainNames
    decide +kernel
  obtain ⟨hw, -, hrefused⟩ := Graph.plan_wellFormed_of_build hb hp reached
  refine ⟨reached, hw, .notExpandable (NodeId.step "a"), ?_⟩
  have he : ((Plan.InPlace.expand (NodeId.step "a") []).on expanded).1 =
      .error (.notExpandable (NodeId.step "a")) := rfl
  exact Prod.ext he (hrefused _ _ _ _ (Prod.ext he rfl))

end Feedback

end Workplan
