import Workplan.Proofs.Graph.WellFormed
import Workplan.Proofs.Run.Failures

/-! Proceeding: what a run does with its tasks, whatever ids the nodes have. Two steps may share the id of a
node, and then a node can be started twice, or start without finding what it uses; but tasks have numbers
of their own. A run that goes on only appends the tasks of the nodes that it starts, with numbers that
have not been given out before, and every node that it starts is one that the definitions ask for. -/
namespace Workplan
set_option autoImplicit false

/-! ## Declared plans -/

namespace NodeMap

/-- Every node of the second map has the kind of one with its id in the first, or is one of those given. -/
def Draws (m : NodeMap) (ns : List Node) (m' : NodeMap) : Prop :=
  ∀ id n', m'.get? id = some n' → ∃ n, (m.get? id = some n ∨ n ∈ ns ∧ n.id = id) ∧ n'.kind = n.kind

namespace Draws
variable {m m' m'' : NodeMap} {ns ns' : List Node}

theorem refl (m : NodeMap) : m.Draws [] m := fun _ _ h => ⟨_, .inl h, rfl⟩

theorem trans (h : m.Draws ns m') (h' : m'.Draws ns' m'') : m.Draws (ns ++ ns') m'' := by
  intro id n'' hn''
  obtain ⟨n', hn' | ⟨hn', hid⟩, hk'⟩ := h' id n'' hn''
  · obtain ⟨n, hn | ⟨hn, hid⟩, hk⟩ := h id n' hn'
    · exact ⟨n, .inl hn, hk'.trans hk⟩
    · exact ⟨n, .inr ⟨List.mem_append_left _ hn, hid⟩, hk'.trans hk⟩
  · exact ⟨n', .inr ⟨List.mem_append_right _ hn', hid⟩, hk'⟩

theorem of_map {f : NodeId → Node → Node} (hf : ∀ id n, (f id n).kind = n.kind)
    (h : ∀ id, m'.get? id = (m.get? id).map (f id)) : m.Draws [] m' := by
  intro id n' hn'
  rw [h] at hn'
  obtain ⟨n, hn, rfl⟩ := Option.map_eq_some_iff.1 hn'
  exact ⟨n, .inl hn, hf id n⟩

theorem link (m : NodeMap) (n : Node) : m.Draws [] (Plan.link m n) :=
  of_map (f := fun x y => y.addSuccessors (targets n.inEdges x)) (fun _ _ => rfl) (get?_link m n)

theorem insertLinked (m : NodeMap) (n : Node) : m.Draws [n] (m.insertLinked n) := by
  intro id n' hn'
  rw [NodeMap.insertLinked, SortedMap.get?_insert] at hn'
  split at hn'
  next he =>
    cases hn'
    exact ⟨n, .inr ⟨List.mem_singleton.2 rfl, he.symm⟩, rfl⟩
  next =>
    obtain ⟨x, hx | ⟨hx, -⟩, hk⟩ := link m n id n' hn'
    · exact ⟨x, .inl hx, hk⟩
    · cases hx

theorem foldl_insertLinked (ns : List Node) (m : NodeMap) :
    m.Draws ns (ns.foldl NodeMap.insertLinked m) := by
  induction ns generalizing m with
  | nil => exact refl m
  | cons n ns ih => exact (insertLinked m n).trans (ih _)

theorem rebind (m : NodeMap) (c : NodeId × List Binding) : m.Draws [] (Plan.rebind m c) := by
  cases hn : m.get? c.1 with
  | none =>
    simp only [Plan.rebind, hn]
    exact refl m
  | some n =>
    refine of_map (f := fun x y => (if x = c.1 then y.rebound c.2 else y).addSuccessors
      (targets (n.rebound c.2).inEdges x)) (fun x y => ?_) (get?_rebind m c hn)
    rw [Node.kind_addSuccessors]
    split
    next => rfl
    next => rfl

theorem foldl_rebind (changes : List (NodeId × List Binding)) (m : NodeMap) :
    m.Draws [] (changes.foldl Plan.rebind m) := by
  induction changes generalizing m with
  | nil => exact refl m
  | cons c changes ih => exact (rebind m c).trans (ih _)

theorem spliced (m : NodeMap) (p : NodeId) (ns : List Node) (changes : List (NodeId × List Binding)) :
    m.Draws ns (Plan.spliced m p ns changes) := by
  have hcut : (changes.foldl Plan.rebind (ns.foldl NodeMap.insertLinked m)).Draws []
      (Plan.spliced m p ns changes) := by
    refine of_map (f := fun id n => if id = p then { n with successors := .empty } else n) ?_ ?_
    · intro id n
      split
      next => rfl
      next => rfl
    · intro id
      rw [Plan.spliced, SortedMap.get?_modify]
      split
      next => rfl
      next => rw [Option.map_id']
  have h := ((foldl_insertLinked ns m).trans (foldl_rebind changes _)).trans hcut
  rwa [List.append_nil, List.append_nil] at h

end Draws
end NodeMap

namespace Plan

/-- Every node is one that the definitions ask for, and has a status. -/
structure Declared (defs : Definitions) (p : Plan) : Prop where
  kind : ∀ {id n}, p.node? id = some n → n.kind.Declared defs
  status : ∀ {id n}, p.node? id = some n → (p.status? id).isSome = true

section Declared
variable {defs : Definitions} {p p' : Plan} {id : NodeId}

theorem Declared.congr (h : p.Declared defs) (hn : p'.nodes = p.nodes)
    (hs : ∀ {id}, (p.status? id).isSome = true → (p'.status? id).isSome = true) :
    p'.Declared defs := by
  constructor
  case kind =>
    intro id n h'
    rw [node?, hn] at h'
    exact h.kind h'
  case status =>
    intro id n h'
    rw [node?, hn] at h'
    exact hs (h.status h')

theorem isSome_setStatus {s : NodeStatus} {x : NodeId} (h : (p.status? x).isSome = true) :
    ((p.setStatus id s).status? x).isSome = true := by
  rw [status?_setStatus]
  split
  next => rwa [Option.isSome_map]
  next => exact h

theorem isSome_foldl_setStatus {s : NodeStatus} {x : NodeId} (l : List NodeId) (p : Plan)
    (h : (p.status? x).isSome = true) :
    ((l.foldl (fun p id => p.setStatus id s) p).status? x).isSome = true := by
  induction l generalizing p with
  | nil => exact h
  | cons id l ih => exact ih _ (isSome_setStatus h)

theorem nodes_foldl_setStatus {s : NodeStatus} (l : List NodeId) (p : Plan) :
    (l.foldl (fun p id => p.setStatus id s) p).nodes = p.nodes := by
  induction l generalizing p with
  | nil => rfl
  | cons id l ih => exact ih _

theorem Skips.isSome {reason : String} {ids : List NodeId} (h : Skips reason p ids p') {x : NodeId}
    (hx : (p.status? x).isSome = true) : (p'.status? x).isSome = true := by
  rw [h.status]
  split
  next => rfl
  next => exact hx

theorem isSome_expand {vars : List LoopVars} {children : List NodeId}
    (h : p.expand id vars = .ok (p', children)) {x : NodeId} (hx : (p.status? x).isSome = true) :
    (p'.status? x).isSome = true := by
  obtain ⟨node, replication, template, changes, -, -, -, -, rfl, rfl⟩ := expand_eq_ok.1 h
  rw [status?, get?_foldl_insert_pending]
  split
  next => rfl
  next => exact hx

theorem Declared.expand (hp : p.Declared defs) {vars : List LoopVars} {children : List NodeId}
    (h : p.expand id vars = .ok (p', children)) : p'.Declared defs := by
  obtain ⟨node, replication, template, changes, hnode, hk, -, -, hchildren, hp'⟩ := expand_eq_ok.1 h
  have hdraw : p.nodes.Draws (instanceNodes template
      (node.bindings.filter fun b => b.role ≠ .replication) vars) p'.nodes := by
    rw [hp']
    exact .spliced _ _ _ _
  have htemplate := hp.kind hnode
  rw [hk] at htemplate
  constructor
  case kind =>
    intro x n' hn'
    obtain ⟨n, hn | ⟨hn, -⟩, he⟩ := hdraw x n' hn'
    · rw [he]
      exact hp.kind hn
    · obtain ⟨i, v, -, rfl⟩ := mem_instanceNodes.1 hn
      rw [he]
      cases htemplate with
      | expansion hs hr => exact .step hs (some i) v
  case status =>
    intro x n' hn'
    obtain ⟨n, hn | ⟨hn, hid⟩, -⟩ := hdraw x n' hn'
    · exact isSome_expand h (hp.status hn)
    · have hmem : x ∈ children := by
        rw [hchildren, ← map_id_instanceNodes, ← hid]
        exact List.mem_map_of_mem hn
      rw [hp', status?, get?_foldl_insert_pending, if_pos hmem]
      rfl

end Declared
end Plan

/-! ## Going on -/

namespace Run

/-- The task that a node gets when it is started. -/
def startedTask? (x : Run × NodeId) : Option Task := ((x.1.begun x.2).prepare x.2).toOption

theorem startedTask?_eq_some {x : Run × NodeId} {t : Task} :
    startedTask? x = some t ↔ (x.1.begun x.2).prepare x.2 = .ok t := by
  rw [startedTask?]
  cases (x.1.begun x.2).prepare x.2 with
  | ok u => simp [Except.toOption]
  | error e => simp [Except.toOption]

/-- How a run goes on that starts nodes. -/
structure Proceeds (defs : Definitions) (r : Run) (l : List (Run × NodeId)) (r' : Run) : Prop where
  settings : r'.settings = r.settings
  phase : r'.phase = r.phase
  tasks : r'.tasks = r.tasks ++ l.filterMap startedTask?
  next : r.next ≤ r'.next
  fresh : ∀ t ∈ l.filterMap startedTask?, r.next ≤ t.number
  numbered : r.Numbered → r'.Numbered
  known : ∀ {id}, (r.plan.status? id).isSome = true → (r'.plan.status? id).isSome = true
  declared : r.plan.Declared defs → r'.plan.Declared defs
  starts : r.plan.Declared defs → ∀ x ∈ l, x.1.plan.Declared defs ∧ x.1.settings = r.settings
  kept : ∀ x ∈ l, (x.1.plan.status? x.2).isSome = true → (r'.plan.status? x.2).isSome = true

namespace Proceeds
variable {defs : Definitions} {r r' r'' : Run} {l l' : List (Run × NodeId)} {id : NodeId}

theorem trans (h : Proceeds defs r l r') (h' : Proceeds defs r' l' r'') :
    Proceeds defs r (l ++ l') r'' where
  settings := h'.settings.trans h.settings
  phase := h'.phase.trans h.phase
  tasks := by rw [h'.tasks, h.tasks, List.filterMap_append, List.append_assoc]
  next := Nat.le_trans h.next h'.next
  fresh := by
    intro t ht
    rw [List.filterMap_append] at ht
    rcases List.mem_append.1 ht with ht | ht
    · exact h.fresh t ht
    · exact Nat.le_trans h.next (h'.fresh t ht)
  numbered := fun hn => h'.numbered (h.numbered hn)
  known := fun hx => h'.known (h.known hx)
  declared := fun hp => h'.declared (h.declared hp)
  starts := by
    intro hp x hx
    rcases List.mem_append.1 hx with hx | hx
    · exact h.starts hp x hx
    · obtain ⟨hd, hs⟩ := h'.starts (h.declared hp) x hx
      exact ⟨hd, hs.trans h.settings⟩
  kept := by
    intro x hx hs
    rcases List.mem_append.1 hx with hx | hx
    · exact h'.known (h.kept x hx hs)
    · exact h'.kept x hx hs

theorem quiet (hs : r'.settings = r.settings) (hp : r'.phase = r.phase) (ht : r'.tasks = r.tasks)
    (hn : r.next ≤ r'.next) (hnum : r.Numbered → r'.Numbered) (hplan : r'.plan = r.plan) :
    Proceeds defs r [] r' where
  settings := hs
  phase := hp
  tasks := by rw [ht, List.filterMap_nil, List.append_nil]
  next := hn
  fresh := fun t h => by cases h
  numbered := hnum
  known := fun hx => by rwa [hplan]
  declared := fun hd => by rwa [hplan]
  starts := fun _ x hx => by cases hx
  kept := fun x hx => by cases hx

theorem refl (r : Run) : Proceeds defs r [] r :=
  quiet rfl rfl rfl (Nat.le_refl _) (fun h => h) rfl

theorem replan {p : Plan} (hn : p.nodes = r.plan.nodes)
    (hs : ∀ {id}, (r.plan.status? id).isSome = true → (p.status? id).isSome = true) :
    Proceeds defs r [] { r with plan := p } where
  settings := rfl
  phase := rfl
  tasks := by rw [List.filterMap_nil, List.append_nil]
  next := Nat.le_refl _
  fresh := fun t h => by cases h
  numbered := fun h => h.congr rfl rfl rfl
  known := hs
  declared := fun hd => hd.congr hn hs
  starts := fun _ x hx => by cases hx
  kept := fun x hx => by cases hx

theorem note (r : Run) (id : NodeId) (kind : EventKind) (time : Nat) :
    Proceeds defs r [] (r.note id kind time) :=
  quiet rfl rfl rfl (Nat.le_refl _) (fun h => h.congr rfl rfl rfl) rfl

theorem spawnDestroys (owner : Option NodeId) (r : Run) (l : List Released) :
    Proceeds defs r [] (Run.spawnDestroys owner r l).1 := by
  have ha := agree_spawnDestroys owner r l
  refine quiet ha.settings ha.phase ha.tasks ?_ (fun h => h.spawnDestroys owner l) ha.plan
  obtain ⟨ds, es, h⟩ := exists_spawns owner r l
  rw [h.eq]
  exact Nat.le_add_right _ _

theorem slots (r : Run) (s : Slots) : Proceeds defs r [] { r with slots := s } :=
  quiet rfl rfl rfl (Nat.le_refl _) (fun h => h.congr rfl rfl rfl) rfl

theorem deferred (r : Run) (d : SortedMap NodeId (Nat × Option Value)) :
    Proceeds defs r [] { r with deferred := d } :=
  quiet rfl rfl rfl (Nat.le_refl _) (fun h => h.congr rfl rfl rfl) rfl

theorem release (r : Run) (id : NodeId) : Proceeds defs r [] (r.release id).1 :=
  (slots r _).trans (spawnDestroys (some id) _ _)

/-! ### Skipping -/

theorem recordSkipped (r : Run) (ids : List NodeId) : Proceeds defs r [] (r.recordSkipped ids) := by
  induction ids generalizing r with
  | nil => exact refl r
  | cons id ids ih =>
    have hone : Proceeds defs r [] (r.recordSkippedOne id) :=
      (note r id .skipped r.now).trans (release _ id)
    exact hone.trans (ih _)

theorem skipPending (r : Run) (reason : String) : Proceeds defs r [] (r.skipPending reason).1 := by
  have hs := (Plan.skips_skipPending r.plan reason).1
  exact (replan hs.nodes hs.isSome).trans (recordSkipped _ _)

theorem skipIdle (r : Run) : Proceeds defs r [] r.skipIdle :=
  (replan (Plan.nodes_foldl_setStatus _ _) (Plan.isSome_foldl_setStatus _ _)).trans
    (recordSkipped _ _)

theorem skipUnlessAccepting (r : Run) : Proceeds defs r [] r.skipUnlessAccepting := by
  rw [Run.skipUnlessAccepting]
  split
  next => exact refl r
  next => exact skipPending r cancelReason

/-! ### Ends of nodes -/

theorem settle (r : Run) (id : NodeId) (output : Option Value) :
    Proceeds defs r [] (r.settle id output) := by
  refine replan (Plan.nodes_markSucceeded _ _ _) fun {x} hx => ?_
  rw [Plan.status?_markSucceeded]
  split
  next => rwa [Option.isSome_map]
  next => exact hx

theorem conclude (r : Run) (id : NodeId) (output : Option Value) :
    Proceeds defs r [] (r.conclude id output) := by
  simp only [Run.conclude]
  split
  next => exact (release r id).trans (settle _ id output)
  next => exact (release r id).trans (deferred _ _)

theorem succeed (r : Run) (id : NodeId) (output : Option Value) (time : Nat) :
    Proceeds defs r [] (r.succeed id output time) :=
  (note r id .succeeded time).trans (conclude _ id output)

theorem blame (r : Run) (id : NodeId) (e : RunError) : Proceeds defs r [] (r.blame id e) := by
  have hk := keeps_blame r id e
  have hnext : (r.blame id e).next = r.next := by rw [blame_eq]
  exact quiet hk.settings hk.phase (tasks_blame r id e) (Nat.le_of_eq hnext.symm)
    (fun h => h.blame id e) (plan_blame r id e)

theorem fail (r : Run) (id : NodeId) (e : RunError) (time : Nat) :
    Proceeds defs r [] (r.fail id e time) := by
  have hs := Plan.skips_markFailed r.plan id e.message
  have hmark : Proceeds defs (r.note id .failed time) []
      { r.note id .failed time with plan := (r.plan.markFailed id e.message).1 } :=
    replan hs.nodes fun hx => hs.isSome (Plan.isSome_setStatus hx)
  have hskip := ((note r id .failed time).trans hmark).trans (blame _ id e)
  have hrest := (hskip.trans (recordSkipped _ (r.plan.markFailed id e.message).2)).trans (release _ id)
  exact hrest.trans (skipUnlessAccepting _)

theorem expanded (r : Run) (id : NodeId) (vars : List LoopVars) (time : Nat) :
    Proceeds defs r [] (r.expanded id vars time) := by
  cases hx : r.plan.expand id vars with
  | error e =>
    rw [expanded_eq_error hx]
    exact fail r id _ time
  | ok pc =>
    have hplan : Proceeds defs r [] { r with plan := pc.1 } :=
      { refl r with
        known := Plan.isSome_expand hx
        declared := fun hd => hd.expand hx
        numbered := fun h => h.congr rfl rfl rfl
        kept := fun x hx => by cases hx }
    have hslots : Proceeds defs { r with plan := pc.1 } [] ({ r with plan := pc.1 }.addConsumers pc.2) :=
      slots _ _
    rw [expanded_eq_ok hx]
    exact (((hplan.trans hslots).trans (succeed _ id none time)).trans (skipIdle _)).trans
      (skipUnlessAccepting _)

theorem complete (r : Run) (id : NodeId) (result : WorkOutcome) (time : Nat) :
    Proceeds defs r [] (r.complete id result time) := by
  match result with
  | .error e => exact fail r id e time
  | .ok (.output v) => exact succeed r id (some v) time
  | .ok .created => exact succeed r id none time
  | .ok (.expanded vars) => exact expanded r id vars time

/-! ### Ends of destructions -/

theorem credit (r : Run) (owner : NodeId) : Proceeds defs r [] (r.credit owner) := by
  rw [Run.credit]
  split
  next => exact refl r
  next =>
    split
    next => exact deferred r _
    next => exact (deferred r _).trans (settle _ owner _)

theorem destroyDone (r : Run) (owner : NodeId) : Proceeds defs r [] (r.destroyDone owner) := by
  rcases destroyDone_cases r owner with ⟨-, h⟩ | h
  · rw [h]
    exact credit r owner
  · rw [h]
    exact (credit r owner).trans (skipIdle _)

theorem recordDestroy (r : Run) (t : DestroyTask) (result : DestroyResult) (time : Nat) :
    Proceeds defs r [] (r.recordDestroy t result time) := by
  have hnoted : ∀ es, Proceeds defs r [] (r.markDestroyed t.resource es time) := fun es =>
    quiet rfl rfl rfl (Nat.le_refl _) (fun h => h.congr rfl rfl rfl) rfl
  rcases recordDestroy_cases r t result time with ⟨-, h⟩ | ⟨es, ⟨-, h⟩ | ⟨owner, -, h⟩⟩
  · rw [h]
    exact refl r
  · rw [h]
    exact hnoted es
  · rw [h]
    exact (hnoted es).trans (destroyDone _ owner)

theorem foldl_settle (l : List (NodeId × (Nat × Option Value))) (r : Run) :
    Proceeds defs r [] (l.foldl (fun r e => r.settle e.1 e.2.2) r) := by
  induction l generalizing r with
  | nil => exact refl r
  | cons e l ih => exact (settle r e.1 e.2.2).trans (ih _)

theorem settleDeferred (r : Run) : Proceeds defs r [] r.settleDeferred :=
  (deferred r .empty).trans (foldl_settle _ _)

/-! ### Turns -/

theorem observe (r : Run) : Proceeds defs r [] r.observe := by
  rw [Run.observe]
  split
  next =>
    have hcancel : Proceeds defs r [] { r with cancelled := true } :=
      quiet rfl rfl rfl (Nat.le_refl _) (fun h => h.congr rfl rfl rfl) rfl
    exact hcancel.trans (skipPending _ cancelReason)
  next => exact refl r

theorem begun (r : Run) (id : NodeId) : Proceeds defs r [] (r.begun id) :=
  have hmark : Proceeds defs r [] { r with plan := r.plan.markRunning id } :=
    replan rfl Plan.isSome_setStatus
  hmark.trans (note { r with plan := r.plan.markRunning id } id .started r.now)

theorem start (r : Run) (id : NodeId) : Proceeds defs r [(r, id)] (r.start id) := by
  have hbegun : Proceeds defs r [] (r.begun id) := begun r id
  rcases start_cases r id with ⟨t, ht, h⟩ | ⟨e, he, h⟩
  · have hl : [(r, id)].filterMap startedTask? = [t] := by
      rw [List.filterMap_cons_some (startedTask?_eq_some.2 ht), List.filterMap_nil]
    obtain ⟨n, scope, work, -, -, -, htask⟩ := prepare_eq_ok ht
    have hnum : t.number = r.next := by rw [htask]; rfl
    rw [h]
    constructor
    case settings => rfl
    case phase => rfl
    case tasks => rw [hl]
    case next => exact Nat.le_succ _
    case fresh =>
      intro u hu
      rw [hl, List.mem_singleton] at hu
      exact Nat.le_of_eq (by rw [hu, hnum])
    case numbered => exact fun hn => (hbegun.numbered hn).enqueue hnum
    case known => exact hbegun.known
    case declared => exact hbegun.declared
    case starts =>
      intro hd x hx
      rw [List.mem_singleton.1 hx]
      exact ⟨hd, rfl⟩
    case kept =>
      intro x hx
      rw [List.mem_singleton.1 hx]
      exact hbegun.known
  · have hl : [(r, id)].filterMap startedTask? = [] := by
      rw [List.filterMap_cons_none, List.filterMap_nil]
      rw [startedTask?, he]
      rfl
    have hfail := hbegun.trans (fail (r.begun id) id e r.now)
    rw [h]
    exact { hfail with
      tasks := by rw [hl]; exact hfail.tasks
      fresh := fun u hu => by rw [hl] at hu; cases hu
      starts := fun hd x hx => by
        rw [List.mem_singleton.1 hx]
        exact ⟨hd, rfl⟩
      kept := fun x hx => by
        rw [List.mem_singleton.1 hx]
        exact hfail.known }

theorem startAll (r : Run) (ids : List NodeId) :
    Proceeds defs r (r.startsOfAll ids) (r.startAll ids) := by
  induction ids generalizing r with
  | nil => exact refl r
  | cons id ids ih =>
    rw [Run.startAll, startsOfAll]
    split
    next => exact (start r id).trans (ih _)
    next => exact refl r

theorem schedule (r : Run) : Proceeds defs r r.startsOfSchedule r.schedule := by
  rw [Run.schedule, startsOfSchedule]
  split
  next => exact startAll r _
  next => exact refl r

theorem scheduled (r : Run) : Proceeds defs r r.startsOfTurn r.scheduled := by
  have hfirst : Proceeds defs r r.observe.startsOfSchedule r.observe.schedule :=
    (observe r).trans (schedule r.observe)
  rw [startsOfTurn, Run.scheduled]
  split
  next =>
    have hgive : Proceeds defs r.observe.schedule [] r.observe.schedule.settleDeferred.observe :=
      (settleDeferred _).trans (observe _)
    exact hfirst.trans (hgive.trans (schedule _))
  next =>
    rw [List.append_nil]
    exact hfirst

end Proceeds
end Run

end Workplan
