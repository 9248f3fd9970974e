import Workplan.Proofs.Plan.Progress

/-! Failures: what is skipped when a node fails. The search follows successors and goes no further where a
node is not pending, so that a node that is not pending could hide pending ones behind it. None does. As
long as nothing has gone wrong, only idle resources are skipped; whoever waits for one of them would have
ended by then, but without the resource it cannot even have started, so that nobody waits for it. And once
something has gone wrong, nothing is pending any more by the time the next node fails
(`Plan.Phase`). -/
namespace Workplan
open Relation
set_option autoImplicit false

namespace Plan

/-! ## The search -/

/-- The search skips nodes one after the other until its queue is empty. -/
inductive Spreads (reason : String) : Plan → List NodeId → List NodeId → Plan → Prop where
  | done (p : Plan) : Spreads reason p [] [] p
  | skip {p p' : Plan} {id : NodeId} {queue ids : List NodeId} (hp : p.isPending id = true)
    (h : Spreads reason (p.setStatus id (.skipped reason)) (queue ++ p.successorsOf id) ids p') :
    Spreads reason p (id :: queue) (id :: ids) p'
  | pass {p p' : Plan} {id : NodeId} {queue ids : List NodeId} (hp : p.isPending id = false)
    (h : Spreads reason p queue ids p') : Spreads reason p (id :: queue) ids p'

/-- The number of edges to the successors of pending nodes. -/
def load (p : Plan) : Nat :=
  ((p.nodes.toList.filter fun e => p.isPending e.1).flatMap fun e => e.2.successors.toList).length

section Search
variable {p p' : Plan} {reason : String} {id x y : NodeId} {queue ids : List NodeId} {n : Node}

theorem mem_successorsOf : y ∈ p.successorsOf x ↔ p.nodes.Feeds x y := by
  rw [successorsOf, NodeMap.Feeds, node?]
  cases p.nodes.get? x with
  | none => simp
  | some n => simp [SortedSet.mem_def]

theorem successorsOf_eq (hn : p.node? id = some n) : p.successorsOf id = n.successors.toList := by
  rw [successorsOf, hn]

/-- The edges from some entries of a map, counted with and without those from one of them. -/
theorem length_edges_eq_add {l : List (NodeId × Node)} (hl : (l.map Prod.fst).Nodup)
    (hid : (id, n) ∈ l) {P Q : NodeId → Bool} (hP : P id = true) (hQ : Q id = false)
    (hne : ∀ x, x ≠ id → Q x = P x) :
    ((l.filter fun e => P e.1).flatMap fun e => e.2.successors.toList).length =
      ((l.filter fun e => Q e.1).flatMap fun e => e.2.successors.toList).length +
        n.successors.toList.length := by
  obtain ⟨a, b, rfl⟩ := List.append_of_mem hid
  have hother : ∀ {e}, e ∈ a ∨ e ∈ b → P e.1 = Q e.1 := by
    intro e he
    refine (hne _ ?_).symm
    rw [List.map_append, List.map_cons, List.nodup_append, List.nodup_cons] at hl
    rcases he with he | he
    · exact hl.2.2 _ (List.mem_map_of_mem he) _ List.mem_cons_self
    · rintro rfl
      exact hl.2.1.1 (List.mem_map.2 ⟨_, he, rfl⟩)
  have ha : (a.filter fun e => P e.1) = a.filter fun e => Q e.1 :=
    List.filter_congr fun e he => hother (.inl he)
  have hb : (b.filter fun e => P e.1) = b.filter fun e => Q e.1 :=
    List.filter_congr fun e he => hother (.inr he)
  simp only [List.filter_append, List.filter_cons, hP, hQ, ha, hb, if_true, Bool.false_eq_true,
    if_false, List.flatMap_append, List.flatMap_cons, List.length_append]
  omega

theorem load_eq_add (hnodes : p'.nodes = p.nodes) (hn : p.node? id = some n)
    (hp : p.isPending id = true) (hp' : p'.isPending id = false)
    (hne : ∀ x, x ≠ id → p'.isPending x = p.isPending x) :
    p.load = p'.load + n.successors.toList.length := by
  rw [load, load, hnodes]
  exact length_edges_eq_add p.nodes.nodup_keys ((SortedMap.mem_toList_iff _ _ _).2 hn) hp hp' hne

theorem spreads_skipFrom (reason : String) (fuel : Nat) {p : Plan} {queue : List NodeId}
    (hnode : ∀ {id}, p.isPending id = true → ∃ n, p.node? id = some n)
    (hf : queue.length + p.load ≤ fuel) (skipped : List NodeId) :
    ∃ ids, (skipFrom reason fuel p queue skipped).2 = skipped ++ ids ∧
      Spreads reason p queue ids (skipFrom reason fuel p queue skipped).1 := by
  induction fuel generalizing p queue skipped with
  | zero =>
    obtain rfl : queue = [] := List.length_eq_zero_iff.1 (by omega)
    exact ⟨[], (List.append_nil _).symm, .done p⟩
  | succ fuel ih =>
    cases queue with
    | nil => exact ⟨[], (List.append_nil _).symm, .done p⟩
    | cons id queue =>
      rw [List.length_cons] at hf
      rw [skipFrom]
      split
      next hp =>
        obtain ⟨n, hn⟩ := hnode hp
        have hskip : Skips reason p [id] (p.setStatus id (.skipped reason)) := .setStatus hp
        have hload : p.load = (p.setStatus id (.skipped reason)).load + n.successors.toList.length := by
          refine load_eq_add rfl hn hp ?_ fun x hx => ?_
          · rw [Bool.eq_false_iff]
            exact fun h => (hskip.isPending.1 h).2 (List.mem_singleton_self _)
          · rw [Bool.eq_iff_iff, hskip.isPending, List.mem_singleton]
            exact and_iff_left hx
        have hle : (queue ++ p.successorsOf id).length +
            (p.setStatus id (.skipped reason)).load ≤ fuel := by
          rw [List.length_append, successorsOf_eq hn]
          omega
        have hnode' : ∀ {x}, (p.setStatus id (.skipped reason)).isPending x = true →
            ∃ n, p.node? x = some n := fun h => hnode (hskip.isPending.1 h).1
        obtain ⟨ids, he, hs⟩ := ih hnode' hle (skipped ++ [id])
        exact ⟨id :: ids, by rw [he, List.append_assoc]; rfl, .skip hp hs⟩
      next hp =>
        have hle : queue.length + p.load ≤ fuel := by omega
        obtain ⟨ids, he, hs⟩ := ih hnode hle skipped
        exact ⟨ids, he, .pass (Bool.eq_false_iff.2 hp) hs⟩

namespace Spreads

theorem skips (h : Spreads reason p queue ids p') : Skips reason p ids p' := by
  induction h with
  | done p => exact .refl p
  | skip hp _ ih => exact (Skips.setStatus hp).trans ih
  | pass _ _ ih => exact ih

theorem not_isPending (h : Spreads reason p queue ids p') (hx : x ∈ queue) :
    p'.isPending x = false := by
  induction h with
  | done p => cases hx
  | skip hp h ih =>
    rcases List.mem_cons.1 hx with rfl | hx
    · rw [Bool.eq_false_iff]
      exact fun hp' => ((Spreads.skip hp h).skips.isPending.1 hp').2 List.mem_cons_self
    · exact ih (List.mem_append_left _ hx)
  | pass hp h ih =>
    rcases List.mem_cons.1 hx with rfl | hx
    · rw [Bool.eq_false_iff]
      intro hp'
      rw [(h.skips.isPending.1 hp').1] at hp
      cases hp
    · exact ih hx

theorem not_isPending_of_feeds (h : Spreads reason p queue ids p') (hx : x ∈ ids)
    (hxy : p.nodes.Feeds x y) : p'.isPending y = false := by
  induction h with
  | done p => cases hx
  | skip hp h ih =>
    rcases List.mem_cons.1 hx with rfl | hx
    · exact h.not_isPending (List.mem_append_right _ (mem_successorsOf.2 hxy))
    · exact ih hx hxy
  | pass _ _ ih => exact ih hx hxy

theorem exists_reaches (h : Spreads reason p queue ids p') (hx : x ∈ ids) :
    ∃ q ∈ queue, ReflTransGen p.nodes.Feeds q x := by
  induction h with
  | done p => cases hx
  | @skip p p' id queue ids hp h ih =>
    rcases List.mem_cons.1 hx with rfl | hx
    · exact ⟨x, List.mem_cons_self, .refl⟩
    · obtain ⟨q, hq, hqx⟩ := ih hx
      rcases List.mem_append.1 hq with hq | hq
      · exact ⟨q, List.mem_cons_of_mem id hq, hqx⟩
      · exact ⟨id, List.mem_cons_self, .head (mem_successorsOf.1 hq) hqx⟩
  | pass _ _ ih =>
    obtain ⟨q, hq, hqx⟩ := ih hx
    exact ⟨q, List.mem_cons_of_mem _ hq, hqx⟩

end Spreads

/-- The search has enough steps, for every edge is followed once at most. -/
theorem length_successorsOf_add_load_le (hn : p.node? id = some n) (hp : p.isPending id = false) :
    (p.successorsOf id).length + p.load ≤ p.successorCount := by
  have hsum := length_edges_eq_add (P := fun x => p.isPending x || decide (x = id))
    (Q := p.isPending) p.nodes.nodup_keys ((SortedMap.mem_toList_iff _ _ _).2 hn) (by simp) hp
    fun x hx => by simp [hx]
  have hle : ((p.nodes.toList.filter fun e => p.isPending e.1 || decide (e.1 = id)).flatMap
      fun e => e.2.successors.toList).length ≤ p.successorCount := by
    rw [successorCount, SortedMap.values, List.flatMap_map]
    exact (List.filter_sublist.flatMap _).length_le
  rw [successorsOf_eq hn, load]
  omega

end Search

section Failure
variable {g : Graph} {E : Expansions} {p : Plan} {id x y : NodeId}

theorem Sound.dual (hs : p.Sound g E) (hg : g.Sound) : p.nodes.Dual where
  id_eq := hs.unfolds.linked.id_eq
  predecessors := by
    intro id n q hn hq
    obtain ⟨⟨m, hm⟩, -⟩ := hs.exists_of_mem_predecessors hg hn hq
    exact ⟨m, hm, (hs.unfolds.linked.mem_successors hm).2 ⟨n, hn, hq⟩⟩
  successors := fun hn hq => (hs.unfolds.linked.mem_successors hn).1 hq

theorem Sound.spreads_markFailed (hs : p.Sound g E) (hrun : p.status? id = some .running)
    (message : String) : Spreads s!"dependency {id.text} failed" (p.setStatus id (.failed message))
      (p.successorsOf id) (p.markFailed id message).2 (p.markFailed id message).1 := by
  have hs' := hs.setStatus_of_running hrun (s := .failed message) rfl
  obtain ⟨n, hn⟩ := hs.node_of_status hrun
  have hp : (p.setStatus id (.failed message)).isPending id = false := by
    rw [isPending, status?_setStatus, if_pos rfl, hrun]
    rfl
  have hle := length_successorsOf_add_load_le (p := p.setStatus id (.failed message)) hn hp
  obtain ⟨ids, he, h⟩ := spreads_skipFrom s!"dependency {id.text} failed" _
    (fun hp => hs'.node_of_isPending hp) (Nat.le_succ_of_le hle) []
  rw [List.nil_append] at he
  rw [← he] at h
  exact h

/-- What is behind a node that has not succeeded is pending, or a resource that nobody waits for. -/
theorem Clean.isPending_or (hc : p.Clean) (hg : g.Sound) (hs : p.Sound g E)
    (hx : p.hasSucceeded x = false) (hxy : p.nodes.Feeds x y) :
    p.isPending y = true ∨ ∀ z, ¬ p.nodes.Feeds y z := by
  obtain ⟨m, hm, hxm⟩ := (hs.dual hg).feeds_iff.1 hxy
  have hstarted : p.hasStarted y = false := by
    rw [Bool.eq_false_iff]
    intro hst
    cases hx.symm.trans (hs.gated hm hst hxm)
  obtain ⟨st, hst⟩ := hs.status.2 ⟨m, hm⟩
  rw [hasStarted, hst] at hstarted
  cases st with
  | pending => exact .inl (isPending_iff.2 hst)
  | running => cases hstarted
  | succeeded => cases hstarted
  | failed message => cases hstarted
  | skipped reason =>
    right
    intro z hyz
    obtain ⟨-, name, rfl, hended⟩ := hc.skipped hst
    obtain ⟨n, hn, hyn⟩ := (hs.dual hg).feeds_iff.1 hyz
    have hname := (hs.unfolds.uses_of_mem_predecessors hg hn hyn).1
    obtain ⟨st', hst', hterm⟩ := hended z ⟨n, hn, hname⟩
    -- what waits for the skipped resource has not started, and is no resource to be skipped itself
    have hwaits : p.hasStarted z = false := by
      rw [Bool.eq_false_iff]
      intro hz
      cases hst.symm.trans (hasSucceeded_iff.1 (hs.gated hn hz hyn))
    rw [hasStarted, hst'] at hwaits
    cases st' with
    | pending => cases hterm
    | running => cases hwaits
    | succeeded => cases hwaits
    | failed message => cases hwaits
    | skipped reason' =>
      obtain ⟨-, name', rfl, -⟩ := hc.skipped hst'
      have hk := NodeKind.isResource_of_mem_uses hname
      rw [← hs.unfolds.isResource_eq hn hg, NodeId.isResource_resource] at hk
      cases hk

/-- What the failure of a node comes to. -/
structure Fallout (p : Plan) (id : NodeId) (message : String) (p' : Plan) (ids : List NodeId) :
    Prop where
  ends : Spreads s!"dependency {id.text} failed" (p.setStatus id (.failed message))
    (p.successorsOf id) ids p'
  nodup : ids.Nodup
  mem : ∀ {x}, x ∈ ids ↔ p.isPending x = true ∧ TransGen p.nodes.Feeds id x
  status : ∀ x, p'.status? x = if x = id then some (.failed message)
    else if x ∈ ids then some (.skipped s!"dependency {id.text} failed") else p.status? x
  nodes : p'.nodes = p.nodes
  order : p'.order = p.order
  results : p'.results = p.results
  /-- Nobody is left waiting for a node that has failed. -/
  cut : ∀ {x y m}, p'.isPending x = true → TransGen p'.nodes.Waits x y →
    p'.status? y ≠ some (.failed m)

theorem isPending_setStatus_failed (hrun : p.status? id = some .running) (message : String) :
    (p.setStatus id (.failed message)).isPending x = p.isPending x := by
  rw [isPending, isPending, status?_setStatus]
  split
  next hx => simp [hx, hrun]
  next => rfl

/-- In a clean plan the search finds whatever waits for the node. -/
theorem Clean.mem_of_reaches (hc : p.Clean) (hg : g.Sound) (hs : p.Sound g E)
    (hrun : p.status? id = some .running) (message : String) (hx : TransGen p.nodes.Feeds id x) :
    (p.isPending x = true → x ∈ (p.markFailed id message).2) ∧
      (p.isPending x = true ∨ ∀ z, ¬ p.nodes.Feeds x z) := by
  have hspread := hs.spreads_markFailed hrun message
  have hfound : ∀ {x}, (p.markFailed id message).1.isPending x = false → p.isPending x = true →
      x ∈ (p.markFailed id message).2 := by
    intro x hx hp
    by_contra hnot
    rw [hspread.skips.isPending.2 ⟨(isPending_setStatus_failed hrun message).trans hp, hnot⟩] at hx
    cases hx
  -- along the path: a node that has a successor is pending, so that it is found and its successors are
  induction hx with
  | single hx =>
    have hrunning : p.hasSucceeded id = false := by
      rw [hasSucceeded, hrun]
      rfl
    exact ⟨hfound (hspread.not_isPending (mem_successorsOf.2 hx)), hc.isPending_or hg hs hrunning hx⟩
  | tail _ hyx ih =>
    have hy := ih.2.resolve_right fun hbarren => hbarren _ hyx
    have hwaiting : ∀ {y}, p.isPending y = true → p.hasSucceeded y = false := by
      intro y hy
      rw [hasSucceeded, isPending_iff.1 hy]
      rfl
    exact ⟨hfound (hspread.not_isPending_of_feeds (ih.1 hy) hyx),
      hc.isPending_or hg hs (hwaiting hy) hyx⟩

/-- A failure skips what waits for the node, in a clean plan or in one with nothing pending. -/
theorem Sound.fallout (hs : p.Sound g E) (hg : g.Sound)
    (hopen : p.Clean ∨ ∀ x, p.isPending x = false) (hrun : p.status? id = some .running)
    (message : String) :
    p.Fallout id message (p.markFailed id message).1 (p.markFailed id message).2 := by
  have hspread := hs.spreads_markFailed hrun message
  have hskips := hspread.skips
  have hpending := fun {x} => isPending_setStatus_failed (x := x) hrun message
  have hmem : ∀ {x}, x ∈ (p.markFailed id message).2 ↔
      p.isPending x = true ∧ TransGen p.nodes.Feeds id x := by
    intro x
    constructor
    · intro hx
      obtain ⟨q, hq, hqx⟩ := hspread.exists_reaches hx
      exact ⟨hpending.symm.trans (hskips.pending x hx),
        .head' (mem_successorsOf.1 hq) hqx⟩
    · rintro ⟨hp, hx⟩
      rcases hopen with hc | hnone
      · exact (hc.mem_of_reaches hg hs hrun message hx).1 hp
      · rw [hnone] at hp
        cases hp
  have hid : id ∉ (p.markFailed id message).2 := by
    intro hm
    have hp := (hmem.1 hm).1
    rw [isPending, hrun] at hp
    cases hp
  have hstatus : ∀ x, (p.markFailed id message).1.status? x = if x = id then some (.failed message)
      else if x ∈ (p.markFailed id message).2 then some (.skipped s!"dependency {id.text} failed")
      else p.status? x := by
    intro x
    rw [hskips.status, status?_setStatus]
    by_cases hx : x = id
    · rw [hx, if_neg hid, if_pos rfl, if_pos rfl, hrun]
      rfl
    · rw [if_neg hx, if_neg hx]
  refine ⟨hspread, hskips.nodup, hmem, hstatus, hskips.nodes, hskips.order, hskips.results, ?_⟩
  intro x y m hx hxy hy
  obtain ⟨hpx, hnot⟩ := hskips.isPending.1 hx
  rw [hpending] at hpx
  rcases hopen with hc | hnone
  · -- no other node has failed, so that `x` waits for `id`
    have hyid : y = id := by
      by_contra hne
      rw [hstatus, if_neg hne] at hy
      split at hy
      next => cases hy
      next => exact hc.failed hy
    rw [hyid, hskips.nodes, nodes_setStatus, ← (hs.dual hg).swap_feeds, transGen_swap] at hxy
    exact hnot (hmem.2 ⟨hpx, hxy⟩)
  · rw [hnone] at hpx
    cases hpx

end Failure

/-! ## Phases -/

/-- How a plan is being worked on. Once a node has failed, or the work has been called off, nothing is
started any more, and whatever makes nodes pending is followed by skipping them. -/
inductive Phase where
  /-- Nothing has gone wrong. -/
  | accepting
  /-- What is pending has to be skipped before anything else. -/
  | stopping
  /-- Nothing is started any more. -/
  | stopped
deriving DecidableEq

namespace Phase

/-- The phase after an operation, if that belongs into the phase. -/
def next : Phase → PlanAction → Option Phase
  | .accepting, .fail _ _ => some .stopping
  | .accepting, .skipPending _ => some .stopped
  | .accepting, _ => some .accepting
  | .stopping, .succeed _ _ => some .stopping
  | .stopping, .skipIdle => some .stopping
  | .stopping, .skipPending _ => some .stopped
  | .stopping, _ => none
  | .stopped, .start _ => none
  | .stopped, .fail _ _ => some .stopping
  | .stopped, .expand _ _ => some .stopping
  | .stopped, _ => some .stopped

def after (h : History) : Option Phase := h.foldlM (fun phase e => phase.next e.2) .accepting

end Phase

section Phase
variable {g : Graph} {h : History} {p p' : Plan} {a : PlanAction} {phase phase' : Phase}

def Phase.Holds (p : Plan) : Phase → Prop
  | .accepting => p.Clean
  | .stopping => True
  | .stopped => ∀ x, p.isPending x = false

theorem Phase.after_append (h : History) (p : Plan) (a : PlanAction) :
    Phase.after (h ++ [(p, a)]) = (Phase.after h).bind fun phase => phase.next a := by
  rw [after, List.foldlM_append]
  exact congrArg _ (funext fun phase => bind_pure _)

theorem Phase.next_eq_accepting (hn : phase.next a = some .accepting) :
    phase = .accepting ∧ a.isSmooth = true := by
  cases phase <;> cases a <;> first | exact ⟨rfl, rfl⟩ | cases hn

theorem Phase.next_eq_stopped (hn : phase.next a = some .stopped) : (∃ reason, a = .skipPending reason) ∨
    phase = .stopped ∧ (a = .skipIdle ∨ ∃ id output, a = .succeed id output) := by
  cases phase <;> cases a <;> first
    | exact .inl ⟨_, rfl⟩
    | exact .inr ⟨rfl, .inl rfl⟩
    | exact .inr ⟨rfl, .inr ⟨_, _, rfl⟩⟩
    | cases hn

theorem Performs.holds (hg : g.Sound) (hs : p.Sound g (expansionsOf h)) (ha : Performs p a p')
    (once : ∀ id vars, a = .expand id vars → expansionsOf h id = none)
    (hn : phase.next a = some phase') (hp : phase.Holds p) : phase'.Holds p' := by
  cases phase' with
  | accepting =>
    obtain ⟨rfl, hsmooth⟩ := Phase.next_eq_accepting hn
    exact ha.clean hg hs hp hsmooth once
  | stopping => trivial
  | stopped =>
    intro x
    rcases Phase.next_eq_stopped hn with ⟨reason, rfl⟩ | ⟨rfl, rfl | ⟨id, output, rfl⟩⟩
    · cases ha with
      | skipPending => exact hs.not_isPending_skipPending reason x
    · cases ha with
      | skipIdle =>
        rw [Bool.eq_false_iff]
        intro hx
        cases (hp x).symm.trans (hs.skips_skipIdleResources.isPending.1 hx).1
    · cases ha with
      | succeed _ hrun =>
        rw [isPending, status?_markSucceeded]
        split
        next hx => simp [hx, hrun]
        next => exact hp x

theorem Leads.holds (hg : g.Sound) (hl : Leads (ofGraph g) h p) (hphase : Phase.after h = some phase) :
    phase.Holds p := by
  induction hl generalizing phase with
  | start =>
    cases hphase
    exact .ofGraph g
  | perform hl ha once ih =>
    rw [Phase.after_append, Option.bind_eq_some_iff] at hphase
    obtain ⟨phase₀, h₀, hn⟩ := hphase
    exact ha.holds hg (hl.sound hg) once hn (ih h₀)

end Phase

end Plan

/-- A node of a built graph that fails takes with it what waits for it, and nothing else, whatever has been
done with the plan before, as long as the operations belonged into their phases. -/
theorem Graph.fallout_of_build {defs : Definitions} {registry : Registry} {g : Graph}
    (hb : Graph.build defs registry = .ok g) (hp : defs.PlainNames) {h : Plan.History} {p : Plan}
    (hl : Plan.Leads (Plan.ofGraph g) h p) {phase : Plan.Phase} (hphase : Plan.Phase.after h = some phase)
    (hready : phase ≠ .stopping) {id : NodeId} (hrun : p.status? id = some .running) (message : String) :
    p.Fallout id message (p.markFailed id message).1 (p.markFailed id message).2 := by
  have hg := Graph.sound_of_build hb hp
  have hs := hl.sound hg
  cases phase with
  | accepting => exact hs.fallout hg (.inl (hl.holds hg hphase)) hrun message
  | stopping => exact absurd rfl hready
  | stopped => exact hs.fallout hg (.inr (hl.holds hg hphase)) hrun message

namespace Chain

/-- Step `a` fails, and with it the resource that reads its answer and the step that uses this one. -/
theorem fails : (created.markRunning (NodeId.step "a")).Fallout (NodeId.step "a") "no"
    ((created.markRunning (NodeId.step "a")).markFailed (NodeId.step "a") "no").1
    [NodeId.resource "db", NodeId.step "b"] := by
  have hb : Graph.build definitions registry = .ok graph := rfl
  have hp : definitions.PlainNames := by
    unfold Definitions.PlainNames
    decide +kernel
  have hids : ((created.markRunning (NodeId.step "a")).markFailed (NodeId.step "a") "no").2 =
      [NodeId.resource "db", NodeId.step "b"] := by decide +kernel
  rw [← hids]
  exact Graph.fallout_of_build hb hp leads_running rfl (by decide) (by decide +kernel)
    "no"

end Chain

end Workplan
