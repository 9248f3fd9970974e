import Workplan.Proofs.Plan.Operations

/-! Readiness: how it changes when nodes are started. Starting a node makes no other node ready and keeps
the others that are, so that nodes which are ready together can be started one after the other. -/
namespace Workplan
set_option autoImplicit false

namespace Plan
variable {p p' : Plan} {g : Graph} {E : Expansions} {x y : NodeId}

theorem isDemanded_iff {n : Node} : p.isDemanded n = true ↔ ∃ c ∈ n.successors,
    p.isPending c = true ∧ ∃ m, p.node? c = some m ∧
      ∀ q ∈ m.predecessors, p.hasSucceeded q = true ∨ q.isResource = true := by
  rw [isDemanded, List.any_eq_true]
  refine exists_congr fun c => and_congr_right fun _ => ?_
  rw [Bool.and_eq_true]
  refine and_congr_right fun _ => ?_
  cases hm : p.node? c with
  | none => simp
  | some m =>
    simp only [List.all_eq_true, Bool.or_eq_true, Option.some.injEq, exists_eq_left']
    exact Iff.rfl

theorem hasWorkRemaining_iff : p.hasWorkRemaining = true ↔
    ∃ id s, p.status? id = some s ∧ s.isTerminal = false := by
  rw [hasWorkRemaining, List.any_eq_true]
  constructor
  · rintro ⟨s, hs, ht⟩
    obtain ⟨id, hid⟩ := SortedMap.mem_values.1 hs
    exact ⟨id, s, hid, by simpa using ht⟩
  · rintro ⟨id, s, hid, ht⟩
    exact ⟨s, SortedMap.mem_values.2 ⟨id, hid⟩, by simpa using ht⟩

theorem hasWorkRemaining_of_isPending (h : p.isPending x = true) : p.hasWorkRemaining = true :=
  hasWorkRemaining_iff.2 ⟨x, .pending, isPending_iff.1 h, rfl⟩

/-- Nothing gets ready when pending nodes become others that have not succeeded. -/
theorem isReady_of_fewer (hnodes : p'.nodes = p.nodes)
    (hpend : ∀ {x}, p'.isPending x = true → p.isPending x = true)
    (hsucc : ∀ {x}, p'.hasSucceeded x = true → p.hasSucceeded x = true)
    (h : p'.isReady x = true) : p.isReady x = true := by
  have hnode : ∀ x, p'.node? x = p.node? x := fun x => by rw [node?, node?, hnodes]
  obtain ⟨hp, n, hn, hq, hd⟩ := isReady_iff.1 h
  refine isReady_iff.2 ⟨hpend hp, n, (hnode x).symm.trans hn, fun q hm => hsucc (hq q hm),
    fun hr => ?_⟩
  obtain ⟨c, hc, hcp, m, hm, hmq⟩ := isDemanded_iff.1 (hd hr)
  exact isDemanded_iff.2 ⟨c, hc, hpend hcp, m, (hnode c).symm.trans hm,
    fun q hq => (hmq q hq).imp_left hsucc⟩

theorem hasSucceeded_markRunning (hy : p.isPending y = true) :
    (p.markRunning y).hasSucceeded x = p.hasSucceeded x :=
  Sound.hasSucceeded_setStatus (by rw [isPending_iff.1 hy]; decide) (by decide)

theorem hasSucceeded_markFailed (hy : p.status? y = some .running) (message : String) :
    (p.markFailed y message).1.hasSucceeded x = p.hasSucceeded x :=
  (skips_markFailed p y message).hasSucceeded.trans
    (Sound.hasSucceeded_setStatus (by rw [hy]; decide) (fun h => by cases h))

theorem isPending_markRunning : (p.markRunning y).isPending x = true ↔
    p.isPending x = true ∧ x ≠ y := by
  rw [isPending_iff, isPending_iff, markRunning, status?_setStatus]
  by_cases hx : x = y
  · subst hx
    rw [if_pos rfl]
    cases p.status? x <;> simp
  · rw [if_neg hx]
    simp [hx]

theorem isReady_of_markRunning (hy : p.isPending y = true) (h : (p.markRunning y).isReady x = true) :
    p.isReady x = true := by
  have hnodes : (p.markRunning y).nodes = p.nodes := rfl
  exact isReady_of_fewer hnodes (fun h => (isPending_markRunning.1 h).1)
    (fun h => (hasSucceeded_markRunning hy).symm.trans h) h

/-- Nodes that are ready together stay ready when one of them is started: the consumer that demands a
resource waits for it. -/
theorem Sound.isReady_markRunning (hs : p.Sound g E) (hx : p.isReady x = true)
    (hy : p.isReady y = true) (hne : x ≠ y) : (p.markRunning y).isReady x = true := by
  obtain ⟨hxp, n, hn, hq, hd⟩ := isReady_iff.1 hx
  obtain ⟨hyp, m, hm, hmq, -⟩ := isReady_iff.1 hy
  refine isReady_iff.2 ⟨isPending_markRunning.2 ⟨hxp, hne⟩, n, hn, fun q hm => ?_, fun hr => ?_⟩
  · rw [hasSucceeded_markRunning hyp]
    exact hq q hm
  · obtain ⟨c, hc, hcp, k, hk, hkq⟩ := isDemanded_iff.1 (hd hr)
    have hcy : c ≠ y := by
      rintro rfl
      cases hm.symm.trans hk
      obtain ⟨m', hm', hxc⟩ := (hs.unfolds.linked.mem_successors hn).1 hc
      cases hm.symm.trans hm'
      have := hasSucceeded_iff.1 (hmq x hxc)
      rw [isPending_iff.1 hxp] at this
      cases this
    refine isDemanded_iff.2 ⟨c, hc, isPending_markRunning.2 ⟨hcp, hcy⟩, k, hk, fun q hq => ?_⟩
    rw [hasSucceeded_markRunning hyp]
    exact hkq q hq

/-! ## Starting several nodes -/

theorem isPending_foldl_markRunning (l : List NodeId) :
    (l.foldl markRunning p).isPending x = true ↔ p.isPending x = true ∧ x ∉ l := by
  induction l generalizing p with
  | nil => simp
  | cons y l ih =>
    rw [List.foldl_cons, ih, isPending_markRunning, List.mem_cons, not_or, and_assoc]

theorem isReady_of_foldl_markRunning (l : List NodeId) (hl : l.Nodup)
    (hp : ∀ y ∈ l, p.isPending y = true) (h : (l.foldl markRunning p).isReady x = true) :
    p.isReady x = true := by
  induction l generalizing p with
  | nil => exact h
  | cons y l ih =>
    rw [List.nodup_cons] at hl
    refine isReady_of_markRunning (hp y List.mem_cons_self) (ih hl.2 (fun z hz => ?_) h)
    refine isPending_markRunning.2 ⟨hp z (List.mem_cons_of_mem y hz), ?_⟩
    rintro rfl
    exact hl.1 hz

section Ready
variable {limit : Nat}

theorem ready_spec : ∀ y ∈ p.ready limit, p.isReady y = true := by
  intro y hy
  exact (List.mem_filter.1 (List.mem_of_mem_take hy)).2

theorem isPending_of_isReady (h : p.isReady x = true) : p.isPending x = true := (isReady_iff.1 h).1

theorem Sound.nodup_ready (hs : p.Sound g E) : (p.ready limit).Nodup :=
  ((List.take_sublist _ _).trans List.filter_sublist).nodup hs.order_nodup

theorem length_ready_le : (p.ready limit).length ≤ limit := List.length_take_le _ _

theorem Sound.saturated (hs : p.Sound g E) (limit : Nat) : (p.ready limit).length = limit ∨
    ∀ x, ((p.ready limit).foldl Plan.markRunning p).isReady x = false := by
  by_cases hlen : limit ≤ (p.order.filter p.isReady).length
  · left
    rw [ready, List.length_take]
    omega
  · right
    intro x
    rw [Bool.eq_false_iff]
    intro hx
    have hpend := isPending_of_isReady hx
    obtain ⟨hpx, hnot⟩ := (isPending_foldl_markRunning _).1 hpend
    have hx₀ := isReady_of_foldl_markRunning _ hs.nodup_ready
      (fun y hy => isPending_of_isReady (ready_spec y hy)) hx
    refine hnot ?_
    rw [ready, List.take_of_length_le (by omega)]
    exact List.mem_filter.2 ⟨hs.mem_order.2 (hs.node_of_isPending hpx), hx₀⟩

end Ready
end Plan

end Workplan
