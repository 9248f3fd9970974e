import Mathlib.Logic.Relation
import Mathlib.Order.WellFoundedSet
import Workplan.Proofs.Graph.Ordering

/-! Cycles: what the dependency order does with nodes that wait for each other in a circle. It is computed
by a loop that counts down for how many predecessors each node still waits. The loop is followed here
without its bound and with counts that must not fall below zero (`OrderState.Drains`). What is left in the
end waits for something that is left as well, so that a path from it comes upon a cycle; and what waits for
a cycle, directly or through others, is never placed, since a placed node has all of its predecessors in
front of it. -/
namespace Workplan
open Relation
set_option autoImplicit false

/-! ## Waiting -/

/-- One node waits for another. -/
def NodeMap.Waits (nodes : NodeMap) (a b : NodeId) : Prop :=
  ∃ n, nodes.get? a = some n ∧ b ∈ n.predecessors

/-- No node waits for itself, not even through others. -/
def NodeMap.Acyclic (nodes : NodeMap) : Prop := ∀ a, ¬ TransGen nodes.Waits a a

section Behind
variable {nodes : NodeMap} {l : List NodeId} {a b : NodeId}

/-- In a list in which every node stands behind its predecessors, whatever a node of the list waits for
stands in front of it. -/
theorem NodeMap.idxOf_lt_of_waits (hl : l.Nodup)
    (hbehind : ∀ {before id after n}, l = before ++ id :: after → nodes.get? id = some n →
      ∀ q ∈ n.predecessors, q ∈ before) (ha : a ∈ l) (h : TransGen nodes.Waits a b) :
    b ∈ l ∧ l.idxOf b < l.idxOf a := by
  have hstep : ∀ {x y}, x ∈ l → nodes.Waits x y → y ∈ l ∧ l.idxOf y < l.idxOf x := by
    rintro x y hx ⟨n, hn, hy⟩
    obtain ⟨before, after, rfl⟩ := List.append_of_mem hx
    have hmem := hbehind rfl hn y hy
    rw [List.nodup_append] at hl
    have hx' : x ∉ before := fun hm => hl.2.2 x hm x List.mem_cons_self rfl
    refine ⟨List.mem_append_left _ hmem, ?_⟩
    rw [List.idxOf_append_of_mem hmem, List.idxOf_append_of_notMem hx']
    have := List.idxOf_lt_length_of_mem hmem
    omega
  induction h with
  | single hw => exact hstep ha hw
  | tail _ hw ih =>
    obtain ⟨hm, hlt⟩ := hstep ih.1 hw
    exact ⟨hm, Nat.lt_trans hlt ih.2⟩

theorem NodeMap.Ordered.acyclic (h : nodes.Ordered l) : nodes.Acyclic := by
  intro a ha
  obtain ⟨b, ⟨n, hn, -⟩, -⟩ := TransGen.head'_iff.1 ha
  exact absurd (idxOf_lt_of_waits h.nodup h.behind (h.mem_iff.2 ⟨n, hn⟩) ha).2 (Nat.lt_irrefl _)

theorem NodeMap.Ordered.perm (h : nodes.Ordered l) : l.Perm nodes.keys := by
  refine (List.perm_ext_iff_of_nodup h.nodup (SortedMap.nodup_keys _)).2 fun id => ?_
  rw [h.mem_iff, SortedMap.mem_keys]

end Behind

theorem NodeMap.exists_first {nodes : NodeMap} {P : NodeId → Prop}
    (hnodes : ∀ {x}, P x → ∃ n, nodes.get? x = some n)
    (hP : ∀ {x}, P x → ¬ TransGen nodes.Waits x x) {x : NodeId} (hx : P x) :
    ∃ y, P y ∧ ∀ z, TransGen nodes.Waits y z → ¬ P z := by
  have hfin : {x | P x}.Finite := by
    apply nodes.keys.toFinset.finite_toSet.subset
    intro y hy
    simpa using SortedMap.mem_keys.2 (hnodes hy)
  have : IsStrictOrder NodeId fun z y => P y ∧ TransGen nodes.Waits y z :=
    { irrefl := fun _ h => hP h.1 h.2, trans := fun _ _ _ hab hbc => ⟨hbc.1, hbc.2.trans hab.2⟩ }
  by_contra hno
  -- without a first one, no node would have the property, by induction along the order
  apply (hfin.wellFoundedOn (r := fun z y => P y ∧ TransGen nodes.Waits y z)).induction hx
    (P := fun _ => False)
  intro y hy ih
  apply hno
  exact ⟨y, hy, fun z hz hPz => ih z hPz ⟨hy, hz⟩⟩

/-! ## Dual maps -/

/-- Every node stands under its own id, and to be a predecessor and to be a successor are converse
relations between the nodes of the map. -/
structure NodeMap.Dual (nodes : NodeMap) : Prop where
  id_eq : ∀ {id n}, nodes.get? id = some n → n.id = id
  predecessors : ∀ {id n q}, nodes.get? id = some n → q ∈ n.predecessors →
    ∃ m, nodes.get? q = some m ∧ id ∈ m.successors
  successors : ∀ {id n q}, nodes.get? id = some n → q ∈ n.successors →
    ∃ m, nodes.get? q = some m ∧ id ∈ m.predecessors

/-- One node has another one among its successors. -/
def NodeMap.Feeds (nodes : NodeMap) (a b : NodeId) : Prop :=
  ∃ n, nodes.get? a = some n ∧ b ∈ n.successors

namespace NodeMap.Dual
variable {nodes : NodeMap} {a b : NodeId}

theorem feeds_iff (h : nodes.Dual) : nodes.Feeds a b ↔ nodes.Waits b a := by
  constructor
  · rintro ⟨n, hn, hb⟩
    obtain ⟨m, hm, ha⟩ := h.successors hn hb
    exact ⟨m, hm, ha⟩
  · rintro ⟨n, hn, ha⟩
    obtain ⟨m, hm, hb⟩ := h.predecessors hn ha
    exact ⟨m, hm, hb⟩

theorem swap_feeds (h : nodes.Dual) : Function.swap nodes.Feeds = nodes.Waits := by
  funext a b
  exact propext h.feeds_iff

theorem reaches_iff (h : nodes.Dual) :
    ReflTransGen nodes.Feeds a b ↔ ReflTransGen nodes.Waits b a := by
  rw [← h.swap_feeds, reflTransGen_swap]

theorem linked (h : nodes.Dual) : nodes.Linked where
  id_eq := h.id_eq
  mem_successors := by
    intro id n hn q
    refine ⟨h.successors hn, fun ⟨m, hm, hid⟩ => ?_⟩
    obtain ⟨n', hn', hq⟩ := h.predecessors hm hid
    cases hn.symm.trans hn'
    exact hq

end NodeMap.Dual

theorem NodeMap.dual_iff {nodes : NodeMap} : nodes.Dual ↔ ∀ e ∈ nodes.toList, e.2.id = e.1 ∧
    (∀ q ∈ e.2.predecessors.toList, ∃ f ∈ nodes.toList, f.1 = q ∧ e.1 ∈ f.2.successors) ∧
    ∀ q ∈ e.2.successors.toList, ∃ f ∈ nodes.toList, f.1 = q ∧ e.1 ∈ f.2.predecessors := by
  have hget : ∀ {id n}, (id, n) ∈ nodes.toList ↔ nodes.get? id = some n :=
    fun {id n} => SortedMap.mem_toList_iff nodes id n
  constructor
  · rintro h ⟨id, n⟩ he
    refine ⟨h.id_eq (hget.1 he), fun q hq => ?_, fun q hq => ?_⟩
    · obtain ⟨m, hm, hid⟩ := h.predecessors (hget.1 he) hq
      exact ⟨(q, m), hget.2 hm, rfl, hid⟩
    · obtain ⟨m, hm, hid⟩ := h.successors (hget.1 he) hq
      exact ⟨(q, m), hget.2 hm, rfl, hid⟩
  · intro h
    refine ⟨fun hn => (h _ (hget.2 hn)).1, fun hn hq => ?_, fun hn hq => ?_⟩
    · obtain ⟨⟨q, m⟩, hm, rfl, hid⟩ := (h _ (hget.2 hn)).2.1 _ hq
      exact ⟨m, hget.1 hm, hid⟩
    · obtain ⟨⟨q, m⟩, hm, rfl, hid⟩ := (h _ (hget.2 hn)).2.2 _ hq
      exact ⟨m, hget.1 hm, hid⟩

instance (nodes : NodeMap) : Decidable nodes.Dual := decidable_of_iff _ NodeMap.dual_iff.symm

/-! ## The loop -/

namespace OrderState

/-- Takes a count down by one. There is nothing below zero. -/
def countDown (s : OrderState) (successor : NodeId) : Option OrderState :=
  match s.waiting.get? successor with
  | none => some s
  | some 0 => none
  | some (n + 1) => some { s with
      waiting := s.waiting.insert successor n
      queue := if n = 0 then s.queue ++ [successor] else s.queue }

/-- Places the first node of the queue and counts down for each of its successors. -/
def placeCounting (nodes : NodeMap) (s : OrderState) (id : NodeId) (queue : List NodeId) :
    Option OrderState :=
  let placed := { s with queue := queue, done := id :: s.done }
  match nodes.get? id with
  | some node => node.successors.toList.foldlM countDown placed
  | none => some placed

/-- Nodes are placed one after the other until the queue is empty, and no count falls below zero. -/
inductive Drains (nodes : NodeMap) : OrderState → OrderState → Prop where
  | empty {s : OrderState} (hq : s.queue = []) : Drains nodes s s
  | place {s t u : OrderState} {id : NodeId} {queue : List NodeId} (hq : s.queue = id :: queue)
    (ht : placeCounting nodes s id queue = some t) (hu : Drains nodes t u) : Drains nodes s u

/-- What is answered when the queue is empty. -/
def answer (nodes : NodeMap) (s : OrderState) : Except BuildError (List NodeId) :=
  if s.done.length = nodes.size then .ok s.done.reverse else .error (.cycle s.remaining)

theorem Drains.queue_eq_nil {nodes : NodeMap} {s t : OrderState} (h : Drains nodes s t) :
    t.queue = [] := by
  induction h with
  | empty hq => exact hq
  | place _ _ _ ih => exact ih

theorem foldlM_countDown (l : List NodeId) (hl : l.Nodup) (s : OrderState)
    (hw : ∀ x ∈ l, ∃ k, s.waiting.get? x = some (k + 1)) :
    l.foldlM countDown s = some (l.foldl release s) := by
  induction l generalizing s with
  | nil => rfl
  | cons a l ih =>
    rw [List.nodup_cons] at hl
    obtain ⟨k, hk⟩ := hw a List.mem_cons_self
    have hdown : s.countDown a = some (s.release a) := by
      rw [release_of_waiting s hk]
      simp only [countDown, hk]
    have hrest : ∀ x ∈ l, ∃ k, (s.release a).waiting.get? x = some (k + 1) := by
      intro x hx
      have hxa : x ≠ a := fun e => hl.1 (e ▸ hx)
      rw [release_of_waiting s hk, SortedMap.get?_insert, if_neg hxa]
      exact hw x (List.mem_cons_of_mem a hx)
    rw [List.foldlM_cons, hdown, List.foldl_cons]
    exact ih hl.2 _ hrest

section Loop
variable {nodes : NodeMap} {s : OrderState} {id : NodeId} {queue : List NodeId}

theorem Sound.placeCounting (hn : nodes.Linked) (h : s.Sound nodes) (hq : s.queue = id :: queue) :
    placeCounting nodes s id queue = some (OrderState.place nodes s id queue) := by
  obtain ⟨n, hid⟩ : ∃ n, nodes.get? id = some n := h.known (by simp [hq])
  simp only [OrderState.placeCounting, OrderState.place, hid]
  exact foldlM_countDown _ n.successors.nodup_toList _ fun x hx =>
    h.exists_waiting hn hid (h.not_mem_done hq) hx

theorem Sound.length_le (h : s.Sound nodes) : s.done.length + s.queue.length ≤ nodes.size := by
  have hsub : s.done ++ s.queue ⊆ nodes.keys := fun id hid => SortedMap.mem_keys.2 (h.known hid)
  have hle := (List.subperm_of_subset h.nodup hsub).length_le
  simpa [SortedMap.keys, SortedMap.size] using hle

/-- The loop comes to its end within as many steps as there are nodes. -/
theorem Sound.drains (hn : nodes.Linked) (fuel : Nat) (h : s.Sound nodes)
    (hf : nodes.size ≤ s.done.length + fuel) : Drains nodes s (OrderState.run nodes fuel s) := by
  induction fuel generalizing s with
  | zero =>
    have hle := h.length_le
    exact .empty (List.length_eq_zero_iff.1 (by omega))
  | succ fuel ih =>
    rw [OrderState.run]
    cases hq : s.queue with
    | nil => exact .empty hq
    | cons id queue =>
      obtain ⟨hsound, hdone⟩ := h.place hn hq
      refine .place hq (h.placeCounting hn hq) (ih hsound ?_)
      rw [hdone, List.length_cons]
      omega

/-! ## What is left -/

theorem isSome_release (s : OrderState) (a x : NodeId) :
    ((s.release a).waiting.get? x).isSome = (s.waiting.get? x).isSome := by
  rw [release]
  split
  next k hk =>
    rw [SortedMap.get?_insert]
    split
    next he => simp [he, hk]
    next => rfl
  next => rfl

theorem isSome_foldl_release (l : List NodeId) (s : OrderState) (x : NodeId) :
    ((l.foldl release s).waiting.get? x).isSome = (s.waiting.get? x).isSome := by
  induction l generalizing s with
  | nil => rfl
  | cons a l ih => rw [List.foldl_cons, ih, isSome_release]

theorem isSome_run (fuel : Nat) (s : OrderState) (x : NodeId) :
    ((run nodes fuel s).waiting.get? x).isSome = (s.waiting.get? x).isSome := by
  induction fuel generalizing s with
  | zero => rfl
  | succ fuel ih =>
    rw [run]
    split
    next => rfl
    next id queue hq =>
      rw [ih, place]
      split
      next => rw [isSome_foldl_release]
      next => rfl

theorem exists_node_of_run {fuel k : Nat} {x : NodeId}
    (h : (run nodes fuel (start nodes)).waiting.get? x = some k) : ∃ n, nodes.get? x = some n := by
  have hsome : ((run nodes fuel (start nodes)).waiting.get? x).isSome =
      ((start nodes).waiting.get? x).isSome := isSome_run fuel _ x
  rw [h, start, SortedMap.get?_mapValues, Option.isSome_map] at hsome
  exact Option.isSome_iff_exists.1 hsome.symm

theorem sorted_remaining (s : OrderState) : s.remaining.Pairwise (· < ·) :=
  List.pairwise_map.2 (s.waiting.sorted.sublist List.filter_sublist)

/-- Where the queue is empty, the nodes that still wait are those that have not been placed. -/
theorem Sound.mem_remaining (h : s.Sound nodes) (hq : s.queue = [])
    (hknown : ∀ {x k}, s.waiting.get? x = some k → ∃ n, nodes.get? x = some n) {x : NodeId} :
    x ∈ s.remaining ↔ (∃ n, nodes.get? x = some n) ∧ x ∉ s.done := by
  have hplaced : ∀ {n}, nodes.get? x = some n → (x ∉ s.done ↔ 0 < (s.missing n).length) := by
    intro n hn
    have := h.queued hn
    rw [hq, List.append_nil] at this
    rw [this, List.length_pos_iff]
  simp only [remaining, List.mem_map, List.mem_filter, decide_eq_true_eq, Prod.exists,
    exists_and_right, exists_eq_right, SortedMap.mem_toList_iff]
  constructor
  · rintro ⟨k, hk, hpos⟩
    obtain ⟨n, hn⟩ := hknown hk
    cases hk.symm.trans (h.waiting hn)
    exact ⟨⟨n, hn⟩, (hplaced hn).2 hpos⟩
  · rintro ⟨⟨n, hn⟩, hnot⟩
    exact ⟨_, h.waiting hn, (hplaced hn).1 hnot⟩

/-- What has not been placed waits for a cycle. -/
theorem Sound.exists_cycle (hd : nodes.Dual) (h : s.Sound nodes) (hq : s.queue = []) {x : NodeId}
    (hx : ∃ n, nodes.get? x = some n) (hnot : x ∉ s.done) :
    ∃ c, TransGen nodes.Waits c c ∧ ReflTransGen nodes.Waits x c := by
  by_contra hno
  push Not at hno
  -- otherwise there would be a last node on the way from `x` through what is left
  let P : NodeId → Prop := fun y =>
    (∃ n, nodes.get? y = some n) ∧ y ∉ s.done ∧ ReflTransGen nodes.Waits x y
  obtain ⟨y, ⟨⟨n, hn⟩, hy, hxy⟩, hlast⟩ := NodeMap.exists_first (P := P) (fun hP => hP.1)
    (fun {y} hP hc => hno y hc hP.2.2) ⟨hx, hnot, .refl⟩
  have hmissing : s.missing n ≠ [] := by
    rw [Ne, ← h.queued hn, hq, List.append_nil]
    exact hy
  obtain ⟨q, hqm⟩ := List.exists_mem_of_ne_nil _ hmissing
  obtain ⟨hqn, hqd⟩ := List.mem_filter.1 hqm
  have hw : nodes.Waits y q := ⟨n, hn, hqn⟩
  obtain ⟨m, hm, -⟩ := hd.predecessors hn hqn
  exact hlast q (.single hw) ⟨⟨m, hm⟩, by simpa using hqd, hxy.tail hw⟩

/-- What waits for a cycle has not been placed. -/
theorem Sound.not_placed (h : s.Sound nodes) {x c : NodeId} (hc : TransGen nodes.Waits c c)
    (hx : ReflTransGen nodes.Waits x c) : x ∉ s.done := by
  intro hdone
  have hnd : s.done.reverse.Nodup := List.nodup_reverse.2 (List.nodup_append.1 h.nodup).1
  have hbehind : ∀ {before id after n}, s.done.reverse = before ++ id :: after →
      nodes.get? id = some n → ∀ q ∈ n.predecessors, q ∈ before := by
    intro before id after n hsplit hn q hq
    have hrev : s.done = after.reverse ++ id :: before.reverse := by
      simpa using congrArg List.reverse hsplit
    exact List.mem_reverse.1 (h.behind hrev hn q hq)
  have hcycle := NodeMap.idxOf_lt_of_waits hnd hbehind (List.mem_reverse.2 hdone)
    (TransGen.trans_right hx hc)
  have hself := NodeMap.idxOf_lt_of_waits hnd hbehind hcycle.1 hc
  exact Nat.lt_irrefl _ hself.2

end Loop
end OrderState

/-! ## The answer -/

/-- Whatever is answered is an order, or the nodes that lie on a cycle or behind one. The loop ends
without a count below zero, and it answers an order when, and only when, there is no cycle. -/
theorem NodeMap.Dual.orders_or_names_cycles {nodes : NodeMap} (h : nodes.Dual) :
    (∃ s, OrderState.Drains nodes (.start nodes) s ∧ nodes.dependencyOrder = s.answer nodes) ∧
    (nodes.Acyclic → ∃ order, nodes.dependencyOrder = .ok order ∧ order.Perm nodes.keys ∧
      ∀ before id after n, order = before ++ id :: after → nodes.get? id = some n →
        ∀ q ∈ n.predecessors, q ∈ before) ∧
    (¬ nodes.Acyclic → ∃ ids, nodes.dependencyOrder = .error (.cycle ids) ∧
      ids.Pairwise (· < ·) ∧ ∀ id, id ∈ ids ↔
        ∃ c, TransGen nodes.Waits c c ∧ ReflTransGen nodes.Feeds c id) := by
  have hsound := (OrderState.Sound.start h.linked).run h.linked nodes.size
  have hdrains := (OrderState.Sound.start h.linked).drains h.linked nodes.size
    (Nat.le_add_left _ _)
  have hqueue := hdrains.queue_eq_nil
  have hmem := fun {x} => hsound.mem_remaining hqueue OrderState.exists_node_of_run (x := x)
  have hanswer : nodes.dependencyOrder =
      (OrderState.run nodes nodes.size (.start nodes)).answer nodes := rfl
  generalize OrderState.run nodes nodes.size (.start nodes) = s at hsound hdrains hqueue hmem hanswer
  refine ⟨⟨s, hdrains, hanswer⟩, fun hac => ?_, fun hcyclic => ?_⟩
  · have hall : nodes.keys ⊆ s.done := by
      intro x hx
      by_contra hnot
      obtain ⟨c, hc, -⟩ := hsound.exists_cycle h hqueue (SortedMap.mem_keys.1 hx) hnot
      exact hac c hc
    have hle := (List.subperm_of_subset (SortedMap.nodup_keys nodes) hall).length_le
    have hge := hsound.length_le
    have hlen : s.done.length = nodes.size := by
      simp only [SortedMap.keys, List.length_map] at hle
      rw [hqueue, List.length_nil] at hge
      exact Nat.le_antisymm hge hle
    rw [OrderState.answer, if_pos hlen] at hanswer
    have hordered := ordered_of_dependencyOrder h.linked hanswer
    exact ⟨_, hanswer, hordered.perm, fun _ _ _ _ => hordered.behind⟩
  · have hlen : s.done.length ≠ nodes.size := by
      intro hlen
      rw [OrderState.answer, if_pos hlen] at hanswer
      exact hcyclic (ordered_of_dependencyOrder h.linked hanswer).acyclic
    rw [OrderState.answer, if_neg hlen] at hanswer
    refine ⟨_, hanswer, s.sorted_remaining, fun id => ?_⟩
    simp only [h.reaches_iff, hmem]
    constructor
    · rintro ⟨hn, hnot⟩
      exact hsound.exists_cycle h hqueue hn hnot
    · rintro ⟨c, hc, hid⟩
      refine ⟨?_, hsound.not_placed hc hid⟩
      obtain ⟨-, ⟨n, hn, -⟩, -⟩ := TransGen.head'_iff.1 (TransGen.trans_right hid hc)
      exact ⟨n, hn⟩

namespace Eddy

def node (name : String) (predecessors successors : List String) : NodeId × Node :=
  (.resource name, ⟨.resource name, .resource name "pool" .empty, [],
    .ofList (predecessors.map NodeId.resource), .ofList (successors.map NodeId.resource)⟩)

/-- Two nodes that wait for each other, one behind them, one in front of them, and one beside them. -/
def nodes : NodeMap := .ofList [node "a" ["b", "d"] ["b"], node "b" ["a"] ["a", "c"], node "c" ["b"] [],
  node "d" [] ["a", "e"], node "e" ["d"] []]

def straight : NodeMap := .ofList [node "a" ["d"] ["b"], node "b" ["a"] ["c"], node "c" ["b"] [],
  node "d" [] ["a", "e"], node "e" ["d"] []]

def order : List NodeId := ["d", "a", "e", "b", "c"].map NodeId.resource

/-- The report names the circle and the node behind it, and without the circle all nodes are ordered. -/
theorem names_circle :
    (nodes.Dual ∧ nodes.dependencyOrder = .error (.cycle (["a", "b", "c"].map NodeId.resource)) ∧
      (∃ c, TransGen nodes.Waits c c ∧ ReflTransGen nodes.Feeds c (.resource "c")) ∧
      ¬∃ c, TransGen nodes.Waits c c ∧ ReflTransGen nodes.Feeds c (.resource "d")) ∧
    straight.Dual ∧ straight.dependencyOrder = .ok order ∧ order.Perm straight.keys := by
  have hdual : nodes.Dual := by decide +kernel
  have hdual' : straight.Dual := by decide +kernel
  have hcycle : nodes.dependencyOrder = .error (.cycle (["a", "b", "c"].map NodeId.resource)) := rfl
  have horder : straight.dependencyOrder = .ok order := rfl
  have hcyclic : ¬nodes.Acyclic := by
    intro h
    have hab : nodes.Waits (.resource "a") (.resource "b") := ⟨_, rfl, List.mem_cons_self⟩
    have hba : nodes.Waits (.resource "b") (.resource "a") := ⟨_, rfl, List.mem_cons_self⟩
    exact h _ (.head hab (.single hba))
  have hac := (NodeMap.ordered_of_dependencyOrder hdual'.linked horder).acyclic
  obtain ⟨ids, hids, -, hmem⟩ := hdual.orders_or_names_cycles.2.2 hcyclic
  obtain ⟨order', horder', hperm, -⟩ := hdual'.orders_or_names_cycles.2.1 hac
  cases hcycle.symm.trans hids
  cases horder.symm.trans horder'
  refine ⟨⟨hdual, hcycle, (hmem _).1 (by decide +kernel), fun h => ?_⟩, hdual', horder, hperm⟩
  exact absurd ((hmem _).2 h) (by decide +kernel)

end Eddy

end Workplan
