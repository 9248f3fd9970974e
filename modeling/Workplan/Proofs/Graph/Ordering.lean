import Mathlib.Data.List.Nodup
import Mathlib.Data.List.Perm.Subperm
import Workplan.Graph.Order

/-! The dependency order is one: it lists every node once, behind all its predecessors.

The invariant of the ordering (`OrderState.Sound`) counts: a node still waits for exactly those of its
predecessors that have not been placed, so it is queued at the moment when the last of them is. -/
namespace Workplan
set_option autoImplicit false

/-- Successors and predecessors of a map of nodes are each other's converse, and every node stands
under its own id. -/
structure NodeMap.Linked (nodes : NodeMap) : Prop where
  id_eq : ∀ {id n}, nodes.get? id = some n → n.id = id
  mem_successors : ∀ {id n}, nodes.get? id = some n → ∀ {q},
    q ∈ n.successors ↔ ∃ m, nodes.get? q = some m ∧ id ∈ m.predecessors

theorem NodeMap.Linked.map_id_values {nodes : NodeMap} (h : nodes.Linked) :
    nodes.values.map Node.id = nodes.keys := by
  simp only [SortedMap.values, SortedMap.keys, List.map_map]
  refine List.map_congr_left fun e he => ?_
  exact h.id_eq ((SortedMap.mem_toList_iff nodes e.1 e.2).1 he)

namespace OrderState

/-- The predecessors that have not been placed. -/
def missing (s : OrderState) (n : Node) : List NodeId :=
  n.predecessors.toList.filter fun q => q ∉ s.done

/-- What holds of the ordering after any number of placed nodes. -/
structure Sound (nodes : NodeMap) (s : OrderState) : Prop where
  nodup : (s.done ++ s.queue).Nodup
  known : ∀ {id}, id ∈ s.done ++ s.queue → ∃ n, nodes.get? id = some n
  waiting : ∀ {id n}, nodes.get? id = some n → s.waiting.get? id = some (s.missing n).length
  queued : ∀ {id n}, nodes.get? id = some n → (id ∈ s.done ++ s.queue ↔ s.missing n = [])
  behind : ∀ {before id after n}, s.done = after ++ id :: before → nodes.get? id = some n →
    ∀ q ∈ n.predecessors, q ∈ before

/-! ## Releasing successors -/

theorem release_of_waiting (s : OrderState) {x : NodeId} {k : Nat}
    (h : s.waiting.get? x = some (k + 1)) :
    s.release x = { s with
      waiting := s.waiting.insert x k
      queue := if k = 0 then s.queue ++ [x] else s.queue } := by
  simp only [release, h]

/-- Releasing several nodes that wait takes one off each of them, and queues those that waited for
nothing else. -/
theorem foldl_release (l : List NodeId) (hl : l.Nodup) (s : OrderState)
    (hw : ∀ x ∈ l, ∃ k, s.waiting.get? x = some (k + 1)) :
    (l.foldl release s).done = s.done ∧
    (l.foldl release s).queue = s.queue ++ l.filter (fun x => s.waiting.get? x = some 1) ∧
    ∀ x, (l.foldl release s).waiting.get? x =
      if x ∈ l then (s.waiting.get? x).map (· - 1) else s.waiting.get? x := by
  induction l generalizing s with
  | nil => simp
  | cons a l ih =>
    rw [List.nodup_cons] at hl
    obtain ⟨k, hk⟩ := hw a List.mem_cons_self
    have hr := release_of_waiting s hk
    have hother : ∀ x ∈ l, (s.release a).waiting.get? x = s.waiting.get? x := by
      intro x hx
      have hxa : x ≠ a := fun e => hl.1 (e ▸ hx)
      rw [hr, SortedMap.get?_insert, if_neg hxa]
    obtain ⟨hd, hq, hwait⟩ := ih hl.2 (s.release a) (fun x hx => by
      rw [hother x hx]
      exact hw x (List.mem_cons_of_mem a hx))
    refine ⟨?_, ?_, fun x => ?_⟩
    · rw [List.foldl_cons, hd, hr]
    · have hf : l.filter (fun x => (s.release a).waiting.get? x = some 1) =
          l.filter (fun x => s.waiting.get? x = some 1) :=
        List.filter_congr fun x hx => by rw [hother x hx]
      rw [List.foldl_cons, hq, hf, hr, List.filter_cons, hk]
      by_cases h0 : k = 0 <;> simp [h0]
    · rw [List.foldl_cons, hwait x]
      by_cases hxa : x = a
      · subst hxa
        rw [if_neg hl.1, if_pos List.mem_cons_self, hr, SortedMap.get?_insert, if_pos rfl, hk]
        rfl
      · by_cases hxl : x ∈ l
        · rw [if_pos hxl, if_pos (List.mem_cons_of_mem a hxl), hother x hxl]
        · have hxal : x ∉ a :: l := fun h => (List.mem_cons.1 h).elim hxa hxl
          rw [if_neg hxl, if_neg hxal, hr, SortedMap.get?_insert, if_neg hxa]

/-! ## Placing one node -/

section Place
variable {nodes : NodeMap} {s : OrderState} {id : NodeId} {queue : List NodeId}

theorem missing_of_not_mem {t : OrderState} (ht : t.done = id :: s.done) {n : Node}
    (h : id ∉ n.predecessors) : t.missing n = s.missing n := by
  refine List.filter_congr fun q hq => ?_
  have hne : q ≠ id := fun e => h (e ▸ hq)
  simp [ht, hne]

theorem length_missing_of_mem {t : OrderState} (ht : t.done = id :: s.done) (hid : id ∉ s.done)
    {n : Node} (h : id ∈ n.predecessors) :
    (t.missing n).length + 1 = (s.missing n).length := by
  have hmem : id ∈ s.missing n := List.mem_filter.2 ⟨h, by simpa using hid⟩
  have hnd : (s.missing n).Nodup := (n.predecessors.nodup_toList).filter _
  have he : t.missing n = (s.missing n).erase id := by
    rw [hnd.erase_eq_filter, missing, missing, List.filter_filter]
    refine List.filter_congr fun q _ => ?_
    rw [ht, Bool.eq_iff_iff]
    simp
  rw [he, List.length_erase_of_mem hmem]
  have hpos := List.length_pos_of_mem hmem
  omega

theorem missing_eq_nil {n : Node} : s.missing n = [] ↔ ∀ q ∈ n.predecessors, q ∈ s.done := by
  rw [missing, List.filter_eq_nil_iff]
  simp [SortedSet.mem_def]

/-- A node that comes up for the first time is still missing from the nodes behind it. -/
theorem Sound.exists_waiting (hn : nodes.Linked) (h : s.Sound nodes) {n : Node}
    (hid : nodes.get? id = some n) (hnew : id ∉ s.done) {x : NodeId} (hx : x ∈ n.successors) :
    ∃ k, s.waiting.get? x = some (k + 1) := by
  obtain ⟨m, hm, hmem⟩ := (hn.mem_successors hid).1 hx
  have hmissing : id ∈ s.missing m := List.mem_filter.2 ⟨hmem, by simpa using hnew⟩
  have hpos := List.length_pos_of_mem hmissing
  refine ⟨(s.missing m).length - 1, ?_⟩
  rw [h.waiting hm]
  congr 1
  omega

theorem Sound.not_mem_done (h : s.Sound nodes) (hq : s.queue = id :: queue) : id ∉ s.done := by
  have hnd := h.nodup
  rw [hq] at hnd
  exact fun hm => (List.nodup_append.1 hnd).2.2 id hm id List.mem_cons_self rfl

/-- Placing a node releases the nodes that miss nothing else, and these join the queue. -/
theorem Sound.place_spec (hn : nodes.Linked) (h : s.Sound nodes) (hq : s.queue = id :: queue) :
    (place nodes s id queue).done = id :: s.done ∧
    (∃ released, (place nodes s id queue).queue = queue ++ released ∧ released.Nodup ∧
      ∀ {x}, x ∈ released ↔ ∃ m, nodes.get? x = some m ∧ id ∈ m.predecessors ∧
        (place nodes s id queue).missing m = []) ∧
    ∀ {x m}, nodes.get? x = some m →
      (place nodes s id queue).waiting.get? x = some ((place nodes s id queue).missing m).length := by
  obtain ⟨n, hid⟩ : ∃ n, nodes.get? id = some n := h.known (by simp [hq])
  have hnotdone := h.not_mem_done hq
  have hsucc : ∀ {x}, x ∈ n.successors.toList ↔ ∃ m, nodes.get? x = some m ∧ id ∈ m.predecessors :=
    hn.mem_successors hid
  obtain ⟨hdone, hqueue, hwait⟩ := foldl_release n.successors.toList n.successors.nodup_toList
    { s with queue := queue, done := id :: s.done } fun x hx => h.exists_waiting hn hid hnotdone hx
  have hplace : OrderState.place nodes s id queue =
      n.successors.toList.foldl release { s with queue := queue, done := id :: s.done } := by
    simp only [OrderState.place, hid]
  rw [← hplace] at hdone hqueue hwait
  generalize OrderState.place nodes s id queue = t at hdone hqueue hwait ⊢
  simp only at hdone hqueue hwait
  refine ⟨hdone, ⟨_, hqueue, n.successors.nodup_toList.filter _, ?_⟩, ?_⟩
  · -- a successor is released when the placed node is the only one that it has missed
    intro x
    rw [List.mem_filter, decide_eq_true_iff]
    constructor
    · rintro ⟨hx, h1⟩
      obtain ⟨m, hm, hmem⟩ := hsucc.1 hx
      have hlen := length_missing_of_mem hdone hnotdone hmem
      rw [h.waiting hm, Option.some.injEq] at h1
      exact ⟨m, hm, hmem, List.length_eq_zero_iff.1 (by omega)⟩
    · rintro ⟨m, hm, hmem, hnil⟩
      have hlen := length_missing_of_mem hdone hnotdone hmem
      rw [hnil, List.length_nil] at hlen
      refine ⟨hsucc.2 ⟨m, hm, hmem⟩, ?_⟩
      rw [h.waiting hm, ← hlen]
  · intro x m hm
    rw [hwait x, h.waiting hm]
    by_cases hx : id ∈ m.predecessors
    · have hlen := length_missing_of_mem hdone hnotdone hx
      rw [if_pos (hsucc.2 ⟨m, hm, hx⟩), Option.map_some]
      congr 1
      omega
    · have hxs : x ∉ n.successors.toList := fun hx' => by
        obtain ⟨m', hm', hmem⟩ := hsucc.1 hx'
        cases hm.symm.trans hm'
        exact hx hmem
      rw [if_neg hxs, missing_of_not_mem hdone hx]

theorem Sound.place (hn : nodes.Linked) (h : s.Sound nodes) (hq : s.queue = id :: queue) :
    (place nodes s id queue).Sound nodes ∧ (place nodes s id queue).done = id :: s.done := by
  obtain ⟨hdone, ⟨released, hqueue, hnodup, hnew⟩, hwaiting⟩ := h.place_spec hn hq
  generalize OrderState.place nodes s id queue = t at hdone hqueue hnew hwaiting ⊢
  have hnd := h.nodup
  rw [hq] at hnd
  have hmem : ∀ {x}, x ∈ id :: s.done ++ queue ↔ x ∈ s.done ++ s.queue := by
    intro x
    rw [hq]
    exact (List.perm_middle.mem_iff (a := x)).symm
  refine ⟨?_, hdone⟩
  constructor
  case waiting => exact hwaiting
  case nodup =>
    rw [hdone, hqueue, ← List.append_assoc, List.nodup_append]
    refine ⟨(List.perm_middle.nodup_iff).1 hnd, hnodup, ?_⟩
    rintro x hx y hy rfl
    obtain ⟨m, hm, hpred, -⟩ := hnew.1 hy
    -- a node that missed the placed one was neither placed nor queued
    have hnil := (h.queued hm).1 (hmem.1 hx)
    exact h.not_mem_done hq (missing_eq_nil.1 hnil id hpred)
  case known =>
    intro x hx
    rw [hdone, hqueue, ← List.append_assoc, List.mem_append] at hx
    rcases hx with hx | hx
    · exact h.known (hmem.1 hx)
    · obtain ⟨m, hm, -⟩ := hnew.1 hx
      exact ⟨m, hm⟩
  case queued =>
    intro x m hm
    rw [hdone, hqueue, ← List.append_assoc, List.mem_append, hnew, hmem, h.queued hm]
    constructor
    · rintro (hnil | ⟨m', hm', -, hnil⟩)
      · rw [missing_eq_nil] at hnil ⊢
        intro q hq'
        rw [hdone]
        exact List.mem_cons_of_mem id (hnil q hq')
      · cases hm.symm.trans hm'
        exact hnil
    · intro hnil
      by_cases hx : id ∈ m.predecessors
      · exact .inr ⟨m, hm, hx, hnil⟩
      · rw [missing_of_not_mem hdone hx] at hnil
        exact .inl hnil
  case behind =>
    intro before x after m hsplit hm q hq'
    rw [hdone] at hsplit
    cases after with
    | nil =>
      cases hsplit
      have hnil := (h.queued hm).1 (by simp [hq])
      exact missing_eq_nil.1 hnil q hq'
    | cons a after =>
      rw [List.cons_append, List.cons.injEq] at hsplit
      exact h.behind hsplit.2 hm q hq'

end Place

/-! ## The whole order -/

theorem Sound.start {nodes : NodeMap} (hn : nodes.Linked) : (OrderState.start nodes).Sound nodes := by
  have hmem : ∀ {id n}, nodes.get? id = some n →
      (id ∈ (OrderState.start nodes).done ++ (OrderState.start nodes).queue ↔
        n.predecessors.toList = []) := by
    intro id n hid
    simp only [OrderState.start, List.nil_append, List.mem_map, List.mem_filter, SortedSet.isEmpty,
      List.isEmpty_iff]
    constructor
    · rintro ⟨m, ⟨hm, hnil⟩, rfl⟩
      obtain ⟨k, hk⟩ := SortedMap.mem_values.1 hm
      rw [hn.id_eq hk] at hid
      cases hid.symm.trans hk
      exact hnil
    · exact fun hnil => ⟨n, ⟨SortedMap.mem_values.2 ⟨id, hid⟩, hnil⟩, hn.id_eq hid⟩
  have hmissing : ∀ n : Node, (OrderState.start nodes).missing n = n.predecessors.toList := by
    intro n
    simp [missing, OrderState.start]
  refine ⟨?_, ?_, ?_, ?_, ?_⟩
  · -- the ids of the queue are keys of the map, each once
    have hsub : ((nodes.values.filter fun n => n.predecessors.isEmpty).map Node.id).Sublist
        nodes.keys := by
      rw [← hn.map_id_values]
      exact List.filter_sublist.map Node.id
    simpa [OrderState.start] using hsub.nodup nodes.nodup_keys
  · intro id hid
    simp only [OrderState.start, List.nil_append, List.mem_map, List.mem_filter] at hid
    obtain ⟨m, ⟨hm, -⟩, rfl⟩ := hid
    obtain ⟨k, hk⟩ := SortedMap.mem_values.1 hm
    exact ⟨m, by rw [hn.id_eq hk]; exact hk⟩
  · intro id n hid
    rw [hmissing]
    simp [OrderState.start, SortedMap.get?_mapValues, hid, SortedSet.size]
  · intro id n hid
    rw [hmem hid, hmissing]
  · intro before id after n hsplit
    simp [OrderState.start] at hsplit

theorem Sound.run {nodes : NodeMap} (hn : nodes.Linked) (fuel : Nat) {s : OrderState}
    (h : s.Sound nodes) : (run nodes fuel s).Sound nodes := by
  induction fuel generalizing s with
  | zero => exact h
  | succ fuel ih =>
    rw [OrderState.run]
    cases hq : s.queue with
    | nil => exact h
    | cons id queue => exact ih (h.place hn hq).1

end OrderState

namespace NodeMap

/-- An order lists every node once, behind all its predecessors. -/
structure Ordered (nodes : NodeMap) (order : List NodeId) : Prop where
  nodup : order.Nodup
  mem_iff : ∀ {id}, id ∈ order ↔ ∃ n, nodes.get? id = some n
  behind : ∀ {before id after n}, order = before ++ id :: after → nodes.get? id = some n →
    ∀ q ∈ n.predecessors, q ∈ before

theorem ordered_of_dependencyOrder {nodes : NodeMap} (hn : nodes.Linked) {order : List NodeId}
    (h : nodes.dependencyOrder = .ok order) : nodes.Ordered order := by
  have hs := (OrderState.Sound.start hn).run hn nodes.size
  simp only [dependencyOrder] at h
  generalize OrderState.run nodes nodes.size (OrderState.start nodes) = s at h hs
  split at h
  next hlen =>
    cases h
    have hdone : s.done.Nodup := (List.nodup_append.1 hs.nodup).1
    have hsub : s.done ⊆ nodes.keys := fun id hid => by
      obtain ⟨n, hn⟩ := hs.known (List.mem_append_left _ hid)
      exact SortedMap.mem_keys.2 ⟨n, hn⟩
    have hperm : s.done.Perm nodes.keys := by
      refine (List.subperm_of_subset hdone hsub).perm_of_length_le ?_
      simp [SortedMap.keys, hlen, SortedMap.size]
    refine ⟨List.nodup_reverse.2 hdone, ?_, ?_⟩
    · intro id
      rw [List.mem_reverse, hperm.mem_iff, SortedMap.mem_keys]
    · intro before id after n hsplit hid q hq
      have hrev : s.done = after.reverse ++ id :: before.reverse := by
        have := congrArg List.reverse hsplit
        simpa using this
      exact List.mem_reverse.1 (hs.behind hrev hid q hq)
  next => cases h

end NodeMap

end Workplan
