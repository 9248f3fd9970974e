import Mathlib.Data.List.Nodup
import Workplan.Plan.Expansion

/-! Statuses: how the operations of a plan change them. A pending node is started or skipped, a running
one ends, and nothing else changes. -/
namespace Workplan
set_option autoImplicit false

def NodeStatus.isStarted : NodeStatus → Bool
  | .pending => false
  | .running => true
  | .succeeded => true
  | .failed _ => true
  | .skipped _ => false

namespace Plan

/-- True of nodes whose work has begun. -/
def hasStarted (p : Plan) (id : NodeId) : Bool := (p.status? id).any NodeStatus.isStarted

section Tests
variable {p : Plan} {id : NodeId}

theorem isPending_iff : p.isPending id = true ↔ p.status? id = some .pending := decide_eq_true_iff

theorem hasSucceeded_iff : p.hasSucceeded id = true ↔ p.status? id = some .succeeded :=
  decide_eq_true_iff

theorem hasStarted_iff : p.hasStarted id = true ↔ ∃ s, p.status? id = some s ∧ s.isStarted = true := by
  rw [hasStarted, Option.any_eq_true]

theorem hasStarted_of_hasSucceeded (h : p.hasSucceeded id = true) : p.hasStarted id = true :=
  hasStarted_iff.2 ⟨_, hasSucceeded_iff.1 h, rfl⟩

theorem not_isPending_of_hasStarted (h : p.hasStarted id = true) : p.isPending id = false := by
  obtain ⟨s, hs, hst⟩ := hasStarted_iff.1 h
  cases hp : p.isPending id with
  | false => rfl
  | true =>
    cases hs.symm.trans (isPending_iff.1 hp)
    cases hst

end Tests

/-! ## One status -/

section SetStatus
variable (p : Plan) (id x : NodeId) (s : NodeStatus)

@[simp] theorem nodes_setStatus : (p.setStatus id s).nodes = p.nodes := rfl
@[simp] theorem order_setStatus : (p.setStatus id s).order = p.order := rfl
@[simp] theorem results_setStatus : (p.setStatus id s).results = p.results := rfl
@[simp] theorem node?_setStatus : (p.setStatus id s).node? x = p.node? x := rfl

theorem status?_setStatus : (p.setStatus id s).status? x =
    if x = id then (p.status? x).map fun _ => s else p.status? x :=
  SortedMap.get?_modify _ _ _ _

end SetStatus

section Ends
variable (p : Plan) (id x : NodeId) (output : Option Value)

@[simp] theorem nodes_markSucceeded : (p.markSucceeded id output).nodes = p.nodes := by
  cases output <;> rfl

@[simp] theorem order_markSucceeded : (p.markSucceeded id output).order = p.order := by
  cases output <;> rfl

@[simp] theorem node?_markSucceeded : (p.markSucceeded id output).node? x = p.node? x := by
  cases output <;> rfl

theorem status?_markSucceeded : (p.markSucceeded id output).status? x =
    if x = id then (p.status? x).map fun _ => .succeeded else p.status? x := by
  rw [← status?_setStatus]
  cases output <;> rfl

theorem result?_markSucceeded : (p.markSucceeded id output).result? x =
    if x = id ∧ output.isSome then output else p.result? x := by
  cases output with
  | none => simp [markSucceeded, result?]
  | some v =>
    simp only [markSucceeded, result?, Option.isSome_some, and_true]
    exact SortedMap.get?_insert _ _ _ _

end Ends

/-! ## Skipping -/

/-- Some pending nodes have been skipped. -/
structure Skips (reason : String) (p : Plan) (ids : List NodeId) (p' : Plan) : Prop where
  nodes : p'.nodes = p.nodes
  order : p'.order = p.order
  results : p'.results = p.results
  nodup : ids.Nodup
  pending : ∀ id ∈ ids, p.isPending id = true
  status : ∀ id, p'.status? id = if id ∈ ids then some (.skipped reason) else p.status? id

namespace Skips
variable {reason : String} {p p' p'' : Plan} {ids ids' : List NodeId} {id : NodeId}

theorem refl (p : Plan) : Skips reason p [] p :=
  ⟨rfl, rfl, rfl, List.nodup_nil, by simp, by simp⟩

theorem isPending (h : Skips reason p ids p') :
    p'.isPending id = true ↔ p.isPending id = true ∧ id ∉ ids := by
  rw [isPending_iff, isPending_iff, h.status id]
  by_cases hid : id ∈ ids
  · simp [hid]
  · simp [hid]

theorem hasSucceeded (h : Skips reason p ids p') : p'.hasSucceeded id = p.hasSucceeded id := by
  rw [Bool.eq_iff_iff, hasSucceeded_iff, hasSucceeded_iff, h.status id]
  by_cases hid : id ∈ ids
  · rw [if_pos hid, isPending_iff.1 (h.pending id hid)]
    simp
  · rw [if_neg hid]

theorem hasStarted (h : Skips reason p ids p') : p'.hasStarted id = p.hasStarted id := by
  rw [Plan.hasStarted, Plan.hasStarted, h.status id]
  by_cases hid : id ∈ ids
  · rw [if_pos hid, isPending_iff.1 (h.pending id hid)]
    rfl
  · rw [if_neg hid]

theorem node? (h : Skips reason p ids p') (id : NodeId) : p'.node? id = p.node? id := by
  rw [Plan.node?, Plan.node?, h.nodes]

theorem result? (h : Skips reason p ids p') (id : NodeId) : p'.result? id = p.result? id := by
  rw [Plan.result?, Plan.result?, h.results]

theorem trans (h : Skips reason p ids p') (h' : Skips reason p' ids' p'') :
    Skips reason p (ids ++ ids') p'' where
  nodes := h'.nodes.trans h.nodes
  order := h'.order.trans h.order
  results := h'.results.trans h.results
  nodup := by
    refine List.nodup_append.2 ⟨h.nodup, h'.nodup, ?_⟩
    rintro a ha b hb rfl
    exact (h.isPending.1 (h'.pending a hb)).2 ha
  pending := by
    intro id hid
    rcases List.mem_append.1 hid with hid | hid
    · exact h.pending id hid
    · exact (h.isPending.1 (h'.pending id hid)).1
  status := by
    intro id
    rw [h'.status id, h.status id]
    by_cases hid : id ∈ ids <;> by_cases hid' : id ∈ ids' <;> simp [hid, hid']

theorem setStatus (h : p.isPending id = true) :
    Skips reason p [id] (p.setStatus id (.skipped reason)) where
  nodes := rfl
  order := rfl
  results := rfl
  nodup := List.nodup_singleton id
  pending := by simpa using h
  status := by
    intro x
    rw [status?_setStatus]
    by_cases hx : x = id
    · rw [if_pos hx, if_pos (List.mem_singleton.2 hx), hx, isPending_iff.1 h]
      rfl
    · rw [if_neg hx, if_neg fun hm => hx (List.mem_singleton.1 hm)]

end Skips

section Skipping
variable {reason : String}

theorem skips_skipFrom (reason : String) (fuel : Nat) (p : Plan) (queue skipped : List NodeId) :
    ∃ ids, (skipFrom reason fuel p queue skipped).2 = skipped ++ ids ∧
      Skips reason p ids (skipFrom reason fuel p queue skipped).1 := by
  induction fuel generalizing p queue skipped with
  | zero => exact ⟨[], by simp [skipFrom], Skips.refl p⟩
  | succ fuel ih =>
    cases queue with
    | nil => exact ⟨[], by simp [skipFrom], Skips.refl p⟩
    | cons id queue =>
      rw [skipFrom]
      split
      next hp =>
        obtain ⟨ids, he, hs⟩ := ih (p.setStatus id (.skipped reason)) (queue ++ p.successorsOf id)
          (skipped ++ [id])
        exact ⟨id :: ids, by rw [he]; simp, (Skips.setStatus hp).trans hs⟩
      next => exact ih p queue skipped

/-- What a failure does: the node has failed, and then pending nodes are skipped. -/
theorem skips_markFailed (p : Plan) (id : NodeId) (message : String) :
    Skips s!"dependency {id.text} failed" (p.setStatus id (.failed message))
      (p.markFailed id message).2 (p.markFailed id message).1 := by
  obtain ⟨ids, he, hs⟩ := skips_skipFrom s!"dependency {id.text} failed"
    ((p.setStatus id (.failed message)).successorCount + 1) (p.setStatus id (.failed message))
    ((p.setStatus id (.failed message)).successorsOf id) []
  rw [List.nil_append] at he
  rw [← he] at hs
  exact hs

theorem skips_foldl_skipOne (reason : String) (l : List NodeId) (p : Plan) (skipped : List NodeId) :
    ∃ ids, (l.foldl (skipOne reason) (p, skipped)).2 = skipped ++ ids ∧
      Skips reason p ids (l.foldl (skipOne reason) (p, skipped)).1 ∧
      ∀ id ∈ l, p.isPending id = true → id ∈ ids := by
  induction l generalizing p skipped with
  | nil => exact ⟨[], by simp, Skips.refl p, by simp⟩
  | cons a l ih =>
    rw [List.foldl_cons]
    by_cases hp : p.isPending a = true
    · have hone : skipOne reason (p, skipped) a =
          (p.setStatus a (.skipped reason), skipped ++ [a]) := by
        simp [skipOne, hp]
      obtain ⟨ids, he, hs, hall⟩ := ih (p.setStatus a (.skipped reason)) (skipped ++ [a])
      rw [hone]
      refine ⟨a :: ids, by rw [he]; simp, (Skips.setStatus hp).trans hs, fun id hid hpid => ?_⟩
      rcases List.mem_cons.1 hid with rfl | hid
      · exact List.mem_cons_self
      · by_cases hne : id = a
        · rw [hne]
          exact List.mem_cons_self
        · refine List.mem_cons_of_mem a (hall id hid ?_)
          rw [(Skips.setStatus hp).isPending]
          exact ⟨hpid, by simpa using hne⟩
    · have hone : skipOne reason (p, skipped) a = (p, skipped) := by simp [skipOne, hp]
      obtain ⟨ids, he, hs, hall⟩ := ih p skipped
      rw [hone]
      refine ⟨ids, he, hs, fun id hid hpid => ?_⟩
      rcases List.mem_cons.1 hid with rfl | hid
      · exact absurd hpid hp
      · exact hall id hid hpid

theorem skips_skipPending (p : Plan) (reason : String) :
    Skips reason p (p.skipPending reason).2 (p.skipPending reason).1 ∧
      ∀ id ∈ p.order, (p.skipPending reason).1.isPending id = false := by
  obtain ⟨ids, he, hs, hall⟩ := skips_foldl_skipOne reason p.order p []
  rw [List.nil_append] at he
  rw [← he] at hs hall
  refine ⟨hs, fun id hid => ?_⟩
  rw [Bool.eq_false_iff]
  intro hp
  obtain ⟨hp₀, hnot⟩ := hs.isPending.1 hp
  exact hnot (hall id hid hp₀)

theorem skips_foldl_setStatus (l : List NodeId) (hl : l.Nodup) (p : Plan)
    (hp : ∀ id ∈ l, p.isPending id = true) :
    Skips reason p l (l.foldl (fun p id => p.setStatus id (.skipped reason)) p) := by
  induction l generalizing p with
  | nil => exact Skips.refl p
  | cons a l ih =>
    rw [List.nodup_cons] at hl
    have ha : Skips reason p [a] (p.setStatus a (.skipped reason)) :=
      Skips.setStatus (hp a List.mem_cons_self)
    refine ha.trans (ih hl.2 _ fun id hid => ha.isPending.2 ⟨hp id (List.mem_cons_of_mem a hid), ?_⟩)
    rw [List.mem_singleton]
    rintro rfl
    exact hl.1 hid

end Skipping

end Plan

end Workplan
