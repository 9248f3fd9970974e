import Workplan.Proofs.Plan.Soundness

/-! Evolution: what never changes back in a plan. Nodes stay and keep their kinds, what has started does
not become pending again, and a final status is final. -/
namespace Workplan
set_option autoImplicit false

namespace Plan

/-- The later plan comes from the earlier one by operations. -/
structure Evolves (p p' : Plan) : Prop where
  known : ∀ {id s}, p.status? id = some s → ∃ s', p'.status? id = some s'
  pending : ∀ {id}, p'.isPending id = true → p.isPending id = true ∨ p.status? id = none
  started : ∀ {id}, p.hasStarted id = true → p'.hasStarted id = true
  final : ∀ {id s}, p.status? id = some s → s.isTerminal = true → p'.status? id = some s
  kind : ∀ {id n}, p.node? id = some n → ∃ n', p'.node? id = some n' ∧ n'.kind = n.kind

namespace Evolves
variable {p p' p'' : Plan} {id : NodeId}

theorem refl (p : Plan) : Evolves p p :=
  ⟨fun h => ⟨_, h⟩, fun h => .inl h, fun h => h, fun h _ => h, fun h => ⟨_, h, rfl⟩⟩

theorem trans (h : Evolves p p') (h' : Evolves p' p'') : Evolves p p'' where
  known := by
    intro id s hs
    obtain ⟨s', hs'⟩ := h.known hs
    exact h'.known hs'
  pending := by
    intro id hp
    rcases h'.pending hp with hp | hn
    · exact h.pending hp
    · refine .inr ?_
      cases hs : p.status? id with
      | none => rfl
      | some s =>
        obtain ⟨s', hs'⟩ := h.known hs
        rw [hn] at hs'
        cases hs'
  started := fun hs => h'.started (h.started hs)
  final := fun hs ht => h'.final (h.final hs ht) ht
  kind := by
    intro id n hn
    obtain ⟨n', hn', hk'⟩ := h.kind hn
    obtain ⟨n'', hn'', hk''⟩ := h'.kind hn'
    exact ⟨n'', hn'', hk''.trans hk'⟩

theorem hasSucceeded (h : Evolves p p') (hs : p.hasSucceeded id = true) :
    p'.hasSucceeded id = true :=
  hasSucceeded_iff.2 (h.final (hasSucceeded_iff.1 hs) rfl)

end Evolves

variable {p p' : Plan} {id : NodeId}

theorem Skips.evolves {reason : String} {ids : List NodeId} (h : Skips reason p ids p') :
    Evolves p p' where
  known := by
    intro x s hs
    rw [h.status x]
    split
    next => exact ⟨_, rfl⟩
    next => exact ⟨s, hs⟩
  pending := fun hp => .inl (h.isPending.1 hp).1
  started := by
    intro x hs
    rw [h.hasStarted]
    exact hs
  final := by
    intro x s hs ht
    rw [h.status x, if_neg, hs]
    intro hx
    cases hs.symm.trans (isPending_iff.1 (h.pending x hx))
    cases ht
  kind := by
    intro x n hn
    exact ⟨n, (h.node? x).trans hn, rfl⟩

theorem Skips.running {reason : String} {ids : List NodeId} (h : Skips reason p ids p') :
    p'.status? id = some .running ↔ p.status? id = some .running := by
  rw [h.status id]
  by_cases hid : id ∈ ids
  · rw [if_pos hid, isPending_iff.1 (h.pending id hid)]
    simp
  · rw [if_neg hid]

theorem evolves_setStatus {s s' : NodeStatus} (hs : p.status? id = some s)
    (ht : s.isTerminal = false) (hs' : s'.isStarted = true) : Evolves p (p.setStatus id s') where
  known := fun h => (Sound.exists_status?_setStatus _).2 ⟨_, h⟩
  pending := by
    intro x hp
    rw [isPending_iff, status?_setStatus] at hp
    by_cases hx : x = id
    · rw [if_pos hx, hx, hs] at hp
      cases Option.some.inj hp
      cases hs'
    · rw [if_neg hx] at hp
      exact .inl (isPending_iff.2 hp)
  started := fun h => Sound.hasStarted_setStatus hs' h
  final := by
    intro x t hx htt
    rw [status?_setStatus, if_neg, hx]
    rintro rfl
    cases hs.symm.trans hx
    rw [ht] at htt
    cases htt
  kind := fun h => ⟨_, h, rfl⟩

theorem evolves_markSucceeded {s : NodeStatus} (hs : p.status? id = some s)
    (ht : s.isTerminal = false) (output : Option Value) : Evolves p (p.markSucceeded id output) := by
  have h : Evolves p (p.setStatus id .succeeded) := evolves_setStatus hs ht rfl
  cases output with
  | none => exact h
  | some v => exact ⟨h.known, h.pending, h.started, h.final, h.kind⟩

theorem evolves_markFailed (hs : p.status? id = some .running) (message : String) :
    Evolves p (p.markFailed id message).1 :=
  (evolves_setStatus hs rfl rfl).trans (skips_markFailed p id message).evolves

theorem status?_markFailed (hs : p.status? id = some .running) (message : String) :
    (p.markFailed id message).1.status? id = some (.failed message) := by
  apply (skips_markFailed p id message).evolves.final _ rfl
  simp [status?_setStatus, hs]

theorem Sound.evolves_of_expands {g : Graph} {E : Expansions} (h : p.Sound g E)
    {vars : List LoopVars} {children : List NodeId} (hx : Expands p id vars children p') :
    Evolves p p' where
  known := by
    intro x s hs
    exact ⟨s, hx.keeps_status h hs⟩
  pending := by
    intro x hp
    by_cases hc : x ∈ children
    · exact .inr (hx.status_eq_none h hc)
    · rw [isPending_iff, hx.status, if_neg hc] at hp
      exact .inl (isPending_iff.2 hp)
  started := by
    intro x hs
    rw [hx.hasStarted h]
    exact hs
  final := fun hs _ => hx.keeps_status h hs
  kind := by
    intro x n hn
    obtain ⟨n', hn', hk, -⟩ := hx.kept hn
    exact ⟨n', hn', hk⟩

end Plan

end Workplan
