import Workplan.Proofs.Run.Stock

/-! Results: a plan keeps an output for every step instance that has succeeded, and for no other node. An
output that waits for destructions is already that of a step instance. -/
namespace Workplan
set_option autoImplicit false

/-- A node of the plan is a step instance. -/
def Plan.IsStep (p : Plan) (id : NodeId) : Prop := ∃ n inst, p.node? id = some n ∧ n.kind = .step inst

/-- The outputs of a stage are those of its step instances. -/
structure Stage.Yielded (s : Stage) : Prop where
  deferred : ∀ {id d}, s.run.deferred.get? id = some d →
    (d.2.isSome = true ↔ s.run.plan.IsStep id)
  result : ∀ {id}, (s.run.plan.result? id).isSome = true ↔
    s.run.plan.hasSucceeded id = true ∧ s.run.plan.IsStep id

namespace Stage.Yielded
variable {g : Graph} {s t : Stage} {r : Run} {E : Expansions} {id : NodeId} {output : Option Value}
variable {a : Option (NodeId × Option WorkOutcome)} {l : List NodeId}

theorem result_eq_none (h : s.Yielded) (hr : s.run.plan.status? id = some .running) :
    s.run.plan.result? id = none := by
  rw [← Option.not_isSome_iff_eq_none, h.result, Plan.hasSucceeded_iff, hr]
  simp

theorem frame (h : s.Yielded) (hl : Live g s)
    (hstep : ∀ {id st}, s.run.plan.status? id = some st →
      (t.run.plan.IsStep id ↔ s.run.plan.IsStep id))
    (hsucc : ∀ id, t.run.plan.hasSucceeded id = s.run.plan.hasSucceeded id)
    (hres : t.run.plan.results = s.run.plan.results)
    (hdef : ∀ {id d}, t.run.deferred.get? id = some d → ∃ d', s.run.deferred.get? id = some d' ∧
      d'.2 = d.2) : t.Yielded where
  deferred := by
    intro id d hd
    obtain ⟨d', hd', he⟩ := hdef hd
    rw [hstep (hl.deferred hd'), ← h.deferred hd', he]
  result := by
    intro id
    have hr : t.run.plan.result? id = s.run.plan.result? id := by rw [Plan.result?, hres, Plan.result?]
    rw [hr, h.result, hsucc id]
    refine and_congr_right fun hs => (hstep (Plan.hasSucceeded_iff.1 hs)).symm

theorem agree {r' : Run} {l' : List NodeId} (h : (Stage.mk r E a l).Yielded)
    (hl : Live g ⟨r, E, a, l⟩) (ha : Run.Agree r r') : (Stage.mk r' E a l').Yielded := by
  refine h.frame hl (fun {id st} _ => ?_) (fun id => ?_) ?_ fun {id d} hd => ⟨d, ?_, rfl⟩
  · exact ha.plan ▸ .rfl
  · exact ha.plan ▸ rfl
  · exact ha.plan ▸ rfl
  · exact ha.deferred ▸ hd

theorem restatus {p : Plan} {a' : Option (NodeId × Option WorkOutcome)} {l' : List NodeId}
    (h : (Stage.mk r E a l).Yielded) (hl : Live g ⟨r, E, a, l⟩) (hn : p.nodes = r.plan.nodes)
    (hs : ∀ x, p.hasSucceeded x = r.plan.hasSucceeded x) (hr : p.results = r.plan.results) :
    (Stage.mk { r with plan := p } E a' l').Yielded := by
  refine h.frame hl (fun {id st} _ => ?_) hs hr fun {id d} hd => ⟨d, hd, rfl⟩
  change (∃ n inst, p.nodes.get? id = some n ∧ n.kind = .step inst) ↔ _
  rw [hn]
  exact .rfl

theorem skips {reason : String} {ids : List NodeId} {p : Plan} (h : (Stage.mk r E none []).Yielded)
    (hl : Live g ⟨r, E, none, []⟩) (hs : Plan.Skips reason r.plan ids p) (l' : List NodeId) :
    (Stage.mk { r with plan := p } E none l').Yielded :=
  h.restatus hl hs.nodes (fun _ => hs.hasSucceeded) hs.results

theorem settle (h : (Stage.mk r E a l).Yielded) (hr : r.plan.status? id = some .running)
    (ho : output.isSome = true ↔ r.plan.IsStep id) :
    (Stage.mk (r.settle id output) E none []).Yielded where
  deferred := by
    intro x d hd
    have hx := h.deferred hd
    refine hx.trans ?_
    change _ ↔ ∃ n inst, (r.plan.markSucceeded id output).node? x = some n ∧ n.kind = .step inst
    rw [Plan.node?_markSucceeded]
    exact .rfl
  result := by
    intro x
    have hstep : (r.plan.markSucceeded id output).IsStep x ↔ r.plan.IsStep x := by
      rw [Plan.IsStep, Plan.node?_markSucceeded]
      exact .rfl
    change ((r.plan.markSucceeded id output).result? x).isSome = true ↔
      (r.plan.markSucceeded id output).hasSucceeded x = true ∧ (r.plan.markSucceeded id output).IsStep x
    rw [hstep, Plan.result?_markSucceeded, Plan.hasSucceeded_iff, Plan.status?_markSucceeded]
    by_cases hx : x = id
    · subst hx
      rw [if_pos rfl, hr]
      cases output with
      | none =>
        have hnone : r.plan.result? x = none := h.result_eq_none hr
        have hno : ¬ r.plan.IsStep x := fun hc => by simpa using ho.2 hc
        simp [hnone, hno]
      | some v => simpa using ho.1 rfl
    · rw [if_neg hx, if_neg fun hc => hx hc.1, ← Plan.hasSucceeded_iff]
      exact h.result

theorem defer (h : (Stage.mk r E a l).Yielded) (k : Nat)
    (ho : output.isSome = true ↔ r.plan.IsStep id) :
    (Stage.mk { r with deferred := r.deferred.insert id (k, output) } E none []).Yielded where
  deferred := by
    intro x d hd
    change (r.deferred.insert id (k, output)).get? x = some d at hd
    rw [SortedMap.get?_insert] at hd
    split at hd
    next hx =>
      cases hd
      subst hx
      exact ho
    next => exact h.deferred hd
  result := h.result

theorem conclude {o : Option WorkOutcome} (h : (Stage.mk r E (some (id, o)) []).Yielded)
    (hl : Live g ⟨r, E, some (id, o), []⟩) (ho : output.isSome = true ↔ r.plan.IsStep id) :
    (Stage.mk (r.conclude id output) E none []).Yielded := by
  have hagree := Run.agree_release r id
  have hrel : (Stage.mk (r.release id).1 E (some (id, o)) []).Yielded := h.agree hl hagree
  have ho' : output.isSome = true ↔ (r.release id).1.plan.IsStep id := by
    rw [hagree.plan]
    exact ho
  have hrun : (r.release id).1.plan.status? id = some .running := by
    rw [hagree.plan]
    exact (hl.active rfl).1
  simp only [Run.conclude]
  split
  next => exact hrel.settle hrun ho'
  next => exact hrel.defer _ ho'

theorem undefer (h : (Stage.mk r E none []).Yielded) (hl : Live g ⟨r, E, none, []⟩)
    {d : Nat × Option Value} (hd : r.deferred.get? id = some d) :
    (Stage.mk ({ r with deferred := r.deferred.erase id }.settle id d.2) E none []).Yielded := by
  have herase : (Stage.mk { r with deferred := r.deferred.erase id } E none []).Yielded := by
    refine h.frame hl (fun _ => .rfl) (fun _ => rfl) rfl fun {x d'} hd' => ⟨d', ?_, rfl⟩
    change (r.deferred.erase id).get? x = some d' at hd'
    rw [SortedMap.get?_erase] at hd'
    split at hd'
    next => cases hd'
    next => exact hd'
  exact herase.settle (hl.deferred hd) (h.deferred hd)

theorem credit (h : (Stage.mk r E none []).Yielded) (hl : Live g ⟨r, E, none, []⟩)
    (owner : NodeId) : (Stage.mk (r.credit owner) E none []).Yielded := by
  rw [Run.credit]
  split
  next => exact h
  next waiting output hd =>
    split
    next => exact h.defer _ (h.deferred hd)
    next => exact h.undefer hl hd

end Stage.Yielded

section Moves
variable {g : Graph} {s t : Stage}

theorem WorkResult.isSome_output? {kind : NodeKind} {w : WorkResult} (hw : w.Fits kind) :
    w.output?.isSome = true ↔ ∃ inst, kind = .step inst := by
  cases kind <;> cases w <;> simp_all [WorkResult.Fits, WorkResult.output?]

theorem Moves.yielded (hg : g.Sound) (hm : Moves s t) (hn : s.run.Numbered) (hl : Live g s)
    (h : s.Yielded) : t.Yielded := by
  cases hm with
  | note r E a l id time hk => exact h.agree hl (.note r id _ time)
  | blemish r E e => exact ⟨h.deferred, h.result⟩
  | collect E ht hf => exact ⟨h.deferred, h.result⟩
  | enqueue E hp hlimit => exact ⟨h.deferred, h.result⟩
  | @expand r E id vars p children hE he =>
    have hx := Plan.Sound.expands hg hl.sound hE he
    have hl' := (Moves.expand hE he).live hg hn hl
    refine h.frame hl (fun {x st} hst => ?_) (fun x => ?_) hx.results fun hd => ⟨_, hd, rfl⟩
    · obtain ⟨n, hnode⟩ := hl.sound.node_of_status hst
      obtain ⟨n', hn', hk, -⟩ := hx.kept hnode
      change (∃ m inst, p.node? x = some m ∧ m.kind = .step inst) ↔
        ∃ m inst, r.plan.node? x = some m ∧ m.kind = .step inst
      rw [hn', hnode]
      simp [hk]
    · exact hx.hasSucceeded hl.sound
  | @conclude r E id w hE =>
    refine h.conclude hl ?_
    obtain ⟨n, hnode⟩ := hl.node_of_running (hl.active rfl).1
    have hfits : w.Fits n.kind := (hl.active_fits rfl).2 (.ok w) n rfl hnode
    rw [WorkResult.isSome_output? hfits, Plan.IsStep, hnode]
    simp
  | @fail r E id o e hf =>
    -- A running node fails and pending ones are skipped: who has succeeded is as before.
    have hsk := Plan.skips_markFailed r.plan id e.message
    have hmarked : (Stage.mk { r with plan := (r.plan.markFailed id e.message).1 } E none
        ((r.plan.markFailed id e.message).2 ++ [id])).Yielded := by
      exact h.restatus hl hsk.nodes
        (fun _ => Plan.hasSucceeded_markFailed (hl.active rfl).1 e.message) hsk.results
    constructor
    · intro x d hd
      rw [Run.deferred_blame] at hd
      rw [Run.plan_blame]
      exact hmarked.deferred hd
    · intro x
      rw [Run.plan_blame]
      exact hmarked.result
  | release r E a id l => exact h.agree hl (Run.agree_release r id)
  | skipIdle r E => exact h.skips hl hl.sound.skips_skipIdleResources _
  | skipAll E reason ha => exact h.skips hl (Plan.skips_skipPending _ reason).1 _
  | observe E ha hs => exact ⟨h.deferred, h.result⟩
  | lose E ht hf => exact ⟨h.deferred, h.result⟩
  | discard E ht hf ho => exact ⟨h.deferred, h.result⟩
  | @credit r E t ht result time hf owner ho =>
    have hdrop : (Stage.mk (r.dropDestroy t.number) E none []).Yielded := ⟨h.deferred, h.result⟩
    have hlive : Live g ⟨r.dropDestroy t.number, E, none, []⟩ := hl.frame rfl rfl rfl rfl
    exact hdrop.credit hlive owner
  | giveUp E hd hdef => exact h.undefer hl hdef
  | stall E ha ht hd hr hw =>
    have hskip := h.skips hl (Plan.skips_skipPending _ Run.stallReason).1 []
    exact ⟨hskip.deferred, hskip.result⟩
  | @drain r E hw ht hd hp =>
    have hdrained : (Stage.mk { r with slots := r.slots.drain.2, phase := .tearingDown } E none
      []).Yielded := ⟨h.deferred, h.result⟩
    exact hdrained.agree (hl.frame rfl rfl rfl rfl) (Run.agree_spawnDestroys none _ _)
  | close E hp hd => exact ⟨h.deferred, h.result⟩

theorem Begins.yielded {id : NodeId} (hb : Begins s id t) (hl : Live g s) (h : s.Yielded) :
    t.Yielded := by
  cases hb with
  | @mk r E _ ha hlimit hr =>
    have hp := Plan.isPending_of_isReady hr
    have hrun : (Stage.mk { r with plan := r.plan.markRunning id } E (some (id, none)) []).Yielded :=
      h.restatus hl rfl (fun _ => Plan.hasSucceeded_markRunning hp) rfl
    exact ⟨hrun.deferred, hrun.result⟩

end Moves

namespace Run

theorem Works.yielded {r r' : Run} {e : Event} {E : Expansions} (hw : Works r e r')
    (h : (Stage.mk r E none []).Yielded) : (Stage.mk r' E none []).Yielded := by
  have hun := hw.undisturbed
  constructor
  · intro id d hd
    change r'.deferred.get? id = some d at hd
    change _ ↔ r'.plan.IsStep id
    rw [hun.deferred] at hd
    rw [hun.plan]
    exact h.deferred hd
  · intro id
    change (r'.plan.result? id).isSome = true ↔ r'.plan.hasSucceeded id = true ∧ r'.plan.IsStep id
    rw [hun.plan]
    exact h.result

theorem yielded_new (settings : RunSettings) (g : Graph) (stopRequested : Bool) :
    (Stage.mk (new settings g stopRequested) .none none []).Yielded where
  deferred := fun h => by cases h
  result := by
    intro id
    refine ⟨fun h => (by cases h), fun h => ?_⟩
    have hs : (g.nodes.mapValues fun _ _ => NodeStatus.pending).get? id = some .succeeded :=
      Plan.hasSucceeded_iff.1 h.1
    rw [SortedMap.get?_mapValues] at hs
    obtain ⟨_, -, hs⟩ := Option.map_eq_some_iff.1 hs
    cases hs

end Run

end Workplan
