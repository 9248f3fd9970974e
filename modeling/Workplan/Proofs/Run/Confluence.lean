import Workplan.Proofs.Run.Coherence
import Workplan.Proofs.Run.Deferral
import Workplan.Proofs.Run.Faultlessness
import Workplan.Proofs.Run.Idleness

/-! Confluence: two runs of one graph whose handlers answer alike come to the same end. A stage in which
nothing can go on any more bounds every other run: what that run starts has succeeded there, with the same
outcome, so that it cannot fail. As this holds both ways, neither run leaves anything out. -/
namespace Workplan
open Outcome
set_option autoImplicit false

/-- What the first stage has started has succeeded in the second, and they agree on what has ended. They
may be stages of two runs. -/
structure Stage.Within (s t : Stage) : Prop where
  agrees : s.Agrees t
  started : ∀ {id}, s.run.plan.hasStarted id = true → t.run.plan.hasSucceeded id = true

/-- Nothing goes on any more, and nothing has gone wrong. -/
structure Stage.Still (s : Stage) : Prop where
  paused : s.run.plan.Paused
  ready : ∀ id, s.run.plan.isReady id = false

section Still
variable {g : Graph} {s t u : Stage} {id : NodeId} {n : Node} {b : Behaviour}

/-- A resource that is waited for has succeeded, unless it and all that demands it are held up. -/
theorem Stage.Still.resource (h : t.Still) (hg : g.Sound) (ht : Live g t) {name : String}
    (hn : t.run.plan.node? (NodeId.resource name) = some n)
    (hq : ∀ q ∈ n.predecessors, t.run.plan.hasSucceeded q = true) {c : NodeId} {m : Node}
    (hm : t.run.plan.node? c = some m) (hmem : NodeId.resource name ∈ m.predecessors)
    (hawaits : t.run.plan.Awaits m) : t.run.plan.hasSucceeded (NodeId.resource name) = true := by
  obtain ⟨hname, -⟩ := ht.sound.unfolds.uses_of_mem_predecessors hg hm hmem
  cases hc : t.run.plan.isPending c with
  | true =>
    apply h.paused.hasSucceeded_resource (ht.sound.status.2 ⟨n, hn⟩) hc ⟨m, hm, hname⟩
    rw [Bool.eq_false_iff]
    intro hp
    have hready := ht.sound.isReady_resource hn hp hq hm hc hmem hawaits
    rw [h.ready] at hready
    cases hready
  | false =>
    have hk := NodeKind.isResource_of_mem_uses hname
    have hsucc := h.paused.hasSucceeded hg ht.sound hm hk hc
    exact ht.sound.gated hm (Plan.hasStarted_of_hasSucceeded hsucc) hmem

/-- What can start in a stage has succeeded in one that bounds it. -/
theorem Stage.Within.hasSucceeded_of_isReady (hg : g.Sound) (h : s.Within t) (hs : Live g s)
    (ht : Live g t) (hstill : t.Still) (hr : s.run.plan.isReady id = true) :
    t.run.plan.hasSucceeded id = true := by
  obtain ⟨hpend, n, hn, hq, hd⟩ := Plan.isReady_iff.1 hr
  have hopen : s.run.plan.Unpacked s.expansions := fun hn hk hq => hs.expanded hn hk (.inl hq)
  have hsucc : ∀ {q}, s.run.plan.hasSucceeded q = true → t.run.plan.hasSucceeded q = true :=
    fun hq => h.started (Plan.hasStarted_of_hasSucceeded hq)
  have hlater : ∀ {x m}, s.run.plan.node? x = some m → s.run.plan.Awaits m →
      ∃ m', t.run.plan.node? x = some m' ∧ m'.kind = m.kind ∧ m'.predecessors = m.predecessors := by
    intro x m hm hawaits
    obtain ⟨m', hm'⟩ := h.agrees.exists_node hs ht hm
    obtain ⟨hk, -⟩ :=
      Plan.bindings_later hg hs.sound hopen ht.sound h.agrees.expansions hm hm' hawaits
    exact ⟨m', hm', hk,
      Plan.predecessors_later hg hs.sound hopen ht.sound h.agrees.expansions hm hm' hawaits⟩
  obtain ⟨n', hn', hk, hpred⟩ := hlater hn fun q hm => .inl (hq q hm)
  have hq' : ∀ q ∈ n'.predecessors, t.run.plan.hasSucceeded q = true := by
    rw [hpred]
    exact fun q hm => hsucc (hq q hm)
  cases hres : n.kind.isResource with
  | false =>
    by_cases hp : t.run.plan.isPending id = true
    · have hready : t.run.plan.isReady id = true :=
        Plan.isReady_iff.2 ⟨hp, n', hn', hq', fun hc => by rw [hk, hres] at hc; cases hc⟩
      rw [hstill.ready] at hready
      cases hready
    · exact hstill.paused.hasSucceeded hg ht.sound hn' (hk ▸ hres) (Bool.eq_false_iff.2 hp)
  | true =>
    obtain ⟨name, rfl⟩ := hs.sound.unfolds.exists_eq_resource hn hg hres
    obtain ⟨c, hc, -, m, hm, hawaits⟩ := Plan.isDemanded_iff.1 (hd hres)
    obtain ⟨m₀, hm₀, hmem⟩ := (hs.sound.unfolds.linked.mem_successors hn).1 hc
    cases hm.symm.trans hm₀
    obtain ⟨m', hm', -, hpred'⟩ := hlater hm hawaits
    refine hstill.resource hg ht hn' hq' hm' (hpred' ▸ hmem) ?_
    rw [Plan.Awaits, hpred']
    exact fun q hq => (hawaits q hq).imp_left hsucc

end Still

/-! ## Runs within a bound -/

section Bounded
variable {g : Graph} {s t u : Stage} {id x : NodeId} {n : Node} {b : Behaviour} {registry : Registry}

/-- What has started within a bound has the outcome that it has there. -/
theorem Stage.Within.outcome (hg : g.Sound) (h : s.Within u) (hs : Live g s) (hu : Live g u)
    (hc : u.Coherent b) (hn : s.run.plan.node? id = some n)
    (hst : s.run.plan.hasStarted id = true) : ∃ w, b.evaluate s.run.plan id n = .ok w ∧
      u.run.plan.result? id = w.output? ∧ ∀ vars, w = .expanded vars → u.expansions id = some vars := by
  obtain ⟨n', w, hn', hw, ho, hE⟩ := hc.succeeded (h.started hst)
  rw [h.agrees.evaluate hg hs hu hn hn' hst] at hw
  exact ⟨w, hw, ho, hE⟩

theorem Stage.Within.later (hg : g.Sound) (h : s.Within u) (ha : s.Agrees t) (hs : Live g s)
    (ht : Live g t) (hu : Live g u) (hct : t.Coherent b) (hcu : u.Coherent b)
    (hE : ∀ {q vars}, t.expansions q = some vars → u.expansions q = some vars)
    (hst : ∀ {x}, t.run.plan.hasStarted x = true → s.run.plan.hasStarted x = true) : t.Within u where
  agrees := by
    refine ⟨hE, fun {q} hq => ?_⟩
    have hsq := hst (Plan.hasStarted_of_hasSucceeded hq)
    obtain ⟨st, hstatus, -⟩ := Plan.hasStarted_iff.1 hsq
    obtain ⟨n, hn⟩ := hs.sound.node_of_status hstatus
    obtain ⟨w, hw, ho, -⟩ := h.outcome hg hs hu hcu hn hsq
    obtain ⟨n', w', hn', hw', ho', -⟩ := hct.succeeded hq
    rw [ha.evaluate hg hs ht hn hn' hsq, hw] at hw'
    cases hw'
    rw [ho, ho']
  started := fun hx => h.started (hst hx)

theorem Plan.hasStarted_setStatus_of_running {p : Plan} {st : NodeStatus}
    (hrun : p.status? id = some .running) (hst : st.isStarted = true) :
    (p.setStatus id st).hasStarted x = p.hasStarted x := by
  rw [hasStarted, hasStarted, status?_setStatus]
  split
  next hx =>
    rw [hx, hrun]
    exact hst
  next => rfl

theorem Plan.hasStarted_markSucceeded {p : Plan} {output : Option Value}
    (hrun : p.status? id = some .running) :
    (p.markSucceeded id output).hasStarted x = p.hasStarted x := by
  have hset := Plan.hasStarted_setStatus_of_running (x := x) hrun
    (show NodeStatus.succeeded.isStarted = true from rfl)
  cases output with
  | none => exact hset
  | some v => exact hset

theorem Moves.hasStarted (hg : g.Sound) (hm : Moves s t) (hl : Live g s)
    (h : t.run.plan.hasStarted x = true) : s.run.plan.hasStarted x = true := by
  -- A move ends nodes that are running and skips nodes that are pending.
  cases hm with
  | @expand r E id vars p children hE he =>
    have hx := hl.sound.expands hg hE he
    exact (hx.hasStarted hl.sound).symm.trans h
  | @conclude r E id w hE =>
    have hagree := Run.agree_release r id
    simp only [Run.conclude] at h
    split at h
    next =>
      rw [Run.settle, hagree.plan] at h
      have h' : (r.plan.markSucceeded id w.output?).hasStarted x = true := h
      rwa [Plan.hasStarted_markSucceeded (hl.active rfl).1] at h'
    next =>
      rw [hagree.plan] at h
      exact h
  | @fail r E id o e hf =>
    rw [Run.plan_blame] at h
    have h' : (r.plan.markFailed id e.message).1.hasStarted x = true := h
    rw [(Plan.skips_markFailed r.plan id e.message).hasStarted,
      Plan.hasStarted_setStatus_of_running (hl.active rfl).1 rfl] at h'
    exact h'
  | release r E a id l =>
    rw [(Run.agree_release r id).plan] at h
    exact h
  | skipIdle r E =>
    have h' : r.plan.skipIdleResources.1.hasStarted x = true := h
    rw [hl.sound.skips_skipIdleResources.hasStarted] at h'
    exact h'
  | @skipAll r E reason ha =>
    have h' : (r.plan.skipPending reason).1.hasStarted x = true := h
    rw [(Plan.skips_skipPending r.plan reason).1.hasStarted] at h'
    exact h'
  | @credit r E d hm result time hf owner ho =>
    simp only [Run.credit] at h
    split at h
    next => exact h
    next waiting output hd =>
      split at h
      next => exact h
      next =>
        have h' : (r.plan.markSucceeded owner output).hasStarted x = true := h
        rwa [Plan.hasStarted_markSucceeded (hl.deferred hd)] at h'
  | @giveUp r E hd id d hget =>
    have h' : (r.plan.markSucceeded id d.2).hasStarted x = true := h
    rwa [Plan.hasStarted_markSucceeded (hl.deferred hget)] at h'
  | @stall r E ha hm hd hr hw =>
    have h' : (r.plan.skipPending Run.stallReason).1.hasStarted x = true := h
    rw [(Plan.skips_skipPending r.plan Run.stallReason).1.hasStarted] at h'
    exact h'
  | drain E hw hm hd hp =>
    rw [(Run.agree_spawnDestroys none _ _).plan] at h
    exact h
  | _ => exact h

theorem Run.Fails.not_within {r : Run} {E : Expansions} {o : Option WorkOutcome} {e : RunError}
    (hf : r.Fails E id o e) (hg : g.Sound) (hreg : g.Registered r.settings.registry)
    (hs : Live g ⟨r, E, some (id, o), []⟩) (hcov : (Stage.mk r E (some (id, o)) []).Covered)
    (hstock : (Stage.mk r E (some (id, o)) []).Stocked)
    (hc : (Stage.mk r E (some (id, o)) []).Coherent b) (hu : Live g u) (hcu : u.Coherent b) :
    ¬ (Stage.mk r E (some (id, o)) []).Within u := by
  intro h
  have hrun : r.plan.status? id = some .running := (hs.active rfl).1
  obtain ⟨n, hn⟩ := hs.node_of_running hrun
  have hstarted : r.plan.hasStarted id = true := Plan.hasStarted_iff.2 ⟨_, hrun, rfl⟩
  obtain ⟨w, hw, -, hE⟩ := h.outcome hg hs hu hcu hn hstarted
  cases hf with
  | prepare hp =>
    obtain ⟨n', hn', hcase⟩ := prepare_cases hg hreg hs hcov hstock
    cases hn.symm.trans hn'
    rcases hcase with ⟨t, ht⟩ | ⟨e', he', -⟩
    · rw [ht] at hp
      cases hp
    · obtain ⟨scope, hscope, -⟩ := bind_eq_ok.1 hw
      have hscope' : r.plan.scopeFor n = .ok scope := hscope
      rw [he'] at hscope'
      cases hscope'
  | work => cases (hc.active rfl hn).trans hw
  | expansion hnone he =>
    obtain rfl := Except.ok.inj ((hc.active rfl hn).trans hw)
    obtain ⟨p, children, hok⟩ :=
      Plan.exists_expand_eq_ok hg hs.sound hu.sound h.agrees.expansions hnone (hE _ rfl) hrun
    cases he.symm.trans hok

/-- Nothing has gone wrong so far, and what has been started has succeeded in another stage. -/
structure Stage.Bounded (b : Behaviour) (s u : Stage) : Prop where
  smooth : s.Smooth
  coherent : s.Coherent b
  within : s.Within u

theorem Moves.accepting (hg : g.Sound) (hm : Moves s t) (hreg : g.Registered registry) (hl : Live g s)
    (hp : s.Provides g registry) (h : s.Bounded b u) (hu : Live g u) (hcu : u.Coherent b) :
    t.run.accepting = true := by
  have hacc := h.smooth.accepting
  cases hm with
  | conclude r hE => exact (Run.accepting_conclude r _ _).trans hacc
  | fail hf =>
    exact absurd h.within
      (hf.not_within hg (hp.settings ▸ hreg) hl hp.covered hp.stocked h.coherent hu hcu)
  | release r E a id l => exact (Run.agree_release r id).accepting.trans hacc
  | skipAll E reason ha => exact absurd (ha.symm.trans hacc) Bool.false_ne_true
  | observe E ha hs => exact absurd (h.coherent.stopRequested.symm.trans hs) Bool.false_ne_true
  | credit E hm hf ho => exact (Run.accepting_credit _ _).trans hacc
  | drain E hw hm hd hp => exact (Run.agree_spawnDestroys none _ _).accepting.trans hacc
  | _ => exact hacc

theorem Moves.expansions (hg : g.Sound) (hm : Moves s t) (hl : Live g s) (h : s.Bounded b u)
    (hu : Live g u) (hcu : u.Coherent b) {q : NodeId} {vars : List LoopVars}
    (hq : t.expansions q = some vars) : u.expansions q = some vars := by
  cases hm with
  | @expand r E id vars' p children hE he =>
    by_cases hqid : q = id
    · subst hqid
      have hrun := (hl.active rfl).1
      obtain ⟨n, hn⟩ := hl.node_of_running hrun
      obtain ⟨w, hw, -, hall⟩ :=
        h.within.outcome hg hl hu hcu hn (Plan.hasStarted_iff.2 ⟨_, hrun, rfl⟩)
      obtain rfl := Except.ok.inj ((h.coherent.active rfl hn).trans hw)
      have hq' : (E.set q vars') q = some vars := hq
      rw [Expansions.set_self] at hq'
      cases hq'
      exact hall _ rfl
    · have hq' : (E.set id vars') q = some vars := hq
      rw [Expansions.set_of_ne hqid] at hq'
      exact h.within.agrees.expansions hq'
  | _ => exact h.within.agrees.expansions hq

/-- Every move stays within the bound, unless it is the last resort of a run that has stalled. -/
theorem Moves.bounded (hg : g.Sound) (huntimed : g.Untimed) (hm : Moves s t)
    (hreg : g.Registered registry) (hn : s.run.Numbered) (hl : Live g s)
    (hp : s.Provides g registry) (h : s.Bounded b u) (hu : Live g u) (hcu : u.Coherent b)
    (hstalled : t.run.stalled = []) : t.Bounded b u := by
  have hsmooth : t.Smooth := ⟨hm.accepting hg hreg hl hp h hu hcu, hstalled⟩
  have hcoh := hm.coherent hg huntimed hn hl h.coherent hsmooth
  exact ⟨hsmooth, hcoh, h.within.later hg (hm.agrees hg hl) hl (hm.live hg hn hl) hu hcoh hcu
    (hm.expansions hg hl h hu hcu) (hm.hasStarted hg hl)⟩

theorem Begins.bounded (hg : g.Sound) (hb : Begins s id t) (hl : Live g s) (h : s.Bounded b u)
    (hu : Live g u) (hstill : u.Still) : t.Bounded b u := by
  have hcoh := hb.coherent hg hl h.coherent
  cases hb with
  | @mk r E id ha hlimit hr =>
    have hpend := Plan.isPending_of_isReady hr
    refine ⟨⟨h.smooth.accepting, h.smooth.stalled⟩, hcoh, ⟨h.within.agrees.expansions, fun {q} hq => ?_⟩,
      fun {q} hq => ?_⟩
    · have hq' : (r.plan.markRunning id).hasSucceeded q = true := hq
      rw [Plan.hasSucceeded_markRunning hpend] at hq'
      exact h.within.agrees.result hq'
    · by_cases hqid : q = id
      · rw [hqid]
        exact h.within.hasSucceeded_of_isReady hg hl hu hstill hr
      · have hq' : (r.plan.setStatus id .running).hasStarted q = true := hq
        rw [Plan.Sound.hasStarted_setStatus_of_ne hqid] at hq'
        exact h.within.started hq'

end Bounded

/-- What holds of the stages of a run whose handlers follow a behaviour, as long as it has not stalled. -/
structure Stage.Orderly (g : Graph) (registry : Registry) (b : Behaviour) (s u : Stage) : Prop where
  provides : s.Provides g registry
  attended : s.Attended True
  bounded : s.run.stalled = [] → s.Bounded b u
  clean : s.run.stalled = [] → s.run.plan.Clean

namespace Run
section Kept
variable {g : Graph} {u : Stage} {b : Behaviour} {registry : Registry} {limit : Nat} {h : Trace}
variable {r r' : Run} {E : Expansions} {id : NodeId}

/-- What is not a cancellation by the caller. -/
def Uncancelled (h : Trace) : Prop := ∀ x ∈ h, x.2 ≠ .requestStop

theorem Works.bounded {e : Event} (hg : g.Sound) (hw : Works r e r') (hr : Reached g E r)
    (hR : registry.Follows b) (hp : (Stage.mk r E none []).Provides g registry)
    (h : (Stage.mk r E none []).Bounded b u) (he : e ≠ .requestStop) :
    (Stage.mk r' E none []).Bounded b u := by
  have hun := hw.undisturbed
  have hcoh := hw.coherent hg hr.numbered hr.live hp.stocked (hp.settings ▸ hR) h.coherent he
  refine ⟨⟨hun.accepting.trans h.smooth.accepting, hun.stalled.trans h.smooth.stalled⟩, hcoh,
    ⟨h.within.agrees.expansions, fun {q} hq => ?_⟩, fun {q} hq => ?_⟩
  · change r'.plan.hasSucceeded q = true at hq
    change u.run.plan.result? q = r'.plan.result? q
    rw [hun.plan] at hq ⊢
    exact h.within.agrees.result hq
  · change r'.plan.hasStarted q = true at hq
    rw [hun.plan] at hq
    exact h.within.started hq

theorem bounded_new (registry : Registry) (limit : Nat) :
    (Stage.mk (new ⟨registry, limit, none⟩ g false) .none none []).Bounded b u := by
  have hpend : ∀ {q}, (Plan.ofGraph g).hasStarted q = false := by
    intro q
    rw [Plan.hasStarted, Plan.status?, Plan.ofGraph, SortedMap.get?_mapValues]
    cases g.nodes.get? q <;> rfl
  refine ⟨⟨rfl, rfl⟩, coherent_new g registry limit b, ⟨fun hq => (by cases hq), fun {q} hq => ?_⟩,
    fun {q} hq => ?_⟩
  · have hst := Plan.hasStarted_of_hasSucceeded hq
    change (Plan.ofGraph g).hasStarted q = true at hst
    rw [hpend] at hst
    cases hst
  · change (Plan.ofGraph g).hasStarted q = true at hq
    rw [hpend] at hq
    cases hq

theorem kept_coherent (hg : g.Sound) (hs : g.Scoped) (hu : g.Untimed) (hR : registry.Follows b) :
    Stage.Kept g (fun e => e ≠ .requestStop) fun s => s.Provides g registry ∧
      (s.Smooth → s.Coherent b ∧ s.run.plan.Clean) where
  move := fun hm hn hl h => ⟨(kept_provides hg hs).move hm hn hl h.1, fun ht =>
    ⟨hm.coherent hg hu hn hl (h.2 (hm.smooth hl ht)).1 ht,
      hm.clean hg hl (h.2 (hm.smooth hl ht)).2 ht⟩⟩
  start := fun hb hn hl h => ⟨(kept_provides hg hs).start hb hn hl h.1, fun ht =>
    ⟨hb.coherent hg hl (h.2 (hb.smooth ht)).1, hb.clean (h.2 (hb.smooth ht)).2⟩⟩
  work := fun he hw hr h => ⟨(kept_provides hg hs).work trivial hw hr h.1, fun ht =>
    ⟨hw.coherent hg hr.numbered hr.live h.1.stocked (h.1.settings ▸ hR)
        (h.2 (hw.undisturbed.smooth ht)).1 he,
      hw.undisturbed.plan ▸ (h.2 (hw.undisturbed.smooth ht)).2⟩⟩

theorem kept_orderly (hg : g.Sound) (hs : g.Scoped) (hreg : g.Registered registry)
    (huntimed : g.Untimed) (hR : registry.Follows b) (hu : Live g u) (hcu : u.Coherent b)
    (hstill : u.Still) :
    Stage.Kept g (fun e => e ≠ .requestStop) fun s => s.Orderly g registry b u where
  move := fun hm hn hl h => by
    have hbounded := fun ht => hm.bounded hg huntimed hreg hn hl h.provides
      (h.bounded (hm.stalled hl ht)) hu hcu ht
    exact ⟨(kept_provides hg hs).move hm hn hl h.provides,
      hm.attended hg hn hl (fun _ => h.provides.settings ▸ hR.destroy) h.attended, hbounded,
      fun ht => hm.clean hg hl (h.clean (hm.stalled hl ht)) (hbounded ht).smooth⟩
  start := fun hb hn hl h => ⟨(kept_provides hg hs).start hb hn hl h.provides,
    hb.attended h.attended, fun ht => hb.bounded hg hl (h.bounded (hb.stalled ▸ ht)) hu hstill,
    fun ht => hb.clean (h.clean (hb.stalled ▸ ht))⟩
  work := fun {r e r' E} he hw hr h => by
    have hun := hw.undisturbed
    refine ⟨(kept_provides hg hs).work trivial hw hr h.provides, hw.attended h.attended,
      fun ht => hw.bounded hg hr hR h.provides (h.bounded (hun.stalled ▸ ht)) he, fun ht => ?_⟩
    change r'.plan.Clean
    rw [hun.plan]
    exact h.clean (hun.stalled ▸ ht)

theorem orderly_new (hg : g.Sound) (registry : Registry) (limit : Nat) :
    (Stage.mk (new ⟨registry, limit, none⟩ g false) .none none []).Orderly g registry b u where
  provides := @provides_new g ⟨registry, limit, none⟩ false hg
  attended := attended_new _ _ _
  bounded := fun _ => bounded_new registry limit
  clean := fun _ => clean_new g _ _

end Kept
end Run

end Workplan
