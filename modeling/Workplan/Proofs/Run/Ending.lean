import Workplan.Proofs.Run.Live

/-! Ends: what a run does with a node or a destruction that has ended, as chains of moves. When the run
does not go on after it, nothing is left pending. -/
namespace Workplan
set_option autoImplicit false

namespace Run

/-- Nothing is pending once no node will be started any more. -/
def Rested (r : Run) : Prop := r.accepting = false → ∀ id, r.plan.isPending id = false

/-- The run has the same settings and stands at the same point. -/
structure Keeps (r r' : Run) : Prop where
  settings : r'.settings = r.settings
  phase : r'.phase = r.phase
  stalled : r'.stalled = r.stalled

namespace Keeps
variable {r r' r'' : Run}

theorem refl (r : Run) : Keeps r r := ⟨rfl, rfl, rfl⟩

theorem trans (h : Keeps r r') (h' : Keeps r' r'') : Keeps r r'' :=
  ⟨h'.settings.trans h.settings, h'.phase.trans h.phase, h'.stalled.trans h.stalled⟩

end Keeps

theorem Agree.keeps {r r' : Run} (h : Agree r r') : Keeps r r' := ⟨h.settings, h.phase, h.stalled⟩

section Chains
variable {g : Graph} {r : Run} {E : Expansions} {a : Option (NodeId × Option WorkOutcome)}
variable {id : NodeId}

/-! ## Skipping -/

theorem path_recordSkipped (r : Run) (E : Expansions) (a : Option (NodeId × Option WorkOutcome))
    (ids l : List NodeId) : Path ⟨r, E, a, ids ++ l⟩ [] ⟨r.recordSkipped ids, E, a, l⟩ := by
  induction ids generalizing r with
  | nil => exact .refl _
  | cons id ids ih =>
    have hnote : Path ⟨r, E, a, id :: ids ++ l⟩ [] ⟨r.note id .skipped r.now, E, a, id :: ids ++ l⟩ :=
      .single (.note r E a _ id r.now (by decide))
    exact (hnote.trans_nil (.single (.release _ E a id (ids ++ l)))).trans_nil (ih _)

theorem path_recordSkipped_all (r : Run) (E : Expansions)
    (a : Option (NodeId × Option WorkOutcome)) (ids : List NodeId) :
    Path ⟨r, E, a, ids⟩ [] ⟨r.recordSkipped ids, E, a, []⟩ := by
  have h := path_recordSkipped r E a ids []
  rwa [List.append_nil] at h

theorem path_skipPending (E : Expansions) (reason : String) (h : r.accepting = false) :
    Path ⟨r, E, none, []⟩ [] ⟨(r.skipPending reason).1, E, none, []⟩ :=
  (Path.single (.skipAll E reason h)).trans_nil (path_recordSkipped_all _ E none _)

theorem plan_skipPending (r : Run) (reason : String) :
    (r.skipPending reason).1.plan = (r.plan.skipPending reason).1 :=
  (agree_recordSkipped _ _).plan

theorem keeps_skipPending (r : Run) (reason : String) : Keeps r (r.skipPending reason).1 := by
  have h := (agree_recordSkipped { r with plan := (r.plan.skipPending reason).1 }
    (r.plan.skipPending reason).2).keeps
  exact ⟨h.settings, h.phase, h.stalled⟩

theorem accepting_skipPending (r : Run) (reason : String) :
    (r.skipPending reason).1.accepting = r.accepting :=
  (agree_recordSkipped _ _).accepting

theorem path_skipUnlessAccepting (r : Run) (E : Expansions) :
    Path ⟨r, E, none, []⟩ [] ⟨r.skipUnlessAccepting, E, none, []⟩ := by
  rw [skipUnlessAccepting]
  split
  next => exact .refl _
  next h => exact path_skipPending E cancelReason (Bool.eq_false_iff.2 h)

theorem accepting_skipUnlessAccepting (r : Run) : r.skipUnlessAccepting.accepting = r.accepting := by
  rw [skipUnlessAccepting]
  split
  next => rfl
  next => exact accepting_skipPending r cancelReason

theorem keeps_skipUnlessAccepting (r : Run) : Keeps r r.skipUnlessAccepting := by
  rw [skipUnlessAccepting]
  split
  next => exact .refl r
  next => exact keeps_skipPending r cancelReason

theorem rested_skipUnlessAccepting (h : r.plan.Sound g E) : r.skipUnlessAccepting.Rested := by
  intro ha
  rw [accepting_skipUnlessAccepting] at ha
  intro x
  rw [skipUnlessAccepting, ha, if_neg Bool.false_ne_true, plan_skipPending]
  exact h.not_isPending_skipPending cancelReason x

theorem path_skipIdle (r : Run) (E : Expansions) :
    Path ⟨r, E, none, []⟩ [] ⟨r.skipIdle, E, none, []⟩ :=
  (Path.single (.skipIdle r E)).trans_nil (path_recordSkipped_all _ E none _)

theorem plan_skipIdle (r : Run) : r.skipIdle.plan = r.plan.skipIdleResources.1 :=
  (agree_recordSkipped _ _).plan

theorem accepting_skipIdle (r : Run) : r.skipIdle.accepting = r.accepting :=
  (agree_recordSkipped _ _).accepting

theorem keeps_skipIdle (r : Run) : Keeps r r.skipIdle := by
  have h := (agree_recordSkipped { r with plan := r.plan.skipIdleResources.1 }
    r.plan.skipIdleResources.2).keeps
  exact ⟨h.settings, h.phase, h.stalled⟩

theorem Rested.skipIdle (h : r.Rested) (hs : r.plan.Sound g E) : r.skipIdle.Rested := by
  intro ha x
  rw [accepting_skipIdle] at ha
  rw [plan_skipIdle, Bool.eq_false_iff]
  intro hx
  have hp := (hs.skips_skipIdleResources.isPending.1 hx).1
  rw [h ha x] at hp
  cases hp

/-! ## Failures -/

theorem accepting_blame (r : Run) (id : NodeId) (e : RunError) : (r.blame id e).accepting = false := by
  rw [blame]
  split
  next h => simpa using h
  next =>
    split
    next => simp [accepting]
    next => simp [accepting]

theorem keeps_blame (r : Run) (id : NodeId) (e : RunError) : Keeps r (r.blame id e) := by
  rw [blame_eq]
  exact ⟨rfl, rfl, rfl⟩

/-- The run in which a node has failed, before everything else is skipped. -/
def failed (r : Run) (id : NodeId) (e : RunError) (time : Nat) : Run :=
  let r := r.note id .failed time
  let (plan, skipped) := r.plan.markFailed id e.message
  ((({ r with plan := plan }.blame id e).recordSkipped skipped).release id).1

theorem fail_eq (r : Run) (id : NodeId) (e : RunError) (time : Nat) :
    r.fail id e time = (r.failed id e time).skipUnlessAccepting := rfl

theorem agree_failed (r : Run) (id : NodeId) (e : RunError) (time : Nat) :
    Agree ({ r.note id .failed time with plan := (r.plan.markFailed id e.message).1 }.blame id e)
      (r.failed id e time) :=
  (agree_recordSkipped _ _).trans (agree_release _ id)

theorem plan_failed (r : Run) (id : NodeId) (e : RunError) (time : Nat) :
    (r.failed id e time).plan = (r.plan.markFailed id e.message).1 := by
  rw [(agree_failed r id e time).plan, plan_blame]

theorem Fails.note {o : Option WorkOutcome} {e : RunError} (h : r.Fails E id o e) (x : NodeId)
    (kind : EventKind) (time : Nat) : (r.note x kind time).Fails E id o e := by
  cases h with
  | prepare h => exact .prepare h
  | work => exact .work
  | expansion hE h => exact .expansion hE h

theorem path_fail {o : Option WorkOutcome} {e : RunError} (h : r.Fails E id o e) (time : Nat) :
    Path ⟨r, E, some (id, o), []⟩ [] ⟨r.fail id e time, E, none, []⟩ := by
  have hnote : Path ⟨r, E, some (id, o), []⟩ [] ⟨r.note id .failed time, E, some (id, o), []⟩ :=
    .single (.note r E _ _ id time (by decide))
  have hfail := hnote.trans_nil (.single (.fail (h.note id .failed time)))
  have hskip := hfail.trans_nil (path_recordSkipped _ E none _ [id])
  have hrel := hskip.trans_nil (.single (.release _ E none id []))
  exact hrel.trans_nil (path_skipUnlessAccepting _ E)

theorem accepting_fail (r : Run) (id : NodeId) (e : RunError) (time : Nat) :
    (r.fail id e time).accepting = false := by
  rw [fail_eq, accepting_skipUnlessAccepting, (agree_failed r id e time).accepting, accepting_blame]

theorem keeps_fail (r : Run) (id : NodeId) (e : RunError) (time : Nat) :
    Keeps r (r.fail id e time) := by
  have h := (keeps_blame { r.note id .failed time with
    plan := (r.plan.markFailed id e.message).1 } id e).trans (agree_failed r id e time).keeps
  have hr : Keeps r (r.failed id e time) := ⟨h.settings, h.phase, h.stalled⟩
  exact hr.trans (keeps_skipUnlessAccepting _)

theorem rested_fail (hs : r.plan.Sound g E) (hr : r.plan.status? id = some .running) (e : RunError)
    (time : Nat) : (r.fail id e time).Rested := by
  refine rested_skipUnlessAccepting (g := g) (E := E) (r := r.failed id e time) ?_
  rw [plan_failed]
  exact hs.markFailed hr e.message

/-! ## Successes -/

theorem isPending_settle {x : NodeId} {output : Option Value}
    (h : (r.settle id output).plan.isPending x = true) : r.plan.isPending x = true := by
  rw [Plan.isPending_iff, settle, Plan.status?_markSucceeded] at h
  split at h
  next hx =>
    cases hs : r.plan.status? x with
    | none =>
      rw [hs] at h
      cases h
    | some s =>
      rw [hs] at h
      cases h
  next => exact Plan.isPending_iff.2 h

theorem Rested.settle (h : r.Rested) (id : NodeId) (output : Option Value) :
    (r.settle id output).Rested := by
  intro ha x
  rw [Bool.eq_false_iff]
  intro hx
  have hp := isPending_settle hx
  rw [h ha x] at hp
  cases hp

theorem Rested.congr {r' : Run} (h : r.Rested) (ha : r'.accepting = r.accepting)
    (hp : r'.plan = r.plan) : r'.Rested := by
  intro hr x
  rw [hp]
  exact h (ha.symm.trans hr) x

theorem Rested.agree {r' : Run} (h : r.Rested) (ha : Agree r r') : r'.Rested :=
  h.congr ha.accepting ha.plan

theorem succeed_eq (r : Run) (id : NodeId) (output : Option Value) (time : Nat) :
    r.succeed id output time = (r.note id .succeeded time).conclude id output := rfl

theorem accepting_conclude (r : Run) (id : NodeId) (output : Option Value) :
    (r.conclude id output).accepting = r.accepting := by
  rw [conclude_eq]
  exact (agree_release r id).accepting

theorem keeps_conclude (r : Run) (id : NodeId) (output : Option Value) :
    Keeps r (r.conclude id output) := by
  have h := (agree_release r id).keeps
  rw [conclude_eq]
  exact ⟨h.settings, h.phase, h.stalled⟩

theorem tasks_conclude (r : Run) (id : NodeId) (output : Option Value) :
    (r.conclude id output).tasks = r.tasks := by
  rw [conclude_eq]
  exact (agree_release r id).tasks

theorem Rested.conclude (h : r.Rested) (id : NodeId) (output : Option Value) :
    (r.conclude id output).Rested := by
  have hr := h.agree (agree_release r id)
  simp only [Run.conclude]
  split
  next => exact hr.settle id output
  next => exact hr.congr rfl rfl

theorem path_succeed {w : WorkResult} (hE : ∀ vars, w = .expanded vars → E id = some vars)
    (time : Nat) : Path ⟨r, E, some (id, some (.ok w)), []⟩ []
      ⟨r.succeed id w.output? time, E, none, []⟩ := by
  have hnote : Path ⟨r, E, some (id, some (.ok w)), []⟩ []
      ⟨r.note id .succeeded time, E, some (id, some (.ok w)), []⟩ :=
    .single (.note r E _ _ id time (by decide))
  exact hnote.trans_nil (.single (.conclude _ hE))

/-- The run in which the instances of a placeholder are known. -/
def spliced (r : Run) (id : NodeId) (p : Plan) (children : List NodeId) (time : Nat) : Run :=
  (({ r with plan := p }.addConsumers children).succeed id none time).skipIdle

theorem expanded_eq_ok {vars : List LoopVars} {p : Plan} {children : List NodeId}
    (h : r.plan.expand id vars = .ok (p, children)) (time : Nat) :
    r.expanded id vars time = (r.spliced id p children time).skipUnlessAccepting := by
  rw [expanded, h]
  rfl

theorem expanded_eq_error {vars : List LoopVars} {e : BuildError}
    (h : r.plan.expand id vars = .error e) (time : Nat) :
    r.expanded id vars time = r.fail id (.expansion e) time := by
  rw [expanded, h]

theorem path_spliced {vars : List LoopVars} {p : Plan} {children : List NodeId} (hE : E id = none)
    (h : r.plan.expand id vars = .ok (p, children)) (time : Nat) :
    Path ⟨r, E, some (id, some (.ok (.expanded vars))), []⟩ []
      ⟨r.spliced id p children time, E.set id vars, none, []⟩ := by
  have hx := Path.single (.expand hE h)
  have hs := hx.trans_nil (path_succeed (fun vars' he => ?_) time)
  · exact hs.trans_nil (path_skipIdle _ _)
  · cases he
    exact Expansions.set_self

theorem path_complete {result : WorkOutcome} (hE : E id = none) (time : Nat) :
    ∃ E', Path ⟨r, E, some (id, some result), []⟩ [] ⟨r.complete id result time, E', none, []⟩ := by
  cases result with
  | error e => exact ⟨E, path_fail .work time⟩
  | ok w =>
    cases w with
    | output v => exact ⟨E, path_succeed (fun _ he => by cases he) time⟩
    | created => exact ⟨E, path_succeed (fun _ he => by cases he) time⟩
    | expanded vars =>
      cases hx : r.plan.expand id vars with
      | error e =>
        refine ⟨E, ?_⟩
        rw [complete, expanded_eq_error hx]
        exact path_fail (.expansion hE hx) time
      | ok pc =>
        refine ⟨E.set id vars, ?_⟩
        rw [complete, expanded_eq_ok hx]
        exact (path_spliced hE hx time).trans_nil (path_skipUnlessAccepting _ _)

theorem keeps_complete (r : Run) (id : NodeId) (result : WorkOutcome) (time : Nat) :
    Keeps r (r.complete id result time) := by
  have hsucceed : ∀ output, Keeps r (r.succeed id output time) := fun output => by
    have h := keeps_conclude (r.note id .succeeded time) id output
    exact ⟨h.settings, h.phase, h.stalled⟩
  cases result with
  | error e => exact keeps_fail r id e time
  | ok w =>
    cases w with
    | output v => exact hsucceed (some v)
    | created => exact hsucceed none
    | expanded vars =>
      cases hx : r.plan.expand id vars with
      | error e =>
        rw [complete, expanded_eq_error hx]
        exact keeps_fail r id _ time
      | ok pc =>
        rw [complete, expanded_eq_ok hx]
        have hc := keeps_conclude
          (({ r with plan := pc.1 }.addConsumers pc.2).note id .succeeded time) id none
        have hr : Keeps r (({ r with plan := pc.1 }.addConsumers pc.2).succeed id none time) :=
          ⟨hc.settings, hc.phase, hc.stalled⟩
        exact (hr.trans (keeps_skipIdle _)).trans (keeps_skipUnlessAccepting _)

theorem rested_complete (hg : g.Sound) {result : WorkOutcome}
    (h : Live g ⟨r, E, some (id, some result), []⟩) (hn : r.Numbered) (hr : r.Rested)
    (hE : E id = none) (time : Nat) : (r.complete id result time).Rested := by
  have hrun := (h.active rfl).1
  have hnote : ∀ kind, (r.note id kind time).Rested := fun kind => hr.congr rfl rfl
  cases result with
  | error e => exact rested_fail h.sound hrun e time
  | ok w =>
    cases w with
    | output v => exact (hnote .succeeded).conclude id (some v)
    | created => exact (hnote .succeeded).conclude id none
    | expanded vars =>
      cases hx : r.plan.expand id vars with
      | error e =>
        rw [complete, expanded_eq_error hx]
        exact rested_fail h.sound hrun _ time
      | ok pc =>
        rw [complete, expanded_eq_ok hx]
        exact rested_skipUnlessAccepting ((path_spliced hE hx time).live hg hn h).sound

/-! ## Ends of destructions -/

theorem accepting_credit (r : Run) (owner : NodeId) : (r.credit owner).accepting = r.accepting := by
  rw [credit_eq]
  rfl

theorem keeps_credit (r : Run) (owner : NodeId) : Keeps r (r.credit owner) := by
  rw [credit_eq]
  exact ⟨rfl, rfl, rfl⟩

theorem tasks_credit (r : Run) (owner : NodeId) : (r.credit owner).tasks = r.tasks := by
  rw [credit_eq]

theorem Rested.credit (h : r.Rested) (owner : NodeId) : (r.credit owner).Rested := by
  rw [Run.credit]
  split
  next => exact h
  next =>
    split
    next => exact h.congr rfl rfl
    next =>
      have hd : ({ r with deferred := r.deferred.erase owner } : Run).Rested := h.congr rfl rfl
      exact hd.settle owner _

theorem destroyDone_cases (r : Run) (owner : NodeId) :
    ((r.credit owner).plan = r.plan ∧ r.destroyDone owner = r.credit owner) ∨
      r.destroyDone owner = (r.credit owner).skipIdle := by
  rw [destroyDone, credit]
  cases r.deferred.get? owner with
  | none => exact .inl ⟨rfl, rfl⟩
  | some d =>
    by_cases h : 1 < d.1
    · refine .inl ?_
      simp only [if_pos h]
      exact ⟨trivial, trivial⟩
    · refine .inr ?_
      simp only [if_neg h]

/-- The run after the destruction of a resource, with the errors of its handler. -/
def markDestroyed (r : Run) (resource : String) (es : List DestroyError) (time : Nat) : Run :=
  { r.note (NodeId.resource resource) .destroyed time with
    destroyErrors := r.destroyErrors ++ es }

theorem recordDestroy_cases (r : Run) (t : DestroyTask) (result : DestroyResult) (time : Nat) :
    (result = .lost ∧ r.recordDestroy t result time = r) ∨
      ∃ es, (t.owner = none ∧ r.recordDestroy t result time =
          r.markDestroyed t.resource es time) ∨
        ∃ owner, t.owner = some owner ∧ r.recordDestroy t result time =
          (r.markDestroyed t.resource es time).destroyDone owner := by
  cases result with
  | lost => exact .inl ⟨rfl, rfl⟩
  | destroyed =>
    refine .inr ⟨[], ?_⟩
    rw [markDestroyed, List.append_nil]
    cases ho : t.owner with
    | none => exact .inl ⟨rfl, by rw [recordDestroy, ho]; rfl⟩
    | some owner => exact .inr ⟨owner, rfl, by rw [recordDestroy, ho]; rfl⟩
  | failed m =>
    refine .inr ⟨[⟨t.resource, m⟩], ?_⟩
    cases ho : t.owner with
    | none => exact .inl ⟨rfl, by rw [recordDestroy, ho]; rfl⟩
    | some owner => exact .inr ⟨owner, rfl, by rw [recordDestroy, ho]; rfl⟩

theorem path_destroyDone {t : DestroyTask} (ht : t ∈ r.destroys) {result : DestroyResult}
    {time : Nat} (hf : t.phase = .finished result time) {owner : NodeId} (ho : t.owner = some owner) :
    Path ⟨r, E, none, []⟩ [] ⟨(r.dropDestroy t.number).destroyDone owner, E, none, []⟩ := by
  have hcredit : Path ⟨r, E, none, []⟩ [] ⟨(r.dropDestroy t.number).credit owner, E, none, []⟩ :=
    .single (.credit E ht hf ho)
  rcases destroyDone_cases (r.dropDestroy t.number) owner with ⟨-, h⟩ | h
  · rw [h]
    exact hcredit
  · rw [h]
    exact hcredit.trans_nil (path_skipIdle _ E)

theorem path_blemish (r : Run) (E : Expansions) (es : List DestroyError) :
    Path ⟨r, E, none, []⟩ [] ⟨{ r with destroyErrors := r.destroyErrors ++ es }, E, none, []⟩ := by
  induction es generalizing r with
  | nil =>
    rw [List.append_nil]
    exact .refl _
  | cons e es ih =>
    have h := (Path.single (.blemish r E e)).trans_nil (ih _)
    simp only [List.append_assoc, List.singleton_append] at h
    exact h

theorem path_recordDestroy {t : DestroyTask} (ht : t ∈ r.destroys) {result : DestroyResult}
    {time : Nat} (hf : t.phase = .finished result time) : Path ⟨r, E, none, []⟩ []
      ⟨(r.dropDestroy t.number).recordDestroy t result time, E, none, []⟩ := by
  rcases recordDestroy_cases (r.dropDestroy t.number) t result time with ⟨rfl, h⟩ | ⟨es, hes⟩
  · rw [h]
    exact .single (.lose E ht hf)
  · have hnote : Path ⟨r, E, none, []⟩ []
        ⟨r.note (NodeId.resource t.resource) .destroyed time, E, none, []⟩ :=
      .single (.note r E none [] _ time (by decide))
    have hnoted := hnote.trans_nil (path_blemish _ E es)
    rcases hes with ⟨ho, h⟩ | ⟨owner, ho, h⟩
    · rw [h]
      exact hnoted.trans_nil (.single (.discard E ht hf ho))
    · rw [h]
      exact hnoted.trans_nil (path_destroyDone
        (r := r.markDestroyed t.resource es time) ht hf ho)

theorem keeps_recordDestroy (r : Run) (t : DestroyTask) (result : DestroyResult) (time : Nat) :
    Keeps r (r.recordDestroy t result time) := by
  rcases recordDestroy_cases r t result time with ⟨rfl, h⟩ | ⟨es, ⟨-, h⟩ | ⟨owner, -, h⟩⟩
  · rw [h]
    exact .refl r
  · rw [h]
    exact ⟨rfl, rfl, rfl⟩
  · rw [h]
    have hr : Keeps r (r.markDestroyed t.resource es time) := ⟨rfl, rfl, rfl⟩
    rcases destroyDone_cases (r.markDestroyed t.resource es time) owner with ⟨-, hd⟩ | hd
    · rw [hd]
      exact hr.trans (keeps_credit _ owner)
    · rw [hd]
      exact (hr.trans (keeps_credit _ owner)).trans (keeps_skipIdle _)

theorem rested_recordDestroy (hg : g.Sound) (h : Live g ⟨r, E, none, []⟩) (hr : r.Rested)
    (t : DestroyTask) (result : DestroyResult) (time : Nat) :
    (r.recordDestroy t result time).Rested := by
  rcases recordDestroy_cases r t result time with ⟨rfl, he⟩ | ⟨es, ⟨-, he⟩ | ⟨owner, -, he⟩⟩
  · rw [he]
    exact hr
  · rw [he]
    exact hr.congr rfl rfl
  · rw [he]
    have hr' : (r.markDestroyed t.resource es time).Rested := hr.congr rfl rfl
    have hl : Live g ⟨r.markDestroyed t.resource es time, E, none, []⟩ := h.frame rfl rfl rfl rfl
    rcases destroyDone_cases (r.markDestroyed t.resource es time) owner with ⟨-, hd⟩ | hd
    · rw [hd]
      exact hr'.credit owner
    · rw [hd]
      exact (hr'.credit owner).skipIdle (hl.credit hg owner).sound

end Chains
end Run

end Workplan
