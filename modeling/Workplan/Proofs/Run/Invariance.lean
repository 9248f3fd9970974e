import Workplan.Proofs.Run.Scheduling

/-! Invariance: what holds of a run before its first turn and is kept by every move, by every start of a node
and by the work between two turns holds of all runs, and also in the middle of turns, when a node is
started. -/
namespace Workplan
set_option autoImplicit false

/-- What the moves and the work of the runs of a graph keep, as long as events of one sort happen. -/
structure Stage.Kept (g : Graph) (A : Event → Prop) (P : Stage → Prop) : Prop where
  move : ∀ {s t}, Moves s t → s.run.Numbered → Live g s → P s → P t
  start : ∀ {s id t}, Begins s id t → s.run.Numbered → Live g s → P s → P t
  work : ∀ {r e r' E}, A e → Run.Works r e r' → Run.Reached g E r → P ⟨r, E, none, []⟩ →
    P ⟨r', E, none, []⟩

theorem Stage.Kept.and {g : Graph} {A : Event → Prop} {P Q : Stage → Prop} (hP : Stage.Kept g A P)
    (hQ : Stage.Kept g A Q) : Stage.Kept g A fun s => P s ∧ Q s where
  move := fun hm hn hl h => ⟨hP.move hm hn hl h.1, hQ.move hm hn hl h.2⟩
  start := fun hb hn hl h => ⟨hP.start hb hn hl h.1, hQ.start hb hn hl h.2⟩
  work := fun ha hw hr h => ⟨hP.work ha hw hr h.1, hQ.work ha hw hr h.2⟩

section Path
variable {g : Graph} {A : Event → Prop} {P : Stage → Prop} {s t : Stage} {l : List (Run × NodeId)}

theorem Path.keeps (hg : g.Sound) (hP : Stage.Kept g A P) (hp : Path s l t) (hn : s.run.Numbered)
    (hl : Live g s) (h : P s) : P t := by
  induction hp with
  | refl => exact h
  | move hp hm ih => exact hP.move hm (hp.numbered hn) (hp.live hg hn hl) ih
  | start hp hb ih => exact hP.start hb (hp.numbered hn) (hp.live hg hn hl) ih

theorem Path.exists_begins (hp : Path s l t) {x : Run × NodeId} (hx : x ∈ l) :
    ∃ l' E u, Path s l' ⟨x.1, E, none, []⟩ ∧ Begins ⟨x.1, E, none, []⟩ x.2 u := by
  induction hp with
  | refl => cases hx
  | move _ _ ih => exact ih hx
  | start hp hb ih =>
    rcases List.mem_append.1 hx with hx | hx
    · exact ih hx
    · cases List.mem_singleton.1 hx
      cases hb with
      | mk E ha hlimit hr => exact ⟨_, E, _, hp, .mk E ha hlimit hr⟩

end Path

namespace Run
section Histories
variable {g : Graph} {A : Event → Prop} {P : Stage → Prop} {settings : RunSettings}
variable {stopRequested : Bool} {h : Trace} {r : Run}

/-- A node is started at a live stage with a property. -/
def StartsAt (g : Graph) (P : Stage → Prop) (x : Run × NodeId) : Prop :=
  ∃ E u, P ⟨x.1, E, none, []⟩ ∧ Live g ⟨x.1, E, none, []⟩ ∧ x.1.Numbered ∧
    Begins ⟨x.1, E, none, []⟩ x.2 u

theorem startsAt_of_path {s t : Stage} {l : List (Run × NodeId)} (hg : g.Sound)
    (hP : Stage.Kept g A P) (hp : Path s l t) (hn : s.run.Numbered) (hl : Live g s) (hs : P s) :
    ∀ x ∈ l, StartsAt g P x := by
  intro x hx
  obtain ⟨l', E, u, hp', hb⟩ := hp.exists_begins hx
  exact ⟨E, u, hp'.keeps hg hP hn hl hs, hp'.live hg hn hl, hp'.numbered hn, hb⟩

/-- An invariant holds after every history, and whenever a node is started. -/
theorem Leads.keeps (hg : g.Sound) (hP : Stage.Kept g A P)
    (hnew : P ⟨new settings g stopRequested, .none, none, []⟩)
    (hl : Leads (ofGraph settings g stopRequested) h r) (hA : ∀ x ∈ h, A x.2) :
    (∃ E, Reached g E r ∧ P ⟨r, E, none, []⟩) ∧
      ∀ x ∈ allStarts settings g stopRequested h, StartsAt g P x := by
  induction hl with
  | start =>
    obtain ⟨hpath, hr⟩ := path_ofGraph hg settings stopRequested
    have hlive := live_new hg settings stopRequested
    have hnum := numbered_new settings g stopRequested
    refine ⟨⟨_, hr, hpath.keeps hg hP hnum hlive hnew⟩, fun x hx => ?_⟩
    rw [allStarts, startsOf, List.flatMap_nil, List.append_nil] at hx
    exact startsAt_of_path hg hP hpath hnum hlive hnew x hx
  | event hl he ih =>
    obtain ⟨⟨E, hr, hs⟩, hall⟩ := ih fun x hx => hA x (List.mem_append_left _ hx)
    rcases hr.step hg he with ⟨hw, hnone, hr'⟩ | ⟨-, E', hpath, hr'⟩
    · have hallowed := hA _ (List.mem_append_right _ List.mem_cons_self)
      refine ⟨⟨E, hr', hP.work hallowed hw hr hs⟩, fun x hx => ?_⟩
      rw [allStarts_append, hnone, List.append_nil] at hx
      exact hall x hx
    · refine ⟨⟨E', hr', hpath.keeps hg hP hr.numbered hr.live hs⟩, fun x hx => ?_⟩
      rw [allStarts_append] at hx
      rcases List.mem_append.1 hx with hx | hx
      · exact hall x hx
      · exact startsAt_of_path hg hP hpath hr.numbered hr.live hs x hx

theorem Reached.keeps {E : Expansions} {r' : Run} (hg : g.Sound) (hP : Stage.Kept g A P)
    (hr : Reached g E r) (hs : P ⟨r, E, none, []⟩) (hl : Leads r h r') (hA : ∀ x ∈ h, A x.2) :
    ∃ E', Reached g E' r' ∧ P ⟨r', E', none, []⟩ := by
  induction hl with
  | start => exact ⟨E, hr, hs⟩
  | event _ he ih =>
    obtain ⟨E', hr', hs'⟩ := ih fun x hx => hA x (List.mem_append_left _ hx)
    rcases hr'.step hg he with ⟨hw, -, hr''⟩ | ⟨-, E'', hpath, hr''⟩
    · have hallowed := hA _ (List.mem_append_right _ List.mem_cons_self)
      exact ⟨E', hr'', hP.work hallowed hw hr' hs'⟩
    · exact ⟨E'', hr'', hpath.keeps hg hP hr'.numbered hr'.live hs'⟩

end Histories
end Run

end Workplan
