import Mathlib.Data.Int.Notation
import Mathlib.Data.List.Induction
import Mathlib.Data.Nat.Notation
import Workplan.Timeline

/-! Spans: how long a node worked, as events in any order and at any times tell it.

The latest start of a node before an end opens the stretch of work that the end closes; of the stretches
of a node the one that ends last counts (`Occurrence.Stretch`). What has been read of the events holds
exactly this of every node (`Timeline.SpanState.Knows`), one event after the other, so the spans and
durations of a timeline are those of the last stretches, and they lie within its total time
(`Timeline.measures_ofOccurrences`). -/
namespace Workplan
set_option autoImplicit false

/-! ## Last elements -/

section Last
variable {α : Type} {p : α → Prop} {l before : List α} {a x : α}

/-- An element is the last one with a property, and `before` is what precedes it. -/
def LastAt (p : α → Prop) (l before : List α) (a : α) : Prop :=
  ∃ after, l = before ++ a :: after ∧ p a ∧ ∀ x ∈ after, ¬p x

theorem lastAt_concat :
    LastAt p (l ++ [x]) before a ↔ p x ∧ before = l ∧ a = x ∨ ¬p x ∧ LastAt p l before a := by
  constructor
  · rintro ⟨after, hl, ha, hafter⟩
    rcases List.eq_nil_or_concat after with rfl | ⟨rest, y, rfl⟩
    · obtain ⟨rfl, hx⟩ := List.append_inj' hl rfl
      cases hx
      exact .inl ⟨ha, rfl, rfl⟩
    · rw [List.concat_eq_append] at hl hafter
      rw [← List.cons_append, ← List.append_assoc] at hl
      obtain ⟨rfl, hx⟩ := List.append_inj' hl rfl
      cases hx
      obtain ⟨hrest, hx⟩ := List.forall_mem_append.1 hafter
      exact .inr ⟨hx _ List.mem_cons_self, rest, rfl, ha, hrest⟩
  · rintro (⟨hx, rfl, rfl⟩ | ⟨hx, after, rfl, ha, hafter⟩)
    · exact ⟨[], rfl, hx, by simp⟩
    · exact ⟨after ++ [x], by simp, ha,
        List.forall_mem_append.2 ⟨hafter, List.forall_mem_singleton.2 hx⟩⟩

theorem exists_lastAt (ha : a ∈ l) (hp : p a) : ∃ before b, LastAt p l before b := by
  induction l using List.reverseRecOn with
  | nil => cases ha
  | append_singleton l x ih =>
    by_cases hx : p x
    · exact ⟨l, x, lastAt_concat.2 (.inl ⟨hx, rfl, rfl⟩)⟩
    · have hal : a ∈ l := by
        rcases List.mem_append.1 ha with h | h
        · exact h
        · cases List.mem_singleton.1 h
          exact absurd hp hx
      obtain ⟨before, b, h⟩ := ih hal
      exact ⟨before, b, lastAt_concat.2 (.inr ⟨hx, h⟩)⟩

theorem LastAt.mem_before (h : LastAt p l before a) {before' after' : List α} {b : α}
    (hl : l = before' ++ b :: after') (hb : p b) (hx : x ∈ before') : x ∈ before := by
  obtain ⟨after, rfl, -, hafter⟩ := h
  rcases List.append_eq_append_iff.1 hl with ⟨cs, rfl, hcs⟩ | ⟨cs, rfl, -⟩
  · cases cs with
    | nil => simpa using hx
    | cons c cs =>
      -- then the element with the property stands behind the last one
      obtain ⟨-, rfl⟩ := List.cons.inj hcs
      exact absurd hb (hafter b (by simp))
  · exact List.mem_append_left _ hx

end Last

/-! ## Events at instants -/

/-- An event at an instant, in nanoseconds after the start of a timeline, or before it if negative. -/
structure Occurrence where
  node : NodeId
  kind : EventKind
  instant : ℤ

namespace Occurrence

/-- The event as a timeline has it, in the millisecond into which the instant falls. -/
def event (o : Occurrence) : TimelineEvent := ⟨o.node, o.kind, o.instant / 1000000⟩

/-- The whole milliseconds from the start of the timeline to the instant; none for an earlier one. -/
def elapsed (o : Occurrence) : ℕ := o.instant.toNat / 1000000

theorem elapsed_event (o : Occurrence) : o.event.elapsed = o.elapsed := by
  dsimp only [TimelineEvent.elapsed, event, elapsed]
  omega

theorem elapsed_mono {o o' : Occurrence} (h : o.instant ≤ o'.instant) : o.elapsed ≤ o'.elapsed := by
  rw [elapsed, elapsed]
  omega

/-- The event is a start of a node. -/
def Starts (node : NodeId) (o : Occurrence) : Prop := o.node = node ∧ o.kind = .started

/-- The event ends the work of a node. -/
def Ends (node : NodeId) (o : Occurrence) : Prop := o.node = node ∧ o.kind.endsWork = true

/-- The last stretch of work of a node: `e` is the last event that ends its work, and `b` is the latest
start before it. -/
def Stretch (node : NodeId) (l : List Occurrence) (b e : Occurrence) : Prop :=
  ∃ before earlier, LastAt (Ends node) l before e ∧ LastAt (Starts node) before earlier b

section Stretch
variable {node : NodeId} {l before after : List Occurrence} {o b e : Occurrence}

theorem stretch_concat : Stretch node (l ++ [o]) b e ↔
    o.Ends node ∧ e = o ∧ (∃ earlier, LastAt (Starts node) l earlier b) ∨
      ¬o.Ends node ∧ Stretch node l b e := by
  constructor
  · rintro ⟨before, earlier, he, hb⟩
    rcases lastAt_concat.1 he with ⟨ho, rfl, rfl⟩ | ⟨ho, he⟩
    · exact .inl ⟨ho, rfl, earlier, hb⟩
    · exact .inr ⟨ho, before, earlier, he, hb⟩
  · rintro (⟨ho, rfl, earlier, hb⟩ | ⟨ho, before, earlier, he, hb⟩)
    · exact ⟨l, earlier, lastAt_concat.2 (.inl ⟨ho, rfl, rfl⟩), hb⟩
    · exact ⟨before, earlier, lastAt_concat.2 (.inr ⟨ho, he⟩), hb⟩

theorem Stretch.starts_mem (h : Stretch node l b e) : b ∈ l ∧ b.Starts node := by
  obtain ⟨_, _, ⟨_, rfl, -, -⟩, _, rfl, hb, -⟩ := h
  exact ⟨by simp, hb⟩

theorem Stretch.end_mem (h : Stretch node l b e) : e ∈ l := by
  obtain ⟨_, _, ⟨_, rfl, -, -⟩, -⟩ := h
  simp

/-- A node has a last stretch exactly if one of its ends has a start before it. -/
theorem exists_stretch_iff : (∃ b e, Stretch node l b e) ↔
    ∃ before e after, l = before ++ e :: after ∧ e.Ends node ∧ ∃ b ∈ before, b.Starts node := by
  constructor
  · rintro ⟨b, e, before, earlier, ⟨after, hl, he, -⟩, later, hbefore, hb, -⟩
    exact ⟨before, e, after, hl, he, b, by simp [hbefore], hb⟩
  · rintro ⟨before, e, after, hl, he, b, hb, hstart⟩
    have hmem : e ∈ l := hl ▸ List.mem_append_right _ List.mem_cons_self
    obtain ⟨before', e', hlast⟩ := exists_lastAt hmem he
    obtain ⟨earlier, b', hlatest⟩ := exists_lastAt (hlast.mem_before hl he hb) hstart
    exact ⟨b', e', before', earlier, hlast, hlatest⟩

end Stretch

end Occurrence

open Occurrence

namespace Timeline

/-- The timeline of events at instants. -/
def ofOccurrences (l : List Occurrence) : Timeline := ⟨l.map Occurrence.event⟩

/-! ## Reading -/

namespace SpanState
variable {s : SpanState} {node : NodeId} {l : List Occurrence} {o : Occurrence}

theorem starts_read_of_starts (h : o.Starts node) :
    (s.read o.event).starts.get? node = some o.elapsed := by
  obtain ⟨rfl, hkind⟩ := h
  have hstarted : o.event.kind = .started := hkind
  rw [read, if_pos hstarted, SortedMap.get?_insert, ← elapsed_event]
  exact if_pos rfl

theorem starts_read_of_not_starts (h : ¬o.Starts node) :
    (s.read o.event).starts.get? node = s.starts.get? node := by
  rw [read]
  split
  next hkind =>
    have hne : node ≠ o.event.node := fun he => h ⟨he.symm, hkind⟩
    exact (SortedMap.get?_insert _ _ _ _).trans (if_neg hne)
  next =>
    split
    next => split <;> rfl
    next => rfl

theorem spans_read_of_ends (h : o.Ends node) : (s.read o.event).spans.get? node =
    match s.starts.get? node with
    | some start => some ⟨start, max o.elapsed start, Nat.le_max_right _ _⟩
    | none => s.spans.get? node := by
  obtain ⟨rfl, hkind⟩ := h
  have hends : o.event.kind.endsWork = true := hkind
  have hne : o.event.kind ≠ .started := fun he => by
    rw [he] at hends
    cases hends
  rw [read, if_neg hne, if_pos hends]
  have hnode : o.event.node = o.node := rfl
  rw [hnode]
  cases s.starts.get? o.node with
  | none => rfl
  | some start =>
    simp only [SortedMap.get?_insert, if_true, elapsed_event]

theorem spans_read_of_not_ends (h : ¬o.Ends node) :
    (s.read o.event).spans.get? node = s.spans.get? node := by
  rw [read]
  split
  next => rfl
  next =>
    split
    next hkind =>
      have hne : node ≠ o.event.node := fun he => h ⟨he.symm, hkind⟩
      split
      next => exact (SortedMap.get?_insert _ _ _ _).trans (if_neg hne)
      next => rfl
    next => rfl

/-- What has been read of a node after some events: its latest start, and the span of its last
stretch. -/
structure Knows (s : SpanState) (node : NodeId) (l : List Occurrence) : Prop where
  starts : ∀ n, s.starts.get? node = some n ↔
    ∃ earlier b, LastAt (Starts node) l earlier b ∧ n = b.elapsed
  spans : ∀ p, s.spans.get? node = some p ↔
    ∃ b e, Stretch node l b e ∧ p.start = b.elapsed ∧ p.stop = max e.elapsed b.elapsed

theorem knows_nil (node : NodeId) : Knows ⟨.empty, .empty⟩ node [] where
  starts n := by
    refine iff_of_false (fun h => by cases h) ?_
    rintro ⟨_, _, ⟨_, hl, -⟩, -⟩
    simp at hl
  spans p := by
    refine iff_of_false (fun h => by cases h) ?_
    rintro ⟨_, _, h, -⟩
    exact absurd h.end_mem List.not_mem_nil

theorem Knows.starts_read (h : s.Knows node l) (o : Occurrence) (n : ℕ) :
    (s.read o.event).starts.get? node = some n ↔
      ∃ earlier b, LastAt (Starts node) (l ++ [o]) earlier b ∧ n = b.elapsed := by
  by_cases ho : o.Starts node
  · rw [starts_read_of_starts ho, Option.some.injEq]
    simp only [lastAt_concat, ho, true_and, not_true_eq_false, false_and, or_false]
    constructor
    · rintro rfl
      exact ⟨l, o, ⟨rfl, rfl⟩, rfl⟩
    · rintro ⟨_, _, ⟨rfl, rfl⟩, rfl⟩
      rfl
  · simp only [starts_read_of_not_starts ho, h.starts, lastAt_concat, ho, false_and, false_or,
      not_false_eq_true, true_and]

theorem Knows.spans_read_iff_of_ends (h : s.Knows node l) (ho : o.Ends node) (p : Span) :
    (s.read o.event).spans.get? node = some p ↔ ∃ earlier b, LastAt (Starts node) l earlier b ∧
      p.start = b.elapsed ∧ p.stop = max o.elapsed b.elapsed := by
  rw [spans_read_of_ends ho]
  cases hstart : s.starts.get? node with
  | none =>
    have hnone : ∀ earlier b, ¬LastAt (Starts node) l earlier b := by
      intro earlier b hb
      cases hstart.symm.trans ((h.starts b.elapsed).2 ⟨earlier, b, hb, rfl⟩)
    refine iff_of_false (fun hp => ?_) ?_
    · -- nothing has been ended before either
      obtain ⟨b, e, hstretch, -⟩ := (h.spans p).1 hp
      obtain ⟨hb, hs⟩ := hstretch.starts_mem
      obtain ⟨earlier, b', hlatest⟩ := exists_lastAt hb hs
      exact hnone earlier b' hlatest
    · rintro ⟨earlier, b, hb, -⟩
      exact hnone earlier b hb
  | some start =>
    rw [Option.some.injEq]
    constructor
    · rintro rfl
      obtain ⟨earlier, b, hb, rfl⟩ := (h.starts start).1 hstart
      exact ⟨earlier, b, hb, rfl, rfl⟩
    · rintro ⟨earlier, b, hb, hp, hstop⟩
      cases hstart.symm.trans ((h.starts b.elapsed).2 ⟨earlier, b, hb, rfl⟩)
      cases p
      cases hp
      cases hstop
      rfl

theorem Knows.spans_read (h : s.Knows node l) (o : Occurrence) (p : Span) :
    (s.read o.event).spans.get? node = some p ↔ ∃ b e, Stretch node (l ++ [o]) b e ∧
      p.start = b.elapsed ∧ p.stop = max e.elapsed b.elapsed := by
  by_cases ho : o.Ends node
  · rw [h.spans_read_iff_of_ends ho]
    simp only [stretch_concat, ho, true_and, not_true_eq_false, false_and, or_false]
    constructor
    · rintro ⟨earlier, b, hb, hp⟩
      exact ⟨b, o, ⟨rfl, earlier, hb⟩, hp⟩
    · rintro ⟨b, _, ⟨rfl, earlier, hb⟩, hp⟩
      exact ⟨earlier, b, hb, hp⟩
  · simp only [spans_read_of_not_ends ho, h.spans, stretch_concat, ho, false_and, false_or,
      not_false_eq_true, true_and]

theorem Knows.read (h : s.Knows node l) (o : Occurrence) : (s.read o.event).Knows node (l ++ [o]) :=
  ⟨h.starts_read o, h.spans_read o⟩

theorem knows_foldl (node : NodeId) (l : List Occurrence) :
    ((l.map Occurrence.event).foldl SpanState.read ⟨.empty, .empty⟩).Knows node l := by
  induction l using List.reverseRecOn with
  | nil => exact knows_nil node
  | append_singleton l o ih =>
    rw [List.map_append, List.foldl_append]
    exact ih.read o

end SpanState

/-! ## The total time -/

theorem totalTime_concat (l : List Occurrence) (o : Occurrence) :
    (ofOccurrences (l ++ [o])).totalTime = max (ofOccurrences l).totalTime o.elapsed := by
  simp [totalTime, ofOccurrences, elapsed_event]

theorem totalTime_ofOccurrences (l : List Occurrence) :
    l = [] ∧ (ofOccurrences l).totalTime = 0 ∨
      ∃ o ∈ l, (∀ o' ∈ l, o'.instant ≤ o.instant) ∧ (ofOccurrences l).totalTime = o.elapsed := by
  induction l using List.reverseRecOn with
  | nil => exact .inl ⟨rfl, rfl⟩
  | append_singleton l o ih =>
    rw [totalTime_concat]
    rcases ih with ⟨rfl, hzero⟩ | ⟨m, hm, hlatest, htotal⟩
    · exact .inr ⟨o, by simp, by simp, by rw [hzero, Nat.zero_max]⟩
    · rw [htotal]
      rcases Int.le_total o.instant m.instant with hle | hle
      · exact .inr ⟨m, List.mem_append_left _ hm, by simpa [or_imp, forall_and] using ⟨hlatest, hle⟩,
          Nat.max_eq_left (elapsed_mono hle)⟩
      · refine .inr ⟨o, by simp, ?_, Nat.max_eq_right (elapsed_mono hle)⟩
        simpa [or_imp, forall_and] using fun o' ho' => Int.le_trans (hlatest o' ho') hle

theorem elapsed_le_totalTime {l : List Occurrence} {o : Occurrence} (ho : o ∈ l) :
    o.elapsed ≤ (ofOccurrences l).totalTime := by
  rcases totalTime_ofOccurrences l with ⟨rfl, -⟩ | ⟨m, -, hlatest, htotal⟩
  · cases ho
  · rw [htotal]
    exact elapsed_mono (hlatest o ho)

/-! ## Durations -/

/-- What a timeline of events says of the work of a node. -/
structure Measures (t : Timeline) (l : List Occurrence) (node : NodeId) : Prop where
  /-- There is a duration exactly if some end of the node has a start of the node before it. -/
  contains_iff : t.durations.contains node = true ↔
    ∃ before e after, l = before ++ e :: after ∧ e.Ends node ∧ ∃ b ∈ before, b.Starts node
  /-- It is the time from the start to the end of the last stretch. -/
  duration_iff : ∀ d, t.durations.get? node = some d ↔
    ∃ b e, Stretch node l b e ∧ (d : ℤ) = max 0 (e.elapsed - b.elapsed)
  /-- It is zero where the end lies before the start. -/
  duration_of_le : ∀ b e, Stretch node l b e → e.instant ≤ b.instant →
    t.durations.get? node = some 0
  /-- The span reaches from the start to the end, or to the start again if that is later. -/
  span_iff : ∀ s, t.spans.get? node = some s ↔
    ∃ b e, Stretch node l b e ∧ s.start = b.elapsed ∧ s.stop = max e.elapsed b.elapsed
  /-- Its bounds are in order and within the total time, and the duration is their difference. -/
  within : ∀ s, t.spans.get? node = some s → s.start ≤ s.stop ∧ s.stop ≤ t.totalTime ∧
    t.durations.get? node = some (s.stop - s.start)
  /-- The chart draws the spans of the timeline. -/
  mem_chartOrder : ∀ s, (node, s) ∈ t.chartOrder ↔ t.spans.get? node = some s
  /-- The total time of the chart is that of the latest event. -/
  total : l = [] ∧ t.totalTime = 0 ∨
    ∃ o ∈ l, (∀ o' ∈ l, o'.instant ≤ o.instant) ∧ t.totalTime = o.elapsed

section Measures
variable {l : List Occurrence} {node : NodeId} {b e : Occurrence}

theorem span_iff (s : Span) : (ofOccurrences l).spans.get? node = some s ↔
    ∃ b e, Stretch node l b e ∧ s.start = b.elapsed ∧ s.stop = max e.elapsed b.elapsed :=
  (SpanState.knows_foldl node l).spans s

theorem spans_of_stretch (h : Stretch node l b e) : (ofOccurrences l).spans.get? node =
    some ⟨b.elapsed, max e.elapsed b.elapsed, Nat.le_max_right _ _⟩ :=
  (span_iff _).2 ⟨b, e, h, rfl, rfl⟩

theorem durations_of_stretch (h : Stretch node l b e) :
    (ofOccurrences l).durations.get? node = some (max e.elapsed b.elapsed - b.elapsed) := by
  rw [durations, SortedMap.get?_mapValues, spans_of_stretch h]
  rfl

theorem exists_stretch_of_durations {d : ℕ} (h : (ofOccurrences l).durations.get? node = some d) :
    ∃ b e, Stretch node l b e ∧ d = max e.elapsed b.elapsed - b.elapsed := by
  rw [durations, SortedMap.get?_mapValues, Option.map_eq_some_iff] at h
  obtain ⟨s, hs, rfl⟩ := h
  obtain ⟨b, e, hstretch, hstart, hstop⟩ := (span_iff s).1 hs
  exact ⟨b, e, hstretch, by rw [Span.length, hstart, hstop]⟩

/-- Spans and durations are those of the last stretches, whatever the order and the times of the
events. -/
theorem measures_ofOccurrences (l : List Occurrence) (node : NodeId) :
    (ofOccurrences l).Measures l node where
  contains_iff := by
    rw [SortedMap.contains, Option.isSome_iff_exists, ← exists_stretch_iff]
    constructor
    · rintro ⟨d, hd⟩
      obtain ⟨b, e, h, -⟩ := exists_stretch_of_durations hd
      exact ⟨b, e, h⟩
    · rintro ⟨b, e, h⟩
      exact ⟨_, durations_of_stretch h⟩
  duration_iff d := by
    constructor
    · intro hd
      obtain ⟨b, e, h, rfl⟩ := exists_stretch_of_durations hd
      exact ⟨b, e, h, by omega⟩
    · rintro ⟨b, e, h, hd⟩
      rw [durations_of_stretch h, Option.some.injEq]
      omega
  duration_of_le b e h hle := by
    rw [durations_of_stretch h, Nat.max_eq_right (elapsed_mono hle), Nat.sub_self]
  span_iff := span_iff
  within s hs := by
    obtain ⟨b, e, h, hstart, hstop⟩ := (span_iff s).1 hs
    refine ⟨s.start_le_stop, ?_, ?_⟩
    · rw [hstop]
      exact Nat.max_le.2 ⟨elapsed_le_totalTime h.end_mem, elapsed_le_totalTime h.starts_mem.1⟩
    · rw [durations_of_stretch h, hstart, hstop]
  mem_chartOrder s := by
    rw [chartOrder, List.mem_mergeSort, SortedMap.mem_toList_iff]
  total := totalTime_ofOccurrences l

-- the first end has no start before it, and the last start has no end behind it
example : (ofOccurrences [⟨⟨"a"⟩, .succeeded, 9000000⟩, ⟨⟨"a"⟩, .started, 2500000⟩,
    ⟨⟨"a"⟩, .failed, 7499999⟩, ⟨⟨"a"⟩, .started, 8000000⟩]).durations.get? ⟨"a"⟩ = some 5 := by
  decide

end Measures

end Timeline

end Workplan
