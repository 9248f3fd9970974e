import Mathlib.Algebra.Order.BigOperators.Group.List
import Mathlib.Tactic.Ring
import Workplan.Handler.Builtin
import Workplan.Proofs.Inputs

/-! Counters: what the built-in counters add up to over any history of calls.

A call tells a whole number of the signed range, as one of its arguments or by leaving it out. The
handlers read it as a number that is not negative and take the default in place of any other
(`taken_of_asks`), and a counter has no value from `2 ^ 64` on. So a history leaves a counter at what
it was told, and every call answers what it was told so far, exactly when no start and no number told is
negative and the sum fits into the counter (`counts_exactly`). Of the other histories the theorem says
when a call panics, and what the counters show as long as none does. -/
namespace Workplan.Builtin
set_option autoImplicit false

/-! ## What calls tell -/

/-- Arguments tell a whole number: the one held under a name, or the default if there is none. -/
def Tells (name : String) (default : ℕ) (arguments : List (String × Value)) (n : ℤ) : Prop :=
  match Entries.get? name arguments with
  | none => n = default
  | some v => v.Holds n

/-- A call is made with what the conversion to the declared kinds makes of arguments that tell `n`. -/
def Asks (inputs : List InputSpec) (name : String) (default : ℕ) (call : Call) (n : ℤ) : Prop :=
  ∃ arguments entries, Tells name default arguments n ∧
    InputSpec.coerceArguments inputs arguments = .ok entries ∧ call.input = .map entries

/-- What the handlers take for a whole number: the default in place of one below zero. -/
def taken (default : ℕ) (n : ℤ) : ℕ := if 0 ≤ n then n.toNat else default

theorem le_taken (default : ℕ) (n : ℤ) : n ≤ taken default n := by
  rw [taken]
  split
  next h => rw [Int.toNat_of_nonneg h]
  next h => omega

theorem taken_eq_iff {default : ℕ} {n : ℤ} : (taken default n : ℤ) = n ↔ 0 ≤ n := by
  rw [taken]
  split
  next h => exact iff_of_true (Int.toNat_of_nonneg h) h
  next h => exact iff_of_false (by omega) h

theorem get?_of_coerceArguments {inputs : List InputSpec} {l l' : List (String × Value)}
    (h : InputSpec.coerceArguments inputs l = .ok l') (name : String) :
    Option.Rel (fun v w => (InputSpec.kindOf inputs name).coerce v = some w)
      (Entries.get? name l) (Entries.get? name l') := by
  have hall := Work.coerceArguments_eq_ok_iff.1 h
  clear h
  induction hall with
  | nil => exact .none
  | @cons a b _ _ hab _ ih =>
    rw [Entries.get?, Entries.get?, hab.1]
    split
    next hname => exact .some (hname ▸ hab.2)
    next => exact ih

theorem taken_of_asks {inputs : List InputSpec} {name : String} {default : ℕ} {call : Call} {n : ℤ}
    (hkind : InputSpec.kindOf inputs name = .integer) (h : Asks inputs name default call n) :
    ((call.input.field? name).bind Value.toNat?).getD default = taken default n := by
  obtain ⟨arguments, entries, htells, hcoerce, hinput⟩ := h
  have hget := get?_of_coerceArguments hcoerce name
  rw [hkind] at hget
  rw [Tells] at htells
  rw [hinput, Value.field?]
  generalize Entries.get? name arguments = told at htells hget
  generalize Entries.get? name entries = read at hget
  cases hget with
  | none =>
    rw [htells, taken, if_pos (Int.natCast_nonneg _)]
    rfl
  | some hcoerced =>
    obtain ⟨m, hm, rfl, hholds, -⟩ := ValueKind.coerce_integer_eq_some_iff.1 hcoerced
    cases htells.eq hholds
    rw [Option.bind_some, Value.integer, Value.toNat?, Number.toNat?, taken]
    split <;> rfl

/-! ## One call -/

/-- A counter shows a whole number. -/
def Shows (w : World) (i : ResourceInstance) (z : ℤ) : Prop :=
  ∃ v : ℕ, w.object? i = some (.counter v) ∧ (v : ℤ) = z

theorem Shows.eq {w : World} {i : ResourceInstance} {z z' : ℤ} (h : Shows w i z)
    (h' : Shows w i z') : z = z' := by
  obtain ⟨v, hv, rfl⟩ := h
  obtain ⟨v', hv', rfl⟩ := h'
  cases hv.symm.trans hv'
  rfl

/-- A call returns a whole number as its output `value`. -/
def Returns (answer : Answer Value) (z : ℤ) : Prop :=
  ∃ h, answer = .value (Value.ofEntries [("value", .number (.whole z h))])

theorem returns_ofNat {v : ℕ} (h : v < counterRange) :
    Returns (.value (Value.ofEntries [("value", Value.ofNat v)])) v := by
  have hmod : v % 2 ^ 64 = v := Nat.mod_eq_of_lt h
  rw [counterRange] at h
  refine ⟨⟨by omega, by omega⟩, ?_⟩
  simp only [Value.ofNat, Number.ofNat, hmod]

section Call
variable {w w' : World} {i j : ResourceInstance} {answer : Answer Value} {n value : ℕ}
  {used : List ResourceInstance} {S : ResourceInstance → Prop} {shown : ResourceInstance → ℤ}

theorem object?_store {o o' : SharedObject} (h : w.object? i = some o) :
    (w.store i o').object? j = if j = i then some o' else w.object? j := by
  have hlt : i.number < w.objects.length := (List.getElem?_eq_some_iff.1 h).1
  rw [World.object?, World.store, List.getElem?_set, if_pos hlt]
  by_cases hij : j = i
  · rw [if_pos hij, if_pos (congrArg ResourceInstance.number hij).symm]
  · have hne : i.number ≠ j.number := fun e => hij (by
      cases i
      cases j
      exact congrArg ResourceInstance.mk e.symm)
    rw [if_neg hij, if_neg hne]
    rfl

/-- What counters show after one addition. -/
def raised (shown : ResourceInstance → ℤ) (j : ResourceInstance) (n : ℕ) : ResourceInstance → ℤ :=
  fun i => if i = j then shown i + n else shown i

theorem raised_add_count (shown : ResourceInstance → ℤ) (i j : ResourceInstance) (n : ℕ)
    (used : List ResourceInstance) :
    raised shown j n i + n * used.count i = shown i + n * (j :: used).count i := by
  rw [raised, List.count_cons]
  split
  next h =>
    rw [if_pos (beq_iff_eq.2 h.symm)]
    push_cast
    ring
  next h =>
    rw [if_neg fun e => h (beq_iff_eq.1 e).symm]
    rfl

theorem shows_store {old : ℕ} (hw : ∀ i, S i → Shows w i (shown i)) (hj : S j)
    (hold : w.object? j = some (.counter old)) (hfits : old + n < counterRange) :
    ∀ i, S i → Shows (w.store j (.counter (addToCounter old n))) i (raised shown j n i) := by
  intro i hi
  rw [Shows, object?_store hold, raised, addToCounter, Nat.mod_eq_of_lt hfits]
  split
  next hij =>
    have hshown : (old : ℤ) = shown j := Shows.eq ⟨old, hold, rfl⟩ (hw j hj)
    rw [hij, ← hshown]
    exact ⟨_, rfl, Nat.cast_add old n⟩
  next => exact hw i hi

/-- A call that leaves the range of a counter. -/
structure Overflows (shown : ResourceInstance → ℤ) (n : ℕ) (used : List ResourceInstance)
    (answer : Answer Value) : Prop where
  exceeds : ∃ i ∈ used, (counterRange : ℤ) ≤ shown i + n * used.count i
  panics : ∃ m, answer = .panic m

/-- A call that has added `n` to each counter as often as it uses it. It returns the value of the last
counter; without counters it returns `value`. -/
structure Adds (S : ResourceInstance → Prop) (shown : ResourceInstance → ℤ) (n value : ℕ)
    (used : List ResourceInstance) (answer : Answer Value) (w' : World) : Prop where
  fits : ∀ i ∈ used, shown i + n * used.count i < counterRange
  shows : ∀ i, S i → Shows w' i (shown i + n * used.count i)
  returns : Returns answer ((used.getLast?.map fun i => shown i + n * used.count i).getD value)

theorem Overflows.cons (h : Overflows (raised shown j n) n used answer) :
    Overflows shown n (j :: used) answer := by
  obtain ⟨i, hi, hle⟩ := h.exceeds
  rw [raised_add_count] at hle
  exact ⟨⟨i, List.mem_cons_of_mem _ hi, hle⟩, h.panics⟩

theorem Adds.cons {old : ℕ} (h : Adds S (raised shown j n) n (old + n) used answer w')
    (hj : shown j = old) (hfits : old + n < counterRange) :
    Adds S shown n value (j :: used) answer w' := by
  -- a counter that is not used again stays at what this addition makes of it
  have hold : j ∉ used → shown j + n * (j :: used).count j = (old + n : ℕ) := fun hmem => by
    rw [← raised_add_count, List.count_eq_zero_of_not_mem hmem, raised, if_pos rfl, hj]
    push_cast
    ring
  constructor
  case fits =>
    intro i hi
    by_cases hmem : i ∈ used
    · rw [← raised_add_count]
      exact h.fits i hmem
    · obtain rfl := (List.mem_cons.1 hi).resolve_right hmem
      rw [hold hmem]
      exact_mod_cast hfits
  case shows =>
    intro i hi
    rw [← raised_add_count]
    exact h.shows i hi
  case returns =>
    have hret := h.returns
    rw [List.getLast?_cons, Option.map_some, Option.getD_some]
    cases hlast : used.getLast? with
    | none =>
      cases List.getLast?_eq_none_iff.1 hlast
      rw [Option.getD_none, hold List.not_mem_nil]
      exact hret
    | some i =>
      rw [hlast, Option.map_some, Option.getD_some, raised_add_count] at hret
      exact hret

theorem incrementEach_cases (n value : ℕ) (l : List (String × ResourceInstance))
    (hl : ∀ r ∈ l, S r.2) (hw : ∀ i, S i → Shows w i (shown i)) (hvalue : value < counterRange) :
    Overflows shown n (l.map Prod.snd) (incrementEach n l value w).1 ∨
      Adds S shown n value (l.map Prod.snd) (incrementEach n l value w).1
        (incrementEach n l value w).2 := by
  induction l generalizing value w shown with
  | nil =>
    refine .inr ⟨fun _ h => absurd h List.not_mem_nil, fun i hi => ?_, returns_ofNat hvalue⟩
    rw [List.map_nil, List.count_nil, Nat.cast_zero, mul_zero, add_zero]
    exact hw i hi
  | cons r l ih =>
    obtain ⟨name, j⟩ := r
    have hj : S j := hl _ List.mem_cons_self
    obtain ⟨old, hold, hshown⟩ := hw j hj
    rw [List.map_cons, incrementEach, hold]
    dsimp only
    split
    next hfits =>
      rcases ih _ (fun r hr => hl r (List.mem_cons_of_mem _ hr)) (shows_store hw hj hold hfits) hfits with
        hover | hadds
      · exact .inl hover.cons
      · exact .inr (hadds.cons hshown.symm hfits)
    next hfits =>
      refine .inl ⟨⟨j, List.mem_cons_self, ?_⟩, _, rfl⟩
      rw [List.count_cons_self, ← hshown]
      have hle : counterRange ≤ old + n * ((l.map Prod.snd).count j + 1) := by
        rw [Nat.mul_add_one]
        omega
      exact_mod_cast hle

end Call

/-! ## Histories -/

/-- A call of the runner: what it is called with, the number that it is told, and its answer. -/
structure Addition where
  call : Call
  told : ℤ
  answer : Answer Value

/-- The counters that a call uses, one after the other. -/
def Addition.used (e : Addition) : List ResourceInstance := e.call.resources.toList.map Prod.snd

/-- The number that the runner adds. -/
def Addition.added (e : Addition) : ℤ := taken 1 e.told

/-- A history of calls from one world to another, in the order in which they act; the world in which a
call began may be any other. Whatever else happens in between leaves the counters alone. -/
inductive Counting (w : World) : List Addition → World → Prop where
  | start : Counting w [] w
  | other {log : List Addition} {v v' : World} (h : Counting w log v)
    (hkeeps : ∀ i z, Shows v i z → Shows v' i z) : Counting w log v'
  | call {log : List Addition} {e : Addition} {u u' v v' : World} {ms : ℕ}
    {act : World → Answer Value × World} (h : Counting w log v)
    (hasks : Asks increment.shape.inputs "by" 1 e.call e.told)
    (hhandle : increment.handle e.call u = (.wait ms act, u')) (hact : act v = (e.answer, v')) :
    Counting w (log ++ [e]) v'

/-- A counter as it has been created to begin at a whole number. -/
def Opened (w : World) (i : ResourceInstance) (start : ℤ) : Prop :=
  ∃ call u u' ms act v v', Asks counter.shape.inputs "start" 0 call start ∧
    counter.create call u = (.wait ms act, u') ∧ act v = (.value i, v') ∧ w.object? i = v'.object? i

theorem Opened.shows {w : World} {i : ResourceInstance} {start : ℤ} (h : Opened w i start) :
    Shows w i (taken 0 start) := by
  obtain ⟨call, u, u', ms, act, v, v', hasks, hcreate, hact, hw⟩ := h
  cases hcreate
  cases hact
  refine ⟨_, hw.trans ?_, rfl⟩
  rw [taken_of_asks rfl hasks]
  exact List.getElem?_concat_length

/-- What a history adds to a counter, if each call adds a given number as often as it uses it. -/
def tally (adds : Addition → ℤ) (log : List Addition) (i : ResourceInstance) : ℤ :=
  (log.map fun e => adds e * e.used.count i).sum

/-- The sums stay within the range of counters. -/
def Fits (first : ResourceInstance → ℤ) (adds : Addition → ℤ) (log : List Addition) : Prop :=
  ∀ e ∈ log, ∀ i ∈ e.used, first i + tally adds log i < counterRange

/-- Counters count: each call returns the sum so far of the last counter that it uses, and in the end
each counter shows the sum of all calls. -/
structure Sums (first : ResourceInstance → ℤ) (adds : Addition → ℤ) (log : List Addition)
    (w' : World) : Prop where
  returns : ∀ k e i, log[k]? = some e → e.used.getLast? = some i →
    Returns e.answer (first i + tally adds (log.take (k + 1)) i)
  shows : ∀ e ∈ log, ∀ i ∈ e.used, Shows w' i (first i + tally adds log i)

section History
variable {w w' : World} {log : List Addition} {e : Addition} {i : ResourceInstance}
  {first first' : ResourceInstance → ℤ} {adds adds' : Addition → ℤ} {S : ResourceInstance → Prop}

theorem tally_append_singleton :
    tally adds (log ++ [e]) i = tally adds log i + adds e * e.used.count i := by
  simp only [tally, List.map_append, List.map_cons, List.map_nil, List.sum_append, List.sum_singleton]

theorem tally_congr (h : ∀ e ∈ log, i ∈ e.used → adds e = adds' e) :
    tally adds log i = tally adds' log i := by
  refine congrArg List.sum (List.map_congr_left fun e he => ?_)
  by_cases hi : i ∈ e.used
  · rw [h e he hi]
  · rw [List.count_eq_zero_of_not_mem hi, Nat.cast_zero, mul_zero, mul_zero]

theorem term_le (h : adds e ≤ adds' e) : adds e * e.used.count i ≤ adds' e * e.used.count i :=
  mul_le_mul_of_nonneg_right h (Nat.cast_nonneg _)

theorem tally_le (h : ∀ e ∈ log, adds e ≤ adds' e) : tally adds log i ≤ tally adds' log i :=
  List.sum_le_sum fun e he => term_le (h e he)

theorem tally_lt (h : ∀ e ∈ log, adds e ≤ adds' e) (he : e ∈ log) (hi : i ∈ e.used)
    (hlt : adds e < adds' e) : tally adds log i < tally adds' log i :=
  List.sum_lt_sum _ _ (fun e he => term_le (h e he))
    ⟨e, he, mul_lt_mul_of_pos_right hlt (Nat.cast_pos.2 (List.count_pos_iff.2 hi))⟩

/-- Sums depend on the counters that calls use and on what the calls that use some are told. -/
theorem Sums.congr (h : Sums first adds log w')
    (heq : ∀ e ∈ log, ∀ i ∈ e.used, first i = first' i ∧ adds e = adds' e) :
    Sums first' adds' log w' where
  returns := fun k e i hk hi => by
    have hused := heq e (List.mem_of_getElem? hk) i (List.mem_of_getLast? hi)
    rw [← hused.1, ← tally_congr fun e he hi => (heq e (List.mem_of_mem_take he) i hi).2]
    exact h.returns k e i hk hi
  shows := fun e he i hi => by
    rw [← (heq e he i hi).1, ← tally_congr fun e he hi => (heq e he i hi).2]
    exact h.shows e he i hi

/-! ### What a history comes to -/

/-- A history in which some call has left the range of a counter. -/
structure Overflown (first : ResourceInstance → ℤ) (log : List Addition) : Prop where
  exceeds : ¬Fits first Addition.added log
  panics : ∃ e ∈ log, ∃ m, e.answer = .panic m

/-- A history in which all calls have added. -/
structure Reckoned (S : ResourceInstance → Prop) (first : ResourceInstance → ℤ)
    (log : List Addition) (w' : World) : Prop where
  fits : Fits first Addition.added log
  returns : ∀ e ∈ log, ∃ z, Returns e.answer z
  sums : Sums first Addition.added log w'
  shows : ∀ i, S i → Shows w' i (first i + tally Addition.added log i)

theorem add_tally_append : first i + tally Addition.added (log ++ [e]) i =
    first i + tally Addition.added log i + taken 1 e.told * e.used.count i := by
  rw [tally_append_singleton, add_assoc]
  rfl

theorem Overflown.append (h : Overflown first log) (e : Addition) :
    Overflown first (log ++ [e]) where
  exceeds := fun hfits => h.exceeds fun e' he' i hi => by
    have hlt := hfits e' (List.mem_append_left _ he') i hi
    have hterm : 0 ≤ (taken 1 e.told : ℤ) * e.used.count i :=
      mul_nonneg (Nat.cast_nonneg _) (Nat.cast_nonneg _)
    rw [add_tally_append] at hlt
    omega
  panics := by
    obtain ⟨e', he', hpanic⟩ := h.panics
    exact ⟨e', List.mem_append_left _ he', hpanic⟩

theorem Overflows.overflown (h : Overflows (fun i => first i + tally Addition.added log i)
    (taken 1 e.told) e.used e.answer) : Overflown first (log ++ [e]) where
  exceeds := fun hfits => by
    obtain ⟨i, hi, hle⟩ := h.exceeds
    have hlt := hfits e (List.mem_append_right _ List.mem_cons_self) i hi
    rw [add_tally_append] at hlt
    exact absurd hlt (not_lt.2 hle)
  panics := ⟨e, List.mem_append_right _ List.mem_cons_self, h.panics⟩

theorem Reckoned.append {v : World} (h : Reckoned S first log v)
    (hS : ∀ e' ∈ log ++ [e], ∀ i ∈ e'.used, S i)
    (hadds : Adds S (fun i => first i + tally Addition.added log i) (taken 1 e.told) 0 e.used
      e.answer w') : Reckoned S first (log ++ [e]) w' := by
  have hshows : ∀ i, S i → Shows w' i (first i + tally Addition.added (log ++ [e]) i) := by
    intro i hi
    rw [add_tally_append]
    exact hadds.shows i hi
  refine ⟨?fits, ?returns, ⟨?sums, fun e' he' i hi => hshows i (hS e' he' i hi)⟩, hshows⟩
  case fits =>
    intro e' he' i hi
    rw [add_tally_append]
    by_cases hused : i ∈ e.used
    · exact hadds.fits i hused
    · rcases List.mem_append.1 he' with he' | he'
      · rw [List.count_eq_zero_of_not_mem hused, Nat.cast_zero, mul_zero, add_zero]
        exact h.fits e' he' i hi
      · cases List.mem_singleton.1 he'
        exact absurd hi hused
  case returns =>
    intro e' he'
    rcases List.mem_append.1 he' with he' | he'
    · exact h.returns e' he'
    · cases List.mem_singleton.1 he'
      exact ⟨_, hadds.returns⟩
  case sums =>
    intro k e' i hk hi
    rcases Nat.lt_or_ge k log.length with hlt | hge
    · rw [List.getElem?_append_left hlt] at hk
      rw [List.take_append_of_le_length hlt]
      exact h.sums.returns k e' i hk hi
    · rw [List.getElem?_append_right hge, List.getElem?_singleton] at hk
      split at hk
      next =>
        cases hk
        have hret := hadds.returns
        rw [hi, Option.map_some, Option.getD_some, ← add_tally_append] at hret
        rw [List.take_of_length_le (by rw [List.length_append, List.length_singleton]; omega)]
        exact hret
      next => cases hk

theorem Counting.overflown_or_reckoned (h : Counting w log w') (hw : ∀ i, S i → Shows w i (first i))
    (hS : ∀ e ∈ log, ∀ i ∈ e.used, S i) : Overflown first log ∨ Reckoned S first log w' := by
  induction h with
  | start =>
    have hnone : ∀ i, first i + tally Addition.added [] i = first i := fun i => add_zero _
    refine .inr ⟨fun _ he => absurd he List.not_mem_nil, fun _ he => absurd he List.not_mem_nil,
      ⟨fun _ _ _ hk => absurd hk (by simp), fun _ he => absurd he List.not_mem_nil⟩, fun i hi => ?_⟩
    rw [hnone]
    exact hw i hi
  | other h hkeeps ih =>
    rcases ih hS with hover | hr
    · exact .inl hover
    · exact .inr ⟨hr.fits, hr.returns, ⟨hr.sums.returns, fun e he i hi =>
        hkeeps _ _ (hr.sums.shows e he i hi)⟩, fun i hi => hkeeps _ _ (hr.shows i hi)⟩
  | @call log e u u' v v' ms act h hasks hhandle hact ih =>
    rcases ih fun e he => hS e (List.mem_append_left _ he) with hover | hr
    · exact .inl (hover.append e)
    · cases hhandle
      rw [taken_of_asks rfl hasks] at hact
      have hused : ∀ r ∈ e.call.resources.toList, S r.2 := fun r hr =>
        hS e (List.mem_append_right _ List.mem_cons_self) r.2 (List.mem_map_of_mem hr)
      have hcall := incrementEach_cases (taken 1 e.told) 0 e.call.resources.toList hused hr.shows
        (by decide)
      rw [hact] at hcall
      rcases hcall with hover | hadds
      · exact .inl hover.overflown
      · exact .inr (hr.append hS hadds)

end History

/-! ## What counters are told -/

/-- What counters begin with, for starts that they are told. -/
def opening (starts : ResourceInstance → ℤ) (i : ResourceInstance) : ℤ := taken 0 (starts i)

/-- Handlers never take less than they are told, so nothing told is negative where the sums agree. -/
theorem nonneg_of_sum_eq {starts : ResourceInstance → ℤ} {log : List Addition} {e : Addition}
    {i : ResourceInstance} (he : e ∈ log) (hi : i ∈ e.used)
    (heq : starts i + tally Addition.told log i = opening starts i + tally Addition.added log i) :
    0 ≤ starts i ∧ 0 ≤ e.told := by
  have hstart : starts i ≤ opening starts i := le_taken 0 (starts i)
  have hadded : ∀ e : Addition, e.told ≤ e.added := fun e => le_taken 1 e.told
  have htally : tally Addition.told log i ≤ tally Addition.added log i := tally_le fun e _ => hadded e
  constructor
  · apply taken_eq_iff.1
    change opening starts i = starts i
    omega
  · by_contra hneg
    have hlt : e.told < e.added :=
      lt_of_le_of_ne (hadded e) fun heq => hneg (taken_eq_iff.1 heq.symm)
    have := tally_lt (fun e _ => hadded e) he hi hlt
    omega

/-- What a history of calls does to counters. No call panics before it acts. None panics at all exactly
when the sums of what the handlers take fit, and then the counters come to these sums. They come to the
sums of what they are told, without a panic, exactly when nothing told is negative and the sums fit. -/
theorem counts_exactly {w w' : World} {log : List Addition} {starts : ResourceInstance → ℤ}
    (h : Counting w log w') (ho : ∀ e ∈ log, ∀ i ∈ e.used, Opened w i (starts i)) :
    (∀ call u, ∃ act, increment.handle call u = (.wait 0 act, u)) ∧
    ((∀ e ∈ log, ∀ m, e.answer ≠ .panic m) ↔ Fits (opening starts) Addition.added log) ∧
    (Fits (opening starts) Addition.added log →
      Sums (opening starts) Addition.added log w') ∧
    ((∀ e ∈ log, ∀ m, e.answer ≠ .panic m) ∧ Sums starts Addition.told log w' ↔
      ∀ e ∈ log, ∀ i ∈ e.used, 0 ≤ starts i ∧ 0 ≤ e.told ∧
        starts i + tally Addition.told log i < counterRange) := by
  have hcases : Overflown (opening starts) log ∨
      Reckoned (fun i => ∃ e ∈ log, i ∈ e.used) (opening starts) log w' :=
    h.overflown_or_reckoned (fun i ⟨e, he, hi⟩ => (ho e he i hi).shows) fun e he i hi => ⟨e, he, hi⟩
  have hpanic : (∀ e ∈ log, ∀ m, e.answer ≠ .panic m) ↔
      Fits (opening starts) Addition.added log := by
    rcases hcases with hover | hr
    · obtain ⟨e, he, m, hm⟩ := hover.panics
      exact iff_of_false (fun hno => hno e he m hm) hover.exceeds
    · refine iff_of_true (fun e he m hm => ?_) hr.fits
      obtain ⟨z, hz, hret⟩ := hr.returns e he
      cases hm.symm.trans hret
  have hsums : Fits (opening starts) Addition.added log →
      Sums (opening starts) Addition.added log w' := fun hfits =>
    (hcases.resolve_left fun hover => hover.exceeds hfits).sums
  refine ⟨fun _ _ => ⟨_, rfl⟩, hpanic, hsums, ?_, ?_⟩
  · rintro ⟨hno, htold⟩ e he i hi
    have hfits := hpanic.1 hno
    have hshown : starts i + tally Addition.told log i =
        opening starts i + tally Addition.added log i :=
      (htold.shows e he i hi).eq ((hsums hfits).shows e he i hi)
    obtain ⟨hstart, htold⟩ := nonneg_of_sum_eq he hi hshown
    exact ⟨hstart, htold, hshown.trans_lt (hfits e he i hi)⟩
  · intro hall
    have heq : ∀ e ∈ log, ∀ i ∈ e.used, opening starts i = starts i ∧ e.added = e.told :=
      fun e he i hi => ⟨taken_eq_iff.2 (hall e he i hi).1, taken_eq_iff.2 (hall e he i hi).2.1⟩
    have hfits : Fits (opening starts) Addition.added log := fun e he i hi => by
      rw [(heq e he i hi).1, tally_congr fun e he hi => (heq e he i hi).2]
      exact (hall e he i hi).2.2
    exact ⟨hpanic.2 hfits, (hsums hfits).congr heq⟩

namespace Countdown

def hits : ResourceInstance := ⟨0⟩

def showing (n : ℕ) : World := { World.start with objects := [.counter n] }

/-- A call that uses the counter, with a number to add. -/
def call (n : ℤ) (h : -2 ^ 63 ≤ n ∧ n < 2 ^ 63) : Call :=
  ⟨.step "work", SortedMap.empty.insert "hits" hits, .map [("by", Value.integer n h)]⟩

def five : Addition :=
  ⟨call 5 (by decide), 5, .value (Value.ofEntries [("value", Value.ofNat 15)])⟩

def minusFive : Addition :=
  ⟨call (-5) (by decide), -5, .value (Value.ofEntries [("value", Value.ofNat 16)])⟩

/-- The second call adds one, so that the counter does not show ten in the end. -/
theorem counts_up : Counting (showing 10) [five, minusFive] (showing 16) ∧
    Opened (showing 10) hits 10 ∧
    Sums (opening fun _ => 10) Addition.added [five, minusFive] (showing 16) ∧
    Shows (showing 16) hits 16 ∧
    ¬Sums (fun _ => 10) Addition.told [five, minusFive] (showing 16) := by
  have hopened : Opened (showing 10) hits 10 :=
    ⟨⟨.resource "hits", .empty, .map [("start", Value.integer 10 (by decide))]⟩, .start, .start, 0, _,
      .start, showing 10, ⟨[("start", Value.integer 10 (by decide))], _, .whole (by decide),
        by decide +kernel, rfl⟩, rfl, rfl, rfl⟩
  have hfive : Asks increment.shape.inputs "by" 1 five.call five.told :=
    ⟨[("by", .string "5")], _, .text ⟨[], ['5'], [], by decide, List.all_eq_true.1 (by decide),
      List.all_eq_true.1 (by decide), .plain ⟨by decide, List.all_eq_true.1 (by decide)⟩⟩,
      by decide +kernel, rfl⟩
  have hminus : Asks increment.shape.inputs "by" 1 minusFive.call minusFive.told :=
    ⟨[("by", Value.integer (-5) (by decide))], _, .whole (by decide), by decide +kernel, rfl⟩
  have hfirst : Counting (showing 10) ([] ++ [five]) (showing 15) :=
    .call (u := .start) .start hfive rfl rfl
  have hboth : Counting (showing 10) ([five] ++ [minusFive]) (showing 16) :=
    .call (u := .start) hfirst hminus rfl rfl
  have hcounter : ∀ e ∈ [five, minusFive], e.used = [hits] := by
    simp only [List.mem_cons, List.not_mem_nil, or_false, forall_eq_or_imp, forall_eq]
    exact ⟨rfl, rfl⟩
  have hhits : ∀ e ∈ [five, minusFive], ∀ i ∈ e.used, i = hits := fun e he i hi => by
    rw [hcounter e he] at hi
    exact List.mem_singleton.1 hi
  have hstarts : ∀ e ∈ [five, minusFive], ∀ i ∈ e.used, Opened (showing 10) i 10 :=
    fun e he i hi => hhits e he i hi ▸ hopened
  obtain ⟨-, hpanic, hsums, htold⟩ := counts_exactly hboth hstarts
  have hfits : Fits (opening fun _ => 10) Addition.added [five, minusFive] := fun e he i hi => by
    rw [hhits e he i hi]
    decide +kernel
  refine ⟨hboth, hopened, hsums hfits, ⟨16, rfl, rfl⟩, fun h => ?_⟩
  obtain ⟨-, hneg, -⟩ := htold.1 ⟨hpanic.2 hfits, h⟩ minusFive (by simp) hits
    (by rw [hcounter minusFive (by simp)]; exact List.mem_singleton_self hits)
  exact absurd hneg (by decide)

end Countdown

end Workplan.Builtin
