import Workplan.CommandLine.Arguments
import Workplan.Proofs.CommandLine.Durations
import Workplan.Proofs.Number.Numeral

/-! Arguments of the command line: which of them are accepted, and what they configure.

A command line is a list of items: switches, options with their values, and at most one path. The
arguments of such a list, and no others, give a configuration, which is that of the items one after the
other (`parseFrom_words`, `ends_parseFrom`). So it has a number of workers above zero and the path that is
named, if any. Its timeout is the nearest duration to a number of seconds above zero: from `2 ^ 64` seconds
on there is none, and the reading breaks off, and up to half a nanosecond the duration is zero
(`parseArguments_answers`). -/
namespace Workplan
set_option autoImplicit false

theorem Binary64.toRat_pos_iff {x : Binary64} :
    0 < x.toRat ↔ x.negative = false ∧ x.isZero = false := by
  have hmag := x.magnitude_nonneg
  have hzero : x.isZero = false ↔ x.magnitude ≠ 0 := by
    rw [Ne, magnitude_eq_zero_iff, isZero, decide_eq_false_iff_not]
  rw [hzero, toRat]
  cases x.negative with
  | true => exact iff_of_false (by simpa using hmag) (by simp)
  | false => simpa using hmag.lt_iff_ne'

theorem Binary64.magnitude_of_pos {x : Binary64} (h : 0 < x.toRat) : x.magnitude = x.toRat := by
  rw [toRat, (toRat_pos_iff.1 h).1]
  rfl

namespace CommandLine

/-- The arguments that ask for help or for the version. -/
def informing : List String := ["--help", "-h", "--version", "-V"]

/-! ## Values of options -/

theorem numeral_natCast_iff {cs : List Char} {n : ℕ} (hpos : 1 ≤ n) : Numeral cs n ↔
    IsDigits cs ∧ Nat.ofDigitChars 10 cs 0 = n ∨
      ∃ rest, cs = '+' :: rest ∧ IsDigits rest ∧ Nat.ofDigitChars 10 rest 0 = n := by
  constructor
  · intro h
    generalize hz : (n : ℤ) = z at h
    cases h with
    | plain h => exact .inl ⟨h, by omega⟩
    | plus h => exact .inr ⟨_, rfl, h, by omega⟩
    | minus h => omega
  · rintro (⟨h, rfl⟩ | ⟨rest, rfl, h, rfl⟩)
    · exact .plain h
    · exact .plus h

theorem parseParallel_eq_ok_iff {value : String} {n : ℕ} :
    parseParallel value = .ok n ↔ Numeral value.toList n ∧ 1 ≤ n ∧ n < 2 ^ 64 := by
  have hread : parseParallel value = .ok n ↔
      readNatBelow? 10 (2 ^ 64) value.toList = some n ∧ 1 ≤ n := by
    rw [parseParallel]
    split
    next hnone => simp [hnone]
    next m hm =>
      rw [hm, Option.some.injEq]
      split
      next hzero => exact iff_of_false (by simp) (by omega)
      next hzero =>
        rw [Except.ok.injEq]
        omega
  rw [hread, readNatBelow?_eq_some_iff]
  constructor
  · rintro ⟨⟨hlt, hdigits⟩, hpos⟩
    exact ⟨(numeral_natCast_iff hpos).2 hdigits, hpos, hlt⟩
  · rintro ⟨hnum, hpos, hlt⟩
    exact ⟨⟨hlt, (numeral_natCast_iff hpos).1 hnum⟩, hpos⟩

/-- A text writes a number of seconds above zero. -/
def WritesSeconds (value : String) (x : Binary64) : Prop :=
  Binary64.read? value.toList = some x ∧ 0 < x.toRat

theorem parseSeconds_eq_ok_iff {value : String} {x : Binary64} :
    parseSeconds value = .ok x ↔ WritesSeconds value x := by
  rw [WritesSeconds, Binary64.toRat_pos_iff, parseSeconds]
  split
  next y hy =>
    rw [hy, Option.some.injEq]
    split
    next h =>
      refine iff_of_false (by simp) ?_
      rintro ⟨rfl, hneg, hzero⟩
      simp [hneg, hzero] at h
    next h =>
      rw [Except.ok.injEq]
      refine ⟨?_, fun hx => hx.1⟩
      rintro rfl
      simpa using h
  next hnone => simp [hnone]

/-! ## Items -/

/-- What stands together on a command line. Options have the text of their value and what it means. -/
inductive Item where
  | check
  | timeline
  | verbose
  | verboseInShort
  | parallel (value : String) (n : ℕ)
  | timeout (value : String) (d : Duration)
  | path (text : String)

namespace Item

/-- The arguments of an item. -/
def words : Item → List String
  | .check => ["--check"]
  | .timeline => ["--timeline"]
  | .verbose => ["--verbose"]
  | .verboseInShort => ["-v"]
  | .parallel value _ => ["--parallel", value]
  | .timeout value _ => ["--timeout", value]
  | .path text => [text]

/-- Values mean what the item has, and a path is no option. -/
def Fits : Item → Prop
  | .parallel value n => Numeral value.toList n ∧ 1 ≤ n ∧ n < 2 ^ 64
  | .timeout value d => ∃ x, WritesSeconds value x ∧ Duration.ofSeconds? x = some d
  | .path text => text.toList.head? ≠ some '-'
  | _ => True

/-- The path of an item, if it is one. -/
def positional : Item → List String
  | .path text => [text]
  | _ => []

/-- What an item changes of a configuration. -/
def set (c : Configuration) : Item → Configuration
  | .check => { c with check := true }
  | .timeline => { c with timeline := true }
  | .verbose => { c with verbose := true }
  | .verboseInShort => { c with verbose := true }
  | .parallel _ n => { c with parallel := some n }
  | .timeout _ d => { c with timeout := some d }
  | .path text => { c with path := text }

end Item

/-- Items that can be read, after a path or not: they fit, and there is one path at most. -/
structure Readable (named : Bool) (items : List Item) : Prop where
  fits : ∀ i ∈ items, i.Fits
  onePath : named.toNat + (items.flatMap Item.positional).length ≤ 1

namespace Readable
variable {named : Bool} {i : Item} {items : List Item}

theorem nil (named : Bool) : Readable named [] := ⟨by simp, Bool.toNat_le _⟩

theorem cons (hi : i.Fits) (hpath : i.positional = []) (h : Readable named items) :
    Readable named (i :: items) where
  fits := List.forall_mem_cons.2 ⟨hi, h.fits⟩
  onePath := by simpa [hpath] using h.onePath

theorem cons_path {text : String} (hi : (Item.path text).Fits) (h : Readable true items) :
    Readable false (.path text :: items) where
  fits := List.forall_mem_cons.2 ⟨hi, h.fits⟩
  onePath := by simpa [Item.positional] using h.onePath

end Readable

/-! ## Reading items -/

theorem Item.Fits.ne_option {text : String} (h : (Item.path text).Fits) (option : String)
    (hoption : option.toList.head? = some '-') : text ≠ option := by
  rintro rfl
  exact h hoption

theorem parseFrom_path (c : Configuration) {text : String} (h : (Item.path text).Fits)
    (rest : List String) :
    parseFrom c false (text :: rest) = parseFrom { c with path := text } true rest := by
  rw [parseFrom]
  · rw [if_neg h, if_neg (by decide)]
  all_goals exact h.ne_option _ rfl

theorem parseFrom_item (c : Configuration) (named : Bool) {i : Item} (hi : i.Fits)
    (hpath : named.toNat + i.positional.length ≤ 1) (rest : List String) :
    ∃ named' : Bool, named'.toNat = named.toNat + i.positional.length ∧
      parseFrom c named (i.words ++ rest) = parseFrom (i.set c) named' rest := by
  cases i with
  | check => exact ⟨named, rfl, rfl⟩
  | timeline => exact ⟨named, rfl, rfl⟩
  | verbose => exact ⟨named, rfl, rfl⟩
  | verboseInShort => exact ⟨named, rfl, rfl⟩
  | parallel value n =>
    refine ⟨named, rfl, ?_⟩
    rw [Item.words, List.cons_append, List.singleton_append, parseFrom,
      parseParallel_eq_ok_iff.2 hi]
    rfl
  | timeout value d =>
    obtain ⟨x, hx, hd⟩ := hi
    refine ⟨named, rfl, ?_⟩
    rw [Item.words, List.cons_append, List.singleton_append, parseFrom,
      parseSeconds_eq_ok_iff.2 hx, Request.andThen, hd]
    rfl
  | path text =>
    cases named with
    | true => simp [Item.positional] at hpath
    | false => exact ⟨true, rfl, parseFrom_path c hi rest⟩

theorem parseFrom_words {c : Configuration} {named : Bool} {items : List Item}
    (h : Readable named items) (rest : List String) : ∃ named',
    parseFrom c named (items.flatMap Item.words ++ rest) =
      parseFrom (items.foldl Item.set c) named' rest := by
  induction items generalizing c named with
  | nil => exact ⟨named, rfl⟩
  | cons i items ih =>
    have hpath := h.onePath
    rw [List.flatMap_cons, List.length_append] at hpath
    obtain ⟨hi, hitems⟩ := List.forall_mem_cons.1 h.fits
    obtain ⟨named', hnamed, hstep⟩ :=
      parseFrom_item c named hi (by omega) (items.flatMap Item.words ++ rest)
    have hrest : Readable named' items := ⟨hitems, by omega⟩
    obtain ⟨named'', hrun⟩ := ih hrest
    rw [List.flatMap_cons, List.append_assoc, hstep, hrun]
    exact ⟨named'', rfl⟩

/-- How a reading ends after some items: with the configuration, with an error, or at a number of seconds
beyond the range of durations. -/
inductive Ending (c : Configuration) (args : List String) (items : List Item) : Request → Prop where
  | run (h : args = items.flatMap Item.words) : Ending c args items (.run (items.foldl Item.set c))
  | misuse (e : ArgumentError) : Ending c args items (.misuse e)
  | beyond {value : String} {rest : List String} {x : Binary64}
      (h : args = items.flatMap Item.words ++ "--timeout" :: value :: rest)
      (hx : WritesSeconds value x) (hrange : 2 ^ 64 ≤ x.toRat) : Ending c args items .timeoutBeyondRange

/-- Arguments are read as items up to an ending. -/
def Ends (c : Configuration) (named : Bool) (args : List String) (r : Request) : Prop :=
  ∃ items, Readable named items ∧ Ending c args items r

namespace Ends
variable {c : Configuration} {named : Bool} {args : List String} {r : Request}

theorem cons {i : Item} {named' : Bool} (hi : ∀ {items}, Readable named' items →
    Readable named (i :: items)) (h : Ends (i.set c) named' args r) :
    Ends c named (i.words ++ args) r := by
  obtain ⟨items, hitems, hending⟩ := h
  refine ⟨i :: items, hi hitems, ?_⟩
  cases hending with
  | run h => exact .run (by rw [h, List.flatMap_cons])
  | misuse e => exact .misuse e
  | beyond h hx hrange =>
    exact .beyond (by rw [h, List.flatMap_cons, List.append_assoc]) hx hrange

theorem item {i : Item} (hi : i.Fits) (hpath : i.positional = []) (h : Ends (i.set c) named args r) :
    Ends c named (i.words ++ args) r :=
  cons (fun hitems => hitems.cons hi hpath) h

theorem misuse (c : Configuration) (named : Bool) (args : List String) (e : ArgumentError) :
    Ends c named args (.misuse e) := ⟨[], .nil _, .misuse e⟩

end Ends

/-- All arguments are read so, unless they ask for help or for the version. -/
theorem ends_parseFrom (c : Configuration) (named : Bool) (args : List String)
    (h : ∀ word ∈ args, word ∉ informing) : Ends c named args (parseFrom c named args) := by
  fun_induction parseFrom c named args with
  | case1 => exact ⟨[], .nil _, .run rfl⟩
  | case2 | case3 | case4 | case5 => exact absurd (h _ List.mem_cons_self) (by decide)
  | case6 c named rest ih =>
    exact Ends.item (i := .check) trivial rfl (ih (List.forall_mem_cons.1 h).2)
  | case7 c named rest ih =>
    exact Ends.item (i := .timeline) trivial rfl (ih (List.forall_mem_cons.1 h).2)
  | case8 c named rest ih =>
    exact Ends.item (i := .verbose) trivial rfl (ih (List.forall_mem_cons.1 h).2)
  | case9 c named rest ih =>
    exact Ends.item (i := .verboseInShort) trivial rfl (ih (List.forall_mem_cons.1 h).2)
  | case10 => exact .misuse _ _ _ _
  | case11 c named value rest ih =>
    have hrest := (List.forall_mem_cons.1 (List.forall_mem_cons.1 h).2).2
    cases hn : parseParallel value with
    | error e => exact .misuse _ _ _ _
    | ok n =>
      exact Ends.item (i := .parallel value n) (parseParallel_eq_ok_iff.1 hn) rfl (ih n hrest)
  | case12 => exact .misuse _ _ _ _
  | case13 c named value rest ih =>
    have hrest := (List.forall_mem_cons.1 (List.forall_mem_cons.1 h).2).2
    cases hx : parseSeconds value with
    | error e => exact .misuse _ _ _ _
    | ok x =>
      have hseconds := parseSeconds_eq_ok_iff.1 hx
      rw [Request.andThen]
      cases hd : Duration.ofSeconds? x with
      | none =>
        have hrange := Duration.ofSeconds?_eq_none_iff.1 hd
        rw [Binary64.magnitude_of_pos hseconds.2] at hrange
        exact ⟨[], .nil _, .beyond rfl hseconds hrange⟩
      | some d => exact Ends.item (i := .timeout value d) ⟨x, hseconds, hd⟩ rfl (ih d hrest)
  | case14 c named text rest hoption =>
    rw [if_pos hoption]
    exact .misuse _ _ _ _
  | case15 c text rest hpath =>
    rw [if_neg hpath, if_pos rfl]
    exact .misuse _ _ _ _
  | case16 c named text rest hpath hnamed _ _ _ _ _ _ _ _ _ _ ih =>
    rw [if_neg hpath, if_neg hnamed]
    rw [Bool.not_eq_true] at hnamed
    subst hnamed
    exact Ends.cons (i := .path text) (fun hitems => hitems.cons_path hpath)
      (ih (List.forall_mem_cons.1 h).2)

/-! ## What items configure -/

/-- The argument is an option with a value. -/
def takesValue (argument : String) : Bool := argument = "--parallel" || argument = "--timeout"

/-- The arguments that are neither options nor values of options. -/
def positionals : List String → List String
  | [] => []
  | [argument] => if argument.toList.head? = some '-' then [] else [argument]
  | argument :: value :: rest =>
    if takesValue argument then positionals rest
    else if argument.toList.head? = some '-' then positionals (value :: rest)
    else argument :: positionals (value :: rest)

theorem positionals_cons {argument : String} (h : takesValue argument = false) (rest : List String) :
    positionals (argument :: rest) =
      if argument.toList.head? = some '-' then positionals rest else argument :: positionals rest := by
  cases rest with
  | nil => rfl
  | cons value rest => rw [positionals, h, if_neg Bool.false_ne_true]

theorem positionals_item {i : Item} (hi : i.Fits) (rest : List String) :
    positionals (i.words ++ rest) = i.positional ++ positionals rest := by
  have hswitch : ∀ argument : String, takesValue argument = false →
      argument.toList.head? = some '-' → positionals (argument :: rest) = positionals rest :=
    fun argument hvalue hoption => by rw [positionals_cons hvalue, if_pos hoption]
  cases i with
  | check => exact hswitch _ rfl rfl
  | timeline => exact hswitch _ rfl rfl
  | verbose => exact hswitch _ rfl rfl
  | verboseInShort => exact hswitch _ rfl rfl
  | parallel => rfl
  | timeout => rfl
  | path text =>
    have hvalue : takesValue text = false := by
      rw [takesValue, Bool.or_eq_false_iff, decide_eq_false_iff_not, decide_eq_false_iff_not]
      exact ⟨hi.ne_option _ rfl, hi.ne_option _ rfl⟩
    rw [Item.words, List.singleton_append, positionals_cons hvalue, if_neg hi]
    rfl

theorem positionals_words {items : List Item} (h : ∀ i ∈ items, i.Fits) :
    positionals (items.flatMap Item.words) = items.flatMap Item.positional := by
  induction items with
  | nil => rfl
  | cons i items ih =>
    obtain ⟨hi, hitems⟩ := List.forall_mem_cons.1 h
    rw [List.flatMap_cons, List.flatMap_cons, positionals_item hi, ih hitems]

theorem path_foldl_set (items : List Item) (c : Configuration) :
    (items.foldl Item.set c).path = (items.flatMap Item.positional).getLast?.getD c.path := by
  induction items generalizing c with
  | nil => rfl
  | cons i items ih =>
    rw [List.foldl_cons, ih, List.flatMap_cons]
    cases i with
    | path text => rw [Item.positional, List.singleton_append, List.getLast?_cons]; rfl
    | _ => rfl

/-- A duration is what one of the arguments asks for: the nearest one to a number of seconds above zero
and below `2 ^ 64`. It is zero for half a nanosecond and less. -/
def Asked (args : List String) (d : Duration) : Prop :=
  ∃ value x, ["--timeout", value] <:+: args ∧ WritesSeconds value x ∧ x.toRat < 2 ^ 64 ∧
    |(d.nanoseconds : ℚ) - x.toRat * 10 ^ 9| ≤ 1 / 2 ∧
    (d.nanoseconds = 0 ↔ x.toRat * 10 ^ 9 ≤ 1 / 2)

theorem asked_of_fits {value : String} {d : Duration} (h : (Item.timeout value d).Fits)
    {args : List String} (hargs : ["--timeout", value] <:+: args) : Asked args d := by
  obtain ⟨x, hx, hd⟩ := h
  have hnearest := Duration.abs_nanoseconds_sub_le hd
  have hzero := Duration.nanoseconds_eq_zero_iff hd
  have hrange : ¬2 ^ 64 ≤ x.magnitude := fun hle => by
    cases hd.symm.trans (Duration.ofSeconds?_eq_none_iff.2 hle)
  rw [Binary64.magnitude_of_pos hx.2] at hnearest hzero hrange
  exact ⟨value, x, hargs, hx, not_le.1 hrange, hnearest, hzero⟩

section Settings
variable {items : List Item}

theorem parallel_foldl_set (h : ∀ i ∈ items, i.Fits) :
    ∀ n ∈ (items.foldl Item.set .standard).parallel, 1 ≤ n ∧ n < 2 ^ 64 := by
  refine List.foldlRecOn (motive := fun c => ∀ n ∈ c.parallel, 1 ≤ n ∧ n < 2 ^ 64) items Item.set
    ?_ ?_
  · rintro n ⟨⟩
  · intro c hc i hi
    cases i with
    | parallel value n =>
      rintro _ ⟨⟩
      exact (h _ hi).2
    | _ => exact hc

theorem timeout_foldl_set (h : ∀ i ∈ items, i.Fits) :
    ∀ d ∈ (items.foldl Item.set .standard).timeout, Asked (items.flatMap Item.words) d := by
  refine List.foldlRecOn (motive := fun c => ∀ d ∈ c.timeout, Asked (items.flatMap Item.words) d) items
    Item.set ?_ ?_
  · rintro d ⟨⟩
  · intro c hc i hi
    cases i with
    | timeout value d =>
      rintro _ ⟨⟩
      exact asked_of_fits (h _ hi) (List.infix_of_mem_flatten (List.mem_map_of_mem hi))
    | _ => exact hc

end Settings

/-! ## Accepted arguments -/

/-- What a command line is answered with. -/
structure Answers (args : List String) (r : Request) : Prop where
  /-- It is an error or a configuration, unless the reading breaks off. -/
  outcome : (∃ e, r = .misuse e) ∨ (∃ c, r = .run c) ∨ r = .timeoutBeyondRange
  /-- The reading breaks off exactly at a number of seconds from `2 ^ 64` on. -/
  breaksOff_iff : r = .timeoutBeyondRange ↔ ∃ items value rest x, Readable false items ∧
    args = items.flatMap Item.words ++ "--timeout" :: value :: rest ∧ WritesSeconds value x ∧
      2 ^ 64 ≤ x.toRat
  /-- Configurations are those of items that can be read. -/
  run_iff : ∀ c, r = .run c ↔ ∃ items, Readable false items ∧ args = items.flatMap Item.words ∧
    c = items.foldl Item.set .standard
  parallel : ∀ c, r = .run c → ∀ n ∈ c.parallel, 1 ≤ n ∧ n < 2 ^ 64
  timeout : ∀ c, r = .run c → ∀ d ∈ c.timeout, Asked args d
  path : ∀ c, r = .run c →
    positionals args = [] ∧ c.path = defaultPath ∨ positionals args = [c.path]

theorem parseArguments_eq_run_iff {args : List String} (h : ∀ word ∈ args, word ∉ informing)
    (c : Configuration) : parseArguments args = .run c ↔
      ∃ items, Readable false items ∧ args = items.flatMap Item.words ∧
        c = items.foldl Item.set .standard := by
  constructor
  · intro hrun
    obtain ⟨items, hitems, hending⟩ := ends_parseFrom .standard false args h
    rw [← parseArguments, hrun] at hending
    cases hending with
    | run hargs => exact ⟨items, hitems, hargs, rfl⟩
  · rintro ⟨items, hitems, rfl, rfl⟩
    obtain ⟨named, hrun⟩ := parseFrom_words hitems (c := .standard) []
    rw [List.append_nil] at hrun
    exact hrun

theorem parseArguments_breaksOff_iff {args : List String} (h : ∀ word ∈ args, word ∉ informing) :
    parseArguments args = .timeoutBeyondRange ↔ ∃ items value rest x, Readable false items ∧
      args = items.flatMap Item.words ++ "--timeout" :: value :: rest ∧ WritesSeconds value x ∧
        2 ^ 64 ≤ x.toRat := by
  constructor
  · intro hbeyond
    obtain ⟨items, hitems, hending⟩ := ends_parseFrom .standard false args h
    rw [← parseArguments, hbeyond] at hending
    cases hending with
    | beyond hargs hx hrange => exact ⟨items, _, _, _, hitems, hargs, hx, hrange⟩
  · rintro ⟨items, value, rest, x, hitems, rfl, hx, hrange⟩
    obtain ⟨named, hrun⟩ := parseFrom_words hitems (c := .standard) ("--timeout" :: value :: rest)
    rw [← Binary64.magnitude_of_pos hx.2] at hrange
    rw [parseArguments, hrun, parseFrom, parseSeconds_eq_ok_iff.2 hx, Request.andThen,
      Duration.ofSeconds?_eq_none_iff.2 hrange]
    rfl

/-- Arguments that ask neither for help nor for the version. -/
theorem parseArguments_answers (args : List String) (h : ∀ word ∈ args, word ∉ informing) :
    Answers args (parseArguments args) where
  outcome := by
    obtain ⟨items, -, hending⟩ := ends_parseFrom .standard false args h
    rw [← parseArguments] at hending
    generalize parseArguments args = r at hending
    cases hending with
    | run => exact .inr (.inl ⟨_, rfl⟩)
    | misuse e => exact .inl ⟨e, rfl⟩
    | beyond => exact .inr (.inr rfl)
  breaksOff_iff := parseArguments_breaksOff_iff h
  run_iff := parseArguments_eq_run_iff h
  parallel c hc := by
    obtain ⟨items, hitems, -, rfl⟩ := (parseArguments_eq_run_iff h c).1 hc
    exact parallel_foldl_set hitems.fits
  timeout c hc := by
    obtain ⟨items, hitems, rfl, rfl⟩ := (parseArguments_eq_run_iff h c).1 hc
    exact timeout_foldl_set hitems.fits
  path c hc := by
    obtain ⟨items, hitems, rfl, rfl⟩ := (parseArguments_eq_run_iff h c).1 hc
    have hone := hitems.onePath
    rw [positionals_words hitems.fits, path_foldl_set]
    cases hpaths : items.flatMap Item.positional with
    | nil => exact .inl ⟨rfl, rfl⟩
    | cons text paths =>
      rw [hpaths, List.length_cons] at hone
      have hnil : paths = [] := List.length_eq_zero_iff.1 (by omega)
      rw [hnil]
      exact .inr rfl

def endless : List String := ["--parallel", "4", "run.yaml", "--timeout", "1e20"]

def instantly : List String := ["run.yaml", "--timeout", "1e-10", "-v"]

/-- The first of these timeouts breaks the reading off, and the second is accepted as zero. -/
theorem reads_endless : ((∀ word ∈ endless, word ∉ informing) ∧
      parseArguments endless = .timeoutBeyondRange) ∧
    (∀ word ∈ instantly, word ∉ informing) ∧ ∃ c d, parseArguments instantly = .run c ∧
      c.timeout = some d ∧ d.nanoseconds = 0 ∧ c.path = "run.yaml" := by
  have hendless : ∀ word ∈ endless, word ∉ informing := by decide
  have hinstantly : ∀ word ∈ instantly, word ∉ informing := by decide
  have hpath : "run.yaml".toList.head? ≠ some '-' := by decide
  refine ⟨⟨hendless, (parseArguments_answers endless hendless).breaksOff_iff.2 ?_⟩, hinstantly, ?_⟩
  · have hfour : (Item.parallel "4" 4).Fits :=
      ⟨(numeral_natCast_iff (by decide)).2
        (.inl ⟨⟨by decide, List.all_eq_true.1 (by decide)⟩, by decide⟩), by decide, by decide⟩
    have hread : Binary64.read? "1e20".toList = some ⟨false, 6103515625000000, 14, by decide⟩ := by
      decide +kernel
    have hitems : Readable false [.parallel "4" 4, .path "run.yaml"] :=
      ⟨List.forall_mem_cons.2 ⟨hfour, List.forall_mem_singleton.2 hpath⟩, by decide⟩
    refine ⟨_, "1e20", [], _, hitems, rfl, ⟨hread, ?_⟩, ?_⟩
    · norm_num [Binary64.toRat, Binary64.magnitude]
    · norm_num [Binary64.toRat, Binary64.magnitude]
  · have hread : Binary64.read? "1e-10".toList = some ⟨false, 7737125245533627, -86, by decide⟩ := by
      decide +kernel
    have hzero : (Item.timeout "1e-10" ⟨0, by decide⟩).Fits :=
      ⟨_, ⟨hread, Binary64.toRat_pos_iff.2 ⟨rfl, rfl⟩⟩,
        Duration.ofSeconds?_eq_some_iff.2 (by decide +kernel)⟩
    have hitems : Readable false
        [.path "run.yaml", .timeout "1e-10" ⟨0, by decide⟩, .verboseInShort] :=
      ⟨List.forall_mem_cons.2 ⟨hpath, List.forall_mem_cons.2 ⟨hzero,
        List.forall_mem_singleton.2 trivial⟩⟩, by decide⟩
    exact ⟨_, _, ((parseArguments_answers instantly hinstantly).run_iff _).2 ⟨_, hitems, rfl, rfl⟩,
      rfl, rfl, rfl⟩

end CommandLine

end Workplan
