import Workplan.Proofs.ByteOrder
import Workplan.Proofs.Number.Rounding
import Workplan.Replication

/-! Replication: which values give instances, and which instances they give.

A count is tested on the floating-point number that is nearest to it. The tests come out as on the exact
number, because zero, the whole numbers up to the limit and the first one above it are all in the format,
and rounding neither crosses a number of the format nor makes a fraction of a whole number. A collection
gives one instance for each of its entries, in order. -/
namespace Workplan
set_option autoImplicit false

/-! ## The tests of a count -/

namespace Number
variable {n : Number}

theorem isBelowZero_toBinary64 : n.toBinary64.isBelowZero = true ↔ n.toRat < 0 := by
  rw [Binary64.isBelowZero_iff]
  have hnear := n.nearest_toBinary64
  cases n with
  | whole n h => exact hnear.toRat_lt_zero_iff.trans Int.cast_lt_zero.symm
  | float x => rfl

theorem isWhole_toBinary64 : n.toBinary64.isWhole = true ↔ ∃ k : ℤ, n.toRat = k := by
  have hnear := n.nearest_toBinary64
  cases n with
  | whole n h => exact ⟨fun _ => ⟨n, rfl⟩, fun _ => hnear.isWhole⟩
  | float x => exact Binary64.isWhole_iff

theorem lt_wholePart_iff {bound k : ℕ} (h : n.toRat = k) (hbound : bound + 1 < 2 ^ 53) :
    bound < n.toBinary64.wholePart ↔ bound < k := by
  have hnear := n.nearest_toBinary64
  rw [h] at hnear
  have hpart := Binary64.wholePart_eq (isWhole_toBinary64.2 ⟨k, by exact_mod_cast h⟩)
  rw [← Binary64.abs_toRat] at hpart
  have hnonneg : 0 ≤ n.toBinary64.toRat := by
    obtain ⟨y, hy⟩ := Binary64.exists_toRat_eq (n := 0) (by decide)
    rw [Int.cast_zero] at hy
    exact hy.symm.trans_le (hnear.le_toRat (by rw [hy]; positivity))
  rw [abs_of_nonneg hnonneg] at hpart
  constructor
  · intro hlt
    by_contra hle
    obtain ⟨y, hy⟩ := Binary64.exists_toRat_eq (n := bound) (by omega)
    have hcross := hnear.toRat_le (y := y) (by rw [hy]; exact_mod_cast not_lt.1 hle)
    rw [hy, ← hpart] at hcross
    exact absurd hlt (not_lt.2 (by exact_mod_cast hcross))
  · intro hlt
    obtain ⟨y, hy⟩ := Binary64.exists_toRat_eq (n := bound + 1) (by omega)
    have hcross := hnear.le_toRat (y := y) (by rw [hy]; exact_mod_cast hlt)
    rw [hy, ← hpart] at hcross
    exact_mod_cast hcross

theorem wholePart_eq {k : ℕ} (h : n.toRat = k) (hk : k < 2 ^ 53) : n.toBinary64.wholePart = k := by
  have hnear := n.nearest_toBinary64
  obtain ⟨y, hy⟩ := Binary64.exists_toRat_eq (n := k) (by omega)
  have hexact : n.toBinary64.toRat = n.toRat := hnear.toRat_eq (hy.trans (by rw [h, Int.cast_natCast]))
  have hpart := Binary64.wholePart_eq (isWhole_toBinary64.2 ⟨k, by exact_mod_cast h⟩)
  rw [← Binary64.abs_toRat, hexact, h, Nat.abs_cast] at hpart
  exact_mod_cast hpart

theorem toRat_ofNat {k : ℕ} (h : k < 2 ^ 64) : (ofNat k).toRat = k := by
  rw [ofNat, toRat, Nat.mod_eq_of_lt h, Int.cast_natCast]

end Number

/-! ## Loop variables -/

namespace LoopVars

/-- The variables of the instance with number `i` of a counted step. -/
structure IsCounted (vars : LoopVars) (i : ℕ) : Prop where
  index : vars.index = some i
  countIndex : ∃ n, vars.get? .countIndex = some (.number n) ∧ n.toRat = i
  eachKey : vars.get? .eachKey = .none
  eachValue : vars.get? .eachValue = .none

/-- The variables of the instance with number `i` for one entry of a collection. -/
structure IsEntry (vars : LoopVars) (i : ℕ) (key value : Value) : Prop where
  index : vars.index = some i
  countIndex : vars.get? .countIndex = .none
  eachKey : vars.get? .eachKey = some key
  eachValue : vars.get? .eachValue = some value

theorem isCounted_iff {vars : LoopVars} {i : ℕ} (hi : i < 2 ^ 64) :
    vars.IsCounted i ↔ vars = .count i := by
  constructor
  · intro h
    obtain ⟨index, key, value⟩ := vars
    obtain rfl : index = some i := h.index
    obtain rfl : key = .none := h.eachKey
    obtain rfl : value = .none := h.eachValue
    rfl
  · rintro rfl
    exact ⟨rfl, ⟨Number.ofNat i, rfl, Number.toRat_ofNat hi⟩, rfl, rfl⟩

/-- One instance for each number below `k`, in order. -/
structure Counted (loops : List LoopVars) (k : ℕ) : Prop where
  length : loops.length = k
  vars : ∀ i (h : i < loops.length), loops[i].IsCounted i

theorem counted_iff {loops : List LoopVars} {k : ℕ} (hk : k < 2 ^ 64) :
    Counted loops k ↔ loops = (List.range k).map count := by
  constructor
  · intro h
    refine List.ext_getElem (by simp [h.length]) fun i hi _ => ?_
    rw [(isCounted_iff (by have := h.length; omega)).1 (h.vars i hi), List.getElem_map,
      List.getElem_range]
  · rintro rfl
    refine ⟨by simp, fun i hi => (isCounted_iff ?_).2 (by simp)⟩
    rw [List.length_map, List.length_range] at hi
    omega

end LoopVars

namespace Replication
open LoopVars
variable {step : String} {v : Value} {loops : List LoopVars}

theorem length_eachFrom (start : ℕ) (entries : List (Value × Value)) :
    (eachFrom start entries).length = entries.length := by
  induction entries generalizing start with
  | nil => rfl
  | cons e rest ih => rw [eachFrom, List.length_cons, ih, List.length_cons]

theorem getElem_eachFrom {start : ℕ} {entries : List (Value × Value)} {i : ℕ}
    (h : i < (eachFrom start entries).length) (h' : i < entries.length) :
    (eachFrom start entries)[i] = .each (start + i) entries[i].1 entries[i].2 := by
  induction entries generalizing start i with
  | nil => cases h'
  | cons e rest ih =>
    cases i with
    | zero => rfl
    | succ i =>
      have hnext : start + 1 + i = start + (i + 1) := by omega
      simp only [eachFrom, List.getElem_cons_succ]
      rw [ih _ (Nat.lt_of_succ_lt_succ h'), hnext]

theorem isEntry_eachFrom {entries : List (Value × Value)} {i : ℕ}
    (h : i < (eachFrom 0 entries).length) (h' : i < entries.length) :
    (eachFrom 0 entries)[i].IsEntry i entries[i].1 entries[i].2 := by
  rw [getElem_eachFrom h h', Nat.zero_add]
  exact ⟨rfl, rfl, rfl, rfl⟩

/-! ## Counts -/

/-- Why a value is no count. The number that is shown is the nearest floating-point number. -/
inductive CountFault (step : String) : Value → CountError → Prop where
  | notANumber {v : Value} (h : ∀ n, v ≠ .number n) : CountFault step v (.notANumber step v.typeName)
  | negative {n : Number} (h : n.toRat < 0) : CountFault step (.number n) (.negative step)
  | fractional {n : Number} (h0 : 0 ≤ n.toRat) (h : ∀ k : ℤ, n.toRat ≠ k) :
    CountFault step (.number n) (.fractional step n.toBinary64)
  | tooLarge {n : Number} {k : ℕ} (h : n.toRat = k) (hk : maxInstances < k) :
    CountFault step (.number n) (.tooLarge step n.toBinary64 maxInstances)

theorem countInstances_number (step : String) (n : Number) : countInstances step (.number n) =
    if n.toBinary64.isBelowZero then .error (.negative step)
    else if !n.toBinary64.isWhole then .error (.fractional step n.toBinary64)
    else if maxInstances < n.toBinary64.wholePart then
      .error (.tooLarge step n.toBinary64 maxInstances)
    else .ok ((List.range n.toBinary64.wholePart).map LoopVars.count) := rfl

theorem countInstances_of_negative {n : Number} (h : n.toRat < 0) :
    countInstances step (.number n) = .error (.negative step) := by
  rw [countInstances_number, if_pos (Number.isBelowZero_toBinary64.2 h)]

theorem countInstances_of_fraction {n : Number} (h0 : 0 ≤ n.toRat) (h : ∀ k : ℤ, n.toRat ≠ k) :
    countInstances step (.number n) = .error (.fractional step n.toBinary64) := by
  have hbelow : ¬n.toBinary64.isBelowZero = true := fun hc =>
    not_lt.2 h0 (Number.isBelowZero_toBinary64.1 hc)
  have hwhole : n.toBinary64.isWhole = false := by
    rw [← Bool.not_eq_true, Number.isWhole_toBinary64]
    exact fun ⟨k, hk⟩ => h k hk
  rw [countInstances_number, if_neg hbelow, if_pos (by rw [hwhole]; rfl)]

theorem countInstances_of_natCast {n : Number} {k : ℕ} (h : n.toRat = k) :
    countInstances step (.number n) =
      if maxInstances < k then .error (.tooLarge step n.toBinary64 maxInstances)
      else .ok ((List.range k).map LoopVars.count) := by
  have hbelow : ¬n.toBinary64.isBelowZero = true := fun hc => by
    rw [Number.isBelowZero_toBinary64, h] at hc
    exact not_lt.2 (Nat.cast_nonneg k) hc
  have hwhole : n.toBinary64.isWhole = true := Number.isWhole_toBinary64.2 ⟨k, by exact_mod_cast h⟩
  have hlimit : maxInstances < n.toBinary64.wholePart ↔ maxInstances < k :=
    Number.lt_wholePart_iff h (by decide)
  rw [countInstances_number, if_neg hbelow, if_neg (by rw [hwhole]; decide)]
  by_cases hk : maxInstances < k
  · rw [if_pos hk, if_pos (hlimit.2 hk)]
  · have hsmall : k < 2 ^ 53 := (not_lt.1 hk).trans_lt (by decide)
    rw [if_neg hk, if_neg fun hc => hk (hlimit.1 hc), Number.wholePart_eq h hsmall]

theorem number_cases (n : Number) :
    n.toRat < 0 ∨ (0 ≤ n.toRat ∧ ∀ k : ℤ, n.toRat ≠ k) ∨ ∃ k : ℕ, n.toRat = k := by
  rcases lt_or_ge n.toRat 0 with hneg | hnonneg
  · exact .inl hneg
  · by_cases hwhole : ∃ k : ℤ, n.toRat = k
    · obtain ⟨z, hz⟩ := hwhole
      rw [hz] at hnonneg
      obtain ⟨k, rfl⟩ := Int.eq_ofNat_of_zero_le (by exact_mod_cast hnonneg : 0 ≤ z)
      exact .inr (.inr ⟨k, by rw [hz, Int.cast_natCast]⟩)
    · exact .inr (.inl ⟨hnonneg, fun k hk => hwhole ⟨k, hk⟩⟩)

theorem countInstances_eq_ok : countInstances step v = .ok loops ↔
    ∃ (n : Number) (k : ℕ), v = .number n ∧ n.toRat = k ∧ k ≤ maxInstances ∧ Counted loops k := by
  have hmax : maxInstances < 2 ^ 64 := by decide
  constructor
  · intro h
    cases v with
    | number n =>
      rcases number_cases n with hneg | ⟨h0, hfrac⟩ | ⟨k, hk⟩
      · rw [countInstances_of_negative hneg] at h
        cases h
      · rw [countInstances_of_fraction h0 hfrac] at h
        cases h
      · rw [countInstances_of_natCast hk] at h
        split at h
        next => cases h
        next hle =>
          cases h
          exact ⟨n, k, rfl, hk, not_lt.1 hle, (counted_iff (by omega)).2 rfl⟩
    | _ => cases h
  · rintro ⟨n, k, rfl, hn, hk, hloops⟩
    rw [countInstances_of_natCast hn, if_neg (not_lt.2 hk), (counted_iff (by omega)).1 hloops]

theorem countInstances_eq_error {err : CountError} :
    countInstances step v = .error err ↔ CountFault step v err := by
  constructor
  · intro h
    cases v with
    | number n =>
      rcases number_cases n with hneg | ⟨h0, hfrac⟩ | ⟨k, hk⟩
      · rw [countInstances_of_negative hneg] at h
        cases h
        exact .negative hneg
      · rw [countInstances_of_fraction h0 hfrac] at h
        cases h
        exact .fractional h0 hfrac
      · rw [countInstances_of_natCast hk] at h
        split at h
        next hlt =>
          cases h
          exact .tooLarge hk hlt
        next => cases h
    | _ =>
      cases h
      exact .notANumber (by simp)
  · intro h
    cases h with
    | notANumber h =>
      cases v with
      | number n => exact absurd rfl (h n)
      | _ => rfl
    | negative h => exact countInstances_of_negative h
    | fractional h0 h => exact countInstances_of_fraction h0 h
    | tooLarge h hk => rw [countInstances_of_natCast h, if_pos hk]

/-! ## Collections -/

/-- The entries of a map, each of them once, in ascending byte order of their keys. -/
structure Arranged (sorted entries : List (String × Value)) : Prop where
  perm : sorted.Perm entries
  ascending : sorted.Pairwise fun a b => Text.bytes a.1 ≤ Text.bytes b.1

theorem arranged_mergeSort (entries : List (String × Value)) :
    Arranged (entries.mergeSort fun a b => a.1 ≤ b.1) entries := by
  refine ⟨List.mergeSort_perm _ _, ?_⟩
  have htrans : ∀ a b c : String × Value, decide (a.1 ≤ b.1) = true → decide (b.1 ≤ c.1) = true →
      decide (a.1 ≤ c.1) = true := fun a b c hab hbc =>
    decide_eq_true (String.le_trans (of_decide_eq_true hab) (of_decide_eq_true hbc))
  have htotal : ∀ a b : String × Value, (decide (a.1 ≤ b.1) || decide (b.1 ≤ a.1)) = true :=
    fun a b => by simpa using String.le_total a.1 b.1
  have hsorted := List.pairwise_mergeSort htrans htotal entries
  exact hsorted.imp fun h => Text.le_iff_bytes_le.1 (of_decide_eq_true h)

theorem isEntry_of_list {items : List Value} {i : ℕ} (h : i < (eachFrom 0 (indexed items)).length)
    (h' : i < items.length) :
    (eachFrom 0 (indexed items))[i].IsEntry i (Value.ofNat i) items[i] := by
  have hentry := isEntry_eachFrom h (by simpa [indexed] using h')
  simpa only [indexed, List.getElem_map, List.getElem_zipIdx, Nat.zero_add] using hentry

theorem isEntry_of_map {entries : List (String × Value)} {i : ℕ}
    (h : i < (eachFrom 0 (sortedEntries entries)).length)
    (h' : i < (entries.mergeSort fun a b => a.1 ≤ b.1).length) :
    (eachFrom 0 (sortedEntries entries))[i].IsEntry i
      (.string (entries.mergeSort fun a b => a.1 ≤ b.1)[i].1)
      (entries.mergeSort fun a b => a.1 ≤ b.1)[i].2 := by
  have hentry := isEntry_eachFrom h (by simpa [sortedEntries] using h')
  simpa only [sortedEntries, List.getElem_map] using hentry

theorem forEachInstances_eq_error {err : CountError} : forEachInstances step v = .error err ↔
    ((∀ l, v ≠ .list l) ∧ ∀ l, v ≠ .map l) ∧ err = .notACollection step v.typeName := by
  cases v with
  | list l => simp [forEachInstances]
  | map l => simp [forEachInstances]
  | _ => simp [forEachInstances, eq_comm]

/-! ## What values give -/

/-- What a value gives as a count and as a collection. -/
structure Expands (step : String) (v : Value) : Prop where
  count : ∀ e loops, (Replication.count e).expand step v = .ok loops ↔ ∃ (n : Number) (k : ℕ),
    v = .number n ∧ n.toRat = k ∧ k ≤ maxInstances ∧ Counted loops k
  countFault : ∀ e err, (Replication.count e).expand step v = .error err ↔ CountFault step v err
  /-- A list gives its items under their positions. -/
  items : ∀ e l, v = .list l → ∃ loops, (Replication.forEach e).expand step v = .ok loops ∧
    loops.length = l.length ∧ ∀ i (h : i < loops.length) (h' : i < l.length),
      loops[i].IsEntry i (Value.ofNat i) l[i]
  /-- A map gives its values under their keys. -/
  entries : ∀ e l, v = .map l → ∃ loops sorted, (Replication.forEach e).expand step v = .ok loops ∧
    Arranged sorted l ∧ loops.length = l.length ∧ ∀ i (h : i < loops.length) (h' : i < sorted.length),
      loops[i].IsEntry i (.string sorted[i].1) sorted[i].2
  forEachFault : ∀ e err, (Replication.forEach e).expand step v = .error err ↔
    ((∀ l, v ≠ .list l) ∧ ∀ l, v ≠ .map l) ∧ err = .notACollection step v.typeName

/-- A count is a whole number from zero to the limit, and a collection is a list or a map. Every other
value is refused with the fault that describes it. -/
theorem expands_exactly (step : String) (v : Value) : Expands step v where
  count _ _ := countInstances_eq_ok
  countFault _ _ := countInstances_eq_error
  items := by
    rintro _ l rfl
    exact ⟨_, rfl, by simp [length_eachFrom, indexed], fun i h h' => isEntry_of_list h h'⟩
  entries := by
    rintro _ l rfl
    exact ⟨_, _, rfl, arranged_mergeSort l, by simp [length_eachFrom, sortedEntries],
      fun i h h' => isEntry_of_map h h'⟩
  forEachFault _ _ := forEachInstances_eq_error

end Replication

end Workplan
