import Workplan.Proofs.Number.Numeral
import Workplan.Value.Kind

/-! Coercion: what the conversion of a value to a declared kind keeps of it.

A value can hold a whole number as such, as a floating-point number or as a text. The conversion to an
integer finds it in each of these forms and finds nothing else; only the floating-point number `-2 ^ 63`,
whose magnitude is out of reach, is refused (`ValueKind.coerce_integer_eq_some_iff`). The conversion to a
number takes a text to the nearest floating-point number, so it is exact on the numbers of the format
only (`ValueKind.coerce_of_holds`). Whatever a conversion answers is of the kind, and converting it again
leaves it alone (`ValueKind.converts_of_coerce`). -/
namespace Workplan
set_option autoImplicit false

/-! ## Whole numbers in values -/

namespace Value

/-- A value holds a whole number: as a number of that value, or as a string that writes it. -/
inductive Holds : Value → ℤ → Prop where
  | whole {n : ℤ} (h : -2 ^ 63 ≤ n ∧ n < 2 ^ 64) : Holds (.number (.whole n h)) n
  | float {x : Binary64} {n : ℤ} (h : x.toRat = n) : Holds (.number (.float x)) n
  | text {s : String} {n : ℤ} (h : Text.Spells s n) : Holds (.string s) n

theorem Holds.eq {v : Value} {n m : ℤ} (hn : v.Holds n) (hm : v.Holds m) : n = m := by
  cases hn with
  | whole =>
    cases hm
    rfl
  | float h =>
    cases hm with
    | float h' => exact_mod_cast h.symm.trans h'
  | text h =>
    cases hm with
    | text h' => exact (Text.spells_iff.1 h).eq (Text.spells_iff.1 h')

/-- A whole number of the signed 64-bit range as a value. -/
def integer (n : ℤ) (h : -2 ^ 63 ≤ n ∧ n < 2 ^ 63) : Value := .number (.whole n ⟨h.1, by omega⟩)

/-- The one form that is not converted to an integer: a floating-point number at the lower end. -/
def IsLowestFloat (v : Value) : Prop := ∃ x : Binary64, v = .number (.float x) ∧ x.toRat = -2 ^ 63

theorem not_isLowestFloat {v : Value} (h : ∀ x, v ≠ .number (.float x)) : ¬v.IsLowestFloat := by
  rintro ⟨x, hx, -⟩
  exact h x hx

end Value

namespace ValueKind

/-! ## Integers -/

theorem wholeOfFloat?_eq_some_iff {x : Binary64} {n : ℤ} :
    wholeOfFloat? x = some n ↔ x.toRat = n ∧ -2 ^ 63 < n ∧ n < 2 ^ 63 := by
  have hsize : ∀ {n : ℤ}, x.toRat = n → x.wholePart = n.natAbs := fun {n} hn => by
    have hpart := Binary64.wholePart_eq (Binary64.isWhole_iff.2 ⟨n, hn⟩)
    rw [← Binary64.abs_toRat, hn, ← Int.cast_abs, ← Nat.cast_natAbs] at hpart
    exact_mod_cast hpart
  rw [wholeOfFloat?, Option.ite_none_right_eq_some, Bool.and_eq_true, decide_eq_true_eq,
    Option.some.injEq]
  constructor
  · rintro ⟨⟨hwhole, hlt⟩, rfl⟩
    have hn := (Binary64.truncate_eq hwhole).symm
    rw [hsize hn] at hlt
    exact ⟨hn, by omega, by omega⟩
  · rintro ⟨hn, hlow, hhigh⟩
    have hwhole := Binary64.isWhole_iff.2 ⟨n, hn⟩
    refine ⟨⟨hwhole, by rw [hsize hn]; omega⟩, ?_⟩
    exact_mod_cast (Binary64.truncate_eq hwhole).trans hn

theorem wholeOfFloat?_of_le {n : ℤ} {h : -2 ^ 63 ≤ n ∧ n < 2 ^ 64} (hn : 2 ^ 63 ≤ n) :
    wholeOfFloat? (Number.whole n h).toBinary64 = none := by
  obtain ⟨y, hneg, hmag⟩ := Binary64.exists_magnitude_eq false (m := 1) (e := 63) (by decide)
    (by decide) (by decide)
  have hy : y.toRat = 2 ^ 63 := by
    rw [Binary64.toRat, hneg, if_neg (by decide), hmag, Nat.cast_one, one_mul]
    norm_cast
  have hle : y.toRat ≤ (Number.whole n h).toBinary64.toRat :=
    (Number.nearest_toBinary64 _).le_toRat (by rw [hy, Number.toRat]; exact_mod_cast hn)
  rw [Option.eq_none_iff_forall_ne_some]
  intro i hi
  obtain ⟨hx, -, hhigh⟩ := wholeOfFloat?_eq_some_iff.1 hi
  rw [hx, hy] at hle
  exact absurd hhigh (not_lt.2 (by exact_mod_cast hle))

theorem integerOfNumber?_whole {n i : ℤ} {h : -2 ^ 63 ≤ n ∧ n < 2 ^ 64} :
    integerOfNumber? (.whole n h) = some i ↔ i = n ∧ n < 2 ^ 63 := by
  rw [integerOfNumber?, Number.toInt64?]
  by_cases hn : n < 2 ^ 63
  · rw [if_pos hn]
    exact ⟨fun h => ⟨(Option.some.inj h).symm, hn⟩, fun h => congrArg some h.1.symm⟩
  · rw [if_neg hn]
    dsimp only
    rw [wholeOfFloat?_of_le (not_lt.1 hn)]
    exact iff_of_false (fun h => by cases h) fun h => hn h.2

theorem integerValue?_eq {n : ℤ} (h : -2 ^ 63 ≤ n ∧ n < 2 ^ 63) :
    integerValue? n = some (Value.integer n h) := by
  rw [integerValue?, Number.ofInt?, dif_pos ⟨h.1, by omega⟩]
  rfl

theorem bind_integerValue?_eq_some_iff {o : Option ℤ} {w : Value}
    (ho : ∀ n, o = some n → -2 ^ 63 ≤ n ∧ n < 2 ^ 63) :
    o.bind integerValue? = some w ↔ ∃ n h, o = some n ∧ w = Value.integer n h := by
  rw [Option.bind_eq_some_iff]
  constructor
  · rintro ⟨n, hn, h⟩
    rw [integerValue?_eq (ho n hn)] at h
    cases h
    exact ⟨n, ho n hn, hn, rfl⟩
  · rintro ⟨n, h, hn, rfl⟩
    exact ⟨n, hn, integerValue?_eq h⟩

theorem bounds_of_integerOfNumber? {m : Number} {n : ℤ} (h : integerOfNumber? m = some n) :
    -2 ^ 63 ≤ n ∧ n < 2 ^ 63 := by
  cases m with
  | whole k hk =>
    obtain ⟨rfl, hlt⟩ := integerOfNumber?_whole.1 h
    exact ⟨hk.1, hlt⟩
  | float x =>
    obtain ⟨-, hlow, hhigh⟩ := wholeOfFloat?_eq_some_iff.1 h
    exact ⟨hlow.le, hhigh⟩

theorem integerOfNumber?_eq_some_iff {m : Number} {n : ℤ} (h : -2 ^ 63 ≤ n ∧ n < 2 ^ 63) :
    integerOfNumber? m = some n ↔ (Value.number m).Holds n ∧ ¬(Value.number m).IsLowestFloat := by
  cases m with
  | whole k hk =>
    rw [integerOfNumber?_whole]
    constructor
    · rintro ⟨rfl, -⟩
      exact ⟨.whole hk, Value.not_isLowestFloat (by simp)⟩
    · rintro ⟨hv, -⟩
      cases hv
      exact ⟨rfl, h.2⟩
  | float x =>
    have hread : integerOfNumber? (.float x) = wholeOfFloat? x := rfl
    rw [hread, wholeOfFloat?_eq_some_iff]
    constructor
    · rintro ⟨hx, hlow, -⟩
      refine ⟨.float hx, ?_⟩
      rintro ⟨y, hy, hlowest⟩
      cases hy
      rw [hx] at hlowest
      exact absurd hlow (not_lt.2 (by exact_mod_cast hlowest.le))
    · rintro ⟨hv, hlowest⟩
      cases hv with
      | float hx =>
        refine ⟨hx, lt_of_le_of_ne h.1 fun he => hlowest ⟨x, rfl, ?_⟩, h.2⟩
        rw [hx, ← he]
        norm_num

theorem readInt64?_trimmed_eq_some_iff {s : String} {n : ℤ} (h : -2 ^ 63 ≤ n ∧ n < 2 ^ 63) :
    readInt64? 10 (trimmed s) = some n ↔
      (Value.string s).Holds n ∧ ¬(Value.string s).IsLowestFloat := by
  rw [readInt64?_eq_some_iff, and_iff_left h, and_iff_left (Value.not_isLowestFloat (by simp))]
  constructor
  · exact fun hnum => .text (Text.spells_iff.2 hnum)
  · intro hv
    cases hv with
    | text hs => exact Text.spells_iff.1 hs

theorem coerce_integer_eq_some_iff {v w : Value} : integer.coerce v = some w ↔
    ∃ n h, w = Value.integer n h ∧ v.Holds n ∧ ¬v.IsLowestFloat := by
  cases v with
  | number m =>
    rw [coerce, bind_integerValue?_eq_some_iff fun n hn => bounds_of_integerOfNumber? hn]
    refine exists_congr fun n => exists_congr fun h => ?_
    rw [and_comm, integerOfNumber?_eq_some_iff h]
  | string s =>
    rw [coerce, bind_integerValue?_eq_some_iff fun n hn => (readInt64?_eq_some_iff.1 hn).2]
    refine exists_congr fun n => exists_congr fun h => ?_
    rw [and_comm, readInt64?_trimmed_eq_some_iff h]
  | _ =>
    refine iff_of_false (fun h => by cases h) ?_
    rintro ⟨_, _, _, hv, -⟩
    cases hv

/-! ## Numbers -/

theorem exists_coerce_number_of_spells {s : String} {n : ℤ} (hn : -2 ^ 63 ≤ n ∧ n < 2 ^ 63)
    (h : Text.Spells s n) :
    ∃ x, number.coerce (.string s) = some (.number (.float x)) ∧ x.Nearest n := by
  obtain ⟨x, hx, hnear⟩ := Binary64.exists_read?_of_numeral (Text.spells_iff.1 h) (by omega)
  have hread : Binary64.read? (trimmed s) = some x := hx
  exact ⟨x, by rw [coerce, hread, Option.map_some], hnear⟩

/-- A whole number of the signed 64-bit range is converted to an integer from all its forms but one, and
to a number from all of them; the number is exact except for a text whose number is not in the
floating-point format. -/
theorem coerce_of_holds {v : Value} {n : ℤ} (hn : -2 ^ 63 ≤ n ∧ n < 2 ^ 63) (h : v.Holds n) :
    (¬v.IsLowestFloat → integer.coerce v = some (Value.integer n hn)) ∧
    (v.IsLowestFloat → integer.coerce v = none) ∧
    ∃ m, number.coerce v = some (.number m) ∧
      ((∀ s, v ≠ .string s) → m.toRat = n) ∧
      ∀ s, v = .string s → (∃ x, m = .float x ∧ x.Nearest n) ∧
        (m.toRat = n ↔ ∃ y : Binary64, y.toRat = n) := by
  refine ⟨fun hv => coerce_integer_eq_some_iff.2 ⟨n, hn, rfl, h, hv⟩, fun hv => ?_, ?_⟩
  · rw [Option.eq_none_iff_forall_ne_some]
    intro w hw
    obtain ⟨_, _, _, _, hnot⟩ := coerce_integer_eq_some_iff.1 hw
    exact hnot hv
  · cases h with
    | whole hk => exact ⟨_, rfl, fun _ => rfl, fun s hs => by cases hs⟩
    | float hx => exact ⟨_, rfl, fun _ => hx, fun s hs => by cases hs⟩
    | text hs =>
      obtain ⟨x, hx, hnear⟩ := exists_coerce_number_of_spells hn hs
      exact ⟨_, hx, fun hne => absurd rfl (hne _), fun _ _ => ⟨⟨x, rfl, hnear⟩, hnear.toRat_eq_iff⟩⟩

/-- The text of a number between two of the floating-point format. -/
def betweenFloats : Value := .string " +9007199254740993"

/-- The floating-point number at the lower end of the integers. -/
def lowestFloat : Value := .number (.float ⟨true, 2 ^ 52, 11, by decide⟩)

/-- The text is that integer, but as a number it is rounded; the floating-point number is no integer. -/
theorem coerce_betweenFloats :
    (betweenFloats.Holds 9007199254740993 ∧
      integer.coerce betweenFloats = some (Value.integer 9007199254740993 (by decide)) ∧
      ∃ m, number.coerce betweenFloats = some (.number m) ∧ m.toRat ≠ (9007199254740993 : ℤ)) ∧
    lowestFloat.Holds (-2 ^ 63) ∧ integer.coerce lowestFloat = none := by
  have htext : betweenFloats.Holds 9007199254740993 :=
    .text ⟨[' '], "+9007199254740993".toList, [], by decide, List.all_eq_true.1 (by decide),
      List.all_eq_true.1 (by decide), .plus ⟨by decide, List.all_eq_true.1 (by decide)⟩⟩
  have hrounded : number.coerce betweenFloats =
      some (.number (.float ⟨false, 2 ^ 52, 1, by decide⟩)) := by
    decide +kernel
  have hlowest : lowestFloat.IsLowestFloat :=
    ⟨_, rfl, by norm_num [Binary64.toRat, Binary64.magnitude]⟩
  have hfloat : lowestFloat.Holds (-2 ^ 63) :=
    .float (by norm_num [Binary64.toRat, Binary64.magnitude])
  obtain ⟨hinteger, -, m, hm, -, -⟩ := coerce_of_holds (by decide) htext
  have hnot : ¬betweenFloats.IsLowestFloat := Value.not_isLowestFloat (by simp [betweenFloats])
  refine ⟨⟨htext, hinteger hnot, m, hm, ?_⟩, hfloat,
    (coerce_of_holds (by decide) hfloat).2.1 hlowest⟩
  cases hrounded.symm.trans hm
  norm_num [Number.toRat, Binary64.toRat, Binary64.magnitude]

end ValueKind

/-! ## Converted values -/

/-- A value is of a declared kind. -/
inductive ValueKind.Admits : ValueKind → Value → Prop where
  | any (v : Value) : Admits .any v
  | string (s : String) : Admits .string (.string s)
  | number (n : Number) : Admits .number (.number n)
  | integer {i : Int} (h : -2 ^ 63 ≤ i ∧ i < 2 ^ 64) (hi : i < 2 ^ 63) :
    Admits .integer (.number (.whole i h))
  | bool (b : Bool) : Admits .bool (.bool b)
  | list (items : List Value) : Admits .list (.list items)
  | map (entries : List (String × Value)) : Admits .map (.map entries)

namespace ValueKind

theorem admits_of_coerce {kind : ValueKind} {v w : Value} (h : kind.coerce v = some w) :
    kind.Admits w := by
  cases kind with
  | any =>
    cases h
    exact .any _
  | string => cases v <;> cases h <;> exact .string _
  | number =>
    cases v with
    | number n =>
      cases h
      exact .number _
    | string s =>
      obtain ⟨x, -, rfl⟩ := Option.map_eq_some_iff.1 h
      exact .number _
    | _ => cases h
  | integer =>
    obtain ⟨n, hn, rfl, -, -⟩ := coerce_integer_eq_some_iff.1 h
    exact .integer _ hn.2
  | bool =>
    cases v with
    | bool b =>
      cases h
      exact .bool _
    | string s =>
      rw [coerce] at h
      split at h
      next =>
        cases h
        exact .bool _
      next =>
        split at h
        next =>
          cases h
          exact .bool _
        next => cases h
    | _ => cases h
  | list => cases v <;> cases h; exact .list _
  | map => cases v <;> cases h; exact .map _

theorem coerce_of_admits {kind : ValueKind} {v : Value} (h : kind.Admits v) :
    kind.coerce v = some v := by
  cases h with
  | integer h hi =>
    exact coerce_integer_eq_some_iff.2
      ⟨_, ⟨h.1, hi⟩, rfl, .whole h, Value.not_isLowestFloat (by simp)⟩
  | any => rfl
  | string => rfl
  | number => rfl
  | bool => rfl
  | list => rfl
  | map => rfl

/-- What a conversion has answered: a value of the kind, which is converted to itself. -/
structure Converts (kind : ValueKind) (v w : Value) : Prop where
  admits : kind.Admits w
  coerce_self : kind.coerce w = some w
  /-- An integer is the whole number that the value holds, and it holds no other. -/
  exact : kind = .integer → ∃ n h, w = Value.integer n h ∧ v.Holds n ∧ ∀ m, v.Holds m → m = n

theorem converts_of_coerce {kind : ValueKind} {v w : Value} (h : kind.coerce v = some w) :
    kind.Converts v w where
  admits := admits_of_coerce h
  coerce_self := coerce_of_admits (admits_of_coerce h)
  exact := by
    rintro rfl
    obtain ⟨n, hn, hw, hv, -⟩ := coerce_integer_eq_some_iff.1 h
    exact ⟨n, hn, hw, hv, fun m hm => hm.eq hv⟩

end ValueKind

end Workplan
