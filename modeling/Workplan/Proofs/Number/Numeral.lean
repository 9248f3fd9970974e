import Workplan.Proofs.Blanks
import Workplan.Proofs.Digits
import Workplan.Proofs.Number.Rounding

/-! Numerals: the texts that write a whole number, with an optional sign before the digits and blanks
around them. Whole numbers are read from exactly these texts (`readInt64?_eq_some_iff`); floating-point
numbers are read from them too, rounded (`exists_read?_of_numeral`). -/
namespace Workplan
set_option autoImplicit false

/-! ## Digits -/

/-- Decimal digits, at least one. -/
structure IsDigits (cs : List Char) : Prop where
  ne_nil : cs ≠ []
  isDigit : ∀ c ∈ cs, c.isDigit = true

theorem isDigit_of_digitValue? {c : Char} {d : ℕ} (h : digitValue? 10 c = some d) :
    c.isDigit = true := by
  by_cases hrange : '0' ≤ c ∧ c ≤ '9'
  · exact Char.isDigit_iff_toNat.2 hrange
  · -- a letter counts ten or more
    dsimp only [digitValue?] at h
    rw [if_neg hrange, Option.ite_none_right_eq_some] at h
    obtain ⟨hv, -⟩ := h
    split at hv
    next => omega
    next =>
      split at hv
      next => omega
      next => omega

theorem isDigit_of_readDigitsFrom? {start n : ℕ} {cs : List Char}
    (h : readDigitsFrom? 10 start cs = some n) : ∀ c ∈ cs, c.isDigit = true := by
  induction cs generalizing start with
  | nil => simp
  | cons c cs ih =>
    obtain ⟨d, hd, hrest⟩ := Option.bind_eq_some_iff.1 h
    exact List.forall_mem_cons.2 ⟨isDigit_of_digitValue? hd, ih hrest⟩

theorem readDigits?_eq_some_iff {cs : List Char} {n : ℕ} :
    readDigits? 10 cs = some n ↔ IsDigits cs ∧ Nat.ofDigitChars 10 cs 0 = n := by
  unfold readDigits?
  by_cases hnil : cs = []
  · rw [hnil]
    refine ⟨fun h => ?_, fun h => absurd rfl h.1.ne_nil⟩
    cases h
  · rw [if_neg (by simpa using hnil)]
    constructor
    · intro h
      have hdigits := isDigit_of_readDigitsFrom? h
      rw [readDigitsFrom?_of_isDigit hdigits] at h
      exact ⟨⟨hnil, hdigits⟩, Option.some.inj h⟩
    · rintro ⟨hdigits, rfl⟩
      exact readDigitsFrom?_of_isDigit hdigits.isDigit 0

/-! ## Signs -/

/-- The characters of a numeral, and the whole number that it writes. -/
inductive Numeral : List Char → ℤ → Prop where
  | plain {cs : List Char} (h : IsDigits cs) : Numeral cs (Nat.ofDigitChars 10 cs 0)
  | plus {cs : List Char} (h : IsDigits cs) : Numeral ('+' :: cs) (Nat.ofDigitChars 10 cs 0)
  | minus {cs : List Char} (h : IsDigits cs) : Numeral ('-' :: cs) (-(Nat.ofDigitChars 10 cs 0 : ℤ))

theorem IsDigits.ne_cons {cs rest : List Char} {sign : Char} (h : IsDigits cs)
    (hsign : sign.isDigit = false) : cs ≠ sign :: rest := by
  rintro rfl
  rw [h.isDigit sign List.mem_cons_self] at hsign
  cases hsign

theorem readNatBelow?_eq_some_iff {bound n : ℕ} {cs : List Char} :
    readNatBelow? 10 bound cs = some n ↔
      n < bound ∧ (IsDigits cs ∧ Nat.ofDigitChars 10 cs 0 = n ∨
        ∃ rest, cs = '+' :: rest ∧ IsDigits rest ∧ Nat.ofDigitChars 10 rest 0 = n) := by
  unfold readNatBelow?
  split
  next rest =>
    dsimp only
    rw [Option.filter_eq_some_iff, readDigits?_eq_some_iff, decide_eq_true_eq, and_comm]
    refine and_congr_right fun _ => ⟨fun h => .inr ⟨rest, rfl, h⟩, ?_⟩
    rintro (⟨h, -⟩ | ⟨rest', he, h⟩)
    · exact absurd rfl (h.ne_cons (by decide))
    · cases he
      exact h
  next hplus =>
    dsimp only
    rw [Option.filter_eq_some_iff, readDigits?_eq_some_iff, decide_eq_true_eq, and_comm]
    refine and_congr_right fun _ => ⟨.inl, ?_⟩
    rintro (h | ⟨rest, he, -⟩)
    · exact h
    · exact absurd he (hplus rest)

theorem cast_eq_some_iff {o : Option ℕ} {n : ℤ} :
    (do let a ← o; pure (a : ℤ)) = some n ↔ ∃ m : ℕ, o = some m ∧ (m : ℤ) = n := by
  cases o <;> simp

/-- The whole numbers of the signed 64-bit range are read from their numerals and from nothing else. -/
theorem readInt64?_eq_some_iff {cs : List Char} {n : ℤ} :
    readInt64? 10 cs = some n ↔ Numeral cs n ∧ -2 ^ 63 ≤ n ∧ n < 2 ^ 63 := by
  unfold readInt64?
  split
  next rest =>
    simp only [Option.map_eq_some_iff, cast_eq_some_iff, Option.filter_eq_some_iff,
      readDigits?_eq_some_iff, decide_eq_true_eq]
    constructor
    · rintro ⟨_, ⟨m, ⟨⟨hdigits, rfl⟩, hle⟩, rfl⟩, rfl⟩
      exact ⟨.minus hdigits, by omega, by omega⟩
    · rintro ⟨hnum, hlow, hhigh⟩
      cases hnum with
      | plain h => exact absurd rfl (h.ne_cons (by decide))
      | minus h => exact ⟨_, ⟨_, ⟨⟨h, rfl⟩, by omega⟩, rfl⟩, rfl⟩
  next hminus =>
    simp only [Option.map_eq_some_iff, cast_eq_some_iff, readNatBelow?_eq_some_iff]
    constructor
    · rintro ⟨_, ⟨m, ⟨hlt, ⟨hdigits, rfl⟩ | ⟨rest, rfl, hdigits, rfl⟩⟩, rfl⟩, rfl⟩
      · exact ⟨.plain hdigits, by omega, by omega⟩
      · exact ⟨.plus hdigits, by omega, by omega⟩
    · rintro ⟨hnum, hlow, hhigh⟩
      cases hnum with
      | plain h => exact ⟨_, ⟨_, ⟨by omega, .inl ⟨h, rfl⟩⟩, rfl⟩, rfl⟩
      | plus h => exact ⟨_, ⟨_, ⟨by omega, .inr ⟨_, rfl, h, rfl⟩⟩, rfl⟩, rfl⟩
      | minus h => exact absurd rfl (hminus _)

/-! ## Floating-point numbers -/

namespace Decimal

theorem spanDigits_of_isDigits {cs : List Char} (h : IsDigits cs) : spanDigits cs = (cs, []) := by
  rw [spanDigits, List.span_eq_takeWhile_dropWhile, List.takeWhile_eq_self_iff.2 h.isDigit,
    List.dropWhile_eq_nil_iff.2 h.isDigit]

theorem readUnsigned?_of_isDigits (negative : Bool) {cs : List Char} (h : IsDigits cs) :
    readUnsigned? negative cs = some ⟨negative, Nat.ofDigitChars 10 cs 0, 0⟩ := by
  have hread := readDigits?_eq_some_iff.2 ⟨h, rfl⟩
  simp only [readUnsigned?, spanDigits_of_isDigits h, List.append_nil, hread, readExponent?]
  rfl

theorem exists_read?_of_numeral {cs : List Char} {n : ℤ} (h : Numeral cs n) :
    ∃ negative, read? cs = some ⟨negative, n.natAbs, 0⟩ ∧
      (if negative then -(n.natAbs : ℚ) else n.natAbs) = n := by
  cases h with
  | plain h =>
    refine ⟨false, ?_, by simp⟩
    rw [Int.natAbs_natCast, ← readUnsigned?_of_isDigits false h]
    unfold read?
    split
    next => exact absurd rfl (h.ne_cons (by decide))
    next => exact absurd rfl (h.ne_cons (by decide))
    next => rfl
  | plus h => exact ⟨false, readUnsigned?_of_isDigits false h, by simp⟩
  | minus h =>
    refine ⟨true, ?_, by simp⟩
    rw [Int.natAbs_neg, Int.natAbs_natCast]
    exact readUnsigned?_of_isDigits true h

theorem digitCount_le {n : ℕ} (h : n < 2 ^ 64) : digitCount n ≤ 20 := by
  rw [digitCount]
  split
  next => decide
  next => exact (Nat.length_toDigits_le_iff (by decide) (by decide)).2 (h.trans_le (by decide))

end Decimal

theorem Binary64.exists_read?_of_numeral {cs : List Char} {n : ℤ} (h : Numeral cs n)
    (hn : n.natAbs < 2 ^ 64) : ∃ x, Binary64.read? cs = some x ∧ x.Nearest n := by
  obtain ⟨negative, hread, hsign⟩ := Decimal.exists_read?_of_numeral h
  rw [Binary64.read?, hread, Option.bind_some]
  have hpower : power 10 0 = 1 := rfl
  unfold Decimal.toBinary64?
  dsimp only
  split
  next hzero =>
    have hcount := Decimal.digitCount_le hn
    have h0 : n = 0 := by omega
    refine ⟨_, rfl, Nearest.of_toRat_eq ?_⟩
    rw [h0, toRat, magnitude]
    simp [zero]
  next =>
    rw [if_neg (by have := Decimal.digitCount_le hn; omega), neg_zero, hpower, mul_one]
    have hlt : ((n.natAbs : ℕ) : ℚ) / (1 : ℕ) < 2 ^ (64 : ℤ) := by
      rw [Nat.cast_one, div_one]
      exact_mod_cast hn
    obtain ⟨x, hx⟩ := exists_ofFraction? negative one_ne_zero
      (hlt.trans (zpow_lt_zpow_right₀ (by norm_num) (by norm_num)))
    obtain ⟨-, hnear⟩ := nearest_of_ofFraction? (by decide) hx
    rw [Nat.cast_one, div_one, hsign] at hnear
    exact ⟨x, hx, hnear⟩

/-! ## Blanks around a numeral -/

/-- A string writes a whole number: a numeral, with blanks around it or none. -/
def Text.Spells (s : String) (n : ℤ) : Prop :=
  ∃ before body after, s.toList = before ++ body ++ after ∧ (∀ c ∈ before, isBlank c = true) ∧
    (∀ c ∈ after, isBlank c = true) ∧ Numeral body n

namespace Numeral

theorem ne_nil {cs : List Char} {n : ℤ} (h : Numeral cs n) : cs ≠ [] := by
  cases h with
  | plain h => exact h.ne_nil
  | plus => exact List.cons_ne_nil _ _
  | minus => exact List.cons_ne_nil _ _

theorem not_isBlank {cs : List Char} {n : ℤ} (h : Numeral cs n) :
    ∀ c ∈ cs, Text.isBlank c = false := by
  have hdigit : ∀ {c : Char}, c.isDigit = true → Text.isBlank c = false := fun {c} hc => by
    obtain ⟨h0, h9⟩ := Char.isDigit_iff_toNat.1 hc
    have : '0'.toNat = 48 := rfl
    have : '9'.toNat = 57 := rfl
    simp only [Text.isBlank, Text.blankRanges, List.any_cons, List.any_nil, Bool.or_false,
      Bool.or_eq_false_iff, Bool.and_eq_false_iff, decide_eq_false_iff_not]
    omega
  cases h with
  | plain h => exact fun c hc => hdigit (h.isDigit c hc)
  | plus h => exact List.forall_mem_cons.2 ⟨by decide, fun c hc => hdigit (h.isDigit c hc)⟩
  | minus h => exact List.forall_mem_cons.2 ⟨by decide, fun c hc => hdigit (h.isDigit c hc)⟩

theorem eq {cs : List Char} {n m : ℤ} (hn : Numeral cs n) (hm : Numeral cs m) : n = m := by
  cases hn with
  | plain h =>
    cases hm with
    | plain => rfl
    | plus => exact absurd rfl (h.ne_cons (by decide))
    | minus => exact absurd rfl (h.ne_cons (by decide))
  | plus h =>
    cases hm with
    | plain h' => exact absurd rfl (h'.ne_cons (by decide))
    | plus => rfl
  | minus h =>
    cases hm with
    | plain h' => exact absurd rfl (h'.ne_cons (by decide))
    | minus => rfl

end Numeral

theorem Text.spells_iff {s : String} {n : ℤ} : Spells s n ↔ Numeral (trimChars s.toList) n := by
  constructor
  · rintro ⟨before, body, after, hs, hb, ha, hnum⟩
    rwa [hs, trimChars_append hb ha hnum.ne_nil
      (fun c hc => hnum.not_isBlank c (List.mem_of_head? hc))
      fun c hc => hnum.not_isBlank c (List.mem_of_getLast? hc)]
  · intro h
    obtain ⟨before, after, hb, ha, hs⟩ := exists_trimChars s.toList
    exact ⟨before, _, after, hs, hb, ha, h⟩

end Workplan
