import Workplan.Number.Decimal

/-! Digits: a whole number that is written in the decimal system is read as itself. -/
namespace Workplan
set_option autoImplicit false

theorem digitValue?_of_isDigit {c : Char} (h : c.isDigit = true) :
    digitValue? 10 c = some (c.toNat - '0'.toNat) := by
  have hrange : '0' ≤ c ∧ c ≤ '9' := by
    simp only [Char.isDigit, Bool.and_eq_true, decide_eq_true_eq] at h
    exact h
  have hlt : c.toNat - '0'.toNat < 10 := by
    have h9 : c.toNat ≤ '9'.toNat := hrange.2
    have : '9'.toNat = 57 := rfl
    have : '0'.toNat = 48 := rfl
    omega
  simp only [digitValue?]
  rw [if_pos hrange, if_pos hlt]

theorem readDigitsFrom?_of_isDigit {cs : List Char} (h : ∀ c ∈ cs, c.isDigit = true) (start : Nat) :
    readDigitsFrom? 10 start cs = some (Nat.ofDigitChars 10 cs start) := by
  induction cs generalizing start with
  | nil => rfl
  | cons c cs ih =>
    rw [readDigitsFrom?, digitValue?_of_isDigit (h c List.mem_cons_self), Option.bind_some,
      ih fun d hd => h d (List.mem_cons_of_mem c hd)]
    rfl

theorem isDigit_of_mem_repr {n : Nat} {c : Char} (h : c ∈ (Nat.repr n).toList) :
    c.isDigit = true := by
  rw [Nat.toList_repr] at h
  exact Nat.isDigit_of_mem_toDigits (by decide) (by decide) h

theorem readNatBelow?_repr {bound n : Nat} (h : n < bound) :
    readNatBelow? 10 bound (Nat.repr n).toList = some n := by
  have hread : readDigits? 10 (Nat.repr n).toList = some n := by
    rw [readDigits?, if_neg (by simp),
      readDigitsFrom?_of_isDigit fun c => isDigit_of_mem_repr, Nat.toList_repr,
      Nat.ofDigitChars_ten_toDigits]
  -- no digit is a plus sign, so nothing is taken off the front
  have hplus : ∀ rest, (Nat.repr n).toList ≠ '+' :: rest := by
    intro rest he
    have hdigit := isDigit_of_mem_repr (n := n) (c := '+') (by simp [he])
    exact absurd hdigit (by decide)
  unfold readNatBelow?
  split
  next rest he => exact absurd he (hplus rest)
  next =>
    dsimp only
    rw [hread, Option.filter_some, if_pos (by simpa using h)]

theorem lt_of_readNatBelow? {base bound n : Nat} {cs : List Char}
    (h : readNatBelow? base bound cs = some n) : n < bound := by
  unfold readNatBelow? at h
  exact of_decide_eq_true (Option.filter_eq_some_iff.1 h).2

end Workplan
