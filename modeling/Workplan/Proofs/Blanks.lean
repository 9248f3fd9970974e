import Mathlib.Data.List.Basic
import Mathlib.Data.List.TakeWhile
import Workplan.Text.Blank

/-! Blanks: trimming takes the blanks at both ends of a text away and nothing else. -/
namespace Workplan.Text
set_option autoImplicit false

theorem dropWhile_append {p : Char → Bool} {l r : List Char} (hl : ∀ c ∈ l, p c = true)
    (hr : ∀ c, r.head? = some c → p c = false) : (l ++ r).dropWhile p = r := by
  induction l with
  | nil =>
    cases r with
    | nil => rfl
    | cons c r => simp [hr c rfl]
  | cons c l ih =>
    rw [List.cons_append, List.dropWhile_cons_of_pos (hl c List.mem_cons_self)]
    exact ih fun d hd => hl d (List.mem_cons_of_mem c hd)

/-- A text that neither begins nor ends with a blank is what is left of it between blanks. -/
theorem trimChars_append {before body after : List Char} (hb : ∀ c ∈ before, isBlank c = true)
    (ha : ∀ c ∈ after, isBlank c = true) (hne : body ≠ [])
    (hhead : ∀ c, body.head? = some c → isBlank c = false)
    (hlast : ∀ c, body.getLast? = some c → isBlank c = false) :
    trimChars (before ++ body ++ after) = body := by
  have hleft : (before ++ body ++ after).dropWhile isBlank = body ++ after := by
    rw [List.append_assoc]
    apply dropWhile_append hb
    intro c hc
    rw [List.head?_append_of_ne_nil _ hne] at hc
    exact hhead c hc
  have hright : (body ++ after).reverse.dropWhile isBlank = body.reverse := by
    rw [List.reverse_append]
    apply dropWhile_append
    · exact fun c hc => ha c (List.mem_reverse.1 hc)
    · exact fun c hc => hlast c (by rwa [List.head?_reverse] at hc)
  rw [trimChars, trimRight, hleft, hright, List.reverse_reverse]

theorem trimChars_of_not_blank {body : List Char} (h : ∀ c ∈ body, isBlank c = false) :
    trimChars body = body := by
  cases body with
  | nil => rfl
  | cons c body =>
    have htrim : trimChars ([] ++ c :: body ++ []) = c :: body :=
      trimChars_append (by simp) (by simp) (by simp) (fun d hd => h d (List.mem_of_head? hd))
        fun d hd => h d (List.mem_of_getLast? hd)
    simpa using htrim

theorem exists_dropWhile {p : Char → Bool} (cs : List Char) :
    ∃ before, (∀ c ∈ before, p c = true) ∧ cs = before ++ cs.dropWhile p :=
  ⟨cs.takeWhile p, fun _ hc => List.mem_takeWhile_imp hc, List.takeWhile_append_dropWhile.symm⟩

theorem exists_trimChars (cs : List Char) : ∃ before after, (∀ c ∈ before, isBlank c = true) ∧
    (∀ c ∈ after, isBlank c = true) ∧ cs = before ++ trimChars cs ++ after := by
  obtain ⟨before, hb, hleft⟩ := exists_dropWhile (p := isBlank) cs
  obtain ⟨after, ha, hright⟩ := exists_dropWhile (p := isBlank) (cs.dropWhile isBlank).reverse
  refine ⟨before, after.reverse, hb, fun c hc => ha c (List.mem_reverse.1 hc), ?_⟩
  have hbody : cs.dropWhile isBlank = trimChars cs ++ after.reverse := by
    rw [trimChars, trimRight, ← List.reverse_append, ← hright, List.reverse_reverse]
  rw [List.append_assoc, ← hbody]
  exact hleft

end Workplan.Text
