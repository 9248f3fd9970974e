import Mathlib.Data.List.Forall2

/-! Lists that are related position by position. -/
namespace Workplan.Pointwise
set_option autoImplicit false

variable {α β γ : Type} {R : α → β → Prop} {l : List α} {l' : List β}

theorem exists_left (h : List.Forall₂ R l l') {b : β} (hb : b ∈ l') : ∃ a ∈ l, R a b := by
  induction h with
  | nil => cases hb
  | cons hab _ ih =>
    rcases List.mem_cons.1 hb with rfl | hb
    · exact ⟨_, List.mem_cons_self, hab⟩
    · obtain ⟨a, ha, hr⟩ := ih hb
      exact ⟨a, List.mem_cons_of_mem _ ha, hr⟩

theorem exists_right (h : List.Forall₂ R l l') {a : α} (ha : a ∈ l) : ∃ b ∈ l', R a b :=
  exists_left h.flip ha

theorem trans {S : β → γ → Prop} {T : α → γ → Prop} {l'' : List γ} (h : List.Forall₂ R l l')
    (h' : List.Forall₂ S l' l'') (hT : ∀ a ∈ l, ∀ b c, R a b → S b c → T a c) :
    List.Forall₂ T l l'' := by
  induction h generalizing l'' with
  | nil =>
    cases h'
    exact .nil
  | cons hab _ ih =>
    cases h' with
    | cons hbc h' =>
      exact .cons (hT _ List.mem_cons_self _ _ hab hbc)
        (ih h' fun a ha => hT a (List.mem_cons_of_mem _ ha))

theorem imp_mem {S : α → β → Prop} (h : List.Forall₂ R l l')
    (hS : ∀ a ∈ l, ∀ b ∈ l', R a b → S a b) : List.Forall₂ S l l' := by
  induction h with
  | nil => exact .nil
  | cons hab _ ih =>
    exact .cons (hS _ List.mem_cons_self _ List.mem_cons_self hab)
      (ih fun a ha b hb => hS a (List.mem_cons_of_mem _ ha) b (List.mem_cons_of_mem _ hb))

theorem filter {p : α → Bool} {q : β → Bool} (h : List.Forall₂ R l l')
    (hp : ∀ a b, R a b → p a = q b) : List.Forall₂ R (l.filter p) (l'.filter q) := by
  induction h with
  | nil => exact .nil
  | cons hab _ ih =>
    rw [List.filter_cons, List.filter_cons, hp _ _ hab]
    split
    · exact .cons hab ih
    · exact ih

theorem find? {p : α → Bool} {q : β → Bool} (h : List.Forall₂ R l l')
    (hp : ∀ a b, R a b → p a = q b) : Option.Rel R (l.find? p) (l'.find? q) := by
  induction h with
  | nil => exact .none
  | cons hab _ ih =>
    rw [List.find?_cons, List.find?_cons, hp _ _ hab]
    split
    · exact .some hab
    · exact ih

theorem any_eq {p : α → Bool} {q : β → Bool} (h : List.Forall₂ R l l')
    (hp : ∀ a b, R a b → p a = q b) : l.any p = l'.any q := by
  induction h with
  | nil => rfl
  | cons hab _ ih => rw [List.any_cons, List.any_cons, hp _ _ hab, ih]

theorem exists_of_append_singleton {a : α} (h : List.Forall₂ R (l ++ [a]) l') :
    ∃ k b, List.Forall₂ R l k ∧ R a b ∧ l' = k ++ [b] := by
  induction l generalizing l' with
  | nil =>
    cases h with
    | cons hab h =>
      cases h
      exact ⟨[], _, .nil, hab, rfl⟩
  | cons c l ih =>
    cases h with
    | cons hcd h =>
      obtain ⟨k, b, hk, hab, rfl⟩ := ih h
      exact ⟨_ :: k, b, .cons hcd hk, hab, rfl⟩

theorem map_eq_map {f : α → γ} {f' : β → γ} (h : List.Forall₂ (fun a b => f' b = f a) l l') :
    l'.map f' = l.map f := by
  induction h with
  | nil => rfl
  | cons hab _ ih => rw [List.map_cons, List.map_cons, hab, ih]

theorem isEmpty_eq (h : List.Forall₂ R l l') : l.isEmpty = l'.isEmpty := by
  cases h <;> rfl

theorem cases_of_isSome {x : Option α} {y : Option β} (h : x.isSome = y.isSome) :
    (x = none ∧ y = none) ∨ ∃ a b, x = some a ∧ y = some b := by
  cases x with
  | none =>
    cases y with
    | none => exact .inl ⟨rfl, rfl⟩
    | some b => cases h
  | some a =>
    cases y with
    | none => cases h
    | some b => exact .inr ⟨a, b, rfl, rfl⟩

end Workplan.Pointwise
