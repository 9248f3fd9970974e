import Workplan.NodeId

/-! Ids tell nodes apart: instances from each other and from resources, and as long as no step has a
bracket in its name, instances from steps. -/
namespace Workplan.NodeId
set_option autoImplicit false

/-- The id of the instance with number `i` of the step with a given id. -/
def child (id : NodeId) (i : Nat) : NodeId := ⟨id.text ++ "[" ++ Nat.repr i ++ "]"⟩

def Plain (id : NodeId) : Prop := '[' ∉ id.text.toList

theorem plain_step {name : String} (h : '[' ∉ name.toList) : (step name).Plain := by
  simp [Plain, step, String.toList_append, h]

theorem repr_inj {i j : Nat} (h : Nat.repr i = Nat.repr j) : i = j := by
  have hd : Nat.toDigits 10 i = Nat.toDigits 10 j := by
    rw [← Nat.toList_repr, h, Nat.toList_repr]
  rw [← Nat.ofDigitChars_ten_toDigits (n := i), hd, Nat.ofDigitChars_ten_toDigits]

theorem toList_child (id : NodeId) (i : Nat) :
    (id.child i).text.toList = id.text.toList ++ '[' :: (Nat.repr i ++ "]").toList := by
  simp [child, String.toList_append]

theorem append_cons_inj {c : Char} {l₁ l₂ r₁ r₂ : List Char} (h₁ : c ∉ l₁) (h₂ : c ∉ l₂)
    (h : l₁ ++ c :: r₁ = l₂ ++ c :: r₂) : l₁ = l₂ ∧ r₁ = r₂ := by
  induction l₁ generalizing l₂ with
  | nil =>
    cases l₂ with
    | nil => exact ⟨rfl, (List.cons.inj h).2⟩
    | cons a l₂ =>
      obtain ⟨rfl, -⟩ := List.cons.inj h
      exact absurd List.mem_cons_self h₂
  | cons a l₁ ih =>
    cases l₂ with
    | nil =>
      obtain ⟨rfl, -⟩ := List.cons.inj h
      exact absurd List.mem_cons_self h₁
    | cons b l₂ =>
      obtain ⟨rfl, h'⟩ := List.cons.inj h
      obtain ⟨rfl, hr⟩ := ih (fun hm => h₁ (List.mem_cons_of_mem a hm))
        (fun hm => h₂ (List.mem_cons_of_mem a hm)) h'
      exact ⟨rfl, hr⟩

theorem bracket_notMem_repr (i : Nat) : '[' ∉ (Nat.repr i).toList := by
  rw [Nat.toList_repr]
  exact fun h => absurd (Nat.isDigit_of_mem_toDigits (by decide) (by decide) h) (by decide)

/-- The id of an instance tells the step and the number: its last bracket stands before the number. -/
theorem child_inj {a b : NodeId} {i j : Nat} (h : a.child i = b.child j) : a = b ∧ i = j := by
  have hl := congrArg (fun id => id.text.toList.reverse) h
  simp only [toList_child, List.reverse_append, List.reverse_cons, List.append_assoc,
    List.singleton_append] at hl
  have hno : ∀ k, '[' ∉ (Nat.repr k ++ "]").toList.reverse := by
    intro k
    rw [List.mem_reverse, String.toList_append, List.mem_append, not_or]
    exact ⟨bracket_notMem_repr k, by decide⟩
  obtain ⟨hr, ht⟩ := append_cons_inj (hno i) (hno j) hl
  have hab : a.text = b.text := String.toList_injective (List.reverse_inj.1 ht)
  have hrepr : Nat.repr i = Nat.repr j := by
    have hr' := List.reverse_inj.1 hr
    rw [String.toList_append, String.toList_append] at hr'
    exact String.toList_injective (List.append_cancel_right hr')
  refine ⟨?_, repr_inj hrepr⟩
  cases a
  cases b
  exact congrArg NodeId.mk hab

theorem child_step (name : String) (i : Nat) :
    (step name).child i = step (name ++ "[" ++ Nat.repr i ++ "]") := by
  simp only [child, step, String.append_assoc]

theorem child_ne_of_plain {a b : NodeId} {i : Nat} (hb : b.Plain) : a.child i ≠ b := by
  rintro rfl
  exact hb (by simp [toList_child])

theorem step_inj {a b : String} (h : step a = step b) : a = b := by
  have hl : ("step." ++ a).toList = ("step." ++ b).toList :=
    congrArg (fun id => id.text.toList) h
  rw [String.toList_append, String.toList_append] at hl
  exact String.toList_injective (List.append_cancel_left hl)

theorem resource_inj {a b : String} (h : resource a = resource b) : a = b := by
  have hl : ("resource." ++ a).toList = ("resource." ++ b).toList :=
    congrArg (fun id => id.text.toList) h
  rw [String.toList_append, String.toList_append] at hl
  exact String.toList_injective (List.append_cancel_left hl)

@[simp] theorem isResource_resource (name : String) : (resource name).isResource = true := by
  simp [isResource, resource, String.toList_append]

@[simp] theorem isResource_step (name : String) : (step name).isResource = false := by
  simp [isResource, step, String.toList_append, List.isPrefixOf]

@[simp] theorem isResource_child_step (name : String) (i : Nat) :
    ((step name).child i).isResource = false := by
  simp [isResource, toList_child, step, String.toList_append, List.isPrefixOf]

theorem step_ne_resource (a b : String) : step a ≠ resource b := fun h => by
  have := congrArg isResource h
  simp at this

theorem child_step_ne_resource (a b : String) (i : Nat) : (step a).child i ≠ resource b := fun h => by
  have := congrArg isResource h
  simp at this

end Workplan.NodeId
