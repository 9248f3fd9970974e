/-! Finite maps and sets whose entries are kept in ascending key order. The order is part of the
type, so two maps with the same look-ups are equal (`SortedMap.ext_get?`) and every traversal visits
the keys in ascending order. -/
namespace Workplan
set_option autoImplicit false

/-- The laws of a strict total order, as far as keys need them. -/
class KeyOrder (κ : Type) [LT κ] : Prop where
  irrefl : ∀ a : κ, ¬a < a
  trans : ∀ {a b c : κ}, a < b → b < c → a < c
  connected : ∀ {a b : κ}, ¬a < b → a ≠ b → b < a

instance : KeyOrder String where
  irrefl := String.lt_irrefl
  trans := String.lt_trans
  connected := fun h ne =>
    String.not_le.1 fun le => ne (String.le_antisymm le (String.not_lt.1 h))

/-- A list of entries with strictly ascending keys. -/
structure SortedMap (κ α : Type) [LT κ] where
  toList : List (κ × α)
  sorted : toList.Pairwise (fun a b => a.1 < b.1)

/-- A list of elements in strictly ascending order. -/
structure SortedSet (κ : Type) [LT κ] where
  toList : List κ
  sorted : toList.Pairwise (· < ·)

/-! ## Entry lists -/

namespace Entries

variable {κ α : Type} [DecidableEq κ]

/-- The value of the first entry with key `k`. -/
def get? (k : κ) : List (κ × α) → Option α
  | [] => none
  | (k', v) :: rest => if k = k' then some v else get? k rest

theorem get?_eq_none {k : κ} {l : List (κ × α)} (h : ∀ e ∈ l, k ≠ e.1) : get? k l = none := by
  induction l with
  | nil => rfl
  | cons hd tl ih => simp_all [get?]

theorem get?_filter_ne (k k' : κ) (l : List (κ × α)) :
    get? k' (l.filter (fun e => e.1 ≠ k)) = if k' = k then none else get? k' l := by
  induction l with
  | nil => simp [get?]
  | cons hd tl ih => grind [get?]

theorem get?_map_value {β : Type} (f : κ → α → β) (k : κ) (l : List (κ × α)) :
    get? k (l.map (fun e => (e.1, f e.1 e.2))) = (get? k l).map (f k) := by
  induction l with
  | nil => rfl
  | cons hd tl ih => grind [get?]

theorem mem_of_get? {k : κ} {v : α} {l : List (κ × α)} (h : get? k l = some v) : (k, v) ∈ l := by
  induction l with
  | nil => simp [get?] at h
  | cons hd tl ih => grind [get?]

variable [LT κ]

theorem get?_of_mem [KeyOrder κ] {k : κ} {v : α} {l : List (κ × α)}
    (hs : l.Pairwise (fun a b => a.1 < b.1)) (h : (k, v) ∈ l) : get? k l = some v := by
  induction l with
  | nil => simp at h
  | cons hd tl ih =>
    obtain ⟨k', v'⟩ := hd
    unfold get?
    rcases List.mem_cons.1 h with h | h
    · cases h
      simp
    · have hlt : k' < k := List.rel_of_pairwise_cons hs h
      have hne : k ≠ k' := fun e => KeyOrder.irrefl k (e ▸ hlt)
      simp [hne, ih hs.of_cons h]

theorem get?_tail [KeyOrder κ] {k : κ} {v : α} {tl : List (κ × α)}
    (h : ((k, v) :: tl).Pairwise (fun a b => a.1 < b.1)) : get? k tl = none := by
  refine get?_eq_none fun e he eq => KeyOrder.irrefl k ?_
  have hlt := List.rel_of_pairwise_cons h he
  rwa [← eq] at hlt

/-- Two sorted entry lists with the same look-ups are the same list. -/
theorem ext_get? [KeyOrder κ] {l₁ l₂ : List (κ × α)}
    (h₁ : l₁.Pairwise (fun a b => a.1 < b.1)) (h₂ : l₂.Pairwise (fun a b => a.1 < b.1))
    (h : ∀ k, get? k l₁ = get? k l₂) : l₁ = l₂ := by
  induction l₁ generalizing l₂ with
  | nil =>
    cases l₂ with
    | nil => rfl
    | cons e tl =>
      have := h e.1
      simp [get?] at this
  | cons e₁ tl₁ ih =>
    cases l₂ with
    | nil =>
      have := h e₁.1
      simp [get?] at this
    | cons e₂ tl₂ =>
      obtain ⟨k₁, v₁⟩ := e₁
      obtain ⟨k₂, v₂⟩ := e₂
      -- each first entry is one of the other list, and none comes before both
      have m₁ : (k₁, v₁) ∈ (k₂, v₂) :: tl₂ :=
        mem_of_get? ((h k₁) ▸ get?_of_mem h₁ (by simp))
      have m₂ : (k₂, v₂) ∈ (k₁, v₁) :: tl₁ :=
        mem_of_get? ((h k₂).symm ▸ get?_of_mem h₂ (by simp))
      have hk : k₁ = k₂ := by
        rcases List.mem_cons.1 m₁ with m₁ | m₁
        · exact (Prod.mk.inj m₁).1
        rcases List.mem_cons.1 m₂ with m₂ | m₂
        · exact (Prod.mk.inj m₂).1.symm
        exact absurd (KeyOrder.trans (List.rel_of_pairwise_cons h₁ m₂)
          (List.rel_of_pairwise_cons h₂ m₁)) (KeyOrder.irrefl k₁)
      subst hk
      have hv : v₁ = v₂ := by
        have := h k₁
        simpa [get?] using this
      subst hv
      have : tl₁ = tl₂ := ih h₁.of_cons h₂.of_cons fun k => by
        have hk := h k
        unfold get? at hk
        split at hk
        next e =>
          subst e
          rw [get?_tail h₁, get?_tail h₂]
        next => exact hk
      rw [this]

variable [DecidableLT κ]

/-- Puts `v` at key `k`, replacing what was there. -/
def insert (k : κ) (v : α) : List (κ × α) → List (κ × α)
  | [] => [(k, v)]
  | (k', v') :: rest =>
    if k < k' then (k, v) :: (k', v') :: rest
    else if k = k' then (k, v) :: rest
    else (k', v') :: insert k v rest

theorem mem_insert {k : κ} {v : α} {e : κ × α} {l : List (κ × α)} :
    e ∈ insert k v l → e = (k, v) ∨ e ∈ l := by
  induction l with
  | nil => simp [insert]
  | cons hd tl ih => grind [insert]

theorem sorted_insert [KeyOrder κ] {k : κ} {v : α} {l : List (κ × α)}
    (h : l.Pairwise (fun a b => a.1 < b.1)) :
    (insert k v l).Pairwise (fun a b => a.1 < b.1) := by
  induction l with
  | nil => simp [insert]
  | cons hd tl ih =>
    obtain ⟨k', v'⟩ := hd
    have hhd : ∀ {e : κ × α}, e ∈ tl → k' < e.1 := fun he => List.rel_of_pairwise_cons h he
    unfold insert
    split
    next hlt =>
      exact h.cons fun e he => (List.mem_cons.1 he).elim (fun e' => e' ▸ hlt)
        (fun m => KeyOrder.trans hlt (hhd m))
    next hnlt =>
      split
      next heq =>
        subst heq
        exact List.Pairwise.cons (fun e he => hhd he) h.of_cons
      next hne =>
        exact List.Pairwise.cons
          (fun e he => (mem_insert he).elim (fun e' => e' ▸ KeyOrder.connected hnlt hne)
            (fun m => hhd m)) (ih h.of_cons)

theorem get?_insert (k k' : κ) (v : α) (l : List (κ × α)) :
    get? k' (insert k v l) = if k' = k then some v else get? k' l := by
  induction l with
  | nil => simp [insert, get?]
  | cons hd tl ih => grind [insert, get?]

end Entries

/-! ## Maps -/

namespace SortedMap

variable {κ α β : Type} [LT κ]

def empty : SortedMap κ α := ⟨[], List.Pairwise.nil⟩

instance : EmptyCollection (SortedMap κ α) := ⟨empty⟩
instance : Inhabited (SortedMap κ α) := ⟨empty⟩

def keys (m : SortedMap κ α) : List κ := m.toList.map (·.1)

def values (m : SortedMap κ α) : List α := m.toList.map (·.2)

def size (m : SortedMap κ α) : Nat := m.toList.length

def mapValues (f : κ → α → β) (m : SortedMap κ α) : SortedMap κ β where
  toList := m.toList.map fun e => (e.1, f e.1 e.2)
  sorted := List.pairwise_map.2 m.sorted

def filter (p : κ → α → Bool) (m : SortedMap κ α) : SortedMap κ α where
  toList := m.toList.filter fun e => p e.1 e.2
  sorted := m.sorted.sublist List.filter_sublist

variable [DecidableEq κ]

def get? (m : SortedMap κ α) (k : κ) : Option α := Entries.get? k m.toList

def contains (m : SortedMap κ α) (k : κ) : Bool := (m.get? k).isSome

def erase (m : SortedMap κ α) (k : κ) : SortedMap κ α := m.filter fun k' _ => k' ≠ k

/-- Changes the value at `k`; without one the map stays as it is. -/
def modify (m : SortedMap κ α) (k : κ) (f : α → α) : SortedMap κ α :=
  m.mapValues fun k' v => if k' = k then f v else v

variable [DecidableLT κ] [KeyOrder κ]

def insert (m : SortedMap κ α) (k : κ) (v : α) : SortedMap κ α :=
  ⟨Entries.insert k v m.toList, Entries.sorted_insert m.sorted⟩

/-- The map of a list of entries; of two entries with one key the later counts. -/
def ofList (entries : List (κ × α)) : SortedMap κ α :=
  entries.foldl (fun m e => m.insert e.1 e.2) empty

omit [DecidableLT κ] [KeyOrder κ] in
@[simp] theorem get?_empty (k : κ) : (empty : SortedMap κ α).get? k = none := rfl

theorem get?_insert (m : SortedMap κ α) (k k' : κ) (v : α) :
    (m.insert k v).get? k' = if k' = k then some v else m.get? k' :=
  Entries.get?_insert k k' v m.toList

omit [DecidableLT κ] [KeyOrder κ] in
theorem get?_erase (m : SortedMap κ α) (k k' : κ) :
    (m.erase k).get? k' = if k' = k then none else m.get? k' :=
  Entries.get?_filter_ne k k' m.toList

omit [DecidableLT κ] [KeyOrder κ] in
theorem get?_mapValues (m : SortedMap κ α) (f : κ → α → β) (k : κ) :
    (m.mapValues f).get? k = (m.get? k).map (f k) :=
  Entries.get?_map_value f k m.toList

omit [DecidableLT κ] [KeyOrder κ] in
theorem get?_modify (m : SortedMap κ α) (k k' : κ) (f : α → α) :
    (m.modify k f).get? k' = if k' = k then (m.get? k').map f else m.get? k' := by
  unfold modify
  rw [get?_mapValues]
  split <;> simp_all

omit [DecidableEq κ] [DecidableLT κ] [KeyOrder κ] in
@[simp] theorem keys_mapValues (m : SortedMap κ α) (f : κ → α → β) :
    (m.mapValues f).keys = m.keys := by
  simp [keys, mapValues]

omit [DecidableLT κ] [KeyOrder κ] in
@[simp] theorem keys_modify (m : SortedMap κ α) (k : κ) (f : α → α) :
    (m.modify k f).keys = m.keys := keys_mapValues m _

omit [DecidableLT κ] in
theorem mem_toList_iff (m : SortedMap κ α) (k : κ) (v : α) :
    (k, v) ∈ m.toList ↔ m.get? k = some v :=
  ⟨Entries.get?_of_mem m.sorted, Entries.mem_of_get?⟩

omit [DecidableLT κ] in
theorem get?_filter_eq_some {m : SortedMap κ α} {p : κ → α → Bool} {k : κ} {v : α} :
    (m.filter p).get? k = some v ↔ m.get? k = some v ∧ p k v = true := by
  rw [← mem_toList_iff, ← mem_toList_iff]
  exact List.mem_filter

omit [DecidableLT κ] in
/-- Maps with the same look-ups are equal. -/
theorem ext_get? {m₁ m₂ : SortedMap κ α} (h : ∀ k, m₁.get? k = m₂.get? k) : m₁ = m₂ := by
  have := Entries.ext_get? m₁.sorted m₂.sorted h
  cases m₁
  cases m₂
  cases this
  rfl

omit [DecidableLT κ] in
theorem mem_values {m : SortedMap κ α} {v : α} : v ∈ m.values ↔ ∃ k, m.get? k = some v := by
  simp only [values, List.mem_map, Prod.exists, exists_eq_right]
  exact exists_congr fun k => mem_toList_iff m k v

omit [DecidableLT κ] in
theorem mem_keys {m : SortedMap κ α} {k : κ} : k ∈ m.keys ↔ ∃ v, m.get? k = some v := by
  simp only [keys, List.mem_map, Prod.exists, exists_and_right, exists_eq_right]
  exact exists_congr fun v => mem_toList_iff m k v

omit [DecidableLT κ] [DecidableEq κ] in
theorem nodup_keys (m : SortedMap κ α) : m.keys.Nodup := by
  refine List.pairwise_map.2 (m.sorted.imp fun h e => ?_)
  rw [e] at h
  exact KeyOrder.irrefl _ h

/-! ### Maps of lists -/

/-- What a list of entries adds to a map: a key has a new value only from the list. -/
theorem get?_foldl_insert (l : List (κ × α)) (m : SortedMap κ α) (k : κ) :
    (∃ v, (k, v) ∈ l ∧ (l.foldl (fun m e => m.insert e.1 e.2) m).get? k = some v) ∨
      ((∀ v, (k, v) ∉ l) ∧ (l.foldl (fun m e => m.insert e.1 e.2) m).get? k = m.get? k) := by
  induction l generalizing m with
  | nil => exact .inr ⟨by simp, rfl⟩
  | cons e l ih =>
    rcases ih (m.insert e.1 e.2) with ⟨v, hv, h⟩ | ⟨hv, h⟩
    · exact .inl ⟨v, List.mem_cons_of_mem e hv, h⟩
    · rw [get?_insert] at h
      by_cases hk : k = e.1
      · rw [if_pos hk] at h
        exact .inl ⟨e.2, by rw [hk]; exact List.mem_cons_self, h⟩
      · rw [if_neg hk] at h
        refine .inr ⟨fun v hm => ?_, h⟩
        rcases List.mem_cons.1 hm with hm | hm
        · exact hk (congrArg Prod.fst hm)
        · exact hv v hm

theorem mem_of_get?_ofList {l : List (κ × α)} {k : κ} {v : α}
    (h : (ofList l).get? k = some v) : (k, v) ∈ l := by
  rcases get?_foldl_insert l empty k with ⟨w, hw, h'⟩ | ⟨_, h'⟩
  · cases h.symm.trans h'
    exact hw
  · exact absurd (h.symm.trans h') (by simp)

theorem exists_get?_ofList {l : List (κ × α)} {k : κ} {v : α} (h : (k, v) ∈ l) :
    ∃ w, (ofList l).get? k = some w := by
  rcases get?_foldl_insert l empty k with ⟨w, _, h'⟩ | ⟨hn, _⟩
  · exact ⟨w, h'⟩
  · exact absurd h (hn v)

end SortedMap

/-! ## Sets -/

namespace SortedSet

variable {κ : Type} [LT κ]

def empty : SortedSet κ := ⟨[], List.Pairwise.nil⟩

instance : EmptyCollection (SortedSet κ) := ⟨empty⟩
instance : Inhabited (SortedSet κ) := ⟨empty⟩

instance [DecidableEq κ] : DecidableEq (SortedSet κ) := fun a b =>
  if h : a.toList = b.toList then
    isTrue (by cases a; cases b; cases h; rfl)
  else
    isFalse fun e => h (e ▸ rfl)

def size (s : SortedSet κ) : Nat := s.toList.length

def isEmpty (s : SortedSet κ) : Bool := s.toList.isEmpty

instance : Membership κ (SortedSet κ) := ⟨fun s a => a ∈ s.toList⟩

instance [DecidableEq κ] (a : κ) (s : SortedSet κ) : Decidable (a ∈ s) :=
  inferInstanceAs (Decidable (a ∈ s.toList))

theorem mem_def {s : SortedSet κ} {a : κ} : a ∈ s ↔ a ∈ s.toList := Iff.rfl

def erase [DecidableEq κ] (s : SortedSet κ) (a : κ) : SortedSet κ where
  toList := s.toList.filter (· ≠ a)
  sorted := s.sorted.sublist List.filter_sublist

def filter (p : κ → Bool) (s : SortedSet κ) : SortedSet κ where
  toList := s.toList.filter p
  sorted := s.sorted.sublist List.filter_sublist

@[simp] theorem mem_filter {p : κ → Bool} {s : SortedSet κ} {a : κ} :
    a ∈ s.filter p ↔ a ∈ s ∧ p a = true := List.mem_filter

variable [DecidableEq κ] [DecidableLT κ]

def insertSorted (a : κ) : List κ → List κ
  | [] => [a]
  | b :: rest => if a < b then a :: b :: rest else if a = b then b :: rest
    else b :: insertSorted a rest

theorem mem_insertSorted {a b : κ} {l : List κ} : b ∈ insertSorted a l ↔ b = a ∨ b ∈ l := by
  induction l with
  | nil => simp [insertSorted]
  | cons hd tl ih => grind [insertSorted]

variable [KeyOrder κ]

theorem sorted_insertSorted {a : κ} {l : List κ} (h : l.Pairwise (· < ·)) :
    (insertSorted a l).Pairwise (· < ·) := by
  induction l with
  | nil => simp [insertSorted]
  | cons b tl ih =>
    unfold insertSorted
    split
    next hlt =>
      exact h.cons fun e he => (List.mem_cons.1 he).elim (fun e' => e' ▸ hlt)
        (fun m => KeyOrder.trans hlt (List.rel_of_pairwise_cons h m))
    next hnlt =>
      split
      next => exact h
      next hne =>
        exact List.Pairwise.cons
          (fun e he => (mem_insertSorted.1 he).elim
            (fun e' => e' ▸ KeyOrder.connected hnlt hne)
            (fun m => List.rel_of_pairwise_cons h m)) (ih h.of_cons)

def insert (s : SortedSet κ) (a : κ) : SortedSet κ :=
  ⟨insertSorted a s.toList, sorted_insertSorted s.sorted⟩

def ofList (l : List κ) : SortedSet κ := l.foldl insert empty

def union (s t : SortedSet κ) : SortedSet κ := t.toList.foldl insert s

@[simp] theorem mem_insert {s : SortedSet κ} {a b : κ} : b ∈ s.insert a ↔ b = a ∨ b ∈ s :=
  mem_insertSorted

omit [DecidableLT κ] [KeyOrder κ] in
@[simp] theorem mem_erase {s : SortedSet κ} {a b : κ} : b ∈ s.erase a ↔ b ∈ s ∧ b ≠ a := by
  simp [mem_def, erase]

omit [DecidableEq κ] [DecidableLT κ] [KeyOrder κ] in
@[simp] theorem not_mem_empty (a : κ) : ¬a ∈ (empty : SortedSet κ) := by
  simp [mem_def, empty]

theorem mem_foldl_insert {s : SortedSet κ} {l : List κ} {a : κ} :
    a ∈ l.foldl insert s ↔ a ∈ s ∨ a ∈ l := by
  induction l generalizing s with
  | nil => simp
  | cons b tl ih => grind [mem_insert]

@[simp] theorem mem_ofList {l : List κ} {a : κ} : a ∈ ofList l ↔ a ∈ l := by
  unfold ofList
  rw [mem_foldl_insert]
  simp

omit [DecidableEq κ] [DecidableLT κ] in
theorem nodup_toList (s : SortedSet κ) : s.toList.Nodup := by
  refine s.sorted.imp fun h e => ?_
  rw [e] at h
  exact KeyOrder.irrefl _ h

@[simp] theorem mem_union {s t : SortedSet κ} {a : κ} : a ∈ s.union t ↔ a ∈ s ∨ a ∈ t :=
  mem_foldl_insert

omit [DecidableEq κ] [DecidableLT κ] in
theorem ext_mem {s t : SortedSet κ} (h : ∀ a, a ∈ s ↔ a ∈ t) : s = t := by
  have hp : s.toList.Perm t.toList := (List.perm_ext_iff_of_nodup s.nodup_toList t.nodup_toList).2 h
  have he : s.toList = t.toList := hp.eq_of_pairwise
    (fun a b _ _ hab hba => absurd (KeyOrder.trans hab hba) (KeyOrder.irrefl a)) s.sorted t.sorted
  cases s
  cases t
  cases he
  rfl

end SortedSet

end Workplan
