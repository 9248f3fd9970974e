import Workplan.Proofs.Run.Release
import Workplan.Proofs.Run.Stage

/-! Numbering: the numbers of a run tell its tasks apart, and its destructions. A number picks one out of
its list, so that what is done to that number is done to one element. -/
namespace Workplan
set_option autoImplicit false

namespace Numbering
variable {α : Type} {number : α → Nat} {l : List α} {x : α}

theorem exists_split (hl : (l.map number).Nodup) (hx : x ∈ l) : ∃ l₁ l₂, l = l₁ ++ x :: l₂ ∧
    (∀ f : α → α, l.map (fun y => if number y = number x then f y else y) = l₁ ++ f x :: l₂) ∧
    l.filter (fun y => number y ≠ number x) = l₁ ++ l₂ := by
  obtain ⟨l₁, l₂, rfl⟩ := List.append_of_mem hx
  have hne : ∀ y ∈ l₁ ++ l₂, number y ≠ number x := by
    intro y hy he
    have hperm : ((l₁ ++ x :: l₂).map number).Perm ((x :: (l₁ ++ l₂)).map number) :=
      List.perm_middle.map number
    have hnd := hperm.nodup_iff.1 hl
    rw [List.map_cons, List.nodup_cons] at hnd
    exact hnd.1 (he ▸ List.mem_map_of_mem hy)
  have hmap : ∀ (f : α → α) (l' : List α), (∀ y ∈ l', number y ≠ number x) →
      l'.map (fun y => if number y = number x then f y else y) = l' := by
    intro f l' hl'
    conv_rhs => rw [← List.map_id l']
    exact List.map_congr_left fun y hy => if_neg (hl' y hy)
  have hfilter : ∀ l' : List α, (∀ y ∈ l', number y ≠ number x) →
      l'.filter (fun y => number y ≠ number x) = l' :=
    fun l' hl' => List.filter_eq_self.2 fun y hy => decide_eq_true (hl' y hy)
  have h₁ : ∀ y ∈ l₁, number y ≠ number x := fun y hy => hne y (List.mem_append_left _ hy)
  have h₂ : ∀ y ∈ l₂, number y ≠ number x := fun y hy => hne y (List.mem_append_right _ hy)
  refine ⟨l₁, l₂, rfl, fun f => ?_, ?_⟩
  · rw [List.map_append, List.map_cons, hmap f l₁ h₁, hmap f l₂ h₂, if_pos rfl]
  · rw [List.filter_append, hfilter l₁ h₁, List.filter_cons, hfilter l₂ h₂]
    simp

theorem eq_of_number (hl : (l.map number).Nodup) {y : α} (hx : x ∈ l) (hy : y ∈ l)
    (h : number x = number y) : x = y :=
  List.inj_on_of_nodup_map hl hx hy h

end Numbering

namespace Run

/-- The numbers of a run are distinct and have been given out. -/
structure Numbered (r : Run) : Prop where
  tasks : (r.tasks.map Task.number).Nodup
  destroys : (r.destroys.map DestroyTask.number).Nodup
  task_lt : ∀ t ∈ r.tasks, t.number < r.next
  destroy_lt : ∀ d ∈ r.destroys, d.number < r.next

namespace Numbered
variable {r : Run}

theorem congr {r' : Run} (h : r.Numbered) (ht : r'.tasks = r.tasks) (hd : r'.destroys = r.destroys)
    (hn : r'.next = r.next) : r'.Numbered := by
  constructor
  case tasks =>
    rw [ht]
    exact h.tasks
  case destroys =>
    rw [hd]
    exact h.destroys
  case task_lt =>
    rw [ht, hn]
    exact h.task_lt
  case destroy_lt =>
    rw [hd, hn]
    exact h.destroy_lt

theorem sublist {r' : Run} (h : r.Numbered) (ht : r'.tasks.Sublist r.tasks)
    (hd : r'.destroys.Sublist r.destroys) (hn : r'.next = r.next) : r'.Numbered where
  tasks := (ht.map _).nodup h.tasks
  destroys := (hd.map _).nodup h.destroys
  task_lt := fun t hm => hn ▸ h.task_lt t (ht.subset hm)
  destroy_lt := fun d hm => hn ▸ h.destroy_lt d (hd.subset hm)

theorem spawnDestroys (h : r.Numbered) (owner : Option NodeId) (l : List Released) :
    (Run.spawnDestroys owner r l).1.Numbered := by
  obtain ⟨ds, es, hs⟩ := exists_spawns owner r l
  have hmem : ∀ d ∈ ds, r.next ≤ d.number ∧ d.number < r.next + ds.length := by
    intro d hd
    have hm : d.number ∈ ds.map DestroyTask.number := List.mem_map_of_mem hd
    rw [hs.numbers, List.mem_range'_1] at hm
    exact hm
  rw [hs.eq]
  constructor
  case tasks => exact h.tasks
  case destroys =>
    simp only [List.map_append]
    refine List.nodup_append.2 ⟨h.destroys, ?_, ?_⟩
    · rw [hs.numbers]
      exact List.nodup_range'
    · rintro a ha b hb rfl
      obtain ⟨d, hd, rfl⟩ := List.mem_map.1 ha
      obtain ⟨d', hd', he⟩ := List.mem_map.1 hb
      have := h.destroy_lt d hd
      have := (hmem d' hd').1
      omega
  case task_lt => exact fun t ht => Nat.lt_of_lt_of_le (h.task_lt t ht) (Nat.le_add_right _ _)
  case destroy_lt =>
    intro d hd
    rcases List.mem_append.1 hd with hd | hd
    · exact Nat.lt_of_lt_of_le (h.destroy_lt d hd) (Nat.le_add_right _ _)
    · exact (hmem d hd).2

theorem release (h : r.Numbered) (id : NodeId) : (r.release id).1.Numbered := by
  have hs : ({ r with slots := (r.slots.release id).2 } : Run).Numbered := h.congr rfl rfl rfl
  exact hs.spawnDestroys (some id) (r.slots.release id).1

theorem blame (h : r.Numbered) (id : NodeId) (e : RunError) : (r.blame id e).Numbered := by
  rw [blame_eq]
  exact h.congr rfl rfl rfl

theorem conclude (h : r.Numbered) (id : NodeId) (output : Option Value) :
    (r.conclude id output).Numbered := by
  rw [conclude_eq]
  exact (h.release id).congr rfl rfl rfl

theorem credit (h : r.Numbered) (owner : NodeId) : (r.credit owner).Numbered := by
  rw [credit_eq]
  exact h.congr rfl rfl rfl

theorem dropDestroy (h : r.Numbered) (n : Nat) : (r.dropDestroy n).Numbered :=
  h.sublist (List.Sublist.refl _) List.filter_sublist rfl

theorem enqueue (h : r.Numbered) {t : Task} (ht : t.number = r.next) :
    ({ r with tasks := r.tasks ++ [t], next := r.next + 1 } : Run).Numbered := by
  constructor
  case tasks =>
    simp only [List.map_append, List.map_cons, List.map_nil]
    refine List.nodup_append.2 ⟨h.tasks, List.nodup_singleton _, ?_⟩
    rintro a ha b hb rfl
    obtain ⟨u, hu, rfl⟩ := List.mem_map.1 ha
    have := h.task_lt u hu
    have := List.mem_singleton.1 hb
    omega
  case destroys => exact h.destroys
  case task_lt =>
    intro u hu
    rcases List.mem_append.1 hu with hu | hu
    · exact Nat.lt_succ_of_lt (h.task_lt u hu)
    · rw [List.mem_singleton.1 hu, ht]
      exact Nat.lt_succ_self _
  case destroy_lt => exact fun d hd => Nat.lt_succ_of_lt (h.destroy_lt d hd)

end Numbered
end Run

theorem Moves.numbered {s t : Stage} (hm : Moves s t) (h : s.run.Numbered) : t.run.Numbered := by
  cases hm with
  | note r E a l id time hk => exact h.congr rfl rfl rfl
  | blemish r E e => exact h.congr rfl rfl rfl
  | collect E ht hf => exact h.sublist List.filter_sublist (List.Sublist.refl _) rfl
  | enqueue E hp hlimit =>
    obtain ⟨node, scope, work, -, -, -, rfl⟩ := Run.prepare_eq_ok hp
    exact h.enqueue rfl
  | expand hE he => exact h.congr rfl rfl rfl
  | conclude r hE => exact h.conclude _ _
  | @fail r E id o e hf =>
    have hp : ({ r with plan := (r.plan.markFailed id e.message).1 } : Run).Numbered :=
      h.congr rfl rfl rfl
    exact hp.blame id e
  | release r E a id l => exact h.release id
  | skipIdle r E => exact h.congr rfl rfl rfl
  | skipAll E reason ha => exact h.congr rfl rfl rfl
  | observe E ha hs => exact h.congr rfl rfl rfl
  | lose E ht hf => exact h.dropDestroy _
  | discard E ht hf ho => exact h.dropDestroy _
  | credit E ht hf ho => exact (h.dropDestroy _).credit _
  | giveUp E hd hget => exact h.congr rfl rfl rfl
  | stall E ha ht hd hr hw => exact h.congr rfl rfl rfl
  | @drain r E hw ht hd hp =>
    have hs : ({ r with slots := r.slots.drain.2, phase := .tearingDown } : Run).Numbered :=
      h.congr rfl rfl rfl
    exact hs.spawnDestroys none r.slots.drain.1
  | close E hp hd => exact h.congr rfl rfl rfl

theorem Begins.numbered {s t : Stage} {id : NodeId} (hb : Begins s id t) (h : s.run.Numbered) :
    t.run.Numbered := by
  cases hb with
  | mk E ha hlimit hr => exact h.congr rfl rfl rfl

theorem Path.numbered {s t : Stage} {l : List (Run × NodeId)} (hp : Path s l t)
    (h : s.run.Numbered) : t.run.Numbered := by
  induction hp with
  | refl => exact h
  | move _ hm ih => exact hm.numbered ih
  | start _ hb ih => exact hb.numbered ih

end Workplan
