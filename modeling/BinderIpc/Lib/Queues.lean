import Mathlib.Algebra.Ring.Nat
import Mathlib.Data.List.Basic

/-! Intrusive lists. An item carries its own list entry, so it is on at most one
list at a time; all lists are kept in one store, in the order of insertion. -/

namespace Binder

/-- Which item is on the list of which head. -/
structure Queues (η ω : Type*) where
  entries : List (η × ω) := []

namespace Queues

section

variable {η ω : Type*} (q : Queues η ω) (h : η) (w : ω)

/-- `list_add_tail` -/
def addTail : Queues η ω := ⟨q.entries ++ [(h, w)]⟩

/-- `list_add` -/
def addHead : Queues η ω := ⟨(h, w) :: q.entries⟩

/-- What the items on all lists weigh. -/
def weight (f : ω → ℕ) : ℕ := (q.entries.map fun e => f e.2).sum

variable {q h w} {g : η} {v : ω}

theorem mem_addTail : (g, v) ∈ (q.addTail h w).entries ↔ (g, v) ∈ q.entries ∨ (g = h ∧ v = w) := by
  simp [addTail]

theorem mem_addHead : (g, v) ∈ (q.addHead h w).entries ↔ (g, v) ∈ q.entries ∨ (g = h ∧ v = w) := by
  simp [addHead, or_comm]

theorem weight_le {f : ω → ℕ} {c : ℕ} (hf : ∀ v, f v ≤ c) (q : Queues η ω) :
    q.weight f ≤ c * q.entries.length := by
  unfold weight
  induction q.entries with
  | nil => exact Nat.zero_le _
  | cons e l ih =>
    have he := hf e.2
    simp only [List.map_cons, List.sum_cons, List.length_cons, Nat.mul_succ]
    omega

theorem weight_mono {f f' : ω → ℕ} (hf : ∀ v, f' v ≤ f v) (q : Queues η ω) :
    q.weight f' ≤ q.weight f := by
  unfold weight
  induction q.entries with
  | nil => exact Nat.le_refl _
  | cons e l ih => exact Nat.add_le_add (hf e.2) ih

/-- An item of a list gets lighter. -/
theorem weight_lt {f f' : ω → ℕ} (hw : (h, w) ∈ q.entries) (hf : ∀ v, f' v ≤ f v) (hlt : f' w < f w) :
    q.weight f' < q.weight f := by
  obtain ⟨l₁, l₂, hsplit⟩ := List.append_of_mem hw
  have h1 := weight_mono hf (⟨l₁⟩ : Queues η ω)
  have h2 := weight_mono hf (⟨l₂⟩ : Queues η ω)
  simp only [weight, hsplit, List.map_append, List.map_cons, List.sum_append, List.sum_cons] at h1 h2 ⊢
  omega

end

/-! Operations that name an item -/

section

variable {η ω : Type*} [DecidableEq ω] (q : Queues η ω) (h : η) (w : ω)

/-- `list_del` -/
def del : Queues η ω := ⟨q.entries.filter (·.2 ≠ w)⟩

/-- `list_move_tail` -/
def moveTail : Queues η ω := (q.del w).addTail h w

/-- `list_move` -/
def moveHead : Queues η ω := (q.del w).addHead h w

/-- `!list_empty` of an item's entry -/
def linked : Bool := q.entries.any (·.2 = w)

variable {q h w} {g : η} {v : ω}

theorem mem_del : (g, v) ∈ (q.del w).entries ↔ (g, v) ∈ q.entries ∧ v ≠ w := by
  simp [del]

theorem mem_moveTail : (g, v) ∈ (q.moveTail h w).entries ↔
    ((g, v) ∈ q.entries ∧ v ≠ w) ∨ (g = h ∧ v = w) := by
  rw [moveTail, mem_addTail, mem_del]

theorem mem_moveHead : (g, v) ∈ (q.moveHead h w).entries ↔
    ((g, v) ∈ q.entries ∧ v ≠ w) ∨ (g = h ∧ v = w) := by
  rw [moveHead, mem_addHead, mem_del]

theorem linked_iff : q.linked w = true ↔ ∃ g, (g, w) ∈ q.entries := by
  simp [linked]

theorem not_linked_iff : q.linked w = false ↔ ∀ g, (g, w) ∉ q.entries := by
  rw [← Bool.not_eq_true, linked_iff, not_exists]

theorem weight_del_le (f : ω → ℕ) : (q.del w).weight f ≤ q.weight f := by
  unfold weight del
  induction q.entries with
  | nil => exact Nat.le_refl _
  | cons e l ih =>
    simp only [List.filter_cons, List.map_cons, List.sum_cons] at ih ⊢
    split_ifs
    · simp only [List.map_cons, List.sum_cons]
      omega
    · omega

/-- An item that has a weight is taken off its list. -/
theorem weight_del_lt {f : ω → ℕ} (hw : (h, w) ∈ q.entries) (hpos : 0 < f w) :
    (q.del w).weight f < q.weight f := by
  obtain ⟨l₁, l₂, hsplit⟩ := List.append_of_mem hw
  have h1 := weight_del_le (q := (⟨l₁⟩ : Queues η ω)) (w := w) f
  have h2 := weight_del_le (q := (⟨l₂⟩ : Queues η ω)) (w := w) f
  simp only [weight, del, hsplit, List.filter_append, List.filter_cons, List.map_append,
    List.map_cons, List.sum_append, List.sum_cons, ne_eq, not_true_eq_false, decide_false,
    Bool.false_eq_true, if_false] at h1 h2 ⊢
  omega

end

/-! Operations that name a list -/

section

variable {η ω : Type*} [DecidableEq η] (q : Queues η ω) (h : η)

/-- `list_empty` of a head -/
def isEmpty : Bool := !q.entries.any (·.1 = h)

/-- `list_first_entry` -/
def first : Option ω := (q.entries.find? (·.1 = h)).map (·.2)

variable {q h} {w : ω}

theorem isEmpty_iff : q.isEmpty h = true ↔ ∀ v, (h, v) ∉ q.entries := by
  simp only [isEmpty, Bool.not_eq_true', List.any_eq_false, decide_eq_true_eq, Prod.forall]
  exact ⟨fun hq v hv => hq h v hv rfl, fun hq g v hv hg => hq v (hg ▸ hv)⟩

theorem first_mem (hf : q.first h = some w) : (h, w) ∈ q.entries := by
  obtain ⟨⟨g, v⟩, he, rfl⟩ := Option.map_eq_some_iff.1 hf
  have hg : g = h := by simpa using List.find?_some he
  exact hg ▸ List.mem_of_find?_eq_some he

theorem first_none : q.first h = none ↔ q.isEmpty h = true := by
  simp [first, isEmpty]

end

end Queues

end Binder
