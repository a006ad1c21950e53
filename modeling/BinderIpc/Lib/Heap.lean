import Mathlib.Data.List.Basic

/-! Objects by number. A number is given out once and never reused, so a freed
object stays behind as it was and can be told from every later one. -/

namespace Binder

structure Heap (α : Type*) where
  next : ℕ
  get : ℕ → α

namespace Heap

variable {α : Type*} (h : Heap α) (i j : ℕ) (a : α) (f : α → α)

def empty [Inhabited α] : Heap α := ⟨0, fun _ => default⟩

def modify : Heap α := { h with get := fun j => if j = i then f (h.get i) else h.get j }

/-- Stores `a` under the next number. -/
def alloc : Heap α := { next := h.next + 1, get := fun j => if j = h.next then a else h.get j }

@[simp] theorem next_empty [Inhabited α] : (empty : Heap α).next = 0 := rfl

@[simp] theorem get_empty [Inhabited α] : (empty : Heap α).get i = default := rfl

@[simp] theorem next_modify : (h.modify i f).next = h.next := rfl

theorem get_modify : (h.modify i f).get j = if j = i then f (h.get i) else h.get j := rfl

@[simp] theorem get_modify_self : (h.modify i f).get i = f (h.get i) := if_pos rfl

theorem get_modify_ne (hne : j ≠ i) : (h.modify i f).get j = h.get j := if_neg hne

/-- What every object keeps, the modified one keeps. -/
theorem apply_get_modify {β : Type*} (g : α → β) (hg : ∀ x, g (f x) = g x) :
    g ((h.modify i f).get j) = g (h.get j) := by
  rw [get_modify]
  split_ifs with hj
  · rw [hg, hj]
  · rfl

theorem modify_modify (g : α → α) : (h.modify i f).modify i g = h.modify i fun x => g (f x) := by
  have hget : ((h.modify i f).modify i g).get = (h.modify i fun x => g (f x)).get := by
    funext j
    simp only [get_modify, if_true]
    split_ifs <;> rfl
  exact congrArg (Heap.mk h.next) hget

@[simp] theorem next_alloc : (h.alloc a).next = h.next + 1 := rfl

theorem get_alloc : (h.alloc a).get j = if j = h.next then a else h.get j := rfl

@[simp] theorem get_alloc_self : (h.alloc a).get h.next = a := if_pos rfl

theorem get_alloc_ne (hne : j ≠ h.next) : (h.alloc a).get j = h.get j := if_neg hne

end Heap

end Binder
