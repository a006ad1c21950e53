import BinderIpc.Lib.Heap
import Mathlib.Data.List.Nodup

/-! How many of the objects that were given out have a property. -/

namespace Binder

/-- One element of a list starts or stops to count. -/
theorem countP_change {l : List ℕ} (hl : l.Nodup) {r : ℕ} (hr : r ∈ l) {f g : ℕ → Bool}
    (hfg : ∀ x ∈ l, x ≠ r → g x = f x) :
    l.countP g + (if f r then 1 else 0) = l.countP f + (if g r then 1 else 0) := by
  have hrest : (l.erase r).countP g = (l.erase r).countP f :=
    List.countP_congr fun x hx => by
      rw [hfg x (List.mem_of_mem_erase hx) fun he => hl.not_mem_erase (he ▸ hx)]
  have hf : l.countP f = (l.erase r).countP f + if f r then 1 else 0 := by
    rw [(List.perm_cons_erase hr).countP_eq f, List.countP_cons]
  have hg : l.countP g = (l.erase r).countP g + if g r then 1 else 0 := by
    rw [(List.perm_cons_erase hr).countP_eq g, List.countP_cons]
  omega

namespace Heap

variable {α : Type*} (h : Heap α) {i : ℕ} {f : α → α} (a : α) (p : α → Bool)

def count : ℕ := (List.range h.next).countP fun i => p (h.get i)

@[simp] theorem count_empty [Inhabited α] : (empty : Heap α).count p = 0 := rfl

theorem count_modify (hi : i < h.next) :
    (h.modify i f).count p + (if p (h.get i) then 1 else 0) =
      h.count p + if p (f (h.get i)) then 1 else 0 := by
  have hchange := countP_change (f := fun j => p (h.get j)) (g := fun j => p ((h.modify i f).get j))
    List.nodup_range (List.mem_range.2 hi) fun j _ hj => by rw [get_modify_ne h i j f hj]
  simp only [get_modify_self] at hchange
  exact hchange

/-- The property does not change. -/
theorem count_modify_eq (hp : p (f (h.get i)) = p (h.get i)) : (h.modify i f).count p = h.count p := by
  unfold count
  refine List.countP_congr fun j _ => ?_
  rw [get_modify]
  split_ifs with hj
  · rw [hp, hj]
  · exact Iff.rfl

theorem count_alloc : (h.alloc a).count p = h.count p + if p a then 1 else 0 := by
  have hold : (List.range h.next).countP (fun i => p ((h.alloc a).get i)) = h.count p :=
    List.countP_congr fun j hj => by
      rw [get_alloc_ne h j a (Nat.ne_of_lt (List.mem_range.1 hj))]
  unfold count
  rw [next_alloc, List.range_succ, List.countP_append, hold, List.countP_singleton, get_alloc_self]
  rfl

theorem count_pos_of (hi : i < h.next) (hp : p (h.get i) = true) : 0 < h.count p :=
  List.countP_pos_iff.2 ⟨i, List.mem_range.2 hi, hp⟩

theorem count_eq_zero_iff : h.count p = 0 ↔ ∀ i < h.next, p (h.get i) = false := by
  simp only [count, List.countP_eq_zero, List.mem_range, Bool.not_eq_true]

end Heap

end Binder
