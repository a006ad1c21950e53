import Mathlib.Data.List.Pairwise
import Mathlib.Data.List.Nodup
import Mathlib.Data.List.Perm.Basic

/-! Binary search trees whose rebalancing is not looked into. A node is linked
at the leaf that a descent reaches; what the rebalancing and the removal do is
known only through the in-order sequence. -/

namespace Binder

inductive Tree (α : Type*)
  | leaf
  | node (l : Tree α) (a : α) (r : Tree α)
  deriving Repr, DecidableEq

namespace Tree

variable {α : Type*}

def inorder : Tree α → List α
  | leaf => []
  | node l a r => l.inorder ++ a :: r.inorder

/-- Links `x` at the leaf reached by going left at `y` exactly when `left y`. -/
def link (left : α → Bool) (x : α) : Tree α → Tree α
  | leaf => node leaf x leaf
  | node l a r => if left a then node (l.link left x) a r else node l a (r.link left x)

/-- The nodes that the descent visits. -/
def path (left : α → Bool) : Tree α → List α
  | leaf => []
  | node l a r => a :: if left a then l.path left else r.path left

/-- The descent for a key, `cmp a` telling how the key compares with `a`'s. -/
def search (cmp : α → Ordering) : Tree α → Option α
  | leaf => none
  | node l a r =>
    match cmp a with
    | .lt => l.search cmp
    | .gt => r.search cmp
    | .eq => some a

@[simp] theorem inorder_leaf : (leaf : Tree α).inorder = [] := rfl

@[simp] theorem inorder_node (l : Tree α) (a : α) (r : Tree α) :
    (node l a r).inorder = l.inorder ++ a :: r.inorder := rfl

theorem link_perm (left : α → Bool) (x : α) (t : Tree α) :
    (t.link left x).inorder.Perm (x :: t.inorder) := by
  induction t with
  | leaf => exact List.Perm.refl _
  | node l a r ihl ihr =>
    simp only [link]
    split_ifs
    · exact (ihl.append_right (a :: r.inorder))
    · have h1 : (l.inorder ++ a :: (r.link left x).inorder).Perm
          (l.inorder ++ a :: x :: r.inorder) := (ihr.cons a).append_left _
      have h2 : (l.inorder ++ a :: x :: r.inorder).Perm (l.inorder ++ x :: a :: r.inorder) :=
        (List.Perm.swap x a _).append_left _
      exact (h1.trans h2).trans List.perm_middle

/-- Linking keeps a sorted sequence sorted, when going left means that `x`
may stand before and going right that it may stand after. -/
theorem link_pairwise {R : α → α → Prop} (hR : ∀ {a b c}, R a b → R b c → R a c)
    (left : α → Bool) (x : α) (t : Tree α) (hs : t.inorder.Pairwise R)
    (hl : ∀ a ∈ t.inorder, left a = true → R x a) (hr : ∀ a ∈ t.inorder, left a = false → R a x) :
    (t.link left x).inorder.Pairwise R := by
  induction t with
  | leaf => simp [link]
  | node l a r ihl ihr =>
    simp only [inorder_node, List.pairwise_append, List.pairwise_cons, List.mem_cons] at hs
    obtain ⟨hsl, ⟨har, hsr⟩, hlr⟩ := hs
    simp only [inorder_node, List.mem_append, List.mem_cons] at hl hr
    simp only [link]
    split_ifs with h
    · have hxa := hl a (Or.inr (Or.inl rfl)) h
      have ih := ihl hsl (fun b hb => hl b (Or.inl hb)) (fun b hb => hr b (Or.inl hb))
      simp only [inorder_node, List.pairwise_append, List.pairwise_cons, List.mem_cons]
      refine ⟨ih, ⟨har, hsr⟩, fun b hb c hc => ?_⟩
      rcases List.mem_cons.1 ((link_perm left x l).subset hb) with rfl | hb
      · rcases hc with rfl | hc
        · exact hxa
        · exact hR hxa (har c hc)
      · exact hlr b hb c hc
    · have hax := hr a (Or.inr (Or.inl rfl)) (by simpa using h)
      have ih := ihr hsr (fun b hb => hl b (Or.inr (Or.inr hb))) (fun b hb => hr b (Or.inr (Or.inr hb)))
      have hmem := fun b => (link_perm left x r).mem_iff (a := b)
      simp only [inorder_node, List.pairwise_append, List.pairwise_cons, List.mem_cons]
      refine ⟨hsl, ⟨fun b hb => ?_, ih⟩, fun b hb c hc => ?_⟩
      · rcases List.mem_cons.1 ((hmem b).1 hb) with rfl | hb
        · exact hax
        · exact har b hb
      · rcases hc with rfl | hc
        · exact hlr b hb c (Or.inl rfl)
        · rcases List.mem_cons.1 ((hmem c).1 hc) with rfl | hc
          · exact hR (hlr b hb a (Or.inl rfl)) hax
          · exact hlr b hb c (Or.inr hc)

end Tree

/-- What the kernel's red-black trees promise: `insertColor` rebalances after a
link and `erase` removes one node, both without disturbing the order. -/
structure RbTree (α : Type*) [DecidableEq α] where
  insertColor : Tree α → Tree α
  erase : α → Tree α → Tree α
  inorder_insertColor : ∀ t, (insertColor t).inorder = t.inorder
  inorder_erase : ∀ a t, (erase a t).inorder = t.inorder.erase a

attribute [simp] RbTree.inorder_insertColor RbTree.inorder_erase

namespace Tree

variable {α : Type*}

def join : Tree α → Tree α → Tree α
  | leaf, t => t
  | node l a r, t => node l a (r.join t)

@[simp] theorem inorder_join (s t : Tree α) : (s.join t).inorder = s.inorder ++ t.inorder := by
  induction s with
  | leaf => rfl
  | node l a r _ ih => simp [join, ih]

def remove [DecidableEq α] (x : α) : Tree α → Tree α
  | leaf => leaf
  | node l a r =>
    if x ∈ l.inorder then node (l.remove x) a r
    else if a = x then l.join r
    else node l a (r.remove x)

theorem inorder_remove [DecidableEq α] (x : α) (t : Tree α) :
    (t.remove x).inorder = t.inorder.erase x := by
  induction t with
  | leaf => rfl
  | node l a r ihl ihr =>
    simp only [remove]
    split_ifs with hl ha
    · simp [ihl, List.erase_append_left _ hl]
    · subst ha
      simp [List.erase_append_right _ hl]
    · simp [ihr, List.erase_append_right _ hl, List.erase_cons_tail, ha]

end Tree

/-- Trees that are never rebalanced. -/
def RbTree.plain {α : Type*} [DecidableEq α] : RbTree α where
  insertColor t := t
  erase := Tree.remove
  inorder_insertColor _ := rfl
  inorder_erase := Tree.inorder_remove

end Binder
