import Mathlib.Tactic
import Mathlib.Data.List.Pairwise
import Mathlib.Data.List.Nodup

/-! Cutting an interval by headers. A list of header addresses tiles the
interval up to `limit` when every header of `h` bytes ends before the next
one starts; the gap behind a header is what is left up to its successor. -/

namespace Binder

/-- The first address of a list of headers, `limit` when there is none. -/
def startOf (limit : ℕ) : List ℕ → ℕ
  | [] => limit
  | a :: _ => a

def gap (h limit : ℕ) : List ℕ → ℕ → ℕ
  | [], _ => 0
  | x :: l, a => if x = a then startOf limit l - (x + h) else gap h limit l a

def Tiled (h limit : ℕ) (l : List ℕ) : Prop := (l ++ [limit]).Pairwise fun x y => x + h ≤ y

section

variable {h limit : ℕ} {pre post l : List ℕ} {a n c : ℕ}

@[simp] theorem startOf_nil : startOf limit [] = limit := rfl

@[simp] theorem startOf_cons : startOf limit (a :: l) = a := rfl

theorem startOf_append : startOf limit (pre ++ post) = startOf (startOf limit post) pre := by
  cases pre <;> rfl

theorem startOf_mem : startOf limit l ∈ l ++ [limit] := by
  cases l <;> simp

theorem gap_append_left (hc : c ∈ pre) :
    gap h limit (pre ++ post) c = gap h (startOf limit post) pre c := by
  induction pre with
  | nil => simp at hc
  | cons x pre ih =>
    simp only [List.cons_append, gap, startOf_append]
    split_ifs with hx
    · rfl
    · exact ih (by simpa [Ne.symm hx] using hc)

theorem gap_append_right (hc : c ∉ pre) : gap h limit (pre ++ post) c = gap h limit post c := by
  induction pre with
  | nil => rfl
  | cons x pre ih =>
    simp only [List.mem_cons, not_or] at hc
    simp only [List.cons_append, gap, if_neg (Ne.symm hc.1)]
    exact ih hc.2

theorem gap_cons_self : gap h limit (a :: l) a = startOf limit l - (a + h) := by simp [gap]

theorem gap_cons_ne (hc : c ≠ a) : gap h limit (a :: l) c = gap h limit l c := by
  simp [gap, Ne.symm hc]

theorem gap_self (ha : a ∉ pre) :
    gap h limit (pre ++ a :: post) a = startOf limit post - (a + h) := by
  rw [gap_append_right ha, gap_cons_self]

namespace Tiled

theorem sublist {l' : List ℕ} (ht : Tiled h limit l) (hs : l'.Sublist l) : Tiled h limit l' :=
  List.Pairwise.sublist (hs.append_right _) ht

theorem suffix (ht : Tiled h limit (pre ++ post)) : Tiled h limit post :=
  ht.sublist (List.sublist_append_right _ _)

theorem before (ht : Tiled h limit (pre ++ a :: post)) : Tiled h a pre := by
  refine List.Pairwise.sublist ?_ ht
  rw [List.append_assoc, List.cons_append]
  exact ((List.nil_sublist _).cons_cons a).append_left pre

theorem startOf_le (ht : Tiled h limit (a :: l)) : a + h ≤ startOf limit l := by
  rw [Tiled, List.cons_append, List.pairwise_cons] at ht
  exact ht.1 _ startOf_mem

theorem add_le (ht : Tiled h limit (pre ++ a :: post)) : a + h ≤ startOf limit post :=
  ht.suffix.startOf_le

/-- Everything before a header ends before it starts. -/
theorem le_of_mem_pre (ht : Tiled h limit (pre ++ a :: post)) (hc : c ∈ pre) : c + h ≤ a := by
  rw [Tiled, List.append_assoc, List.pairwise_append] at ht
  exact ht.2.2 c hc a (by simp)

theorem le_of_mem_post (ht : Tiled h limit (pre ++ a :: post)) (hc : c ∈ post) : a + h ≤ c := by
  have := ht.suffix
  rw [Tiled, List.cons_append, List.pairwise_cons] at this
  exact this.1 c (by simp [hc])

theorem startOf_le_of_mem (ht : Tiled h limit post) (hc : c ∈ post) : startOf limit post ≤ c := by
  cases post with
  | nil => simp at hc
  | cons x post =>
    rcases List.mem_cons.1 hc with rfl | hc
    · exact le_rfl
    · have := le_of_mem_post (show Tiled h limit ([] ++ x :: post) from ht) hc
      simp only [startOf_cons]
      omega

theorem mem_le (ht : Tiled h limit l) (hc : c ∈ l) : c + h ≤ limit := by
  rw [Tiled, List.pairwise_append] at ht
  exact ht.2.2 c hc limit (by simp)

theorem startOf_le_limit (ht : Tiled h limit l) : startOf limit l ≤ limit := by
  cases l with
  | nil => exact le_rfl
  | cons x l =>
    have := ht.mem_le (List.mem_cons_self)
    simp only [startOf_cons]
    omega

theorem head_le (ht : Tiled h limit l) (hn : l.head? = some n) (hc : c ∈ l) : n ≤ c := by
  have := ht.startOf_le_of_mem hc
  cases l with
  | nil => simp at hc
  | cons x l =>
    obtain rfl : x = n := by simpa using hn
    exact this

theorem pairwise_lt (ht : Tiled h limit l) (hh : 0 < h) : l.Pairwise (· < ·) := by
  rw [Tiled, List.pairwise_append] at ht
  exact ht.1.imp (by omega)

theorem nodup (ht : Tiled h limit l) (hh : 0 < h) : l.Nodup :=
  (ht.pairwise_lt hh).imp (by omega)

theorem not_mem_pre (ht : Tiled h limit (pre ++ a :: post)) (hh : 0 < h) : a ∉ pre :=
  fun hc => by have := ht.le_of_mem_pre hc; omega

theorem not_mem_post (ht : Tiled h limit (pre ++ a :: post)) (hh : 0 < h) : a ∉ post :=
  fun hc => by have := ht.le_of_mem_post hc; omega

/-- A gap that has room for a header can be cut in two. -/
theorem insert (ht : Tiled h limit (pre ++ a :: post)) (h1 : a + h ≤ n)
    (h2 : n + h ≤ startOf limit post) : Tiled h limit (pre ++ a :: n :: post) := by
  have hpost : ∀ y ∈ post ++ [limit], startOf limit post ≤ y := fun y hy => by
    rcases List.mem_append.1 hy with hy | hy
    · exact (ht.suffix.sublist (List.sublist_cons_self a post)).startOf_le_of_mem hy
    · rw [List.mem_singleton.1 hy]
      exact (ht.suffix.sublist (List.sublist_cons_self a post)).startOf_le_limit
  simp only [Tiled, List.append_assoc, List.cons_append, List.pairwise_append,
    List.pairwise_cons, List.mem_cons] at ht ⊢
  obtain ⟨hp, ⟨ha, hq⟩, hpq⟩ := ht
  have hnpost : ∀ y ∈ post ++ [limit], n + h ≤ y := fun y hy => h2.trans (hpost y hy)
  refine ⟨hp, ⟨?_, hnpost, hq⟩, fun x hx y hy => ?_⟩
  · rintro y (rfl | hy)
    · exact h1
    · exact ha y hy
  · rcases hy with rfl | rfl | hy
    · exact hpq x hx y (Or.inl rfl)
    · have := hpq x hx a (Or.inl rfl)
      omega
    · exact hpq x hx y (Or.inr hy)

end Tiled

/-- Gaps are disjoint: the gap of a header ends before the next one begins. -/
theorem Tiled.add_gap (ht : Tiled h limit (pre ++ a :: post)) (hh : 0 < h) :
    a + h + gap h limit (pre ++ a :: post) a = startOf limit post := by
  rw [gap_self (ht.not_mem_pre hh)]
  have := ht.add_le
  omega

theorem Tiled.gap_le (ht : Tiled h limit l) (hh : 0 < h) (ha : a ∈ l) :
    a + h + gap h limit l a ≤ limit := by
  obtain ⟨pre, post, rfl⟩ := List.append_of_mem ha
  rw [ht.add_gap hh]
  exact (ht.suffix.sublist (List.sublist_cons_self a post)).startOf_le_limit

/-- Cutting the gap behind `a` at `n` changes no other gap. -/
theorem gap_insert (hc : c ≠ a) (hn : c ≠ n) :
    gap h limit (pre ++ a :: n :: post) c = gap h limit (pre ++ a :: post) c := by
  by_cases hp : c ∈ pre
  · simp only [gap_append_left hp, startOf_cons]
  · simp only [gap_append_right hp, gap_cons_ne hc, gap_cons_ne hn]

end

end Binder
