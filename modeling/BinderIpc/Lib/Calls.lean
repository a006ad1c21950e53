import Mathlib.Data.List.Find
import Mathlib.Data.List.Nodup
import Mathlib.Data.Set.Basic
import Mathlib.Logic.Function.Basic

/-! Nested calls between threads. A call has a sender and, once it is delivered,
a receiver, and is linked to the call in which it was made and to the call that
its receiver was in before. The calls form chains: each but the last was made by
the receiver of the next. Every thread takes part in one chain only, and its
stack lists the calls of that chain that it takes part in. -/

namespace Binder

structure Calls (τ κ : Type*) where
  call : κ → Prop
  src : κ → Option τ
  dst : κ → Option τ
  /-- the call in which this one was made -/
  parent : κ → Option κ
  /-- the call that the receiver was in before -/
  below : κ → Option κ
  /-- made, and not delivered yet -/
  queued : κ → Bool
  top : τ → Option κ

namespace Calls

variable {τ κ : Type*} {c c' : Calls τ κ} {T S R : τ} {t u : κ} {l m : List κ}

/-- What two states agree on for a call. -/
structure SameCall (c c' : Calls τ κ) (t : κ) : Prop where
  src : c'.src t = c.src t
  dst : c'.dst t = c.dst t
  parent : c'.parent t = c.parent t
  below : c'.below t = c.below t
  queued : c'.queued t = c.queued t

/-- What a walk down the stack of `T` meets: `below` at a call given to `T`,
`parent` at a call that `T` made. -/
inductive Walk (c : Calls τ κ) (T : τ) : Option κ → List κ → Prop
  | stop : Walk c T none []
  | incoming {t : κ} {l : List κ} (hd : c.dst t = some T) (h : Walk c T (c.below t) l) :
    Walk c T (some t) (t :: l)
  | outgoing {t : κ} {l : List κ} (hd : c.dst t ≠ some T) (hs : c.src t = some T)
    (h : Walk c T (c.parent t) l) : Walk c T (some t) (t :: l)

theorem Walk.congr {o : Option κ} (h : c.Walk T o l) (hs : ∀ t ∈ l, SameCall c c' t) :
    c'.Walk T o l := by
  induction h with
  | stop => exact .stop
  | @incoming t l hd _ ih =>
    have ht := hs t (by simp)
    exact .incoming (ht.dst ▸ hd) (ht.below ▸ ih fun u hu => hs u (by simp [hu]))
  | @outgoing t l hd hsrc _ ih =>
    have ht := hs t (by simp)
    exact .outgoing (ht.dst ▸ hd) (ht.src ▸ hsrc) (ht.parent ▸ ih fun u hu => hs u (by simp [hu]))

theorem Walk.head {o : Option κ} (h : c.Walk T o l) : o = l.head? := by
  cases h <;> rfl

theorem Walk.unique {o : Option κ} (h : c.Walk T o l) (h' : c.Walk T o m) : l = m := by
  induction h generalizing m with
  | stop => cases h'; rfl
  | incoming hd _ ih =>
    cases h' with
    | incoming _ h' => rw [ih h']
    | outgoing hd' => exact absurd hd hd'
  | outgoing hd _ _ ih =>
    cases h' with
    | incoming hd' => exact absurd hd' hd
    | outgoing _ _ h' => rw [ih h']

variable [DecidableEq τ]

/-- `T` made the call, or was given it. -/
def involves (c : Calls τ κ) (T : τ) (t : κ) : Bool :=
  c.src t = some T || (!c.queued t && c.dst t = some T)

theorem involves_iff : c.involves T t = true ↔ c.src t = some T ∨ (c.queued t = false ∧ c.dst t = some T) := by
  simp [involves]

/-- A chain, the innermost call first. -/
def Chain (c : Calls τ κ) : List κ → Prop
  | [] => True
  | t :: l =>
    c.parent t = l.head? ∧
    (∀ u ∈ l.head?, c.queued u = false ∧ c.src t = c.dst u) ∧
    (∀ S, c.queued t = false → c.dst t = some S → c.below t = l.find? (c.involves S)) ∧
    (∀ T, c.src t = some T → c.dst t ≠ some T) ∧
    c.Chain l

theorem SameCall.involves (h : SameCall c c' t) : c'.involves T t = c.involves T t := by
  rw [Calls.involves, Calls.involves, h.src, h.dst, h.queued]

theorem Chain.congr (h : c.Chain l) (hs : ∀ t ∈ l, SameCall c c' t) : c'.Chain l := by
  induction l with
  | nil => trivial
  | cons t l ih =>
    obtain ⟨h1, h2, h3, h4, h5⟩ := h
    have ht := hs t (by simp)
    have hl : ∀ u ∈ l, SameCall c c' u := fun u hu => hs u (by simp [hu])
    refine ⟨ht.parent ▸ h1, fun u hu => ?_, fun S hq hd => ?_, fun T hT => ?_, ih h5 hl⟩
    · have hm := hl u (List.mem_of_mem_head? hu)
      rw [hm.queued, hm.dst, ht.src]
      exact h2 u hu
    · rw [ht.below, List.find?_congr fun u hu => (hl u hu).involves]
      exact h3 S (ht.queued ▸ hq) (ht.dst ▸ hd)
    · rw [ht.dst]
      exact h4 T (ht.src ▸ hT)

theorem Chain.tail (h : c.Chain (t :: l)) : c.Chain l := h.2.2.2.2

/-- No thread calls itself. -/
theorem Chain.src_ne_dst (h : c.Chain l) (ht : t ∈ l) (hs : c.src t = some T) :
    c.dst t ≠ some T := by
  induction l with
  | nil => cases ht
  | cons u l ih =>
    rcases List.mem_cons.1 ht with rfl | ht
    · exact h.2.2.2.1 T hs
    · exact ih h.tail ht

/-- Only the innermost call of a chain can be waiting to be delivered. -/
theorem Chain.queued_tail (h : c.Chain (t :: l)) : ∀ u ∈ l, c.queued u = false := by
  induction l generalizing t with
  | nil => simp
  | cons u l ih =>
    rintro v (_ | ⟨_, hv⟩)
    · exact (h.2.1 u rfl).1
    · exact ih h.tail v hv

theorem Chain.eq_head (h : c.Chain l) (ht : t ∈ l) (hq : c.queued t = true) :
    ∃ post, l = t :: post := by
  cases l with
  | nil => cases ht
  | cons a l =>
    rcases List.mem_cons.1 ht with rfl | ht
    · exact ⟨l, rfl⟩
    · rw [h.queued_tail t ht] at hq
      cases hq

/-- A thread whose latest call was given to it is at the tip of its chain: a call
made inside it would be a later one. -/
theorem Chain.eq_head_of_find (h : c.Chain l) (hf : l.find? (c.involves T) = some t)
    (hd : c.dst t = some T) : ∃ post, l = t :: post := by
  induction l with
  | nil => cases hf
  | cons a l ih =>
    rw [List.find?_cons] at hf
    cases ha : c.involves T a with
    | true =>
      simp only [ha, Option.some.injEq] at hf
      exact ⟨l, hf ▸ rfl⟩
    | false =>
      simp only [ha] at hf
      obtain ⟨post, rfl⟩ := ih h.tail hf
      have hsrc := (h.2.1 t rfl).2
      rw [hd] at hsrc
      simp [Calls.involves, hsrc] at ha

/-! The stack of a thread -/

theorem Chain.walk (h : c.Chain l) (T : τ) :
    c.Walk T (l.find? (c.involves T)) (l.filter (c.involves T)) := by
  induction l with
  | nil => exact .stop
  | cons t l ih =>
    obtain ⟨h1, h2, h3, h4, h5⟩ := h
    rw [List.find?_cons, List.filter_cons]
    cases ht : c.involves T t with
    | false => simpa using ih h5
    | true =>
      rcases involves_iff.1 ht with hs | ⟨hq, hd⟩
      · refine .outgoing (h4 T hs) hs ?_
        have hnext : c.parent t = l.find? (c.involves T) := by
          rw [h1]
          cases l with
          | nil => rfl
          | cons u l =>
            obtain ⟨hq, hd⟩ := h2 u rfl
            rw [hs] at hd
            simp [Calls.involves, hq, ← hd]
        exact hnext ▸ ih h5
      · exact .incoming hd (h3 T hq hd ▸ ih h5)

/-! All chains -/

/-- The calls form the chains of `F`. Threads of which `gone` holds take part in
none, and the call `loose` is the only one that may be at the tip of a chain
without being queued or held by a thread. -/
structure Forest (c : Calls τ κ) (gone : τ → Prop) (loose : Option κ) (F : Set (List κ)) : Prop where
  nil : [] ∈ F
  chain : ∀ l ∈ F, c.Chain l
  nodup : ∀ l ∈ F, l.Nodup
  call_iff : ∀ t, c.call t ↔ ∃ l ∈ F, t ∈ l
  disjoint : ∀ l ∈ F, ∀ m ∈ F, ∀ t, t ∈ l → t ∈ m → l = m
  stack : ∀ T, ∃ l ∈ F, (∀ t, c.call t → c.involves T t = true → t ∈ l) ∧
    c.top T = l.find? (c.involves T)
  busy : ∀ l ∈ F, ∀ t ∈ l, ∀ R, c.queued t = true → c.dst t = some R →
    gone R ∨ ∃ u ∈ l, c.involves R u = true
  tip : ∀ t l, t :: l ∈ F → c.queued t = true ∨ (c.dst t).isSome ∨ loose = some t
  loose_tip : ∀ t, loose = some t → ∃ l, t :: l ∈ F

/-- `F` with the chain `l` in place of the chain `m`. -/
def replace (F : Set (List κ)) (m l : List κ) : Set (List κ) :=
  {k | k = l ∨ k = [] ∨ (k ∈ F ∧ k ≠ m)}

namespace Forest

variable {gone gone' : τ → Prop} {loose : Option κ} {F : Set (List κ)}

theorem congr (h : Forest c gone loose F) (hcall : ∀ t, c'.call t ↔ c.call t)
    (hs : ∀ t, c.call t → SameCall c c' t) (htop : ∀ T, c'.top T = c.top T)
    (hgone : ∀ T, gone T → gone' T) : Forest c' gone' loose F := by
  have hm : ∀ l ∈ F, ∀ t ∈ l, SameCall c c' t := fun l hl t ht =>
    hs t ((h.call_iff t).2 ⟨l, hl, ht⟩)
  refine ⟨h.nil, fun l hl => (h.chain l hl).congr (hm l hl), h.nodup, fun t => ?_, h.disjoint,
    fun T => ?_, fun l hl t ht R hq hd => ?_, fun t l hl => ?_, h.loose_tip⟩
  · rw [hcall, h.call_iff]
  · obtain ⟨l, hl, hin, hf⟩ := h.stack T
    refine ⟨l, hl, fun t ht hi => hin t ((hcall t).1 ht) ?_, ?_⟩
    · rwa [← (hs t ((hcall t).1 ht)).involves]
    · rw [htop, hf, List.find?_congr fun t ht => (hm l hl t ht).involves]
  · have hst := hm l hl t ht
    rcases h.busy l hl t ht R (hst.queued ▸ hq) (hst.dst ▸ hd) with hg | ⟨u, hu, hi⟩
    · exact Or.inl (hgone R hg)
    · exact Or.inr ⟨u, hu, by rwa [(hm l hl u hu).involves]⟩
  · have hst := hm (t :: l) hl t (by simp)
    rw [hst.queued, hst.dst]
    exact h.tip t l hl

theorem mem_call (h : Forest c gone loose F) (hl : l ∈ F) (ht : t ∈ l) : c.call t :=
  (h.call_iff t).2 ⟨l, hl, ht⟩

theorem src_ne_dst (h : Forest c gone loose F) (ht : c.call t) (hs : c.src t = some T) :
    c.dst t ≠ some T := by
  obtain ⟨l, hl, htl⟩ := (h.call_iff t).1 ht
  exact (h.chain l hl).src_ne_dst htl hs

theorem involves_none (h : Forest c gone loose F) (htop : c.top T = none) (ht : c.call t) :
    c.involves T t = false := by
  obtain ⟨l, hl, hin, hf⟩ := h.stack T
  rw [htop] at hf
  by_contra hi
  rw [Bool.not_eq_false] at hi
  exact List.find?_eq_none.1 hf.symm t (hin t ht hi) hi

/-- A thread whose latest call was given to it has that call at the tip of its chain. -/
theorem tip_of_top (h : Forest c gone loose F) (htop : c.top T = some t)
    (hd : c.dst t = some T) :
    ∃ post, t :: post ∈ F ∧ ∀ u, c.call u → c.involves T u = true → u ∈ t :: post := by
  obtain ⟨l, hl, hin, hf⟩ := h.stack T
  obtain ⟨post, rfl⟩ := (h.chain l hl).eq_head_of_find (htop ▸ hf).symm hd
  exact ⟨post, hl, hin⟩

theorem top_call (h : Forest c gone loose F) (htop : c.top T = some t) :
    c.call t ∧ c.involves T t = true := by
  obtain ⟨l, hl, -, hf⟩ := h.stack T
  rw [htop] at hf
  exact ⟨h.mem_call hl (List.mem_of_find?_eq_some hf.symm), List.find?_some hf.symm⟩

/-- The sender of the call at the tip of a chain waits for it. -/
theorem top_of_tip (h : Forest c gone loose F) (hl : t :: l ∈ F) (hs : c.src t = some T) :
    c.top T = some t := by
  obtain ⟨m, hm, hin, hf⟩ := h.stack T
  have hi : c.involves T t = true := involves_iff.2 (Or.inl hs)
  obtain rfl := h.disjoint m hm _ hl t (hin t (h.mem_call hl (by simp)) hi) (by simp)
  rw [hf, List.find?_cons, hi]

theorem walk (h : Forest c gone loose F) (T : τ) :
    ∃ l, c.Walk T (c.top T) l ∧ l.Nodup ∧ ∀ t, t ∈ l ↔ c.call t ∧ c.involves T t = true := by
  obtain ⟨l, hl, hin, hf⟩ := h.stack T
  refine ⟨_, hf ▸ (h.chain l hl).walk T, (h.nodup l hl).filter _, fun t => ?_⟩
  rw [List.mem_filter]
  exact ⟨fun ht => ⟨h.mem_call hl ht.1, ht.2⟩, fun ht => ⟨hin t ht.1 ht.2, ht.2⟩⟩

end Forest

end Calls

end Binder
