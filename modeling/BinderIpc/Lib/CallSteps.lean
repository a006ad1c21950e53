import BinderIpc.Lib.Calls

/-! What happens to nested calls: a call is made, delivered, taken from where it
waits or is worked on, ended, and a thread dies. Each step relates the fields of
two states, and each keeps the chains. -/

namespace Binder

namespace Calls

variable {τ κ : Type*} [DecidableEq τ] {c c' : Calls τ κ} {T R : τ} {t : κ}

/-- `T` makes the call `t`, inside the call at the top of its stack. -/
structure Pushed (c c' : Calls τ κ) (T : τ) (t : κ) : Prop where
  call : ∀ u, c'.call u ↔ u = t ∨ c.call u
  same : ∀ u, c.call u → SameCall c c' u
  src : c'.src t = some T
  parent : c'.parent t = c.top T
  queued : c'.queued t = true
  top : ∀ S, c'.top S = if S = T then some t else c.top S

/-- The call `t` is given to `R`. -/
structure Delivered (c c' : Calls τ κ) (R : τ) (t : κ) : Prop where
  call : ∀ u, c'.call u ↔ c.call u
  same : ∀ u, c.call u → u ≠ t → SameCall c c' u
  src : c'.src t = c.src t
  dst : c'.dst t = some R
  parent : c'.parent t = c.parent t
  below : c'.below t = c.top R
  queued : c'.queued t = false
  top : ∀ S, c'.top S = if S = R then some t else c.top S

/-- The call `t` leaves its queue or its receiver. -/
structure Detached (c c' : Calls τ κ) (t : κ) : Prop where
  call : ∀ u, c'.call u ↔ c.call u
  same : ∀ u, c.call u → u ≠ t → SameCall c c' u
  src : c'.src t = c.src t
  dst : c'.dst t = none
  parent : c'.parent t = c.parent t
  queued : c'.queued t = false
  top : ∀ S, c'.top S = if c.queued t = false ∧ c.dst t = some S then c.below t else c.top S

/-- The call `t` ends. -/
structure Ended (c c' : Calls τ κ) (t : κ) : Prop where
  call : ∀ u, c'.call u ↔ c.call u ∧ u ≠ t
  same : ∀ u, c.call u → u ≠ t → SameCall c c' u
  top : ∀ S, c'.top S = if c.src t = some S then c.parent t else c.top S

/-- `T` leaves all its calls. -/
structure Died (c c' : Calls τ κ) (T : τ) : Prop where
  call : ∀ u, c'.call u ↔ c.call u
  src : ∀ u, c.call u → c'.src u = if c.src u = some T then none else c.src u
  dst : ∀ u, c.call u →
    c'.dst u = if c.queued u = false ∧ c.dst u = some T then none else c.dst u
  parent : ∀ u, c.call u → c'.parent u = c.parent u
  below : ∀ u, c.call u → c'.below u = c.below u
  queued : ∀ u, c.call u → c'.queued u = c.queued u
  top : ∀ S, c'.top S = if S = T then none else c.top S

namespace Forest

variable {gone : τ → Prop} {loose : Option κ} {F : Set (List κ)} {l post : List κ}

/-- The chain at whose tip a thread works that waits for no call. -/
theorem exists_tip (h : Forest c gone loose F) (htop : ∀ u, c.top T = some u → c.dst u = some T) :
    ∃ l ∈ F, l.head? = c.top T ∧ ∀ u, c.call u → c.involves T u = true → u ∈ l := by
  cases ht : c.top T with
  | none =>
    refine ⟨[], h.nil, rfl, fun u hu hi => ?_⟩
    rw [h.involves_none ht hu] at hi
    cases hi
  | some u =>
    obtain ⟨post, hl, hin⟩ := h.tip_of_top ht (htop u ht)
    exact ⟨_, hl, rfl, hin⟩

theorem push (h : Forest c gone none F) (hp : Pushed c c' T t) (hnew : ¬c.call t) (hl : l ∈ F)
    (hhead : l.head? = c.top T) (hin : ∀ u, c.call u → c.involves T u = true → u ∈ l)
    (htop : ∀ u, c.top T = some u → c.queued u = false ∧ c.dst u = some T)
    (hself : c'.dst t ≠ some T)
    (hroute : ∀ S, c'.dst t = some S → gone S ∨ ∃ u ∈ l, c.involves S u = true) :
    Forest c' gone none (replace F l (t :: l)) := by
  have hnot : ∀ m ∈ F, t ∉ m := fun m hm ht => hnew (h.mem_call hm ht)
  have hsame : ∀ m ∈ F, ∀ u ∈ m, SameCall c c' u := fun m hm u hu => hp.same u (h.mem_call hm hu)
  have hinv : ∀ S u, c.call u → c'.involves S u = c.involves S u := fun S u hu =>
    (hp.same u hu).involves
  have hinvt : ∀ S, c'.involves S t = true ↔ S = T := fun S => by
    simp [Calls.involves, hp.src, hp.queued, eq_comm]
  refine ⟨Or.inr (Or.inl rfl), ?_, ?_, fun u => ?_, ?_, fun S => ?_, ?_, ?_, by simp⟩
  · rintro m (rfl | rfl | ⟨hm, -⟩)
    · refine ⟨hp.parent.trans hhead.symm, fun u hu => ?_, fun S hq => ?_, fun S hS => ?_,
        (h.chain l hl).congr (hsame l hl)⟩
      · rw [(hsame l hl u (List.mem_of_mem_head? hu)).queued,
          (hsame l hl u (List.mem_of_mem_head? hu)).dst, hp.src]
        exact ⟨(htop u (hhead ▸ hu)).1, (htop u (hhead ▸ hu)).2.symm⟩
      · simp [hp.queued] at hq
      · rw [hp.src] at hS
        cases hS
        exact hself
    · trivial
    · exact (h.chain m hm).congr (hsame m hm)
  · rintro m (rfl | rfl | ⟨hm, -⟩)
    · exact List.nodup_cons.2 ⟨hnot l hl, h.nodup l hl⟩
    · exact List.nodup_nil
    · exact h.nodup m hm
  · rw [hp.call]
    constructor
    · rintro (rfl | hu)
      · exact ⟨_, Or.inl rfl, by simp⟩
      · obtain ⟨m, hm, hum⟩ := (h.call_iff u).1 hu
        by_cases hml : m = l
        · exact ⟨_, Or.inl rfl, List.mem_cons_of_mem _ (hml ▸ hum)⟩
        · exact ⟨m, Or.inr (Or.inr ⟨hm, hml⟩), hum⟩
    · rintro ⟨m, rfl | rfl | ⟨hm, -⟩, hu⟩
      · rcases List.mem_cons.1 hu with rfl | hu
        · exact Or.inl rfl
        · exact Or.inr (h.mem_call hl hu)
      · cases hu
      · exact Or.inr (h.mem_call hm hu)
  · have hother : ∀ m ∈ F, m ≠ l → ∀ u ∈ t :: l, u ∉ m := fun m hm hml u hu hum => by
      rcases List.mem_cons.1 hu with rfl | hu
      · exact hnot m hm hum
      · exact hml (h.disjoint m hm l hl u hum hu)
    rintro m (rfl | rfl | ⟨hm, hml⟩) k (rfl | rfl | ⟨hk, hkl⟩) u hum huk
    · rfl
    · cases huk
    · exact absurd huk (hother k hk hkl u hum)
    · cases hum
    · rfl
    · cases hum
    · exact absurd hum (hother m hm hml u huk)
    · cases huk
    · exact h.disjoint m hm k hk u hum huk
  · rw [hp.top]
    by_cases hST : S = T
    · subst hST
      refine ⟨t :: l, Or.inl rfl, fun u hu hi => ?_, ?_⟩
      · rcases (hp.call u).1 hu with rfl | hu
        · simp
        · exact List.mem_cons_of_mem _ (hin u hu (hinv S u hu ▸ hi))
      · rw [if_pos rfl, List.find?_cons, (hinvt S).2 rfl]
    · have ht : c'.involves S t = false := by
        rw [← Bool.not_eq_true, hinvt]
        exact hST
      obtain ⟨m, hm, hmin, hf⟩ := h.stack S
      have hf' : c.top S = m.find? (c'.involves S) := by
        rw [hf, List.find?_congr fun u hu => hinv S u (h.mem_call hm hu)]
      have hmin' : ∀ u, c'.call u → c'.involves S u = true → u ∈ m := fun u hu hi => by
        rcases (hp.call u).1 hu with rfl | hu
        · rw [ht] at hi
          cases hi
        · exact hmin u hu (hinv S u hu ▸ hi)
      rw [if_neg hST]
      by_cases hml : m = l
      · subst hml
        exact ⟨t :: m, Or.inl rfl, fun u hu hi => List.mem_cons_of_mem _ (hmin' u hu hi),
          by rw [hf', List.find?_cons, ht]⟩
      · exact ⟨m, Or.inr (Or.inr ⟨hm, hml⟩), hmin', hf'⟩
  · rintro m (rfl | rfl | ⟨hm, -⟩) u hu S hq hd
    · rcases List.mem_cons.1 hu with rfl | hu
      · rcases hroute S hd with hg | ⟨v, hv, hi⟩
        · exact Or.inl hg
        · exact Or.inr ⟨v, List.mem_cons_of_mem _ hv, hinv S v (h.mem_call hl hv) ▸ hi⟩
      · have hs := hsame l hl u hu
        rcases h.busy l hl u hu S (hs.queued ▸ hq) (hs.dst ▸ hd) with hg | ⟨v, hv, hi⟩
        · exact Or.inl hg
        · exact Or.inr ⟨v, List.mem_cons_of_mem _ hv, hinv S v (h.mem_call hl hv) ▸ hi⟩
    · cases hu
    · have hs := hsame m hm u hu
      rcases h.busy m hm u hu S (hs.queued ▸ hq) (hs.dst ▸ hd) with hg | ⟨v, hv, hi⟩
      · exact Or.inl hg
      · exact Or.inr ⟨v, hv, hinv S v (h.mem_call hm hv) ▸ hi⟩
  · rintro u m (hm | hm | ⟨hm, -⟩)
    · cases hm
      exact Or.inl hp.queued
    · cases hm
    · have hs := hsame _ hm u (by simp)
      rw [hs.queued, hs.dst]
      exact h.tip u m hm

/-! Steps at the tip of a chain -/

theorem notMem_of_ne (h : Forest c gone loose F) (hl : t :: post ∈ F) {m : List κ} (hm : m ∈ F)
    (hne : m ≠ t :: post) : t ∉ m := fun ht => hne (h.disjoint m hm _ hl t ht (by simp))

theorem notMem_post (h : Forest c gone loose F) (hl : t :: post ∈ F) : t ∉ post :=
  (List.nodup_cons.1 (h.nodup _ hl)).1

/-- The stack of a thread whose part in `t` does not change. -/
theorem stack_same (h : Forest c gone loose F) {S : τ}
    (hsame : ∀ u, c.call u → u ≠ t → SameCall c c' u) (ht : c'.involves S t = c.involves S t)
    (htop : c'.top S = c.top S) :
    ∃ l ∈ F, (∀ u, c.call u → c'.involves S u = true → u ∈ l) ∧
      c'.top S = l.find? (c'.involves S) := by
  have hinv : ∀ u, c.call u → c'.involves S u = c.involves S u := fun u hu => by
    by_cases hut : u = t
    · exact hut ▸ ht
    · exact (hsame u hu hut).involves
  obtain ⟨l, hl, hin, hf⟩ := h.stack S
  refine ⟨l, hl, fun u hu hi => hin u hu (hinv u hu ▸ hi), ?_⟩
  rw [htop, hf, List.find?_congr fun u hu => hinv u (h.mem_call hl hu)]

theorem retip {loose' : Option κ} (h : Forest c gone none F) (hl : t :: post ∈ F)
    (hcall : ∀ u, c'.call u ↔ c.call u) (hsame : ∀ u, c.call u → u ≠ t → SameCall c c' u)
    (hsrc : c'.src t = c.src t) (hparent : c'.parent t = c.parent t)
    (hbelow : ∀ S, c'.dst t = some S → c'.below t = post.find? (c.involves S))
    (hself : ∀ T, c.src t = some T → c'.dst t ≠ some T)
    (hstack : ∀ S, ∃ l ∈ F, (∀ u, c.call u → c'.involves S u = true → u ∈ l) ∧
      c'.top S = l.find? (c'.involves S))
    (hbusy : ∀ m ∈ F, ∀ u ∈ m, ∀ S, c'.queued u = true → c'.dst u = some S →
      gone S ∨ ∃ v ∈ m, c'.involves S v = true)
    (htip : loose' = some t ∨ (c'.dst t).isSome) (hloose : ∀ u, loose' = some u → u = t) :
    Forest c' gone loose' F := by
  have hsm : ∀ m ∈ F, ∀ u ∈ m, u ≠ t → SameCall c c' u := fun m hm u hu hne =>
    hsame u (h.mem_call hm hu) hne
  have hpost : ∀ u ∈ post, SameCall c c' u := fun u hu =>
    hsm _ hl u (List.mem_cons_of_mem _ hu) fun he => h.notMem_post hl (he ▸ hu)
  refine ⟨h.nil, fun m hm => ?_, h.nodup, fun u => ?_, h.disjoint, fun S => ?_, hbusy,
    fun u m hm => ?_, fun u hu => ⟨post, hloose u hu ▸ hl⟩⟩
  · by_cases hml : m = t :: post
    · subst hml
      obtain ⟨h1, h2, -, -, h5⟩ := h.chain _ hm
      refine ⟨hparent.trans h1, fun u hu => ?_, fun S _ hd => ?_, fun T hT => hself T (hsrc ▸ hT),
        h5.congr hpost⟩
      · have hs := hpost u (List.mem_of_mem_head? hu)
        rw [hs.queued, hs.dst, hsrc]
        exact h2 u hu
      · rw [hbelow S hd, List.find?_congr fun u hu => (hpost u hu).involves]
    · exact (h.chain m hm).congr fun u hu =>
        hsm m hm u hu fun he => h.notMem_of_ne hl hm hml (he ▸ hu)
  · rw [hcall, h.call_iff]
  · obtain ⟨m, hm, hin, hf⟩ := hstack S
    exact ⟨m, hm, fun u hu hi => hin u ((hcall u).1 hu) hi, hf⟩
  · by_cases hut : u = t
    · subst hut
      rcases htip with hlo | hd
      · exact Or.inr (Or.inr hlo)
      · exact Or.inr (Or.inl hd)
    · have hs := hsm _ hm u (by simp) hut
      rcases h.tip u m hm with hq | hd | hlo
      · exact Or.inl (hs.queued ▸ hq)
      · exact Or.inr (Or.inl (hs.dst ▸ hd))
      · cases hlo

/-- Who takes part in the call at the tip of a chain takes part in no other chain. -/
theorem mem_of_involves (h : Forest c gone loose F) {m : List κ} (hm : m ∈ F) {u v : κ} {S : τ}
    (hu : u ∈ m) (hi : c.involves S u = true) (hv : c.call v) (hiv : c.involves S v = true) :
    v ∈ m := by
  obtain ⟨k, hk, hin, -⟩ := h.stack S
  have hkm := h.disjoint k hk m hm u (hin u (h.mem_call hm hu) hi) hu
  exact hkm ▸ hin v hv hiv

theorem top_eq_find (h : Forest c gone loose F) {m : List κ} (hm : m ∈ F) {u : κ} {S : τ}
    (hu : u ∈ m) (hi : c.involves S u = true) : c.top S = m.find? (c.involves S) := by
  obtain ⟨k, hk, hin, hf⟩ := h.stack S
  rw [hf, h.disjoint k hk m hm u (hin u (h.mem_call hm hu) hi) hu]

theorem deliver (h : Forest c gone none F) (hd : Delivered c c' R t) (hl : t :: post ∈ F)
    (hq : c.queued t = true) (hself : c.src t ≠ some R)
    (hR : (c.dst t = none ∧ c.top R = none) ∨ (c.dst t = some R ∧ ¬gone R)) :
    Forest c' gone none F := by
  have ht : c.call t := h.mem_call hl (by simp)
  have hnot : c.involves R t = false := by simp [Calls.involves, hself, hq]
  -- what the receiver was in before lies further down in the same chain
  have hbelow : (∀ u, c.call u → c.involves R u = true → u ∈ t :: post) ∧
      c.top R = post.find? (c.involves R) := by
    rcases hR with ⟨-, htop⟩ | ⟨hdst, hg⟩
    · have hnone : ∀ u, c.call u → c.involves R u = false := fun u hu => h.involves_none htop hu
      refine ⟨fun u hu hi => by simp [hnone u hu] at hi, ?_⟩
      rw [htop, eq_comm, List.find?_eq_none]
      intro u hu
      simp [hnone u (h.mem_call hl (List.mem_cons_of_mem _ hu))]
    · obtain ⟨u, hu, hi⟩ := (h.busy _ hl t (by simp) R hq hdst).resolve_left hg
      refine ⟨fun v hv hiv => h.mem_of_involves hl hu hi hv hiv, ?_⟩
      rw [h.top_eq_find hl hu hi, List.find?_cons, hnot]
  have hinvt : ∀ S, S ≠ R → c'.involves S t = c.involves S t := fun S hS => by
    have : c'.dst t ≠ some S := by
      rw [hd.dst]
      exact fun he => hS (Option.some.inj he).symm
    simp [Calls.involves, hd.src, this, hq]
  have hinvR : c'.involves R t = true := by simp [Calls.involves, hd.queued, hd.dst]
  have hmono : ∀ S u, c.call u → c.involves S u = true → c'.involves S u = true := fun S u hu hi => by
    by_cases hut : u = t
    · subst hut
      by_cases hS : S = R
      · exact hS ▸ hinvR
      · rw [hinvt S hS, hi]
    · rw [(hd.same u hu hut).involves, hi]
  refine h.retip hl hd.call hd.same hd.src hd.parent (fun S hS => ?_) (fun T hT hT' => ?_)
    (fun S => ?_) (fun m hm u hu S hqu hdu => ?_) (Or.inr (by simp [hd.dst])) (by simp)
  · rw [hd.dst] at hS
    cases hS
    rw [hd.below, hbelow.2]
  · rw [hd.dst] at hT'
    cases hT'
    exact hself hT
  · by_cases hS : S = R
    · subst hS
      refine ⟨_, hl, fun u hu hi => ?_, ?_⟩
      · by_cases hut : u = t
        · simp [hut]
        · exact hbelow.1 u hu ((hd.same u hu hut).involves ▸ hi)
      · rw [hd.top, if_pos rfl, List.find?_cons, hinvR]
    · exact h.stack_same hd.same (hinvt S hS) (by rw [hd.top, if_neg hS])
  · have hut : u ≠ t := by
      rintro rfl
      rw [hd.queued] at hqu
      cases hqu
    have hs := hd.same u (h.mem_call hm hu) hut
    rcases h.busy m hm u hu S (hs.queued ▸ hqu) (hs.dst ▸ hdu) with hg | ⟨v, hv, hi⟩
    · exact Or.inl hg
    · exact Or.inr ⟨v, hv, hmono S v (h.mem_call hm hv) hi⟩

theorem detach (h : Forest c gone none F) (hd : Detached c c' t) (hl : t :: post ∈ F) :
    Forest c' gone (some t) F := by
  have ht : c.call t := h.mem_call hl (by simp)
  obtain ⟨-, -, h3, h4, -⟩ := h.chain _ hl
  have hsrc : ∀ S, c'.involves S t = true ↔ c.src t = some S := fun S => by
    simp [Calls.involves, hd.src, hd.dst]
  refine h.retip hl hd.call hd.same hd.src hd.parent (fun S hS => ?_) (fun T _ => ?_)
    (fun S => ?_) (fun m hm u hu S hqu hdu => ?_) (Or.inl rfl) (by simp)
  · rw [hd.dst] at hS
    cases hS
  · simp [hd.dst]
  · by_cases hS : c.queued t = false ∧ c.dst t = some S
    · have hi : c.involves S t = true := involves_iff.2 (Or.inr hS)
      have hni : c'.involves S t = false := by
        rw [← Bool.not_eq_true, hsrc]
        exact fun hs => h4 S hs hS.2
      refine ⟨_, hl, fun u hu hiu => ?_, ?_⟩
      · by_cases hut : u = t
        · simp [hut]
        · exact h.mem_of_involves hl (by simp) hi hu ((hd.same u hu hut).involves ▸ hiu)
      · rw [hd.top, if_pos hS, h3 S hS.1 hS.2, List.find?_cons, hni]
        refine (List.find?_congr fun u hu => ?_).symm
        have hut : u ≠ t := fun he => h.notMem_post hl (he ▸ hu)
        exact (hd.same u (h.mem_call hl (List.mem_cons_of_mem _ hu)) hut).involves
    · refine h.stack_same hd.same ?_ (by rw [hd.top, if_neg hS])
      rw [Bool.eq_iff_iff, hsrc, involves_iff]
      exact ⟨Or.inl, fun hi => hi.resolve_right hS⟩
  · have hut : u ≠ t := by
      rintro rfl
      rw [hd.queued] at hqu
      cases hqu
    have hs := hd.same u (h.mem_call hm hu) hut
    rw [hs.queued] at hqu
    rcases h.busy m hm u hu S hqu (hs.dst ▸ hdu) with hg | ⟨v, hv, hi⟩
    · exact Or.inl hg
    · refine Or.inr ⟨v, hv, ?_⟩
      by_cases hvt : v = t
      · subst hvt
        rcases involves_iff.1 hi with hsv | ⟨hqv, -⟩
        · exact (hsrc S).2 hsv
        · -- `u` is queued and so at the tip of the chain of `t`
          obtain rfl := h.disjoint m hm _ hl v hv (by simp)
          rcases List.mem_cons.1 hu with rfl | hu
          · exact absurd rfl hut
          · rw [(h.chain _ hl).queued_tail u hu] at hqu
            cases hqu
      · rw [(hd.same v (h.mem_call hm hv) hvt).involves, hi]

theorem finish (h : Forest c gone (some t) F) (he : Ended c c' t) (hl : t :: post ∈ F)
    (hd : c.dst t = none) :
    Forest c' gone (if (c.src t).isSome then none else post.head?) (replace F (t :: post) post) := by
  have hsame : ∀ m ∈ F, ∀ u ∈ m, u ≠ t → SameCall c c' u := fun m hm u hu hne =>
    he.same u (h.mem_call hm hu) hne
  have hpost : ∀ u ∈ post, SameCall c c' u := fun u hu =>
    hsame _ hl u (List.mem_cons_of_mem _ hu) fun hut => h.notMem_post hl (hut ▸ hu)
  have hrest : ∀ m ∈ F, m ≠ t :: post → ∀ u ∈ m, SameCall c c' u := fun m hm hne u hu =>
    hsame m hm u hu fun hut => h.notMem_of_ne hl hm hne (hut ▸ hu)
  have hinv : ∀ S, c.involves S t = true ↔ c.src t = some S := fun S => by
    simp [Calls.involves, hd]
  obtain ⟨h1, h2, -, -, h5⟩ := h.chain _ hl
  have hsub : ∀ u ∈ post, c.call u ∧ u ≠ t := fun u hu =>
    ⟨h.mem_call hl (List.mem_cons_of_mem _ hu), fun hut => h.notMem_post hl (hut ▸ hu)⟩
  refine ⟨Or.inr (Or.inl rfl), ?_, ?_, fun u => ?_, ?_, fun S => ?_, ?_, ?_, fun u hu => ?_⟩
  · rintro m (rfl | rfl | ⟨hm, hne⟩)
    · exact h5.congr hpost
    · trivial
    · exact (h.chain m hm).congr (hrest m hm hne)
  · rintro m (rfl | rfl | ⟨hm, -⟩)
    · exact (List.nodup_cons.1 (h.nodup _ hl)).2
    · exact List.nodup_nil
    · exact h.nodup m hm
  · rw [he.call]
    constructor
    · rintro ⟨hu, hne⟩
      obtain ⟨m, hm, hum⟩ := (h.call_iff u).1 hu
      by_cases hml : m = t :: post
      · subst hml
        exact ⟨post, Or.inl rfl, (List.mem_cons.1 hum).resolve_left hne⟩
      · exact ⟨m, Or.inr (Or.inr ⟨hm, hml⟩), hum⟩
    · rintro ⟨m, rfl | rfl | ⟨hm, hne⟩, hu⟩
      · exact hsub u hu
      · cases hu
      · exact ⟨h.mem_call hm hu, fun hut => h.notMem_of_ne hl hm hne (hut ▸ hu)⟩
  · have hother : ∀ m ∈ F, m ≠ t :: post → ∀ u ∈ post, u ∉ m := fun m hm hne u hu hum =>
      hne (h.disjoint m hm _ hl u hum (List.mem_cons_of_mem _ hu))
    rintro m (rfl | rfl | ⟨hm, hml⟩) k (rfl | rfl | ⟨hk, hkl⟩) u hum huk
    · rfl
    · cases huk
    · exact absurd huk (hother k hk hkl u hum)
    · cases hum
    · rfl
    · cases hum
    · exact absurd hum (hother m hm hml u huk)
    · cases huk
    · exact h.disjoint m hm k hk u hum huk
  · by_cases hS : c.src t = some S
    · refine ⟨post, Or.inl rfl, fun u hu hi => ?_, ?_⟩
      · obtain ⟨huc, hne⟩ := (he.call u).1 hu
        have hm := h.mem_of_involves hl (by simp) ((hinv S).2 hS) huc
          ((he.same u huc hne).involves ▸ hi)
        exact (List.mem_cons.1 hm).resolve_left hne
      · rw [he.top, if_pos hS, h1, List.find?_congr fun u hu => (hpost u hu).involves]
        -- the sender is in the call below as its receiver
        cases post with
        | nil => rfl
        | cons u post =>
          obtain ⟨hqu, hdu⟩ := h2 u rfl
          rw [List.find?_cons, involves_iff.2 (Or.inr ⟨hqu, hdu ▸ hS⟩)]
          rfl
    · have hni : c.involves S t = false := by
        rw [← Bool.not_eq_true, hinv]
        exact hS
      obtain ⟨m, hm, hin, hf⟩ := h.stack S
      rw [he.top, if_neg hS]
      by_cases hml : m = t :: post
      · subst hml
        refine ⟨post, Or.inl rfl, fun u hu hi => ?_, ?_⟩
        · obtain ⟨huc, hne⟩ := (he.call u).1 hu
          exact (List.mem_cons.1 (hin u huc ((he.same u huc hne).involves ▸ hi))).resolve_left hne
        · rw [hf, List.find?_cons, hni, List.find?_congr fun u hu => (hpost u hu).involves]
      · refine ⟨m, Or.inr (Or.inr ⟨hm, hml⟩), fun u hu hi => ?_, ?_⟩
        · obtain ⟨huc, hne⟩ := (he.call u).1 hu
          exact hin u huc ((he.same u huc hne).involves ▸ hi)
        · rw [hf, List.find?_congr fun u hu => (hrest m hm hml u hu).involves]
  · rintro m (rfl | rfl | ⟨hm, hne⟩) u hu S hqu hdu
    · rw [(hpost u hu).queued, (h.chain _ hl).queued_tail u hu] at hqu
      cases hqu
    · cases hu
    · have hs := hrest m hm hne u hu
      rcases h.busy m hm u hu S (hs.queued ▸ hqu) (hs.dst ▸ hdu) with hg | ⟨v, hv, hi⟩
      · exact Or.inl hg
      · exact Or.inr ⟨v, hv, by rw [(hrest m hm hne v hv).involves, hi]⟩
  · rintro u m (hm | hm | ⟨hm, hne⟩)
    · subst hm
      have hs := hpost u (by simp)
      rw [hs.queued, hs.dst]
      obtain ⟨-, hdu⟩ := h2 u rfl
      cases hsrc : c.src t with
      | none => exact Or.inr (Or.inr rfl)
      | some T =>
        rw [← hdu, hsrc]
        exact Or.inr (Or.inl rfl)
    · cases hm
    · have hs := hrest _ hm hne u (by simp)
      rw [hs.queued, hs.dst]
      rcases h.tip u m hm with hqu | hdu | hlo
      · exact Or.inl hqu
      · exact Or.inr (Or.inl hdu)
      · cases hlo
        exact absurd (h.disjoint _ hm _ hl t (by simp) (by simp)) hne
  · split_ifs at hu
    cases post with
    | nil => cases hu
    | cons v post =>
      cases hu
      exact ⟨post, Or.inl rfl⟩

theorem die (h : Forest c gone none F) (hd : Died c c' T) :
    Forest c' (fun S => S = T ∨ gone S) ((c.top T).filter fun t => c.dst t = some T) F := by
  have hinv : ∀ u, c.call u → ∀ S, c'.involves S u = true ↔ S ≠ T ∧ c.involves S u = true := by
    intro u hu S
    rw [involves_iff, involves_iff, hd.src u hu, hd.dst u hu, hd.queued u hu]
    split_ifs with h1 h2 h2 <;> grind
  have hinv' : ∀ u, c.call u → ∀ S, S ≠ T → c'.involves S u = c.involves S u := fun u hu S hS => by
    rw [Bool.eq_iff_iff, hinv u hu S]
    exact ⟨fun h => h.2, fun h => ⟨hS, h⟩⟩
  have hmc : ∀ m ∈ F, ∀ u ∈ m, c.call u := fun m hm u hu => h.mem_call hm hu
  have hchain : ∀ m, c.Chain m → (∀ u ∈ m, c.call u) → c'.Chain m := by
    intro m
    induction m with
    | nil => exact fun _ _ => trivial
    | cons u m ih =>
      intro ⟨h1, h2, h3, h4, h5⟩ hc
      have hu := hc u (by simp)
      have hm : ∀ v ∈ m, c.call v := fun v hv => hc v (by simp [hv])
      refine ⟨hd.parent u hu ▸ h1, fun v hv => ?_, fun S hq hdst => ?_, fun S hS hdst => ?_,
        ih h5 hm⟩
      · have hvc := hm v (List.mem_of_mem_head? hv)
        obtain ⟨hqv, hsv⟩ := h2 v hv
        rw [hd.queued v hvc, hd.src u hu, hd.dst v hvc, hsv]
        simp [hqv]
      · rw [hd.queued u hu] at hq
        have hdu := hd.dst u hu
        rw [hdst] at hdu
        split_ifs at hdu with hT
        have hST : S ≠ T := fun he => hT ⟨hq, he ▸ hdu.symm⟩
        rw [hd.below u hu, h3 S hq hdu.symm, List.find?_congr fun v hv => hinv' v (hm v hv) S hST]
      · rw [hd.src u hu] at hS
        rw [hd.dst u hu] at hdst
        split_ifs at hS hdst
        exact h4 S hS hdst
  refine ⟨h.nil, fun m hm => hchain m (h.chain m hm) (hmc m hm), h.nodup, fun u => ?_, h.disjoint,
    fun S => ?_, fun m hm u hu S hq hdst => ?_, fun u m hm => ?_, fun u hu => ?_⟩
  · rw [hd.call, h.call_iff]
  · rw [hd.top]
    by_cases hS : S = T
    · refine ⟨[], h.nil, fun u hu hi => ?_, by simp [hS]⟩
      exact absurd hS ((hinv u ((hd.call u).1 hu) S).1 hi).1
    · obtain ⟨m, hm, hin, hf⟩ := h.stack S
      refine ⟨m, hm, fun u hu hi => hin u ((hd.call u).1 hu)
        ((hinv u ((hd.call u).1 hu) S).1 hi).2, ?_⟩
      rw [if_neg hS, hf, List.find?_congr fun u hu => hinv' u (hmc m hm u hu) S hS]
  · have huc := hmc m hm u hu
    rw [hd.queued u huc] at hq
    rw [hd.dst u huc, if_neg (by simp [hq])] at hdst
    by_cases hS : S = T
    · exact Or.inl (Or.inl hS)
    · rcases h.busy m hm u hu S hq hdst with hg | ⟨v, hv, hi⟩
      · exact Or.inl (Or.inr hg)
      · exact Or.inr ⟨v, hv, (hinv v (hmc m hm v hv) S).2 ⟨hS, hi⟩⟩
  · have huc := hmc _ hm u (by simp)
    rw [hd.queued u huc, hd.dst u huc]
    rcases h.tip u m hm with hq | hdst | hlo
    · exact Or.inl hq
    · by_cases hT : c.queued u = false ∧ c.dst u = some T
      · -- the tip of the one chain that `T` is in
        have hi : c.involves T u = true := involves_iff.2 (Or.inr hT)
        have htop := h.top_eq_find hm (by simp) hi
        rw [List.find?_cons, hi] at htop
        exact Or.inr (Or.inr (by simp [htop, hT.2]))
      · rw [if_neg hT]
        exact Or.inr (Or.inl hdst)
    · cases hlo
  · rw [Option.filter_eq_some_iff, decide_eq_true_eq] at hu
    obtain ⟨post, hl, -⟩ := h.tip_of_top hu.1 hu.2
    exact ⟨post, hl⟩

end Forest

end Calls

end Binder
