import BinderIpc.Alloc.Headers

/-! What `binder_update_page_range` does to `proc->pages`. A page is named by its
index; its address is `pageAddr`. -/

namespace Binder

variable (L : Layout)

namespace Layout

theorem page_pos : 0 < L.page := L.hdr_pos.trans L.hdr_lt

variable {L} {x q : ℕ}

theorem le_pageMask (hq : L.page ∣ q) : q ≤ L.pageMask x ↔ q ≤ x := by
  obtain ⟨k, rfl⟩ := hq
  rw [pageMask, Nat.mul_comm L.page k, Nat.mul_le_mul_right_iff L.page_pos,
    Nat.le_div_iff_mul_le L.page_pos]

theorem pageMask_lt (hq : L.page ∣ q) : L.pageMask x < q ↔ x < q := by
  rw [← not_le, ← not_le, le_pageMask hq]

theorem dvd_pageMask : L.page ∣ L.pageMask x := Dvd.intro_left _ rfl

/-- Multiples of a page that differ by less than a page do not differ. -/
theorem lt_add_page {r : ℕ} (hq : L.page ∣ q) (hr : L.page ∣ r) : q < r + L.page ↔ q ≤ r := by
  obtain ⟨k, rfl⟩ := hq
  obtain ⟨m, rfl⟩ := hr
  rw [← Nat.mul_succ, Nat.mul_lt_mul_left L.page_pos, Nat.mul_le_mul_left_iff L.page_pos,
    Nat.lt_succ_iff]

theorem pageMask_le (hq : L.page ∣ q) : L.pageMask x ≤ q ↔ x < q + L.page := by
  rw [← lt_add_page dvd_pageMask hq]
  exact pageMask_lt (Dvd.dvd.add hq dvd_rfl)

theorem pageAlign_le (hq : L.page ∣ q) : L.pageAlign x ≤ q ↔ x ≤ q := by
  have := L.page_pos
  rw [pageAlign, pageMask_le hq]
  omega

theorem lt_pageAlign (hq : L.page ∣ q) : q < L.pageAlign x ↔ q < x := by
  rw [← not_le, ← not_le, pageAlign_le hq]

theorem dvd_pageAlign : L.page ∣ L.pageAlign x := dvd_pageMask

theorem le_pageAlign : x ≤ L.pageAlign x := (pageAlign_le dvd_pageAlign).1 le_rfl

/-- A page ends before a rounded end exactly when it ends before the end. -/
theorem lt_pageMask (hq : L.page ∣ q) : q < L.pageMask x ↔ q + L.page ≤ x := by
  rw [← not_le, pageMask_le hq, not_lt]

end Layout

namespace BinderArea

def pageAddr (p : BinderArea) (i : ℕ) : ℕ := p.buffer + i * L.page

/-- One of the two assertions about pages has failed. -/
def pageBug (p : BinderArea) : Bool := p.bugs.any fun b => b = .pagePresent || b = .pageAbsent

end BinderArea

section

variable {L} {p : BinderArea} {i j n k start stop : ℕ}

theorem pageBug_bugOn {c : Bool} {b : AreaBug} :
    (p.bugOn c b).pageBug = (p.pageBug || (c && (b = .pagePresent || b = .pageAbsent))) := by
  cases c <;> simp [BinderArea.pageBug, BinderArea.bugOn]

theorem pageIndex_add : pageIndex L p (p.buffer + j * L.page + n * L.page) = j + n := by
  rw [pageIndex, Nat.add_assoc, ← Nat.add_mul, Nat.add_sub_cancel_left,
    Nat.mul_div_cancel _ L.page_pos]

/-- One page is set, after an assertion about it. -/
theorem setPage_pages {c : Bool} {b : AreaBug} {addr m : ℕ} {v : Bool} {ops : List PageOp}
    (h : pageIndex L p addr = m) :
    (setPage L (p.bugOn c b) addr v ops).pages = Function.update p.pages m v := by
  rw [← h]
  rfl

theorem setPage_pageBug {c : Bool} {b : AreaBug} {addr : ℕ} {v : Bool} {ops : List PageOp}
    (h : c = false) : (setPage L (p.bugOn c b) addr v ops).pageBug = p.pageBug := by
  change (p.bugOn c b).pageBug = _
  simp [pageBug_bugOn, h]

/-- The pages `j, …, j + n - 1` are gone and nothing else has changed. -/
theorem freePages_spec (vma : Bool) (n : ℕ) (p : BinderArea) :
    (∀ i, (freePages L vma (p.buffer + j * L.page) n p).pages i = true ↔
        p.pages i = true ∧ ¬(j ≤ i ∧ i < j + n)) ∧
      ((∀ i, j ≤ i → i < j + n → p.pages i = true) →
        (freePages L vma (p.buffer + j * L.page) n p).pageBug = p.pageBug) := by
  induction n generalizing p with
  | zero => exact ⟨fun i => by simp [freePages], fun _ => rfl⟩
  | succ n ih =>
    simp only [freePages]
    have hidx : pageIndex L p (p.buffer + j * L.page + n * L.page) = j + n := pageIndex_add
    have ih := ih (setPage L (p.bugOn (!p.pages (pageIndex L p (p.buffer + j * L.page + n * L.page)))
      .pageAbsent) (p.buffer + j * L.page + n * L.page) false
      ((if vma then [.zapPageRange] else []) ++ [.unmapKernelRange, .freePage]))
    rw [setPage_pages hidx] at ih
    refine ⟨fun i => (ih.1 i).trans ?_, fun hp => (ih.2 fun i h1 h2 => ?_).trans ?_⟩
    · by_cases h : i = j + n
      · simp [h]
      · rw [Function.update_of_ne h]
        exact and_congr_right fun _ => by omega
    · rw [Function.update_of_ne (by omega)]
      exact hp i h1 (by omega)
    · refine setPage_pageBug ?_
      rw [hidx, hp _ (by omega) (by omega)]
      rfl

/-- After `k` pages the loop either takes all `n` others or stops at one of
them, which it leaves absent. -/
theorem allocPages_spec (env : PageEnv) (n k : ℕ) (p : BinderArea) {q : BinderArea}
    {r : Option ℕ} (h : allocPages L env (p.buffer + j * L.page) n k p = (q, r))
    (habs : ∀ i, j + k ≤ i → i < j + (k + n) → p.pages i = false) :
    q.pageBug = p.pageBug ∧ q.buffer = p.buffer ∧ (∀ m, r = some m → k ≤ m ∧ m < k + n) ∧
      ∀ i, q.pages i = true ↔ p.pages i = true ∨ (j + k ≤ i ∧ i < j + r.getD (k + n)) := by
  induction n generalizing k p with
  | zero =>
    cases h
    exact ⟨rfl, rfl, by simp, fun i => by simp⟩
  | succ n ih =>
    have hidx : pageIndex L p (p.buffer + j * L.page + k * L.page) = j + k := pageIndex_add
    have hno : p.pages (pageIndex L p (p.buffer + j * L.page + k * L.page)) = false := by
      rw [hidx]
      exact habs _ le_rfl (by omega)
    -- the loop stops at this page
    have hstop : ∀ {ops}, (setPage L (p.bugOn (p.pages (pageIndex L p (p.buffer + j * L.page +
        k * L.page))) .pagePresent) (p.buffer + j * L.page + k * L.page) false ops, some k) =
          (q, r) → q.pageBug = p.pageBug ∧ q.buffer = p.buffer ∧
            (∀ m, r = some m → k ≤ m ∧ m < k + (n + 1)) ∧
            ∀ i, q.pages i = true ↔ p.pages i = true ∨ (j + k ≤ i ∧ i < j + r.getD (k + (n + 1))) := by
      intro ops he
      obtain ⟨rfl, rfl⟩ := Prod.mk.inj he
      refine ⟨setPage_pageBug hno, rfl, by simp, fun i => ?_⟩
      rw [setPage_pages hidx, Option.getD_some]
      by_cases hi : i = j + k
      · subst hi
        simp [habs (j + k) le_rfl (by omega)]
      · rw [Function.update_of_ne hi]
        exact (or_iff_left (by omega)).symm
    unfold allocPages at h
    dsimp only at h
    split at h
    · exact hstop h
    · exact hstop h
    · exact hstop h
    · have hih := ih (k + 1) (setPage L (p.bugOn (p.pages (pageIndex L p (p.buffer + j * L.page +
        k * L.page))) .pagePresent) (p.buffer + j * L.page + k * L.page) true
          [.allocPage, .mapVmArea, .vmInsertPage]) h
      rw [setPage_pages hidx] at hih
      obtain ⟨h1, h2, h3, h4⟩ := hih fun i hi hi' => by
        rw [Function.update_of_ne (by omega)]
        exact habs i (by omega) (by omega)
      have hle : k + 1 ≤ r.getD (k + 1 + n) := by
        cases r with
        | none => simp
        | some m => exact (h3 m rfl).1
      refine ⟨h1.trans (setPage_pageBug hno), h2, fun m hm => ?_, fun i => ?_⟩
      · have := h3 m hm
        omega
      · rw [h4, show k + (n + 1) = k + 1 + n by omega]
        by_cases hi : i = j + k
        · subst hi
          simp only [Function.update_self, true_or, true_iff]
          exact Or.inr ⟨le_rfl, by omega⟩
        · rw [Function.update_of_ne hi]
          exact or_congr_right (by omega)

/-- The iterations of a loop between two page boundaries. -/
theorem pageCount_add (h : j ≤ k) (b : ℕ) : pageCount L (b + j * L.page) (b + k * L.page) = k - j := by
  have hp := L.page_pos
  obtain ⟨n, rfl⟩ := Nat.exists_eq_add_of_le h
  have : b + (j + n) * L.page - (b + j * L.page) = n * L.page := by
    rw [Nat.add_mul]
    omega
  rw [pageCount, this, Nat.add_comm, Nat.add_mul_div_right _ _ hp, Nat.div_eq_of_lt (by omega)]
  omega

/-- A page boundary of the area. -/
theorem exists_index (hb : L.page ∣ p.buffer) (hs : L.page ∣ start) (hle : p.buffer ≤ start) :
    ∃ j, start = p.buffer + j * L.page := by
  obtain ⟨k, hk⟩ := (Nat.dvd_sub hs hb)
  exact ⟨k, by rw [Nat.mul_comm]; omega⟩

theorem pageAddr_range (b : ℕ) : (b + j * L.page ≤ b + i * L.page ∧
    b + i * L.page < b + k * L.page) ↔ j ≤ i ∧ i < k := by
  simp [Nat.mul_le_mul_right_iff L.page_pos, Nat.mul_lt_mul_right L.page_pos]

theorem updatePageRange_free {v : Bool} {m n : ℕ} {E : PageEnv} (hb : L.page ∣ p.buffer)
    (hs : L.page ∣ m) (he : L.page ∣ n) (hle : p.buffer ≤ m)
    (hpres : ∀ i, m ≤ p.pageAddr L i → p.pageAddr L i < n → p.pages i = true) :
    let q := (binderUpdatePageRange L p false m n v E).1
    q.pageBug = p.pageBug ∧ ∀ i, q.pages i = true ↔
      p.pages i = true ∧ ¬(m ≤ p.pageAddr L i ∧ p.pageAddr L i < n) := by
  intro q
  by_cases hlt : n ≤ m
  · have hq : q = p := by simp [q, binderUpdatePageRange, hlt]
    rw [hq]
    exact ⟨rfl, fun i => by simp only [iff_self_and]; omega⟩
  · obtain ⟨j, rfl⟩ := exists_index hb hs hle
    obtain ⟨m, rfl⟩ := exists_index hb he (by omega)
    have hjm : j ≤ m := by
      by_contra h
      have := Nat.mul_le_mul_right L.page (Nat.le_of_not_le h)
      omega
    simp only [BinderArea.pageAddr, ← and_imp, pageAddr_range] at hpres ⊢
    have hspec := freePages_spec (j := j) (L := L) (v || (E.taskMm && p.vma && E.sameMm))
      (m - j) p
    have hq : q = freePages L (v || (E.taskMm && p.vma && E.sameMm)) (p.buffer + j * L.page)
        (m - j) p := by
      simp only [q, binderUpdatePageRange, if_neg hlt, pageCount_add hjm]
      rfl
    rw [hq]
    rw [Nat.add_sub_cancel' hjm] at hspec
    exact ⟨hspec.2 fun i h1 h2 => hpres i ⟨h1, h2⟩, hspec.1⟩

theorem updatePageRange_alloc {v : Bool} {E : PageEnv} (hb : L.page ∣ p.buffer)
    (hs : L.page ∣ start) (he : L.page ∣ stop) (hle : p.buffer ≤ start)
    (habs : ∀ i, start ≤ p.pageAddr L i → p.pageAddr L i < stop → p.pages i = false)
    {q : BinderArea} {ok : Bool} (h : binderUpdatePageRange L p true start stop v E = (q, ok)) :
    q.pageBug = p.pageBug ∧ ∀ i, q.pages i = true ↔
      p.pages i = true ∨ (ok = true ∧ start ≤ p.pageAddr L i ∧ p.pageAddr L i < stop) := by
  by_cases hlt : stop ≤ start
  · simp only [binderUpdatePageRange, hlt, if_true, Prod.mk.injEq] at h
    obtain ⟨rfl, rfl⟩ := h
    exact ⟨rfl, fun i => (or_iff_left (by omega)).symm⟩
  · obtain ⟨j, rfl⟩ := exists_index hb hs hle
    obtain ⟨m, rfl⟩ := exists_index hb he (by omega)
    have hjm : j ≤ m := by
      by_contra h
      have := Nat.mul_le_mul_right L.page (Nat.le_of_not_le h)
      omega
    simp only [BinderArea.pageAddr, ← and_imp, pageAddr_range] at habs ⊢
    simp only [binderUpdatePageRange, if_neg hlt, pageCount_add hjm, Bool.not_true,
      Bool.false_eq_true, if_false] at h
    split_ifs at h with hv
    · obtain ⟨rfl, rfl⟩ := Prod.mk.inj h
      exact ⟨rfl, fun i => by simp⟩
    · split at h
      · rename_i p' hp'
        obtain ⟨rfl, rfl⟩ := Prod.mk.inj h
        obtain ⟨h1, -, -, h3⟩ := allocPages_spec E (m - j) 0 p hp' fun i h1 h2 =>
          habs i ⟨by omega, by omega⟩
        refine ⟨h1, fun i => (h3 i).trans (or_congr_right ?_)⟩
        simp only [true_and, Option.getD_none]
        omega
      · rename_i p' k hp'
        obtain ⟨rfl, rfl⟩ := Prod.mk.inj h
        obtain ⟨h1, h2, h4, h5⟩ := allocPages_spec E (m - j) 0 p hp' fun i h1 h2 =>
          habs i ⟨by omega, by omega⟩
        have h4 := h4 k rfl
        simp only [Option.getD_some] at h5
        rw [← h2]
        have hspec := freePages_spec (j := j) (L := L) (v || (E.taskMm && p.vma && E.sameMm))
          k p'
        refine ⟨(hspec.2 fun i hi hi' => (h5 i).2 (Or.inr ⟨by omega, by omega⟩)).trans h1,
          fun i => (hspec.1 i).trans ?_⟩
        rw [h5]
        by_cases hi : j ≤ i ∧ i < j + k
        · have := habs i ⟨hi.1, by omega⟩
          simp [hi, this]
        · simp only [hi, not_false_eq_true, and_true, Bool.false_eq_true, false_and, or_false]
          exact or_iff_left (by omega)

end

end Binder
