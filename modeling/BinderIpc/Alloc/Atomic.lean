import BinderIpc.Alloc.Residency
import BinderIpc.Alloc.Live

/-! A request that fails. What `binder_update_page_range` has done to a page before
the failure is taken back, so that nothing is left but the log. -/

namespace Binder

/-- What was done to the page `i`, in order. -/
def opsOn (i : ℕ) (log : List (PageOp × ℕ)) : List PageOp := (log.filter (·.2 = i)).map (·.1)

/-- Every page that was allocated and every mapping that was made was undone once. -/
def Undone (ops : List PageOp) : Prop :=
  ops = [] ∨ ops = [.allocPage, .freePage] ∨
    ops = [.allocPage, .mapVmArea, .unmapKernelRange, .freePage] ∨
    ops = [.allocPage, .mapVmArea, .vmInsertPage, .zapPageRange, .unmapKernelRange, .freePage]

section

variable {L : Layout} {p q r : BinderArea} {log log' : List (PageOp × ℕ)} {i j k n : ℕ}

theorem opsOn_append : opsOn i (log ++ log') = opsOn i log ++ opsOn i log' := by
  simp [opsOn]

theorem opsOn_page (ops : List PageOp) (m : ℕ) :
    opsOn i (ops.map fun op => (op, m)) = if i = m then ops else [] := by
  by_cases h : i = m
  · simp [opsOn, List.filter_map, Function.comp_def, h]
  · simp [opsOn, List.filter_map, Function.comp_def, h, Ne.symm h]

/-- Nothing has changed but `proc->pages` and the log. -/
def OnlyPages (p q : BinderArea) (log : List (PageOp × ℕ)) : Prop :=
  q = { p with pages := q.pages, pageLog := p.pageLog ++ log }

theorem OnlyPages.refl (p : BinderArea) : OnlyPages p p [] := by
  simp [OnlyPages]

theorem OnlyPages.trans (h : OnlyPages p q log) (h' : OnlyPages q r log') :
    OnlyPages p r (log ++ log') := by
  unfold OnlyPages at *
  rw [h'] at *
  rw [h]
  simp

theorem bugOn_false (b : AreaBug) : p.bugOn false b = p := by
  simp [BinderArea.bugOn]

theorem onlyPages_setPage (addr : ℕ) (v : Bool) (ops : List PageOp) :
    OnlyPages p (setPage L p addr v ops) (ops.map fun op => (op, pageIndex L p addr)) := rfl

/-- What is logged when present pages are freed. -/
theorem freePages_log (n : ℕ) (p : BinderArea)
    (hpres : ∀ i, j ≤ i → i < j + n → p.pages i = true) :
    ∃ log, OnlyPages p (freePages L true (p.buffer + j * L.page) n p) log ∧
      ∀ i, opsOn i log = if j ≤ i ∧ i < j + n then [.zapPageRange, .unmapKernelRange, .freePage]
        else [] := by
  induction n generalizing p with
  | zero => exact ⟨[], .refl p, fun i => (if_neg (by omega)).symm⟩
  | succ n ih =>
    have hidx : pageIndex L p (p.buffer + j * L.page + n * L.page) = j + n := pageIndex_add
    have hset := onlyPages_setPage (L := L) (p := p) (p.buffer + j * L.page + n * L.page) false
      [.zapPageRange, .unmapKernelRange, .freePage]
    simp only [freePages, hidx, hpres (j + n) (by omega) (by omega), Bool.not_true, bugOn_false,
      if_true, List.singleton_append]
    obtain ⟨log, hlog, hops⟩ := ih (setPage L p (p.buffer + j * L.page + n * L.page) false
      [.zapPageRange, .unmapKernelRange, .freePage]) fun i h1 h2 => by
        rw [show (setPage L p (p.buffer + j * L.page + n * L.page) false
          [.zapPageRange, .unmapKernelRange, .freePage]).pages = Function.update p.pages (j + n) false
          from congrArg (Function.update p.pages · false) hidx, Function.update_of_ne (by omega)]
        exact hpres i h1 (by omega)
    refine ⟨_, hset.trans hlog, fun i => ?_⟩
    rw [opsOn_append, opsOn_page, hidx, hops]
    by_cases hi : i = j + n
    · rw [if_pos hi, if_neg (by omega), if_pos (by omega), List.append_nil]
    · rw [if_neg hi, List.nil_append]
      exact if_congr (by omega) rfl rfl

/-- What is logged until the loop stops at the page `m`. -/
theorem allocPages_log (env : PageEnv) (n k : ℕ) (p : BinderArea) {m : ℕ}
    (h : allocPages L env (p.buffer + j * L.page) n k p = (q, some m))
    (habs : ∀ i, j + k ≤ i → i < j + (k + n) → p.pages i = false) :
    ∃ log ops, OnlyPages p q log ∧ Undone ops ∧ k ≤ m ∧
      ∀ i, opsOn i log = if j + k ≤ i ∧ i < j + m then [.allocPage, .mapVmArea, .vmInsertPage]
        else if i = j + m then ops else [] := by
  induction n generalizing k p with
  | zero => cases h
  | succ n ih =>
    have hidx : pageIndex L p (p.buffer + j * L.page + k * L.page) = j + k := pageIndex_add
    have hno := habs (j + k) le_rfl (by omega)
    -- the loop stops at this page, which it takes back
    have hstop : ∀ {ops}, Undone ops → (setPage L p (p.buffer + j * L.page + k * L.page) false ops,
        some k) = (q, some m) → ∃ log ops, OnlyPages p q log ∧ Undone ops ∧ k ≤ m ∧
          ∀ i, opsOn i log = if j + k ≤ i ∧ i < j + m then [.allocPage, .mapVmArea, .vmInsertPage]
            else if i = j + m then ops else [] := fun {ops} hops he => by
      obtain ⟨rfl, hm⟩ := Prod.mk.inj he
      obtain rfl := Option.some.inj hm
      refine ⟨_, ops, onlyPages_setPage _ false ops, hops, le_rfl, fun i => ?_⟩
      rw [opsOn_page, hidx, if_neg (by omega : ¬(j + k ≤ i ∧ i < j + k))]
    unfold allocPages at h
    simp only [hidx, hno, bugOn_false] at h
    split at h
    · exact hstop (.inl rfl) h
    · exact hstop (.inr (.inl rfl)) h
    · exact hstop (.inr (.inr (.inl rfl))) h
    · have hset := onlyPages_setPage (L := L) (p := p) (p.buffer + j * L.page + k * L.page) true
        [.allocPage, .mapVmArea, .vmInsertPage]
      obtain ⟨log, ops, hlog, hops, hle, hall⟩ := ih (k + 1) (setPage L p
        (p.buffer + j * L.page + k * L.page) true [.allocPage, .mapVmArea, .vmInsertPage]) h
        fun i h1 h2 => by
          rw [show (setPage L p (p.buffer + j * L.page + k * L.page) true
            [.allocPage, .mapVmArea, .vmInsertPage]).pages = Function.update p.pages (j + k) true
            from congrArg (Function.update p.pages · true) hidx, Function.update_of_ne (by omega)]
          exact habs i (by omega) (by omega)
      refine ⟨_, ops, hset.trans hlog, hops, by omega, fun i => ?_⟩
      rw [opsOn_append, opsOn_page, hidx, hall]
      by_cases hi : i = j + k
      · rw [if_pos hi, if_neg (by omega), if_neg (by omega), if_pos (by omega), List.append_nil]
      · rw [if_neg hi, List.nil_append]
        exact if_congr (by omega) rfl rfl

/-- A failed `binder_update_page_range` leaves nothing but what it has logged. -/
theorem updatePageRange_undone {start stop : ℕ} {E : PageEnv} (hb : L.page ∣ p.buffer)
    (hs : L.page ∣ start) (he : L.page ∣ stop) (hle : p.buffer ≤ start)
    (habs : ∀ i, start ≤ p.pageAddr L i → p.pageAddr L i < stop → p.pages i = false)
    (h : binderUpdatePageRange L p true start stop false E = (q, false)) :
    ∃ log, q = { p with pageLog := p.pageLog ++ log } ∧ ∀ i, Undone (opsOn i log) := by
  have hpages := (updatePageRange_alloc hb hs he hle habs h).2
  have hsame : q.pages = p.pages := by
    funext i
    rw [Bool.eq_iff_iff, hpages i]
    simp
  have hundone : ∃ log, OnlyPages p q log ∧ ∀ i, Undone (opsOn i log) := by
    have hlt : ¬stop ≤ start := fun hlt => by
      simp [binderUpdatePageRange, hlt] at h
    obtain ⟨j, rfl⟩ := exists_index hb hs hle
    obtain ⟨e, rfl⟩ := exists_index hb he (by omega)
    have hje : j ≤ e := by
      by_contra hej
      have := Nat.mul_le_mul_right L.page (Nat.le_of_not_le hej)
      omega
    simp only [BinderArea.pageAddr, ← and_imp, pageAddr_range] at habs
    simp only [binderUpdatePageRange, if_neg hlt, pageCount_add hje, Bool.not_true,
      Bool.false_eq_true, if_false, Bool.false_or] at h
    split_ifs at h with hvma
    · cases h
      exact ⟨[], .refl p, fun i => .inl rfl⟩
    · split at h
      · cases h
      · rename_i p' m hp'
        have hgone : ∀ i, j + 0 ≤ i → i < j + (0 + (e - j)) → p.pages i = false := fun i h1 h2 =>
          habs i ⟨by omega, by omega⟩
        obtain ⟨log, ops, hlog, hops, -, hall⟩ := allocPages_log E (e - j) 0 p hp' hgone
        obtain ⟨-, hbuf, -, hthere⟩ := allocPages_spec E (e - j) 0 p hp' hgone
        -- the pages before the one that failed are freed again
        obtain ⟨log', hlog', hall'⟩ := freePages_log (L := L) (j := j) m p' fun i h1 h2 =>
          (hthere i).2 (Or.inr ⟨by omega, by simpa using h2⟩)
        rw [hbuf] at hlog'
        have hv : (E.taskMm && p.vma && E.sameMm) = true := by simpa using hvma
        rw [hv] at h
        obtain ⟨rfl, -⟩ := Prod.mk.inj h
        refine ⟨_, hlog.trans hlog', fun i => ?_⟩
        rw [opsOn_append, hall, hall', Nat.add_zero]
        split_ifs
        · exact .inr (.inr (.inr rfl))
        · rw [List.append_nil]
          exact hops
        · exact .inl rfl
  obtain ⟨log, hlog, hops⟩ := hundone
  refine ⟨log, ?_, hops⟩
  unfold OnlyPages at hlog
  rwa [hsame] at hlog

/-! `binder_alloc_buf` -/

variable {R : RbTree ℕ} {E : PageEnv} {d o z a : ℕ} {u exact : Bool}

/-- `q` is `p`, with what was done to pages and undone. -/
def Restored (p q : BinderArea) : Prop :=
  ∃ log, q = { p with pageLog := p.pageLog ++ log } ∧ ∀ i, Undone (opsOn i log)

theorem Restored.refl (p : BinderArea) : Restored p p :=
  ⟨[], by simp, fun _ => .inl rfl⟩

theorem takeBuffer_restored (hi : AreaInv L p) (hp : PagesInv L p)
    (ha : a ∈ p.freeBuffers.inorder) (h : (takeBuffer L R p E a z exact d o u).2 = none) :
    Restored p (takeBuffer L R p E a z exact d o u).1 := by
  have haddr := hi.free_mem_addrs L ha
  obtain ⟨b, hb, hfree, rfl⟩ := hi.free_mem L ha
  obtain ⟨pre, post, hs⟩ := List.append_of_mem hb
  simp only [takeBuffer] at h ⊢
  generalize (if exact then binderBufferSize L p b.addr
      else if binderBufferSize L p b.addr ≤ L.add (L.add z L.hdr) 4 then z
      else L.add z L.hdr) = K at *
  rw [binderBufferSize_eq L hi.tiled hi.limit_lt haddr, bufData, hi.split_room L hs] at h ⊢
  split at h
  · rename_i q he
    exact updatePageRange_undone hp.base_dvd Layout.dvd_pageAlign PagesInv.dvd_stop (hi.le_data hs)
      (gap_absent hi hp hs hfree) he
  · cases h

/-- Only free buffers are filed as free. -/
theorem AreaInv.path_free (hi : AreaInv L p) {l : List ℕ} (hl : l ⊆ p.freeBuffers.inorder) :
    (l.any fun b => !p.isFree b) = false := by
  rw [List.any_eq_false]
  intro a ha
  obtain ⟨b, hb, hfree, rfl⟩ := hi.free_mem L (hl ha)
  simp [BinderArea.isFree, hi.bufferAt_eq hb, hfree]

theorem bestFitPath_subset (sizeOf : ℕ → ℕ) (size : ℕ) (t : Tree ℕ) :
    bestFitPath sizeOf size t ⊆ t.inorder := by
  induction t with
  | leaf => exact List.nil_subset _
  | node l a r ihl ihr =>
    intro b hb
    simp only [bestFitPath, List.mem_cons] at hb
    simp only [Tree.inorder_node, List.mem_append, List.mem_cons]
    rcases hb with rfl | hb
    · exact .inr (.inl rfl)
    · split_ifs at hb
      · exact .inl (ihl hb)
      · exact .inr (.inr (ihr hb))
      · cases hb

theorem bestFit_mem {sizeOf : ℕ → ℕ} {size : ℕ} {t : Tree ℕ}
    (h : bestFit sizeOf size t none = (some a, exact)) : a ∈ t.inorder := by
  have := (bestFit_some (by simp) h).1
  simpa using this

/-- When `binder_alloc_buf` returns NULL nothing has changed, and every page and every mapping that
it made is gone again. -/
theorem alloc_failure_atomic (h : AreaReach L R p) (E : PageEnv) (d o : ℕ) (u : Bool)
    (hnull : (binderAllocBuf L R p E d o u).2 = none) : Restored p (binderAllocBuf L R p E d o u).1 := by
  have hi := areaReach_inv h
  have hp := areaReach_pages h
  unfold binderAllocBuf at hnull ⊢
  dsimp only at hnull ⊢
  rw [hi.path_free (bestFitPath_subset _ _ _), bugOn_false] at hnull ⊢
  split_ifs at hnull ⊢
  · exact .refl p
  · exact .refl p
  · exact .refl p
  · split at hnull
    · exact .refl p
    · rename_i a exact he
      exact takeBuffer_restored hi hp (bestFit_mem he) hnull

end

/-- The second page of a request cannot be inserted. -/
theorem alloc_failure_atomic_page : ∃ p, area32 = some p ∧
    Restored p (binderAllocBuf layout32 .plain p
      { fail := fun k => if k = 1 then some .vmInsertPage else none } 9000 8 false).1 := by
  obtain ⟨p, hp, hstart, rfl⟩ := area32_start
  refine ⟨_, hp, alloc_failure_atomic (.start hstart) _ 9000 8 false ?_⟩
  decide +kernel

end Binder
