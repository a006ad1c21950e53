import BinderIpc.Alloc.Pages

/-! Merging a header away. The pages that held the header and nothing else go;
`freePageFlags` picks exactly those. -/

namespace Binder

variable (L : Layout)

section

variable {L} {v a q : ℕ} {next : Option ℕ} {limit : ℕ}

/-- The next header, or the end of the area. -/
def nextStart (limit : ℕ) (next : Option ℕ) : ℕ := next.getD limit

/-- A page of the header is to be freed exactly when it lies between the
header before and the header behind. -/
theorem freePageFlags_spec {n : Option ℕ} (hv : v + L.hdr ≤ a) (ha : a + L.hdr ≤ nextStart limit n)
    (hlim : L.page ∣ limit) :
    ((freePageFlags L v a n).1 = true ↔
      v + L.hdr ≤ L.pageMask a ∧ L.pageMask a + L.page ≤ nextStart limit n) ∧
    ((freePageFlags L v a n).2 = true ↔ v + L.hdr ≤ L.pageMask (a + L.hdr - 1) ∧
      L.pageMask (a + L.hdr - 1) + L.page ≤ nextStart limit n) := by
  have hpos := L.hdr_pos
  have hsp : L.page ∣ L.pageMask a := Layout.dvd_pageMask
  have hep : L.page ∣ L.pageMask (a + L.hdr - 1) := Layout.dvd_pageMask
  have hsa : L.pageMask a ≤ a := (Layout.le_pageMask hsp).1 le_rfl
  have hea : L.pageMask (a + L.hdr - 1) ≤ a + L.hdr - 1 := (Layout.le_pageMask hep).1 le_rfl
  have hse : L.pageMask a ≤ L.pageMask (a + L.hdr - 1) := (Layout.le_pageMask hsp).2 (by omega)
  have hev : L.pageMask (v + L.hdr - 1) ≤ L.pageMask a := by
    have h : L.pageMask (v + L.hdr - 1) ≤ v + L.hdr - 1 :=
      (Layout.le_pageMask Layout.dvd_pageMask).1 le_rfl
    exact (Layout.le_pageMask Layout.dvd_pageMask).2 (by omega)
  have h1 := Layout.pageMask_lt (x := v + L.hdr - 1) hsp
  have h2 := Layout.pageMask_lt (x := v + L.hdr - 1) hep
  cases n with
  | none =>
    simp only [nextStart, Option.getD_none] at ha ⊢
    have h3 : L.pageMask limit = limit := by
      refine le_antisymm ((Layout.le_pageMask Layout.dvd_pageMask).1 le_rfl) ?_
      exact (Layout.le_pageMask hlim).2 le_rfl
    have h4 := Layout.lt_pageMask (x := limit) hsp
    have h5 := Layout.lt_pageMask (x := limit) hep
    simp only [freePageFlags, bufferEndPage, bufferStartPage, Bool.not_eq_true',
      Bool.and_eq_false_iff, beq_eq_false_iff_ne, ne_eq]
    omega
  | some n =>
    simp only [nextStart, Option.getD_some] at ha ⊢
    have h3 := Layout.lt_pageMask (x := n) hsp
    have h4 := Layout.lt_pageMask (x := n) hep
    have h5 : L.pageMask (a + L.hdr - 1) ≤ L.pageMask n := (Layout.le_pageMask hep).2 (by omega)
    simp only [freePageFlags, bufferEndPage, bufferStartPage, Bool.and_eq_true, Bool.not_eq_true',
      Bool.and_eq_false_iff, beq_eq_false_iff_ne, ne_eq]
    omega

/-- The one or two pages that `binder_delete_free_buffer` frees, as an interval. -/
theorem freePageRange {s e : Bool} (hq : L.page ∣ q) (hse : (s || e) = true)
    (heq : L.pageMask a = L.pageMask (a + L.hdr - 1) → s = e) :
    ((if s then L.pageMask a else L.pageMask (a + L.hdr - 1)) ≤ q ∧
      q < (if e then L.pageMask (a + L.hdr - 1) else L.pageMask a) + L.page) ↔
    (s = true ∧ q = L.pageMask a) ∨ (e = true ∧ q = L.pageMask (a + L.hdr - 1)) := by
  have hpos := L.hdr_pos
  have hlt := L.hdr_lt
  have hsp : L.page ∣ L.pageMask a := Layout.dvd_pageMask
  have hep : L.page ∣ L.pageMask (a + L.hdr - 1) := Layout.dvd_pageMask
  have hse' : L.pageMask a ≤ L.pageMask (a + L.hdr - 1) :=
    (Layout.le_pageMask hsp).2 (((Layout.le_pageMask hsp).1 le_rfl).trans (by omega))
  have h1 : a < L.pageMask a + L.page := (Layout.pageMask_le hsp).1 le_rfl
  -- the header does not reach into a third page
  have h2 : L.pageMask (a + L.hdr - 1) ≤ L.pageMask a + L.page := by
    refine (Layout.lt_add_page hep (Dvd.dvd.add hsp dvd_rfl)).1 ?_
    have := (Layout.le_pageMask (x := a + L.hdr - 1) hep).1 le_rfl
    omega
  have h3 := Layout.lt_add_page hq hsp
  have h4 := Layout.lt_add_page hq hep
  have h5 := Layout.lt_add_page hep hsp
  cases s <;> cases e <;>
    simp only [Bool.or_true, Bool.or_false, Bool.true_eq_false, Bool.false_eq_true, if_true, if_false,
      true_and, false_and, or_false, false_or, imp_false] at hse heq ⊢ <;>
    omega

end

/-- A free header `b` behind a free header `x`. -/
structure Adjacent (p : BinderArea) (pre : List BinderBuffer) (x b : BinderBuffer)
    (post : List BinderBuffer) : Prop where
  buffers : p.buffers = pre ++ x :: b :: post
  tiled : Tiled L.hdr p.limit (pre.map (·.addr) ++ x.addr :: b.addr :: post.map (·.addr))
  prevFree : x.free = true
  isFree : b.free = true
  base : p.buffer ≤ x.addr

/-- The pages of the header of `b` that lie in the gap left behind `x`. -/
def gone (p : BinderArea) (x b : BinderBuffer) (post : List BinderBuffer) (q : ℕ) : Prop :=
  b.addr < q + L.page ∧ q < b.addr + L.hdr ∧ x.addr + L.hdr ≤ q ∧
    q + L.page ≤ startOf p.limit (post.map (·.addr))

section

variable {L} {p : BinderArea} {x b : BinderBuffer} {pre post : List BinderBuffer} {E : PageEnv}

namespace Adjacent

theorem tiled_snd (h : Adjacent L p pre x b post) :
    Tiled L.hdr p.limit ((pre ++ [x]).map (·.addr) ++ b.addr :: post.map (·.addr)) := by
  simpa using h.tiled

theorem tiled_post (h : Adjacent L p pre x b post) : Tiled L.hdr p.limit (post.map (·.addr)) :=
  h.tiled_snd.suffix.sublist (List.sublist_cons_self _ _)

theorem before (h : Adjacent L p pre x b post) : x.addr + L.hdr ≤ b.addr := h.tiled.add_le

theorem behind (h : Adjacent L p pre x b post) :
    b.addr + L.hdr ≤ startOf p.limit (post.map (·.addr)) := h.tiled_snd.add_le

theorem prev (h : Adjacent L p pre x b post) : prevBuffer b.addr p.buffers = some x := by
  rw [h.buffers, show pre ++ x :: b :: post = (pre ++ [x]) ++ b :: post by simp,
    prevBuffer_split (h.tiled_snd.not_mem_pre L.hdr_pos) (h.tiled_snd.not_mem_post L.hdr_pos)]
  simp

theorem next (h : Adjacent L p pre x b post) : nextBuffer b.addr p.buffers = post.head? := by
  rw [h.buffers, show pre ++ x :: b :: post = (pre ++ [x]) ++ b :: post by simp,
    nextBuffer_split (h.tiled_snd.not_mem_pre L.hdr_pos)]

theorem del (h : Adjacent L p pre x b post) : delBuffer b.addr p.buffers = pre ++ x :: post := by
  rw [h.buffers, show pre ++ x :: b :: post = (pre ++ [x]) ++ b :: post by simp,
    delBuffer_split (h.tiled_snd.not_mem_pre L.hdr_pos) (h.tiled_snd.not_mem_post L.hdr_pos)]
  simp

theorem hole_iff (h : Adjacent L p pre x b post) (q : ℕ) : Hole L p.limit p.buffers q ↔
    (Hole L x.addr pre q ∧ q + L.page ≤ x.addr) ∨ (x.addr + L.hdr ≤ q ∧ q + L.page ≤ b.addr) ∨
    (b.addr + L.hdr ≤ q ∧ q + L.page ≤ startOf p.limit (post.map (·.addr))) ∨
    (Hole L p.limit post q ∧ startOf p.limit (post.map (·.addr)) + L.hdr ≤ q) := by
  have hle := h.behind
  rw [h.buffers, hole_split (by simpa using h.tiled)]
  simp only [Hole, List.map_cons, startOf_cons, h.prevFree, h.isFree, true_and]
  refine or_congr_right (or_congr_right ?_)
  constructor
  · rintro ⟨hq | hq, -⟩
    · exact Or.inl hq
    · exact Or.inr ⟨hq, (hq.le h.tiled_post).1⟩
  · rintro (hq | hq)
    · exact ⟨Or.inl hq, hq.1⟩
    · exact ⟨Or.inr hq.1, by omega⟩

theorem gone_iff (h : Adjacent L p pre x b post) (hp : PagesInv L p) {q : ℕ} (hq : L.page ∣ q) :
    let flags := freePageFlags L x.addr b.addr (post.head?.map (·.addr))
    (gone L p x b post q ↔ (flags.1 = true ∧ q = L.pageMask b.addr) ∨
      (flags.2 = true ∧ q = L.pageMask (b.addr + L.hdr - 1))) ∧
    (L.pageMask b.addr = L.pageMask (b.addr + L.hdr - 1) → flags.1 = flags.2) := by
  intro flags
  have hpos := L.hdr_pos
  have hlt := L.hdr_lt
  have hN : nextStart p.limit (post.head?.map (·.addr)) = startOf p.limit (post.map (·.addr)) := by
    cases post <;> rfl
  have hdvd : L.page ∣ p.limit := Dvd.dvd.add hp.base_dvd hp.size_dvd
  obtain ⟨h1, h2⟩ := freePageFlags_spec (n := post.head?.map (·.addr)) h.before
    (by rw [hN]; exact h.behind) hdvd
  rw [hN] at h1 h2
  have h3 := Layout.pageMask_le (x := b.addr) hq
  have h4 := Layout.le_pageMask (x := b.addr + L.hdr - 1) hq
  have hsp : L.page ∣ L.pageMask b.addr := Layout.dvd_pageMask
  have hep : L.page ∣ L.pageMask (b.addr + L.hdr - 1) := Layout.dvd_pageMask
  have h5 := Layout.lt_add_page hq hsp
  have h6 := Layout.lt_add_page hep (Dvd.dvd.add hsp dvd_rfl)
  have h7 := (Layout.le_pageMask hep).1 le_rfl
  have h8 := (Layout.pageMask_le hsp).1 le_rfl
  have h9 := (Layout.le_pageMask hsp).1 le_rfl
  have h10 := Layout.lt_add_page hep hq
  refine ⟨?_, fun he => ?_⟩
  · rw [show flags.1 = true ↔ _ from h1, show flags.2 = true ↔ _ from h2, gone]
    constructor
    · rintro ⟨ha, hb, hc, hd⟩
      rcases (show q = L.pageMask b.addr ∨ q = L.pageMask (b.addr + L.hdr - 1) by omega) with rfl | rfl
      · exact Or.inl ⟨⟨hc, hd⟩, rfl⟩
      · exact Or.inr ⟨⟨hc, hd⟩, rfl⟩
    · rintro (⟨⟨hc, hd⟩, rfl⟩ | ⟨⟨hc, hd⟩, rfl⟩)
      · exact ⟨h8, by omega, hc, hd⟩
      · have := (Layout.le_pageMask (x := b.addr + L.hdr - 1) hsp).2 (by omega)
        exact ⟨by omega, by omega, hc, hd⟩
  · rw [Bool.eq_iff_iff, show flags.1 = true ↔ _ from h1, show flags.2 = true ↔ _ from h2, he]

end Adjacent

/-- Merging the header of `b` into `x` frees the pages that are gone with it. -/
theorem deleteFree_gone (h : Adjacent L p pre x b post) (hp : PagesInv L p) :
    (binderDeleteFreeBuffer L p b.addr E).pageBug = p.pageBug ∧
      ∀ i, (binderDeleteFreeBuffer L p b.addr E).pages i = true ↔
        p.pages i = true ∧ ¬gone L p x b post (p.pageAddr L i) := by
  have hbefore := h.before
  have hbehind := h.behind
  have hlim : startOf p.limit (post.map (·.addr)) ≤ p.limit := h.tiled_post.startOf_le_limit
  have hlow : p.buffer ≤ L.pageMask b.addr :=
    (Layout.le_pageMask hp.base_dvd).2 (by have := h.base; omega)
  have hsp : L.page ∣ L.pageMask b.addr := Layout.dvd_pageMask
  have hep : L.page ∣ L.pageMask (b.addr + L.hdr - 1) := Layout.dvd_pageMask
  have hle : L.pageMask b.addr ≤ L.pageMask (b.addr + L.hdr - 1) := by
    have hpos := L.hdr_pos
    exact (Layout.le_pageMask hsp).2 (((Layout.le_pageMask hsp).1 le_rfl).trans (by omega))
  -- a page of a header is present
  have hpres : ∀ i, gone L p x b post (p.pageAddr L i) → p.pages i = true := by
    rintro i ⟨h1, h2, h3, h4⟩
    rw [hp.present i (slot_of_le (h4.trans hlim)), h.hole_iff]
    omega
  obtain ⟨s, e, hse⟩ : ∃ s e, freePageFlags L x.addr b.addr (post.head?.map (·.addr)) = (s, e) :=
    ⟨_, _, rfl⟩
  have hgone := fun i => h.gone_iff hp (hp.dvd_pageAddr i)
  simp only [hse] at hgone
  have hnext : nextBuffer b.addr (p.bugOn (!x.free) .notFree).buffers = post.head? := h.next
  have hbug : (p.bugOn (!x.free) .notFree).pageBug = p.pageBug := by simp [pageBug_bugOn]
  simp only [binderDeleteFreeBuffer, h.prev, hnext, hse]
  by_cases hany : (s || e) = true
  · rw [if_pos hany]
    have hrange := fun i => freePageRange (hp.dvd_pageAddr i) hany (hgone i).2
    have hstart : p.buffer ≤ if s then L.pageMask b.addr else L.pageMask (b.addr + L.hdr - 1) := by
      split_ifs <;> omega
    have hspec := updatePageRange_free (v := false) (E := E)
      (p := { p.bugOn (!x.free) .notFree with
        buffers := delBuffer b.addr (p.bugOn (!x.free) .notFree).buffers })
      (m := if s then L.pageMask b.addr else L.pageMask (b.addr + L.hdr - 1))
      (n := (if e then L.pageMask (b.addr + L.hdr - 1) else L.pageMask b.addr) + L.page)
      hp.base_dvd (by split_ifs <;> assumption)
      (Dvd.dvd.add (by split_ifs <;> assumption) dvd_rfl) hstart
      (fun i h1 h2 => hpres i ((hgone i).1.2 ((hrange i).1 ⟨h1, h2⟩)))
    refine ⟨hspec.1.trans ((pageBug_congr rfl).trans hbug), fun i => (hspec.2 i).trans ?_⟩
    rw [(hgone i).1]
    exact and_congr_right fun _ => not_congr (hrange i)
  · rw [if_neg hany]
    refine ⟨(pageBug_congr rfl).trans hbug, fun i => ?_⟩
    have hnone : ¬gone L p x b post (p.pageAddr L i) := by
      rw [(hgone i).1]
      cases s <;> cases e <;> simp at hany ⊢
    exact (and_iff_left hnone).symm

theorem deleteFree_pages (h : Adjacent L p pre x b post) (hp : PagesInv L p) :
    PagesInv L (binderDeleteFreeBuffer L p b.addr E) := by
  obtain ⟨hbug, hpages⟩ := deleteFree_gone (E := E) h hp
  have hsame := sameHeaders_deleteFree L (p := p) (a := b.addr) (E := E) (by rw [h.prev]; rfl)
  rw [h.del] at hsame
  have hbefore := h.before
  have hbehind := h.behind
  have ht : Tiled L.hdr p.limit (pre.map (·.addr) ++ x.addr :: post.map (·.addr)) :=
    h.tiled.sublist (((List.sublist_cons_self _ _).cons_cons _).append_left _)
  refine ⟨hsame.buffer ▸ hp.base_dvd, hsame.bufferSize ▸ hp.size_dvd, fun i hlt => ?_,
    hbug.trans hp.noBug⟩
  rw [hpages, hp.present i (hsame.bufferSize ▸ hlt), hsame.limit, hsame.buffers, h.hole_iff,
    BinderArea.pageAddr, BinderArea.pageAddr, hsame.buffer]
  change _ ↔ ¬Hole L p.limit (pre ++ x :: post) _
  rw [hole_split ht, gone]
  simp only [h.prevFree, true_and]
  have hpos := L.hdr_pos
  generalize p.buffer + i * L.page = q
  by_cases h1 : Hole L x.addr pre q <;> by_cases h2 : Hole L p.limit post q <;>
    simp only [h1, h2, true_and, false_and, or_false, false_or] <;>
    omega

end

/-! The rest of `binder_free_buf` -/

section

variable {L} {R : RbTree ℕ} {p : BinderArea} {b : BinderBuffer} {pre post : List BinderBuffer}
  {E : PageEnv}

theorem PagesInv.setFree (hp : PagesInv L p) (t : Tree ℕ) : PagesInv L { p with freeBuffers := t } :=
  ⟨hp.base_dvd, hp.size_dvd, hp.present, (pageBug_congr rfl).trans hp.noBug⟩

theorem PagesInv.insertFree (hp : PagesInv L p) (a : ℕ) :
    PagesInv L (binderInsertFreeBuffer L R p a) :=
  ⟨hp.base_dvd, hp.size_dvd, hp.present, pageBug_insertFree.trans hp.noBug⟩

theorem mergeNext_pages (hm : Merging L p pre b post) (hp : PagesInv L p) :
    PagesInv L (mergeNext L R p b.addr E) := by
  unfold mergeNext
  rw [hm.buffers, nextBuffer_split hm.notMem.1, ← hm.buffers]
  cases post with
  | nil => exact hp
  | cons n post =>
    cases hn : n.free with
    | false => simpa [hn] using hp
    | true =>
      simp only [List.head?_cons, hn, if_true]
      have hadj : Adjacent L { p with freeBuffers := R.erase n.addr p.freeBuffers } pre b n post :=
        ⟨hm.buffers, hm.tiled, hm.isFree, hn, hm.base_le (by simp [hm.addrs])⟩
      exact deleteFree_pages hadj (hp.setFree _)

theorem mergePrev_pages (hm : Merging L p pre b post) (hp : PagesInv L p) :
    PagesInv L (mergePrev L R p b.addr E) := by
  unfold mergePrev
  rw [hm.buffers, prevBuffer_split hm.notMem.1 hm.notMem.2]
  rcases List.eq_nil_or_concat pre with rfl | ⟨pre, v, rfl⟩
  · exact hp.insertFree _
  · rw [List.concat_eq_append] at *
    rw [List.getLast?_concat]
    cases hv : v.free with
    | false => simpa [hv] using hp.insertFree (R := R) b.addr
    | true =>
      simp only [hv, if_true]
      have hadj : Adjacent L p pre v b post :=
        ⟨by simp [hm.buffers], by simpa using hm.tiled, hv, hm.isFree,
          hm.base_le (by simp [hm.addrs])⟩
      exact ((deleteFree_pages hadj hp).setFree _).insertFree _

theorem binderFreeBuf_pages {a : ℕ} (hi : AreaInv L p) (hp : PagesInv L p)
    (ha : a ∈ addrsWhere (!·.free) p.buffers) : PagesInv L (binderFreeBuf L R p a E) := by
  obtain ⟨b, hb, hfree, rfl⟩ := mem_addrsWhere.1 ha
  have hfree : b.free = false := by simpa using hfree
  obtain ⟨pre, post, hs⟩ := List.append_of_mem hb
  have hat : bufferAt b.addr p.buffers = some b := by
    rw [hs]
    exact bufferAt_split (hi.split_notMem L hs).1
  obtain ⟨hi', hb'⟩ := unbackBuffer_inv L (b := b) (E := E) hi
  have hm := markFree_merging L R hi' (hb'.trans hs) hfree
  have hpm := markFree_pages (R := R) (E := E) hi hp hs hfree
  obtain ⟨post', hm', -⟩ := mergeNext_merging L R (E := E) hm
  have hpn := mergeNext_pages (R := R) (E := E) hm hpm
  simp only [binderFreeBuf, hat]
  exact mergePrev_pages (b := { b with free := true }) hm' hpn

end

end Binder
