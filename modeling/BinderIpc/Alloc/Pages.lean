import BinderIpc.Alloc.PageRange
import BinderIpc.Alloc.Runs

/-! Which pages are there. A page is absent exactly when it lies inside the gap
behind a free header; splitting, freeing and merging change both sides alike. -/

namespace Binder

variable (L : Layout)

/-- The page at `q` lies inside the gap behind a free header. -/
def Hole (limit : ℕ) : List BinderBuffer → ℕ → Prop
  | [], _ => False
  | b :: l, q => (b.free = true ∧ b.addr + L.hdr ≤ q ∧ q + L.page ≤ startOf limit (l.map (·.addr))) ∨
      Hole limit l q

structure PagesInv (p : BinderArea) : Prop where
  base_dvd : L.page ∣ p.buffer
  size_dvd : L.page ∣ p.bufferSize
  present : ∀ i, i * L.page < p.bufferSize →
    (p.pages i = true ↔ ¬Hole L p.limit p.buffers (p.pageAddr L i))
  noBug : p.pageBug = false

section

variable {L} {limit q : ℕ} {l r pre post : List BinderBuffer} {b : BinderBuffer}

theorem hole_append : Hole L limit (l ++ r) q ↔
    Hole L (startOf limit (r.map (·.addr))) l q ∨ Hole L limit r q := by
  induction l with
  | nil => simp [Hole]
  | cons b l ih => simp only [List.cons_append, Hole, List.map_append, startOf_append, ih, or_assoc]

theorem Hole.le (h : Hole L limit l q) (ht : Tiled L.hdr limit (l.map (·.addr))) :
    startOf limit (l.map (·.addr)) + L.hdr ≤ q ∧ q + L.page ≤ limit := by
  induction l with
  | nil => exact h.elim
  | cons b l ih =>
    have ht' : Tiled L.hdr limit (l.map (·.addr)) := ht.sublist (List.sublist_cons_self _ _)
    rcases h with ⟨-, h1, h2⟩ | h
    · exact ⟨h1, h2.trans ht'.startOf_le_limit⟩
    · have hle := ht.startOf_le
      have := ih h ht'
      simp only [List.map_cons, startOf_cons] at hle ⊢
      omega

/-- A hole around a header lies before it, in its own gap, or behind the next header. -/
theorem hole_split (ht : Tiled L.hdr limit (pre.map (·.addr) ++ b.addr :: post.map (·.addr))) :
    Hole L limit (pre ++ b :: post) q ↔
      (Hole L b.addr pre q ∧ q + L.page ≤ b.addr) ∨
      (b.free = true ∧ b.addr + L.hdr ≤ q ∧ q + L.page ≤ startOf limit (post.map (·.addr))) ∨
      (Hole L limit post q ∧ startOf limit (post.map (·.addr)) + L.hdr ≤ q) := by
  have ht' : Tiled L.hdr limit (post.map (·.addr)) := ht.suffix.sublist (List.sublist_cons_self _ _)
  rw [hole_append]
  simp only [Hole, List.map_cons, startOf_cons]
  refine or_congr ?_ (or_congr_right ?_)
  · exact ⟨fun h => ⟨h, (h.le ht.before).2⟩, And.left⟩
  · exact ⟨fun h => ⟨h, (h.le ht').1⟩, And.left⟩

end

section

variable {L} {p : BinderArea} {R : RbTree ℕ}

theorem PagesInv.dvd_pageAddr (hp : PagesInv L p) (i : ℕ) : L.page ∣ p.pageAddr L i :=
  Dvd.dvd.add hp.base_dvd (Dvd.intro_left _ rfl)

/-- A page that ends inside the area has a slot in `proc->pages`. -/
theorem slot_of_le {i : ℕ} (h : p.pageAddr L i + L.page ≤ p.limit) : i * L.page < p.bufferSize := by
  have := L.page_pos
  unfold BinderArea.pageAddr BinderArea.limit at h
  omega

theorem Layout.slack : L.hdr + 4 < L.page := by
  obtain ⟨k, hk⟩ := L.page_pow
  obtain ⟨h, hh⟩ := L.hdr_dvd
  have hlt := L.hdr_lt
  have hpos := L.hdr_pos
  have h3 : 3 ≤ k := by
    by_contra hk3
    have : L.page ≤ 4 := hk ▸ (Nat.pow_le_pow_right (by decide) (show k ≤ 2 by omega))
    omega
  obtain ⟨m, rfl⟩ := Nat.exists_eq_add_of_le h3
  rw [Nat.pow_add] at hk
  omega

theorem pageBug_insertFree {a : ℕ} : (binderInsertFreeBuffer L R p a).pageBug = p.pageBug := by
  change ((p.bugOn _ _).bugOn _ _).pageBug = _
  simp [pageBug_bugOn]

theorem pageBug_insertAllocated {a : ℕ} :
    (binderInsertAllocatedBuffer R p a).pageBug = p.pageBug := by
  change (((p.bugOn _ _).bugOn _ _).bugOn _ _).pageBug = _
  simp [pageBug_bugOn]

theorem pageBug_congr {q : BinderArea} (h : q.bugs = p.bugs) : q.pageBug = p.pageBug := by
  rw [BinderArea.pageBug, h, BinderArea.pageBug]

theorem commitBuffer_pages {a K z d o : ℕ} {u : Bool} :
    (commitBuffer L R p a z K d o u).pages = p.pages ∧
      (commitBuffer L R p a z K d o u).pageBug = p.pageBug := by
  constructor
  · by_cases h : K = z <;> cases u <;>
      simp [commitBuffer, moveBuffer, h, BinderArea.modBuffer, binderInsertAllocatedBuffer,
        binderInsertFreeBuffer, BinderArea.bugOn]
  · have hmove : (moveBuffer R p a).pageBug = p.pageBug := pageBug_insertAllocated
    have hlast : ∀ q : BinderArea, q.pageBug = p.pageBug →
        (if u then { q with freeAsyncSpace := L.sub q.freeAsyncSpace (L.add z L.hdr) }
          else q).pageBug = p.pageBug := fun q hq => by
      cases u
      · exact hq
      · exact (pageBug_congr rfl).trans hq
    refine hlast _ ((pageBug_congr rfl).trans ?_)
    split_ifs
    · exact (pageBug_insertFree (R := R)).trans ((pageBug_congr rfl).trans hmove)
    · exact hmove

theorem PagesInv.same {q : BinderArea} (hp : PagesInv L p) (hs : SameHeaders p q)
    (hbug : q.pageBug = p.pageBug) (hpages : ∀ i, q.pages i = true ↔ p.pages i = true) :
    PagesInv L q := by
  refine ⟨hs.buffer ▸ hp.base_dvd, hs.bufferSize ▸ hp.size_dvd, fun i hlt => ?_,
    hbug.trans hp.noBug⟩
  rw [hpages, hs.limit, hs.buffers, BinderArea.pageAddr, hs.buffer]
  exact hp.present i (hs.bufferSize ▸ hlt)

section

variable {pre post : List BinderBuffer} {b : BinderBuffer} {K z d o : ℕ} {u : Bool}

theorem AreaInv.hole_iff (hi : AreaInv L p) (hs : p.buffers = pre ++ b :: post) {q : ℕ} :
    Hole L p.limit p.buffers q ↔ (Hole L b.addr pre q ∧ q + L.page ≤ b.addr) ∨
      (b.free = true ∧ b.addr + L.hdr ≤ q ∧ q + L.page ≤ startOf p.limit (post.map (·.addr))) ∨
      (Hole L p.limit post q ∧ startOf p.limit (post.map (·.addr)) + L.hdr ≤ q) := by
  rw [hs]
  exact hole_split (hi.split_tiled L hs)

theorem PagesInv.dvd_stop {x y : ℕ} : L.page ∣ min (L.pageAlign x) (L.pageMask y) := by
  rcases min_choice (L.pageAlign x) (L.pageMask y) with h | h <;> rw [h]
  · exact Layout.dvd_pageAlign
  · exact Layout.dvd_pageMask

/-- The page range of `binder_alloc_buf` covers the pages that begin in the
K that is kept and end inside the gap. -/
theorem PagesInv.range_iff (hp : PagesInv L p) {x y : ℕ} (i : ℕ) :
    (L.pageAlign x ≤ p.pageAddr L i ∧ p.pageAddr L i < min (L.pageAlign (x + K)) (L.pageMask y)) ↔
      x ≤ p.pageAddr L i ∧ p.pageAddr L i < x + K ∧ p.pageAddr L i + L.page ≤ y := by
  have hd := hp.dvd_pageAddr i
  rw [lt_min_iff, Layout.pageAlign_le hd, Layout.lt_pageAlign hd, Layout.lt_pageMask hd]

/-- None of them is there yet. -/
theorem gap_absent (hi : AreaInv L p) (hp : PagesInv L p) (hs : p.buffers = pre ++ b :: post)
    (hfree : b.free = true) (i : ℕ) (hstart : L.pageAlign (b.addr + L.hdr) ≤ p.pageAddr L i)
    (hstop : p.pageAddr L i < min (L.pageAlign (b.addr + L.hdr + K))
      (L.pageMask (startOf p.limit (post.map (·.addr))))) : p.pages i = false := by
  have hlim : startOf p.limit (post.map (·.addr)) ≤ p.limit :=
    ((hi.split_tiled L hs).suffix.sublist (List.sublist_cons_self _ _)).startOf_le_limit
  obtain ⟨h1, h2, h3⟩ := (hp.range_iff i).1 ⟨hstart, hstop⟩
  rw [Bool.eq_false_iff, ne_eq, hp.present i (slot_of_le (h3.trans hlim)), not_not, hi.hole_iff hs]
  exact Or.inr (Or.inl ⟨hfree, h1, h3⟩)

theorem AreaInv.le_data (hi : AreaInv L p) (hs : p.buffers = pre ++ b :: post) :
    p.buffer ≤ L.pageAlign (b.addr + L.hdr) := by
  have h1 : b.addr + L.hdr ≤ L.pageAlign (b.addr + L.hdr) := Layout.le_pageAlign
  have h2 := hi.base_le L (List.mem_map_of_mem (f := (·.addr)) (show b ∈ p.buffers by simp [hs]))
  omega

theorem backed_pages {E : PageEnv} (hi : AreaInv L p) (hp : PagesInv L p)
    (hs : p.buffers = pre ++ b :: post) (hfree : b.free = true) {q : BinderArea} {ok : Bool}
    (he : binderUpdatePageRange L p true (L.pageAlign (b.addr + L.hdr))
      (min (L.pageAlign (b.addr + L.hdr + K)) (L.pageMask (startOf p.limit (post.map (·.addr)))))
        false E = (q, ok)) :
    q.pageBug = p.pageBug ∧ ∀ i, q.pages i = true ↔ p.pages i = true ∨
      (ok = true ∧ b.addr + L.hdr ≤ p.pageAddr L i ∧ p.pageAddr L i < b.addr + L.hdr + K ∧
        p.pageAddr L i + L.page ≤ startOf p.limit (post.map (·.addr))) := by
  have hspec := updatePageRange_alloc hp.base_dvd Layout.dvd_pageAlign PagesInv.dvd_stop
    (hi.le_data hs) (gap_absent hi hp hs hfree) he
  simpa only [hp.range_iff] using hspec

/-- With those pages backed, the holes of the cut list are what is absent. -/
theorem commitBuffer_pagesInv (hi : AreaInv L p) (hs : p.buffers = pre ++ b :: post)
    (hfree : b.free = true) (hsize : z ≤ p.room L b.addr)
    (hfits : L.alignUp d + L.alignUp o ≤ z)
    (hpart : (K = z ∧ p.room L b.addr ≤ z + L.hdr + 4) ∨
      (K = z + L.hdr ∧ z + L.hdr + 4 < p.room L b.addr))
    (hbase : L.page ∣ p.buffer) (hsz : L.page ∣ p.bufferSize) (hbug : p.pageBug = false)
    (hpages : ∀ i, i * L.page < p.bufferSize →
      (p.pages i = true ↔ ¬Hole L p.limit p.buffers (p.pageAddr L i) ∨
        (b.addr + L.hdr ≤ p.pageAddr L i ∧ p.pageAddr L i < b.addr + L.hdr + K ∧
          p.pageAddr L i + L.page ≤ startOf p.limit (post.map (·.addr))))) :
    PagesInv L (commitBuffer L R p b.addr z K d o u) := by
  have hslack := L.slack
  have hpos := L.hdr_pos
  have hroom := hi.split_room L hs
  have hpart' : K ≠ z → z + L.hdr < p.room L b.addr := by omega
  obtain ⟨hbuf, hsz', -⟩ := commitBuffer_area L R (p := p) (b := b) (K := K) (z := z)
    (d := d) (o := o) (u := u)
  obtain ⟨hpg, hbug'⟩ := commitBuffer_pages (L := L) (R := R) (p := p) (a := b.addr)
    (K := K) (z := z) (d := d) (o := o) (u := u)
  have hbufs := commitBuffer_buffers L R (d := d) (o := o) (u := u) hi hs
    (new_notMem L hi hs hpart')
  have hi' := commitBuffer_inv L R (d := d) (o := o) (u := u) hi hs hfree hpart' hsize
    hfits
  have hlim := commitBuffer_limit L R (p := p) (b := b) (K := K) (z := z)
    (d := d) (o := o) (u := u)
  generalize commitBuffer L R p b.addr z K d o u = p' at *
  refine ⟨hbuf ▸ hbase, hsz' ▸ hsz, fun i hlt => ?_, hbug'.trans hbug⟩
  rw [hpg, hpages i (hsz' ▸ hlt), hi.hole_iff hs, hi'.hole_iff hbufs, BinderArea.pageAddr,
    BinderArea.pageAddr, hbuf, hlim]
  generalize p.buffer + i * L.page = q
  have hpost : Hole L p.limit post q → startOf p.limit (post.map (·.addr)) + L.hdr ≤ q := fun h =>
    (h.le ((hi.split_tiled L hs).suffix.sublist (List.sublist_cons_self _ _))).1
  simp only [BinderBuffer.taken, Bool.false_eq_true, false_and, false_or, hfree, true_and]
  by_cases hcut : K = z
  · simp only [rest, hcut, ne_eq, not_true_eq_false, if_false, List.nil_append]
    by_cases h1 : Hole L b.addr pre q <;> by_cases h2 : Hole L p.limit post q <;>
      simp only [h1, h2, true_and, false_and, or_false, false_or, true_imp_iff, false_imp_iff,
        not_false_eq_true, iff_true] at hpost ⊢ <;>
      omega
  · simp only [rest, hcut, ne_eq, not_false_eq_true, if_true, List.cons_append, List.nil_append,
      Hole, List.map_cons, startOf_cons, true_and, bufData]
    by_cases h1 : Hole L b.addr pre q <;> by_cases h2 : Hole L p.limit post q <;>
      simp only [h1, h2, true_and, false_and, or_false, false_or, true_imp_iff, false_imp_iff,
        or_true] at hpost ⊢ <;>
      omega

theorem takeBuffer_pages {a : ℕ} {exact : Bool} {E : PageEnv} (hi : AreaInv L p)
    (hp : PagesInv L p) (hf : Fit L p a z exact d o) :
    PagesInv L (takeBuffer L R p E a z exact d o u).1 := by
  have ha := hi.free_mem_addrs L hf.mem
  have hpart := part_spec L hi hf rfl
  simp only [takeBuffer]
  generalize (if exact then binderBufferSize L p a
      else if binderBufferSize L p a ≤ L.add (L.add z L.hdr) 4 then z
      else L.add z L.hdr) = K at *
  obtain ⟨b, hb, hfree, rfl⟩ := hi.free_mem L hf.mem
  obtain ⟨pre, post, hs⟩ := List.append_of_mem hb
  rw [binderBufferSize_eq L hi.tiled hi.limit_lt ha, bufData, hi.split_room L hs]
  have hsame := sameHeaders_updatePageRange L p true (L.pageAlign (b.addr + L.hdr))
    (min (L.pageAlign (b.addr + L.hdr + K)) (L.pageMask (startOf p.limit (post.map (·.addr)))))
      false E
  split
  · rename_i q he
    obtain ⟨h1, h2⟩ := backed_pages hi hp hs hfree he
    rw [he] at hsame
    exact hp.same hsame h1 fun i => by simpa using h2 i
  · rename_i q he
    obtain ⟨h1, h2⟩ := backed_pages hi hp hs hfree he
    rw [he] at hsame
    have hroom : q.room L b.addr = p.room L b.addr := by rw [hsame.room]
    refine commitBuffer_pagesInv (hi.same L hsame) (hsame.buffers.trans hs) hfree
      (hroom ▸ hf.le) hf.size_eq.ge (hroom ▸ hpart) (hsame.buffer ▸ hp.base_dvd)
      (hsame.bufferSize ▸ hp.size_dvd) (h1.trans hp.noBug) fun i hlt => ?_
    rw [h2, hp.present i (hsame.bufferSize ▸ hlt), BinderArea.pageAddr, BinderArea.pageAddr,
      hsame.limit, hsame.buffers, hsame.buffer]
    simp only [true_and]

theorem binderAllocBuf_pages {E : PageEnv} (hi : AreaInv L p) (hp : PagesInv L p)
    (hd : d < L.sizes) (ho : o < L.sizes) : PagesInv L (binderAllocBuf L R p E d o u).1 := by
  simp only [binderAllocBuf]
  split_ifs with hv hw hq
  · exact hp
  · exact hp
  · exact hp
  · simp only [Bool.or_eq_true, decide_eq_true_eq, not_or, not_lt] at hw
    have hsame := sameHeaders_bugOn p
      ((bestFitPath (binderBufferSize L p) (bufSize L d o) p.freeBuffers).any fun b => !p.isFree b)
      .notFree
    have hb := hi.same L hsame
    have hpb := hp.same hsame (by simp [pageBug_bugOn]) fun _ => Iff.rfl
    split
    · exact hpb
    · rename_i a exact he
      exact takeBuffer_pages hb hpb (bestFit_fit L hb hd ho hw.1 hw.2 he)

/-- The page range of `binder_free_buf` covers the pages inside the gap; the area that it is
freed in has the pages of `p`. -/
theorem freeData_pages {q : BinderArea} {E : PageEnv} (hi : AreaInv L p) (hp : PagesInv L p)
    (hs : p.buffers = pre ++ b :: post) (hb : b.free = false) (hbuf : q.buffer = p.buffer)
    (hpg : q.pages = p.pages) (hbug : q.pageBug = p.pageBug) :
    let q' := (binderUpdatePageRange L q false (L.pageAlign (b.addr + L.hdr))
      (L.pageMask (startOf p.limit (post.map (·.addr)))) false E).1
    q'.pageBug = p.pageBug ∧ ∀ i, q'.pages i = true ↔ p.pages i = true ∧
      ¬(b.addr + L.hdr ≤ p.pageAddr L i ∧
        p.pageAddr L i + L.page ≤ startOf p.limit (post.map (·.addr))) := by
  have hmem : b.addr ∈ p.addrs := List.mem_map_of_mem (by simp [hs])
  have hlim : startOf p.limit (post.map (·.addr)) ≤ p.limit :=
    ((hi.split_tiled L hs).suffix.sublist (List.sublist_cons_self _ _)).startOf_le_limit
  have hpage := L.page_pos
  have hrange : ∀ i, (L.pageAlign (b.addr + L.hdr) ≤ p.pageAddr L i ∧
      p.pageAddr L i < L.pageMask (startOf p.limit (post.map (·.addr)))) ↔
      b.addr + L.hdr ≤ p.pageAddr L i ∧
        p.pageAddr L i + L.page ≤ startOf p.limit (post.map (·.addr)) := fun i => by
    have hd := hp.dvd_pageAddr i
    rw [Layout.pageAlign_le hd, Layout.lt_pageMask hd]
  have hlow : p.buffer ≤ L.pageAlign (b.addr + L.hdr) := by
    have h1 : b.addr + L.hdr ≤ L.pageAlign (b.addr + L.hdr) := Layout.le_pageAlign
    have h2 := hi.base_le L hmem
    omega
  -- a page of an allocated gap is present
  have hpres : ∀ i, L.pageAlign (b.addr + L.hdr) ≤ p.pageAddr L i →
      p.pageAddr L i < L.pageMask (startOf p.limit (post.map (·.addr))) → p.pages i = true := by
    intro i h1 h2
    obtain ⟨h1, h2⟩ := (hrange i).1 ⟨h1, h2⟩
    rw [hp.present i (slot_of_le (h2.trans hlim)), hi.hole_iff hs, hb]
    rintro (⟨-, h⟩ | ⟨h, -⟩ | ⟨-, h⟩)
    · omega
    · cases h
    · omega
  have haddr : q.pageAddr L = p.pageAddr L := by
    funext i
    rw [BinderArea.pageAddr, hbuf, BinderArea.pageAddr]
  have hspec := updatePageRange_free (p := q) (v := false) (E := E) (hbuf ▸ hp.base_dvd)
    (Layout.dvd_pageAlign (x := b.addr + L.hdr))
    (Layout.dvd_pageMask (x := startOf p.limit (post.map (·.addr)))) (hbuf ▸ hlow)
    (by rw [haddr, hpg]; exact hpres)
  rw [haddr, hpg, hbug] at hspec
  simpa only [hrange] using hspec

theorem freeAsserts_pages : (freeAsserts L p b).pages = p.pages := rfl

theorem unbackBuffer_pages {E : PageEnv} (hi : AreaInv L p) (hp : PagesInv L p)
    (hs : p.buffers = pre ++ b :: post) (hb : b.free = false) :
    (unbackBuffer L p b E).pageBug = p.pageBug ∧ ∀ i, (unbackBuffer L p b E).pages i = true ↔
      p.pages i = true ∧ ¬(b.addr + L.hdr ≤ p.pageAddr L i ∧
        p.pageAddr L i + L.page ≤ startOf p.limit (post.map (·.addr))) := by
  have hmem : b.addr ∈ p.addrs := List.mem_map_of_mem (by simp [hs])
  have hbug : (freeAsserts L p b).pageBug = p.pageBug := by
    simp [freeAsserts, pageBug_bugOn]
  have hbuf := (sameHeaders_freeAsserts L p b).buffer
  have hpages := freeAsserts_pages (L := L) (p := p) (b := b)
  simp only [unbackBuffer]
  rw [binderBufferSize_eq L hi.tiled hi.limit_lt hmem, bufData, hi.split_room L hs]
  split_ifs
  · exact freeData_pages hi hp hs hb hbuf hpages ((pageBug_congr rfl).trans hbug)
  · exact freeData_pages hi hp hs hb hbuf hpages hbug

theorem unbackBuffer_area {E : PageEnv} :
    (unbackBuffer L p b E).buffer = p.buffer ∧
      (unbackBuffer L p b E).bufferSize = p.bufferSize := by
  have hasserts := sameHeaders_freeAsserts L p b
  simp only [unbackBuffer]
  split_ifs
  · have := sameHeaders_updatePageRange L { freeAsserts L p b with
      freeAsyncSpace := L.add (freeAsserts L p b).freeAsyncSpace
        (L.add (bufSize L b.dataSize b.offsetsSize) L.hdr) } false
      (L.pageAlign (bufData L b.addr)) (L.pageMask (bufData L b.addr + binderBufferSize L p b.addr))
        false E
    exact ⟨this.buffer.trans hasserts.buffer, this.bufferSize.trans hasserts.bufferSize⟩
  · have := sameHeaders_updatePageRange L (freeAsserts L p b) false
      (L.pageAlign (bufData L b.addr)) (L.pageMask (bufData L b.addr + binderBufferSize L p b.addr))
        false E
    exact ⟨this.buffer.trans hasserts.buffer, this.bufferSize.trans hasserts.bufferSize⟩

theorem markFree_pages {E : PageEnv} (hi : AreaInv L p) (hp : PagesInv L p)
    (hs : p.buffers = pre ++ b :: post) (hb : b.free = false) :
    PagesInv L (markFree R (unbackBuffer L p b E) b.addr) := by
  obtain ⟨hbug, hpages⟩ := unbackBuffer_pages (E := E) hi hp hs hb
  obtain ⟨hi', hb'⟩ := unbackBuffer_inv L (b := b) (E := E) hi
  obtain ⟨hbuf, hsz⟩ := unbackBuffer_area (L := L) (p := p) (b := b) (E := E)
  have hm := markFree_merging L R hi' (hb'.trans hs) hb
  have hlim : (markFree R (unbackBuffer L p b E) b.addr).limit = p.limit := by
    change (unbackBuffer L p b E).limit = _
    rw [BinderArea.limit, hbuf, hsz, BinderArea.limit]
  refine ⟨hbuf ▸ hp.base_dvd, hsz ▸ hp.size_dvd, fun i hlt => ?_, (pageBug_congr rfl).trans
    (hbug.trans hp.noBug)⟩
  have haddr : (markFree R (unbackBuffer L p b E) b.addr).pageAddr L i = p.pageAddr L i := by
    change (unbackBuffer L p b E).pageAddr L i = _
    rw [BinderArea.pageAddr, hbuf, BinderArea.pageAddr]
  change (unbackBuffer L p b E).pages i = true ↔ _
  rw [hpages, hp.present i (hsz ▸ hlt), hi.hole_iff hs, hb, haddr, hm.buffers, hole_split hm.tiled,
    hlim]
  simp only [Bool.false_eq_true, false_and, false_or, true_and]
  tauto

end

end

end Binder
