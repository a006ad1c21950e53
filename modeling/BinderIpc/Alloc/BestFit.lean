import BinderIpc.Alloc.Atomic

/-! Which free buffer a request gets, and when it gets one. -/

namespace Binder

section

variable {L : Layout} {d o : ℕ}

/-- The test rejects exactly the requests whose aligned sizes do not add up to a `size_t`. -/
theorem overflow_iff (hd : d < L.sizes) (ho : o < L.sizes) :
    (bufSize L d o < d ∨ bufSize L d o < o) ↔ L.sizes ≤ L.alignUp d + L.alignUp o := by
  rcases L.ptr_eq with h | h <;>
    simp only [bufSize, Layout.align, Layout.alignUp, Layout.add, Layout.sizes, h, Nat.reduceMul,
      Nat.reducePow, Nat.reduceSub] at * <;> omega

variable {sizeOf : ℕ → ℕ} {n a : ℕ} {t : Tree ℕ} {best r : Option ℕ} {exact : Bool}

/-- The descent comes back empty only when nothing fits. -/
theorem bestFit_none (hs : t.inorder.Pairwise fun a b => sizeOf a ≤ sizeOf b)
    (h : bestFit sizeOf n t best = (none, exact)) : best = none ∧ ∀ c ∈ t.inorder, sizeOf c < n := by
  induction t generalizing best with
  | leaf =>
    obtain ⟨rfl, -⟩ := Prod.mk.inj h
    exact ⟨rfl, fun c hc => by cases hc⟩
  | node l x r ihl ihr =>
    simp only [Tree.inorder_node, List.pairwise_append, List.pairwise_cons] at hs
    obtain ⟨hsl, ⟨-, hsr⟩, hlr⟩ := hs
    simp only [bestFit] at h
    split_ifs at h with h1 h2
    · cases (ihl hsl h).1
    · obtain ⟨hbest, hright⟩ := ihr hsr h
      refine ⟨hbest, fun c hc => ?_⟩
      rcases List.mem_append.1 hc with hc | hc
      · exact (hlr c hc x (by simp)).trans_lt h2
      · rcases List.mem_cons.1 hc with rfl | hc
        · exact h2
        · exact hright c hc
    · cases h

/-- What it finds is one of the smallest that fit. -/
theorem bestFit_least (hs : t.inorder.Pairwise fun a b => sizeOf a ≤ sizeOf b)
    (hbest : ∀ x, best = some x → ∀ c ∈ t.inorder, sizeOf c ≤ sizeOf x)
    (h : bestFit sizeOf n t best = (some a, exact)) :
    (∀ x, best = some x → sizeOf a ≤ sizeOf x) ∧
      ∀ c ∈ t.inorder, n ≤ sizeOf c → sizeOf a ≤ sizeOf c := by
  induction t generalizing best with
  | leaf =>
    obtain ⟨rfl, -⟩ := Prod.mk.inj h
    exact ⟨fun x hx => by cases hx; exact le_rfl, fun c hc => by cases hc⟩
  | node l x r ihl ihr =>
    simp only [Tree.inorder_node, List.pairwise_append, List.pairwise_cons] at hs
    obtain ⟨hsl, ⟨hxr, hsr⟩, hlr⟩ := hs
    simp only [Tree.inorder_node, List.mem_append, List.mem_cons] at hbest ⊢
    simp only [bestFit] at h
    split_ifs at h with h1 h2
    · -- the last left turn was at `x`
      obtain ⟨hx, hl⟩ := ihl hsl (fun y hy => by
        cases hy
        exact fun c hc => hlr c hc x (by simp)) h
      have hax := hx x rfl
      refine ⟨fun y hy => hax.trans (hbest y hy x (.inr (.inl rfl))), fun c hc hn => ?_⟩
      rcases hc with hc | rfl | hc
      · exact hl c hc hn
      · exact hax
      · exact hax.trans (hxr c hc)
    · obtain ⟨hy, hr⟩ := ihr hsr (fun y hy c hc => hbest y hy c (.inr (.inr hc))) h
      refine ⟨hy, fun c hc hn => ?_⟩
      rcases hc with hc | rfl | hc
      · exact absurd (hlr c hc x (by simp)) (by omega)
      · exact absurd h2 (by omega)
      · exact hr c hc hn
    · obtain ⟨ha, -⟩ := Prod.mk.inj h
      cases ha
      exact ⟨fun y hy => hbest y hy a (.inr (.inl rfl)), fun c _ hn => by omega⟩

end

section

variable {L : Layout} {R : RbTree ℕ} {p q : BinderArea} {E : PageEnv} {K z d o a : ℕ}
  {u exact : Bool} {pre post : List BinderBuffer} {b : BinderBuffer}

/-- What becomes of the buffer at `a` when `z` bytes of it are handed out: it is taken as it is, or
cut in two. -/
def Cut (L : Layout) (p q : BinderArea) (a z : ℕ) : Prop :=
  (q.addrs = p.addrs ∧ binderBufferSize L q a = binderBufferSize L p a ∧
      binderBufferSize L p a ≤ z + L.hdr + 4) ∨
    (bufData L a + z ∈ addrsWhere (·.free) q.buffers ∧ binderBufferSize L q a = z ∧
      binderBufferSize L q (bufData L a + z) + z + L.hdr = binderBufferSize L p a ∧
      0 < binderBufferSize L q (bufData L a + z))

theorem AreaInv.size_eq (hi : AreaInv L p) (ha : a ∈ p.addrs) : binderBufferSize L p a = p.room L a :=
  binderBufferSize_eq L hi.tiled hi.limit_lt ha

theorem commitBuffer_cut (hi : AreaInv L p) (hs : p.buffers = pre ++ b :: post)
    (hfree : b.free = true) (hsize : z ≤ p.room L b.addr) (hfits : L.alignUp d + L.alignUp o ≤ z)
    (hpart : (K = z ∧ p.room L b.addr ≤ z + L.hdr + 4) ∨
      (K = z + L.hdr ∧ z + L.hdr + 4 < p.room L b.addr)) :
    Cut L p (commitBuffer L R p b.addr z K d o u) b.addr z := by
  have hhdr := L.hdr_pos
  have hcut : K ≠ z → z + L.hdr < p.room L b.addr := fun hne => by omega
  have hnew := new_notMem L hi hs hcut
  have hq : AreaInv L (commitBuffer L R p b.addr z K d o u) :=
    commitBuffer_inv L R hi hs hfree hcut hsize hfits
  have hbufs := commitBuffer_buffers (K := K) (z := z) (d := d) (o := o) (u := u) L R hi hs hnew
  have haddrs := commitBuffer_addrs (K := K) (z := z) (d := d) (o := o) (u := u) L R hi hs hnew
  have hlim := commitBuffer_limit (K := K) (z := z) (d := d) (o := o) (u := u) (b := b) L R (p := p)
  obtain ⟨htiled, hgap, hself, hwhole⟩ := split_rest L hi hs hcut haddrs
  have hmem : b.addr ∈ p.addrs := List.mem_map_of_mem (by simp [hs])
  have hroom := hi.split_room L hs
  generalize commitBuffer L R p b.addr z K d o u = q at *
  have hmem' : b.addr ∈ q.addrs := by simp [haddrs]
  have hsize' : q.room L b.addr = gap L.hdr p.limit q.addrs b.addr := by rw [BinderArea.room, hlim]
  rw [Cut, hq.size_eq hmem', hi.size_eq hmem, hsize']
  rcases hpart with ⟨rfl, hsmall⟩ | ⟨hK, hlarge⟩
  · refine .inl ⟨?_, hwhole rfl, hsmall⟩
    rw [haddrs, BinderArea.addrs, hs]
    simp [rest]
  · have hne : K ≠ z := by omega
    have hrest : rest K z (bufData L b.addr + z) = [{ addr := bufData L b.addr + z, free := true }] :=
      if_pos hne
    rw [hrest] at hbufs haddrs
    have hmem'' : bufData L b.addr + z ∈ q.addrs := by simp [haddrs]
    -- the gap behind the new header
    have hlast : q.room L (bufData L b.addr + z) =
        startOf p.limit (post.map (·.addr)) - (bufData L b.addr + z + L.hdr) := by
      have hsplit : q.addrs = (pre.map (·.addr) ++ [b.addr]) ++
          (bufData L b.addr + z) :: post.map (·.addr) := by simp [haddrs]
      have hq' := hq.tiled
      rw [hsplit] at hq'
      rw [BinderArea.room, hsplit, hlim, gap_self (hq'.not_mem_pre hhdr)]
    rw [hq.size_eq hmem'', hlast]
    unfold bufData at *
    refine .inr ⟨mem_addrsWhere.2 ⟨{ addr := b.addr + L.hdr + z, free := true }, by rw [hbufs]; simp,
      rfl, rfl⟩, hself hne, by omega, by omega⟩

/-- The pages that `binder_alloc_buf` asks for. -/
def pagesWanted (L : Layout) (p : BinderArea) (a size : ℕ) (exact : Bool) : ℕ × ℕ :=
  let whole := binderBufferSize L p a
  let part :=
    if exact then whole
    else if whole ≤ L.add (L.add size L.hdr) 4 then size
    else L.add size L.hdr
  (L.pageAlign (bufData L a),
    min (L.pageAlign (bufData L a + part)) (L.pageMask (bufData L a + whole)))

/-- The request is one of `size_t` sizes, the mapping is there, the quota allows it, and the pages of
the buffer that the search finds can be had. -/
structure Granted (L : Layout) (p : BinderArea) (E : PageEnv) (d o : ℕ) (u : Bool) : Prop where
  dataSize_lt : d < L.sizes
  offsetsSize_lt : o < L.sizes
  vma : p.vma = true
  quota : u = true → L.add (bufSize L d o) L.hdr ≤ p.freeAsyncSpace
  pages : ∀ a exact, bestFit (binderBufferSize L p) (bufSize L d o) p.freeBuffers none =
    (some a, exact) → (binderUpdatePageRange L p true (pagesWanted L p a (bufSize L d o) exact).1
      (pagesWanted L p a (bufSize L d o) exact).2 false E).2 = true

/-- The buffer at `a` is one of the smallest free ones that fit, and what is too much is cut off. -/
structure BestFit (L : Layout) (p q : BinderArea) (a z : ℕ) : Prop where
  free : a ∈ addrsWhere (·.free) p.buffers
  taken : a ∈ addrsWhere (!·.free) q.buffers
  fits : z ≤ binderBufferSize L p a
  least : ∀ c ∈ addrsWhere (·.free) p.buffers, z ≤ binderBufferSize L p c →
    binderBufferSize L p a ≤ binderBufferSize L p c
  cut : Cut L p q a z

theorem SameHeaders.size (h : SameHeaders p q) : binderBufferSize L q a = binderBufferSize L p a := by
  rw [binderBufferSize, binderBufferSize, h.buffers, h.buffer, h.bufferSize]

theorem takeBuffer_cut (R : RbTree ℕ) (u : Bool) (hi : AreaInv L p) (hf : Fit L p a z exact d o)
    (hpages : (binderUpdatePageRange L p true (pagesWanted L p a z exact).1
      (pagesWanted L p a z exact).2 false E).2 = true) :
    (takeBuffer L R p E a z exact d o u).2 = some a ∧
      Cut L p (takeBuffer L R p E a z exact d o u).1 a z ∧
      a ∈ addrsWhere (!·.free) (takeBuffer L R p E a z exact d o u).1.buffers := by
  have hpart := part_spec L hi hf rfl
  simp only [pagesWanted] at hpages
  simp only [takeBuffer]
  have hsame := sameHeaders_updatePageRange L p true (L.pageAlign (bufData L a))
    (min (L.pageAlign (bufData L a + if exact then binderBufferSize L p a
      else if binderBufferSize L p a ≤ L.add (L.add z L.hdr) 4 then z
      else L.add z L.hdr)) (L.pageMask (bufData L a + binderBufferSize L p a))) false E
  generalize (if exact then binderBufferSize L p a
      else if binderBufferSize L p a ≤ L.add (L.add z L.hdr) 4 then z
      else L.add z L.hdr) = K at *
  split
  · rename_i q he
    rw [he] at hpages
    cases hpages
  · rename_i q he
    replace hsame : SameHeaders p q := by rwa [he] at hsame
    have hq := hi.same L hsame
    obtain ⟨b, hb, hfree, rfl⟩ := hi.free_mem L hf.mem
    obtain ⟨pre, post, hs⟩ := List.append_of_mem hb
    have hs' := hsame.buffers.trans hs
    have hroom : q.room L b.addr = p.room L b.addr := by rw [hsame.room]
    rw [← hroom] at hpart
    have hcut := commitBuffer_cut (R := R) (u := u) hq hs' hfree (hroom ▸ hf.le) hf.size_eq.ge hpart
    have hhdr := L.hdr_pos
    have hbufs := commitBuffer_buffers (K := K) (z := z) (d := d) (o := o) (u := u) L R hq hs'
      (new_notMem L hq hs' fun hne => by omega)
    refine ⟨rfl, ?_, mem_addrsWhere.2 ⟨b.taken d o u, by rw [hbufs]; simp, rfl, rfl⟩⟩
    unfold Cut at hcut ⊢
    rwa [hsame.size, hsame.addrs] at hcut

/-- A request that is granted its quota and its pages succeeds exactly when its sizes add up and a free
buffer is large enough; it gets one of the smallest of these, and the rest stays free. -/
theorem alloc_best_fit (h : AreaReach L R p) (hg : Granted L p E d o u) :
    ((bufSize L d o < d ∨ bufSize L d o < o) ↔ L.sizes ≤ L.alignUp d + L.alignUp o) ∧
      ((binderAllocBuf L R p E d o u).2 ≠ none ↔ L.alignUp d + L.alignUp o < L.sizes ∧
        ∃ c ∈ addrsWhere (·.free) p.buffers,
          L.alignUp d + L.alignUp o ≤ binderBufferSize L p c) ∧
      ∀ a, (binderAllocBuf L R p E d o u).2 = some a →
        BestFit L p (binderAllocBuf L R p E d o u).1 a (L.alignUp d + L.alignUp o) := by
  have hi := areaReach_inv h
  have hover := overflow_iff hg.dataSize_lt hg.offsetsSize_lt
  have hfree : ∀ c, c ∈ p.freeBuffers.inorder ↔ c ∈ addrsWhere (·.free) p.buffers := fun c =>
    hi.freeTree.mem_iff
  have hsorted : p.freeBuffers.inorder.Pairwise fun a b =>
      binderBufferSize L p a ≤ binderBufferSize L p b :=
    (areaReach_represents h).freeOrder
  have hquota : (u && decide (p.freeAsyncSpace < L.add (bufSize L d o) L.hdr)) = false := by
    rw [Bool.and_eq_false_iff, decide_eq_false_iff_not, not_lt]
    cases hu : u with
    | false => exact .inl rfl
    | true => exact .inr (hg.quota hu)
  refine ⟨hover, ?_⟩
  unfold binderAllocBuf
  dsimp only
  rw [hi.path_free (bestFitPath_subset _ _ _), bugOn_false]
  simp only [hg.vma, hquota, Bool.not_true, Bool.false_eq_true, if_false]
  by_cases hwrap : bufSize L d o < d ∨ bufSize L d o < o
  · rw [if_pos (by simpa using hwrap)]
    refine ⟨iff_of_false (fun hne => hne rfl) fun hfit => ?_, fun a ha => by cases ha⟩
    have := hover.1 hwrap
    omega
  · rw [if_neg (by simpa using hwrap)]
    have hno := not_or.1 hwrap
    have hsize := bufSize_eq L hg.dataSize_lt hg.offsetsSize_lt (not_lt.1 hno.1) (not_lt.1 hno.2)
    have hsum : L.alignUp d + L.alignUp o < L.sizes := not_le.1 fun hle => hwrap (hover.2 hle)
    rw [← hsize] at hsum ⊢
    rcases hbest : bestFit (binderBufferSize L p) (bufSize L d o) p.freeBuffers none with ⟨r, exact⟩
    cases r with
    | none =>
      refine ⟨iff_of_false (fun hne => hne rfl) ?_, fun a ha => by cases ha⟩
      rintro ⟨-, c, hc, hle⟩
      exact absurd ((bestFit_none hsorted hbest).2 c ((hfree c).2 hc)) (not_lt.2 hle)
    | some a =>
      have hf := bestFit_fit L hi hg.dataSize_lt hg.offsetsSize_lt (not_lt.1 hno.1) (not_lt.1 hno.2)
        hbest
      obtain ⟨hsome, hcut, htaken⟩ := takeBuffer_cut R u hi hf (hg.pages a exact hbest)
      have hle : bufSize L d o ≤ binderBufferSize L p a := by
        rw [hi.size_eq (hi.free_mem_addrs L hf.mem)]
        exact hf.le
      dsimp only
      refine ⟨iff_of_true (by simp [hsome]) ⟨hsum, a, (hfree a).1 hf.mem, hle⟩, fun a' ha' => ?_⟩
      obtain rfl : a = a' := Option.some.inj (hsome.symm.trans ha')
      exact ⟨(hfree a).1 hf.mem, htaken, hle, fun c hc hn =>
        (bestFit_least hsorted (by simp) hbest).2 c ((hfree c).2 hc) hn, hcut⟩

end

/-- A request of 5000 bytes in a fresh area. -/
theorem alloc_best_fit_fresh : ∃ p, area32 = some p ∧
    BestFit layout32 p (binderAllocBuf layout32 .plain p {} 5000 8 false).1 0x10000 5008 := by
  obtain ⟨p, hp, hstart, rfl⟩ := area32_start
  have hbest : bestFit (binderBufferSize layout32 (area32.get area32_isSome)) (bufSize layout32 5000 8)
      (area32.get area32_isSome).freeBuffers none = (some 0x10000, false) := by decide +kernel
  have hg : Granted layout32 (area32.get area32_isSome) {} 5000 8 false := by
    refine ⟨by decide, by decide, by decide, (fun hu => by cases hu), fun a exact ha => ?_⟩
    obtain ⟨ha, rfl⟩ := Prod.mk.inj (hbest.symm.trans ha)
    cases ha
    decide +kernel
  exact ⟨_, hp, (alloc_best_fit (.start hstart) hg).2.2 0x10000 (by decide +kernel)⟩

end Binder
