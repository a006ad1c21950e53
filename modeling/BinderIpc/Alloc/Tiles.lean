import BinderIpc.Alloc.Headers
import Mathlib.Data.List.Sort

/-! The representation invariant of the buffer area. Sizes are not stored, so
everything that is said about them goes through the gaps of the header list. -/

namespace Binder

variable (L : Layout)

namespace Layout

/-- `ALIGN(x, sizeof(void *))` where the sum does not wrap. -/
def alignUp (x : ℕ) : ℕ := (x + (L.ptr - 1)) / L.ptr * L.ptr

theorem sizes_ge : 2 ^ 32 ≤ L.sizes := by
  rcases L.ptr_eq with h | h <;> simp [sizes, h]

theorem add_eq {x y : ℕ} (h : x + y < L.sizes) : L.add x y = x + y := Nat.mod_eq_of_lt h

theorem sub_eq {x y : ℕ} (h : y ≤ x) (hx : x < L.sizes) : L.sub x y = x - y := by
  rw [sub, show x + L.sizes - y = x - y + L.sizes by omega, Nat.add_mod_right]
  exact Nat.mod_eq_of_lt (by omega)

end Layout

/-- The gap that the header list leaves behind the header at `a`. -/
def BinderArea.room (p : BinderArea) (a : ℕ) : ℕ := gap L.hdr p.limit p.addrs a

theorem binderBufferSize_eq {p : BinderArea} (ht : Tiled L.hdr p.limit p.addrs)
    (hl : p.limit < L.sizes) {a : ℕ} (ha : a ∈ p.addrs) : binderBufferSize L p a = p.room L a := by
  obtain ⟨pre, b, post, hsplit, rfl⟩ := exists_split ha
  have he : p.addrs = pre.map (·.addr) ++ b.addr :: post.map (·.addr) := by
    simp [BinderArea.addrs, hsplit]
  rw [he] at ht
  have hpre := ht.not_mem_pre L.hdr_pos
  have hle := ht.add_le
  have hlim : startOf p.limit (post.map (·.addr)) ≤ p.limit :=
    (ht.suffix.sublist (List.sublist_cons_self _ _)).startOf_le_limit
  rw [BinderArea.room, he, gap_self hpre, binderBufferSize, hsplit, nextBuffer_split hpre]
  cases post with
  | nil =>
    simp only [List.map_nil, startOf_nil, List.head?_nil] at hle ⊢
    exact L.sub_eq hle hl
  | cons c post =>
    simp only [List.map_cons, startOf_cons, List.head?_cons] at hle hlim ⊢
    exact L.sub_eq hle (by omega)

structure AreaInv (p : BinderArea) : Prop where
  starts : (p.buffers.map (·.addr)).head? = some p.buffer
  tiled : Tiled L.hdr p.limit p.addrs
  limit_lt : p.limit < L.sizes
  small : p.bufferSize ≤ 0x400000
  coalesced : p.buffers.IsChain fun b c => ¬(b.free = true ∧ c.free = true)
  freeTree : p.freeBuffers.inorder.Perm (addrsWhere (·.free) p.buffers)
  sorted : p.freeBuffers.inorder.Pairwise fun a b => p.room L a ≤ p.room L b
  allocTree : p.allocatedBuffers.inorder = addrsWhere (!·.free) p.buffers
  fits : ∀ b ∈ p.buffers, b.free = false →
    L.alignUp b.dataSize + L.alignUp b.offsetsSize ≤ p.room L b.addr

theorem SameHeaders.room {p p' : BinderArea} (h : SameHeaders p p') : p'.room L = p.room L := by
  funext a
  rw [BinderArea.room, BinderArea.room, h.limit, h.addrs]

theorem AreaInv.same {p p' : BinderArea} (hi : AreaInv L p) (h : SameHeaders p p') : AreaInv L p' where
  starts := by rw [h.buffers, h.buffer]; exact hi.starts
  tiled := by rw [h.limit, h.addrs]; exact hi.tiled
  limit_lt := by rw [h.limit]; exact hi.limit_lt
  small := by rw [h.bufferSize]; exact hi.small
  coalesced := by rw [h.buffers]; exact hi.coalesced
  freeTree := by rw [h.freeBuffers, h.buffers]; exact hi.freeTree
  sorted := by rw [h.freeBuffers, h.room]; exact hi.sorted
  allocTree := by rw [h.allocatedBuffers, h.buffers]; exact hi.allocTree
  fits := by rw [h.buffers, h.room]; exact hi.fits

/-! Filing a buffer in the two trees -/

section

variable (R : RbTree ℕ) {p : BinderArea} {a : ℕ}

theorem insertFree_perm :
    (binderInsertFreeBuffer L R p a).freeBuffers.inorder.Perm (a :: p.freeBuffers.inorder) := by
  simpa [binderInsertFreeBuffer] using Tree.link_perm _ a p.freeBuffers

theorem insertFree_sorted (ht : Tiled L.hdr p.limit p.addrs) (hl : p.limit < L.sizes)
    (ha : a ∈ p.addrs) (hmem : ∀ b ∈ p.freeBuffers.inorder, b ∈ p.addrs)
    (hs : p.freeBuffers.inorder.Pairwise fun b c => p.room L b ≤ p.room L c) :
    (binderInsertFreeBuffer L R p a).freeBuffers.inorder.Pairwise
      fun b c => p.room L b ≤ p.room L c := by
  have hroom := fun b hb => binderBufferSize_eq L ht hl (a := b) hb
  simp only [binderInsertFreeBuffer, RbTree.inorder_insertColor]
  refine Tree.link_pairwise (R := fun b c => p.room L b ≤ p.room L c) (fun h h' => h.trans h') _ a _
    hs (fun b hb hlt => ?_) (fun b hb hge => ?_)
  · have := of_decide_eq_true hlt
    rw [hroom a ha, hroom b (hmem b hb)] at this
    exact this.le
  · have := of_decide_eq_false hge
    rw [hroom a ha, hroom b (hmem b hb)] at this
    exact not_lt.1 this

theorem insertAllocated_perm :
    (binderInsertAllocatedBuffer R p a).allocatedBuffers.inorder.Perm
      (a :: p.allocatedBuffers.inorder) := by
  simpa [binderInsertAllocatedBuffer] using Tree.link_perm _ a p.allocatedBuffers

theorem insertAllocated_sorted (hs : p.allocatedBuffers.inorder.Pairwise (· < ·))
    (ha : a ∉ p.allocatedBuffers.inorder) :
    (binderInsertAllocatedBuffer R p a).allocatedBuffers.inorder.Pairwise (· < ·) := by
  simp only [binderInsertAllocatedBuffer, RbTree.inorder_insertColor]
  refine Tree.link_pairwise (fun h h' => h.trans h') _ a _ hs (fun b _ hlt => of_decide_eq_true hlt)
    (fun b hb hge => ?_)
  have hne : b ≠ a := fun he => ha (he ▸ hb)
  have := of_decide_eq_false hge
  omega

end

/-! Allocation -/

/-- The buffer that is handed out. -/
def BinderBuffer.taken (b : BinderBuffer) (dataSize offsetsSize : ℕ) (u : Bool) : BinderBuffer :=
  { b with free := false, dataSize := dataSize, offsetsSize := offsetsSize, asyncTransaction := u }

/-- The free buffer that is left behind it, if any. -/
def rest (K z new : ℕ) : List BinderBuffer :=
  if K ≠ z then [{ addr := new, free := true }] else []

section

variable (R : RbTree ℕ) {p : BinderArea} {pre post : List BinderBuffer} {b : BinderBuffer}
  {K z d o : ℕ} {u : Bool}

theorem AreaInv.split_notMem (hi : AreaInv L p) (hs : p.buffers = pre ++ b :: post) :
    b.addr ∉ pre.map (·.addr) ∧ b.addr ∉ post.map (·.addr) := by
  have ht := hi.tiled
  rw [BinderArea.addrs, hs, List.map_append, List.map_cons] at ht
  exact ⟨ht.not_mem_pre L.hdr_pos, ht.not_mem_post L.hdr_pos⟩

theorem AreaInv.split_tiled (hi : AreaInv L p) (hs : p.buffers = pre ++ b :: post) :
    Tiled L.hdr p.limit (pre.map (·.addr) ++ b.addr :: post.map (·.addr)) := by
  have ht := hi.tiled
  rwa [BinderArea.addrs, hs, List.map_append, List.map_cons] at ht

theorem AreaInv.split_room (hi : AreaInv L p) (hs : p.buffers = pre ++ b :: post) :
    b.addr + L.hdr + p.room L b.addr = startOf p.limit (post.map (·.addr)) := by
  have ht := hi.split_tiled L hs
  have := ht.add_gap L.hdr_pos
  rwa [BinderArea.room, BinderArea.addrs, hs, List.map_append, List.map_cons]

theorem AreaInv.free_mem (hi : AreaInv L p) {a : ℕ} (ha : a ∈ p.freeBuffers.inorder) :
    ∃ b ∈ p.buffers, b.free = true ∧ b.addr = a :=
  mem_addrsWhere.1 (hi.freeTree.subset ha)

theorem AreaInv.free_mem_addrs (hi : AreaInv L p) {a : ℕ} (ha : a ∈ p.freeBuffers.inorder) :
    a ∈ p.addrs := by
  obtain ⟨b, hb, -, rfl⟩ := hi.free_mem L ha
  exact List.mem_map_of_mem hb

theorem AreaInv.free_nodup (hi : AreaInv L p) : p.freeBuffers.inorder.Nodup :=
  hi.freeTree.nodup_iff.2 ((hi.tiled.nodup L.hdr_pos).sublist (addrsWhere_sublist _))

theorem commitBuffer_area :
    (commitBuffer L R p b.addr z K d o u).buffer = p.buffer ∧
      (commitBuffer L R p b.addr z K d o u).bufferSize = p.bufferSize ∧
      (commitBuffer L R p b.addr z K d o u).vma = p.vma := by
  by_cases h : K = z <;> cases u <;>
    simp [commitBuffer, moveBuffer, h, BinderArea.modBuffer, binderInsertAllocatedBuffer,
      binderInsertFreeBuffer, BinderArea.bugOn]

theorem commitBuffer_buffers (hi : AreaInv L p) (hs : p.buffers = pre ++ b :: post)
    (hnew : K ≠ z → bufData L b.addr + z ∉ p.addrs) :
    (commitBuffer L R p b.addr z K d o u).buffers =
      pre ++ b.taken d o u :: (rest K z (bufData L b.addr + z) ++ post) := by
  obtain ⟨h1, h2⟩ := hi.split_notMem L hs
  have hset : ∀ {f l}, b.addr ∉ List.map (·.addr) l →
      setBuffer b.addr f (pre ++ { b with free := false } :: l) =
        pre ++ f { b with free := false } :: l :=
    fun hl => setBuffer_split (b := { b with free := false }) h1 hl
  have hadd := fun c : BinderBuffer => addBuffer_split (b := { b with free := false }) (n := c)
    (l := post) h1
  by_cases h : K = z
  · cases u <;>
    simp [commitBuffer, moveBuffer, h, BinderArea.modBuffer, binderInsertAllocatedBuffer, rest,
      BinderArea.bugOn, hs, setBuffer_split h1 h2, hset h2, BinderBuffer.taken]
  · have hne : b.addr ∉ List.map (·.addr) (({ addr := bufData L b.addr + z, free := true } :
        BinderBuffer) :: post) := by
      have := hnew h
      simp only [BinderArea.addrs, hs, List.map_append, List.map_cons, List.mem_append,
        List.mem_cons, not_or] at this
      simpa [Ne.symm this.2.1] using h2
    cases u <;>
    simp [commitBuffer, moveBuffer, h, BinderArea.modBuffer, binderInsertAllocatedBuffer,
      binderInsertFreeBuffer, rest, BinderArea.bugOn, hs, setBuffer_split h1 h2, hset hne, hadd,
      BinderBuffer.taken]

theorem commitBuffer_alloc (hi : AreaInv L p) (hs : p.buffers = pre ++ b :: post)
    (hfree : b.free = true) :
    (commitBuffer L R p b.addr z K d o u).allocatedBuffers.inorder =
      addrsWhere (!·.free) pre ++ b.addr :: addrsWhere (!·.free) post := by
  have hold : p.allocatedBuffers.inorder = addrsWhere (!·.free) pre ++ addrsWhere (!·.free) post := by
    rw [hi.allocTree, hs, addrsWhere_append, addrsWhere_cons]
    simp [hfree]
  have hlt := (hi.split_tiled L hs).pairwise_lt L.hdr_pos
  have hnew : (addrsWhere (!·.free) pre ++ b.addr :: addrsWhere (!·.free) post).Pairwise (· < ·) :=
    hlt.sublist ((addrsWhere_sublist pre).append ((addrsWhere_sublist post).cons_cons _))
  have hnot : b.addr ∉ p.allocatedBuffers.inorder := by
    obtain ⟨h1, h2⟩ := hi.split_notMem L hs
    rw [hold, List.mem_append, not_or]
    exact ⟨fun h => h1 ((addrsWhere_sublist pre).subset h),
      fun h => h2 ((addrsWhere_sublist post).subset h)⟩
  have hsorted : p.allocatedBuffers.inorder.Pairwise (· < ·) := by
    rw [hi.allocTree]
    exact (hi.tiled.pairwise_lt L.hdr_pos).sublist (addrsWhere_sublist _)
  have hperm := (insertAllocated_perm R (p := p) (a := b.addr)).trans
    ((hold ▸ List.perm_middle.symm : (b.addr :: p.allocatedBuffers.inorder).Perm _))
  have heq := hperm.eq_of_pairwise (fun x y _ _ h h' => absurd (h.trans h') (lt_irrefl x))
    (insertAllocated_sorted R hsorted hnot) hnew
  rw [← heq]
  by_cases h : K = z <;> cases u <;>
    simp [commitBuffer, moveBuffer, h, BinderArea.modBuffer, binderInsertAllocatedBuffer,
      binderInsertFreeBuffer, BinderArea.bugOn]

theorem new_notMem (hi : AreaInv L p) (hs : p.buffers = pre ++ b :: post)
    (hpart : K ≠ z → z + L.hdr < p.room L b.addr) :
    K ≠ z → bufData L b.addr + z ∉ p.addrs := by
  intro hne hmem
  have ht := hi.split_tiled L hs
  have hroom := hi.split_room L hs
  have hp := hpart hne
  rw [BinderArea.addrs, hs, List.map_append, List.map_cons, List.mem_append, List.mem_cons] at hmem
  unfold bufData at hmem
  have hh := L.hdr_pos
  rcases hmem with h | h | h
  · have := ht.le_of_mem_pre h
    omega
  · omega
  · have := (ht.suffix.sublist (List.sublist_cons_self _ _)).startOf_le_of_mem h
    omega

/-- The new list of headers is tiled, with the old gaps but for the one that was cut. -/
theorem split_rest (hi : AreaInv L p) (hs : p.buffers = pre ++ b :: post)
    (hpart : K ≠ z → z + L.hdr < p.room L b.addr) {l : List ℕ}
    (hl : l = pre.map (·.addr) ++ b.addr ::
      ((rest K z (bufData L b.addr + z) ++ post).map (·.addr))) :
    Tiled L.hdr p.limit l ∧
      (∀ c ∈ p.addrs, c ≠ b.addr → gap L.hdr p.limit l c = p.room L c) ∧
      (K ≠ z → gap L.hdr p.limit l b.addr = z) ∧
      (K = z → gap L.hdr p.limit l b.addr = p.room L b.addr) := by
  have ht := hi.split_tiled L hs
  have hroom := hi.split_room L hs
  have he : p.addrs = pre.map (·.addr) ++ b.addr :: post.map (·.addr) := by
    simp [BinderArea.addrs, hs]
  subst hl
  by_cases h : K = z
  · simp only [rest, h, ne_eq, not_true_eq_false, if_false, List.nil_append, ← he]
    exact ⟨hi.tiled, fun _ _ _ => rfl, fun hf => hf.elim, fun _ => rfl⟩
  · have hp := hpart h
    simp only [rest, ne_eq, h, not_false_eq_true, if_true, List.cons_append, List.nil_append,
      List.map_cons]
    have htiled : Tiled L.hdr p.limit (pre.map (·.addr) ++ b.addr :: (bufData L b.addr + z) ::
        post.map (·.addr)) := ht.insert (by unfold bufData; omega) (by unfold bufData; omega)
    refine ⟨htiled, fun c hc hn => ?_, fun _ => ?_, fun hf => hf.elim⟩
    · rw [gap_insert hn (ne_of_mem_of_not_mem hc (new_notMem L hi hs hpart h)), BinderArea.room, he]
    · rw [gap_self (ht.not_mem_pre L.hdr_pos), startOf_cons]
      unfold bufData
      omega

theorem commitBuffer_addrs (hi : AreaInv L p) (hs : p.buffers = pre ++ b :: post)
    (hnew : K ≠ z → bufData L b.addr + z ∉ p.addrs) :
    (commitBuffer L R p b.addr z K d o u).addrs = pre.map (·.addr) ++ b.addr ::
      ((rest K z (bufData L b.addr + z) ++ post).map (·.addr)) := by
  simp [BinderArea.addrs, commitBuffer_buffers L R hi hs hnew, BinderBuffer.taken]

theorem commitBuffer_limit :
    (commitBuffer L R p b.addr z K d o u).limit = p.limit := by
  obtain ⟨h1, h2, -⟩ := commitBuffer_area L R (p := p) (b := b) (K := K) (z := z)
    (d := d) (o := o) (u := u)
  rw [BinderArea.limit, BinderArea.limit, h1, h2]

theorem commitBuffer_free (hi : AreaInv L p) (hs : p.buffers = pre ++ b :: post)
    (hfree : b.free = true) (hpart : K ≠ z → z + L.hdr < p.room L b.addr) :
    let p' := commitBuffer L R p b.addr z K d o u
    p'.freeBuffers.inorder.Perm (addrsWhere (·.free) p'.buffers) ∧
      p'.freeBuffers.inorder.Pairwise fun a c => p'.room L a ≤ p'.room L c := by
  intro p'
  have hnew := new_notMem L hi hs hpart
  have hbufs : p'.buffers = _ := commitBuffer_buffers L R hi hs hnew
  have haddrs : p'.addrs = _ := commitBuffer_addrs L R hi hs hnew
  have hlim : p'.limit = p.limit := commitBuffer_limit L R
  obtain ⟨htiled, hgap, -, -⟩ := split_rest L hi hs hpart haddrs
  have hold : (p.freeBuffers.inorder.erase b.addr).Perm
      (addrsWhere (·.free) pre ++ addrsWhere (·.free) post) := by
    have := hi.freeTree
    rw [hs, addrsWhere_append, addrsWhere_cons, if_pos hfree] at this
    simpa using (this.trans List.perm_middle).erase b.addr
  have hmem : ∀ c ∈ p.freeBuffers.inorder.erase b.addr, c ∈ p.addrs ∧ c ≠ b.addr := fun c hc =>
    ⟨hi.free_mem_addrs L (List.mem_of_mem_erase hc), fun he =>
      (hi.free_nodup L).not_mem_erase (he ▸ hc)⟩
  have hroom : ∀ c ∈ p.freeBuffers.inorder.erase b.addr, p'.room L c = p.room L c := fun c hc => by
    rw [BinderArea.room, hlim]
    exact hgap c (hmem c hc).1 (hmem c hc).2
  have hsorted : (p.freeBuffers.inorder.erase b.addr).Pairwise fun a c => p'.room L a ≤ p'.room L c :=
    (hi.sorted.sublist List.erase_sublist).imp_of_mem fun ha hc h => by
      rwa [hroom _ ha, hroom _ hc]
  by_cases h : K = z
  · have hf : p'.freeBuffers.inorder = p.freeBuffers.inorder.erase b.addr := by
      cases u <;>
      simp [p', commitBuffer, moveBuffer, h, BinderArea.modBuffer, binderInsertAllocatedBuffer, BinderArea.bugOn]
    refine ⟨?_, hf ▸ hsorted⟩
    rw [hf, hbufs, addrsWhere_append, addrsWhere_cons]
    simpa [BinderBuffer.taken, rest, h] using hold
  · -- the state in which the remainder is filed: the list is already the final one
    obtain ⟨q, hq, hqf, hqb, hql⟩ : ∃ q, p'.freeBuffers =
        (binderInsertFreeBuffer L R q (bufData L b.addr + z)).freeBuffers ∧
        q.freeBuffers = R.erase b.addr p.freeBuffers ∧
        q.addrs = p'.addrs ∧ q.limit = p'.limit := by
      have h12 := hi.split_notMem L hs
      refine ⟨{ moveBuffer R p b.addr with
        buffers := pre ++ { b with free := false } ::
          { addr := bufData L b.addr + z, free := true } :: post }, ?_, rfl, ?_, hlim.symm⟩
      · cases u <;>
        simp [p', commitBuffer, moveBuffer, h, BinderArea.modBuffer, binderInsertAllocatedBuffer,
          BinderArea.bugOn, hs, setBuffer_split h12.1 h12.2,
          addBuffer_split (b := { b with free := false }) h12.1]
      · simp [BinderArea.addrs, hbufs, rest, h, BinderBuffer.taken]
    have hqr : q.room L = p'.room L := by
      funext c
      rw [BinderArea.room, BinderArea.room, hqb, hql]
    have hqi : q.freeBuffers.inorder = p.freeBuffers.inorder.erase b.addr := by
      rw [hqf, RbTree.inorder_erase]
    rw [hq]
    refine ⟨?_, ?_⟩
    · refine (insertFree_perm L R).trans ?_
      rw [hqi, hbufs, addrsWhere_append, addrsWhere_cons]
      simp only [BinderBuffer.taken, rest, ne_eq, h, not_false_eq_true, if_true, List.cons_append,
        List.nil_append, addrsWhere_cons, Bool.false_eq_true, if_false]
      exact (hold.cons _).trans List.perm_middle.symm
    · rw [← hqr]
      refine insertFree_sorted L R ?_ ?_ ?_ ?_ ?_
      · rw [hql, hqb, hlim]
        exact htiled
      · rw [hql, hlim]
        exact hi.limit_lt
      · rw [hqb, haddrs]
        simp [rest, h]
      · intro c hc
        rw [hqi] at hc
        rw [hqb, haddrs]
        have := (hmem c hc).1
        rw [BinderArea.addrs, hs] at this
        simp only [List.map_append, List.map_cons, List.mem_append, List.mem_cons] at this ⊢
        tauto
      · rw [hqi, hqr]
        exact hsorted

theorem commitBuffer_inv (hi : AreaInv L p) (hs : p.buffers = pre ++ b :: post)
    (hfree : b.free = true) (hpart : K ≠ z → z + L.hdr < p.room L b.addr)
    (hsize : z ≤ p.room L b.addr) (hfits : L.alignUp d + L.alignUp o ≤ z) :
    AreaInv L (commitBuffer L R p b.addr z K d o u) := by
  have hnew := new_notMem L hi hs hpart
  have hbufs := commitBuffer_buffers (K := K) (z := z) (d := d) (o := o)
    (u := u) L R hi hs hnew
  have haddrs := commitBuffer_addrs (K := K) (z := z) (d := d) (o := o)
    (u := u) L R hi hs hnew
  have hlim := commitBuffer_limit (K := K) (z := z) (d := d) (o := o)
    (u := u) (b := b) L R (p := p)
  obtain ⟨harea, hasize, -⟩ := commitBuffer_area (K := K) (z := z) (d := d) (o := o)
    (u := u) (b := b) L R (p := p)
  obtain ⟨htiled, hgap, hcut, hwhole⟩ := split_rest L hi hs hpart haddrs
  obtain ⟨hperm, hsorted⟩ := commitBuffer_free (K := K) (z := z) (d := d) (o := o)
    (u := u) L R hi hs hfree hpart
  have halloc := commitBuffer_alloc (K := K) (z := z) (d := d) (o := o)
    (u := u) L R hi hs hfree
  generalize commitBuffer L R p b.addr z K d o u = p' at *
  refine ⟨?_, ?_, ?_, ?_, ?_, hperm, hsorted, ?_, ?_⟩
  · have := hi.starts
    rw [hbufs, harea]
    rw [hs] at this
    cases pre <;> simpa [BinderBuffer.taken] using this
  · rw [hlim]; exact htiled
  · rw [hlim]; exact hi.limit_lt
  · rw [hasize]; exact hi.small
  · have hc := hi.coalesced
    rw [hs, List.isChain_append] at hc
    obtain ⟨hpre, hpost, -⟩ := hc
    rw [List.isChain_cons] at hpost
    rw [hbufs, List.isChain_append]
    refine ⟨hpre, ?_, fun x _ y hy => ?_⟩
    · simp only [rest]
      split_ifs
      · refine List.isChain_cons.2 ⟨fun y _ => by simp [BinderBuffer.taken], ?_⟩
        refine List.isChain_cons.2 ⟨fun y hy => ?_, hpost.2⟩
        have := hpost.1 y hy
        simpa [hfree] using this
      · exact List.isChain_cons.2 ⟨fun y _ => by simp [BinderBuffer.taken], hpost.2⟩
    · simp only [List.head?_cons, Option.mem_def, Option.some.injEq] at hy
      simp [← hy, BinderBuffer.taken]
  · rw [halloc, hbufs, addrsWhere_append, addrsWhere_cons]
    simp only [BinderBuffer.taken, Bool.not_false, if_true, addrsWhere_append]
    congr 2
    simp only [rest]
    split_ifs <;> simp [addrsWhere]
  · intro c hc hcf
    rw [hbufs] at hc
    have hne : ∀ c ∈ pre ++ post, c.addr ≠ b.addr := fun c hc he => by
      obtain ⟨h1, h2⟩ := hi.split_notMem L hs
      rcases List.mem_append.1 hc with h | h
      · exact h1 (he ▸ List.mem_map_of_mem h)
      · exact h2 (he ▸ List.mem_map_of_mem h)
    have hold : c ∈ pre ++ post → L.alignUp c.dataSize + L.alignUp c.offsetsSize ≤ p'.room L c.addr := by
      intro hmem
      have hcp : c ∈ p.buffers := by
        rw [hs]
        rcases List.mem_append.1 hmem with h | h <;> simp [h]
      rw [BinderArea.room, hlim, hgap _ (List.mem_map_of_mem hcp) (hne c hmem)]
      exact hi.fits c hcp hcf
    simp only [List.mem_append, List.mem_cons] at hc
    rcases hc with hc | rfl | hc | hc
    · exact hold (List.mem_append_left _ hc)
    · simp only [BinderBuffer.taken]
      rw [BinderArea.room, hlim]
      by_cases h : K = z
      · rw [hwhole h]; omega
      · rw [hcut h]; exact hfits
    · simp only [rest] at hc
      split_ifs at hc
      · rw [List.mem_singleton.1 hc] at hcf
        simp at hcf
      · simp at hc
    · exact hold (List.mem_append_right _ hc)

theorem AreaInv.base_le (hi : AreaInv L p) {a : ℕ} (ha : a ∈ p.addrs) : p.buffer ≤ a :=
  hi.tiled.head_le hi.starts ha

theorem AreaInv.room_le (hi : AreaInv L p) {a : ℕ} (ha : a ∈ p.addrs) :
    p.room L a ≤ p.bufferSize := by
  have h1 := hi.tiled.gap_le L.hdr_pos ha
  have h2 := hi.base_le L ha
  have h3 : gap L.hdr p.limit p.addrs a = p.room L a := rfl
  have h4 : p.limit = p.buffer + p.bufferSize := rfl
  omega

/-- The wrap test lets through only requests whose aligned sizes really add up. -/
theorem bufSize_eq (hd : d < L.sizes) (ho : o < L.sizes) (h1 : d ≤ bufSize L d o)
    (h2 : o ≤ bufSize L d o) : bufSize L d o = L.alignUp d + L.alignUp o := by
  rcases L.ptr_eq with h | h <;>
    simp only [bufSize, Layout.align, Layout.alignUp, Layout.add, Layout.sizes, h, Nat.reduceMul, Nat.reducePow,
      Nat.reduceSub] at * <;> omega

theorem bestFit_some {sizeOf : ℕ → ℕ} {n a : ℕ} {e : Bool} {t : Tree ℕ} {best : Option ℕ}
    (hbest : ∀ x, best = some x → n < sizeOf x) (h : bestFit sizeOf n t best = (some a, e)) :
    (a ∈ t.inorder ∨ best = some a) ∧ (if e then n = sizeOf a else n < sizeOf a) := by
  induction t generalizing best with
  | leaf =>
    obtain ⟨rfl, rfl⟩ := Prod.mk.inj h
    exact ⟨Or.inr rfl, by simpa using hbest a rfl⟩
  | node l x r ihl ihr =>
    simp only [bestFit] at h
    simp only [Tree.inorder_node, List.mem_append, List.mem_cons]
    split_ifs at h with h1 h2
    · obtain ⟨hm, hs⟩ := ihl (fun y hy => by cases hy; exact h1) h
      refine ⟨?_, hs⟩
      rcases hm with hm | hm
      · exact Or.inl (Or.inl hm)
      · cases hm; exact Or.inl (Or.inr (Or.inl rfl))
    · obtain ⟨hm, hs⟩ := ihr hbest h
      refine ⟨?_, hs⟩
      rcases hm with hm | hm
      · exact Or.inl (Or.inr (Or.inr hm))
      · exact Or.inr hm
    · obtain ⟨hx, rfl⟩ := Prod.mk.inj h
      cases hx
      exact ⟨Or.inl (Or.inr (Or.inl rfl)), by simp only [if_true]; omega⟩

/-- What `binder_alloc_buf` works with once the search has succeeded. -/
structure Fit (p : BinderArea) (a z : ℕ) (exact : Bool) (d o : ℕ) : Prop where
  mem : a ∈ p.freeBuffers.inorder
  size_eq : z = L.alignUp d + L.alignUp o
  le : z ≤ p.room L a
  exact_iff : exact = true ↔ z = p.room L a

/-- The number of bytes that are kept at `a`. -/
theorem part_spec (hi : AreaInv L p) {a : ℕ} {exact : Bool} (hf : Fit L p a z exact d o)
    (hp : K = if exact then binderBufferSize L p a
      else if binderBufferSize L p a ≤ L.add (L.add z L.hdr) 4 then z
      else L.add z L.hdr) :
    (K = z ∧ p.room L a ≤ z + L.hdr + 4) ∨
      (K = z + L.hdr ∧ z + L.hdr + 4 < p.room L a) := by
  have ha := hi.free_mem_addrs L hf.mem
  have hroom := hi.room_le L ha
  have hsmall := hi.small
  have hhdr := L.hdr_lt
  have hpage := L.page_le
  have hle := hf.le
  have hW := L.sizes_ge
  rw [binderBufferSize_eq L hi.tiled hi.limit_lt ha, L.add_eq (x := z) (y := L.hdr) (by omega),
    L.add_eq (x := z + L.hdr) (y := 4) (by omega)] at hp
  cases exact with
  | true =>
    have := hf.exact_iff.1 rfl
    simp only [if_true] at hp
    omega
  | false =>
    simp only [Bool.false_eq_true, if_false] at hp
    split_ifs at hp <;> omega

theorem takeBuffer_inv (hi : AreaInv L p) {a : ℕ} {exact : Bool} {E : PageEnv}
    (hf : Fit L p a z exact d o) :
    AreaInv L (takeBuffer L R p E a z exact d o u).1 := by
  simp only [takeBuffer]
  have hsame := sameHeaders_updatePageRange L p true (L.pageAlign (bufData L a))
    (min (L.pageAlign (bufData L a + if exact then binderBufferSize L p a
      else if binderBufferSize L p a ≤ L.add (L.add z L.hdr) 4 then z
      else L.add z L.hdr)) (L.pageMask (bufData L a + binderBufferSize L p a))) false E
  have hpart := part_spec L hi hf rfl
  generalize (if exact then binderBufferSize L p a
      else if binderBufferSize L p a ≤ L.add (L.add z L.hdr) 4 then z
      else L.add z L.hdr) = K at *
  split
  · rename_i q he
    rw [he] at hsame
    exact hi.same L hsame
  · rename_i q he
    rw [he] at hsame
    have hq := hi.same L hsame
    obtain ⟨b, hb, hfree, rfl⟩ := hi.free_mem L hf.mem
    obtain ⟨pre, post, hs⟩ := List.append_of_mem hb
    have hroom : q.room L b.addr = p.room L b.addr := by rw [hsame.room]
    refine commitBuffer_inv L R hq (hsame.buffers.trans hs) hfree ?_ ?_ hf.size_eq.ge
    · rw [hroom]; omega
    · rw [hroom]; exact hf.le

/-- The search succeeds only on a free buffer that is large enough. -/
theorem bestFit_fit (hi : AreaInv L p) {a : ℕ} {exact : Bool} (hd : d < L.sizes) (ho : o < L.sizes)
    (h1 : d ≤ bufSize L d o) (h2 : o ≤ bufSize L d o)
    (h : bestFit (binderBufferSize L p) (bufSize L d o) p.freeBuffers none = (some a, exact)) :
    Fit L p a (bufSize L d o) exact d o := by
  obtain ⟨hm, hs⟩ := bestFit_some (by simp) h
  have hmem : a ∈ p.freeBuffers.inorder := by simpa using hm
  rw [binderBufferSize_eq L hi.tiled hi.limit_lt (hi.free_mem_addrs L hmem)] at hs
  refine ⟨hmem, bufSize_eq L hd ho h1 h2, ?_, ?_⟩ <;> cases exact <;> simp at hs ⊢ <;> omega

theorem binderAllocBuf_inv (hi : AreaInv L p) {E : PageEnv} (hd : d < L.sizes)
    (ho : o < L.sizes) : AreaInv L (binderAllocBuf L R p E d o u).1 := by
  simp only [binderAllocBuf]
  split_ifs with hv hw hq
  · exact hi
  · exact hi
  · exact hi
  · simp only [Bool.or_eq_true, decide_eq_true_eq, not_or, not_lt] at hw
    have hb := hi.same L (sameHeaders_bugOn p
      ((bestFitPath (binderBufferSize L p) (bufSize L d o) p.freeBuffers).any fun b => !p.isFree b)
      .notFree)
    split
    · exact hb
    · rename_i a exact he
      exact takeBuffer_inv L R hb (bestFit_fit L hb hd ho hw.1 hw.2 he)

end

/-! Freeing: while a buffer is merged with its neighbours it is marked free but
not yet filed in the tree of free buffers. -/

structure Merging (p : BinderArea) (pre : List BinderBuffer) (b : BinderBuffer)
    (post : List BinderBuffer) : Prop where
  buffers : p.buffers = pre ++ b :: post
  isFree : b.free = true
  starts : (p.buffers.map (·.addr)).head? = some p.buffer
  tiled : Tiled L.hdr p.limit (pre.map (·.addr) ++ b.addr :: post.map (·.addr))
  limit_lt : p.limit < L.sizes
  small : p.bufferSize ≤ 0x400000
  chainPre : pre.IsChain fun b c => ¬(b.free = true ∧ c.free = true)
  chainPost : post.IsChain fun b c => ¬(b.free = true ∧ c.free = true)
  freeTree : p.freeBuffers.inorder.Perm (addrsWhere (·.free) pre ++ addrsWhere (·.free) post)
  sorted : p.freeBuffers.inorder.Pairwise fun a c => p.room L a ≤ p.room L c
  allocTree : p.allocatedBuffers.inorder = addrsWhere (!·.free) pre ++ addrsWhere (!·.free) post
  fits : ∀ c ∈ pre ++ post, c.free = false →
    L.alignUp c.dataSize + L.alignUp c.offsetsSize ≤ p.room L c.addr

namespace Merging

variable {L} {p : BinderArea} {pre post : List BinderBuffer} {b n v : BinderBuffer}

theorem same {p' : BinderArea} (hm : Merging L p pre b post) (h : SameHeaders p p') :
    Merging L p' pre b post where
  buffers := by rw [h.buffers]; exact hm.buffers
  isFree := hm.isFree
  starts := by rw [h.buffers, h.buffer]; exact hm.starts
  tiled := by rw [h.limit]; exact hm.tiled
  limit_lt := by rw [h.limit]; exact hm.limit_lt
  small := by rw [h.bufferSize]; exact hm.small
  chainPre := hm.chainPre
  chainPost := hm.chainPost
  freeTree := by rw [h.freeBuffers]; exact hm.freeTree
  sorted := by rw [h.freeBuffers, h.room]; exact hm.sorted
  allocTree := by rw [h.allocatedBuffers]; exact hm.allocTree
  fits := by rw [h.room]; exact hm.fits

theorem addrs (hm : Merging L p pre b post) :
    p.addrs = pre.map (·.addr) ++ b.addr :: post.map (·.addr) := by
  simp [BinderArea.addrs, hm.buffers]

theorem notMem (hm : Merging L p pre b post) :
    b.addr ∉ pre.map (·.addr) ∧ b.addr ∉ post.map (·.addr) :=
  ⟨hm.tiled.not_mem_pre L.hdr_pos, hm.tiled.not_mem_post L.hdr_pos⟩

theorem base_le (hm : Merging L p pre b post) {a : ℕ} (ha : a ∈ p.addrs) : p.buffer ≤ a := by
  have := hm.starts
  rw [show p.buffers.map (·.addr) = p.addrs from rfl, hm.addrs] at this
  exact hm.tiled.head_le this (hm.addrs ▸ ha)

/-- The filed free buffers are headers of the list other than `b`. -/
theorem filed (hm : Merging L p pre b post) {a : ℕ} (ha : a ∈ p.freeBuffers.inorder) :
    a ∈ pre.map (·.addr) ++ post.map (·.addr) :=
  ((addrsWhere_sublist pre).append (addrsWhere_sublist post)).subset (hm.freeTree.subset ha)

theorem filed_ne (hm : Merging L p pre b post) {a : ℕ} (ha : a ∈ p.freeBuffers.inorder) :
    a ≠ b.addr := fun he => by
  have := hm.filed ha
  rw [he, List.mem_append] at this
  exact this.elim hm.notMem.1 hm.notMem.2

theorem nodup (hm : Merging L p pre b post) : p.freeBuffers.inorder.Nodup := by
  refine hm.freeTree.nodup_iff.2 (List.Nodup.sublist
    ((addrsWhere_sublist pre).append (addrsWhere_sublist post)) ?_)
  exact (hm.tiled.nodup L.hdr_pos).sublist ((List.sublist_cons_self _ _).append_left _)

/-- A state whose header list misses one header behind `x` has the old rooms
but for the one at `x`. -/
theorem room_del {q : BinderArea} {l r : List ℕ} {x y c : ℕ} (hlim : q.limit = p.limit)
    (hp : p.addrs = l ++ x :: y :: r) (hq : q.addrs = l ++ x :: r) (hx : c ≠ x) (hy : c ≠ y) :
    q.room L c = p.room L c := by
  rw [BinderArea.room, BinderArea.room, hlim, hp, hq, gap_insert hx hy]

theorem notMem_pair {l r : List ℕ} {x y c lim : ℕ} (ht : Tiled L.hdr lim (l ++ x :: y :: r))
    (hc : c ∈ l ++ r) : c ≠ x ∧ c ≠ y := by
  have hy : Tiled L.hdr lim ((l ++ [x]) ++ y :: r) := by simpa using ht
  rcases List.mem_append.1 hc with h | h
  · exact ⟨ne_of_mem_of_not_mem h (ht.not_mem_pre L.hdr_pos),
      ne_of_mem_of_not_mem (List.mem_append_left _ h) (hy.not_mem_pre L.hdr_pos)⟩
  · exact ⟨ne_of_mem_of_not_mem (List.mem_cons_of_mem _ h) (ht.not_mem_post L.hdr_pos),
      ne_of_mem_of_not_mem h (hy.not_mem_post L.hdr_pos)⟩

theorem head?_append_cons {l r t : List BinderBuffer} {x : BinderBuffer} :
    (List.map (·.addr) (l ++ x :: r)).head? = (List.map (·.addr) (l ++ x :: t)).head? := by
  cases l <;> rfl

/-- The successor is free: its header goes, its key leaves the tree. -/
theorem dropNext {q : BinderArea} (R : RbTree ℕ) (hm : Merging L p pre b (n :: post))
    (hn : n.free = true) (hq : SameHeaders { p with
      freeBuffers := R.erase n.addr p.freeBuffers, buffers := pre ++ b :: post } q) :
    Merging L q pre b post := by
  refine same ?_ hq
  have haddrs := hm.addrs
  rw [List.map_cons] at haddrs
  have hsub : (pre.map (·.addr) ++ b.addr :: post.map (·.addr)).Sublist
      (pre.map (·.addr) ++ b.addr :: (n :: post).map (·.addr)) :=
    ((List.sublist_cons_self _ _).cons_cons _).append_left _
  have hroom : ∀ c, c ≠ b.addr → c ≠ n.addr → BinderArea.room L { p with
      freeBuffers := R.erase n.addr p.freeBuffers, buffers := pre ++ b :: post } c = p.room L c :=
    fun c hb hc => room_del rfl haddrs (by simp [BinderArea.addrs]) hb hc
  have herase : ∀ c ∈ p.freeBuffers.inorder.erase n.addr, c ≠ b.addr ∧ c ≠ n.addr := fun c hc =>
    ⟨hm.filed_ne (List.mem_of_mem_erase hc), fun he => hm.nodup.not_mem_erase (he ▸ hc)⟩
  refine ⟨rfl, hm.isFree, ?_, hm.tiled.sublist hsub, hm.limit_lt, hm.small, hm.chainPre,
    hm.chainPost.tail, ?_, ?_, ?_, ?_⟩
  · have := hm.starts
    rw [hm.buffers] at this
    rw [head?_append_cons (t := n :: post)]
    exact this
  · have := hm.freeTree.erase n.addr
    rw [addrsWhere_cons, if_pos hn] at this
    rw [RbTree.inorder_erase]
    refine this.trans ((List.perm_middle.erase n.addr).trans ?_)
    simp
  · rw [RbTree.inorder_erase]
    refine (hm.sorted.sublist List.erase_sublist).imp_of_mem fun ha hc h => ?_
    rwa [hroom _ (herase _ ha).1 (herase _ ha).2, hroom _ (herase _ hc).1 (herase _ hc).2]
  · rw [hm.allocTree, addrsWhere_cons]
    simp [hn]
  · intro c hc hcf
    have hmem : c ∈ pre ++ n :: post := by
      simp only [List.mem_append, List.mem_cons] at hc ⊢
      tauto
    have hne := notMem_pair (l := pre.map (·.addr)) (r := post.map (·.addr)) hm.tiled
      (c := c.addr) (by simpa [← List.map_append] using List.mem_map_of_mem hc)
    rw [hroom _ hne.1 hne.2]
    exact hm.fits c hmem hcf

/-- The predecessor is free: the header of `b` goes, the predecessor leaves
the tree and takes the place of `b`. -/
theorem dropSelf {q : BinderArea} (R : RbTree ℕ) (hm : Merging L p (pre ++ [v]) b post)
    (hv : v.free = true) (hq : SameHeaders { p with
      freeBuffers := R.erase v.addr p.freeBuffers, buffers := pre ++ v :: post } q) :
    Merging L q pre v post := by
  refine same ?_ hq
  have haddrs : p.addrs = pre.map (·.addr) ++ v.addr :: b.addr :: post.map (·.addr) := by
    simpa using hm.addrs
  have htiled : Tiled L.hdr p.limit (pre.map (·.addr) ++ v.addr :: b.addr :: post.map (·.addr)) := by
    simpa using hm.tiled
  have hroom : ∀ c, c ≠ v.addr → c ≠ b.addr → BinderArea.room L { p with
      freeBuffers := R.erase v.addr p.freeBuffers, buffers := pre ++ v :: post } c = p.room L c :=
    fun c hv hb => room_del rfl haddrs (by simp [BinderArea.addrs]) hv hb
  have herase : ∀ c ∈ p.freeBuffers.inorder.erase v.addr, c ≠ v.addr ∧ c ≠ b.addr := fun c hc =>
    ⟨fun he => hm.nodup.not_mem_erase (he ▸ hc), hm.filed_ne (List.mem_of_mem_erase hc)⟩
  refine ⟨rfl, hv, ?_, htiled.sublist ((List.sublist_cons_self _ _).cons_cons _ |>.append_left _),
    hm.limit_lt, hm.small, ?_, hm.chainPost, ?_, ?_, ?_, ?_⟩
  · have := hm.starts
    rw [hm.buffers, List.append_assoc] at this
    rw [head?_append_cons (t := b :: post)]
    exact this
  · exact (List.isChain_append.1 hm.chainPre).1
  · have := hm.freeTree.erase v.addr
    rw [addrsWhere_append, addrsWhere_cons, if_pos hv, addrsWhere_nil, List.append_assoc] at this
    rw [RbTree.inorder_erase]
    refine this.trans ((List.perm_middle.erase v.addr).trans ?_)
    simp
  · rw [RbTree.inorder_erase]
    refine (hm.sorted.sublist List.erase_sublist).imp_of_mem fun ha hc h => ?_
    rwa [hroom _ (herase _ ha).1 (herase _ ha).2, hroom _ (herase _ hc).1 (herase _ hc).2]
  · rw [hm.allocTree, addrsWhere_append, addrsWhere_cons]
    simp [hv]
  · intro c hc hcf
    have hmem : c ∈ pre ++ [v] ++ post := by
      simp only [List.mem_append] at hc ⊢
      tauto
    have hne := notMem_pair (l := pre.map (·.addr)) (r := post.map (·.addr)) htiled
      (c := c.addr) (by simpa [← List.map_append] using List.mem_map_of_mem hc)
    rw [hroom _ hne.1 hne.2]
    exact hm.fits c hmem hcf

/-- Without free neighbours the buffer is filed and the invariant is back. -/
theorem file {q : BinderArea} (R : RbTree ℕ) (hm : Merging L p pre b post)
    (hprev : ∀ v ∈ pre.getLast?, v.free = false) (hnext : ∀ n ∈ post.head?, n.free = false)
    (hq : q = binderInsertFreeBuffer L R p b.addr) : AreaInv L q := by
  have ht : Tiled L.hdr p.limit p.addrs := hm.addrs ▸ hm.tiled
  have hb : b.addr ∈ p.addrs := by simp [hm.addrs]
  have hmem : ∀ c ∈ p.freeBuffers.inorder, c ∈ p.addrs := fun c hc => by
    have := hm.filed hc
    simp only [hm.addrs, List.mem_append, List.mem_cons] at this ⊢
    tauto
  have hperm := insertFree_perm L R (p := p) (a := b.addr)
  have hsorted := insertFree_sorted L R ht hm.limit_lt hb hmem hm.sorted
  have hbuf : q.buffers = p.buffers := by rw [hq]; rfl
  have hroom : q.room L = p.room L := by rw [hq]; rfl
  refine ⟨?_, ?_, ?_, ?_, ?_, ?_, ?_, ?_, ?_⟩
  · rw [hbuf, hq]; exact hm.starts
  · rw [hq]; exact ht
  · rw [hq]; exact hm.limit_lt
  · rw [hq]; exact hm.small
  · rw [hbuf, hm.buffers, List.isChain_append]
    refine ⟨hm.chainPre, List.isChain_cons.2 ⟨fun y hy => ?_, hm.chainPost⟩, fun x hx y hy => ?_⟩
    · simp [hnext y hy]
    · simp [hprev x hx]
  · rw [hq]
    refine hperm.trans ((hm.freeTree.cons _).trans ?_)
    rw [show (binderInsertFreeBuffer L R p b.addr).buffers = p.buffers from rfl, hm.buffers,
      addrsWhere_append, addrsWhere_cons, if_pos hm.isFree]
    exact List.perm_middle.symm
  · rw [hroom, hq]; exact hsorted
  · rw [hbuf, hm.buffers, addrsWhere_append, addrsWhere_cons]
    rw [show q.allocatedBuffers = p.allocatedBuffers by rw [hq]; rfl, hm.allocTree]
    simp [hm.isFree]
  · intro c hc hcf
    rw [hroom]
    rw [hbuf, hm.buffers, List.mem_append, List.mem_cons] at hc
    refine hm.fits c ?_ hcf
    rcases hc with hc | rfl | hc
    · exact List.mem_append_left _ hc
    · exact absurd hm.isFree (by simp [hcf])
    · exact List.mem_append_right _ hc

end Merging

/-- Merging a header away changes nothing but the list, and the pages. -/
theorem sameHeaders_deleteFree {p : BinderArea} {a : ℕ} {E : PageEnv}
    (h : (prevBuffer a p.buffers).isSome) :
    SameHeaders { p with buffers := delBuffer a p.buffers } (binderDeleteFreeBuffer L p a E) := by
  obtain ⟨prev, hprev⟩ := Option.isSome_iff_exists.1 h
  simp only [binderDeleteFreeBuffer, hprev]
  generalize freePageFlags L prev.addr a _ = flags
  obtain ⟨s, e⟩ := flags
  have hdel : SameHeaders { p with buffers := delBuffer a p.buffers }
      { p.bugOn (!prev.free) .notFree with
        buffers := delBuffer a (p.bugOn (!prev.free) .notFree).buffers } :=
    ⟨rfl, rfl, rfl, rfl, rfl, rfl, rfl⟩
  dsimp only
  by_cases h : (s || e) = true
  · rw [if_pos h]
    exact hdel.trans (sameHeaders_updatePageRange L _ _ _ _ _ _)
  · rw [if_neg h]
    exact hdel

theorem mergeNext_merging (R : RbTree ℕ) {p : BinderArea} {pre post : List BinderBuffer}
    {b : BinderBuffer} {E : PageEnv} (hm : Merging L p pre b post) :
    ∃ post', Merging L (mergeNext L R p b.addr E) pre b post' ∧
      ∀ n ∈ post'.head?, n.free = false := by
  unfold mergeNext
  rw [hm.buffers, nextBuffer_split hm.notMem.1, ← hm.buffers]
  cases post with
  | nil => exact ⟨[], hm, by simp⟩
  | cons n post =>
    cases hn : n.free with
    | false => exact ⟨n :: post, by simpa [hn] using hm, by simp [hn]⟩
    | true =>
      have hsplit : p.buffers = (pre ++ [b]) ++ n :: post := by simp [hm.buffers]
      have htiled : Tiled L.hdr p.limit ((pre ++ [b]).map (·.addr) ++ n.addr :: post.map (·.addr)) := by
        simpa using hm.tiled
      have h1 := htiled.not_mem_pre L.hdr_pos
      have h2 := htiled.not_mem_post L.hdr_pos
      have hsame := sameHeaders_deleteFree L (a := n.addr) (E := E)
        (p := { p with freeBuffers := R.erase n.addr p.freeBuffers })
        (by simp only [hsplit, prevBuffer_split h1 h2]; simp)
      have hdel : delBuffer n.addr p.buffers = pre ++ b :: post := by
        rw [hsplit, delBuffer_split h1 h2, List.append_assoc, List.singleton_append]
      dsimp only at hsame
      rw [hdel] at hsame
      refine ⟨post, ?_, fun m hm' => ?_⟩
      · simp only [List.head?_cons, hn, if_true]
        exact hm.dropNext R hn hsame
      · have := hm.chainPost
        rw [List.isChain_cons] at this
        simpa [hn] using this.1 m hm'

theorem mergePrev_inv (R : RbTree ℕ) {p : BinderArea} {pre post : List BinderBuffer}
    {b : BinderBuffer} {E : PageEnv} (hm : Merging L p pre b post)
    (hnext : ∀ n ∈ post.head?, n.free = false) : AreaInv L (mergePrev L R p b.addr E) := by
  obtain ⟨h1, h2⟩ := hm.notMem
  unfold mergePrev
  rw [hm.buffers, prevBuffer_split h1 h2]
  rcases List.eq_nil_or_concat pre with rfl | ⟨pre, v, rfl⟩
  · exact hm.file R (by simp) hnext rfl
  · rw [List.concat_eq_append] at *
    rw [List.getLast?_concat]
    cases hv : v.free with
    | false =>
      simp only [hv, Bool.false_eq_true, if_false]
      exact hm.file R (by simp [hv]) hnext rfl
    | true =>
      have hsame := sameHeaders_deleteFree L (a := b.addr) (E := E) (p := p)
        (by rw [hm.buffers, prevBuffer_split h1 h2]; simp)
      simp only [hv, if_true]
      set q := binderDeleteFreeBuffer L p b.addr E
      have hq : Merging L { q with freeBuffers := R.erase v.addr q.freeBuffers } pre v post := by
        refine hm.dropSelf R hv ⟨hsame.buffer, hsame.bufferSize, hsame.vma, ?_, ?_,
          hsame.allocatedBuffers, hsame.freeAsyncSpace⟩
        · rw [hsame.buffers, hm.buffers, delBuffer_split h1 h2]
          simp
        · rw [hsame.freeBuffers]
      refine hq.file R (fun w hw => ?_) hnext rfl
      have := hm.chainPre
      rw [List.isChain_append] at this
      simpa [hv] using this.2.2 w hw v (by simp)

/-- Taking a buffer out of the allocated ones leaves a state ready for merging. -/
theorem markFree_merging (R : RbTree ℕ) {p : BinderArea} {pre post : List BinderBuffer}
    {b : BinderBuffer} (hi : AreaInv L p) (hs : p.buffers = pre ++ b :: post)
    (hb : b.free = false) : Merging L (markFree R p b.addr) pre { b with free := true } post := by
  obtain ⟨h1, h2⟩ := hi.split_notMem L hs
  have hbufs : (markFree R p b.addr).buffers = pre ++ { b with free := true } :: post := by
    simp only [markFree, hs, setBuffer_split h1 h2]
  have haddrs : (markFree R p b.addr).addrs = p.addrs := by
    simp [BinderArea.addrs, hbufs, hs]
  have hroom : (markFree R p b.addr).room L = p.room L := by
    funext c
    rw [BinderArea.room, haddrs]
    rfl
  have hchain := hi.coalesced
  rw [hs, List.isChain_append, List.isChain_cons] at hchain
  refine ⟨hbufs, rfl, ?_, ?_, hi.limit_lt, hi.small, hchain.1, hchain.2.1.2, ?_, ?_, ?_, ?_⟩
  · change (markFree R p b.addr).addrs.head? = _
    rw [haddrs]
    exact hi.starts
  · have := hi.split_tiled L hs
    exact this
  · have := hi.freeTree
    rw [hs, addrsWhere_append, addrsWhere_cons] at this
    simpa [hb, markFree] using this
  · rw [hroom]
    exact hi.sorted
  · simp only [markFree, RbTree.inorder_erase, hi.allocTree, hs, addrsWhere_append,
      addrsWhere_cons, hb, Bool.not_false, if_true]
    rw [List.erase_append_right _ fun h => h1 ((addrsWhere_sublist pre).subset h)]
    simp
  · intro c hc hcf
    rw [hroom]
    refine hi.fits c ?_ hcf
    rw [hs]
    rcases List.mem_append.1 hc with hc | hc <;> simp [hc]

theorem AreaInv.charge {p : BinderArea} (hi : AreaInv L p) (n : ℕ) (v : Bool) :
    AreaInv L { p with freeAsyncSpace := n, vma := v } where
  starts := hi.starts
  tiled := hi.tiled
  limit_lt := hi.limit_lt
  small := hi.small
  coalesced := hi.coalesced
  freeTree := hi.freeTree
  sorted := hi.sorted
  allocTree := hi.allocTree
  fits := hi.fits

theorem unbackBuffer_inv {p : BinderArea} {b : BinderBuffer} {E : PageEnv} (hi : AreaInv L p) :
    AreaInv L (unbackBuffer L p b E) ∧ (unbackBuffer L p b E).buffers = p.buffers := by
  have hpages : ∀ {q : BinderArea} (start stop), AreaInv L q ∧ q.buffers = p.buffers →
      AreaInv L (binderUpdatePageRange L q false start stop false E).1 ∧
        (binderUpdatePageRange L q false start stop false E).1.buffers = p.buffers :=
    fun {q} start stop h => by
      have := sameHeaders_updatePageRange L q false start stop false E
      exact ⟨h.1.same L this, this.buffers.trans h.2⟩
  have hassert := hi.same L (sameHeaders_freeAsserts L p b)
  simp only [unbackBuffer]
  refine hpages _ _ ?_
  split
  · exact ⟨hassert.charge L _ _, (sameHeaders_freeAsserts L p b).buffers⟩
  · exact ⟨hassert, (sameHeaders_freeAsserts L p b).buffers⟩

theorem binderFreeBuf_inv (R : RbTree ℕ) {p : BinderArea} {a : ℕ} {E : PageEnv}
    (hi : AreaInv L p) (ha : a ∈ addrsWhere (!·.free) p.buffers) :
    AreaInv L (binderFreeBuf L R p a E) := by
  obtain ⟨b, hb, hfree, rfl⟩ := mem_addrsWhere.1 ha
  obtain ⟨pre, post, hs⟩ := List.append_of_mem hb
  obtain ⟨h1, h2⟩ := hi.split_notMem L hs
  have hat : bufferAt b.addr p.buffers = some b := by rw [hs]; exact bufferAt_split h1
  obtain ⟨hi', hb'⟩ := unbackBuffer_inv L (b := b) (E := E) hi
  have hm := markFree_merging L R hi' (hb'.trans hs) (by simpa using hfree)
  obtain ⟨post', hm', hnext⟩ := mergeNext_merging L R (E := E) hm
  simp only [binderFreeBuf, hat]
  exact mergePrev_inv L R (b := { b with free := true }) hm' hnext

end Binder
