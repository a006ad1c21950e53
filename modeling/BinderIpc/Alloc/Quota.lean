import BinderIpc.Alloc.BestFit
import BinderIpc.Alloc.Live

/-! The space for asynchronous transactions: what is left and what the allocated
buffers of such transactions hold is always half of the area. -/

namespace Binder

variable (L : Layout)

/-- What an asynchronous buffer takes from the space. -/
def asyncCost (b : BinderBuffer) : ℕ := L.alignUp b.dataSize + L.alignUp b.offsetsSize + L.hdr

/-- What the asynchronous ones among these buffers take. -/
def asyncHeld (l : List BinderBuffer) : ℕ := ((l.filter (·.asyncTransaction)).map (asyncCost L)).sum

/-- The space is conserved. -/
def Quota (p : BinderArea) : Prop :=
  p.freeAsyncSpace + asyncHeld L (liveBuffers p.buffers) = p.bufferSize / 2

/-- The charge of `binder_alloc_buf` for a buffer of these sizes, without a wrap. -/
structure Charged (p q : BinderArea) (d o : ℕ) : Prop where
  cost : L.add (bufSize L d o) L.hdr = L.alignUp d + L.alignUp o + L.hdr
  le : L.alignUp d + L.alignUp o + L.hdr ≤ p.freeAsyncSpace
  left : q.freeAsyncSpace = p.freeAsyncSpace - (L.alignUp d + L.alignUp o + L.hdr)

/-- The refund of `binder_free_buf` for the buffer `b`, without a wrap. -/
structure Refunded (p q : BinderArea) (b : BinderBuffer) : Prop where
  cost : L.add (bufSize L b.dataSize b.offsetsSize) L.hdr = asyncCost L b
  lt : p.freeAsyncSpace + asyncCost L b < L.sizes
  left : q.freeAsyncSpace = p.freeAsyncSpace + asyncCost L b

section

variable {L} {R : RbTree ℕ} {E : PageEnv} {p q : BinderArea} {l l' : List BinderBuffer}
  {b : BinderBuffer} {a a' d o z K : ℕ} {u : Bool}

theorem asyncHeld_append : asyncHeld L (l ++ l') = asyncHeld L l + asyncHeld L l' := by
  simp [asyncHeld]

theorem asyncHeld_cons : asyncHeld L (b :: l) =
    (if b.asyncTransaction then asyncCost L b else 0) + asyncHeld L l := by
  cases h : b.asyncTransaction <;> simp [asyncHeld, h]

/-- Sizes that fit into a free buffer add up without a wrap. -/
theorem cost_eq (hd : d < L.sizes) (ho : o < L.sizes)
    (hlt : L.alignUp d + L.alignUp o + L.hdr < L.sizes) :
    L.add (bufSize L d o) L.hdr = L.alignUp d + L.alignUp o + L.hdr := by
  have hno := mt (overflow_iff hd ho).1 (by omega)
  rw [not_or, not_lt, not_lt] at hno
  rw [bufSize_eq L hd ho hno.1 hno.2]
  exact L.add_eq hlt

/-- The gap behind a header, with the header, lies inside the area. -/
theorem AreaInv.hdr_room_le (hi : AreaInv L p) (ha : a ∈ p.addrs) :
    p.room L a + L.hdr ≤ p.bufferSize := by
  have h1 := hi.tiled.gap_le L.hdr_pos ha
  have h2 := hi.base_le L ha
  have h3 : gap L.hdr p.limit p.addrs a = p.room L a := rfl
  have h4 : p.limit = p.buffer + p.bufferSize := rfl
  omega

theorem le_alignUp (x : ℕ) : x ≤ L.alignUp x := by
  rcases L.ptr_eq with h | h <;> simp only [Layout.alignUp, h] <;> omega

theorem Quota.lt (hi : AreaInv L p) (hq : Quota L p) : p.freeAsyncSpace < L.sizes := by
  have h1 := hi.small
  have h2 := L.sizes_ge
  unfold Quota at hq
  omega

/-! Allocation -/

theorem commitBuffer_space : (commitBuffer L R p a z K d o u).freeAsyncSpace =
    if u then L.sub p.freeAsyncSpace (L.add z L.hdr) else p.freeAsyncSpace := by
  by_cases h : K = z <;> cases u <;>
    simp [commitBuffer, moveBuffer, h, BinderArea.modBuffer, binderInsertAllocatedBuffer,
      binderInsertFreeBuffer, BinderArea.bugOn]

theorem commitBuffer_held (hi : AreaInv L p) (hb : b ∈ p.buffers) (hfree : b.free = true)
    (hpart : K ≠ z → z + L.hdr < p.room L b.addr) :
    asyncHeld L (liveBuffers (commitBuffer L R p b.addr z K d o u).buffers) =
      (if u then L.alignUp d + L.alignUp o + L.hdr else 0) + asyncHeld L (liveBuffers p.buffers) := by
  obtain ⟨pre, post, hs⟩ := List.append_of_mem hb
  have hrest : liveBuffers (rest K z (bufData L b.addr + z)) = [] := by
    unfold rest
    split_ifs <;> rfl
  rw [commitBuffer_buffers L R hi hs (new_notMem L hi hs hpart), hs]
  simp only [liveBuffers_append, liveBuffers_cons, hfree, hrest, BinderBuffer.taken,
    Bool.false_eq_true, if_false, if_true, List.nil_append, asyncHeld_append, asyncHeld_cons,
    asyncCost]
  omega

/-- What an allocation does to the space. -/
structure Allotted (L : Layout) (p q : BinderArea) (d o : ℕ) (u : Bool) : Prop where
  size : q.bufferSize = p.bufferSize
  held : asyncHeld L (liveBuffers q.buffers) =
    (if u then L.alignUp d + L.alignUp o + L.hdr else 0) + asyncHeld L (liveBuffers p.buffers)
  charged : u = true → Charged L p q d o
  free : u = false → q.freeAsyncSpace = p.freeAsyncSpace

theorem takeBuffer_allotted {exact : Bool} (hi : AreaInv L p) (hf : Fit L p a z exact d o)
    (hd : d < L.sizes) (ho : o < L.sizes) (hroom : p.freeAsyncSpace < L.sizes)
    (hquota : u = true → L.add z L.hdr ≤ p.freeAsyncSpace)
    (h : takeBuffer L R p E a z exact d o u = (q, some a')) : Allotted L p q d o u := by
  simp only [takeBuffer] at h
  have hsame := sameHeaders_updatePageRange L p true (L.pageAlign (bufData L a))
    (min (L.pageAlign (bufData L a + if exact then binderBufferSize L p a
      else if binderBufferSize L p a ≤ L.add (L.add z L.hdr) 4 then z
      else L.add z L.hdr)) (L.pageMask (bufData L a + binderBufferSize L p a))) false E
  have hpart := part_spec L hi hf rfl
  generalize (if exact then binderBufferSize L p a
      else if binderBufferSize L p a ≤ L.add (L.add z L.hdr) 4 then z
      else L.add z L.hdr) = K at *
  split at h
  · cases h
  · rename_i r he
    rw [he] at hsame
    cases h
    obtain ⟨b, hb, hfree, rfl⟩ := hi.free_mem L hf.mem
    have hr := hi.same L hsame
    have hz : L.alignUp d + L.alignUp o + L.hdr < L.sizes := by
      have h1 := hi.hdr_room_le (hi.free_mem_addrs L hf.mem)
      have h2 := hf.size_eq ▸ hf.le
      have h3 := hi.small
      have h4 := L.sizes_ge
      omega
    have hcost : L.add z L.hdr = L.alignUp d + L.alignUp o + L.hdr := by
      rw [hf.size_eq]
      exact L.add_eq hz
    have hspace := commitBuffer_space (L := L) (R := R) (p := r) (a := b.addr) (z := z) (K := K)
      (d := d) (o := o) (u := u)
    refine ⟨(commitBuffer_area L R).2.1.trans hsame.bufferSize, ?_, fun hu => ?_, fun hu => ?_⟩
    · rw [commitBuffer_held hr (hsame.buffers ▸ hb) hfree (by rw [hsame.room]; omega),
        hsame.buffers]
    · have hle := hcost ▸ hquota hu
      refine ⟨cost_eq hd ho hz, hle, ?_⟩
      rw [hspace, if_pos hu, hcost, hsame.freeAsyncSpace, L.sub_eq hle hroom]
    · rw [hspace, if_neg (by simp [hu]), hsame.freeAsyncSpace]

theorem binderAllocBuf_allotted (hi : AreaInv L p) (hq : Quota L p) (hd : d < L.sizes)
    (ho : o < L.sizes) (h : binderAllocBuf L R p E d o u = (q, some a)) :
    Allotted L p q d o u := by
  simp only [binderAllocBuf] at h
  split_ifs at h with hv hw hroom
  · cases h
  · cases h
  · cases h
  · simp only [Bool.or_eq_true, decide_eq_true_eq, not_or, not_lt] at hw
    have hsame := sameHeaders_bugOn p
      ((bestFitPath (binderBufferSize L p) (bufSize L d o) p.freeBuffers).any fun b => !p.isFree b)
      .notFree
    have hb := hi.same L hsame
    have hroom' : p.freeAsyncSpace < L.sizes := hq.lt hi
    split at h
    · cases h
    · rename_i a' exact he
      have hfit := bestFit_fit L hb hd ho hw.1 hw.2 he
      have := takeBuffer_allotted hb hfit hd ho hroom' (fun hu => ?_) h
      · exact ⟨this.size, this.held, fun hu => ⟨(this.charged hu).cost, (this.charged hu).le,
          (this.charged hu).left⟩, this.free⟩
      · rw [hsame.freeAsyncSpace]
        simpa [hu] using hroom

theorem Quota.alloc (hi : AreaInv L p) (hq : Quota L p) (hd : d < L.sizes)
    (ho : o < L.sizes) : Quota L (binderAllocBuf L R p E d o u).1 := by
  rcases hr : binderAllocBuf L R p E d o u with ⟨q, r⟩
  have hq' := hq
  unfold Quota at hq' ⊢
  cases r with
  | none =>
    have hsame := binderAllocBuf_refused hr
    rw [hsame.freeAsyncSpace, hsame.buffers, hsame.bufferSize]
    exact hq'
  | some a =>
    have hall := binderAllocBuf_allotted hi hq hd ho hr
    dsimp only
    rw [hall.held, hall.size]
    cases u with
    | false =>
      rw [hall.free rfl]
      simpa using hq'
    | true =>
      have hc := hall.charged rfl
      have := hc.le
      rw [hc.left, if_pos rfl]
      omega

/-! Freeing -/

theorem held_split (hi : AreaInv L p) (hb : b ∈ p.buffers) (hf : b.free = false) :
    asyncHeld L (liveBuffers p.buffers) = (if b.asyncTransaction then asyncCost L b else 0) +
      asyncHeld L ((liveBuffers p.buffers).filter (·.addr ≠ b.addr)) := by
  obtain ⟨pre, post, hs⟩ := List.append_of_mem hb
  obtain ⟨h1, h2⟩ := hi.split_notMem L hs
  have hkeep : ∀ {l : List BinderBuffer}, b.addr ∉ l.map (·.addr) →
      (liveBuffers l).filter (·.addr ≠ b.addr) = liveBuffers l := fun {l} hl => by
    rw [List.filter_eq_self]
    intro c hc
    have hne : c.addr ≠ b.addr := fun he =>
      notMem_liveBuffers hl (he ▸ List.mem_map_of_mem hc)
    simpa using hne
  have hlive : liveBuffers p.buffers = liveBuffers pre ++ b :: liveBuffers post := by
    rw [hs, liveBuffers_append, liveBuffers_cons, hf, if_neg (by simp)]
  have hrest : (liveBuffers p.buffers).filter (·.addr ≠ b.addr) =
      liveBuffers pre ++ liveBuffers post := by
    rw [hlive, List.filter_append, List.filter_cons_of_neg (by simp), hkeep h1, hkeep h2]
  rw [hrest, hlive, asyncHeld_append, asyncHeld_append, asyncHeld_cons]
  omega

/-- The refund makes up for the charge. -/
theorem refunded (hi : AreaInv L p) (hq : Quota L p) (hb : b ∈ p.buffers) (hf : b.free = false)
    (hu : b.asyncTransaction = true) : Refunded L p (binderFreeBuf L R p b.addr E) b := by
  have hheld := held_split hi hb hf
  rw [if_pos hu] at hheld
  have hsmall := hi.small
  have hW := L.sizes_ge
  unfold Quota at hq
  have hlt : p.freeAsyncSpace + asyncCost L b < L.sizes := by omega
  obtain ⟨hd, ho⟩ : b.dataSize < L.sizes ∧ b.offsetsSize < L.sizes := by
    have h1 := le_alignUp (L := L) b.dataSize
    have h2 := le_alignUp (L := L) b.offsetsSize
    unfold asyncCost at hlt
    omega
  have hcost : L.add (bufSize L b.dataSize b.offsetsSize) L.hdr = asyncCost L b :=
    cost_eq hd ho (by unfold asyncCost at hlt; omega)
  refine ⟨hcost, hlt, ?_⟩
  rw [(binderFreeBuf_space (hi.bufferAt_eq hb)).1, if_pos hu, hcost, L.add_eq hlt]

theorem Quota.free (hi : AreaInv L p) (hq : Quota L p) (ha : a ∈ addrsWhere (!·.free) p.buffers) :
    Quota L (binderFreeBuf L R p a E) := by
  obtain ⟨b, hb, hf, rfl⟩ := mem_addrsWhere.1 ha
  have hf : b.free = false := by simpa using hf
  have hheld := held_split hi hb hf
  have hlive := binderFreeBuf_liveBuffers (L := L) (R := R) (E := E) hi (a := b.addr)
    (by simp [hi.liveAt_eq hb hf])
  obtain ⟨hspace, hsize⟩ := binderFreeBuf_space (L := L) (R := R) (E := E) (hi.bufferAt_eq hb)
  have hq' := hq
  unfold Quota at hq' ⊢
  rw [hlive, hsize]
  cases hu : b.asyncTransaction with
  | false =>
    rw [hu, if_neg (by simp)] at hspace hheld
    omega
  | true =>
    have hleft := (refunded (R := R) (E := E) hi hq hb hf hu).left
    rw [hu, if_pos rfl] at hheld
    omega

/-! Writes and the start -/

theorem asyncHeld_map {g : BinderBuffer → BinderBuffer} (hg : ∀ b, SameExtent b (g b)) :
    asyncHeld L (liveBuffers (l.map g)) = asyncHeld L (liveBuffers l) := by
  induction l with
  | nil => rfl
  | cons b l ih =>
    have hcost : asyncCost L (g b) = asyncCost L b := by
      rw [asyncCost, asyncCost, (hg b).dataSize, (hg b).offsetsSize]
    rw [List.map_cons, liveBuffers_cons, liveBuffers_cons, (hg b).free]
    split_ifs
    · exact ih
    · rw [asyncHeld_cons, asyncHeld_cons, ih, hcost, (hg b).asyncTransaction]

theorem quota_mmap {base size : ℕ} (h : binderMmap L R base size E = some p) : Quota L p := by
  simp only [binderMmap] at h
  have hs := sameHeaders_updatePageRange L
    { buffer := base, bufferSize := min size 0x400000 } true base (base + L.page) true E
  split at h
  · cases h
  · rename_i q hq
    rw [hq] at hs
    cases h
    have hsize : q.bufferSize = min size 0x400000 := hs.bufferSize
    simp [Quota, binderInsertFreeBuffer, BinderArea.bugOn, liveBuffers, asyncHeld, hsize]

theorem Quota.apply {op : AreaOp} (hi : AreaInv L p) (hq : Quota L p) (hok : op.Ok L p) :
    Quota L (op.apply L R p) := by
  cases op with
  | alloc d o u env => exact hq.alloc hi hok.1 hok.2
  | free a env => exact hq.free hi hok
  | fill a f =>
    unfold Quota at hq ⊢
    simp only [AreaOp.apply, BinderArea.modBuffer, setBuffer]
    rwa [asyncHeld_map fun b => (hok b).ite]
  | vmaClose => exact hq

/-- What the space for asynchronous transactions does over a run. -/
structure QuotaKept (L : Layout) (R : RbTree ℕ) (p : BinderArea) : Prop where
  conserved : p.freeAsyncSpace + asyncHeld L (liveBuffers p.buffers) = p.bufferSize / 2
  charge : ∀ d o E q a, d < L.sizes → o < L.sizes →
    binderAllocBuf L R p E d o true = (q, some a) → Charged L p q d o
  refund : ∀ b E, b ∈ p.buffers → b.free = false → b.asyncTransaction = true →
    Refunded L p (binderFreeBuf L R p b.addr E) b

theorem areaReach_quota (h : AreaReach L R p) : Quota L p :=
  h.invariant_of (fun _ => areaReach_inv) (fun _ ⟨_, _, _, _, hs⟩ => quota_mmap hs)
    fun _ _ hi _ hq hok => hq.apply hi hok

/-- What is left and what is held make up half of the area, and no charge or refund wraps. -/
theorem async_quota_kept (h : AreaReach L R p) : QuotaKept L R p :=
  have hi := areaReach_inv h
  have hq := areaReach_quota h
  ⟨hq, fun _ _ _ _ _ hd ho he => (binderAllocBuf_allotted hi hq hd ho he).charged rfl,
    fun _ _ hb hf hu => refunded hi hq hb hf hu⟩

end

/-- Two asynchronous buffers and the refund of the first. -/
theorem async_quota_kept_refund : ∃ p, area32 = some p ∧
    QuotaKept layout32 .plain ((areaMachine layout32 .plain).exec p
      [.alloc 5000 8 true {}, .alloc 0 0 true {}, .free 0x10000 {}]) := by
  obtain ⟨p, hp, hstart, rfl⟩ := area32_start
  refine ⟨_, hp, async_quota_kept ((Machine.Reach.start hstart).exec ?_)⟩
  refine ⟨⟨by decide, by decide⟩, ⟨by decide, by decide⟩, ?_, trivial⟩
  simp only [AreaOp.Ok]
  decide

end Binder
