import BinderIpc.Alloc.Runs
import Mathlib.Data.List.Find

/-! The allocated buffers of an area, by address, and what the operations of the
allocator and the writes of the driver do to them. -/

namespace Binder

def liveBuffers (l : List BinderBuffer) : List BinderBuffer := l.filter (!·.free)

/-- The allocated buffer at `a`. -/
def liveAt (p : BinderArea) (a : ℕ) : Option BinderBuffer := bufferAt a (liveBuffers p.buffers)

section

variable {p : BinderArea} {a a' : ℕ} {b : BinderBuffer} {l l' : List BinderBuffer}

theorem liveBuffers_append : liveBuffers (l ++ l') = liveBuffers l ++ liveBuffers l' :=
  List.filter_append ..

theorem liveBuffers_cons :
    liveBuffers (b :: l) = if b.free then liveBuffers l else b :: liveBuffers l := by
  cases h : b.free <;> simp [liveBuffers, h]

theorem liveAt_some (h : liveAt p a = some b) : b ∈ p.buffers ∧ b.free = false ∧ b.addr = a := by
  obtain ⟨hm, ha⟩ := bufferAt_some h
  obtain ⟨hb, hf⟩ := List.mem_filter.1 hm
  exact ⟨hb, by simpa using hf, ha⟩

theorem bufferAt_append :
    bufferAt a (l ++ l') = (bufferAt a l).or (bufferAt a l') := List.find?_append ..

theorem bufferAt_cons : bufferAt a (b :: l) = if b.addr = a then some b else bufferAt a l := by
  by_cases h : b.addr = a <;> simp [bufferAt, h]

theorem bufferAt_none (h : a ∉ l.map (·.addr)) : bufferAt a l = none := by
  rw [bufferAt, List.find?_eq_none]
  exact fun c hc he => h (List.mem_map.2 ⟨c, hc, by simpa using he⟩)

theorem notMem_liveBuffers (h : a ∉ l.map (·.addr)) : a ∉ (liveBuffers l).map (·.addr) := fun hm => by
  obtain ⟨c, hc, rfl⟩ := List.mem_map.1 hm
  exact h (List.mem_map_of_mem (List.mem_filter.1 hc).1)

variable {L : Layout}

theorem AreaInv.bufferAt_eq (hi : AreaInv L p) (hb : b ∈ p.buffers) :
    bufferAt b.addr p.buffers = some b := by
  obtain ⟨pre, post, hs⟩ := List.append_of_mem hb
  rw [hs]
  exact bufferAt_split (hi.split_notMem L hs).1

theorem AreaInv.liveAt_eq (hi : AreaInv L p) (hb : b ∈ p.buffers) (hf : b.free = false) :
    liveAt p b.addr = some b := by
  obtain ⟨pre, post, hs⟩ := List.append_of_mem hb
  rw [liveAt, hs, liveBuffers_append, liveBuffers_cons, hf, if_neg (by simp)]
  exact bufferAt_split (notMem_liveBuffers (hi.split_notMem L hs).1)

theorem AreaInv.bufferAt_of_live (hi : AreaInv L p) (h : liveAt p a = some b) :
    bufferAt a p.buffers = some b := by
  obtain ⟨hb, -, rfl⟩ := liveAt_some h
  exact hi.bufferAt_eq hb

theorem AreaInv.unique (hi : AreaInv L p) {c : BinderBuffer} (hb : b ∈ p.buffers)
    (hc : c ∈ p.buffers) (h : c.addr = b.addr) : c = b := by
  have hcc := hi.bufferAt_eq hc
  rw [h, hi.bufferAt_eq hb] at hcc
  exact (Option.some.inj hcc).symm

theorem mem_allocated (h : liveAt p a = some b) :
    a ∈ addrsWhere (!·.free) p.buffers := by
  obtain ⟨hb, hf, rfl⟩ := liveAt_some h
  exact mem_addrsWhere.2 ⟨b, hb, by simp [hf], rfl⟩

/-! Writes -/

theorem liveAt_modBuffer {f : BinderBuffer → BinderBuffer} (hf : ∀ b, SameExtent b (f b)) :
    liveAt (p.modBuffer a f) a' = if a' = a then (liveAt p a).map f else liveAt p a' := by
  unfold liveAt BinderArea.modBuffer setBuffer
  dsimp only
  induction p.buffers with
  | nil => simp [liveBuffers, bufferAt]
  | cons b l ih =>
    rw [List.map_cons, liveBuffers_cons, liveBuffers_cons]
    have hfree : (if b.addr = a then f b else b).free = b.free := by
      split_ifs
      · exact (hf b).free
      · rfl
    have haddr : (if b.addr = a then f b else b).addr = b.addr := by
      split_ifs
      · exact (hf b).addr
      · rfl
    rw [hfree]
    cases b.free with
    | true => simpa using ih
    | false =>
      simp only [Bool.false_eq_true, if_false]
      rw [bufferAt_cons, bufferAt_cons, bufferAt_cons, ih, haddr]
      split_ifs with h1 h2 h3 <;> first | rfl | (subst h1; contradiction) | simp_all

/-! Allocation -/

variable {R : RbTree ℕ} {E : PageEnv} {d o : ℕ} {u : Bool}

theorem SameHeaders.liveAt {p' : BinderArea} (h : SameHeaders p p') : liveAt p' = liveAt p := by
  funext a
  rw [Binder.liveAt, Binder.liveAt, h.buffers]

/-- What becomes of an area in which a buffer was handed out. -/
structure Handed (p p' : BinderArea) (a d o : ℕ) (u : Bool) : Prop where
  fresh : Binder.liveAt p a = none
  at_eq : ∃ b, Binder.liveAt p' a = some b ∧ b.dataSize = d ∧ b.offsetsSize = o ∧
    b.asyncTransaction = u
  at_ne : ∀ a', a' ≠ a → Binder.liveAt p' a' = Binder.liveAt p a'
  vma : p'.vma = p.vma

theorem commitBuffer_handed {z K : ℕ} (hi : AreaInv L p) (hb : b ∈ p.buffers)
    (hfree : b.free = true) (hpart : K ≠ z → z + L.hdr < p.room L b.addr) :
    Handed p (commitBuffer L R p b.addr z K d o u) b.addr d o u := by
  obtain ⟨pre, post, hs⟩ := List.append_of_mem hb
  obtain ⟨h1, h2⟩ := hi.split_notMem L hs
  have hbufs := commitBuffer_buffers (K := K) (z := z) (d := d) (o := o)
    (u := u) L R hi hs (new_notMem L hi hs hpart)
  have hrest : liveBuffers (rest K z (bufData L b.addr + z)) = [] := by
    unfold rest
    split_ifs <;> rfl
  have hold : liveBuffers p.buffers = liveBuffers pre ++ liveBuffers post := by
    rw [hs, liveBuffers_append, liveBuffers_cons, hfree, if_pos rfl]
  have hnew : liveBuffers (commitBuffer L R p b.addr z K d o u).buffers =
      liveBuffers pre ++ b.taken d o u :: liveBuffers post := by
    rw [hbufs, liveBuffers_append, liveBuffers_cons, liveBuffers_append, hrest]
    rfl
  refine ⟨?_, ⟨b.taken d o u, ?_, rfl, rfl, rfl⟩, fun a' ha' => ?_,
    (commitBuffer_area L R).2.2⟩
  · rw [liveAt, hold, bufferAt_append, bufferAt_none (notMem_liveBuffers h1),
      bufferAt_none (notMem_liveBuffers h2)]
    rfl
  · rw [liveAt, hnew]
    exact bufferAt_split (b := b.taken d o u) (notMem_liveBuffers h1)
  · have hne : (b.taken d o u).addr ≠ a' := fun he => ha' he.symm
    rw [liveAt, liveAt, hnew, hold, bufferAt_append, bufferAt_append, bufferAt_cons, if_neg hne]

theorem takeBuffer_handed {z : ℕ} {exact : Bool} {p' : BinderArea} (hi : AreaInv L p)
    (hf : Fit L p a z exact d o)
    (h : takeBuffer L R p E a z exact d o u = (p', some a')) :
    a' = a ∧ Handed p p' a d o u := by
  simp only [takeBuffer] at h
  have hsame := sameHeaders_updatePageRange L p true (L.pageAlign (bufData L a))
    (min (L.pageAlign (bufData L a + if exact then binderBufferSize L p a
      else if binderBufferSize L p a ≤ L.add (L.add z L.hdr) 4 then z
      else L.add z L.hdr)) (L.pageMask (bufData L a + binderBufferSize L p a))) false E
  have hpart := part_spec L hi hf rfl
  generalize (if exact then binderBufferSize L p a
      else if binderBufferSize L p a ≤ L.add (L.add z L.hdr) 4 then z
      else L.add z L.hdr) = K at *
  split at h
  · cases h
  · rename_i q he
    rw [he] at hsame
    cases h
    obtain ⟨b, hb, hfree, rfl⟩ := hi.free_mem L hf.mem
    have hq := hi.same L hsame
    have hhand := commitBuffer_handed (R := R) (z := z) (K := K) (d := d) (o := o)
      (u := u) hq (hsame.buffers ▸ hb) hfree (by rw [hsame.room]; omega)
    refine ⟨rfl, hsame.liveAt ▸ hhand.fresh, hhand.at_eq, ?_, hhand.vma.trans hsame.vma⟩
    exact hsame.liveAt ▸ hhand.at_ne

theorem takeBuffer_refused {z : ℕ} {exact : Bool} {p' : BinderArea}
    (h : takeBuffer L R p E a z exact d o u = (p', none)) : SameHeaders p p' := by
  simp only [takeBuffer] at h
  split at h
  · rename_i q he
    cases h
    have := sameHeaders_updatePageRange L p true (L.pageAlign (bufData L a))
      (min (L.pageAlign (bufData L a + if exact then binderBufferSize L p a
        else if binderBufferSize L p a ≤ L.add (L.add z L.hdr) 4 then z
        else L.add z L.hdr)) (L.pageMask (bufData L a + binderBufferSize L p a))) false E
    rwa [he] at this
  · cases h

theorem binderAllocBuf_handed {p' : BinderArea} (hi : AreaInv L p) (hd : d < L.sizes)
    (ho : o < L.sizes) (h : binderAllocBuf L R p E d o u = (p', some a)) :
    Handed p p' a d o u ∧ p.vma = true := by
  simp only [binderAllocBuf] at h
  split_ifs at h with hv hw hq
  · cases h
  · cases h
  · cases h
  · simp only [Bool.or_eq_true, decide_eq_true_eq, not_or, not_lt] at hw
    have hsame := sameHeaders_bugOn p
      ((bestFitPath (binderBufferSize L p) (bufSize L d o) p.freeBuffers).any fun b => !p.isFree b)
      .notFree
    have hb := hi.same L hsame
    split at h
    · cases h
    · rename_i a' exact he
      obtain ⟨rfl, hh⟩ := takeBuffer_handed hb (bestFit_fit L hb hd ho hw.1 hw.2 he) h
      exact ⟨⟨hsame.liveAt ▸ hh.fresh, hh.at_eq, hsame.liveAt ▸ hh.at_ne, hh.vma.trans hsame.vma⟩,
        by simpa using hv⟩

theorem binderAllocBuf_refused {p' : BinderArea}
    (h : binderAllocBuf L R p E d o u = (p', none)) : SameHeaders p p' := by
  simp only [binderAllocBuf] at h
  split_ifs at h
  · cases h; exact .refl p
  · cases h; exact .refl p
  · cases h; exact .refl p
  · have hsame := sameHeaders_bugOn p
      ((bestFitPath (binderBufferSize L p) (bufSize L d o) p.freeBuffers).any fun b => !p.isFree b)
      .notFree
    split at h
    · cases h; exact hsame
    · exact hsame.trans (takeBuffer_refused h)

/-! Freeing -/

theorem liveBuffers_delBuffer (h : ∀ b ∈ l, b.addr = a → b.free = true) :
    liveBuffers (delBuffer a l) = liveBuffers l := by
  rw [liveBuffers, delBuffer, List.filter_filter, liveBuffers]
  refine List.filter_congr fun b hb => ?_
  cases hf : b.free with
  | true => simp
  | false =>
    have : b.addr ≠ a := fun ha => by simp [h b hb ha] at hf
    simp [this]

theorem liveBuffers_setFree :
    liveBuffers (setBuffer a ({ · with free := true }) l) = (liveBuffers l).filter (·.addr ≠ a) := by
  induction l with
  | nil => rfl
  | cons b l ih =>
    rw [setBuffer, List.map_cons, ← setBuffer, liveBuffers_cons, liveBuffers_cons, ih]
    by_cases ha : b.addr = a <;> cases hb : b.free <;> simp [ha, hb]

/-- What the merging of free buffers does not touch. -/
structure SameLive (p p' : BinderArea) : Prop where
  live : liveBuffers p'.buffers = liveBuffers p.buffers
  vma : p'.vma = p.vma

theorem deleteFree_live (h : ∀ b ∈ p.buffers, b.addr = a → b.free = true) :
    SameLive p (binderDeleteFreeBuffer L p a E) := by
  cases hprev : prevBuffer a p.buffers with
  | none => simp only [binderDeleteFreeBuffer, hprev]; exact ⟨rfl, rfl⟩
  | some c =>
    have hs := sameHeaders_deleteFree L (p := p) (a := a) (E := E) (by simp [hprev])
    exact ⟨by rw [hs.buffers]; exact liveBuffers_delBuffer h, hs.vma⟩

theorem nextBuffer_mem {c : BinderBuffer} (h : nextBuffer a l = some c) : c ∈ l := by
  induction l with
  | nil => cases h
  | cons x l ih =>
    cases l with
    | nil => cases h
    | cons y l =>
      rw [nextBuffer] at h
      split_ifs at h
      · cases h
        simp
      · exact List.mem_cons_of_mem _ (ih h)

theorem mergeNext_live (hu : ∀ b ∈ p.buffers, ∀ c ∈ p.buffers, c.addr = b.addr → c = b) :
    SameLive p (mergeNext L R p a E) := by
  unfold mergeNext
  split
  · exact ⟨rfl, rfl⟩
  · rename_i next hn
    split_ifs with hf
    · have := deleteFree_live (L := L) (E := E) (a := next.addr)
        (p := { p with freeBuffers := R.erase next.addr p.freeBuffers }) fun b hb ha => by
          rw [hu next (nextBuffer_mem hn) b hb ha, hf]
      exact ⟨this.live, this.vma⟩
    · exact ⟨rfl, rfl⟩

theorem mergePrev_live (h : ∀ b ∈ p.buffers, b.addr = a → b.free = true) :
    SameLive p (mergePrev L R p a E) := by
  unfold mergePrev
  split
  · exact ⟨rfl, rfl⟩
  · split_ifs
    · have := deleteFree_live (L := L) (E := E) h
      exact ⟨this.live, this.vma⟩
    · exact ⟨rfl, rfl⟩

/-- The freed buffer is the only one that goes. -/
theorem binderFreeBuf_liveBuffers (hi : AreaInv L p) (ha : (liveAt p a).isSome) :
    liveBuffers (binderFreeBuf L R p a E).buffers = (liveBuffers p.buffers).filter (·.addr ≠ a) := by
  obtain ⟨b, hb⟩ := Option.isSome_iff_exists.1 ha
  have hat := hi.bufferAt_of_live hb
  obtain ⟨hi', hbufs⟩ := unbackBuffer_inv L (b := b) (E := E) hi
  set q := markFree R (unbackBuffer L p b E) a with hq
  have hqbufs : q.buffers = setBuffer a ({ · with free := true }) p.buffers := by
    rw [hq, markFree, hbufs]
  have hqa : ∀ c ∈ q.buffers, c.addr = a → c.free = true := fun c hc hca => by
    rw [hqbufs] at hc
    obtain ⟨x, -, rfl⟩ := List.mem_map.1 hc
    split_ifs at hca ⊢ with h
    · rfl
    · exact absurd hca h
  have hqu : ∀ x ∈ q.buffers, ∀ y ∈ q.buffers, y.addr = x.addr → y = x := by
    rw [hqbufs]
    intro x hx y hy hxy
    obtain ⟨x, hx', rfl⟩ := List.mem_map.1 hx
    obtain ⟨y, hy', rfl⟩ := List.mem_map.1 hy
    have : ∀ c : BinderBuffer, (if c.addr = a then { c with free := true } else c).addr = c.addr :=
      fun c => by split_ifs <;> rfl
    rw [this, this] at hxy
    rw [hi.unique hx' hy' hxy]
  have h1 := mergeNext_live (L := L) (R := R) (a := a) (E := E) hqu
  have hfree : ∀ c ∈ (mergeNext L R q a E).buffers, c.addr = a → c.free = true := fun c hc hca => by
    by_contra hcf
    have hl : c ∈ liveBuffers (mergeNext L R q a E).buffers :=
      List.mem_filter.2 ⟨hc, by simpa using hcf⟩
    rw [h1.live] at hl
    exact hcf (hqa c (List.mem_filter.1 hl).1 hca)
  have h2 := mergePrev_live (L := L) (R := R) (E := E) hfree
  have heq : binderFreeBuf L R p a E = mergePrev L R (mergeNext L R q a E) a E := by
    simp only [binderFreeBuf, hat, hq]
  rw [heq, h2.live, h1.live, hqbufs, liveBuffers_setFree]

theorem binderFreeBuf_live (hi : AreaInv L p) (ha : (liveAt p a).isSome) :
    (∀ a', liveAt (binderFreeBuf L R p a E) a' = if a' = a then none else liveAt p a') ∧
      (binderFreeBuf L R p a E).vma = p.vma := by
  refine ⟨fun a' => ?_, binderFreeBuf_vma⟩
  rw [liveAt, binderFreeBuf_liveBuffers hi ha, liveAt, bufferAt, bufferAt, List.find?_filter]
  split_ifs with h
  · rw [List.find?_eq_none]
    simp [h]
  · refine List.find?_congr fun c _ => ?_
    by_cases hc : c.addr = a'
    · simp [hc, h]
    · simp [hc]

end

end Binder
