import BinderIpc.Alloc.Area
import BinderIpc.Lib.Tiling
import Mathlib.Data.List.Chain

/-! The list of headers around one buffer: what the operations on
`proc->buffers` do to `pre ++ b :: post`, and the frame of the page code, which
leaves the list and both trees alone. -/

namespace Binder

def addrsWhere (q : BinderBuffer → Bool) (l : List BinderBuffer) : List ℕ := (l.filter q).map (·.addr)

namespace BinderArea

def addrs (p : BinderArea) : List ℕ := p.buffers.map (·.addr)

def limit (p : BinderArea) : ℕ := p.buffer + p.bufferSize

end BinderArea

section

variable {pre post : List BinderBuffer} {b new : BinderBuffer} {a : ℕ} {q : BinderBuffer → Bool}

@[simp] theorem addrsWhere_nil : addrsWhere q [] = [] := rfl

@[simp] theorem addrsWhere_append (l l' : List BinderBuffer) :
    addrsWhere q (l ++ l') = addrsWhere q l ++ addrsWhere q l' := by simp [addrsWhere]

theorem addrsWhere_cons (l : List BinderBuffer) :
    addrsWhere q (b :: l) = if q b then b.addr :: addrsWhere q l else addrsWhere q l := by
  simp only [addrsWhere, List.filter_cons]
  split_ifs <;> rfl

theorem mem_addrsWhere {l : List BinderBuffer} :
    a ∈ addrsWhere q l ↔ ∃ b ∈ l, q b = true ∧ b.addr = a := by
  simp [addrsWhere, and_assoc]

theorem addrsWhere_sublist (l : List BinderBuffer) : (addrsWhere q l).Sublist (l.map (·.addr)) :=
  List.filter_sublist.map _

theorem exists_split {l : List BinderBuffer} (ha : a ∈ l.map (·.addr)) :
    ∃ pre b post, l = pre ++ b :: post ∧ b.addr = a := by
  obtain ⟨b, hb, rfl⟩ := List.mem_map.1 ha
  obtain ⟨pre, post, rfl⟩ := List.append_of_mem hb
  exact ⟨pre, b, post, rfl, rfl⟩

theorem bufferAt_split (h : b.addr ∉ pre.map (·.addr)) :
    bufferAt b.addr (pre ++ b :: post) = some b := by
  have hn : pre.find? (·.addr = b.addr) = none := by
    rw [List.find?_eq_none]
    exact fun c hc he => h (List.mem_map.2 ⟨c, hc, by simpa using he⟩)
  simp [bufferAt, List.find?_append, hn]

theorem bufferAt_some {l : List BinderBuffer} (h : bufferAt a l = some b) : b ∈ l ∧ b.addr = a :=
  ⟨List.mem_of_find?_eq_some h, by simpa using List.find?_some h⟩

theorem nextBuffer_split (h : b.addr ∉ pre.map (·.addr)) :
    nextBuffer b.addr (pre ++ b :: post) = post.head? := by
  induction pre with
  | nil => cases post <;> simp [nextBuffer]
  | cons x pre ih =>
    simp only [List.map_cons, List.mem_cons, not_or] at h
    cases pre with
    | nil => simpa [nextBuffer, Ne.symm h.1] using ih (by simp)
    | cons y pre => simpa [nextBuffer, Ne.symm h.1] using ih h.2

/-- Only a header that stands after another one has a predecessor. -/
theorem prevBuffer_of_notMem {x : BinderBuffer} {l : List BinderBuffer}
    (h : a ∉ l.map (·.addr)) : prevBuffer a (x :: l) = none := by
  induction l generalizing x with
  | nil => rfl
  | cons y l ih =>
    simp only [List.map_cons, List.mem_cons, not_or] at h
    simpa [prevBuffer, Ne.symm h.1] using ih h.2

theorem prevBuffer_split (h1 : b.addr ∉ pre.map (·.addr)) (h2 : b.addr ∉ post.map (·.addr)) :
    prevBuffer b.addr (pre ++ b :: post) = pre.getLast? := by
  induction pre with
  | nil => exact prevBuffer_of_notMem h2
  | cons x pre ih =>
    simp only [List.map_cons, List.mem_cons, not_or] at h1
    cases pre with
    | nil => simp [prevBuffer]
    | cons y pre =>
      simp only [List.map_cons, List.mem_cons, not_or] at h1
      simpa [prevBuffer, Ne.symm h1.2.1] using ih (by simpa using h1.2)

theorem setBuffer_of_notMem {f : BinderBuffer → BinderBuffer} {l : List BinderBuffer}
    (h : a ∉ l.map (·.addr)) : setBuffer a f l = l := by
  rw [setBuffer, List.map_congr_left (g := id), List.map_id]
  intro c hc
  exact if_neg fun he => h (List.mem_map.2 ⟨c, hc, he⟩)

theorem setBuffer_split {f : BinderBuffer → BinderBuffer} (h1 : b.addr ∉ pre.map (·.addr))
    (h2 : b.addr ∉ post.map (·.addr)) :
    setBuffer b.addr f (pre ++ b :: post) = pre ++ f b :: post := by
  have e1 := setBuffer_of_notMem (f := f) h1
  have e2 := setBuffer_of_notMem (f := f) h2
  simp only [setBuffer] at e1 e2
  simp [setBuffer, e1, e2]

theorem addBuffer_split {n : BinderBuffer} {l : List BinderBuffer} (h : b.addr ∉ pre.map (·.addr)) :
    addBuffer b.addr n (pre ++ b :: l) = pre ++ b :: n :: l := by
  induction pre with
  | nil => simp [addBuffer]
  | cons x pre ih =>
    simp only [List.map_cons, List.mem_cons, not_or] at h
    simp [addBuffer, Ne.symm h.1, ih h.2]

theorem delBuffer_split (h1 : b.addr ∉ pre.map (·.addr)) (h2 : b.addr ∉ post.map (·.addr)) :
    delBuffer b.addr (pre ++ b :: post) = pre ++ post := by
  have e : ∀ {l : List BinderBuffer}, b.addr ∉ l.map (·.addr) → l.filter (·.addr ≠ b.addr) = l :=
    fun {l} hl => List.filter_eq_self.2 fun c hc => by
      simpa using fun he => hl (List.mem_map.2 ⟨c, hc, he⟩)
  simp only [delBuffer, List.filter_append, List.filter_cons, e h1, e h2]
  simp

end

/-- Nothing but the pages, their log and the failed assertions differs. -/
structure SameHeaders (p p' : BinderArea) : Prop where
  buffer : p'.buffer = p.buffer
  bufferSize : p'.bufferSize = p.bufferSize
  vma : p'.vma = p.vma
  buffers : p'.buffers = p.buffers
  freeBuffers : p'.freeBuffers = p.freeBuffers
  allocatedBuffers : p'.allocatedBuffers = p.allocatedBuffers
  freeAsyncSpace : p'.freeAsyncSpace = p.freeAsyncSpace

namespace SameHeaders

theorem refl (p : BinderArea) : SameHeaders p p := ⟨rfl, rfl, rfl, rfl, rfl, rfl, rfl⟩

theorem trans {p q r : BinderArea} (h : SameHeaders p q) (h' : SameHeaders q r) : SameHeaders p r :=
  ⟨h'.1.trans h.1, h'.2.trans h.2, h'.3.trans h.3, h'.4.trans h.4, h'.5.trans h.5, h'.6.trans h.6,
    h'.7.trans h.7⟩

theorem limit {p p' : BinderArea} (h : SameHeaders p p') : p'.limit = p.limit := by
  rw [BinderArea.limit, BinderArea.limit, h.buffer, h.bufferSize]

theorem addrs {p p' : BinderArea} (h : SameHeaders p p') : p'.addrs = p.addrs := by
  rw [BinderArea.addrs, BinderArea.addrs, h.buffers]

theorem isFree {p p' : BinderArea} (h : SameHeaders p p') : p'.isFree = p.isFree := by
  funext a
  rw [BinderArea.isFree, BinderArea.isFree, h.buffers]

end SameHeaders

section

variable (L : Layout) (p : BinderArea)

theorem sameHeaders_bugOn (c : Bool) (b : AreaBug) : SameHeaders p (p.bugOn c b) :=
  ⟨rfl, rfl, rfl, rfl, rfl, rfl, rfl⟩

theorem sameHeaders_freeAsserts (b : BinderBuffer) : SameHeaders p (freeAsserts L p b) :=
  ((((sameHeaders_bugOn p _ _).trans (sameHeaders_bugOn _ _ _)).trans
    (sameHeaders_bugOn _ _ _)).trans (sameHeaders_bugOn _ _ _)).trans (sameHeaders_bugOn _ _ _)

theorem sameHeaders_setPage (addr : ℕ) (v : Bool) (ops : List PageOp) :
    SameHeaders p (setPage L p addr v ops) := ⟨rfl, rfl, rfl, rfl, rfl, rfl, rfl⟩

theorem sameHeaders_freePages (vma : Bool) (start n : ℕ) :
    SameHeaders p (freePages L vma start n p) := by
  induction n generalizing p with
  | zero => exact .refl p
  | succ n ih =>
    exact ((sameHeaders_bugOn p _ _).trans (sameHeaders_setPage L _ _ _ _)).trans (ih _)

theorem sameHeaders_allocPages (env : PageEnv) (start n k : ℕ) :
    SameHeaders p (allocPages L env start n k p).1 := by
  induction n generalizing k p with
  | zero => exact .refl p
  | succ n ih =>
    have h := fun v ops => (sameHeaders_bugOn p (p.pages (pageIndex L p (start + k * L.page)))
      .pagePresent).trans (sameHeaders_setPage L _ (start + k * L.page) v ops)
    unfold allocPages
    split
    · exact h _ _
    · exact h _ _
    · exact h _ _
    · exact (h _ _).trans (ih _ _)

theorem sameHeaders_updatePageRange (allocate : Bool) (start stop : ℕ) (vma : Bool) (env : PageEnv) :
    SameHeaders p (binderUpdatePageRange L p allocate start stop vma env).1 := by
  unfold binderUpdatePageRange
  dsimp only
  split_ifs
  · exact .refl p
  · exact sameHeaders_freePages L p _ _ _
  · exact .refl p
  · have h := sameHeaders_allocPages L p env start (pageCount L start stop) 0
    split
    · rename_i he
      rwa [he] at h
    · rename_i he
      rw [he] at h
      exact h.trans (sameHeaders_freePages L _ _ _ _)

/-! The mapping of the user -/

variable {L p} {R : RbTree ℕ} {a : ℕ} {E : PageEnv} {b : BinderBuffer} {q : BinderArea}

theorem binderDeleteFreeBuffer_vma : (binderDeleteFreeBuffer L p a E).vma = p.vma := by
  unfold binderDeleteFreeBuffer
  split
  · rfl
  · dsimp only
    split
    · exact (sameHeaders_updatePageRange ..).vma
    · rfl

theorem mergeNext_vma : (mergeNext L R p a E).vma = p.vma := by
  unfold mergeNext
  split
  · rfl
  · split
    · exact binderDeleteFreeBuffer_vma
    · rfl

theorem mergePrev_vma : (mergePrev L R p a E).vma = p.vma := by
  unfold mergePrev
  split
  · rfl
  · split
    · exact binderDeleteFreeBuffer_vma
    · rfl

theorem unbackBuffer_vma (b : BinderBuffer) : (unbackBuffer L p b E).vma = p.vma := by
  simp only [unbackBuffer]
  rw [(sameHeaders_updatePageRange L _ _ _ _ _ _).vma]
  split_ifs <;> exact (sameHeaders_freeAsserts L p b).vma

theorem binderFreeBuf_vma : (binderFreeBuf L R p a E).vma = p.vma := by
  unfold binderFreeBuf
  split
  · rfl
  · exact mergePrev_vma.trans (mergeNext_vma.trans (unbackBuffer_vma _))

theorem binderAllocBuf_vma {d o : ℕ} {u : Bool}
    (h : (binderAllocBuf L R p E d o u).1.vma = true) : p.vma = true := by
  by_contra hv
  rw [binderAllocBuf, if_pos (by simpa using hv)] at h
  exact hv h

/-- Nothing is handed out of an area that is not mapped. -/
theorem vma_of_alloc {d o : ℕ} {u : Bool} (h : (binderAllocBuf L R p E d o u).2 = some a) :
    p.vma = true := by
  by_contra hv
  rw [binderAllocBuf, if_pos (by simpa using hv)] at h
  cases h

theorem binderFreeBuf_bare (h : p.buffers = []) : (binderFreeBuf L R p a E).buffers = [] := by
  rw [binderFreeBuf, h]
  exact h

theorem binderAllocBuf_bare {d o : ℕ} {u : Bool} (h : p.buffers = [] ∧ p.vma = false) :
    (binderAllocBuf L R p E d o u).1.buffers = [] := by
  rw [binderAllocBuf, if_pos (by simp [h.2])]
  exact h.1

/-! The size of the area -/

/-- What the merging of free buffers keeps of the space. -/
def SameSpace (p q : BinderArea) : Prop :=
  q.freeAsyncSpace = p.freeAsyncSpace ∧ q.bufferSize = p.bufferSize

theorem SameHeaders.space (h : SameHeaders p q) : SameSpace p q := ⟨h.freeAsyncSpace, h.bufferSize⟩

theorem binderDeleteFreeBuffer_space : SameSpace p (binderDeleteFreeBuffer L p a E) := by
  unfold binderDeleteFreeBuffer
  split
  · exact ⟨rfl, rfl⟩
  · dsimp only
    split
    · exact (sameHeaders_updatePageRange ..).space
    · exact ⟨rfl, rfl⟩

theorem mergeNext_space : SameSpace p (mergeNext L R p a E) := by
  unfold mergeNext
  split
  · exact ⟨rfl, rfl⟩
  · split
    · exact binderDeleteFreeBuffer_space
    · exact ⟨rfl, rfl⟩

theorem mergePrev_space : SameSpace p (mergePrev L R p a E) := by
  unfold mergePrev
  split
  · exact ⟨rfl, rfl⟩
  · split
    · exact binderDeleteFreeBuffer_space
    · exact ⟨rfl, rfl⟩

theorem binderFreeBuf_space (h : bufferAt a p.buffers = some b) :
    (binderFreeBuf L R p a E).freeAsyncSpace =
        (if b.asyncTransaction then
          L.add p.freeAsyncSpace (L.add (bufSize L b.dataSize b.offsetsSize) L.hdr)
        else p.freeAsyncSpace) ∧
      (binderFreeBuf L R p a E).bufferSize = p.bufferSize := by
  have hasserts := sameHeaders_freeAsserts L p b
  have hunback : (unbackBuffer L p b E).freeAsyncSpace =
        (if b.asyncTransaction then
          L.add p.freeAsyncSpace (L.add (bufSize L b.dataSize b.offsetsSize) L.hdr)
        else p.freeAsyncSpace) ∧ (unbackBuffer L p b E).bufferSize = p.bufferSize := by
    simp only [unbackBuffer]
    rw [(sameHeaders_updatePageRange ..).freeAsyncSpace,
      (sameHeaders_updatePageRange ..).bufferSize]
    split_ifs
    · exact ⟨by rw [hasserts.freeAsyncSpace], hasserts.bufferSize⟩
    · exact ⟨hasserts.freeAsyncSpace, hasserts.bufferSize⟩
  simp only [binderFreeBuf, h]
  have h1 := mergePrev_space (L := L) (R := R) (E := E) (a := a)
    (p := mergeNext L R (markFree R (unbackBuffer L p b E) a) a E)
  have h2 := mergeNext_space (L := L) (R := R) (E := E) (a := a)
    (p := markFree R (unbackBuffer L p b E) a)
  exact ⟨h1.1.trans (h2.1.trans hunback.1), h1.2.trans (h2.2.trans hunback.2)⟩

end

end Binder
