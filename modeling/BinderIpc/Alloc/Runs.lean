import BinderIpc.Alloc.Tiles
import BinderIpc.Lib.Run

/-! Runs of the allocator: from a successful `binder_mmap` through any sequence
of allocations, frees of allocated buffers, writes to the fields that the
allocator does not own, and the close of the user's mapping. -/

namespace Binder

variable (L : Layout) (rb : RbTree ℕ)

inductive AreaOp
  | alloc (dataSize offsetsSize : ℕ) (isAsync : Bool) (env : PageEnv)
  | free (a : ℕ) (env : PageEnv)
  /-- the driver writes to the contents of a buffer and to its links to the rest of the driver -/
  | fill (a : ℕ) (f : BinderBuffer → BinderBuffer)
  /-- `binder_vma_close` -/
  | vmaClose

def AreaOp.apply (p : BinderArea) : AreaOp → BinderArea
  | alloc d o isAsync env => (binderAllocBuf L rb p env d o isAsync).1
  | free a env => binderFreeBuf L rb p a env
  | fill a f => p.modBuffer a f
  | vmaClose => { p with vma := false }

/-- The fields that the allocator works with. -/
structure SameExtent (b c : BinderBuffer) : Prop where
  addr : c.addr = b.addr
  free : c.free = b.free
  asyncTransaction : c.asyncTransaction = b.asyncTransaction
  dataSize : c.dataSize = b.dataSize
  offsetsSize : c.offsetsSize = b.offsetsSize

/-- Sizes are `size_t`, only an allocated buffer is freed, and a write to a
buffer leaves its extent alone. -/
def AreaOp.Ok (p : BinderArea) : AreaOp → Prop
  | alloc d o _ _ => d < L.sizes ∧ o < L.sizes
  | free a _ => a ∈ addrsWhere (!·.free) p.buffers
  | fill _ f => ∀ b, SameExtent b (f b)
  | vmaClose => True

/-- The area that is mapped: page aligned, not empty and not at the end of the address space. -/
structure Mapped (base size : ℕ) : Prop where
  base_dvd : L.page ∣ base
  size_dvd : L.page ∣ size
  pos : 0 < size
  lt : base + size < L.sizes

def areaMachine : Machine BinderArea AreaOp where
  start p := ∃ base size env, Mapped L base size ∧ binderMmap L rb base size env = some p
  step := AreaOp.apply L rb

abbrev AreaReach : BinderArea → Prop := (areaMachine L rb).Reach (AreaOp.Ok L)

/-- The list of headers and the two trees, in the words of the source. -/
structure AreaRepresents (p : BinderArea) : Prop where
  starts : p.addrs.head? = some p.buffer
  increasing : p.addrs.Pairwise (· < ·)
  adjoining : ∀ b ∈ p.buffers, bufData L b.addr + binderBufferSize L p b.addr =
    match nextBuffer b.addr p.buffers with
    | none => p.buffer + p.bufferSize
    | some c => c.addr
  disjoint : ∀ b ∈ p.buffers, ∀ c ∈ p.buffers, b.addr < c.addr →
    bufData L b.addr + binderBufferSize L p b.addr ≤ c.addr
  coalesced : p.buffers.IsChain fun b c => ¬(b.free = true ∧ c.free = true)
  free : p.freeBuffers.inorder.Perm (addrsWhere (·.free) p.buffers)
  freeOrder : p.freeBuffers.inorder.Pairwise
    fun a b => binderBufferSize L p a ≤ binderBufferSize L p b
  allocated : p.allocatedBuffers.inorder.Perm (addrsWhere (!·.free) p.buffers)
  allocatedOrder : p.allocatedBuffers.inorder.Pairwise (· < ·)
  holds : ∀ b ∈ p.buffers, b.free = false →
    L.alignUp b.dataSize + L.alignUp b.offsetsSize ≤ binderBufferSize L p b.addr

variable {L} {p : BinderArea}

theorem SameExtent.ite {c : Prop} [Decidable c] {b b' : BinderBuffer} (h : SameExtent b b') :
    SameExtent b (if c then b' else b) := by
  split_ifs
  · exact h
  · exact ⟨rfl, rfl, rfl, rfl, rfl⟩

/-- What is kept when every header is replaced by one of the same extent. -/
theorem AreaInv.map {g : BinderBuffer → BinderBuffer} (hi : AreaInv L p)
    (hg : ∀ b, SameExtent b (g b)) : AreaInv L { p with buffers := p.buffers.map g } := by
  have haddrs : (p.buffers.map g).map (·.addr) = p.buffers.map (·.addr) := by
    simp [Function.comp_def, (hg _).addr]
  have hroom : BinderArea.room L { p with buffers := p.buffers.map g } = p.room L := by
    funext c
    rw [BinderArea.room, BinderArea.addrs, haddrs]
    rfl
  have hwhere : ∀ q : Bool → Bool,
      addrsWhere (q ·.free) (p.buffers.map g) = addrsWhere (q ·.free) p.buffers := fun q => by
    simp [addrsWhere, List.filter_map, Function.comp_def, (hg _).free, (hg _).addr]
  refine ⟨haddrs ▸ hi.starts, ?_, hi.limit_lt, hi.small, ?_, hi.freeTree.trans
    (.of_eq (hwhere id).symm), hroom ▸ hi.sorted, hi.allocTree.trans (hwhere not).symm, ?_⟩
  · rw [BinderArea.addrs, haddrs]
    exact hi.tiled
  · rw [List.isChain_map]
    refine hi.coalesced.imp fun b c h => ?_
    rwa [(hg b).free, (hg c).free]
  · intro b' hb' hf
    obtain ⟨b, hb, rfl⟩ := List.mem_map.1 hb'
    rw [hroom, (hg b).addr, (hg b).dataSize, (hg b).offsetsSize]
    exact hi.fits b hb ((hg b).free ▸ hf)

variable {rb}

theorem binderMmap_inv {base size : ℕ} {env : PageEnv} (hm : Mapped L base size)
    (h : binderMmap L rb base size env = some p) : AreaInv L p := by
  have hsize : L.page ≤ min size 0x400000 :=
    le_min (Nat.le_of_dvd hm.pos hm.size_dvd) L.page_le
  have hlt := hm.lt
  have hhdr := L.hdr_lt
  simp only [binderMmap] at h
  have hs := sameHeaders_updatePageRange L
    { buffer := base, bufferSize := min size 0x400000 } true base (base + L.page) true env
  split at h
  · cases h
  · rename_i q hq
    rw [hq] at hs
    obtain ⟨hbase, hsz, -, -, hfree, halloc, -⟩ : SameHeaders _ q := hs
    cases h
    have hmerge : Merging L { q with buffers := [{ addr := base, free := true }] } []
        { addr := base, free := true } [] := by
      refine ⟨rfl, rfl, ?_, ?_, ?_, ?_, .nil, .nil, ?_, ?_, ?_, by simp⟩
      · simp [hbase]
      · simp only [Tiled, BinderArea.limit, hbase, hsz, List.map_nil, List.nil_append,
          List.cons_append, List.pairwise_pair]
        omega
      · simp only [BinderArea.limit, hbase, hsz]
        omega
      · simp [hsz]
      · simp [hfree]
      · simp [hfree]
      · simp [halloc]
    exact (hmerge.file rb (by simp) (by simp) rfl).charge L _ _

theorem AreaInv.apply {op : AreaOp} (hi : AreaInv L p) (hok : op.Ok L p) :
    AreaInv L (op.apply L rb p) := by
  cases op with
  | alloc d o isAsync env => exact binderAllocBuf_inv L rb hi hok.1 hok.2
  | free a env => exact binderFreeBuf_inv L rb hi hok
  | fill a f => exact hi.map fun b => (hok b).ite
  | vmaClose => exact hi.charge L _ _

theorem areaReach_inv (h : AreaReach L rb p) : AreaInv L p :=
  h.invariant (fun _ ⟨_, _, _, hm, hs⟩ => binderMmap_inv hm hs) fun _ _ hi hok => hi.apply hok

theorem AreaInv.split_size {pre post : List BinderBuffer} {b : BinderBuffer} (hi : AreaInv L p)
    (hs : p.buffers = pre ++ b :: post) :
    bufData L b.addr + binderBufferSize L p b.addr = startOf p.limit (post.map (·.addr)) := by
  have hmem : b.addr ∈ p.addrs := List.mem_map_of_mem (by simp [hs])
  rw [binderBufferSize_eq L hi.tiled hi.limit_lt hmem]
  exact hi.split_room L hs

theorem AreaInv.represents (hi : AreaInv L p) : AreaRepresents L p := by
  have hsize : ∀ {b}, b ∈ p.buffers → binderBufferSize L p b.addr = p.room L b.addr := fun hb =>
    binderBufferSize_eq L hi.tiled hi.limit_lt (List.mem_map_of_mem hb)
  have hlt := hi.tiled.pairwise_lt L.hdr_pos
  refine ⟨hi.starts, hlt, fun b hb => ?_, fun b hb c hc hbc => ?_, hi.coalesced, hi.freeTree,
    hi.sorted.imp_of_mem fun h1 h2 h => ?_, .of_eq hi.allocTree,
    hi.allocTree ▸ hlt.sublist (addrsWhere_sublist _), fun b hb hf => ?_⟩
  · obtain ⟨pre, post, hs⟩ := List.append_of_mem hb
    rw [hi.split_size hs]
    rw [hs, nextBuffer_split (hi.split_notMem L hs).1]
    cases post <;> rfl
  · obtain ⟨pre, post, hs⟩ := List.append_of_mem hb
    have ht := hi.split_tiled L hs
    rw [hi.split_size hs]
    rw [hs, List.mem_append, List.mem_cons] at hc
    rcases hc with hc | rfl | hc
    · have := ht.le_of_mem_pre (List.mem_map_of_mem (f := (·.addr)) hc)
      omega
    · omega
    · exact (ht.suffix.sublist (List.sublist_cons_self _ _)).startOf_le_of_mem
        (List.mem_map_of_mem hc)
  · obtain ⟨b, hb, -, rfl⟩ := hi.free_mem L h1
    obtain ⟨c, hc, -, rfl⟩ := hi.free_mem L h2
    rwa [hsize hb, hsize hc]
  · rw [hsize hb]
    exact hi.fits b hb hf

theorem areaReach_represents (h : AreaReach L rb p) : AreaRepresents L p :=
  (areaReach_inv h).represents

/-- A 32-bit build. -/
def layout32 : Layout where
  ptr := 4
  hdr := 40
  page := 4096
  ptr_eq := Or.inl rfl
  hdr_dvd := by decide
  hdr_pos := by decide
  hdr_lt := by decide
  page_pow := ⟨12, rfl⟩
  page_le := by decide

/-- The area that `binder_mmap` makes of 8 pages. -/
def area32 : Option BinderArea := binderMmap layout32 .plain 0x10000 0x8000 {}

theorem area32_isSome : area32.isSome = true := by decide

theorem area32_start : ∃ p, area32 = some p ∧ (areaMachine layout32 .plain).start p ∧
    area32.get area32_isSome = p := by
  have hm : Mapped layout32 0x10000 0x8000 := ⟨by decide, by decide, by decide, by decide⟩
  obtain ⟨p, hp⟩ := Option.isSome_iff_exists.1 area32_isSome
  exact ⟨p, hp, ⟨_, _, _, hm, hp⟩, by simp [hp]⟩

theorem areaReach_represents_cut : ∃ p, area32 = some p ∧
    AreaRepresents layout32 ((areaMachine layout32 .plain).exec p
      [.alloc 5000 8 false {}, .alloc 0 0 true {}, .free 0x10000 {}]) := by
  obtain ⟨p, hp, hstart, rfl⟩ := area32_start
  refine ⟨_, hp, areaReach_represents ((Machine.Reach.start hstart).exec ?_)⟩
  refine ⟨⟨by decide, by decide⟩, ⟨by decide, by decide⟩, ?_, trivial⟩
  simp only [AreaOp.Ok]
  decide

end Binder
