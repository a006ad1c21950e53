import BinderIpc.Lib.Tree
import Mathlib.Algebra.Group.Nat.Defs
import Mathlib.Logic.Function.Basic

/-! The buffer allocator of the driver: `binder_update_page_range`,
`binder_alloc_buf`, `binder_free_buf` and the initial state of `binder_mmap`.
Addresses inside the mapped area are natural numbers; sizes that a sender
chooses are `size_t` and wrap. -/

namespace Binder

/-- What the build fixes: `sizeof(void *)`, `sizeof(struct binder_buffer)` and `PAGE_SIZE`. -/
structure Layout where
  ptr : ℕ
  hdr : ℕ
  page : ℕ
  ptr_eq : ptr = 4 ∨ ptr = 8
  hdr_dvd : 8 ∣ hdr
  hdr_pos : 0 < hdr
  hdr_lt : hdr < page
  page_pow : ∃ k, page = 2 ^ k
  page_le : page ≤ 0x400000

namespace Layout

variable (L : Layout)

/-- Number of values of a `size_t`. -/
def sizes : ℕ := 2 ^ (8 * L.ptr)

/-- Sum of two `size_t`. -/
def add (x y : ℕ) : ℕ := (x + y) % L.sizes

/-- Difference of two `size_t`. -/
def sub (x y : ℕ) : ℕ := (x + L.sizes - y) % L.sizes

/-- `ALIGN(x, sizeof(void *))` on a `size_t`. -/
def align (x : ℕ) : ℕ := L.add x (L.ptr - 1) / L.ptr * L.ptr

/-- `x & PAGE_MASK` -/
def pageMask (x : ℕ) : ℕ := x / L.page * L.page

/-- `PAGE_ALIGN(x)` -/
def pageAlign (x : ℕ) : ℕ := L.pageMask (x + (L.page - 1))

end Layout

structure BinderBuffer where
  /-- address of the header -/
  addr : ℕ
  free : Bool := false
  allowUserFree : Bool := false
  asyncTransaction : Bool := false
  transaction : Option ℕ := none
  targetNode : Option ℕ := none
  dataSize : ℕ := 0
  offsetsSize : ℕ := 0
  /-- what the data holds, as the 32-bit words that objects are read in -/
  data : List ℕ := []
  /-- what the offsets area holds -/
  offsets : List ℕ := []
  deriving Repr, DecidableEq

/-- What is done to a page and its two mappings. -/
inductive PageOp
  | allocPage | mapVmArea | vmInsertPage | zapPageRange | unmapKernelRange | freePage
  deriving Repr, DecidableEq

/-- The assertions of the allocator. -/
inductive AreaBug
  | pagePresent | pageAbsent | notFree | notAllocated | duplicate | firstBuffer | sizeExceeds
  | hasTransaction | belowArea | aboveArea
  deriving Repr, DecidableEq

/-- The part of `struct binder_proc` that the allocator works on. -/
structure BinderArea where
  buffer : ℕ := 0
  bufferSize : ℕ := 0
  /-- `proc->vma != NULL` -/
  vma : Bool := false
  buffers : List BinderBuffer := []
  freeBuffers : Tree ℕ := .leaf
  allocatedBuffers : Tree ℕ := .leaf
  freeAsyncSpace : ℕ := 0
  /-- `proc->pages[i] != NULL` -/
  pages : ℕ → Bool := fun _ => false
  /-- what was done to which page, oldest first -/
  pageLog : List (PageOp × ℕ) := []
  /-- the assertions that failed -/
  bugs : List AreaBug := []

/-- What the rest of the kernel answers during one `binder_update_page_range`:
whether `get_task_mm` gives the address space that was mapped, and the call
that fails at the `k`th page. -/
structure PageEnv where
  taskMm : Bool := true
  sameMm : Bool := true
  fail : ℕ → Option PageOp := fun _ => none

/-! Headers in list order -/

def bufferAt (a : ℕ) (l : List BinderBuffer) : Option BinderBuffer := l.find? (·.addr = a)

def nextBuffer (a : ℕ) : List BinderBuffer → Option BinderBuffer
  | b :: c :: l => if b.addr = a then some c else nextBuffer a (c :: l)
  | _ => none

def prevBuffer (a : ℕ) : List BinderBuffer → Option BinderBuffer
  | b :: c :: l => if c.addr = a then some b else prevBuffer a (c :: l)
  | _ => none

def setBuffer (a : ℕ) (f : BinderBuffer → BinderBuffer) (l : List BinderBuffer) : List BinderBuffer :=
  l.map fun b => if b.addr = a then f b else b

/-- `list_add(&new->entry, &buffer->entry)` -/
def addBuffer (a : ℕ) (new : BinderBuffer) : List BinderBuffer → List BinderBuffer
  | [] => []
  | b :: l => if b.addr = a then b :: new :: l else b :: addBuffer a new l

/-- `list_del(&buffer->entry)` -/
def delBuffer (a : ℕ) (l : List BinderBuffer) : List BinderBuffer := l.filter (·.addr ≠ a)

namespace BinderArea

def bugOn (p : BinderArea) (c : Bool) (b : AreaBug) : BinderArea :=
  { p with bugs := p.bugs ++ if c then [b] else [] }

def isFree (p : BinderArea) (a : ℕ) : Bool := (bufferAt a p.buffers).any (·.free)

def modBuffer (p : BinderArea) (a : ℕ) (f : BinderBuffer → BinderBuffer) : BinderArea :=
  { p with buffers := setBuffer a f p.buffers }

end BinderArea

variable (L : Layout)

/-- `buffer->data` -/
def bufData (a : ℕ) : ℕ := a + L.hdr

def binderBufferSize (p : BinderArea) (a : ℕ) : ℕ :=
  match nextBuffer a p.buffers with
  | none => L.sub (p.buffer + p.bufferSize) (bufData L a)
  | some c => L.sub c.addr (bufData L a)

def binderInsertFreeBuffer (rb : RbTree ℕ) (p : BinderArea) (a : ℕ) : BinderArea :=
  let left := fun b => decide (binderBufferSize L p a < binderBufferSize L p b)
  let p' := (p.bugOn (!p.isFree a) .notFree).bugOn
    ((p.freeBuffers.path left).any fun b => !p.isFree b) .notFree
  { p' with freeBuffers := rb.insertColor (p.freeBuffers.link left a) }

def binderInsertAllocatedBuffer (rb : RbTree ℕ) (p : BinderArea) (a : ℕ) : BinderArea :=
  let left := fun b => decide (a < b)
  let p' := ((p.bugOn (p.isFree a) .notAllocated).bugOn
    ((p.allocatedBuffers.path left).any p.isFree) .notAllocated).bugOn
      ((p.allocatedBuffers.path left).any (· = a)) .duplicate
  { p' with allocatedBuffers := rb.insertColor (p.allocatedBuffers.link left a) }

/-! Pages -/

def pageIndex (p : BinderArea) (addr : ℕ) : ℕ := (addr - p.buffer) / L.page

def setPage (p : BinderArea) (addr : ℕ) (v : Bool) (ops : List PageOp) : BinderArea :=
  { p with
    pages := Function.update p.pages (pageIndex L p addr) v
    pageLog := p.pageLog ++ ops.map fun op => (op, pageIndex L p addr) }

/-- `free_range` for the `n` pages from `start`, the last one first. -/
def freePages (vma : Bool) (start : ℕ) : ℕ → BinderArea → BinderArea
  | 0, p => p
  | n + 1, p =>
    let addr := start + n * L.page
    let p' := p.bugOn (!p.pages (pageIndex L p addr)) .pageAbsent
    freePages vma start n <|
      setPage L p' addr false
        ((if vma then [.zapPageRange] else []) ++ [.unmapKernelRange, .freePage])

/-- The allocation loop for the pages `k, …, k + n - 1` from `start`; on a
failure the page is taken back and its index returned. -/
def allocPages (env : PageEnv) (start : ℕ) : ℕ → ℕ → BinderArea → BinderArea × Option ℕ
  | 0, _, p => (p, none)
  | n + 1, k, p =>
    let addr := start + k * L.page
    let p' := p.bugOn (p.pages (pageIndex L p addr)) .pagePresent
    match env.fail k with
    | some .allocPage => (setPage L p' addr false [], some k)
    | some .mapVmArea => (setPage L p' addr false [.allocPage, .freePage], some k)
    | some .vmInsertPage =>
      (setPage L p' addr false [.allocPage, .mapVmArea, .unmapKernelRange, .freePage], some k)
    | _ =>
      allocPages env start n (k + 1) (setPage L p' addr true [.allocPage, .mapVmArea, .vmInsertPage])

/-- Number of iterations of a loop over `[start, stop)` in steps of a page. -/
def pageCount (start stop : ℕ) : ℕ := (stop - start + (L.page - 1)) / L.page

/-- `binder_update_page_range`; `vma` is the argument that only `binder_mmap`
gives. The result tells whether it returned 0. -/
def binderUpdatePageRange (p : BinderArea) (allocate : Bool) (start stop : ℕ) (vma : Bool)
    (env : PageEnv) : BinderArea × Bool :=
  if stop ≤ start then (p, true)
  else
    let vma := vma || (env.taskMm && p.vma && env.sameMm)
    if !allocate then (freePages L vma start (pageCount L start stop) p, false)
    else if !vma then (p, false)
    else
      match allocPages L env start (pageCount L start stop) 0 p with
      | (p', none) => (p', true)
      -- the loop body is re-entered at the failed page and goes on downwards
      | (p', some k) => (freePages L vma start k p', false)

/-! Allocation -/

/-- The descent of `binder_alloc_buf`; the flag is `n != NULL`, an exact fit. -/
def bestFit (sizeOf : ℕ → ℕ) (size : ℕ) : Tree ℕ → Option ℕ → Option ℕ × Bool
  | .leaf, best => (best, false)
  | .node l a r, best =>
    if size < sizeOf a then bestFit sizeOf size l (some a)
    else if sizeOf a < size then bestFit sizeOf size r best
    else (some a, true)

/-- The nodes that the descent visits. -/
def bestFitPath (sizeOf : ℕ → ℕ) (size : ℕ) : Tree ℕ → List ℕ
  | .leaf => []
  | .node l a r =>
    a :: if size < sizeOf a then bestFitPath sizeOf size l
      else if sizeOf a < size then bestFitPath sizeOf size r
      else []

/-- `ALIGN(data_size, sizeof(void *)) + ALIGN(offsets_size, sizeof(void *))` -/
def bufSize (dataSize offsetsSize : ℕ) : ℕ := L.add (L.align dataSize) (L.align offsetsSize)

/-- The best fit changes from one tree to the other. -/
def moveBuffer (rb : RbTree ℕ) (p : BinderArea) (a : ℕ) : BinderArea :=
  let p := { p with freeBuffers := rb.erase a p.freeBuffers }
  binderInsertAllocatedBuffer rb (p.modBuffer a ({ · with free := false })) a

/-- The end of `binder_alloc_buf`, once the pages are there: what is left behind
`size` bytes becomes a free buffer. -/
def commitBuffer (rb : RbTree ℕ) (p : BinderArea) (a size part dataSize offsetsSize : ℕ)
    (isAsync : Bool) : BinderArea :=
  let p := moveBuffer rb p a
  let p :=
    if part ≠ size then
      let new := bufData L a + size
      let p := { p with buffers := addBuffer a { addr := new, free := true } p.buffers }
      binderInsertFreeBuffer L rb p new
    else p
  let p := p.modBuffer a fun b =>
    { b with dataSize := dataSize, offsetsSize := offsetsSize, asyncTransaction := isAsync }
  if isAsync then { p with freeAsyncSpace := L.sub p.freeAsyncSpace (L.add size L.hdr) } else p

/-- The part of `binder_alloc_buf` after the search. -/
def takeBuffer (rb : RbTree ℕ) (p : BinderArea) (env : PageEnv) (a size : ℕ) (exact : Bool)
    (dataSize offsetsSize : ℕ) (isAsync : Bool) : BinderArea × Option ℕ :=
  let whole := binderBufferSize L p a
  let hasPageAddr := L.pageMask (bufData L a + whole)
  let part :=
    if exact then whole
    else if whole ≤ L.add (L.add size L.hdr) 4 then size  -- no room for other buffers
    else L.add size L.hdr
  let endPageAddr := min (L.pageAlign (bufData L a + part)) hasPageAddr
  match binderUpdatePageRange L p true (L.pageAlign (bufData L a)) endPageAddr false env with
  | (p, false) => (p, none)
  | (p, true) => (commitBuffer L rb p a size part dataSize offsetsSize isAsync, some a)

def binderAllocBuf (rb : RbTree ℕ) (p : BinderArea) (env : PageEnv) (dataSize offsetsSize : ℕ)
    (isAsync : Bool) : BinderArea × Option ℕ :=
  if !p.vma then (p, none)
  else
    let size := bufSize L dataSize offsetsSize
    if size < dataSize || size < offsetsSize then (p, none)
    else if isAsync && decide (p.freeAsyncSpace < L.add size L.hdr) then (p, none)
    else
      let sizeOf := binderBufferSize L p
      let p := p.bugOn ((bestFitPath sizeOf size p.freeBuffers).any fun b => !p.isFree b) .notFree
      match bestFit sizeOf size p.freeBuffers none with
      | (none, _) => (p, none)
      | (some a, exact) => takeBuffer L rb p env a size exact dataSize offsetsSize isAsync

/-- `binder_buffer_lookup`, by the address of the header that the user's pointer stands for. -/
def binderBufferLookup (a : ℕ) : Tree ℕ → Option ℕ
  | .leaf => none
  | .node l b r =>
    if a < b then binderBufferLookup a l else if b < a then binderBufferLookup a r else some b

/-! Freeing -/

def bufferStartPage (a : ℕ) : ℕ := L.pageMask a

def bufferEndPage (a : ℕ) : ℕ := L.pageMask (a + L.hdr - 1)

/-- `free_page_start` and `free_page_end` for the header at `a` between the
headers at `prev` and `next`: which of its two pages hold no other header. -/
def freePageFlags (prev a : ℕ) (next : Option ℕ) : Bool × Bool :=
  let sharesPrev := bufferEndPage L prev == bufferStartPage L a
  let freePageStart := !sharesPrev
  let freePageEnd := !(sharesPrev && bufferEndPage L prev == bufferEndPage L a)
  match next with
  | none => (freePageStart, freePageEnd)
  | some next =>
    let sharesNext := bufferStartPage L next == bufferEndPage L a
    (freePageStart && !(sharesNext && bufferStartPage L next == bufferStartPage L a),
      freePageEnd && !sharesNext)

/-- `binder_delete_free_buffer`: merges the header at `a` into the free buffer before it. -/
def binderDeleteFreeBuffer (p : BinderArea) (a : ℕ) (env : PageEnv) : BinderArea :=
  match prevBuffer a p.buffers with
  | none => p.bugOn true .firstBuffer
  | some prev =>
    let p := p.bugOn (!prev.free) .notFree
    let (freePageStart, freePageEnd) :=
      freePageFlags L prev.addr a ((nextBuffer a p.buffers).map (·.addr))
    let p := { p with buffers := delBuffer a p.buffers }
    if freePageStart || freePageEnd then
      (binderUpdatePageRange L p false
        (if freePageStart then bufferStartPage L a else bufferEndPage L a)
        ((if freePageEnd then bufferEndPage L a else bufferStartPage L a) + L.page) false env).1
    else p

/-- The assertions of `binder_free_buf`. -/
def freeAsserts (p : BinderArea) (b : BinderBuffer) : BinderArea :=
  ((((p.bugOn b.free .notAllocated).bugOn
    (binderBufferSize L p b.addr < bufSize L b.dataSize b.offsetsSize) .sizeExceeds).bugOn
      b.transaction.isSome .hasTransaction).bugOn (b.addr < p.buffer) .belowArea).bugOn
        (p.buffer + p.bufferSize < b.addr) .aboveArea

/-- `binder_free_buf` down to the page range: the assertions, the space of an
asynchronous transaction, the pages of the data. -/
def unbackBuffer (p : BinderArea) (b : BinderBuffer) (env : PageEnv) : BinderArea :=
  let bufferSize := binderBufferSize L p b.addr
  let p := freeAsserts L p b
  let p :=
    if b.asyncTransaction then
      { p with
        freeAsyncSpace :=
          L.add p.freeAsyncSpace (L.add (bufSize L b.dataSize b.offsetsSize) L.hdr) }
    else p
  (binderUpdatePageRange L p false (L.pageAlign (bufData L b.addr))
    (L.pageMask (bufData L b.addr + bufferSize)) false env).1

/-- `rb_erase` from the allocated buffers and `buffer->free = 1` -/
def markFree (rb : RbTree ℕ) (p : BinderArea) (a : ℕ) : BinderArea :=
  { p with
    allocatedBuffers := rb.erase a p.allocatedBuffers
    buffers := setBuffer a ({ · with free := true }) p.buffers }

/-- `binder_free_buf`: a free buffer behind `a` is merged into `a`. -/
def mergeNext (rb : RbTree ℕ) (p : BinderArea) (a : ℕ) (env : PageEnv) : BinderArea :=
  match nextBuffer a p.buffers with
  | none => p
  | some next =>
    if next.free then
      binderDeleteFreeBuffer L { p with freeBuffers := rb.erase next.addr p.freeBuffers } next.addr env
    else p

/-- `binder_free_buf`: `a` is merged into a free buffer before it, and what is
left is filed under its size. -/
def mergePrev (rb : RbTree ℕ) (p : BinderArea) (a : ℕ) (env : PageEnv) : BinderArea :=
  match prevBuffer a p.buffers with
  | none => binderInsertFreeBuffer L rb p a
  | some prev =>
    if prev.free then
      let p := binderDeleteFreeBuffer L p a env
      binderInsertFreeBuffer L rb { p with freeBuffers := rb.erase prev.addr p.freeBuffers } prev.addr
    else binderInsertFreeBuffer L rb p a

def binderFreeBuf (rb : RbTree ℕ) (p : BinderArea) (a : ℕ) (env : PageEnv) : BinderArea :=
  match bufferAt a p.buffers with
  | none => p
  | some b =>
    let p := markFree rb (unbackBuffer L p b env) a
    mergePrev L rb (mergeNext L rb p a env) a env

/-- The end of `binder_mmap` for an area at `base` of `size` bytes: the first
page, one free buffer, half of the area for asynchronous transactions. -/
def binderMmap (rb : RbTree ℕ) (base size : ℕ) (env : PageEnv) : Option BinderArea :=
  let size := min size 0x400000
  let p : BinderArea := { buffer := base, bufferSize := size }
  match binderUpdatePageRange L p true base (base + L.page) true env with
  | (_, false) => none
  | (p, true) =>
    let p := { p with buffers := [{ addr := base, free := true }] }
    let p := binderInsertFreeBuffer L rb p base
    some { p with freeAsyncSpace := size / 2, vma := true }

end Binder
