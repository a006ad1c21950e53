import BinderIpc.Driver.Frames

/-! What the counting of nodes and references leaves alone of the one-way
transactions: the flag of a node that one is under way, and the list of those that
wait for it. -/

namespace Binder

structure SameAsync (o o' : Objects) : Prop where
  next : o.node.next ≤ o'.node.next
  flag : (∀ n, o.node.next ≤ n → (o.node.get n).hasAsyncTransaction = false) → ∀ n,
    (o'.node.get n).hasAsyncTransaction = (o.node.get n).hasAsyncTransaction
  listed : ∀ n w, (.asyncTodo n, w) ∈ o'.todo.entries → (.asyncTodo n, w) ∈ o.todo.entries

/-- The list is not that of the one-way transactions of a node. -/
def ListHead.plain : ListHead → Bool
  | asyncTodo _ => false
  | _ => true

namespace SameAsync

theorem refl (o : Objects) : SameAsync o o := ⟨le_rfl, fun _ _ => rfl, fun _ _ => id⟩

theorem trans {o o' o'' : Objects} (h : SameAsync o o') (h' : SameAsync o' o'') :
    SameAsync o o'' where
  next := h.next.trans h'.next
  flag hb n := by
    have hb' : ∀ n, o'.node.next ≤ n → (o'.node.get n).hasAsyncTransaction = false := fun n hn => by
      rw [h.flag hb]
      exact hb n (h.next.trans hn)
    rw [h'.flag hb', h.flag hb]
  listed n w hw := h.listed n w (h'.listed n w hw)

theorem ite {c : Prop} [Decidable c] {o o₁ o₂ : Objects} (h₁ : SameAsync o o₁)
    (h₂ : SameAsync o o₂) : SameAsync o (if c then o₁ else o₂) := by
  split_ifs <;> assumption

theorem foldl {f : Objects → ℕ → Objects} (hf : ∀ o a, SameAsync o (f o a)) (l : List ℕ)
    (o : Objects) : SameAsync o (l.foldl f o) := by
  induction l generalizing o with
  | nil => exact .refl o
  | cons a l ih => exact (hf o a).trans (ih _)

end SameAsync

section

variable (o : Objects) (n r : ℕ)

theorem async_modNode {f : BinderNode → BinderNode}
    (hf : ∀ x, (f x).hasAsyncTransaction = x.hasAsyncTransaction) : SameAsync o (o.modNode n f) :=
  ⟨le_rfl, fun _ m => o.node.apply_get_modify n m f (·.hasAsyncTransaction) hf, fun _ _ => id⟩

theorem async_modRef (f : BinderRef → BinderRef) : SameAsync o (o.modRef r f) :=
  ⟨le_rfl, fun _ _ => rfl, fun _ _ => id⟩

theorem async_modDeath (d : ℕ) (f : BinderRefDeath → BinderRefDeath) :
    SameAsync o (o.modDeath d f) := ⟨le_rfl, fun _ _ => rfl, fun _ _ => id⟩

theorem async_modOwn (p : ℕ) (f : ProcObjects → ProcObjects) : SameAsync o (o.modOwn p f) :=
  ⟨le_rfl, fun _ _ => rfl, fun _ _ => id⟩

theorem async_bugOn (c : Bool) (b : Oops) : SameAsync o (o.bugOn c b) :=
  ⟨le_rfl, fun _ _ => rfl, fun _ _ => id⟩

theorem async_todo {q : Queues ListHead Work}
    (hq : ∀ n w, (.asyncTodo n, w) ∈ q.entries → (.asyncTodo n, w) ∈ o.todo.entries) :
    SameAsync o { o with todo := q } := ⟨le_rfl, fun _ _ => rfl, hq⟩

variable (l : ListHead) (w : Work)

theorem async_del : SameAsync o { o with todo := o.todo.del w } :=
  async_todo o fun _ _ h => (Queues.mem_del.1 h).1

theorem async_addTail (hl : l.plain = true) : SameAsync o { o with todo := o.todo.addTail l w } := by
  refine async_todo o fun n v h => (Queues.mem_addTail.1 h).resolve_right ?_
  rintro ⟨rfl, -⟩
  cases hl

theorem async_moveTail (hl : l.plain = true) :
    SameAsync o { o with todo := o.todo.moveTail l w } :=
  (async_del o w).trans (async_addTail { o with todo := o.todo.del w } l w hl)

theorem async_moveHead (hl : l.plain = true) :
    SameAsync o { o with todo := o.todo.moveHead l w } := by
  refine async_todo o fun n v h => ?_
  rcases Queues.mem_moveHead.1 h with ⟨h, -⟩ | ⟨rfl, -⟩
  · exact h
  · cases hl

end

/-! The functions -/

section

variable (o : Objects) (n r p : ℕ) (strong internal : Bool) (targetList : Option ListHead)

theorem binderNewNode_sameAsync (ptr cookie : ℕ) (kzalloc : Bool) :
    SameAsync o (binderNewNode o p ptr cookie kzalloc).1 := by
  unfold binderNewNode
  split_ifs
  · exact .refl o
  have halloc : SameAsync o { o with
      node := o.node.alloc { proc := some p, ptr := ptr, cookie := cookie } } :=
    ⟨Nat.le_succ _, fun hb m => by
      rw [Heap.get_alloc]
      split_ifs with hm
      · exact (hb m hm.ge).symm
      · rfl, fun _ _ => id⟩
  dsimp only
  exact halloc.trans (async_modOwn _ p _)

theorem BinderNode.hasAsync_raise (x : BinderNode) :
    (x.raise strong internal).hasAsyncTransaction = x.hasAsyncTransaction := by
  cases strong <;> cases internal <;> rfl

theorem BinderNode.hasAsync_lower (x : BinderNode) :
    (x.lower strong internal).hasAsyncTransaction = x.hasAsyncTransaction := by
  cases strong <;> cases internal <;> rfl

theorem binderIncNode_sameAsync (hl : targetList.all (·.plain) = true) :
    SameAsync o (binderIncNode o n strong internal targetList).1 := by
  have hmod := async_modNode o n (BinderNode.hasAsync_raise strong internal)
  unfold binderIncNode
  dsimp only
  split_ifs
  · exact .refl o
  · split
    · exact hmod.trans (async_moveTail _ _ _ (by simpa using hl))
    · exact hmod
  · split
    · exact hmod.trans (async_addTail _ _ _ (by simpa using hl))
    · exact hmod
  · exact hmod

theorem nodeUnheld_sameAsync : SameAsync o (nodeUnheld o n) := by
  unfold nodeUnheld
  dsimp only
  split
  · split_ifs
    · exact .refl o
    · exact async_addTail o _ _ rfl
  · split_ifs
    · refine SameAsync.trans (async_del o (.node n)) ?_
      refine SameAsync.trans ?_ (async_modNode _ n fun _ => rfl)
      split
      · exact async_modOwn _ _ _
      · exact ⟨le_rfl, fun _ _ => rfl, fun _ _ => id⟩
    · exact .refl o

theorem binderDecNode_sameAsync : SameAsync o (binderDecNode o n strong internal) := by
  have h := async_modNode o n (BinderNode.hasAsync_lower strong internal)
  unfold binderDecNode
  exact .ite h (h.trans (nodeUnheld_sameAsync _ n))

theorem newRef_sameAsync : SameAsync o (newRef o p n) :=
  ⟨le_rfl, fun _ m => o.node.apply_get_modify n m (fun x => { x with refs := o.ref.next :: x.refs })
    (·.hasAsyncTransaction) fun _ => rfl, fun _ _ => id⟩

theorem binderGetRefForNode_sameAsync (kzalloc : Bool) :
    SameAsync o (binderGetRefForNode o p n kzalloc).1 := by
  unfold binderGetRefForNode
  split
  · exact .refl o
  · split_ifs
    · exact newRef_sameAsync o n p
    · exact .refl o

theorem freeDeath_sameAsync (d : ℕ) : SameAsync o (freeDeath o d) :=
  (async_del o _).trans (async_modDeath _ d _)

theorem freeDeath_sameAsync_option (death : Option ℕ) : SameAsync o (match death with
    | some d => freeDeath o d
    | none => o) := by
  split
  · exact freeDeath_sameAsync o _
  · exact .refl o

theorem binderDeleteRef_sameAsync : SameAsync o (binderDeleteRef o r) := by
  unfold binderDeleteRef
  dsimp only
  refine SameAsync.trans ?_ (async_modRef _ r _)
  refine SameAsync.trans ?_ (freeDeath_sameAsync_option _ _)
  refine SameAsync.trans ?_ (binderDecNode_sameAsync _ _ _ _)
  refine SameAsync.trans ?_ (async_modNode _ _ fun _ => rfl)
  have hown := async_modOwn o (o.ref.get r).proc fun w =>
    { w with refsByDesc := w.refsByDesc.erase r, refsByNode := w.refsByNode.erase r }
  exact .ite (hown.trans (binderDecNode_sameAsync _ _ _ _)) hown

theorem binderIncRef_sameAsync (hl : targetList.all (·.plain) = true) :
    SameAsync o (binderIncRef o r strong targetList).1 := by
  have h : SameAsync o (if (o.ref.get r).count strong = 0 then
      binderIncNode o (o.ref.get r).node strong true targetList else (o, true)).1 := by
    split_ifs
    · exact binderIncNode_sameAsync _ _ _ _ _ hl
    · exact .refl o
  unfold binderIncRef
  dsimp only
  split
  · rename_i he
    rw [he] at h
    exact h.trans (async_modRef _ r _)
  · rename_i he
    rwa [he] at h

theorem binderDecRef_sameAsync : SameAsync o (binderDecRef o r strong) := by
  have h1 := async_modRef o r (.lower strong)
  have h2 := h1.trans (.ite (c := strong ∧ ((o.modRef r (.lower strong)).ref.get r).strong = 0)
    (binderDecNode_sameAsync _ (o.ref.get r).node true true) (.refl _))
  unfold binderDecRef
  exact .ite (.refl o) (.ite (h2.trans (binderDeleteRef_sameAsync _ r)) h2)

end

section

variable (L : Layout) (o : Objects) (data : List ℕ) (off : ℕ) (strong : Bool)

theorem senderNode_sameAsync (env : ObjectEnv) (x : Transfer) :
    SameAsync o (senderNode env x o data off).1 := by
  have h := binderNewNode_sameAsync o x.proc (objectQuad data off 2) (objectQuad data off 4)
    env.kzallocNode
  unfold senderNode
  split
  · exact .refl o
  · split
    · rename_i he
      rwa [he] at h
    · rename_i he
      rw [he] at h
      exact h.trans (async_modNode _ _ fun _ => rfl)

theorem translateBinder_sameAsync (env : ObjectEnv) (x : Transfer) :
    SameAsync o (translateBinder env x o data off strong).1 := by
  have hnode := senderNode_sameAsync o data off env x
  unfold translateBinder
  split
  · rename_i he
    rwa [he] at hnode
  · rename_i o₁ n he
    rw [he] at hnode
    split_ifs
    · exact hnode
    · have href := binderGetRefForNode_sameAsync o₁ n x.targetProc env.kzallocRef
      split
      · rename_i he
        rw [he] at href
        exact hnode.trans href
      · rename_i he
        rw [he] at href
        exact (hnode.trans href).trans (binderIncRef_sameAsync _ _ _ _ rfl)

theorem translateHandle_sameAsync (env : ObjectEnv) (x : Transfer) :
    SameAsync o (translateHandle env x o data off strong).1 := by
  unfold translateHandle
  split
  · exact .refl o
  · rename_i r _
    dsimp only
    split_ifs
    · exact binderIncNode_sameAsync _ _ _ _ _ rfl
    · have href := binderGetRefForNode_sameAsync o (o.ref.get r).node x.targetProc env.kzallocRef
      split
      · rename_i he
        rw [he] at href
        exact href
      · rename_i he
        rw [he] at href
        exact href.trans (binderIncRef_sameAsync _ _ _ _ rfl)

theorem translateFd_sameAsync (env : ObjectEnv) (x : Transfer) :
    SameAsync o (translateFd env x o data off).1 := by
  unfold translateFd
  split_ifs
  · exact .refl o
  · split
    · exact .refl o
    · exact async_modOwn o x.targetProc fun w => { w with fds := w.fds ++ [_] }

theorem translateObject_sameAsync (env : ObjectEnv) (x : Transfer) (dataSize : ℕ) :
    SameAsync o (translateObject L env x dataSize o data off).1 := by
  unfold translateObject
  split_ifs
  · exact .refl o
  · split
    · exact translateBinder_sameAsync _ _ _ _ _ _
    · exact translateBinder_sameAsync _ _ _ _ _ _
    · exact translateHandle_sameAsync _ _ _ _ _ _
    · exact translateHandle_sameAsync _ _ _ _ _ _
    · exact translateFd_sameAsync _ _ _ _ _
    · exact .refl o

theorem translateObjects_sameAsync (env : ℕ → ObjectEnv) (x : Transfer) (dataSize : ℕ)
    (offs : List ℕ) (k : ℕ) : SameAsync o (translateObjects L env x dataSize offs k o data).1 := by
  induction offs generalizing k o data with
  | nil => exact .refl o
  | cons off offs ih =>
    have h := translateObject_sameAsync L o data off (env k) x dataSize
    unfold translateObjects
    split
    · rename_i he
      rw [he] at h
      exact h.trans (ih _ _ _)
    · rename_i he
      rw [he] at h
      exact h

theorem translateBuffer_sameAsync (x : Transfer) (env : TransactionEnv) (tr : TransactionData)
    (b : BinderBuffer) : SameAsync o (translateBuffer L o x env tr b).1 := by
  unfold translateBuffer
  split_ifs
  · exact .refl o
  · exact translateObjects_sameAsync L o b.data env.object x tr.dataSize b.offsets 0

theorem releaseBinder_sameAsync (p : ℕ) : SameAsync o (releaseBinder p o data off strong) := by
  unfold releaseBinder
  split
  · exact .refl o
  · exact binderDecNode_sameAsync _ _ _ _

theorem releaseHandle_sameAsync (p : ℕ) : SameAsync o (releaseHandle p o data off strong) := by
  unfold releaseHandle
  split
  · exact .refl o
  · exact binderDecRef_sameAsync _ _ _

theorem releaseObject_sameAsync (p dataSize : ℕ) (failed : Bool) :
    SameAsync o (releaseObject L p dataSize data failed o off) := by
  unfold releaseObject
  refine .ite (.refl o) ?_
  split
  · exact releaseBinder_sameAsync o data off true p
  · exact releaseBinder_sameAsync o data off false p
  · exact releaseHandle_sameAsync o data off true p
  · exact releaseHandle_sameAsync o data off false p
  · exact .ite (.ite (async_modOwn _ _ _) (.refl o)) (.refl o)
  · exact .refl o

theorem releaseObjects_sameAsync (p dataSize : ℕ) (failed : Bool) (offs : List ℕ) :
    SameAsync o (offs.foldl (releaseObject L p dataSize data failed) o) := by
  induction offs generalizing o with
  | nil => exact .refl o
  | cons off offs ih => exact (releaseObject_sameAsync L o data off p dataSize failed).trans (ih _)

theorem bufferRelease_sameAsync (p : ℕ) (b : BinderBuffer) (failedAt : Option ℕ) :
    SameAsync o (binderTransactionBufferRelease L o p b failedAt) := by
  unfold binderTransactionBufferRelease
  dsimp only
  refine SameAsync.trans ?_ (releaseObjects_sameAsync L _ _ _ _ _ _)
  split
  · exact binderDecNode_sameAsync _ _ _ _
  · exact .refl o

theorem countRef_sameAsync (ref : Option ℕ) (c : RefCommand) : SameAsync o (match ref with
    | none => o
    | some r =>
      match c with
      | .increfs => (binderIncRef o r false none).1
      | .acquire => (binderIncRef o r true none).1
      | .release => binderDecRef o r true
      | .decrefs => binderDecRef o r false) := by
  cases ref with
  | none => exact .refl o
  | some r =>
    cases c
    · exact binderIncRef_sameAsync _ _ _ _ rfl
    · exact binderIncRef_sameAsync _ _ _ _ rfl
    · exact binderDecRef_sameAsync _ _ _
    · exact binderDecRef_sameAsync _ _ _

theorem refCommand_sameAsync (p : ℕ) (c : RefCommand) (target : ℕ) (kzalloc : Bool) :
    SameAsync o (refCommand o p c target kzalloc) := by
  unfold refCommand
  dsimp only
  refine SameAsync.trans ?_ (countRef_sameAsync _ _ c)
  split
  · split_ifs
    · exact (binderGetRefForNode_sameAsync _ _ _ _).trans (async_bugOn _ _ _)
    · exact .refl o
  · exact .refl o

theorem BinderNode.hasAsync_clearPending (x : BinderNode) :
    (x.clearPending strong).hasAsyncTransaction = x.hasAsyncTransaction := by
  cases strong <;> rfl

theorem refDone_sameAsync (p : ℕ) (ptr cookie : ℕ) : SameAsync o (refDone o p strong ptr cookie) := by
  unfold refDone
  split
  · exact .refl o
  · exact .ite (.refl o) ((async_modNode _ _ (BinderNode.hasAsync_clearPending strong)).trans
      (binderDecNode_sameAsync _ _ _ _))

theorem notifyDeath_sameAsync (r : ℕ) : SameAsync o (notifyDeath o r) := by
  unfold notifyDeath
  dsimp only
  split
  · exact .refl o
  · split_ifs
    · exact async_bugOn _ _ _
    · exact (async_modDeath o _ _).trans (async_addTail _ _ _ rfl)

/-- The flag is not among what a command to the owner changes. -/
theorem nodeCommand_keeps {x y : BinderNode} {n : ℕ} {cmd : Br} (h : nodeCommand x n = some (cmd, y)) :
    y.proc = x.proc ∧ y.hasAsyncTransaction = x.hasAsyncTransaction := by
  unfold nodeCommand at h
  dsimp only at h
  split_ifs at h <;> (cases h; exact ⟨rfl, rfl⟩)

theorem settleNode_sameAsync (p n : ℕ) : SameAsync o (settleNode o p n) := by
  have h := async_del o (.node n)
  unfold settleNode
  dsimp only
  split_ifs
  · exact (h.trans (async_modOwn _ _ _)).trans (async_modNode _ _ fun _ => rfl)
  · exact h

end

end Binder
