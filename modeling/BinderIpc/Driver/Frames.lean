import BinderIpc.Driver.Machine

/-! What the counting of nodes and references leaves alone: the transactions that
are queued, and which process owns which node. -/

namespace Binder

/-- Whether the item carries a transaction or tells of one. -/
def Work.isMessage : Work → Bool
  | transaction _ | transactionComplete _ => true
  | _ => false

/-- The queued messages, list by list. -/
def Objects.messages (o : Objects) : List (ListHead × Work) :=
  o.todo.entries.filter (·.2.isMessage)

/-- The assertions about the stacks of transactions. -/
def Oops.isBad : Oops → Bool
  | popNotTop | popNotSender | freeThreadStack => true
  | _ => false

structure Quiet (o o' : Objects) : Prop where
  messages : o'.messages = o.messages
  next : o.node.next ≤ o'.node.next
  proc : ∀ n, n < o.node.next → (o'.node.get n).proc = (o.node.get n).proc
  unborn : ∀ n, o'.node.next ≤ n → (o'.node.get n).proc = (o.node.get n).proc
  contextMgr : o'.contextMgrNode = o.contextMgrNode
  oops : ∀ b ∈ o'.oops, b ∈ o.oops ∨ b.isBad = false

namespace Quiet

theorem refl (o : Objects) : Quiet o o :=
  ⟨rfl, le_rfl, fun _ _ => rfl, fun _ _ => rfl, rfl, fun _ => Or.inl⟩

theorem trans {o o' o'' : Objects} (h : Quiet o o') (h' : Quiet o' o'') : Quiet o o'' :=
  ⟨h'.messages.trans h.messages, h.next.trans h'.next,
    fun n hn => (h'.proc n (hn.trans_le h.next)).trans (h.proc n hn),
    fun n hn => (h'.unborn n hn).trans (h.unborn n (h'.next.trans hn)),
    h'.contextMgr.trans h.contextMgr,
    fun b hb => (h'.oops b hb).elim (h.oops b) Or.inr⟩

theorem mem_message {o o' : Objects} (h : Quiet o o') {l : ListHead} {w : Work}
    (hw : w.isMessage = true) : (l, w) ∈ o'.todo.entries ↔ (l, w) ∈ o.todo.entries := by
  have := h.messages
  simp only [Objects.messages] at this
  have hm : ∀ q : List (ListHead × Work), (l, w) ∈ q ↔ (l, w) ∈ q.filter (·.2.isMessage) := by
    simp [hw]
  rw [hm, this, ← hm]

end Quiet

section

variable (o : Objects) (n r : ℕ)

theorem quiet_modNode {f : BinderNode → BinderNode} (hf : ∀ x, (f x).proc = x.proc) :
    Quiet o (o.modNode n f) :=
  ⟨rfl, le_rfl, fun m _ => o.node.apply_get_modify n m f (·.proc) hf,
    fun m _ => o.node.apply_get_modify n m f (·.proc) hf, rfl, fun _ => Or.inl⟩

theorem quiet_modRef (f : BinderRef → BinderRef) : Quiet o (o.modRef r f) :=
  ⟨rfl, le_rfl, fun _ _ => rfl, fun _ _ => rfl, rfl, fun _ => Or.inl⟩

theorem quiet_modDeath (d : ℕ) (f : BinderRefDeath → BinderRefDeath) : Quiet o (o.modDeath d f) :=
  ⟨rfl, le_rfl, fun _ _ => rfl, fun _ _ => rfl, rfl, fun _ => Or.inl⟩

theorem quiet_modOwn (p : ℕ) (f : ProcObjects → ProcObjects) : Quiet o (o.modOwn p f) :=
  ⟨rfl, le_rfl, fun _ _ => rfl, fun _ _ => rfl, rfl, fun _ => Or.inl⟩

theorem quiet_bugOn (c : Bool) {b : Oops} (hb : b.isBad = false) : Quiet o (o.bugOn c b) := by
  refine ⟨rfl, le_rfl, fun _ _ => rfl, fun _ _ => rfl, rfl, fun b' hb' => ?_⟩
  rcases List.mem_append.1 hb' with hb' | hb'
  · exact Or.inl hb'
  · cases c with
    | false => cases hb'
    | true => exact Or.inr (List.mem_singleton.1 hb' ▸ hb)

/-- A change of the lists that leaves the messages where they are. -/
theorem quiet_todo {q : Queues ListHead Work}
    (hq : q.entries.filter (·.2.isMessage) = o.messages) : Quiet o { o with todo := q } :=
  ⟨hq, le_rfl, fun _ _ => rfl, fun _ _ => rfl, rfl, fun _ => Or.inl⟩

variable {w : Work} (l : ListHead)

theorem messages_addTail (hw : w.isMessage = false) :
    (o.todo.addTail l w).entries.filter (·.2.isMessage) = o.messages := by
  simp [Queues.addTail, Objects.messages, hw]

theorem messages_addHead (hw : w.isMessage = false) :
    (o.todo.addHead l w).entries.filter (·.2.isMessage) = o.messages := by
  simp [Queues.addHead, Objects.messages, hw]

theorem messages_del (hw : w.isMessage = false) :
    (o.todo.del w).entries.filter (·.2.isMessage) = o.messages := by
  simp only [Queues.del, Objects.messages, List.filter_filter]
  refine List.filter_congr fun e _ => ?_
  have : e.2.isMessage = true → e.2 ≠ w := fun h he => by simp [he, hw] at h
  by_cases h : e.2.isMessage = true <;> simp_all

theorem messages_moveTail (hw : w.isMessage = false) :
    (o.todo.moveTail l w).entries.filter (·.2.isMessage) = o.messages :=
  (messages_addTail { o with todo := o.todo.del w } l hw).trans (messages_del o hw)

theorem messages_moveHead (hw : w.isMessage = false) :
    (o.todo.moveHead l w).entries.filter (·.2.isMessage) = o.messages :=
  (messages_addHead { o with todo := o.todo.del w } l hw).trans (messages_del o hw)

end

/-! The functions -/

section

variable (o : Objects) (n r p : ℕ) (strong internal : Bool) (targetList : Option ListHead)

theorem binderNewNode_quiet (ptr cookie : ℕ) (kzalloc : Bool) :
    Quiet o (binderNewNode o p ptr cookie kzalloc).1 := by
  unfold binderNewNode
  split_ifs
  · exact .refl o
  have halloc : Quiet o { o with
      node := o.node.alloc { proc := some p, ptr := ptr, cookie := cookie } } :=
    ⟨rfl, Nat.le_succ _, fun m hm => congrArg BinderNode.proc (o.node.get_alloc_ne m _ hm.ne),
      fun m hm => congrArg BinderNode.proc (o.node.get_alloc_ne m _ (Nat.lt_of_succ_le hm).ne'),
      rfl, fun _ => Or.inl⟩
  dsimp only
  exact halloc.trans (quiet_modOwn _ p _)

theorem BinderNode.proc_raise (x : BinderNode) : (x.raise strong internal).proc = x.proc := by
  cases strong <;> cases internal <;> rfl

theorem BinderNode.proc_lower (x : BinderNode) : (x.lower strong internal).proc = x.proc := by
  cases strong <;> cases internal <;> rfl

theorem binderIncNode_quiet : Quiet o (binderIncNode o n strong internal targetList).1 := by
  have hmod := quiet_modNode o n (BinderNode.proc_raise strong internal)
  unfold binderIncNode
  dsimp only
  split_ifs
  · exact .refl o
  · split
    · exact hmod.trans (quiet_todo _ (messages_moveTail _ _ rfl))
    · exact hmod
  · split
    · exact hmod.trans (quiet_todo _ (messages_addTail _ _ rfl))
    · exact hmod
  · exact hmod

theorem nodeUnheld_quiet : Quiet o (nodeUnheld o n) := by
  unfold nodeUnheld
  dsimp only
  split
  · split_ifs
    · exact .refl o
    · exact quiet_todo o (messages_addTail o _ rfl)
  · split_ifs
    · refine Quiet.trans (quiet_todo o (messages_del o (w := .node n) rfl)) ?_
      refine Quiet.trans ?_ (quiet_modNode _ n fun _ => rfl)
      split
      · exact quiet_modOwn _ _ _
      · exact ⟨rfl, le_rfl, fun _ _ => rfl, fun _ _ => rfl, rfl, fun _ => Or.inl⟩
    · exact .refl o

theorem Quiet.ite {c : Prop} [Decidable c] {o o₁ o₂ : Objects} (h₁ : Quiet o o₁) (h₂ : Quiet o o₂) :
    Quiet o (if c then o₁ else o₂) := by
  split_ifs <;> assumption

theorem binderDecNode_quiet : Quiet o (binderDecNode o n strong internal) := by
  have h := quiet_modNode o n (BinderNode.proc_lower strong internal)
  unfold binderDecNode
  exact .ite h (h.trans (nodeUnheld_quiet _ n))

theorem newRef_quiet : Quiet o (newRef o p n) := by
  have hproc : ∀ m, ((newRef o p n).node.get m).proc = (o.node.get m).proc := fun m =>
    o.node.apply_get_modify n m (fun x => { x with refs := o.ref.next :: x.refs }) (·.proc)
      fun _ => rfl
  exact ⟨rfl, le_rfl, fun m _ => hproc m, fun m _ => hproc m, rfl,
    (quiet_bugOn o _ (b := .descInUse) rfl).oops⟩

theorem binderGetRefForNode_quiet (kzalloc : Bool) :
    Quiet o (binderGetRefForNode o p n kzalloc).1 := by
  unfold binderGetRefForNode
  split
  · exact .refl o
  · split_ifs
    · exact newRef_quiet o n p
    · exact .refl o

theorem freeDeath_quiet (d : ℕ) : Quiet o (freeDeath o d) :=
  (quiet_todo o (messages_del o rfl)).trans (quiet_modDeath _ d _)

theorem freeDeath_quiet_option (death : Option ℕ) : Quiet o (match death with
    | some d => freeDeath o d
    | none => o) := by
  split
  · exact freeDeath_quiet o _
  · exact .refl o

theorem binderDeleteRef_quiet : Quiet o (binderDeleteRef o r) := by
  unfold binderDeleteRef
  dsimp only
  refine Quiet.trans ?_ (quiet_modRef _ r _)
  refine Quiet.trans ?_ (freeDeath_quiet_option _ _)
  refine Quiet.trans ?_ (binderDecNode_quiet _ _ _ _)
  refine Quiet.trans ?_ (quiet_modNode _ _ fun _ => rfl)
  have hown := quiet_modOwn o (o.ref.get r).proc fun w =>
    { w with refsByDesc := w.refsByDesc.erase r, refsByNode := w.refsByNode.erase r }
  exact .ite (hown.trans (binderDecNode_quiet _ _ _ _)) hown

theorem binderIncRef_quiet : Quiet o (binderIncRef o r strong targetList).1 := by
  have h : Quiet o (if (o.ref.get r).count strong = 0 then
      binderIncNode o (o.ref.get r).node strong true targetList else (o, true)).1 := by
    split_ifs
    · exact binderIncNode_quiet _ _ _ _ _
    · exact .refl o
  unfold binderIncRef
  dsimp only
  split
  · rename_i he
    rw [he] at h
    exact h.trans (quiet_modRef _ r _)
  · rename_i he
    rwa [he] at h

theorem binderDecRef_quiet : Quiet o (binderDecRef o r strong) := by
  have h1 := quiet_modRef o r (.lower strong)
  have h2 := h1.trans (.ite (c := strong ∧ ((o.modRef r (.lower strong)).ref.get r).strong = 0)
    (binderDecNode_quiet _ (o.ref.get r).node true true) (.refl _))
  unfold binderDecRef
  exact .ite (.refl o) (.ite (h2.trans (binderDeleteRef_quiet _ r)) h2)

end

section

variable (L : Layout) (o : Objects) (data : List ℕ) (off : ℕ) (strong : Bool)

theorem senderNode_quiet (env : ObjectEnv) (x : Transfer) :
    Quiet o (senderNode env x o data off).1 := by
  have h := binderNewNode_quiet o x.proc (objectQuad data off 2) (objectQuad data off 4)
    env.kzallocNode
  unfold senderNode
  split
  · exact .refl o
  · split
    · rename_i he
      rwa [he] at h
    · rename_i he
      rw [he] at h
      exact h.trans (quiet_modNode _ _ fun _ => rfl)

theorem translateBinder_quiet (env : ObjectEnv) (x : Transfer) :
    Quiet o (translateBinder env x o data off strong).1 := by
  have hnode := senderNode_quiet o data off env x
  unfold translateBinder
  split
  · rename_i he
    rwa [he] at hnode
  · rename_i o₁ n he
    rw [he] at hnode
    split_ifs
    · exact hnode
    · have href := binderGetRefForNode_quiet o₁ n x.targetProc env.kzallocRef
      split
      · rename_i he
        rw [he] at href
        exact hnode.trans href
      · rename_i he
        rw [he] at href
        exact (hnode.trans href).trans (binderIncRef_quiet _ _ _ _)

theorem translateHandle_quiet (env : ObjectEnv) (x : Transfer) :
    Quiet o (translateHandle env x o data off strong).1 := by
  unfold translateHandle
  split
  · exact .refl o
  · rename_i r _
    dsimp only
    split_ifs
    · exact binderIncNode_quiet _ _ _ _ _
    · have href := binderGetRefForNode_quiet o (o.ref.get r).node x.targetProc env.kzallocRef
      split
      · rename_i he
        rw [he] at href
        exact href
      · rename_i he
        rw [he] at href
        exact href.trans (binderIncRef_quiet _ _ _ _)

theorem translateFd_quiet (env : ObjectEnv) (x : Transfer) :
    Quiet o (translateFd env x o data off).1 := by
  unfold translateFd
  split_ifs
  · exact .refl o
  · split
    · exact .refl o
    · exact quiet_modOwn o x.targetProc fun w => { w with fds := w.fds ++ [_] }

theorem translateObject_quiet (env : ObjectEnv) (x : Transfer) (dataSize : ℕ) :
    Quiet o (translateObject L env x dataSize o data off).1 := by
  unfold translateObject
  split_ifs
  · exact .refl o
  · split
    · exact translateBinder_quiet _ _ _ _ _ _
    · exact translateBinder_quiet _ _ _ _ _ _
    · exact translateHandle_quiet _ _ _ _ _ _
    · exact translateHandle_quiet _ _ _ _ _ _
    · exact translateFd_quiet _ _ _ _ _
    · exact .refl o

theorem translateObjects_quiet (env : ℕ → ObjectEnv) (x : Transfer) (dataSize : ℕ) (offs : List ℕ)
    (k : ℕ) : Quiet o (translateObjects L env x dataSize offs k o data).1 := by
  induction offs generalizing k o data with
  | nil => exact .refl o
  | cons off offs ih =>
    have h := translateObject_quiet L o data off (env k) x dataSize
    unfold translateObjects
    split
    · rename_i he
      rw [he] at h
      exact h.trans (ih _ _ _)
    · rename_i he
      rw [he] at h
      exact h

theorem translateBuffer_quiet (x : Transfer) (env : TransactionEnv) (tr : TransactionData)
    (b : BinderBuffer) : Quiet o (translateBuffer L o x env tr b).1 := by
  unfold translateBuffer
  split_ifs
  · exact .refl o
  · exact translateObjects_quiet L o b.data env.object x tr.dataSize b.offsets 0

theorem releaseBinder_quiet (p : ℕ) : Quiet o (releaseBinder p o data off strong) := by
  unfold releaseBinder
  split
  · exact .refl o
  · exact binderDecNode_quiet _ _ _ _

theorem releaseHandle_quiet (p : ℕ) : Quiet o (releaseHandle p o data off strong) := by
  unfold releaseHandle
  split
  · exact .refl o
  · exact binderDecRef_quiet _ _ _

theorem releaseObject_quiet (p dataSize : ℕ) (failed : Bool) :
    Quiet o (releaseObject L p dataSize data failed o off) := by
  unfold releaseObject
  refine .ite (.refl o) ?_
  split
  · exact releaseBinder_quiet o data off true p
  · exact releaseBinder_quiet o data off false p
  · exact releaseHandle_quiet o data off true p
  · exact releaseHandle_quiet o data off false p
  · exact .ite (.ite (quiet_modOwn _ _ _) (.refl o)) (.refl o)
  · exact .refl o

theorem releaseObjects_quiet (p dataSize : ℕ) (failed : Bool) (offs : List ℕ) :
    Quiet o (offs.foldl (releaseObject L p dataSize data failed) o) := by
  induction offs generalizing o with
  | nil => exact .refl o
  | cons off offs ih => exact (releaseObject_quiet L o data off p dataSize failed).trans (ih _)

theorem bufferRelease_quiet (p : ℕ) (b : BinderBuffer) (failedAt : Option ℕ) :
    Quiet o (binderTransactionBufferRelease L o p b failedAt) := by
  unfold binderTransactionBufferRelease
  dsimp only
  refine Quiet.trans ?_ (releaseObjects_quiet L _ _ _ _ _ _)
  split
  · exact binderDecNode_quiet _ _ _ _
  · exact .refl o

theorem countRef_quiet (ref : Option ℕ) (c : RefCommand) : Quiet o (match ref with
    | none => o
    | some r =>
      match c with
      | .increfs => (binderIncRef o r false none).1
      | .acquire => (binderIncRef o r true none).1
      | .release => binderDecRef o r true
      | .decrefs => binderDecRef o r false) := by
  cases ref with
  | none => exact .refl o
  | some r =>
    cases c
    · exact binderIncRef_quiet _ _ _ _
    · exact binderIncRef_quiet _ _ _ _
    · exact binderDecRef_quiet _ _ _
    · exact binderDecRef_quiet _ _ _

theorem refCommand_quiet (p : ℕ) (c : RefCommand) (target : ℕ) (kzalloc : Bool) :
    Quiet o (refCommand o p c target kzalloc) := by
  unfold refCommand
  dsimp only
  refine Quiet.trans ?_ (countRef_quiet _ _ c)
  split
  · split_ifs
    · exact (binderGetRefForNode_quiet _ _ _ _).trans (quiet_bugOn _ _ rfl)
    · exact .refl o
  · exact .refl o

theorem BinderNode.proc_clearPending (x : BinderNode) : (x.clearPending strong).proc = x.proc := by
  cases strong <;> rfl

theorem refDone_quiet (p : ℕ) (ptr cookie : ℕ) : Quiet o (refDone o p strong ptr cookie) := by
  unfold refDone
  split
  · exact .refl o
  · exact .ite (.refl o) ((quiet_modNode _ _ (BinderNode.proc_clearPending strong)).trans
      (binderDecNode_quiet _ _ _ _))

theorem notifyDeath_quiet (r : ℕ) : Quiet o (notifyDeath o r) := by
  unfold notifyDeath
  dsimp only
  split
  · exact .refl o
  · split_ifs
    · exact quiet_bugOn _ _ rfl
    · exact (quiet_modDeath o _ _).trans (quiet_todo _ (messages_addTail _ _ rfl))

theorem settleNode_quiet (p n : ℕ) : Quiet o (settleNode o p n) := by
  have h := quiet_todo o (messages_del o (w := .node n) rfl)
  unfold settleNode
  dsimp only
  split_ifs
  · exact (h.trans (quiet_modOwn _ _ _)).trans (quiet_modNode _ _ fun _ => rfl)
  · exact h

end

end Binder
