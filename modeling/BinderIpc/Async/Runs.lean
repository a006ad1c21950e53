import BinderIpc.Async.Send
import BinderIpc.Txn.Runs
import BinderIpc.Wire.ReadFraming

/-! The one-way transactions over runs of the driver. -/

namespace Binder

variable {L : Layout} {rb : RbTree ℕ} {s : Driver} {t T p : ℕ} {fault : ℕ → Bool}

/-! Reads -/

theorem AsyncInv.readItem {w : Work} {l : ListHead} (hi : AsyncInv L s) (ptr : ℕ)
    (hw : (l, w) ∈ s.obj.todo.entries) : AsyncInv L (readItem s T ptr fault w).1 := by
  cases w with
  | transaction t => exact hi.readTransaction hw
  | transactionComplete t => exact hi.kept (readItem_kept L s T fault ptr fun _ => by simp)
  | node n => exact hi.kept (readItem_kept L s T fault ptr fun _ => by simp)
  | death d => exact hi.kept (readItem_kept L s T fault ptr fun _ => by simp)

theorem AsyncInv.readLoop {f : ReadFrame} {k ptr : ℕ} (hi : AsyncInv L s) :
    AsyncInv L (readLoop L T f fault k s ptr) := by
  induction k generalizing s ptr with
  | zero => exact hi
  | succ k ih =>
    unfold Binder.readLoop
    split
    · split_ifs
      · exact hi.kept (waitForWork_kept L s T fault _ _ _)
      · exact hi.kept (readDone_kept L s T fault _)
    · rename_i w hw
      obtain ⟨l, hl⟩ := nextWork_listed hw
      have hitem : AsyncInv L (Binder.readItem s T ptr fault w).1 := hi.readItem ptr hl
      split_ifs
      · exact hi.kept (readDone_kept L s T fault _)
      · split
        · rename_i he
          rw [he] at hitem
          exact ih hitem
        · rename_i he
          rw [he] at hitem
          exact hitem
        · rename_i he
          rw [he] at hitem
          exact hitem.kept (readDone_kept L _ T fault _)

theorem AsyncInv.resumeRead (hi : AsyncInv L s) : AsyncInv L (resumeRead L s T fault) := by
  unfold Binder.resumeRead
  split
  · exact hi
  · rename_i f hf
    split
    · exact hi
    · exact hi.kept (stopWaiting_kept L s T f)
    · exact (hi.kept (stopWaiting_kept L s T f)).readLoop

/-! What makes a process or a thread -/

variable {K : AsyncScope}

theorem openProc_kept (hu : Unborn s) (hi : ThreadInv s) (pid : ℕ) :
    AsyncKept L K s (binderOpen s pid) := by
  set s' := binderOpen s pid with hs'
  have hnew : s'.proc.get s.proc.next = { pid := pid } := s.proc.get_alloc_self _
  have hold : ∀ p, p ≠ s.proc.next → s'.proc.get p = s.proc.get p := fun p hp =>
    s.proc.get_alloc_ne p _ hp
  have hlive : ∀ b, s'.liveAt b = s.liveAt b := fun b => by
    by_cases hb : b.1 = s.proc.next
    · rw [Driver.liveAt, Driver.liveAt, hb, hnew, liveAt_bare rfl, liveAt_bare (hu.area _ le_rfl).1]
    · rw [Driver.liveAt, Driver.liveAt, hold _ hb]
  intro hs
  refine { AsyncKept.refl (L := L) (K := K) s hs with
    sound := ⟨fun p => ?_, hs.stack, hs.parents, fun b B u hB => hs.linked b B u ((hlive b).symm.trans hB)⟩
    live := fun b => Or.inr (Or.inr (by rw [hlive]))
    released := fun p hp => ?_
    threads := fun p S hS => Or.inr ?_ }
  · by_cases hp : p = s.proc.next
    · rw [hp, hnew]
      exact Or.inr ⟨rfl, rfl, rfl⟩
    · rw [hold p hp]
      exact hs.area p
  · by_cases hpn : p = s.proc.next
    · by_contra hr
      have := hu.released p (by simpa using hr)
      rw [hpn, hu.closed _ le_rfl] at this
      cases this
    · rwa [hold p hpn] at hp
  · obtain ⟨hlt, -, hproc⟩ := (hi.listed p S).1 hS
    have hlt := hi.proc S hlt
    rw [hold p (hproc ▸ hlt).ne]
    exact hS

theorem newThread_kept (pid : ℕ) : AsyncKept L K s (newThread s p pid) := by
  have halloc : AsyncKept L K s { s with
      thread := s.thread.alloc { proc := p, pid := pid, looper := { needReturn := true } } } := fun hs =>
    { AsyncKept.refl (L := L) (K := K) s hs with
      sound := by
        refine ⟨hs.area, fun S u hu => ?_, hs.parents, hs.linked⟩
        simp only [Heap.get_alloc] at hu
        split_ifs at hu
        exact hs.stack S u hu }
  exact halloc.trans (kept_modProc _ p (fun _ => rfl) (fun _ => id) fun x S hS =>
    Or.inr (mem_treeInsert.2 (Or.inr hS)))

theorem mmap_kept {base size : ℕ} {env : PageEnv} (hm : Mapped L base size) :
    AsyncKept L K s (driverMmap L rb s p base size env) := by
  unfold driverMmap
  by_cases hz : (s.proc.get p).area.bufferSize = 0
  swap
  · rw [if_pos hz]
    exact .refl s
  rw [if_neg (by simpa using hz)]
  cases hA : binderMmap L rb base size env with
  | none => exact .refl s
  | some A =>
    intro hs
    have hnil : (s.proc.get p).area.buffers = [] := by
      rcases hs.area p with hi | ⟨hnil, -, -⟩
      · exact absurd hz hi.bufferSize_pos
      · exact hnil
    have hnone : ∀ a, Binder.liveAt A a = none := fun a => by
      cases hB : Binder.liveAt A a with
      | none => rfl
      | some B =>
        obtain ⟨hmem, hfree, -⟩ := liveAt_some hB
        simp only [binderMmap] at hA
        split at hA <;> cases hA
        obtain rfl : B = { addr := base, free := true } := List.mem_singleton.1 hmem
        cases hfree
    refine AsyncKept.trans ?_ (kept_quiet _ (f := fun o => o.modOwn p fun w => { w with files := true })
      (quiet_modOwn _ p _) (async_modOwn _ p _)) hs
    exact kept_setProc s p (fun _ => Or.inl (binderMmap_inv hm hA))
      (fun a => (hnone a).trans (liveAt_bare hnil).symm) id fun _ => Or.inr

theorem vmaClose_kept : AsyncKept L K s (binderVmaClose s p) := by
  refine kept_setProc s p (fun hfit => ?_) (fun _ => rfl) id fun _ => Or.inr
  rcases hfit with hi | ⟨h1, h2, -⟩
  · exact Or.inl (hi.charge L (s.proc.get p).area.freeAsyncSpace false)
  · exact Or.inr ⟨h1, h2, rfl⟩

theorem setCtxMgr_kept (euid : ℕ) (kzalloc : Bool) : AsyncKept L K s (setCtxMgr s T euid kzalloc) := by
  unfold setCtxMgr
  refine AsyncKept.ite (.refl s) ?_
  have huid : AsyncKept L K s { s with contextMgrUid := some (s.contextMgrUid.getD euid) } := fun hs =>
    { AsyncKept.refl (L := L) (K := K) s hs with
      sound := ⟨hs.area, hs.stack, hs.parents, hs.linked⟩ }
  have hmgr : ∀ (s : Driver) (m : Option ℕ),
      AsyncKept L K s (s.modObj fun o => { o with contextMgrNode := m }) := fun s m =>
    kept_obj s ⟨le_rfl, fun _ _ => rfl, fun _ _ => id⟩ (fun _ _ => id) (fun _ _ => Or.inl)
      fun _ _ => Or.inl
  refine huid.trans ?_
  set s₁ : Driver := { s with contextMgrUid := some (s.contextMgrUid.getD euid) }
  have hnode : AsyncKept L K s₁ (s₁.modObj fun o =>
      (binderNewNode o (s₁.thread.get T).proc 0 0 kzalloc).1) :=
    kept_quiet s₁ (binderNewNode_quiet _ _ _ _ _) (binderNewNode_sameAsync _ _ _ _ _)
  dsimp only
  cases hnew : binderNewNode s₁.obj (s₁.thread.get T).proc 0 0 kzalloc with
  | mk o n =>
    simp only [Driver.modObj, hnew] at hnode ⊢
    cases n with
    | none => exact hnode.trans (hmgr _ none)
    | some n =>
      exact (hnode.trans (hmgr _ (some n))).trans (kept_quiet _ (f := fun o => o.modNode n fun x =>
        { x with
          localWeakRefs := x.localWeakRefs + 1, localStrongRefs := x.localStrongRefs + 1
          hasStrongRef := true, hasWeakRef := true }) (quiet_modNode _ n fun _ => rfl)
            (async_modNode _ n fun _ => rfl))

/-! What ends a thread or a process -/

/-- A thread exits that still has a one-way transaction to read. -/
def Action.strands (s : Driver) : Action → Bool
  | threadExit T => s.obj.todo.entries.any fun
      | (.threadTodo S, .transaction t) => S = T && (s.bufferOf t).any (·.asyncTransaction)
      | _ => false
  | _ => false

theorem AsyncInv.threadExit (hi : AsyncInv L s) (hs : (Action.threadExit T).strands s = false) :
    AsyncInv L (binderFreeThread s T) := by
  set K : AsyncScope := { AsyncScope.still with drops := (· = .threadTodo T), leaves := (· = T) } with hK
  have h : AsyncStep L K s (binderFreeThread s T) := binderFreeThread_kept L s T rfl rfl hi.sound
  generalize binderFreeThread s T = s' at h ⊢
  have hk : Spares K s s' := ⟨fun _ _ => id, fun _ _ _ hf => hf.elim⟩
  refine hi.step h hk fun p n hopen _ _ hp => ?_
  refine hp.imp (h.delivered_kept hk hopen fun _ => id) (hi.queued_kept h hk hopen ?_)
  intro l t a B hb hB ha hl hq
  -- the transaction is on another list, for the thread has none
  have hne : l ≠ .threadTodo T := by
    rintro rfl
    have hbuf : s.bufferOf t = some B := by
      rw [Driver.bufferOf, hb]
      exact FitArea.bufferAt_eq L (hi.sound.area p) hB
    have hany : (Action.threadExit T).strands s = true :=
      List.any_eq_true.2 ⟨_, hq, by simp [hbuf, ha]⟩
    rw [hs] at hany
    cases hany
  refine ⟨?_, (h.keep l t hq).resolve_right ?_⟩
  swap
  · rintro ⟨l', hl', hq'⟩
    exact hne ((hi.once l l' t hq hq').trans hl')
  cases l with
  | procTodo q => exact hl
  | threadTodo S => exact (h.threads p S hl).resolve_left fun hS => hne (congrArg ListHead.threadTodo hS)
  | asyncTodo n => exact hl
  | deliveredDeath q => exact hl

theorem AsyncInv.deferredRelease {env : ℕ → PageEnv} (hi : AsyncInv L s) (ht : ThreadInv s) :
    AsyncInv L (binderDeferredRelease L rb env s p) := by
  have h := binderDeferredRelease_kept L rb s p env hi.sound
  have hgone : ((binderDeferredRelease L rb env s p).proc.get p).released = true := by
    simp [binderDeferredRelease, Driver.modProc]
  generalize binderDeferredRelease L rb env s p = s' at h hgone ⊢
  have hne : ∀ q, (s'.proc.get q).released = false → q ≠ p := by
    rintro q hq rfl
    rw [hgone] at hq
    cases hq
  have hk : Spares (.release s p) s s' := ⟨hne, fun _ _ _ hf => hf.elim⟩
  refine hi.step h hk fun q n hopen _ _ hp => ?_
  refine hp.imp (h.delivered_kept hk hopen fun _ => id) (hi.queued_kept h hk hopen ?_)
  intro l t a B _ _ _ hl hq
  have hother : ∀ T ∈ (s.proc.get q).threads, T ∉ (s.proc.get p).threads := fun T hT hT' =>
    hne q hopen (((ht.listed q T).1 hT).2.2.symm.trans ((ht.listed p T).1 hT').2.2)
  have hkeep : ¬(AsyncScope.release s p).drops l := fun hd => by
    cases l with
    | procTodo r => exact hne q hopen (hl.symm.trans hd)
    | threadTodo T => exact hother T hl hd
    | asyncTodo n => exact hl
    | deliveredDeath r => exact hl
  refine ⟨?_, (h.keep l t hq).resolve_right ?_⟩
  swap
  · rintro ⟨l', hl', hq'⟩
    exact hkeep (hi.once l l' t hq hq' ▸ hl')
  cases l with
  | procTodo r => exact hl
  | threadTodo T => exact (h.threads q T hl).resolve_left (hother T hl)
  | asyncTodo n => exact hl
  | deliveredDeath r => exact hl

theorem AsyncInv.deferredFunc {env : ℕ → PageEnv} (hi : AsyncInv L s) (ht : ThreadInv s) :
    AsyncInv L (binderDeferredFunc L rb env s p) := by
  have h₁ := hi.kept (beforeRelease_kept L s p)
  rw [binderDeferredFunc_eq]
  split
  · exact h₁.deferredRelease (ht.grows (beforeRelease_grows s p))
  · exact h₁

/-! Every step -/

theorem AsyncInv.apply (hi : AsyncInv L s) (ht : ThreadInv s) (hu : Unborn s) (a : Action)
    (hen : a.enabled L s = true) (hs : a.strands s = false) : AsyncInv L (a.apply L rb s) := by
  cases a with
  | openProc pid => exact hi.kept (openProc_kept hu ht pid)
  | getThread p pid =>
    simp only [Action.apply, binderGetThread]
    split_ifs
    · exact hi
    · exact hi.kept (newThread_kept pid)
  | mmap p base size env =>
    simp only [Action.enabled, Bool.and_eq_true, decide_eq_true_eq] at hen
    exact hi.kept (mmap_kept hen.2)
  | vmaClose p => exact hi.kept vmaClose_kept
  | flush p => exact hi.kept (kept_proc s p (fun _ => rfl) (fun _ => id) fun _ => rfl)
  | close p => exact hi.kept (kept_proc s p (fun _ => rfl) (fun _ => id) fun _ => rfl)
  | deferredFunc p env => exact hi.deferredFunc ht
  | write T c env =>
    simp only [Action.enabled, Bool.and_eq_true] at hen
    obtain ⟨h1, h2, -, -, h3⟩ := Driver.ready_spec hen.1
    have hopen : (s.proc.get (s.thread.get T).proc).released = false := by
      by_contra hr
      have := hu.released _ (by simpa using hr)
      rw [h3] at this
      cases this
    simp only [Action.apply, writeCommand]
    split_ifs
    · exact hi.binderCommand ((ht.listed _ T).2 ⟨h1, h2, rfl⟩) hopen fun tr htr => by
        rcases htr with rfl | rfl <;> simpa [Command.sized] using hen.2
    · exact hi
  | read T size consumed nonBlock fault =>
    simp only [Action.apply, binderThreadRead]
    split_ifs
    · exact hi
    · exact hi.kept (waitForWork_kept L s T fault _ _ _)
    · exact hi.kept (waitForWork_kept L s T fault _ _ _)
  | lookForWork T =>
    simp only [Action.apply, Binder.lookForWork]
    split
    · exact hi
    · split_ifs
      · exact hi
      · exact hi.kept (kept_thread s T fun _ => rfl)
      · exact hi
  | resume T fault => exact hi.resumeRead
  | interrupt T =>
    simp only [Action.apply, interruptRead]
    split
    · exact hi
    · split_ifs
      · exact hi
      · exact hi.kept (stopWaiting_kept L s T _)
  | ioctlDone T => exact hi.kept (kept_thread s T fun _ => rfl)
  | setMaxThreads T n => exact hi.kept (kept_proc s _ (fun _ => rfl) (fun _ => id) fun _ => rfl)
  | setContextMgr T euid kzalloc => exact hi.kept (setCtxMgr_kept euid kzalloc)
  | threadExit T => exact hi.threadExit hs

theorem asyncInv_start : AsyncInv L {} where
  sound := by
    refine ⟨fun p => Or.inr ⟨rfl, rfl, rfl⟩, fun T t ht => ?_, fun u t ht => ?_, fun b B t hB => ?_⟩
    · cases ht
    · rcases ht with h | h <;> cases h
    · rw [Driver.liveAt, liveAt_bare rfl] at hB
      cases hB
  lt _ _ h := by cases h
  once _ _ _ h := by cases h
  held _ _ _ h := by cases h
  sole _ _ _ _ _ h := by cases h
  unborn _ _ hn := by cases hn
  blank _ _ := rfl
  only _ _ h := by cases h
  waiting _ _ _ hn := by cases hn
  idle _ _ _ := List.not_mem_nil
  active _ _ hn := by cases hn

theorem asyncInv_reach (h : (driverMachine L rb).Reach (fun s a => a.strands s = false) s) :
    AsyncInv L s := by
  refine h.invariant_of (I := fun s => ThreadInv s ∧ Unborn s) (J := AsyncInv L)
    (fun s hs => ⟨threadInv_reach hs, unborn_reach hs⟩) (fun s hs => ?_) fun s a hi _ hs ha => ?_
  · cases hs
    exact asyncInv_start
  · by_cases hen : a.enabled L s = true
    · rw [show (driverMachine L rb).step s a = a.apply L rb s from if_pos hen]
      exact hs.apply hi.1 hi.2 a hen ha
    · rwa [show (driverMachine L rb).step s a = s from if_neg hen]

/-- While no thread exits that has a one-way transaction to read, one of a node is on its way or
with the user as long as the node is busy, and none waits for an idle node. -/
theorem one_way_queue_moves (h : (driverMachine L rb).Reach (fun s a => a.strands s = false) s)
    {n : ℕ} (hn : (s.obj.node.get n).proc = some p) (hp : (s.proc.get p).released = false) :
    ((s.obj.node.get n).hasAsyncTransaction = true → AsyncDelivered s p n ∨ AsyncQueued s p n) ∧
      ((s.obj.node.get n).hasAsyncTransaction = false → s.obj.todo.isEmpty (.asyncTodo n) = true) := by
  have hi := asyncInv_reach h
  exact ⟨hi.active p n hn hp, fun hf => Queues.isEmpty_iff.2 fun w => hi.idle n w hf⟩

/-- Thread 0 of the context manager has the first of two messages of a client; the second one is
moved to its own list when it frees the buffer of the first. -/
def busyServer : List Action :=
  [.openProc 50, .getThread 0 50, .setContextMgr 0 1000 true, .mmap 0 0x10000 0x8000 {},
    .openProc 100, .getThread 1 100, .write 1 (.transaction { flags := { oneWay := true } }) {},
    .write 1 (.transaction { flags := { oneWay := true } }) {}, .read 0 256 0 false fun _ => false,
    .lookForWork 0, .resume 0 fun _ => false, .write 0 (.freeBuffer 0x10000) {}]

theorem one_way_queue_moves_server :
    AsyncDelivered (afterActions busyServer) 0 0 ∨ AsyncQueued (afterActions busyServer) 0 0 := by
  have hadm : (driverMachine layout32 .plain).Admits (fun s a => a.strands s = false) {} busyServer := by
    decide +kernel
  have hn : ((afterActions busyServer).obj.node.get 0).proc = some 0 := by decide +kernel
  have hp : ((afterActions busyServer).proc.get 0).released = false := by decide +kernel
  exact (one_way_queue_moves (.exec (.start rfl) hadm) hn hp).1 (by decide +kernel)

/-- The thread exits; the second message is gone, and its buffer stays. -/
theorem one_way_queue_jams : ¬∀ s, (driverMachine layout32 .plain).Reach (fun _ _ => True) s →
    ∀ p n, (s.obj.node.get n).proc = some p → (s.proc.get p).released = false →
      ((s.obj.node.get n).hasAsyncTransaction = true → AsyncDelivered s p n ∨ AsyncQueued s p n) ∧
      ((s.obj.node.get n).hasAsyncTransaction = false → s.obj.todo.isEmpty (.asyncTodo n) = true) := by
  intro hall
  have hfree : ∀ B ∈ liveBuffers ((afterActions (busyServer ++ [.threadExit 0])).proc.get 0).area.buffers,
      B.allowUserFree = false := by decide +kernel
  have htodo : (afterActions (busyServer ++ [.threadExit 0])).obj.todo.entries =
      [(.threadTodo 1, .transactionComplete 0), (.threadTodo 1, .transactionComplete 1)] := by
    decide +kernel
  rcases (hall _ (reach_afterActions (busyServer ++ [.threadExit 0])) 0 0 (by decide +kernel)
    (by decide +kernel)).1 (by decide +kernel) with ⟨a, B, hB, -, -, hu⟩ | ⟨t, l, -, hq, -⟩
  · rw [hfree B (bufferAt_some hB).1] at hu
    cases hu
  · rw [Driver.queued, htodo] at hq
    simp at hq

end Binder
