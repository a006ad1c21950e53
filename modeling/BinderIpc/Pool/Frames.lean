import BinderIpc.Driver.Threads

/-! The thread pools of the processes: their counts and the threads that wait for
work of their process. Whatever the driver does but for reads and
`BC_REGISTER_LOOPER` leaves them as they are, and asks for no looper. -/

namespace Binder

/-- The counts of the pool of a process. -/
structure PoolCounts where
  maxThreads : ℤ
  requested : ℤ
  started : ℤ
  ready : ℤ

def BinderProc.pool (x : BinderProc) : PoolCounts where
  maxThreads := x.maxThreads
  requested := x.requestedThreads
  started := x.requestedThreadsStarted
  ready := x.readyThreads

/-- The thread is inside the wait for work of its process. -/
def BinderThread.waits (y : BinderThread) : Bool := y.asleep.any (·.waitForProcWork)

/-- `BR_SPAWN_LOOPER` was written to some buffer. -/
def Event.asksLooper : Event → Bool
  | br _ .spawnLooper => true
  | _ => false

/-- The history grows, and no looper is asked for. -/
def NotAsked (s s' : Driver) : Prop :=
  ∃ l, s'.history = s.history ++ l ∧ ∀ e ∈ l, e.asksLooper = false

structure SamePools (s s' : Driver) : Prop where
  pool : ∀ p, (s'.proc.get p).pool = (s.proc.get p).pool
  waits : ∀ T, (s'.thread.get T).waits = (s.thread.get T).waits
  owner : ∀ T, (s'.thread.get T).proc = (s.thread.get T).proc
  next : s'.thread.next = s.thread.next
  asked : NotAsked s s'

theorem NotAsked.refl (s : Driver) : NotAsked s s := ⟨[], by simp, by simp⟩

theorem NotAsked.trans {s s' s'' : Driver} (h : NotAsked s s') (h' : NotAsked s' s'') :
    NotAsked s s'' := by
  obtain ⟨l, hl, h1⟩ := h
  obtain ⟨l', hl', h2⟩ := h'
  refine ⟨l ++ l', by rw [hl', hl, List.append_assoc], fun e he => ?_⟩
  exact (List.mem_append.1 he).elim (h1 e) (h2 e)

namespace SamePools

variable {s s' s'' : Driver}

theorem refl (s : Driver) : SamePools s s :=
  ⟨fun _ => rfl, fun _ => rfl, fun _ => rfl, rfl, .refl s⟩

theorem trans (h : SamePools s s') (h' : SamePools s' s'') : SamePools s s'' where
  pool p := (h'.pool p).trans (h.pool p)
  waits T := (h'.waits T).trans (h.waits T)
  owner T := (h'.owner T).trans (h.owner T)
  next := h'.next.trans h.next
  asked := h.asked.trans h'.asked

theorem ite {c : Prop} [Decidable c] (h : SamePools s s') (h' : SamePools s s'') :
    SamePools s (if c then s' else s'') := by
  split_ifs <;> assumption

theorem foldl {α : Type*} {f : Driver → α → Driver} (hf : ∀ s a, SamePools s (f s a))
    (l : List α) : SamePools s (l.foldl f s) := by
  induction l generalizing s with
  | nil => exact .refl s
  | cons a l ih => exact (hf s a).trans ih

end SamePools

section

variable (s : Driver)

theorem pools_modObj (f : Objects → Objects) : SamePools s (s.modObj f) := { SamePools.refl s with }

theorem pools_bugOn (c : Bool) (b : Oops) : SamePools s (s.bugOn c b) := pools_modObj s _

theorem pools_note {e : Event} (he : e.asksLooper = false) : SamePools s (s.note e) :=
  { SamePools.refl s with asked := ⟨[e], rfl, by simpa using he⟩ }

theorem pools_modTxn (t : ℕ) (f : BinderTransaction → BinderTransaction) :
    SamePools s (s.modTxn t f) := { SamePools.refl s with }

theorem pools_modThread (T : ℕ) {f : BinderThread → BinderThread}
    (h1 : ∀ y, (f y).waits = y.waits) (h2 : ∀ y, (f y).proc = y.proc) :
    SamePools s (s.modThread T f) :=
  { SamePools.refl s with
    waits := fun S => s.thread.apply_get_modify T S f (·.waits) h1
    owner := fun S => s.thread.apply_get_modify T S f (·.proc) h2 }

theorem pools_modProc (p : ℕ) {f : BinderProc → BinderProc} (hf : ∀ x, (f x).pool = x.pool) :
    SamePools s (s.modProc p f) :=
  { SamePools.refl s with pool := fun q => s.proc.apply_get_modify p q f (·.pool) hf }

theorem pools_modBuffer (b : ℕ × ℕ) (f : BinderBuffer → BinderBuffer) :
    SamePools s (s.modBuffer b f) := pools_modProc s b.1 fun _ => rfl

end

/-! The functions -/

section

variable (L : Layout) (rb : RbTree ℕ) (s : Driver) (T t p : ℕ)

theorem forgetTransaction_pools (o : Option (ℕ × ℕ)) : SamePools s (forgetTransaction s o) := by
  cases o with
  | none => exact .refl s
  | some b => exact pools_modBuffer s b _

theorem freeTransaction_pools : SamePools s (freeTransaction s t) :=
  (forgetTransaction_pools s _).trans (pools_modTxn _ t _)

theorem popSender_pools : SamePools s (popSender s T t) := by
  unfold popSender
  refine SamePools.trans ?_ (pools_modTxn _ t _)
  refine SamePools.trans ?_ (pools_modThread _ T (fun _ => rfl) fun _ => rfl)
  exact (pools_bugOn s _ _).trans (pools_bugOn _ _ _)

theorem binderPopTransaction_pools (o : Option ℕ) : SamePools s (binderPopTransaction s o t) := by
  unfold binderPopTransaction
  refine SamePools.trans ?_ (freeTransaction_pools _ t)
  refine SamePools.trans ?_ (pools_modTxn _ t _)
  cases o with
  | none => exact .refl s
  | some T => exact popSender_pools s T t

theorem failSender_pools (e : ReturnError) : SamePools s (failSender s T t e) := by
  unfold failSender
  have hshift : SamePools s (s.modThread T .shiftError) := by
    refine pools_modThread s T (fun y => ?_) BinderThread.proc_shiftError
    rw [BinderThread.waits, BinderThread.asleep_shiftError]
    rfl
  refine SamePools.ite (hshift.trans ?_) (hshift.trans (pools_note _ rfl))
  refine SamePools.trans ?_ (pools_note _ rfl)
  exact (binderPopTransaction_pools _ t _).trans
    (pools_modThread _ T (fun _ => rfl) fun _ => rfl)

theorem failUpwards_pools (e : ReturnError) (k : ℕ) : SamePools s (failUpwards e k s t) := by
  induction k generalizing s t with
  | zero => exact .refl s
  | succ k ih =>
    unfold failUpwards
    split
    · exact failSender_pools s _ t e
    · dsimp only
      split
      · exact binderPopTransaction_pools s t none
      · exact (binderPopTransaction_pools s t none).trans (ih _ _)

theorem binderSendFailedReply_pools (e : ReturnError) :
    SamePools s (binderSendFailedReply s t e) :=
  (pools_bugOn s _ _).trans (failUpwards_pools _ t e _)

theorem releaseItem_pools (w : Work) : SamePools s (releaseItem s w) := by
  cases w with
  | transaction t =>
    exact (pools_bugOn s _ _).trans
      (.ite (binderSendFailedReply_pools _ t _) (freeTransaction_pools _ t))
  | transactionComplete t => exact .refl s
  | node n => exact .refl s
  | death d =>
    rw [releaseItem]
    split
    · exact pools_modObj s _
    · exact pools_modObj s _
    · exact .refl s

theorem releaseWorkLoop_pools (l : ListHead) (k : ℕ) : SamePools s (releaseWorkLoop l k s) := by
  induction k generalizing s with
  | zero => exact .refl s
  | succ k ih =>
    unfold releaseWorkLoop
    split
    · exact .refl s
    · exact ((pools_modObj s _).trans (releaseItem_pools _ _)).trans (ih _)

theorem binderReleaseWork_pools (l : ListHead) : SamePools s (binderReleaseWork s l) :=
  releaseWorkLoop_pools s l _

theorem leaveTransactions_pools (k : ℕ) (o : Option ℕ) :
    SamePools s (leaveTransactions T k s o) := by
  induction k generalizing s o with
  | zero => cases o <;> exact .refl s
  | succ k ih =>
    cases o with
    | none => exact .refl s
    | some t =>
      unfold leaveTransactions
      refine SamePools.ite ?_ (.ite ?_ (pools_bugOn s _ _))
      · refine SamePools.trans ?_ (ih _ _)
        exact (forgetTransaction_pools s _).trans (pools_modTxn _ t _)
      · exact (pools_modTxn s t _).trans (ih _ _)

theorem binderFreeThread_pools : SamePools s (binderFreeThread s T) := by
  unfold binderFreeThread
  refine SamePools.trans ?_ (pools_modThread _ T (fun _ => rfl) fun _ => rfl)
  refine SamePools.trans ?_ (binderReleaseWork_pools _ _)
  have h : SamePools s (leaveTransactions T s.txn.next
      (s.modProc (s.thread.get T).proc fun p => { p with threads := p.threads.erase T })
      (s.thread.get T).transactionStack) := by
    refine SamePools.trans ?_ (leaveTransactions_pools _ T _ _)
    exact pools_modProc s _ fun _ => rfl
  split
  · exact h.trans (binderSendFailedReply_pools _ _ _)
  · exact h

theorem releaseNode_pools (n : ℕ) : SamePools s (releaseNode p s n) := by
  unfold releaseNode binderNodeRelease
  refine SamePools.trans ?_ (pools_modObj _ _)
  refine SamePools.trans ?_ (binderReleaseWork_pools _ _)
  refine SamePools.trans ?_ (pools_modObj _ _)
  exact (pools_modObj s _).trans (pools_note _ rfl)

theorem detachBuffer_pools (b : ℕ × ℕ) : SamePools s (detachBuffer s b) := by
  unfold detachBuffer
  split
  · exact (pools_modTxn s _ _).trans (pools_modBuffer _ b _)
  · exact .refl s

theorem releaseBuffer_pools (env : ℕ → PageEnv) (a : ℕ) :
    SamePools s (releaseBuffer L rb env p s a) :=
  (detachBuffer_pools s (p, a)).trans (pools_modProc _ p fun _ => rfl)

theorem binderDeferredRelease_pools (env : ℕ → PageEnv) :
    SamePools s (binderDeferredRelease L rb env s p) := by
  unfold binderDeferredRelease
  refine SamePools.trans ?_ (pools_modProc _ p fun _ => rfl)
  refine SamePools.trans ?_ (.foldl (fun s a => releaseBuffer_pools L rb s p env a) _)
  refine SamePools.trans ?_ (binderReleaseWork_pools _ _)
  refine SamePools.trans ?_ (binderReleaseWork_pools _ _)
  refine SamePools.trans ?_ (pools_modObj _ _)
  refine SamePools.trans ?_ (.foldl (fun s n => releaseNode_pools s p n) _)
  refine SamePools.trans ?_ (.foldl binderFreeThread_pools _)
  refine SamePools.trans ?_ (pools_modObj _ _)
  exact (pools_bugOn s _ _).trans (pools_bugOn _ _ _)

theorem binderDeferredFunc_pools (env : ℕ → PageEnv) :
    SamePools s (binderDeferredFunc L rb env s p) := by
  have hflush : ∀ s : Driver, SamePools s (binderDeferredFlush s p) := by
    intro s
    refine SamePools.foldl (fun s T => ?_) _
    exact pools_modThread s T (fun _ => rfl) fun _ => rfl
  have hbefore : SamePools s (beforeRelease s p) := by
    unfold beforeRelease
    refine SamePools.trans ?_ (.ite (hflush _) (.refl _))
    refine SamePools.trans ?_ (.ite (pools_modObj _ _) (.refl _))
    exact pools_modProc s p fun _ => rfl
  rw [binderDeferredFunc_eq]
  exact .ite (hbefore.trans (binderDeferredRelease_pools L rb _ p env)) hbefore

theorem failTransaction_pools (f : Failure) : SamePools s (failTransaction s T f) := by
  unfold failTransaction
  refine SamePools.trans (pools_bugOn s (decide ((s.thread.get T).returnError ≠ .ok)) .returnErrorSet) ?_
  dsimp only
  split
  · refine SamePools.trans ?_ (binderSendFailedReply_pools _ _ _)
    exact pools_modThread _ T (fun _ => rfl) fun _ => rfl
  · exact pools_modThread _ T (fun _ => rfl) fun _ => rfl

theorem replyTarget_pools : SamePools s (replyTarget s T).1 := by
  unfold replyTarget
  split
  · exact .refl s
  · dsimp only
    split_ifs
    · exact .refl s
    · have h := pools_modThread s T (f := fun y => { y with
        transactionStack := (s.txn.get ‹ℕ›).toParent }) (fun _ => rfl) fun _ => rfl
      split
      · exact h
      · split_ifs
        · exact h.trans (pools_note _ rfl)
        · exact h

theorem queueTransaction_pools (target : Target) :
    SamePools s (queueTransaction s T t target) := by
  unfold queueTransaction
  dsimp only
  refine SamePools.trans ?_ (pools_modObj _ _)
  split
  · dsimp only
    refine SamePools.trans ?_ (pools_note _ rfl)
    exact (pools_bugOn s _ _).trans (binderPopTransaction_pools _ _ _)
  · split_ifs
    · dsimp only
      refine SamePools.trans ?_ (pools_note _ rfl)
      refine SamePools.trans ?_ (pools_modThread _ T (fun _ => rfl) fun _ => rfl)
      exact (pools_bugOn s _ _).trans (pools_modTxn _ t _)
    · have h := (pools_bugOn s (target.node.isNone) .targetNode).trans
        (pools_bugOn _ (!(s.bufferOf t).any (·.asyncTransaction)) .asyncBuffer)
      split
      · exact h
      · split_ifs
        · exact h
        · dsimp only
          exact h.trans (pools_modObj _ _)

theorem undoBuffer_pools (env : TransactionEnv) (target : Target) (a : ℕ) (b : BinderBuffer)
    (k : ℕ) : SamePools s (undoBuffer L rb s T t env target a b k) := by
  unfold undoBuffer
  refine SamePools.trans ?_ (failTransaction_pools _ T _)
  refine SamePools.trans ?_ (pools_modTxn _ _ _)
  refine SamePools.trans ?_ (pools_modProc _ _ fun _ => rfl)
  exact (pools_modObj s _).trans (pools_modBuffer _ _ _)

theorem deliverBuffer_pools (tr : TransactionData) (env : TransactionEnv) (target : Target)
    (a : ℕ) (b : BinderBuffer) :
    SamePools s (deliverBuffer L rb s T t tr env target a b) := by
  have h : ∀ (o : Objects) d, SamePools s ((s.modObj fun _ => o).modBuffer (target.proc, a)
      fun b => { b with data := d }) := fun o d => (pools_modObj s _).trans (pools_modBuffer _ _ _)
  unfold deliverBuffer
  dsimp only
  split
  · exact (h _ _).trans (queueTransaction_pools _ T t target)
  · exact (h _ _).trans (undoBuffer_pools L rb _ T t env target a _ _)

theorem sendTransaction_pools (tr : TransactionData) (env : TransactionEnv) (target : Target) :
    SamePools s (sendTransaction L rb s T tr env target) := by
  have hplace : ∀ area a, SamePools s (placeBuffer
      { s with txn := s.txn.alloc (newTransaction T tr target) } tr target s.txn.next area a) := by
    intro area a
    have halloc : SamePools s { s with txn := s.txn.alloc (newTransaction T tr target) } :=
      { SamePools.refl s with }
    unfold placeBuffer
    refine SamePools.trans ?_ (pools_modObj _ _)
    refine SamePools.trans ?_ (pools_modBuffer _ _ _)
    refine SamePools.trans ?_ (pools_modTxn _ _ _)
    exact halloc.trans (pools_modProc _ _ fun _ => rfl)
  rw [sendTransaction_eq]
  refine SamePools.ite (failTransaction_pools s T _) ?_
  dsimp only
  split
  · refine SamePools.trans ?_ (failTransaction_pools _ T _)
    refine SamePools.trans ?_ (pools_modTxn _ _ _)
    refine SamePools.trans ?_ (pools_modProc _ _ fun _ => rfl)
    exact { SamePools.refl s with }
  · split
    · exact hplace _ _
    · exact (hplace _ _).trans (deliverBuffer_pools L rb _ _ _ _ _ _ _ _)

theorem binderTransaction_pools (tr : TransactionData) (reply : Bool) (env : TransactionEnv) :
    SamePools s (binderTransaction L rb s T tr reply env) := by
  have h : SamePools s (if reply then replyTarget s T else (s, callTarget s T tr)).1 := by
    cases reply
    · exact .refl s
    · exact replyTarget_pools s T
  unfold binderTransaction
  split
  · rename_i he
    rw [he] at h
    exact h.trans (failTransaction_pools _ T _)
  · rename_i he
    rw [he] at h
    exact h.trans (sendTransaction_pools L rb _ T tr env _)

theorem freeBuffer_pools (a : ℕ) (env : PageEnv) : SamePools s (freeBuffer L rb s T a env) := by
  unfold freeBuffer
  dsimp only
  split
  · exact .refl s
  · refine SamePools.ite (.refl s) ?_
    refine SamePools.trans ?_ (pools_modProc _ _ fun _ => rfl)
    refine SamePools.trans ?_ (pools_modObj _ _)
    refine SamePools.trans ?_ (.ite (pools_modObj _ _) (.refl _))
    exact detachBuffer_pools s _

theorem requestDeathNotification_pools (target cookie : ℕ) (kzalloc : Bool) :
    SamePools s (requestDeathNotification s T target cookie kzalloc) := by
  unfold requestDeathNotification
  dsimp only
  split
  · exact .refl s
  · refine SamePools.ite (.refl s) (.ite (pools_modThread s T (fun _ => rfl) fun _ => rfl) ?_)
    refine SamePools.trans ?_ (.ite (pools_modObj _ _) (.refl _))
    exact (pools_modObj s _).trans (pools_note _ rfl)

theorem clearDeathNotification_pools (target cookie : ℕ) :
    SamePools s (clearDeathNotification s T target cookie) := by
  unfold clearDeathNotification
  dsimp only
  split
  · exact .refl s
  · split
    · exact .refl s
    · refine SamePools.ite (.refl s) ?_
      refine SamePools.trans ?_ (.ite ((pools_bugOn _ _ _).trans (pools_modObj _ _)) (pools_modObj _ _))
      exact (pools_modObj s _).trans (pools_note _ rfl)

theorem deadBinderDone_pools (cookie : ℕ) : SamePools s (deadBinderDone s T cookie) := by
  unfold deadBinderDone
  dsimp only
  split
  · exact .refl s
  · refine SamePools.trans ?_ (.ite (pools_modObj _ _) (.refl _))
    exact (pools_modObj s _).trans (pools_note _ rfl)

theorem binderCommand_pools (env : CommandEnv) (c : Command) (hc : c ≠ .registerLooper) :
    SamePools s (binderCommand L rb s T env c) := by
  cases c with
  | ref c target => exact pools_modObj s fun o => refCommand o _ c target env.kzalloc
  | refDone strong ptr cookie => exact pools_modObj s fun o => refDone o _ strong ptr cookie
  | freeBuffer a => exact freeBuffer_pools L rb s T a env.free
  | transaction tr => exact binderTransaction_pools L rb s T tr false env.transaction
  | reply tr => exact binderTransaction_pools L rb s T tr true env.transaction
  | registerLooper => exact absurd rfl hc
  | enterLooper => exact pools_modThread s T (fun _ => rfl) fun _ => rfl
  | exitLooper => exact pools_modThread s T (fun _ => rfl) fun _ => rfl
  | requestDeathNotification target cookie =>
    exact requestDeathNotification_pools s T target cookie env.kzalloc
  | clearDeathNotification target cookie => exact clearDeathNotification_pools s T target cookie
  | deadBinderDone cookie => exact deadBinderDone_pools s T cookie

/-! The items of a read -/

variable (fault : ℕ → Bool)

theorem readTransaction_pools (ptr : ℕ) : SamePools s (readTransaction s T t ptr fault).1 := by
  unfold readTransaction
  dsimp only
  have h0 := pools_bugOn s (s.bufferOf t).isNone .noBuffer
  generalize s.bugOn (s.bufferOf t).isNone .noBuffer = s₀ at h0 ⊢
  generalize (s₀.bufferOf t).any (·.targetNode.isSome) = call
  split
  · exact h0
  · dsimp only
    have hnote : ∀ pid, SamePools s₀ (s₀.note (.br T (if call then .transaction t pid else .reply t))) := by
      intro pid
      refine pools_note s₀ ?_
      cases call <;> rfl
    have hallow : ∀ s' : Driver, SamePools s' ((s₀.txn.get t).buffer.elim s' fun b =>
        s'.modBuffer b fun b => { b with allowUserFree := true }) := by
      intro s'
      cases (s₀.txn.get t).buffer with
      | none => exact .refl s'
      | some b => exact pools_modBuffer s' b _
    have h1 := (h0.trans (hnote ((s₀.txn.get t).fromThread.elim 0 fun S =>
      (s₀.proc.get (s₀.thread.get S).proc).pid))).trans
        (pools_modObj _ fun o => { o with todo := o.todo.del (.transaction t) })
    refine SamePools.trans (h1.trans (hallow _)) (.ite ?_ (freeTransaction_pools _ t))
    exact (pools_modTxn _ t _).trans (pools_modThread _ T (fun _ => rfl) fun _ => rfl)

theorem readNode_pools (n ptr : ℕ) : SamePools s (readNode s T n ptr fault).1 := by
  unfold readNode
  split
  · rename_i cmd x hc
    have he : (Event.br T cmd).asksLooper = false := by
      unfold nodeCommand at hc
      dsimp only at hc
      split_ifs at hc <;> (cases hc; rfl)
    have h : SamePools s (s.modObj fun o => o.modNode n fun _ => x) := pools_modObj s _
    dsimp only
    split_ifs
    · exact h
    · exact h.trans (pools_note _ he)
  · exact pools_modObj s fun o => settleNode o _ n

theorem readDeath_pools (d ptr : ℕ) : SamePools s (readDeath s T d ptr fault).1 := by
  unfold readDeath
  split
  · exact .refl s
  · split_ifs
    · exact .refl s
    · exact (pools_note s (e := .br T (.clearDeathNotificationDone d)) rfl).trans
        (pools_modObj _ fun o => freeDeath o d)
    · exact (pools_note s (e := .br T (.deadBinder d)) rfl).trans (pools_modObj _ fun o =>
        { o with todo := o.todo.moveHead (.deliveredDeath (s.thread.get T).proc) (.death d) })

theorem readItem_pools (w : Work) (ptr : ℕ) : SamePools s (readItem s T ptr fault w).1 := by
  cases w with
  | transaction t => exact readTransaction_pools s T t fault ptr
  | transactionComplete t =>
    have h : SamePools s (readComplete s T t) :=
      (pools_note s (e := .br T (.transactionComplete t)) rfl).trans (pools_modObj _ _)
    simp only [readItem]
    split_ifs
    · exact .refl s
    · exact h
  | node n => exact readNode_pools s T fault n ptr
  | death d => exact readDeath_pools s T fault d ptr

theorem lookForWork_pools : SamePools s (lookForWork s T) := by
  unfold lookForWork
  split
  · exact .refl s
  · rename_i f hf
    split_ifs
    · exact .refl s
    · dsimp only
      refine ⟨fun _ => rfl, fun S => ?_, fun S => ?_, rfl, .refl s⟩
      · simp only [Driver.modThread, Heap.get_modify]
        split_ifs with hS
        · rw [hS, BinderThread.waits, BinderThread.waits, hf]
          rfl
        · rfl
      · simp only [Driver.modThread, Heap.get_modify]
        split_ifs with hS
        · rw [hS]
        · rfl
    · exact .refl s

end

end Binder
