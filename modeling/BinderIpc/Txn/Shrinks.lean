import BinderIpc.Txn.Runs

/-! What every function of the driver but two leaves true of the calls: there is no
new one, and none gets another parent, sender or receiver or is put on the list of a
process. The two are the queueing of a call and its delivery. -/

namespace Binder

/-- As a call, `y` is what `x` was, but for a sender or a receiver that is gone. -/
def Narrows (x y : BinderTransaction) : Prop :=
  y.needReply = true → x.needReply = true ∧ y.fromParent = x.fromParent ∧
    (∀ R, y.fromThread = some R → x.fromThread = some R) ∧
    ∀ R, y.toThread = some R → x.toThread = some R

theorem Narrows.refl (x : BinderTransaction) : Narrows x x :=
  fun h => ⟨h, rfl, fun _ => id, fun _ => id⟩

theorem Narrows.trans {x y z : BinderTransaction} (h : Narrows x y) (h' : Narrows y z) :
    Narrows x z := fun hz => by
  obtain ⟨hy, h1, h2, h3⟩ := h' hz
  obtain ⟨hx, h4, h5, h6⟩ := h hy
  exact ⟨hx, h1.trans h4, fun R hR => h5 R (h2 R hR), fun R hR => h6 R (h3 R hR)⟩

structure Shrinks (s s' : Driver) : Prop where
  txn : ∀ t, Narrows (s.txn.get t) (s'.txn.get t)
  waiting : ∀ t q, (s'.txn.get t).needReply = true → s'.queued (.procTodo q) t →
    s.queued (.procTodo q) t
  threads : s.thread.next ≤ s'.thread.next
  owner : ∀ R < s.thread.next, (s'.thread.get R).proc = (s.thread.get R).proc
  accepted : ∀ e ∈ s'.history, e.isAccepted = true → e ∈ s.history

namespace Shrinks

variable {s s' s'' : Driver}

theorem refl (s : Driver) : Shrinks s s where
  txn _ := .refl _
  waiting _ _ _ := id
  threads := le_rfl
  owner _ _ := rfl
  accepted _ h _ := h

theorem trans (h : Shrinks s s') (h' : Shrinks s' s'') : Shrinks s s'' where
  txn t := (h.txn t).trans (h'.txn t)
  waiting t q hc hq := h.waiting t q ((h'.txn t) hc).1 (h'.waiting t q hc hq)
  threads := h.threads.trans h'.threads
  owner R hR := (h'.owner R (hR.trans_le h.threads)).trans (h.owner R hR)
  accepted e he ha := h.accepted e (h'.accepted e he ha) ha

theorem ite {c : Prop} [Decidable c] (h : Shrinks s s') (h' : Shrinks s s'') :
    Shrinks s (if c then s' else s'') := by
  split_ifs
  · exact h
  · exact h'

theorem foldl {α : Type*} {f : Driver → α → Driver} (hf : ∀ s a, Shrinks s (f s a)) (l : List α) :
    Shrinks s (l.foldl f s) := by
  induction l generalizing s with
  | nil => exact .refl s
  | cons a l ih => exact (hf s a).trans ih

/-- A transaction that is no call stays none. -/
theorem plain (h : Shrinks s s') {t : ℕ} (ht : (s.txn.get t).needReply = false) :
    (s'.txn.get t).needReply = false := by
  by_contra hc
  rw [(h.txn t (by simpa using hc)).1] at ht
  cases ht

end Shrinks

section

variable (s : Driver)

theorem shrinks_modObj {f : Objects → Objects}
    (hf : ∀ q t, (ListHead.procTodo q, Work.transaction t) ∈ (f s.obj).todo.entries →
      (ListHead.procTodo q, Work.transaction t) ∈ s.obj.todo.entries) : Shrinks s (s.modObj f) :=
  { Shrinks.refl s with waiting := fun t q _ => hf q t }

theorem shrinks_quiet {f : Objects → Objects} (hf : Quiet s.obj (f s.obj)) : Shrinks s (s.modObj f) :=
  shrinks_modObj s fun _ _ => (hf.mem_message rfl).1

theorem shrinks_bugOn (c : Bool) (b : Oops) : Shrinks s (s.bugOn c b) :=
  { Shrinks.refl s with }

theorem shrinks_note {e : Event} (he : e.isAccepted = false) : Shrinks s (s.note e) :=
  { Shrinks.refl s with
    accepted := fun e' h ha => by
      rcases List.mem_append.1 h with h | h
      · exact h
      · rw [List.mem_singleton.1 h, he] at ha
        cases ha }

theorem shrinks_modProc (p : ℕ) (f : BinderProc → BinderProc) : Shrinks s (s.modProc p f) :=
  { Shrinks.refl s with }

theorem shrinks_modBuffer (b : ℕ × ℕ) (f : BinderBuffer → BinderBuffer) :
    Shrinks s (s.modBuffer b f) := { Shrinks.refl s with }

theorem shrinks_modThread (T : ℕ) {f : BinderThread → BinderThread} (hf : ∀ y, (f y).proc = y.proc) :
    Shrinks s (s.modThread T f) :=
  { Shrinks.refl s with owner := fun R _ => s.thread.apply_get_modify T R f (·.proc) hf }

theorem shrinks_modTxn (t : ℕ) {f : BinderTransaction → BinderTransaction}
    (hf : ∀ x, Narrows x (f x)) : Shrinks s (s.modTxn t f) :=
  { txn := fun u => by
      simp only [Driver.modTxn, Heap.get_modify]
      split_ifs with hu
      · exact hu ▸ hf _
      · exact .refl _
    waiting := fun u q hc hq => hq
    threads := le_rfl
    owner := fun _ _ => rfl
    accepted := fun _ h _ => h }

theorem shrinks_allocTxn {x : BinderTransaction} (hx : x.needReply = false) :
    Shrinks s { s with txn := s.txn.alloc x } :=
  { txn := fun t => by
      by_cases ht : t = s.txn.next
      · intro hc
        rw [ht, s.txn.get_alloc_self, hx] at hc
        cases hc
      · rw [s.txn.get_alloc_ne t x ht]
        exact .refl _
    waiting := fun t q _ hq => hq
    threads := le_rfl
    owner := fun _ _ => rfl
    accepted := fun _ h _ => h }

theorem shrinks_unqueue (w : Work) : Shrinks s (unqueue s w) :=
  shrinks_modObj s fun _ _ h => (Queues.mem_del.1 h).1

end

/-! The functions -/

section

variable (L : Layout) (rb : RbTree ℕ) (s : Driver) (T t p : ℕ)

theorem forgetTransaction_shrinks (o : Option (ℕ × ℕ)) : Shrinks s (forgetTransaction s o) := by
  cases o with
  | none => exact .refl s
  | some b => exact shrinks_modBuffer s b _

theorem freeTransaction_shrinks : Shrinks s (freeTransaction s t) :=
  (forgetTransaction_shrinks s _).trans
    (shrinks_modTxn _ t fun _ h => ⟨h, rfl, fun _ => id, fun _ => id⟩)

theorem popSender_shrinks : Shrinks s (popSender s T t) := by
  unfold popSender
  refine Shrinks.trans ?_ (shrinks_modTxn _ t fun _ h => ⟨h, rfl, by simp, fun _ => id⟩)
  refine Shrinks.trans ?_ (shrinks_modThread _ T fun _ => rfl)
  exact (shrinks_bugOn s _ _).trans (shrinks_bugOn _ _ _)

theorem binderPopTransaction_shrinks (o : Option ℕ) : Shrinks s (binderPopTransaction s o t) := by
  unfold binderPopTransaction
  refine Shrinks.trans ?_ (freeTransaction_shrinks _ t)
  refine Shrinks.trans ?_ (shrinks_modTxn _ t fun _ h => absurd h Bool.false_ne_true)
  cases o with
  | none => exact .refl s
  | some T => exact popSender_shrinks s T t

theorem failSender_shrinks (e : ReturnError) : Shrinks s (failSender s T t e) := by
  unfold failSender
  have h := shrinks_modThread s T BinderThread.proc_shiftError
  refine Shrinks.ite (h.trans ?_) (h.trans (shrinks_note _ rfl))
  refine Shrinks.trans ?_ (shrinks_note _ rfl)
  exact (binderPopTransaction_shrinks _ t _).trans (shrinks_modThread _ T fun _ => rfl)

theorem failUpwards_shrinks (e : ReturnError) (k : ℕ) : Shrinks s (failUpwards e k s t) := by
  induction k generalizing s t with
  | zero => exact .refl s
  | succ k ih =>
    unfold failUpwards
    split
    · exact failSender_shrinks s _ t e
    · dsimp only
      split
      · exact binderPopTransaction_shrinks s t none
      · exact (binderPopTransaction_shrinks s t none).trans (ih _ _)

theorem binderSendFailedReply_shrinks (e : ReturnError) :
    Shrinks s (binderSendFailedReply s t e) :=
  (shrinks_bugOn s _ _).trans (failUpwards_shrinks _ t e _)

theorem releaseItem_shrinks (w : Work) : Shrinks s (releaseItem s w) := by
  cases w with
  | transaction t =>
    exact (shrinks_bugOn s _ _).trans
      (.ite (binderSendFailedReply_shrinks _ t _) (freeTransaction_shrinks _ t))
  | transactionComplete t => exact .refl s
  | node n => exact .refl s
  | death d =>
    rw [releaseItem]
    split
    · exact shrinks_quiet s (quiet_modDeath _ d _)
    · exact shrinks_quiet s (quiet_modDeath _ d _)
    · exact .refl s

theorem releaseWorkLoop_shrinks (l : ListHead) (k : ℕ) : Shrinks s (releaseWorkLoop l k s) := by
  induction k generalizing s with
  | zero => exact .refl s
  | succ k ih =>
    unfold releaseWorkLoop
    split
    · exact .refl s
    · exact ((shrinks_unqueue s _).trans (releaseItem_shrinks _ _)).trans (ih _)

theorem binderReleaseWork_shrinks (l : ListHead) : Shrinks s (binderReleaseWork s l) :=
  releaseWorkLoop_shrinks s l _

theorem leaveTransactions_shrinks (k : ℕ) (o : Option ℕ) :
    Shrinks s (leaveTransactions T k s o) := by
  induction k generalizing s o with
  | zero => cases o <;> exact .refl s
  | succ k ih =>
    cases o with
    | none => exact .refl s
    | some t =>
      unfold leaveTransactions
      refine Shrinks.ite ?_ (.ite ?_ (shrinks_bugOn s _ _))
      · refine Shrinks.trans ?_ (ih _ _)
        refine Shrinks.trans (forgetTransaction_shrinks s (s.txn.get t).buffer) ?_
        exact shrinks_modTxn _ t fun _ h => ⟨h, rfl, fun _ => id, by simp⟩
      · refine Shrinks.trans ?_ (ih _ _)
        exact shrinks_modTxn s t fun _ h => ⟨h, rfl, by simp, fun _ => id⟩

theorem binderFreeThread_shrinks : Shrinks s (binderFreeThread s T) := by
  unfold binderFreeThread
  refine Shrinks.trans ?_ (shrinks_modThread _ T fun _ => rfl)
  refine Shrinks.trans ?_ (binderReleaseWork_shrinks _ _)
  have h : Shrinks s (leaveTransactions T s.txn.next
      (s.modProc (s.thread.get T).proc fun p => { p with threads := p.threads.erase T })
      (s.thread.get T).transactionStack) :=
    (shrinks_modProc s _ _).trans (leaveTransactions_shrinks _ T _ _)
  split
  · exact h.trans (binderSendFailedReply_shrinks _ _ _)
  · exact h

theorem releaseNode_shrinks (n : ℕ) : Shrinks s (releaseNode p s n) := by
  unfold releaseNode binderNodeRelease
  refine Shrinks.trans ?_ (shrinks_modObj _ fun q t h => ?_)
  · refine Shrinks.trans ?_ (binderReleaseWork_shrinks _ _)
    refine Shrinks.trans ?_ (shrinks_unqueue _ _)
    exact (shrinks_quiet s (quiet_modOwn _ p _)).trans (shrinks_note _ rfl)
  · split_ifs at h
    · exact h
    · rwa [(notifyDeaths_quiet _ _).mem_message rfl] at h

theorem detach_shrinks (b : ℕ × ℕ) : Shrinks s
    ((s.modTxn t fun x => { x with buffer := none }).modBuffer b fun b =>
      { b with transaction := none }) := by
  refine Shrinks.trans ?_ (shrinks_modBuffer _ b _)
  exact shrinks_modTxn s t fun _ h => ⟨h, rfl, fun _ => id, fun _ => id⟩

theorem releaseBuffer_shrinks (env : ℕ → PageEnv) (a : ℕ) :
    Shrinks s (releaseBuffer L rb env p s a) := by
  unfold releaseBuffer
  refine Shrinks.trans ?_ (shrinks_modProc _ p _)
  split
  · exact detach_shrinks s _ _
  · exact .refl s

theorem binderDeferredRelease_shrinks (env : ℕ → PageEnv) :
    Shrinks s (binderDeferredRelease L rb env s p) := by
  unfold binderDeferredRelease
  refine Shrinks.trans ?_ (shrinks_modProc _ p _)
  refine Shrinks.trans ?_ (.foldl (fun s a => releaseBuffer_shrinks L rb s p env a) _)
  refine Shrinks.trans ?_ (binderReleaseWork_shrinks _ _)
  refine Shrinks.trans ?_ (binderReleaseWork_shrinks _ _)
  refine Shrinks.trans ?_ (shrinks_quiet _ (deleteRefs_quiet _ _))
  refine Shrinks.trans ?_ (.foldl (fun s n => releaseNode_shrinks s p n) _)
  refine Shrinks.trans ?_ (.foldl (fun s T => binderFreeThread_shrinks s T) _)
  refine Shrinks.trans ?_ (shrinks_modObj _ fun q t h => ?_)
  · exact (shrinks_bugOn s _ _).trans (shrinks_bugOn _ _ _)
  · split_ifs at h <;> exact h

theorem binderDeferredFunc_shrinks (env : ℕ → PageEnv) :
    Shrinks s (binderDeferredFunc L rb env s p) := by
  have hflush : ∀ s : Driver, Shrinks s (binderDeferredFlush s p) := fun s => by
    refine Shrinks.foldl (fun s T => ?_) _
    exact shrinks_modThread s T fun _ => rfl
  have hbefore : Shrinks s (beforeRelease s p) := by
    unfold beforeRelease
    refine Shrinks.trans ?_ (.ite (hflush _) (.refl _))
    refine Shrinks.trans ?_ (.ite (shrinks_quiet _ (quiet_modOwn _ p _)) (.refl _))
    exact shrinks_modProc s p _
  rw [binderDeferredFunc_eq]
  exact .ite (hbefore.trans (binderDeferredRelease_shrinks L rb _ p env)) hbefore

theorem failTransaction_shrinks (f : Failure) : Shrinks s (failTransaction s T f) := by
  unfold failTransaction
  refine Shrinks.trans (shrinks_bugOn s (decide ((s.thread.get T).returnError ≠ .ok)) .returnErrorSet) ?_
  dsimp only
  split
  · refine Shrinks.trans ?_ (binderSendFailedReply_shrinks _ _ _)
    exact shrinks_modThread _ T fun _ => rfl
  · exact shrinks_modThread _ T fun _ => rfl

theorem replyTarget_shrinks : Shrinks s (replyTarget s T).1 := by
  unfold replyTarget
  split
  · exact .refl s
  · rename_i t _
    dsimp only
    split_ifs
    · exact .refl s
    · have h := shrinks_modThread s T (f := fun y => { y with
        transactionStack := (s.txn.get t).toParent }) fun _ => rfl
      split
      · exact h
      · split_ifs
        · exact h.trans (shrinks_note _ rfl)
        · exact h

/-- What is queued is no call. -/
theorem enqueue_shrinks (l : ListHead) (ht : (s.txn.get t).needReply = false) :
    Shrinks s (enqueue s T t l) :=
  { Shrinks.refl s with
    waiting := fun u q hc hq => by
      rcases queued_enqueue.1 hq with hq | ⟨-, rfl⟩
      · exact hq
      · rw [show (enqueue s T u l).txn = s.txn from rfl, ht] at hc
        cases hc }

theorem queueTransaction_shrinks (target : Target) (ht : (s.txn.get t).needReply = false)
    (hcall : target.inReplyTo = none → (s.txn.get t).flags.oneWay = true) :
    Shrinks s (queueTransaction s T t target) := by
  unfold queueTransaction
  dsimp only
  split
  · rename_i u _
    dsimp only
    have h : Shrinks s ((binderPopTransaction (s.bugOn ((s.bufferOf t).any (·.asyncTransaction))
        .asyncBuffer) target.thread u).note (.replied u t)) := by
      refine Shrinks.trans ?_ (shrinks_note _ rfl)
      exact (shrinks_bugOn s _ _).trans (binderPopTransaction_shrinks _ _ _)
    exact h.trans (enqueue_shrinks _ T t _ (h.plain ht))
  · rename_i hn
    rw [hcall hn]
    have h := (shrinks_bugOn s target.node.isNone .targetNode).trans
      (shrinks_bugOn _ (!(s.bufferOf t).any (·.asyncTransaction)) .asyncBuffer)
    simp only [Bool.not_true, Bool.false_eq_true, if_false]
    split
    · exact h.trans (enqueue_shrinks _ T t _ ht)
    · rename_i n _
      split_ifs
      · exact h.trans (enqueue_shrinks _ T t _ ht)
      · have hbusy := fun s : Driver => shrinks_modObj s (f := fun o => o.modNode n fun x =>
          { x with hasAsyncTransaction := true }) fun _ _ => id
        exact (h.trans (hbusy _)).trans (enqueue_shrinks _ T t _ ht)

theorem placeBuffer_shrinks (tr : TransactionData) (target : Target) (area : BinderArea) (a : ℕ) :
    Shrinks s (placeBuffer s tr target t area a) := by
  unfold placeBuffer
  refine Shrinks.trans ?_ (shrinks_quiet _ ?_)
  · refine Shrinks.trans ?_ (shrinks_modBuffer _ _ _)
    refine Shrinks.trans ?_ (shrinks_modTxn _ _ fun _ h => ⟨h, rfl, fun _ => id, fun _ => id⟩)
    exact shrinks_modProc _ _ _
  · cases target.node with
    | none => exact .refl _
    | some n => exact binderIncNode_quiet _ _ _ _ _

theorem undoBuffer_shrinks (env : TransactionEnv) (target : Target) (a : ℕ) (b : BinderBuffer)
    (k : ℕ) : Shrinks s (undoBuffer L rb s T t env target a b k) := by
  unfold undoBuffer
  refine Shrinks.trans ?_ (failTransaction_shrinks _ T _)
  refine Shrinks.trans ?_ (shrinks_modTxn _ _ fun _ h => ⟨h, rfl, fun _ => id, fun _ => id⟩)
  refine Shrinks.trans ?_ (shrinks_modProc _ _ _)
  refine Shrinks.trans ?_ (shrinks_modBuffer _ _ _)
  exact shrinks_quiet s (bufferRelease_quiet _ _ _ _ _)

/-- A transaction is undone on the way, or it is queued in a state that was got ready for it. -/
theorem sendTransaction_cases (tr : TransactionData) (env : TransactionEnv) (target : Target) :
    Shrinks s (sendTransaction L rb s T tr env target) ∨
      ∃ s' a, Shrinks s s' ∧ Kept s s' ∧ s'.history = s.history ∧
        s'.txn.get s.txn.next = { newTransaction T tr target with buffer := some (target.proc, a) } ∧
        sendTransaction L rb s T tr env target = queueTransaction s' T s.txn.next target := by
  rw [sendTransaction_eq]
  dsimp only
  split_ifs
  · exact Or.inl (failTransaction_shrinks s T _)
  set s₁ : Driver := { s with txn := s.txn.alloc (newTransaction T tr target) }
  have h₁ : Shrinks s s₁ := shrinks_allocTxn s rfl
  have hk₁ : Kept s s₁ := (Kept.refl s).alloc _
  have hget : s₁.txn.get s.txn.next = newTransaction T tr target := s.txn.get_alloc_self _
  split
  · refine Or.inl (h₁.trans ?_)
    refine Shrinks.trans ?_ (failTransaction_shrinks _ T _)
    refine Shrinks.trans ?_ (shrinks_modTxn _ _ fun _ h => ⟨h, rfl, fun _ => id, fun _ => id⟩)
    exact shrinks_modProc _ _ _
  · rename_i a _
    set area := (binderAllocBuf L rb (s.proc.get target.proc).area env.alloc tr.dataSize
      tr.offsetsSize (!target.inReplyTo.isSome && tr.flags.oneWay)).1
    have h₂ := h₁.trans (placeBuffer_shrinks s₁ s.txn.next tr target area a)
    have hplace : placeBuffer s₁ tr target s.txn.next area a =
        (fillFor s₁ tr target s.txn.next area a).modObj fun o =>
          target.node.elim o fun n => (binderIncNode o n true false none).1 := rfl
    have hquiet : Quiet (fillFor s₁ tr target s.txn.next area a).obj
        (target.node.elim (fillFor s₁ tr target s.txn.next area a).obj fun n =>
          (binderIncNode (fillFor s₁ tr target s.txn.next area a).obj n true false none).1) := by
      cases target.node with
      | none => exact .refl _
      | some n => exact binderIncNode_quiet _ _ _ _ _
    have hk₂ : Kept s (placeBuffer s₁ tr target s.txn.next area a) := by
      rw [hplace]
      exact (((hk₁.modProc _).modTxn le_rfl _).modBuffer _).quiet hquiet
    have hget₂ : (placeBuffer s₁ tr target s.txn.next area a).txn.get s.txn.next =
        { newTransaction T tr target with buffer := some (target.proc, a) } := by
      rw [← hget]
      exact s₁.txn.get_modify_self s.txn.next fun x => { x with buffer := some (target.proc, a) }
    set s₂ := placeBuffer s₁ tr target s.txn.next area a
    split
    · exact Or.inl h₂
    · rename_i b _
      unfold deliverBuffer
      dsimp only
      have hr := translateBuffer_quiet L s₂.obj (transferOf s₂ T target) env tr b
      set r := translateBuffer L s₂.obj (transferOf s₂ T target) env tr b
      have h₃ := (h₂.trans (shrinks_quiet s₂ (f := fun _ => r.1) hr)).trans
        (shrinks_modBuffer _ (target.proc, a) fun b => { b with data := r.2.1 })
      split
      · exact Or.inr ⟨_, a, h₃, (hk₂.quiet hr).modBuffer _, rfl, hget₂, rfl⟩
      · exact Or.inl (h₃.trans (undoBuffer_shrinks L rb _ T s.txn.next env target a _ _))

theorem freeBuffer_shrinks (a : ℕ) (env : PageEnv) : Shrinks s (freeBuffer L rb s T a env) := by
  have hnext : ∀ (s : Driver) (node : Option ℕ),
      Shrinks s (s.modObj fun o => node.elim o (nextAsync o T)) := fun s node => by
    refine shrinks_modObj s fun q t h => ?_
    cases node with
    | none => exact h
    | some n =>
      simp only [Option.elim_some, nextAsync] at h
      split at h
      · exact h
      · rcases Queues.mem_moveTail.1 h with ⟨h, -⟩ | ⟨hl, -⟩
        · exact h
        · cases hl
  unfold freeBuffer
  dsimp only
  split
  · exact .refl s
  · refine Shrinks.ite (.refl s) ?_
    refine Shrinks.trans ?_ (shrinks_modProc _ _ _)
    refine Shrinks.trans ?_ (shrinks_quiet _ (bufferRelease_quiet _ _ _ _ _))
    refine Shrinks.trans ?_ (.ite (hnext _ _) (.refl _))
    unfold detachBuffer
    split
    · exact detach_shrinks s _ _
    · exact .refl s

theorem queueDeath_shrinks (l : ListHead) (d : ℕ) (f : BinderRefDeath → BinderRefDeath) :
    Shrinks s (s.modObj fun o => { o.modDeath d f with
      todo := (o.modDeath d f).todo.addTail l (.death d) }) := by
  refine shrinks_modObj s fun q t h => ?_
  rcases Queues.mem_addTail.1 h with h | ⟨-, hw⟩
  · exact h
  · cases hw

theorem requestDeathNotification_shrinks (target cookie : ℕ) (kzalloc : Bool) :
    Shrinks s (requestDeathNotification s T target cookie kzalloc) := by
  unfold requestDeathNotification
  dsimp only
  split
  · exact .refl s
  · refine Shrinks.ite (.refl s) (.ite (shrinks_modThread s T fun _ => rfl) ?_)
    refine Shrinks.trans ?_ (.ite (queueDeath_shrinks _ _ _ _) (.refl _))
    exact (shrinks_modObj s fun _ _ h => h).trans (shrinks_note _ rfl)

theorem clearDeathNotification_shrinks (target cookie : ℕ) :
    Shrinks s (clearDeathNotification s T target cookie) := by
  unfold clearDeathNotification
  dsimp only
  split
  · exact .refl s
  · split
    · exact .refl s
    · refine Shrinks.ite (.refl s) ?_
      refine Shrinks.trans ?_ (.ite ?_ (queueDeath_shrinks _ _ _ _))
      · exact (shrinks_modObj s fun _ _ h => h).trans (shrinks_note _ rfl)
      · exact (shrinks_bugOn _ _ _).trans (shrinks_modObj _ fun _ _ h => h)

theorem deadBinderDone_shrinks (cookie : ℕ) : Shrinks s (deadBinderDone s T cookie) := by
  unfold deadBinderDone
  dsimp only
  split
  · exact .refl s
  · refine Shrinks.trans ?_ (.ite (queueDeath_shrinks _ _ _ _) (.refl _))
    exact (shrinks_unqueue s _).trans (shrinks_note _ rfl)

theorem registerLooper_shrinks : Shrinks s (registerLooper s T) := by
  unfold registerLooper
  refine Shrinks.trans ?_ (shrinks_modThread _ T fun _ => rfl)
  refine Shrinks.ite (shrinks_modThread s T fun _ => rfl) ?_
  exact .ite (shrinks_modThread s T fun _ => rfl) (shrinks_modProc s _ _)

theorem replyTarget_replies {s s' : Driver} {T : ℕ} {target : Target}
    (h : replyTarget s T = (s', .ok target)) : target.inReplyTo.isSome = true := by
  unfold replyTarget at h
  split at h
  · cases h
  · dsimp only at h
    split_ifs at h
    · cases h
    · split at h
      · cases h
      · split_ifs at h <;> cases h
        rfl

/-- The commands other than a synchronous call. -/
theorem binderCommand_shrinks (env : CommandEnv) (c : Command)
    (hc : ∀ tr, c = .transaction tr → tr.flags.oneWay = true) :
    Shrinks s (binderCommand L rb s T env c) := by
  have hsend : ∀ s tr target, (target.inReplyTo = none → tr.flags.oneWay = true) →
      Shrinks s (sendTransaction L rb s T tr env.transaction target) := fun s tr target h => by
    rcases sendTransaction_cases L rb s T tr env.transaction target with h1 | ⟨s', a, h1, -, -, hx, he⟩
    · exact h1
    · rw [he]
      refine h1.trans (queueTransaction_shrinks s' T _ target ?_ fun hn => ?_)
      · rw [hx]
        rfl
      · rw [hx]
        exact h hn
  cases c with
  | ref c target =>
    exact shrinks_quiet s (f := fun o => refCommand o (s.thread.get T).proc c target env.kzalloc)
      (refCommand_quiet _ _ c target env.kzalloc)
  | refDone strong ptr cookie =>
    exact shrinks_quiet s (f := fun o => refDone o (s.thread.get T).proc strong ptr cookie)
      (refDone_quiet _ _ _ _ _)
  | freeBuffer a => exact freeBuffer_shrinks L rb s T a env.free
  | transaction tr =>
    simp only [binderCommand, binderTransaction, Bool.false_eq_true, if_false]
    cases callTarget s T tr with
    | error f => exact failTransaction_shrinks s T f
    | ok target => exact hsend s tr target fun _ => hc tr rfl
  | reply tr =>
    have h := replyTarget_shrinks s T
    simp only [binderCommand, binderTransaction, if_true]
    cases hr : replyTarget s T with
    | mk s' r =>
      rw [hr] at h
      cases r with
      | error f => exact h.trans (failTransaction_shrinks s' T f)
      | ok target =>
        refine h.trans (hsend s' tr target fun hn => ?_)
        have hreply := replyTarget_replies hr
        rw [hn] at hreply
        cases hreply
  | registerLooper => exact registerLooper_shrinks s T
  | enterLooper => exact shrinks_modThread s T fun _ => rfl
  | exitLooper => exact shrinks_modThread s T fun _ => rfl
  | requestDeathNotification target cookie =>
    exact requestDeathNotification_shrinks s T target cookie env.kzalloc
  | clearDeathNotification target cookie => exact clearDeathNotification_shrinks s T target cookie
  | deadBinderDone cookie => exact deadBinderDone_shrinks s T cookie

/-! Reading -/

variable (fault : ℕ → Bool)

theorem readDone_shrinks (ptr : ℕ) : Shrinks s (readDone s T ptr fault) := by
  unfold readDone
  dsimp only
  refine Shrinks.ite (.ite (shrinks_modProc s _ _) ?_) (shrinks_note s rfl)
  exact ((shrinks_modProc s _ _).trans (shrinks_note _ rfl)).trans (shrinks_note _ rfl)

theorem reportErrors_shrinks (size ptr : ℕ) : Shrinks s (reportErrors s T size ptr fault) := by
  have hreport : ∀ (s : Driver) (e : ReturnError) (ptr : ℕ), Shrinks s
      (if fault ptr then s
        else readDone ((s.note (.br T (.returnError e))).modThread T fun y =>
          { y with returnError := .ok }) T (ptr + 4) fault) := fun s e ptr => by
    refine Shrinks.ite (.refl s) ?_
    refine Shrinks.trans ?_ (readDone_shrinks _ T fault _)
    exact (shrinks_note s rfl).trans (shrinks_modThread _ T fun _ => rfl)
  unfold reportErrors
  refine Shrinks.ite (hreport _ _ _) (.ite (.refl s) ?_)
  refine Shrinks.trans (shrinks_note s (e := .br T (.returnError (s.thread.get T).returnError2)) rfl) ?_
  refine Shrinks.ite (readDone_shrinks _ T fault _) ?_
  refine Shrinks.trans ?_ (hreport _ _ _)
  exact shrinks_modThread _ T fun _ => rfl

theorem waitForWork_shrinks (size ptr : ℕ) (nonBlock : Bool) :
    Shrinks s (waitForWork s T size ptr nonBlock fault) := by
  unfold waitForWork
  refine Shrinks.ite (reportErrors_shrinks s T fault size ptr) ?_
  refine Shrinks.trans ?_ (shrinks_modThread _ T fun _ => rfl)
  exact .ite (shrinks_modProc s _ _) (.refl s)

theorem stopWaiting_shrinks (f : ReadFrame) : Shrinks s (stopWaiting s T f) := by
  unfold stopWaiting
  refine Shrinks.trans ?_ (shrinks_modThread _ T fun _ => rfl)
  exact .ite (shrinks_modProc s _ _) (.refl s)

/-- Reading anything but a transaction. -/
theorem readItem_shrinks {w : Work} (ptr : ℕ) (hw : ∀ t, w ≠ .transaction t) :
    Shrinks s (readItem s T ptr fault w).1 := by
  cases w with
  | transaction t => exact absurd rfl (hw t)
  | transactionComplete t =>
    have h : Shrinks s (readComplete s T t) := (shrinks_note s rfl).trans (shrinks_unqueue _ _)
    simp only [readItem]
    split_ifs
    · exact .refl s
    · exact h
  | node n =>
    simp only [readItem, readNode]
    split
    · have h := fun x => shrinks_modObj s (f := fun o => o.modNode n fun _ => x) fun _ _ => id
      split_ifs
      · exact h _
      · exact (h _).trans (shrinks_note _ rfl)
    · exact shrinks_quiet s (f := fun o => settleNode o (s.thread.get T).proc n)
        (settleNode_quiet _ _ _)
  | death d =>
    simp only [readItem, readDeath]
    split
    · exact .refl s
    · split_ifs
      · exact .refl s
      · exact (shrinks_note s rfl).trans
          (shrinks_quiet _ (f := fun o => freeDeath o d) (freeDeath_quiet _ d))
      · exact (shrinks_note s rfl).trans (shrinks_quiet _ (f := fun o => { o with
          todo := o.todo.moveHead (.deliveredDeath (s.thread.get T).proc) (.death d) })
            (quiet_todo _ (messages_moveHead _ _ rfl)))

end

end Binder
