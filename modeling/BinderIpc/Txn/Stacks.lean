import BinderIpc.Txn.Runs
import BinderIpc.Wire.ReadFraming

/-! The transaction stacks of the threads, in terms of the driver's own fields. -/

namespace Binder

variable {L : Layout} {rb : RbTree ℕ} {s : Driver} {T t : ℕ}

/-- The walk down `transaction_stack`: `to_parent` at a transaction given to `T`, `from_parent` at
one that `T` sent. -/
inductive StackWalk (s : Driver) (T : ℕ) : Option ℕ → List ℕ → Prop
  | stop : StackWalk s T none []
  | incoming {t : ℕ} {l : List ℕ} (hto : (s.txn.get t).toThread = some T)
    (h : StackWalk s T (s.txn.get t).toParent l) : StackWalk s T (some t) (t :: l)
  | outgoing {t : ℕ} {l : List ℕ} (hto : (s.txn.get t).toThread ≠ some T)
    (hfrom : (s.txn.get t).fromThread = some T)
    (h : StackWalk s T (s.txn.get t).fromParent l) : StackWalk s T (some t) (t :: l)

theorem stackWalk_of_walk {gone : ℕ → Bool} {o : Option ℕ} {l : List ℕ}
    (h : (callsOf gone none s).Walk T o l) : StackWalk s T o l := by
  induction h with
  | stop => exact .stop
  | incoming hd _ ih => exact .incoming hd ih
  | outgoing hd hs _ ih => exact .outgoing hd hs ih

/-- A call that a thread made, or was given, is on the stack of that thread, which is alive. -/
theorem TxnInv.onStack (h : TxnInv L s.dead none s) (ht : (s.txn.get t).needReply = true)
    (hi : (callsOf s.dead none s).involves T t = true) :
    T < s.thread.next ∧ (s.thread.get T).freed = 0 ∧
      ∃ l, StackWalk s T (s.thread.get T).transactionStack l ∧ t ∈ l := by
  obtain ⟨F, hF⟩ := h.forest
  -- a thread that is gone takes part in no call
  have hlive : s.dead T = false := by
    by_contra hdead
    have htop : (callsOf s.dead none s).top T = none := by simp [callsOf, hdead]
    rw [hF.involves_none htop ht] at hi
    cases hi
  have htop : (callsOf s.dead none s).top T = (s.thread.get T).transactionStack := by
    simp [callsOf, hlive]
  obtain ⟨l, hwalk, -, hmem⟩ := hF.walk T
  have htl : t ∈ l := (hmem t).2 ⟨ht, hi⟩
  rw [htop] at hwalk
  refine ⟨h.stack_lt T fun hnone => ?_, by simpa [Driver.dead] using hlive, l,
    stackWalk_of_walk hwalk, htl⟩
  rw [hnone] at hwalk
  cases hwalk
  cases htl

/-- The stacks fit the synchronous transactions, and no assertion about them failed. -/
structure Coherent (s : Driver) : Prop where
  walk : ∀ T < s.thread.next, (s.thread.get T).freed = 0 →
    ∃ l, StackWalk s T (s.thread.get T).transactionStack l ∧
      ∀ t ∈ l, t < s.txn.next ∧ (s.txn.get t).freed = 0
  sender : ∀ t T, (s.txn.get t).needReply = true → (s.txn.get t).fromThread = some T →
    ∃ l, StackWalk s T (s.thread.get T).transactionStack l ∧ t ∈ l
  receiver : ∀ t S, (s.txn.get t).needReply = true → (∀ l, ¬s.queued l t) →
    (s.txn.get t).toThread = some S →
      ∃ l, StackWalk s S (s.thread.get S).transactionStack l ∧ t ∈ l
  bugs : ∀ b ∈ s.obj.oops, b ≠ .popNotTop ∧ b ≠ .popNotSender ∧ b ≠ .freeThreadStack
  replies : ∀ t, Event.badTargetStack t ∉ s.history

/-- In every run in which no call is sent to the thread that makes it the stacks are coherent. -/
theorem stacks_coherent (h : (driverMachine L rb).Reach (fun s a => a.selfRouted s = false) s) :
    Coherent s := by
  have hinv : CallInv L s.dead none s := callInv_reach h
  obtain ⟨F, hF⟩ := hinv.txn.forest
  refine ⟨fun T _ hlive => ?_, fun t T ht hfrom => ?_, fun t S ht hq hto => ?_, fun b hb => ?_,
    fun t ht => ?_⟩
  · have htop : (callsOf s.dead none s).top T = (s.thread.get T).transactionStack := by
      simp [callsOf, Driver.dead, hlive]
    obtain ⟨l, hwalk, -, hmem⟩ := hF.walk T
    rw [htop] at hwalk
    exact ⟨l, stackWalk_of_walk hwalk, fun t htl => hinv.txn.call_live t ((hmem t).1 htl).1⟩
  · exact (hinv.txn.onStack ht (Calls.involves_iff.2 (.inl hfrom))).2.2
  · have hnot : (callsOf s.dead none s).queued t = false := callsOf_unqueued.2 hq
    exact (hinv.txn.onStack ht (Calls.involves_iff.2 (.inr ⟨hnot, by simpa [callsOf] using hto⟩))).2.2
  · have hclean := hinv.out.clean.2 b hb
    refine ⟨?_, ?_, ?_⟩
    all_goals
      rintro rfl
      cases hclean
  · exact absurd (hinv.out.clean.1 _ ht) (by simp [Event.isBad])

/-- The call of thread 1, while it waits. -/
theorem stacks_coherent_client : Coherent (afterActions wokenClient) := by
  have hadm : (driverMachine layout32 .plain).Admits (fun s a => a.selfRouted s = false) {}
      wokenClient := by decide +kernel
  exact stacks_coherent (.exec (.start rfl) hadm)

/-- Two threads of the context manager call its own node in turn, each inside the call of the other;
the third call goes to the thread that makes it. -/
def callingItself : List Action :=
  [.openProc 50, .getThread 0 50, .getThread 0 51, .setContextMgr 0 1000 true,
    .mmap 0 0x10000 0x8000 {}, .write 0 (.transaction {}) {},
    .read 1 256 0 false fun _ => false, .lookForWork 1, .resume 1 fun _ => false,
    .write 1 (.transaction {}) {},
    .read 0 256 0 false fun _ => false, .lookForWork 0, .resume 0 fun _ => false,
    .write 0 (.transaction {}) {}]

/-- The walk of thread 0 stops at transaction 2, which is queued for the thread itself, and does not
get to the two below it. -/
theorem stacks_cut_short :
    ¬∀ s, (driverMachine layout32 .plain).Reach (fun _ _ => True) s → Coherent s := by
  intro hall
  have htop : ((afterActions callingItself).thread.get 0).transactionStack = some 2 := by
    decide +kernel
  have hto : ((afterActions callingItself).txn.get 2).toThread = some 0 := by decide +kernel
  have hparent : ((afterActions callingItself).txn.get 2).toParent = none := by decide +kernel
  obtain ⟨l, hwalk, hmem⟩ := (hall _ (reach_afterActions callingItself)).sender 0 0
    (by decide +kernel) (by decide +kernel)
  rw [htop] at hwalk
  cases hwalk with
  | incoming _ hrest =>
    rw [hparent] at hrest
    cases hrest
    simp at hmem
  | outgoing hne => exact hne hto

/-- When thread 0 exits then, transaction 2 is freed as a failed call and again as work of the thread. -/
example : ((afterActions (callingItself ++ [.threadExit 0])).txn.get 2).freed = 2 := by
  decide +kernel

end Binder
