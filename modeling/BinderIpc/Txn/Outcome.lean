import BinderIpc.Txn.Stacks
import Mathlib.Logic.Relation

/-! The outcome of a call, in terms of the driver's own fields. -/

namespace Binder

variable {L : Layout} {rb : RbTree ℕ} {s : Driver} {T R t u : ℕ}

/-- Whether a step is a transaction of a process to a node of its own. -/
def Action.toOwnNode (s : Driver) : Action → Bool
  | write T (.transaction tr) _ =>
    match targetNode s T tr with
    | .ok n => (s.obj.node.get n).proc = some (s.thread.get T).proc
    | .error _ => false
  | _ => false

/-- `t` is on the stack of the live thread `R` as incoming. -/
structure HeldBy (s : Driver) (R t : ℕ) : Prop where
  lt : R < s.thread.next
  live : (s.thread.get R).freed = 0
  receiver : (s.txn.get t).toThread = some R
  stack : ∃ l, StackWalk s R (s.thread.get R).transactionStack l ∧ t ∈ l

/-- `t` is queued and not delivered: for the live thread it was sent to, or for any thread of a
process that was not released. -/
inductive Undelivered (s : Driver) (t : ℕ) : Prop
  | thread {R : ℕ} (hq : s.queued (.threadTodo R) t) (lt : R < s.thread.next)
    (live : (s.thread.get R).freed = 0) (receiver : (s.txn.get t).toThread = some R)
  | proc {q : ℕ} (hq : s.queued (.procTodo q) t) (live : (s.proc.get q).released = false)
    (receiver : (s.txn.get t).toThread = none)

/-- Queued and not delivered, or held by a live thread. -/
def AtHand (s : Driver) (t : ℕ) : Prop := Undelivered s t ∨ ∃ R, HeldBy s R t

/-- The call is at hand, or it was delivered to a thread that is gone and a call made inside it is
at hand. -/
def Owed (s : Driver) (t : ℕ) : Prop :=
  AtHand s t ∨ ((∀ l, ¬s.queued l t) ∧ (s.txn.get t).toThread = none ∧
    ∃ u, Relation.TransGen (fun u t => (s.txn.get u).fromParent = some t) u t ∧ AtHand s u)

theorem routeThread_proc {q k : ℕ} {top found : Option ℕ}
    (hr : routeThread s q k top found = some R) :
    found = some R ∨ (s.thread.get R).proc = q := by
  induction k generalizing top found with
  | zero =>
    cases top <;> exact .inl hr
  | succ k ih =>
    cases top with
    | none => exact .inl hr
    | some t =>
      rcases ih hr with h | h
      · cases hfrom : (s.txn.get t).fromThread with
        | none =>
          rw [hfrom] at h
          exact .inl h
        | some S =>
          rw [hfrom] at h
          dsimp only at h
          split_ifs at h with hS
          · obtain rfl : S = R := Option.some.inj h
            exact .inr hS
          · exact .inl h
      · exact .inr h

/-- The thread that a call is routed to is one of the process that owns the target node. -/
theorem callTarget_thread {tr : TransactionData} {target : Target}
    (hok : callTarget s T tr = .ok target) (hR : target.thread = some R) :
    ∃ n, targetNode s T tr = .ok n ∧ (s.obj.node.get n).proc = some (s.thread.get R).proc := by
  unfold callTarget at hok
  cases hn : targetNode s T tr with
  | error f =>
    rw [hn] at hok
    cases hok
  | ok n =>
    rw [hn] at hok
    simp only [bind, Except.bind] at hok
    cases hq : (s.obj.node.get n).proc with
    | none =>
      rw [hq] at hok
      cases hok
    | some q =>
      rw [hq] at hok
      dsimp only at hok
      have hroute : ∃ top, target.thread = routeThread s q s.txn.next top none := by
        split_ifs at hok <;> cases hok <;> exact ⟨_, rfl⟩
      obtain ⟨top, htop⟩ := hroute
      refine ⟨n, rfl, ?_⟩
      rw [hq]
      rcases routeThread_proc (htop.symm.trans hR) with h | h
      · cases h
      · rw [h]

theorem selfRouted_of_toOwnNode {a : Action} (h : a.toOwnNode s = false) :
    a.selfRouted s = false := by
  by_contra hself
  rw [Bool.not_eq_false] at hself
  cases a with
  | write T c env =>
    cases c with
    | transaction tr =>
      simp only [Action.selfRouted, Command.selfRouted, selfRouted, Bool.and_eq_true] at hself
      cases hok : callTarget s T tr with
      | error f =>
        rw [hok] at hself
        exact absurd hself.2 Bool.false_ne_true
      | ok target =>
        rw [hok] at hself
        obtain ⟨n, hn, hproc⟩ := callTarget_thread hok (by simpa using hself.2)
        simp only [Action.toOwnNode, hn] at h
        simp [hproc] at h
    | _ => cases hself
  | _ => cases hself

/-- Every call of a chain was made, directly or not, inside the calls behind it. -/
theorem descends_of_chain {c : Calls ℕ ℕ} {l : List ℕ} (h : c.Chain (u :: l)) (ht : t ∈ l) :
    Relation.TransGen (fun u t => c.parent u = some t) u t := by
  induction l generalizing u with
  | nil => cases ht
  | cons v l ih =>
    have hparent : c.parent u = some v := h.1
    rcases List.mem_cons.1 ht with rfl | ht
    · exact .single hparent
    · exact .head hparent (ih h.tail ht)

/-- A call that is queued is queued where it will be read. -/
theorem TxnInv.undelivered (h : TxnInv L s.dead none s) (ht : (s.txn.get t).needReply = true)
    {l : ListHead} (hq : s.queued l t) : Undelivered s t := by
  have hp := h.placed l t hq
  have hhome : ∃ p, Home s p l := by
    rcases hp.buffer with ⟨b, B, -, -, -, -, hb⟩ | ⟨n, q, rfl, -⟩
    · exact ⟨b.1, hb⟩
    · rcases hp.list ht with ⟨R, hl, -⟩ | ⟨q, hl, -⟩ <;> cases hl
  obtain ⟨p, hhome⟩ := hhome
  rcases hp.list ht with ⟨R, rfl, hR⟩ | ⟨q, rfl, hR⟩
  · exact .thread hq hhome.1 hhome.2.1 hR
  · exact .proc hq hhome.2 hR

/-- A call with a receiver is queued for it, or held by it. -/
theorem TxnInv.atHand (h : TxnInv L s.dead none s) (ht : (s.txn.get t).needReply = true)
    (hR : (s.txn.get t).toThread = some R) : AtHand s t := by
  by_cases hq : (callsOf s.dead none s).queued t = true
  · obtain ⟨l, hl⟩ := callsOf_queued.1 hq
    exact .inl (h.undelivered ht hl)
  · rw [Bool.not_eq_true] at hq
    have hi : (callsOf s.dead none s).involves R t = true :=
      Calls.involves_iff.2 (.inr ⟨hq, by simpa [callsOf] using hR⟩)
    obtain ⟨hlt, hlive, hstack⟩ := h.onStack ht hi
    exact .inr ⟨R, hlt, hlive, hR, hstack⟩

theorem TxnInv.owed (h : TxnInv L s.dead none s) (ht : (s.txn.get t).needReply = true) :
    Owed s t := by
  obtain ⟨F, hF⟩ := h.forest
  obtain ⟨l, hl, htl⟩ := (hF.call_iff t).1 ht
  by_cases hat : AtHand s t
  · exact .inl hat
  · right
    have hto : (s.txn.get t).toThread = none := by
      cases hR : (s.txn.get t).toThread with
      | none => rfl
      | some R => exact absurd (h.atHand ht hR) hat
    refine ⟨fun l hq => hat (.inl (h.undelivered ht hq)), hto, ?_⟩
    -- the call at the tip of the chain is at hand
    cases l with
    | nil => cases htl
    | cons u l =>
      have hu : (s.txn.get u).needReply = true := hF.mem_call hl List.mem_cons_self
      have hatu : AtHand s u := by
        rcases hF.tip u l hl with hq | hd | hloose
        · obtain ⟨l, hl⟩ := callsOf_queued.1 hq
          exact .inl (h.undelivered hu hl)
        · obtain ⟨R, hR⟩ := Option.isSome_iff_exists.1 hd
          exact h.atHand hu hR
        · cases hloose
      rcases List.mem_cons.1 htl with rfl | htl
      · exact absurd hatu hat
      · exact ⟨u, descends_of_chain (hF.chain _ hl) htl, hatu⟩

/-- Every accepted call of a thread that is not freed has one outcome at most and is owed while it has
none; no call finds another error code. -/
theorem call_outcome (h : (driverMachine L rb).Reach (fun s a => a.toOwnNode s = false) s) :
    (∀ T t, Event.accepted T t ∈ s.history → (s.thread.get T).freed = 0 →
      s.outcomes t ≤ 1 ∧ (s.outcomes t = 0 → Owed s t)) ∧
    ∀ u, Event.errorCodeAlready u ∉ s.history := by
  have hinv : CallInv L s.dead none s :=
    callInv_reach (h.mono fun _ _ => selfRouted_of_toOwnNode)
  refine ⟨fun T t hacc hT => ?_, fun u hu => absurd (hinv.out.clean.1 _ hu) (by simp [Event.isBad])⟩
  obtain ⟨hle, hended⟩ := hinv.out.ended T t hacc
  refine ⟨hle, fun hzero => ?_⟩
  rcases hended with hcall | hone | hdead
  · exact hinv.txn.owed hcall
  · omega
  · simp [Driver.dead, hT] at hdead

/-- The call of thread 1, while it waits. -/
theorem call_outcome_client :
    (afterActions wokenClient).outcomes 0 = 0 ∧ Owed (afterActions wokenClient) 0 := by
  have hadm : (driverMachine layout32 .plain).Admits (fun s a => a.toOwnNode s = false) {}
      wokenClient := by decide +kernel
  have hnone : (afterActions wokenClient).outcomes 0 = 0 := by decide +kernel
  have hcall := (call_outcome (.exec (.start rfl) hadm)).1 1 0 (by decide +kernel) (by decide +kernel)
  exact ⟨hnone, hcall.2 hnone⟩

end Binder
