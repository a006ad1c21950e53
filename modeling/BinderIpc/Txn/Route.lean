import BinderIpc.Txn.Receive

/-! The first part of `binder_transaction`: what is known of the target of a call and
of the target of a reply, and the error exits. -/

namespace Binder

variable {L : Layout} {rb : RbTree ℕ} {gone : ℕ → Bool} {loose : Option ℕ} {s s' : Driver}
  {t T p q a : ℕ} {l : ListHead} {tr : TransactionData} {target : Target}

/-- What an error exit ends: nothing, or the call that it is the reply to. -/
def Pops (s : Driver) (loose : Option ℕ) : Prop :=
  ∀ u, loose = some u → (s.txn.get u).needReply = true ∧ ∀ l, ¬s.queued l u

theorem CallInv.failTransaction {f : Failure} (h : CallInv L gone f.inReplyTo s)
    (hpops : Pops s f.inReplyTo) (hcode : f.code ≠ .ok) :
    CallInv L gone none (failTransaction s T f) := by
  have hbug : CallInv L gone f.inReplyTo
      (s.bugOn ((s.thread.get T).returnError ≠ .ok) .returnErrorSet) :=
    h.same (same_bugOn _ _) (fun _ => rfl) (fun _ => rfl) (sameOutcomes_bugOn fun _ => rfl)
  have hset : ∀ code : ReturnError, code ≠ .ok →
      Harmless fun y : BinderThread => { y with returnError := code } := fun code hc =>
    ⟨fun _ => rfl, fun _ => rfl, fun _ => rfl, fun _ _ => Or.inl, fun _ he => ⟨he, fun _ => hc⟩⟩
  unfold Binder.failTransaction
  dsimp only
  split
  · rename_i u hu
    rw [hu] at hbug hpops
    obtain ⟨h1, h2⟩ := hpops u rfl
    exact (hbug.modThread (hset _ (by simp))).sendFailedReply hcode h1 h2
  · rename_i hu
    rw [hu] at hbug
    exact hbug.modThread (hset _ hcode)

/-- The call that `T` works on is taken off its stack. -/
theorem CallInv.takeBack (h : CallInv L gone none s) (hg : gone T = false)
    (hok : (s.thread.get T).returnError2 = .ok) (hT : T < s.thread.next)
    (hawake : (s.thread.get T).asleep = none)
    (ht : (s.thread.get T).transactionStack = some t) (hto : (s.txn.get t).toThread = some T) :
    CallInv L gone (some t)
      (s.modThread T fun y => { y with transactionStack := (s.txn.get t).toParent }) := by
  obtain ⟨hcall, hnot⟩ := h.txn.held hg ht hto
  obtain ⟨F, hF⟩ := h.txn.forest
  have htop : (callsOf gone none s).top T = some t := by simp [callsOf, hg, ht]
  have hd : (callsOf gone none s).dst t = some T := by simpa [callsOf] using hto
  obtain ⟨post, hl, -⟩ := hF.tip_of_top htop hd
  have hq : (callsOf gone none s).queued t = false := callsOf_unqueued.2 hnot
  have hstack : ∀ S, ((s.modThread T fun y => { y with
      transactionStack := (s.txn.get t).toParent }).thread.get S).transactionStack =
        if S = T then (s.txn.get t).toParent else (s.thread.get S).transactionStack := fun S => by
    simp only [Driver.modThread, Heap.get_modify]
    split_ifs <;> rfl
  have hdet : Calls.Detached (callsOf gone none s) (callsOf gone (some t) (s.modThread T fun y =>
      { y with transactionStack := (s.txn.get t).toParent })) t := by
    refine ⟨fun _ => .rfl, fun u _ hut => ⟨rfl, by simp [callsOf, Ne.symm hut, Driver.modThread], rfl,
      rfl, rfl⟩, rfl, by simp [callsOf], rfl, hq, fun S => ?_⟩
    rw [hq, hd]
    simp only [callsOf, hstack]
    by_cases hS : S = T
    · simp [hS, hg]
    · simp [hS, Ne.symm hS]
  refine ⟨(h.txn.link.setStack hT hawake _).txnInv ⟨F, hF.detach hdet hl⟩, ?_,
    h.out.same' (.of_eq rfl rfl) rfl⟩
  have hkeep : ∀ {β : Type} (g : BinderThread → β),
      (∀ y o, g { y with transactionStack := o } = g y) → ∀ S, g ((s.modThread T fun y =>
        { y with transactionStack := (s.txn.get t).toParent }).thread.get S) = g (s.thread.get S) :=
    fun g hg S => s.thread.apply_get_modify T S
      (fun y => { y with transactionStack := (s.txn.get t).toParent }) g fun y => hg y _
  refine h.err.mono (fun _ => id) (fun S _ he => ?_) fun S u _ he hu hsu => ?_
  · rw [hkeep (·.returnError2) fun _ _ => rfl] at he
    rw [hkeep (·.returnError) fun _ _ => rfl]
    exact ⟨he, id⟩
  · rw [hkeep (·.returnError2) fun _ _ => rfl] at he
    rw [hstack] at hu
    split_ifs at hu with hST
    · exact absurd hok (hST ▸ he)
    · exact ⟨hu, hsu⟩

/-- What a reply leaves of the call that it is the reply to. -/
structure ReplyTo (s : Driver) (t S : ℕ) (target : Target) : Prop where
  target_eq : target = { inReplyTo := some t, proc := (s.thread.get S).proc, thread := some S }
  sender : (s.txn.get t).fromThread = some S
  lt : S < s.thread.next
  freed : (s.thread.get S).freed = 0

theorem CallInv.replyTarget (h : CallInv L s.dead none s) (hT : T < s.thread.next)
    (hf : (s.thread.get T).freed = 0) (hok : (s.thread.get T).returnError = .ok)
    (hawake : (s.thread.get T).asleep = none) :
    (∃ f : Failure, Binder.replyTarget s T = (s, .error f) ∧ f.inReplyTo = none ∧ f.code ≠ .ok) ∨
    ∃ t s', (s' = s.modThread T fun y =>
        { y with transactionStack := (s.txn.get t).toParent }) ∧
      CallInv L s'.dead (some t) s' ∧ Pops s' (some t) ∧
      ((∃ f : Failure, Binder.replyTarget s T = (s', .error f) ∧ f.inReplyTo = some t ∧
        f.code ≠ .ok) ∨
      ∃ S target, Binder.replyTarget s T = (s', .ok target) ∧ ReplyTo s' t S target) := by
  have hg : s.dead T = false := by simp [Driver.dead, hf]
  have hok2 : (s.thread.get T).returnError2 = .ok := by
    by_contra he
    exact h.err.first T hg he hok
  unfold Binder.replyTarget
  cases ht : (s.thread.get T).transactionStack with
  | none => exact Or.inl ⟨_, rfl, rfl, by simp⟩
  | some t =>
    dsimp only
    by_cases hto : (s.txn.get t).toThread = some T
    swap
    · rw [if_pos hto]
      exact Or.inl ⟨_, rfl, rfl, by simp⟩
    rw [if_neg (by simpa using hto)]
    obtain ⟨hcall, hnot⟩ := h.txn.held hg ht hto
    have hback := h.takeBack hg hok2 hT hawake ht hto
    set s' := s.modThread T fun y => { y with transactionStack := (s.txn.get t).toParent } with hs'
    have hfreed : ∀ S, (s'.thread.get S).freed = (s.thread.get S).freed := fun S =>
      s.thread.apply_get_modify T S (fun y => { y with transactionStack := (s.txn.get t).toParent })
        (·.freed) fun _ => rfl
    have hdead : s'.dead = s.dead := by
      funext S
      rw [Driver.dead, hfreed, Driver.dead]
    refine Or.inr ⟨t, s', hs', hdead ▸ hback, fun u hu => ?_, ?_⟩
    · cases hu
      exact ⟨hcall, hnot⟩
    cases hs : (s.txn.get t).fromThread with
    | none => exact Or.inl ⟨_, rfl, rfl, by simp⟩
    | some S =>
      obtain ⟨hgS, hst⟩ := hback.txn.sender (t := t) (T := S) hs
      dsimp only
      rw [if_neg (by simp [hst])]
      refine Or.inr ⟨S, _, rfl, ⟨rfl, hs, ?_, ?_⟩⟩
      · exact hback.txn.stack_lt S (by simp [hst])
      · rw [hfreed]
        simpa [Driver.dead] using hgS

/-! The thread that a call is sent to -/

/-- The thread that is chosen made a call in the chain, and is one of the process. -/
theorem routeThread_spec {k : ℕ} {o found : Option ℕ} {R : ℕ}
    (h : routeThread s q k o found = some R) : found = some R ∨
      ∃ j u, (fun o : Option ℕ => o.bind fun t => (s.txn.get t).fromParent)^[j] o = some u ∧
        (s.txn.get u).fromThread = some R ∧ (s.thread.get R).proc = q := by
  induction k generalizing o found with
  | zero => cases o <;> exact Or.inl h
  | succ k ih =>
    cases o with
    | none => exact Or.inl h
    | some t =>
      rw [routeThread] at h
      rcases ih h with hf | ⟨j, u, hj, hu, hp⟩
      · split at hf
        · rename_i S hS
          split_ifs at hf with hp
          · cases hf
            exact Or.inr ⟨0, t, rfl, hS, hp⟩
          · exact Or.inl hf
        · exact Or.inl hf
      · exact Or.inr ⟨j + 1, u, hj, hu, hp⟩

/-- What is met on the way up from the tip of a chain is in the chain. -/
theorem Calls.Chain.iterate_parent {τ κ : Type*} [DecidableEq τ] {c : Calls τ κ} {m : List κ}
    (h : c.Chain m) {j : ℕ} {u : κ} (hu : (fun o : Option κ => o.bind c.parent)^[j] m.head? = some u) :
    u ∈ m := by
  induction j generalizing m with
  | zero => exact List.mem_of_mem_head? hu
  | succ j ih =>
    cases m with
    | nil =>
      have hnone : ∀ i, (fun o : Option κ => o.bind c.parent)^[i] none = none := fun i => by
        induction i with
        | zero => rfl
        | succ i ihi => exact ihi
      rw [List.head?_nil, hnone] at hu
      cases hu
    | cons a m =>
      rw [Function.iterate_succ_apply, List.head?_cons, Option.bind_some, h.1] at hu
      exact List.mem_cons_of_mem _ (ih h.tail hu)

/-- What is known of the target of a call. -/
structure CallTo (s : Driver) (T : ℕ) (tr : TransactionData) (target : Target) (n : ℕ) : Prop where
  notReply : target.inReplyTo = none
  node : target.node = some n
  lt : n < s.obj.node.next
  owner : (s.obj.node.get n).proc = some target.proc
  held : tr.flags.oneWay = false → ∀ u, (s.thread.get T).transactionStack = some u →
    (s.txn.get u).toThread = some T
  alone : tr.flags.oneWay = true → target.thread = none
  thread : ∀ R, target.thread = some R → (s.thread.get R).proc = target.proc ∧
    ∃ j u, (fun o : Option ℕ => o.bind fun t => (s.txn.get t).fromParent)^[j]
      (s.thread.get T).transactionStack = some u ∧ (s.txn.get u).fromThread = some R

theorem targetNode_code {f : Failure} (h : targetNode s T tr = .error f) :
    f.inReplyTo = none ∧ f.code ≠ .ok := by
  unfold targetNode at h
  split_ifs at h <;> (split at h <;> (cases h; try exact ⟨rfl, by simp⟩))

theorem TxnInv.callTarget (h : TxnInv L gone loose s) (T : ℕ) (tr : TransactionData) :
    (∃ f : Failure, callTarget s T tr = .error f ∧ f.inReplyTo = none ∧ f.code ≠ .ok) ∨
    ∃ target n, callTarget s T tr = .ok target ∧ CallTo s T tr target n := by
  unfold Binder.callTarget
  cases hn : targetNode s T tr with
  | error f => exact Or.inl ⟨f, rfl, targetNode_code hn⟩
  | ok n =>
    simp only [bind, Except.bind]
    cases hp : (s.obj.node.get n).proc with
    | none => exact Or.inl ⟨_, rfl, rfl, by simp⟩
    | some q =>
      dsimp only
      have hlt : n < s.obj.node.next := by
        by_contra hge
        rw [h.unborn n (not_lt.1 hge)] at hp
        cases hp
      split_ifs with h1 h2 h2
      · exact Or.inl ⟨_, rfl, rfl, by simp⟩
      · refine Or.inr ⟨_, n, rfl, ⟨rfl, rfl, hlt, hp, fun h3 => ?_, fun _ => ?_, fun R hR => ?_⟩⟩
        · rw [h1] at h3
          cases h3
        · cases s.txn.next <;> rfl
        · have hnone : routeThread s q s.txn.next none none = none := by cases s.txn.next <;> rfl
          rw [hnone] at hR
          cases hR
      · exact Or.inl ⟨_, rfl, rfl, by simp⟩
      · refine Or.inr ⟨_, n, rfl, ⟨rfl, rfl, hlt, hp, fun _ u hu => ?_, fun h3 => absurd h3 h1,
          fun R hR => ?_⟩⟩
        · simpa [hu] using h2
        · rcases routeThread_spec hR with hf | ⟨j, u, hj, hu, hpq⟩
          · cases hf
          · exact ⟨hpq, j, u, hj, hu⟩

end Binder
