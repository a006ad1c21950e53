import BinderIpc.Txn.Send

/-! The part of `binder_transaction` that queues the transaction: a reply ends the
call that it answers, a call goes on the stack of its sender, and a transaction
without reply goes to its process or waits behind the one before. -/

namespace Binder

variable {L : Layout} {rb : RbTree ℕ} {gone : ℕ → Bool} {loose : Option ℕ} {s s' : Driver}
  {t u T S p q a n : ℕ} {l : ListHead} {tr : TransactionData} {target : Target} {b : ℕ × ℕ}
  {x : BinderTransaction}

/-- The last step. -/
def enqueue (s : Driver) (T t : ℕ) (l : ListHead) : Driver :=
  s.modObj fun o =>
    { o with
      todo := (o.todo.addTail l (.transaction t)).addTail (.threadTodo T) (.transactionComplete t) }

theorem queued_enqueue {g : ListHead} :
    (enqueue s T t l).queued g u ↔ s.queued g u ∨ (g = l ∧ u = t) := by
  simp [Driver.queued, enqueue, Driver.modObj, Queues.mem_addTail]

theorem linked_enqueue : (enqueue s T t l).obj.todo.linked (.transaction u) =
    (s.obj.todo.linked (.transaction u) || u = t) := by
  rw [Bool.eq_iff_iff, Queues.linked_iff, Bool.or_eq_true, Queues.linked_iff, decide_eq_true_eq]
  constructor
  · rintro ⟨g, hg⟩
    exact (queued_enqueue.1 hg).imp (fun h => ⟨g, h⟩) And.right
  · rintro (⟨g, hg⟩ | rfl)
    · exact ⟨g, queued_enqueue.2 (Or.inl hg)⟩
    · exact ⟨l, queued_enqueue.2 (Or.inr ⟨rfl, rfl⟩)⟩

theorem LinkInv.enqueue (h : LinkInv L s) (hp : Placed s l t) : LinkInv L (enqueue s T t l) := by
  refine ⟨h.call_live, fun g u hu => ?_, h.forward, h.back, h.target, h.area, h.stack_lt, h.waits,
    h.unborn⟩
  have hold : Placed s g u := by
    rcases queued_enqueue.1 hu with hu | ⟨rfl, rfl⟩
    · exact h.placed g u hu
    · exact hp
  exact hold.congr rfl (fun _ => rfl) (fun p hp => hp.congr rfl rfl fun _ => rfl) fun hc =>
    hc.congr rfl fun _ => rfl

/-- A transaction without reply is queued. -/
theorem CallInv.queuePlain (h : CallInv L gone loose s) (hp : Placed s l t)
    (hno : (s.txn.get t).needReply = false) : CallInv L gone loose (enqueue s T t l) := by
  obtain ⟨F, hF⟩ := h.txn.forest
  refine ⟨(h.txn.link.enqueue hp).txnInv ⟨F, hF.congr (fun _ => .rfl) (fun u hu => ?_)
    (fun _ => rfl) fun _ => id⟩, h.err.same rfl fun _ => rfl, h.out.same' (.of_eq rfl rfl) rfl⟩
  refine ⟨rfl, rfl, rfl, rfl, ?_⟩
  have hut : u ≠ t := by
    rintro rfl
    rw [show (s.txn.get u).needReply = true from hu] at hno
    cases hno
  exact linked_enqueue.trans (by simp [hut, callsOf])

/-! A reply -/

/-- The call `u` of `S` ends with a reply. -/
theorem CallInv.popReply (h : CallInv L gone (some u) s)
    (hcall : (s.txn.get u).needReply = true) (hq : ∀ l, ¬s.queued l u)
    (hs : (s.txn.get u).fromThread = some S) (r : ℕ) :
    CallInv L gone none ((binderPopTransaction s (some S) u).note (.replied u r)) := by
  obtain ⟨hg, hst⟩ := h.txn.sender hs
  have hstack : ∀ R, some S = some R → (s.thread.get R).transactionStack = some u := by
    rintro R ⟨⟩
    exact hst
  have hpop := h.txn.pop hcall hq
  rw [hs, show nextLoose s u = none by simp [nextLoose, hs]] at hpop
  have hget := pop_get (t := u) hs
  have hth := pop_thread (t := u) hstack
  refine ⟨hpop.same (same_note _), ⟨fun R hR he => ?_, fun R v hR he hv => ?_⟩, ?_⟩
  · change ((binderPopTransaction s (some S) u).thread.get R).returnError2 ≠ .ok at he
    change ((binderPopTransaction s (some S) u).thread.get R).returnError ≠ .ok
    rw [hth] at he ⊢
    split_ifs at he ⊢
    · exact h.err.first R hR he
    · exact h.err.first R hR he
  · change ((binderPopTransaction s (some S) u).thread.get R).returnError2 ≠ .ok at he
    change ((binderPopTransaction s (some S) u).thread.get R).transactionStack = some v at hv
    change ((binderPopTransaction s (some S) u).txn.get v).fromThread ≠ some R
    rw [hth] at he hv
    rw [hget]
    split_ifs at he hv with hSR
    · cases hSR
      exact absurd hs (h.err.idle S u hR he hst)
    · split_ifs
      · simp
      · exact h.err.idle R v hR he hv
  · refine h.out.ended_call (e := .replied u r) hcall (pop_next s u _) hget ?_ rfl rfl rfl ?_
    · exact congrArg Objects.oops (pop_obj hs hstack)
    · simp [Driver.note, pop_history, hs]

theorem CallInv.queueReply (h : CallInv L s.dead (some u) s) (hpops : Pops s (some u))
    (ht : Unsent s t x) (hb : x.buffer = some b) (hfill : Filled s t b target.node)
    (hr : ReplyTo s u S target) (hbp : b.1 = target.proc) :
    CallInv L s.dead none (queueTransaction s T t target) := by
  obtain ⟨hcall, hq⟩ := hpops u rfl
  obtain ⟨htarget, hs, hlt, hfreed⟩ := hr
  subst htarget
  set c := (s.bufferOf t).any (·.asyncTransaction) with hc
  have hbug : CallInv L s.dead (some u) (s.bugOn c .asyncBuffer) :=
    h.same (same_bugOn _ _) (fun _ => rfl) (fun _ => rfl) (sameOutcomes_bugOn fun _ => rfl)
  have hpop := hbug.popReply hcall hq hs t
  have hst : ∀ R, some S = some R → ((s.bugOn c .asyncBuffer).thread.get R).transactionStack = some u := by
    rintro R ⟨⟩
    exact (hbug.txn.sender hs).2
  set s₁ := (binderPopTransaction (s.bugOn c .asyncBuffer) (some S) u).note (.replied u t) with hs₁
  have hut : t ≠ u := by
    rintro rfl
    rw [ht.get, ht.plain] at hcall
    cases hcall
  have hget : s₁.txn.get t = x := by
    have := pop_get (s := s.bugOn c .asyncBuffer) (t := u) hs t
    rw [if_neg hut] at this
    exact this.trans ht.get
  obtain ⟨B, hB, hBu, hBt, hBn⟩ := hfill.live
  obtain ⟨hul, huf⟩ := h.txn.call_live u hcall
  have hlive : s₁.liveAt b = some B := by
    have hend : (Binder.endCall (s.bugOn c .asyncBuffer) u (some S)).liveAt b = some B := by
      rw [Driver.liveAt, endCall_proc]
      exact hB
    have hbuf : ((Binder.endCall (s.bugOn c .asyncBuffer) u (some S)).txn.get u).buffer ≠ some b := by
      rw [endCall_get (s := s.bugOn c .asyncBuffer) (t := u) hs, if_pos rfl]
      exact h.txn.link.other hut ht.lt (by rw [ht.get, ht.live]) (by rw [ht.get, hb]) hul huf
    have := liveAt_forget (s := Binder.endCall (s.bugOn c .asyncBuffer) u (some S))
      ((Binder.endCall (s.bugOn c .asyncBuffer) u (some S)).txn.get u).buffer b
    rw [if_neg hbuf, hend] at this
    exact this
  have hth : ∀ R, (s₁.thread.get R).freed = (s.thread.get R).freed ∧
      (s₁.thread.get R).proc = (s.thread.get R).proc := fun R => by
    have := pop_thread hst R
    change ((binderPopTransaction (s.bugOn c .asyncBuffer) (some S) u).thread.get R).freed = _ ∧
      ((binderPopTransaction (s.bugOn c .asyncBuffer) (some S) u).thread.get R).proc = _
    rw [this]
    split_ifs <;> exact ⟨rfl, rfl⟩
  have hplaced : Placed s₁ (.threadTodo S) t := by
    refine ⟨?_, by rw [hget, ht.live], Or.inl ⟨b, B, by rw [hget, hb], hlive, hBu, ?_, ?_⟩, ?_, ?_⟩
    · exact (pop_next (s.bugOn c .asyncBuffer) u (some S)).symm ▸ ht.lt
    · rw [hget, ht.plain, hBn]
      rfl
    · refine ⟨?_, (hth S).1.trans hfreed, (hth S).2.trans hbp.symm⟩
      have hn : s₁.thread.next = s.thread.next := by
        change (binderPopTransaction (s.bugOn c .asyncBuffer) (some S) u).thread.next = _
        rw [pop_eq]
        exact (congrArg Heap.next (thread_forget _)).trans (endCall_threadNext _)
      exact hn ▸ hlt
    · intro n hn
      cases hn
    · intro hx
      rw [hget, ht.plain] at hx
      cases hx
  exact hpop.queuePlain hplaced (by rw [hget, ht.plain])

/-! A call -/

/-- The call `t` of `T` is made inside the one that `T` works on. -/
def makeCall (s : Driver) (T t : ℕ) : Driver :=
  ((s.modTxn t fun x =>
    { x with needReply := true, fromParent := (s.thread.get T).transactionStack }).modThread T fun y =>
      { y with transactionStack := some t }).note (.accepted T t)

theorem LinkInv.makeCall (h : LinkInv L s) (ht : Unsent s t x) (hT : T < s.thread.next)
    (hawake : (s.thread.get T).asleep = none) : LinkInv L (makeCall s T t) := by
  set s₁ := s.modTxn t fun x =>
    { x with needReply := true, fromParent := (s.thread.get T).transactionStack } with hs₁
  have hne : ∀ v, v ≠ t → s₁.txn.get v = s.txn.get v := fun v hv =>
    s.txn.get_modify_ne t v (fun x => { x with
      needReply := true, fromParent := (s.thread.get T).transactionStack }) hv
  have hkeep : ∀ {β : Type} (g : BinderTransaction → β),
      (∀ x o, g { x with needReply := true, fromParent := o } = g x) →
      ∀ v, g (s₁.txn.get v) = g (s.txn.get v) := fun g hg v =>
    s.txn.apply_get_modify t v (fun x => { x with
      needReply := true, fromParent := (s.thread.get T).transactionStack }) g fun x => hg x _
  have h₁ : LinkInv L s₁ := by
    refine ⟨fun v hv => ?_, fun l v hv => ?_, fun v c hvl hvf hvb => ?_, fun c C v hC hCv => ?_,
      h.target, h.area, h.stack_lt, h.waits, h.unborn⟩
    · rw [hkeep (·.freed) fun _ _ => rfl]
      by_cases hvt : v = t
      · subst hvt
        exact ⟨ht.lt, by rw [ht.get, ht.live]⟩
      · rw [hne v hvt] at hv
        exact h.call_live v hv
    · have hvt : v ≠ t := fun he => ht.queued l (he ▸ hv)
      have hp := h.placed l v hv
      refine ⟨hp.lt, hne v hvt ▸ hp.live, ?_, hne v hvt ▸ hp.async, hne v hvt ▸ hp.list⟩
      rcases hp.buffer with ⟨b, B, hb, hB, hub, hn, hh⟩ | hc
      · exact Or.inl ⟨b, B, hne v hvt ▸ hb, hB, hub, hne v hvt ▸ hn, hh.congr rfl rfl fun _ => rfl⟩
      · exact Or.inr (hc.congr rfl fun _ => rfl)
    · rw [hkeep (·.freed) fun _ _ => rfl] at hvf
      rw [hkeep (·.buffer) fun _ _ => rfl] at hvb
      exact h.forward v c hvl hvf hvb
    · rw [hkeep (·.freed) fun _ _ => rfl, hkeep (·.buffer) fun _ _ => rfl]
      exact h.back c C v hC hCv
  have h₂ := h₁.setStack (T := T) hT hawake (some t)
  exact ⟨h₂.call_live, fun l v hv => (h₂.placed l v hv).congr rfl (fun _ => rfl)
    (fun p hp => hp.congr rfl rfl fun _ => rfl) fun hc => hc.congr rfl fun _ => rfl, h₂.forward,
    h₂.back, h₂.target, h₂.area, h₂.stack_lt, h₂.waits, h₂.unborn⟩

/-- Where `binder_transaction` puts a transaction, but for one that waits behind another. -/
def home (target : Target) : ListHead := target.thread.elim (.procTodo target.proc) .threadTodo

theorem makeCall_txn (s : Driver) (T t v : ℕ) : (makeCall s T t).txn.get v =
    if v = t then
      { s.txn.get t with needReply := true, fromParent := (s.thread.get T).transactionStack }
    else s.txn.get v := rfl

theorem makeCall_thread (s : Driver) (T t S : ℕ) : (makeCall s T t).thread.get S =
    if S = T then { s.thread.get T with transactionStack := some t } else s.thread.get S := rfl

/-- The chain that a new call of `T` goes on: the receiver that the call is routed to is in it. -/
theorem TxnInv.callChain (h : TxnInv L s.dead none s) (hf : (s.thread.get T).freed = 0)
    (hsync : tr.flags.oneWay = false) (hc : CallTo s T tr target n) {F : Set (List ℕ)}
    (hF : (callsOf s.dead none s).Forest (s.dead · = true) none F) :
    (∀ v, (callsOf s.dead none s).top T = some v →
      (callsOf s.dead none s).queued v = false ∧ (callsOf s.dead none s).dst v = some T) ∧
    ∃ m ∈ F, m.head? = (callsOf s.dead none s).top T ∧
      (∀ u, (callsOf s.dead none s).call u → (callsOf s.dead none s).involves T u = true → u ∈ m) ∧
      ∀ R, target.thread = some R → R < s.thread.next ∧ (s.thread.get R).freed = 0 ∧
        ∃ v ∈ m, (callsOf s.dead none s).involves R v = true := by
  have hg : s.dead T = false := by simp [Driver.dead, hf]
  have htop : (callsOf s.dead none s).top T = (s.thread.get T).transactionStack := by
    simp [callsOf, hg]
  have hheld : ∀ v, (callsOf s.dead none s).top T = some v →
      (callsOf s.dead none s).queued v = false ∧ (callsOf s.dead none s).dst v = some T := by
    intro v hv
    rw [htop] at hv
    have hd := hc.held hsync v hv
    exact ⟨callsOf_unqueued.2 (h.held hg hv hd).2, by simpa [callsOf] using hd⟩
  obtain ⟨m, hm, hhead, hin⟩ := hF.exists_tip fun v hv => (hheld v hv).2
  refine ⟨hheld, m, hm, hhead, hin, fun R hR => ?_⟩
  obtain ⟨-, j, v, hj, hv⟩ := hc.thread R hR
  have hmem : v ∈ m := by
    refine (hF.chain m hm).iterate_parent (j := j) ?_
    rw [hhead, htop]
    exact hj
  have hcallv : (s.txn.get v).needReply = true := hF.mem_call hm hmem
  have hgR : s.dead R = false := h.not_loose_none hcallv hv
  have hi : (callsOf s.dead none s).involves R v = true := Calls.involves_iff.2 (Or.inl hv)
  have hne : (s.thread.get R).transactionStack ≠ none := fun hnone => by
    have hempty : (callsOf s.dead none s).top R = none := by simp [callsOf, hnone]
    rw [hF.involves_none hempty hcallv] at hi
    cases hi
  exact ⟨h.stack_lt R hne, by simpa [Driver.dead] using hgR, v, hmem, hi⟩

/-- The list that the call is put on fits its buffer and its receiver. -/
theorem Unsent.placed_call (ht : Unsent s t x) (hb : x.buffer = some b)
    (hto : x.toThread = target.thread) (hflags : x.flags = tr.flags)
    (hsync : tr.flags.oneWay = false) (hfill : Filled s t b target.node) (hbp : b.1 = target.proc)
    (hc : CallTo s T tr target n)
    (hroute : ∀ R, target.thread = some R → R < s.thread.next ∧ (s.thread.get R).freed = 0) :
    Placed (makeCall s T t) (home target) t := by
  obtain ⟨B, hB, hBu, hBt, hBn⟩ := hfill.live
  have hget : (makeCall s T t).txn.get t =
      { x with needReply := true, fromParent := (s.thread.get T).transactionStack } := by
    rw [makeCall_txn, if_pos rfl, ht.get]
  have hhome : Home (makeCall s T t) b.1 (home target) := by
    rw [hbp]
    unfold home
    cases hR : target.thread with
    | none =>
      have hrel := hfill.open'
      rw [hbp] at hrel
      exact ⟨rfl, hrel⟩
    | some R =>
      obtain ⟨h1, h2⟩ := hroute R hR
      have hthr : ((makeCall s T t).thread.get R).freed = (s.thread.get R).freed ∧
          ((makeCall s T t).thread.get R).proc = (s.thread.get R).proc := by
        rw [makeCall_thread]
        split_ifs with hRT
        · exact hRT ▸ ⟨rfl, rfl⟩
        · exact ⟨rfl, rfl⟩
      exact ⟨h1, hthr.1.trans h2, hthr.2.trans (hc.thread R hR).1⟩
  refine ⟨ht.lt, by rw [hget]; exact ht.live, Or.inl ⟨b, B, by rw [hget]; exact hb, hB, hBu, ?_, hhome⟩,
    fun k hk => ?_, fun _ => ?_⟩
  · rw [hget, hBn, hc.node]
    simp [hflags, hsync]
  · unfold home at hk
    cases hR : target.thread <;> rw [hR] at hk <;> cases hk
  · rw [hget]
    unfold home
    cases hR : target.thread with
    | none => exact Or.inr ⟨_, rfl, hto.trans hR⟩
    | some R => exact Or.inl ⟨R, rfl, hto.trans hR⟩

/-- Among the calls the new one is on top of the stack of `T`. -/
theorem Unsent.pushed (ht : Unsent s t x) (hsrc : x.fromThread = some T) (hg : s.dead T = false)
    (l : ListHead) : Calls.Pushed (callsOf s.dead none s)
      (callsOf s.dead none (enqueue (makeCall s T t) T t l)) T t := by
  have htxn : ∀ v, (enqueue (makeCall s T t) T t l).txn.get v = if v = t then
      { x with needReply := true, fromParent := (s.thread.get T).transactionStack }
      else s.txn.get v := fun v => by
    change (makeCall s T t).txn.get v = _
    rw [makeCall_txn, ht.get]
  have hth : ∀ S, ((enqueue (makeCall s T t) T t l).thread.get S).transactionStack =
      if S = T then some t else (s.thread.get S).transactionStack := fun S => by
    change ((makeCall s T t).thread.get S).transactionStack = _
    rw [makeCall_thread]
    split_ifs <;> rfl
  have hlinked : ∀ v, (enqueue (makeCall s T t) T t l).obj.todo.linked (.transaction v) =
      (s.obj.todo.linked (.transaction v) || v = t) := fun v => linked_enqueue
  refine ⟨fun v => ?_, fun v hv => ?_, ?_, ?_, ?_, fun S => ?_⟩
  · simp only [callsOf, htxn]
    by_cases hvt : v = t <;> simp [hvt]
  · have hvt : v ≠ t := by
      rintro rfl
      have hv' : (s.txn.get v).needReply = true := hv
      rw [ht.get, ht.plain] at hv'
      cases hv'
    have hget : (enqueue (makeCall s T t) T t l).txn.get v = s.txn.get v := by
      rw [htxn, if_neg hvt]
    refine ⟨?_, ?_, ?_, ?_, ?_⟩
    · exact congrArg BinderTransaction.fromThread hget
    · simp only [callsOf, hget]
    · exact congrArg BinderTransaction.fromParent hget
    · exact congrArg BinderTransaction.toParent hget
    · exact (hlinked v).trans (by simp [hvt, callsOf])
  · simp [callsOf, htxn, hsrc]
  · simp [callsOf, htxn, hg]
  · exact (hlinked t).trans (by simp)
  · simp only [callsOf, hth]
    by_cases hS : S = T
    · simp [hS, hg]
    · simp only [hS, if_false]

theorem ErrInv.makeCall (h : ErrInv gone s) (hok2 : (s.thread.get T).returnError2 = .ok)
    (ht : Unsent s t x) (hsrc : x.fromThread = some T) (l : ListHead) :
    ErrInv gone (enqueue (makeCall s T t) T t l) := by
  refine ⟨fun S hS he => ?_, fun S v hS he hv => ?_⟩
  · change ((Binder.makeCall s T t).thread.get S).returnError2 ≠ .ok at he
    change ((Binder.makeCall s T t).thread.get S).returnError ≠ .ok
    rw [makeCall_thread] at he ⊢
    split_ifs at he ⊢ with hST
    · exact absurd hok2 he
    · exact h.first S hS he
  · change ((Binder.makeCall s T t).thread.get S).returnError2 ≠ .ok at he
    change ((Binder.makeCall s T t).thread.get S).transactionStack = some v at hv
    change ((Binder.makeCall s T t).txn.get v).fromThread ≠ some S
    rw [makeCall_thread] at he hv
    split_ifs at he hv with hST
    · exact absurd hok2 he
    · rw [makeCall_txn, ht.get]
      split_ifs
      · exact fun hsT => hST (Option.some.inj (hsT.symm.trans hsrc))
      · exact h.idle S v hS he hv

/-- The call is accepted, and owes an outcome. -/
theorem Outcomes.makeCall (h : Outcomes gone s) (ht : Unsent s t x) (hsrc : x.fromThread = some T)
    (l : ListHead) : Outcomes gone (enqueue (makeCall s T t) T t l) := by
  set s' := enqueue (Binder.makeCall s T t) T t l with hs'
  have hhist : s'.history = s.history ++ [.accepted T t] := rfl
  have hcount : ∀ v, s'.outcomes v = s.outcomes v := fun v => by
    rw [Driver.outcomes, hhist, List.countP_append, Driver.outcomes]
    rfl
  have hacc : ∀ S v, Event.accepted S v ∈ s'.history ↔
      Event.accepted S v ∈ s.history ∨ (S = T ∧ v = t) := fun S v => by
    rw [hhist]
    simp
  have hneed : ∀ v, (s'.txn.get v).needReply = if v = t then true else (s.txn.get v).needReply :=
    fun v => by
      change ((Binder.makeCall s T t).txn.get v).needReply = _
      rw [makeCall_txn]
      split_ifs <;> rfl
  have hfrom : ∀ v, (s'.txn.get v).fromThread = (s.txn.get v).fromThread := fun v => by
    change ((Binder.makeCall s T t).txn.get v).fromThread = _
    rw [makeCall_txn]
    split_ifs with hvt
    · rw [hvt]
    · rfl
  refine ⟨fun v hv => ?_, fun S v hS => ?_, fun S S' v hS hS' => ?_, fun v hv => ?_, ?_⟩
  · rw [hcount, hfrom]
    by_cases hvt : v = t
    · subst hvt
      refine ⟨ht.outcomes, T, (hacc _ _).2 (Or.inr ⟨rfl, rfl⟩), Or.inl ?_⟩
      rw [ht.get, hsrc]
    · rw [hneed, if_neg hvt] at hv
      obtain ⟨h1, S, hS, h2⟩ := h.owed v hv
      exact ⟨h1, S, (hacc _ _).2 (Or.inl hS), h2⟩
  · rw [hcount, hneed]
    rcases (hacc S v).1 hS with hS | ⟨rfl, rfl⟩
    · obtain ⟨h1, h2⟩ := h.ended S v hS
      refine ⟨h1, ?_⟩
      split_ifs
      · exact Or.inl rfl
      · exact h2
    · exact ⟨by rw [ht.outcomes]; exact Nat.zero_le _, Or.inl (if_pos rfl)⟩
  · rcases (hacc S v).1 hS with hS₁ | ⟨hST, hvt⟩
    · rcases (hacc S' v).1 hS' with hS₂ | ⟨-, hvt⟩
      · exact h.sole S S' v hS₁ hS₂
      · exact absurd (hvt ▸ hS₁) (ht.accepted S)
    · rcases (hacc S' v).1 hS' with hS₂ | ⟨hST', -⟩
      · exact absurd (hvt ▸ hS₂) (ht.accepted S')
      · exact hST.trans hST'.symm
  · rw [hcount]
    have hv' : s.txn.next ≤ v := hv
    obtain ⟨h1, h2⟩ := h.new v hv'
    refine ⟨h1, fun S hS => ?_⟩
    rcases (hacc S v).1 hS with hS | ⟨rfl, rfl⟩
    · exact h2 S hS
    · exact absurd ht.lt (not_lt.2 hv')
  · obtain ⟨h1, h2⟩ := h.clean
    refine ⟨fun e he => ?_, h2⟩
    rw [hhist, List.mem_append] at he
    rcases he with he | he
    · exact h1 e he
    · rw [List.mem_singleton.1 he]
      rfl

theorem CallInv.pushCall (h : CallInv L s.dead none s) (hT : T < s.thread.next)
    (hf : (s.thread.get T).freed = 0) (hok : (s.thread.get T).returnError = .ok)
    (hawake : (s.thread.get T).asleep = none) (ht : Unsent s t x) (hb : x.buffer = some b)
    (hsrc : x.fromThread = some T) (hto : x.toThread = target.thread)
    (hflags : x.flags = tr.flags) (hsync : tr.flags.oneWay = false)
    (hfill : Filled s t b target.node) (hbp : b.1 = target.proc) (hc : CallTo s T tr target n)
    (hself : target.thread ≠ some T) :
    CallInv L s.dead none (enqueue (makeCall s T t) T t (home target)) := by
  have hg : s.dead T = false := by simp [Driver.dead, hf]
  have hok2 : (s.thread.get T).returnError2 = .ok := by
    by_contra he
    exact h.err.first T hg he hok
  obtain ⟨F, hF⟩ := h.txn.forest
  obtain ⟨hheld, m, hm, hhead, hin, hroute⟩ := h.txn.callChain hf hsync hc hF
  have hplaced := ht.placed_call hb hto hflags hsync hfill hbp hc fun R hR =>
    ⟨(hroute R hR).1, (hroute R hR).2.1⟩
  have hdst : (callsOf s.dead none (enqueue (makeCall s T t) T t (home target))).dst t =
      target.thread := by
    have hget : ((enqueue (makeCall s T t) T t (home target)).txn.get t).toThread =
        (s.txn.get t).toThread := by
      change ((makeCall s T t).txn.get t).toThread = _
      rw [makeCall_txn, if_pos rfl]
    simp [callsOf, hget, ht.get, hto]
  have hnew : ¬(callsOf s.dead none s).call t := fun hcall => by
    have hcall' : (s.txn.get t).needReply = true := hcall
    rw [ht.get, ht.plain] at hcall'
    cases hcall'
  have hforest := hF.push (ht.pushed hsrc hg (home target)) hnew hm hhead hin hheld
    (by rw [hdst]; exact hself) fun R hR => by
      rw [hdst] at hR
      exact Or.inr (hroute R hR).2.2
  exact ⟨((h.txn.link.makeCall ht hT hawake).enqueue hplaced).txnInv ⟨_, hforest⟩,
    h.err.makeCall hok2 ht hsrc _, h.out.makeCall ht hsrc _⟩

theorem CallInv.queueCall (h : CallInv L s.dead none s) (hT : T < s.thread.next)
    (hf : (s.thread.get T).freed = 0) (hok : (s.thread.get T).returnError = .ok)
    (hawake : (s.thread.get T).asleep = none) (ht : Unsent s t x) (hb : x.buffer = some b)
    (hsrc : x.fromThread = some T) (hto : x.toThread = target.thread)
    (hflags : x.flags = tr.flags) (hsync : tr.flags.oneWay = false)
    (hfill : Filled s t b target.node) (hbp : b.1 = target.proc) (hc : CallTo s T tr target n)
    (hself : target.thread ≠ some T) : CallInv L s.dead none (queueTransaction s T t target) := by
  have hsyncx : (s.txn.get t).flags.oneWay = false := by rw [ht.get, hflags, hsync]
  set c := (s.bufferOf t).any (·.asyncTransaction) with hcdef
  have heq : queueTransaction s T t target =
      enqueue (makeCall (s.bugOn c .asyncBuffer) T t) T t (home target) := by
    unfold queueTransaction
    simp only [hc.notReply, hsyncx]
    rfl
  have hbug : CallInv L s.dead none (s.bugOn c .asyncBuffer) :=
    h.same (same_bugOn _ _) (fun _ => rfl) (fun _ => rfl) (sameOutcomes_bugOn fun _ => rfl)
  have htb : Unsent (s.bugOn c .asyncBuffer) t x :=
    ⟨ht.lt, ht.get, ht.live, ht.plain, ht.queued, ht.outcomes, ht.accepted⟩
  have hcb : CallTo (s.bugOn c .asyncBuffer) T tr target n :=
    ⟨hc.notReply, hc.node, hc.lt, hc.owner, hc.held, hc.alone, hc.thread⟩
  rw [heq]
  exact CallInv.pushCall (s := s.bugOn c .asyncBuffer) hbug hT hf hok hawake htb hb hsrc hto hflags
    hsync ⟨hfill.live, hfill.open'⟩ hbp hcb hself

/-! A transaction without reply -/

theorem CallInv.queueAsync (h : CallInv L gone none s) (ht : Unsent s t x) (hb : x.buffer = some b)
    (hflags : x.flags = tr.flags) (hasync : tr.flags.oneWay = true)
    (hfill : Filled s t b target.node) (hbp : b.1 = target.proc) (hc : CallTo s T tr target n) :
    CallInv L gone none (queueTransaction s T t target) := by
  have hasyncx : (s.txn.get t).flags.oneWay = true := by rw [ht.get, hflags, hasync]
  obtain ⟨B, hB, hBu, hBt, hBn⟩ := hfill.live
  set c := (s.bufferOf t).any (·.asyncTransaction) with hcdef
  set s₀ := (s.bugOn (some n).isNone .targetNode).bugOn (!c) .asyncBuffer with hs₀
  have h₀ : CallInv L gone none s₀ :=
    (h.same (same_bugOn _ _) (fun _ => rfl) (fun _ => rfl) (sameOutcomes_bugOn fun _ => rfl)).same
      (same_bugOn _ _) (fun _ => rfl) (fun _ => rfl) (sameOutcomes_bugOn fun _ => rfl)
  have hno : (s.txn.get t).needReply = false := by rw [ht.get, ht.plain]
  have hplace : ∀ {s' : Driver} {l : ListHead}, s'.txn = s.txn → (∀ c, s'.liveAt c = s.liveAt c) →
      Home s' b.1 l → Placed s' l t := fun {s' l} htxn hlive hhome => by
    refine ⟨htxn ▸ ht.lt, by rw [htxn, ht.get, ht.live],
      Or.inl ⟨b, B, by rw [htxn, ht.get, hb], (hlive b).trans hB, hBu, ?_, hhome⟩, fun k _ => ?_,
      fun hn => ?_⟩
    · rw [htxn, hno, hasyncx]
      simp
    · rw [htxn]
      exact hasyncx
    · rw [htxn, hno] at hn
      cases hn
  have hrel := hfill.open'
  rw [hbp] at hrel
  by_cases hbusy : (s.obj.node.get n).hasAsyncTransaction = true
  · have heq : queueTransaction s T t target = enqueue s₀ T t (.asyncTodo n) := by
      unfold queueTransaction
      simp only [hc.notReply, hasyncx, hc.node, Bool.not_true, Bool.false_eq_true, if_false]
      simp only [Driver.bugOn, Driver.modObj, Objects.bugOn, hbusy, if_true]
      rfl
    rw [heq]
    refine h₀.queuePlain (hplace rfl (fun _ => rfl) ⟨hc.lt, ?_⟩) hno
    rw [hbp]
    exact hc.owner
  · set s₁ := s₀.modObj fun o => o.modNode n fun x => { x with hasAsyncTransaction := true } with hs₁
    have h₁ : CallInv L gone none s₁ := h₀.quiet (quiet_modNode _ n fun _ => rfl)
    have heq : queueTransaction s T t target = enqueue s₁ T t (home target) := by
      unfold queueTransaction
      simp only [hc.notReply, hasyncx, hc.node, Bool.not_true, Bool.false_eq_true, if_false]
      simp only [Driver.bugOn, Driver.modObj, Objects.bugOn, hbusy, Bool.false_eq_true, if_false]
      rfl
    have hhome : home target = .procTodo target.proc := by rw [home, hc.alone hasync]; rfl
    rw [heq, hhome]
    refine h₁.queuePlain (hplace rfl (fun _ => rfl) ?_) hno
    rw [hbp]
    exact ⟨rfl, hrel⟩

end Binder
