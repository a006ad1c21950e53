import BinderIpc.Txn.Close

/-! The delivery of a transaction: `binder_thread_read` puts a call on the stack of
the reader and frees every other transaction. -/

namespace Binder

variable {L : Layout} {rb : RbTree ℕ} {gone : ℕ → Bool} {loose : Option ℕ} {s s' : Driver}
  {t T p a : ℕ} {l : ListHead} {b : ℕ × ℕ} {B : BinderBuffer}

/-- A write to a buffer that keeps its links. -/
theorem LinkInv.modBuffer (h : LinkInv L s) {f : BinderBuffer → BinderBuffer}
    (hf : ∀ B, SameExtent B (f B)) (h1 : ∀ B, (f B).transaction = B.transaction)
    (h2 : ∀ B, (f B).targetNode = B.targetNode)
    (h3 : ∀ l u, s.queued l u → (s.txn.get u).buffer = some b →
      ∀ B, (f B).allowUserFree = B.allowUserFree) : LinkInv L (s.modBuffer b f) := by
  have hlive := fun c => liveAt_modBuffer' (s := s) (b := b) (c := c) hf
  have hpull : ∀ c C, (s.modBuffer b f).liveAt c = some C → ∃ C', s.liveAt c = some C' ∧
      C.transaction = C'.transaction ∧ C.targetNode = C'.targetNode := fun c C hC => by
    rw [hlive] at hC
    split_ifs at hC with hcb
    · obtain ⟨C', hC', rfl⟩ := Option.map_eq_some_iff.1 hC
      exact ⟨C', hcb ▸ hC', h1 C', h2 C'⟩
    · exact ⟨C, hC, rfl, rfl⟩
  have hpush : ∀ c C, s.liveAt c = some C → ∃ C', (s.modBuffer b f).liveAt c = some C' ∧
      C'.transaction = C.transaction ∧ C'.targetNode = C.targetNode ∧
        (C' = C ∨ (c = b ∧ C' = f C)) := fun c C hC => by
    rw [hlive]
    split_ifs with hcb
    · subst hcb
      exact ⟨f C, by rw [hC]; rfl, h1 C, h2 C, Or.inr ⟨rfl, rfl⟩⟩
    · exact ⟨C, hC, rfl, rfl, Or.inl rfl⟩
  refine ⟨h.call_live, fun l u hu => ?_, fun u c hul huf hub => ?_, fun c C u hC hCu => ?_,
    fun c C n hC hn => ?_, areaOk_modBuffer h.area hf, h.stack_lt, h.waits, h.unborn⟩
  · have hp := h.placed l u hu
    refine ⟨hp.lt, hp.live, ?_, hp.async, hp.list⟩
    rcases hp.buffer with ⟨c, C, hc, hC, hCu, hn, hh⟩ | hc
    · obtain ⟨C', hC', -, hn', hor⟩ := hpush c C hC
      refine Or.inl ⟨c, C', hc, hC', ?_, by rw [hn']; exact hn,
        hh.congr rfl rfl (proc_modBuffer (·.released) (fun _ _ => rfl) b f)⟩
      rcases hor with rfl | ⟨rfl, rfl⟩
      · exact hCu
      · rw [h3 l u hu hc, hCu]
    · exact Or.inr (hc.congr rfl (proc_modBuffer (·.closed) (fun _ _ => rfl) b f))
  · obtain ⟨C, hC, hCt⟩ := h.forward u c hul huf hub
    obtain ⟨C', hC', ht, -⟩ := hpush c C hC
    exact ⟨C', hC', ht.trans hCt⟩
  · obtain ⟨C', hC', ht, -⟩ := hpull c C hC
    exact h.back c C' u hC' (ht ▸ hCu)
  · obtain ⟨C', hC', -, hn'⟩ := hpull c C hC
    exact h.target c C' n hC' (hn' ▸ hn)

theorem CallInv.modBuffer (h : CallInv L gone loose s) {f : BinderBuffer → BinderBuffer}
    (hf : ∀ B, SameExtent B (f B)) (h1 : ∀ B, (f B).transaction = B.transaction)
    (h2 : ∀ B, (f B).targetNode = B.targetNode)
    (h3 : ∀ l u, s.queued l u → (s.txn.get u).buffer = some b →
      ∀ B, (f B).allowUserFree = B.allowUserFree) : CallInv L gone loose (s.modBuffer b f) :=
  ⟨(h.txn.link.modBuffer hf h1 h2 h3).txnInv h.txn.forest, h.err.same rfl fun _ => rfl,
    h.out.same' (.of_eq rfl rfl) rfl⟩

theorem LinkInv.unqueue (h : LinkInv L s) (w : Work) : LinkInv L (unqueue s w) :=
  ⟨h.call_live, fun g u hu => (h.placed g u (queued_unqueue.1 hu).1).congr rfl (fun _ => rfl)
    (fun _ hp => hp.congr rfl rfl fun _ => rfl) fun hc => hc.congr rfl fun _ => rfl,
    h.forward, h.back, h.target, h.area, h.stack_lt, h.waits, h.unborn⟩

/-- The receiver of a call that is on no list. -/
theorem LinkInv.receiver (h : LinkInv L s) (hq : ∀ l, ¬s.queued l t) (o : Option ℕ) (T : ℕ) :
    LinkInv L (s.modTxn t fun x => { x with toParent := o, toThread := some T }) := by
  have hkeep : ∀ {β : Type} (g : BinderTransaction → β),
      (∀ x, g { x with toParent := o, toThread := some T } = g x) →
      ∀ u, g ((s.modTxn t fun x => { x with toParent := o, toThread := some T }).txn.get u) =
        g (s.txn.get u) := fun g hg u =>
    s.txn.apply_get_modify t u (fun x => { x with toParent := o, toThread := some T }) g hg
  refine ⟨fun u hu => ?_, fun l u hu => ?_, fun u b hul huf hub => ?_, fun b B u hB hBu => ?_,
    h.target, h.area, h.stack_lt, h.waits, h.unborn⟩
  · rw [hkeep (·.needReply) fun _ => rfl] at hu
    rw [hkeep (·.freed) fun _ => rfl]
    exact h.call_live u hu
  · have hut : u ≠ t := fun he => hq l (he ▸ hu)
    have hget : (s.modTxn t fun x => { x with toParent := o, toThread := some T }).txn.get u =
        s.txn.get u :=
      s.txn.get_modify_ne t u (fun x => { x with toParent := o, toThread := some T }) hut
    have hp := h.placed l u hu
    refine ⟨hp.lt, hget ▸ hp.live, ?_, hget ▸ hp.async, hget ▸ hp.list⟩
    rcases hp.buffer with ⟨b, B, hb, hB, hub, hn, hh⟩ | hc
    · exact Or.inl ⟨b, B, hget ▸ hb, hB, hub, hget ▸ hn, hh.congr rfl rfl fun _ => rfl⟩
    · exact Or.inr (hc.congr rfl fun _ => rfl)
  · rw [hkeep (·.freed) fun _ => rfl] at huf
    rw [hkeep (·.buffer) fun _ => rfl] at hub
    exact h.forward u b hul huf hub
  · rw [hkeep (·.freed) fun _ => rfl, hkeep (·.buffer) fun _ => rfl]
    exact h.back b B u hB hBu

/-- The stack of a thread that is not waiting changes. -/
theorem LinkInv.setStack (h : LinkInv L s) (hT : T < s.thread.next)
    (hawake : (s.thread.get T).asleep = none) (o : Option ℕ) :
    LinkInv L (s.modThread T fun y => { y with transactionStack := o }) := by
  have hkeep : ∀ {β : Type} (g : BinderThread → β),
      (∀ y, g { y with transactionStack := o } = g y) → ∀ S,
      g ((s.modThread T fun y => { y with transactionStack := o }).thread.get S) =
        g (s.thread.get S) := fun g hg S =>
    s.thread.apply_get_modify T S (fun y => { y with transactionStack := o }) g hg
  have hne : ∀ S, S ≠ T → (s.modThread T fun y => { y with transactionStack := o }).thread.get S =
      s.thread.get S := fun S hS =>
    s.thread.get_modify_ne T S (fun y => { y with transactionStack := o }) hS
  refine ⟨h.call_live, fun l u hu => ?_, h.forward, h.back, h.target, h.area, fun S hS => ?_,
    fun S f hf hw => ?_, h.unborn⟩
  · refine (h.placed l u hu).congr rfl (fun _ => rfl) (fun p hp => ?_) fun hc =>
      hc.congr rfl fun _ => rfl
    cases l with
    | threadTodo R =>
      rw [Home, hkeep (·.freed) fun _ => rfl, hkeep (·.proc) fun _ => rfl]
      exact hp
    | procTodo q => exact hp
    | asyncTodo n => exact hp
    | deliveredDeath q => exact hp
  · by_cases hST : S = T
    · exact hST ▸ hT
    · rw [hne S hST] at hS
      exact h.stack_lt S hS
  · by_cases hST : S = T
    · rw [hkeep (·.asleep) fun _ => rfl, hST, hawake] at hf
      cases hf
    · rw [hne S hST] at hf ⊢
      exact h.waits S f hf hw

/-- What lets a thread take a transaction from a list. -/
def Reads (s : Driver) (T : ℕ) (l : ListHead) : Prop :=
  l = .threadTodo T ∨ (l = .procTodo (s.thread.get T).proc ∧ (s.thread.get T).transactionStack = none)

/-- The call `t`, off its list, is given to `T`. -/
def giveCall (s : Driver) (T t : ℕ) : Driver :=
  (s.modTxn t fun x =>
    { x with toParent := (s.thread.get T).transactionStack, toThread := some T }).modThread T fun y =>
      { y with transactionStack := some t }

theorem TxnInv.sender_ne (h : TxnInv L gone none s) (hg : gone T = false) (hq : s.queued l t)
    (hr : Reads s T l) (hcall : (s.txn.get t).needReply = true) :
    (s.txn.get t).fromThread ≠ some T ∧
      (((s.txn.get t).toThread = none ∧ (s.thread.get T).transactionStack = none) ∨
        (s.txn.get t).toThread = some T) := by
  obtain ⟨F, hF⟩ := h.forest
  obtain ⟨m, hm, htm⟩ := (hF.call_iff t).1 hcall
  obtain ⟨post, rfl⟩ := (hF.chain m hm).eq_head htm (callsOf_queued.2 ⟨l, hq⟩)
  rcases (h.placed l t hq).list hcall with ⟨R, rfl, hto⟩ | ⟨q, rfl, hto⟩
  · obtain rfl : R = T := by
      rcases hr with hr | ⟨hr, -⟩ <;> cases hr
      rfl
    refine ⟨fun hs => ?_, Or.inr hto⟩
    exact (hF.chain _ hm).2.2.2.1 R hs (by simpa [callsOf] using hto)
  · obtain ⟨-, hnone⟩ : _ ∧ (s.thread.get T).transactionStack = none := by
      rcases hr with hr | hr
      · cases hr
      · exact hr
    have htop : (callsOf gone none s).top T = none := by simp [callsOf, hg, hnone]
    refine ⟨fun hs => ?_, Or.inl ⟨hto, hnone⟩⟩
    have := hF.involves_none htop hcall
    rw [Calls.involves_iff.2 (Or.inl hs)] at this
    cases this

theorem CallInv.deliver (h : CallInv L gone none s) (hT : T < s.thread.next) (hg : gone T = false)
    (hawake : (s.thread.get T).asleep = none) (hq : s.queued l t) (hr : Reads s T l)
    (hcall : (s.txn.get t).needReply = true)
    (hlink : LinkInv L s') (htxn : s'.txn = s.txn) (hth : s'.thread = s.thread)
    (hout : SameOutcomes s s')
    (hqueued : ∀ u, s'.obj.todo.linked (.transaction u) =
      if u = t then false else s.obj.todo.linked (.transaction u)) :
    CallInv L gone none (giveCall s' T t) := by
  obtain ⟨hself, hto⟩ := h.txn.sender_ne hg hq hr hcall
  obtain ⟨F, hF⟩ := h.txn.forest
  obtain ⟨m, hm, htm⟩ := (hF.call_iff t).1 hcall
  have hqt : (callsOf gone none s).queued t = true := callsOf_queued.2 ⟨l, hq⟩
  obtain ⟨post, rfl⟩ := (hF.chain m hm).eq_head htm hqt
  have hnot : ∀ g, ¬s'.queued g t := fun g hg => by
    have := hqueued t
    rw [if_pos rfl, Queues.not_linked_iff] at this
    exact this g hg
  have hget : ∀ u, (giveCall s' T t).txn.get u = if u = t then
      { s.txn.get t with toParent := (s.thread.get T).transactionStack, toThread := some T }
      else s.txn.get u := fun u => by
    simp [giveCall, Driver.modThread, Driver.modTxn, Heap.get_modify, htxn, hth]
  have hstack : ∀ S, ((giveCall s' T t).thread.get S).transactionStack =
      if S = T then some t else (s.thread.get S).transactionStack := fun S => by
    simp only [giveCall, Driver.modThread, Driver.modTxn, Heap.get_modify, hth]
    split_ifs <;> rfl
  have hkeep : ∀ {β : Type} (g : BinderTransaction → β),
      (∀ x o, g { x with toParent := o, toThread := some T } = g x) →
      ∀ u, g ((giveCall s' T t).txn.get u) = g (s.txn.get u) := fun g hg u => by
    rw [hget]
    split_ifs with hu
    · rw [hg, hu]
    · rfl
  have hdel : Calls.Delivered (callsOf gone none s) (callsOf gone none (giveCall s' T t)) T t := by
    refine ⟨fun u => ?_, fun u _ hut => ?_, ?_, ?_, ?_, ?_, ?_, fun S => ?_⟩
    · simp only [callsOf]
      rw [hkeep (·.needReply) fun _ _ => rfl]
    · have hlu : (giveCall s' T t).obj.todo.linked (.transaction u) =
          s.obj.todo.linked (.transaction u) := (hqueued u).trans (if_neg hut)
      exact ⟨by simp [callsOf, hget, hut], by simp [callsOf, hget, hut], by simp [callsOf, hget, hut],
        by simp [callsOf, hget, hut], hlu⟩
    · simp [callsOf, hget]
    · simp [callsOf, hget]
    · simp [callsOf, hget]
    · simp [callsOf, hget, hg]
    · exact (hqueued t).trans (if_pos rfl)
    · simp only [callsOf, hstack]
      by_cases hS : S = T
      · simp [hS, hg]
      · simp [hS]
  have hforest : (callsOf gone none (giveCall s' T t)).Forest (gone · = true) none F := by
    refine hF.deliver hdel hm hqt hself ?_
    rcases hto with ⟨h1, h2⟩ | h1
    · exact Or.inl ⟨by simpa [callsOf] using h1, by simp [callsOf, hg, h2]⟩
    · exact Or.inr ⟨by simpa [callsOf] using h1, by simp [hg]⟩
  have hlink' : LinkInv L (giveCall s' T t) := by
    refine LinkInv.setStack (hlink.receiver hnot _ T) ?_ ?_ (some t)
    · exact hth ▸ hT
    · exact hth ▸ hawake
  refine ⟨hlink'.txnInv ⟨F, hforest⟩, ?_, ?_⟩
  · have hthr : ∀ S, (giveCall s' T t).thread.get S = if S = T then
        { s.thread.get T with transactionStack := some t } else s.thread.get S := fun S => by
      simp [giveCall, Driver.modThread, Driver.modTxn, Heap.get_modify, hth]
    constructor
    · intro S hS he
      rw [hthr] at he ⊢
      split_ifs at he ⊢ with hST
      · exact h.err.first T (hST ▸ hS) he
      · exact h.err.first S hS he
    · intro S u hS he hu
      rw [hkeep (·.fromThread) fun _ _ => rfl]
      rw [hthr] at he hu
      split_ifs at he hu with hST
      · cases hu
        exact hST ▸ hself
      · exact h.err.idle S u hS he hu
  · refine h.out.same ⟨hout.outcomes, hout.accepted, hout.clean⟩ ?_
      (hkeep (·.needReply) fun _ _ => rfl) fun u _ => hkeep (·.fromThread) (fun _ _ => rfl) u
    change s'.txn.next = s.txn.next
    rw [htxn]

/-- The buffer of a transaction that is taken off its list is the user's. -/
def allowFree (s : Driver) (o : Option (ℕ × ℕ)) : Driver :=
  o.elim s fun b => s.modBuffer b fun B => { B with allowUserFree := true }

theorem LinkInv.allowFree (h : LinkInv L s) (hlt : t < s.txn.next) (hlive : (s.txn.get t).freed = 0)
    (hq : ∀ l, ¬s.queued l t) : LinkInv L (allowFree s (s.txn.get t).buffer) := by
  cases hb : (s.txn.get t).buffer with
  | none => exact h
  | some b =>
    refine h.modBuffer (f := fun B => { B with allowUserFree := true })
      (fun _ => ⟨rfl, rfl, rfl, rfl, rfl⟩) (fun _ => rfl) (fun _ => rfl) fun l u hu hub => ?_
    have hut : u ≠ t := fun he => hq l (he ▸ hu)
    have hp := h.placed l u hu
    exact absurd hb (h.other hut hp.lt hp.live hub hlt hlive)

/-- The transaction is taken off its list, with an event for the user. -/
def takeUp (s : Driver) (t : ℕ) (e : Event) : Driver :=
  allowFree (unqueue ((s.bugOn (s.bufferOf t).isNone .noBuffer).note e) (.transaction t))
    (s.txn.get t).buffer

/-- The event for the reader `T`. -/
def readEvent (s : Driver) (T t : ℕ) : Event :=
  .br T (if (s.bufferOf t).any (·.targetNode.isSome) then
    .transaction t ((s.txn.get t).fromThread.elim 0 fun S => (s.proc.get (s.thread.get S).proc).pid)
    else .reply t)

theorem readTransaction_eq (s : Driver) (T t ptr : ℕ) (fault : ℕ → Bool) :
    readTransaction s T t ptr fault =
      if fault ptr || fault (ptr + 4) then (s.bugOn (s.bufferOf t).isNone .noBuffer, .fault)
      else
        (if (s.bufferOf t).any (·.targetNode.isSome) && !(s.txn.get t).flags.oneWay then
          giveCall (takeUp s t (readEvent s T t)) T t
        else freeTransaction (takeUp s t (readEvent s T t)) t, .done (ptr + 68)) := rfl

theorem allowFree_txn (o : Option (ℕ × ℕ)) : (allowFree s o).txn = s.txn := by cases o <;> rfl

theorem allowFree_obj (o : Option (ℕ × ℕ)) : (allowFree s o).obj = s.obj := by cases o <;> rfl

theorem allowFree_thread (o : Option (ℕ × ℕ)) : (allowFree s o).thread = s.thread := by
  cases o <;> rfl

theorem allowFree_history (o : Option (ℕ × ℕ)) : (allowFree s o).history = s.history := by
  cases o <;> rfl

theorem CallInv.readTransaction {ptr : ℕ} {fault : ℕ → Bool} (h : CallInv L gone none s)
    (hT : T < s.thread.next) (hg : gone T = false) (hawake : (s.thread.get T).asleep = none)
    (hq : s.queued l t) (hr : Reads s T l) :
    CallInv L gone none (readTransaction s T t ptr fault).1 := by
  have hp := h.txn.placed l t hq
  have hbug : CallInv L gone none (s.bugOn (s.bufferOf t).isNone .noBuffer) :=
    h.same (same_bugOn _ _) (fun _ => rfl) (fun _ => rfl) (sameOutcomes_bugOn fun _ => rfl)
  set e := readEvent s T t with he
  set s₁ := (s.bugOn (s.bufferOf t).isNone .noBuffer).note e with hs₁
  have hnote : SameOutcomes (s.bugOn (s.bufferOf t).isNone .noBuffer) s₁ :=
    sameOutcomes_note rfl rfl rfl
  have h₁ : CallInv L gone none s₁ := hbug.same (same_note _) (fun _ => rfl) (fun _ => rfl) hnote
  set s₂ := Binder.unqueue s₁ (.transaction t) with hs₂
  have hnot : ∀ g, ¬s₂.queued g t := fun g hg => (queued_unqueue.1 hg).2 rfl
  have htake : takeUp s t e = Binder.allowFree s₂ (s₂.txn.get t).buffer := rfl
  rw [readTransaction_eq, h.txn.isCall hq, ← he]
  split_ifs with hfault hcall
  · exact hbug
  · -- a call
    have hlink : LinkInv L (takeUp s t e) :=
      (h₁.txn.link.unqueue (.transaction t)).allowFree hp.lt hp.live hnot
    refine h.deliver hT hg hawake hq hr hcall hlink ?_ ?_ ?_ fun u => ?_
    · exact allowFree_txn _
    · exact allowFree_thread _
    · have hbugs : SameOutcomes s (s.bugOn (s.bufferOf t).isNone .noBuffer) :=
        sameOutcomes_bugOn fun _ => rfl
      refine (hbugs.trans hnote).trans (.of_eq (allowFree_history _) ?_)
      rw [htake, allowFree_obj]
      rfl
    · rw [htake, allowFree_obj]
      split_ifs with hut
      · subst hut
        exact Queues.not_linked_iff.2 fun g hg => (Queues.mem_del.1 hg).2 rfl
      · rw [Bool.eq_iff_iff, Queues.linked_iff, Queues.linked_iff]
        exact exists_congr fun g => Queues.mem_del.trans (and_iff_left fun hu => hut (by cases hu; rfl))
  · -- a reply, or a call that nobody waits for
    have hno : (s.txn.get t).needReply = false := by simpa using hcall
    have h₂ : CallInv L gone none s₂ := by
      have := h₁.takeOff (l := l) hq
      rwa [if_neg (show ¬(s₁.txn.get t).needReply = true from hcall)] at this
    have h₃ : CallInv L gone none (takeUp s t e) := by
      refine ⟨(h₂.txn.link.allowFree hp.lt hp.live hnot).txnInv ?_, ?_, ?_⟩
      · have hcalls : callsOf gone none (takeUp s t e) = callsOf gone none s₂ := by
          unfold callsOf
          rw [htake, allowFree_txn, allowFree_obj, allowFree_thread]
        rw [htake] at hcalls
        exact hcalls ▸ h₂.txn.forest
      · exact h₂.err.same (allowFree_thread _) fun u => by rw [htake, allowFree_txn]
      · refine h₂.out.same' (.of_eq (allowFree_history _) ?_) (allowFree_txn _)
        rw [htake, allowFree_obj]
    refine h₃.freeTransaction ?_ (fun g hg => hnot g ?_) ?_ ?_
    · rw [htake, allowFree_txn]
      exact hno
    · rwa [Driver.queued, htake, allowFree_obj] at hg
    · rw [htake, allowFree_txn]
      exact hp.lt
    · rw [htake, allowFree_txn]
      exact hp.live

/-! The other items, and the ends of a read -/

theorem CallInv.ite {c : Prop} [Decidable c] (h : c → CallInv L gone loose s)
    (h' : ¬c → CallInv L gone loose s') : CallInv L gone loose (if c then s else s') := by
  split
  · exact h ‹_›
  · exact h' ‹_›

theorem CallInv.note (h : CallInv L gone loose s) {e : Event} (h1 : e.outcomeOf = none)
    (h2 : e.isAccepted = false) (h3 : e.isBad = false) : CallInv L gone loose (s.note e) :=
  h.same (same_note _) (fun _ => rfl) (fun _ => rfl) (sameOutcomes_note h1 h2 h3)

theorem CallInv.modProc (h : CallInv L gone loose s) {f : BinderProc → BinderProc}
    (h1 : ∀ x, (f x).area = x.area) (h2 : ∀ x, (f x).released = x.released)
    (h3 : ∀ x, x.closed = true → (f x).closed = true) : CallInv L gone loose (s.modProc p f) :=
  h.same (same_modProc h1 h2 h3) (fun _ => rfl) (fun _ => rfl) (.of_eq rfl rfl)

/-- A change of a thread that it may always make. -/
structure Harmless (f : BinderThread → BinderThread) : Prop where
  stack : ∀ y, (f y).transactionStack = y.transactionStack
  proc : ∀ y, (f y).proc = y.proc
  freed : ∀ y, (f y).freed = y.freed
  asleep : ∀ y g, (f y).asleep = some g → y.asleep = some g ∨ g.waitForProcWork = false
  errors : ∀ y, (f y).returnError2 ≠ .ok → y.returnError2 ≠ .ok ∧
    (y.returnError ≠ .ok → (f y).returnError ≠ .ok)

theorem CallInv.modThread (h : CallInv L gone loose s) {f : BinderThread → BinderThread}
    (hf : Harmless f) : CallInv L gone loose (s.modThread T f) := by
  have hsame : TxnSame L s (s.modThread T f) := same_modThread hf.stack hf.proc hf.freed hf.asleep
  refine ⟨h.txn.same hsame, h.err.mono (fun _ => id) (fun S _ he => ?_) fun S u _ _ hu hsu =>
    ⟨hsame.stack S ▸ hu, hsu⟩, h.out.same' (.of_eq rfl rfl) rfl⟩
  simp only [Driver.modThread, Heap.get_modify] at he ⊢
  split_ifs at he ⊢ with hST
  · subst hST
    exact hf.errors _ he
  · exact ⟨he, id⟩

theorem CallInv.readDone {ptr : ℕ} {fault : ℕ → Bool} (h : CallInv L gone loose s) :
    CallInv L gone loose (readDone s T ptr fault) := by
  have hspawn : CallInv L gone loose (s.modProc (s.thread.get T).proc fun p =>
      { p with requestedThreads := p.requestedThreads + 1 }) :=
    h.modProc (fun _ => rfl) (fun _ => rfl) fun _ => id
  unfold Binder.readDone
  dsimp only
  split_ifs
  · exact hspawn
  · exact (hspawn.note rfl rfl rfl).note rfl rfl rfl
  · exact h.note rfl rfl rfl

theorem CallInv.reportErrors {size ptr : ℕ} {fault : ℕ → Bool} (h : CallInv L gone loose s) :
    CallInv L gone loose (reportErrors s T size ptr fault) := by
  have hreport : ∀ (s : Driver) (e : ReturnError) (ptr : ℕ), CallInv L gone loose s →
      (s.thread.get T).returnError2 = .ok → CallInv L gone loose
      (if fault ptr then s
        else Binder.readDone ((s.note (.br T (.returnError e))).modThread T fun y =>
          { y with returnError := .ok }) T (ptr + 4) fault) := fun s e ptr hs hok => by
    split_ifs
    · exact hs
    · have hn : CallInv L gone loose (s.note (.br T (.returnError e))) := hs.note rfl rfl rfl
      refine CallInv.readDone ⟨hn.txn.same (same_modThread (fun _ => rfl) (fun _ => rfl)
        (fun _ => rfl) fun _ _ => Or.inl), hn.err.mono (fun _ => id) (fun S _ he => ?_)
        fun S u _ _ hu hsu => ⟨?_, hsu⟩, hn.out.same' (.of_eq rfl rfl) rfl⟩
      · simp only [Driver.modThread, Driver.note, Heap.get_modify] at he ⊢
        split_ifs at he ⊢ with hST
        · exact absurd hok he
        · exact ⟨he, id⟩
      · simp only [Driver.modThread, Driver.note, Heap.get_modify] at hu ⊢
        split_ifs at hu ⊢ with hST
        · exact hST ▸ hu
        · exact hu
  have hnote : CallInv L gone loose (s.note (.br T (.returnError (s.thread.get T).returnError2))) :=
    h.note rfl rfl rfl
  have hclear : Harmless fun y => { y with returnError2 := .ok } :=
    ⟨fun _ => rfl, fun _ => rfl, fun _ => rfl, fun _ _ => Or.inl, fun _ he => absurd rfl he⟩
  unfold Binder.reportErrors
  refine CallInv.ite (fun h2 => hreport s _ ptr h h2) fun _ => .ite (fun _ => h) fun _ => ?_
  refine CallInv.ite (fun _ => hnote.readDone) fun _ => hreport _ _ _ (hnote.modThread hclear) ?_
  simp [Driver.modThread]

theorem CallInv.waitForWork {size ptr : ℕ} {nonBlock : Bool} {fault : ℕ → Bool}
    (h : CallInv L gone loose s) :
    CallInv L gone loose (waitForWork s T size ptr nonBlock fault) := by
  have hsleep : ∀ (s : Driver) (f : ReadFrame), CallInv L gone loose s →
      (f.waitForProcWork = true → (s.thread.get T).transactionStack = none) →
      CallInv L gone loose (s.modThread T fun y => { y with asleep := some f }) := fun s f hs hw => by
    have hstack : ∀ S, ((s.modThread T fun y => { y with asleep := some f }).thread.get S).transactionStack =
        (s.thread.get S).transactionStack := fun S =>
      s.thread.apply_get_modify T S (fun y => { y with asleep := some f }) (·.transactionStack) fun _ => rfl
    have hsame : TxnSame L s (s.modThread T fun y => { y with asleep := some f }) :=
      { TxnSame.refl (L := L) s with
        stack := hstack
        threadProc := fun S =>
          s.thread.apply_get_modify T S (fun y => { y with asleep := some f }) (·.proc) fun _ => rfl
        freed := fun S =>
          s.thread.apply_get_modify T S (fun y => { y with asleep := some f }) (·.freed) fun _ => rfl
        waits := fun S g hg hwg => by
          simp only [Driver.modThread, Heap.get_modify] at hg
          split_ifs at hg with hST
          · cases hg
            exact Or.inl ((hstack S).trans (hST ▸ hw hwg))
          · exact Or.inr hg }
    exact hs.same hsame
      (fun S => s.thread.apply_get_modify T S (fun y => { y with asleep := some f }) (·.returnError)
        fun _ => rfl)
      (fun S => s.thread.apply_get_modify T S (fun y => { y with asleep := some f }) (·.returnError2)
        fun _ => rfl) (.of_eq rfl rfl)
  unfold Binder.waitForWork
  dsimp only
  split_ifs with h1 h2
  · exact h.reportErrors
  · refine hsleep _ _ (h.modProc (fun _ => rfl) (fun _ => rfl) fun _ => id) fun hw => ?_
    simp only [Bool.and_eq_true, Option.isNone_iff_eq_none] at hw
    exact hw.1
  · refine hsleep _ _ h fun hw => ?_
    exact absurd hw h2

theorem CallInv.stopWaiting {f : ReadFrame} (h : CallInv L gone loose s) :
    CallInv L gone loose (stopWaiting s T f) := by
  have hawake : Harmless fun y => { y with asleep := none } := by
    refine ⟨fun _ => rfl, fun _ => rfl, fun _ => rfl, fun _ _ hg => ?_, fun _ he => ⟨he, id⟩⟩
    cases hg
  unfold Binder.stopWaiting
  refine CallInv.modThread (.ite (fun _ => ?_) fun _ => h) hawake
  exact h.modProc (fun _ => rfl) (fun _ => rfl) fun _ => id

theorem CallInv.readNode {n ptr : ℕ} {fault : ℕ → Bool} (h : CallInv L gone loose s) :
    CallInv L gone loose (readNode s T n ptr fault).1 := by
  unfold Binder.readNode
  split
  · rename_i cmd x hc
    have hproc : x.proc = (s.obj.node.get n).proc := by
      unfold nodeCommand at hc
      dsimp only at hc
      split_ifs at hc <;> (cases hc; rfl)
    have hq : Quiet s.obj (s.obj.modNode n fun _ => x) := by
      have hget : ∀ m, ((s.obj.modNode n fun _ => x).node.get m).proc = (s.obj.node.get m).proc :=
        fun m => by
          simp only [Objects.modNode, Heap.get_modify]
          split_ifs with hm
          · rw [hproc, hm]
          · rfl
      exact ⟨rfl, le_rfl, fun m _ => hget m, fun m _ => hget m, rfl, fun _ => Or.inl⟩
    have hx := h.quiet (f := fun o => o.modNode n fun _ => x) hq
    dsimp only
    split_ifs
    · exact hx
    · exact hx.note rfl rfl rfl
  · exact h.quiet (f := fun o => settleNode o (s.thread.get T).proc n) (settleNode_quiet _ _ _)

theorem CallInv.readDeath {d ptr : ℕ} {fault : ℕ → Bool} (h : CallInv L gone loose s) :
    CallInv L gone loose (readDeath s T d ptr fault).1 := by
  unfold Binder.readDeath
  split
  · exact h
  · split_ifs
    · exact h
    · exact (h.note (e := .br T (.clearDeathNotificationDone d)) rfl rfl rfl).quiet
        (f := fun o => freeDeath o d) (freeDeath_quiet _ d)
    · exact (h.note (e := .br T (.deadBinder d)) rfl rfl rfl).quiet
        (f := fun o => { o with
          todo := o.todo.moveHead (.deliveredDeath (s.thread.get T).proc) (.death d) })
        (quiet_todo _ (messages_moveHead _ _ rfl))

theorem CallInv.readComplete (h : CallInv L gone loose s) (t : ℕ) :
    CallInv L gone loose (readComplete s T t) :=
  (h.note (e := .br T (.transactionComplete t)) rfl rfl rfl).unqueue (w := .transactionComplete t)
    (by simp)

theorem CallInv.readItem {w : Work} (ptr : ℕ) (fault : ℕ → Bool) (h : CallInv L gone none s)
    (hT : T < s.thread.next) (hg : gone T = false) (hawake : (s.thread.get T).asleep = none)
    (hw : (l, w) ∈ s.obj.todo.entries) (hr : Reads s T l) :
    CallInv L gone none (readItem s T ptr fault w).1 := by
  cases w with
  | transaction t => exact h.readTransaction hT hg hawake hw hr
  | transactionComplete t =>
    have hread := h.readComplete (T := T) t
    simp only [Binder.readItem]
    split_ifs
    · exact h
    · exact hread
  | node n => exact h.readNode
  | death d => exact h.readDeath

/-- The item that is taken next is on a list that the thread reads. -/
theorem nextWork_mem {w : Work} {wait : Bool} (hw : nextWork s T wait = some w)
    (hwait : wait = true → (s.thread.get T).transactionStack = none) :
    ∃ l, (l, w) ∈ s.obj.todo.entries ∧ Reads s T l := by
  unfold nextWork at hw
  split at hw
  · rename_i v hv
    cases hw
    exact ⟨_, Queues.first_mem hv, Or.inl rfl⟩
  · split_ifs at hw with hwt
    exact ⟨_, Queues.first_mem hw, Or.inr ⟨rfl, hwait hwt⟩⟩

theorem CallInv.readLoop {f : ReadFrame} {fault : ℕ → Bool} {k ptr : ℕ} (h : CallInv L gone none s)
    (hT : T < s.thread.next) (hg : gone T = false) (hawake : (s.thread.get T).asleep = none)
    (hwait : f.waitForProcWork = true → (s.thread.get T).transactionStack = none) :
    CallInv L gone none (readLoop L T f fault k s ptr) := by
  induction k generalizing s ptr with
  | zero => exact h
  | succ k ih =>
    unfold Binder.readLoop
    split
    · split_ifs
      · exact h.waitForWork
      · exact h.readDone
    · rename_i w hw
      obtain ⟨l, hl, hr⟩ := nextWork_mem hw hwait
      have hitem := h.readItem ptr fault hT hg hawake hl hr
      split_ifs
      · exact h.readDone
      · split
        · rename_i s' n he
          obtain ⟨-, -, hth, -⟩ := readItem_next (K := .still) s T fault he
          rw [he] at hitem
          exact ih hitem (hth ▸ hT) (hth ▸ hawake) (hth ▸ hwait)
        · rename_i he
          rw [he] at hitem
          exact hitem
        · rename_i he
          rw [he] at hitem
          exact hitem.readDone

theorem stopWaiting_thread (s : Driver) (T : ℕ) (f : ReadFrame) :
    (stopWaiting s T f).thread.get T = { s.thread.get T with asleep := none } ∧
      (stopWaiting s T f).thread.next = s.thread.next := by
  unfold stopWaiting
  dsimp only
  constructor
  · split_ifs <;> simp [Driver.modThread, Driver.modProc]
  · split_ifs <;> rfl

theorem CallInv.resumeRead {fault : ℕ → Bool} (h : CallInv L gone none s) (hT : T < s.thread.next)
    (hg : gone T = false) : CallInv L gone none (resumeRead L s T fault) := by
  unfold Binder.resumeRead
  split
  · exact h
  · rename_i f hf
    split
    · exact h
    · exact h.stopWaiting
    · obtain ⟨hget, hnext⟩ := stopWaiting_thread s T f
      refine h.stopWaiting.readLoop (hnext ▸ hT) hg ?_ fun hw => ?_
      · rw [hget]
      · rw [hget]
        exact h.txn.waits T f hf hw

end Binder
