import BinderIpc.Async.Free

/-! One-way transactions over `BC_TRANSACTION` and `BC_REPLY`. -/

namespace Binder

variable {L : Layout} {rb : RbTree ℕ} {s s' : Driver} {t T p q a : ℕ} {tr : TransactionData}
  {target : Target} {A : BinderArea} {env : TransactionEnv}

/-! The new transaction -/

/-- A new transaction that has no buffer yet. -/
theorem kept_allocTxn {K : AsyncScope} (s : Driver) {x : BinderTransaction} (h1 : x.fromParent = none)
    (h2 : x.toParent = none) : AsyncKept L K s { s with txn := s.txn.alloc x } := by
  set s' : Driver := { s with txn := s.txn.alloc x } with hs'
  have hold : ∀ u < s.txn.next, s'.txn.get u = s.txn.get u := fun u hu =>
    s.txn.get_alloc_ne u x hu.ne
  have hcalled : ∀ u, s.Called u → s'.Called u := fun u hu =>
    hu.mono (Nat.le_succ _) fun u hu => by rw [hold u hu]
  intro hs
  refine { AsyncKept.refl (L := L) (K := K) s hs with
    sound := ⟨hs.area, fun S u hu => hcalled u (hs.stack S u hu), fun u v hv => hcalled v ?_,
      fun b B u hB hu => ?_⟩
    next := Nat.le_succ _
    flags := fun u hu => by rw [hold u hu]
    loses := fun u hu => Or.inl (by rw [hold u hu])
    buffer := fun _ u hu _ => Or.inl (by rw [hold u hu]) }
  · by_cases hu : u = s.txn.next
    · have hself : s'.txn.get u = x := hu ▸ s.txn.get_alloc_self x
      rw [hself, h1, h2] at hv
      simp at hv
    · exact hs.parents u v (s.txn.get_alloc_ne u x hu ▸ hv)
  · obtain ⟨hlt, hb⟩ := hs.linked b B u hB hu
    exact ⟨hlt.trans (Nat.lt_succ_self _), (hold u hlt).symm ▸ hb⟩

/-- An area that refused a buffer. -/
theorem kept_area {K : AsyncScope} (s : Driver) (h : SameHeaders (s.proc.get p).area A) :
    AsyncKept L K s (s.modProc p fun x => { x with area := A }) := by
  refine kept_setProc s p (fun hfit => ?_) (fun a => by rw [h.liveAt]) id fun _ => Or.inr
  rcases hfit with hi | ⟨h1, h2, h3⟩
  · exact Or.inl (hi.same L h)
  · exact Or.inr ⟨h.buffers.trans h1, h.allocatedBuffers ▸ h2, h.vma.trans h3⟩

/-- A transaction whose buffer is filled, and that is in no list. -/
structure Posted (s : Driver) (tr : TransactionData) (target : Target) (t a : ℕ) : Prop where
  lt : t < s.txn.next
  flags : (s.txn.get t).flags = tr.flags
  buffer : (s.txn.get t).buffer = some (target.proc, a)
  queued : ∀ l, ¬s.queued l t
  live : ∃ B, s.liveAt (target.proc, a) = some B ∧ B.allowUserFree = false ∧
    B.asyncTransaction = (!target.inReplyTo.isSome && tr.flags.oneWay) ∧ B.targetNode = target.node
  sole : ∀ l u, s.queued l u → (s.proc.get target.proc).released = false →
    (s.txn.get u).buffer ≠ some (target.proc, a)

/-- The node is that of the process, and a one-way transaction has no thread. -/
structure Addressed (s : Driver) (tr : TransactionData) (target : Target) : Prop where
  owner : ∀ n, target.node = some n → n < s.obj.node.next ∧
    ∀ r, (s.obj.node.get n).proc = some r → r = target.proc
  alone : target.inReplyTo = none → tr.flags.oneWay = true → target.thread = none

theorem Addressed.kept {K : AsyncScope} (h : Addressed s tr target) (hk : AsyncStep L K s s') :
    Addressed s' tr target := by
  refine ⟨fun n hn => ?_, h.alone⟩
  obtain ⟨hlt, hown⟩ := h.owner n hn
  refine ⟨hlt.trans_le hk.async.next, fun r hr => ?_⟩
  exact hown r ((hk.owner n r hr).resolve_right fun h' => absurd hlt (not_lt.2 h'.1))

theorem Posted.kept (h : Posted s tr target t a) (hk : AsyncStep L .still s s')
    (htxn : s'.txn = s.txn) : Posted s' tr target t a := by
  obtain ⟨B, hB, h1, h2, h3⟩ := h.live
  obtain ⟨B', hB', h4, h5, h6⟩ := core_eq (((hk.live _).resolve_left id).resolve_left id) hB
  refine ⟨h.lt.trans_le hk.next, ?_, ?_, fun l hl => h.queued l (hk.queued l t hl),
    ⟨B', hB', h6.trans h1, h4.trans h2, h5.trans h3⟩, fun l u hu hopen => ?_⟩
  · rw [htxn, h.flags]
  · rw [htxn, h.buffer]
  · rw [htxn]
    exact h.sole l u (hk.queued l u hu) (hk.released _ hopen)

theorem Posted.ready (h : Posted s tr target t a) : Ready s t := by
  refine ⟨h.lt, h.queued, fun b hb _ => ?_, fun l u b hu hb hopen htb => ?_⟩
  · rw [h.buffer] at hb
    cases hb
    obtain ⟨B, hB, h1, h2, -⟩ := h.live
    refine ⟨B, hB, h1, fun ha => ?_⟩
    rw [h.flags]
    rw [h2] at ha
    exact (Bool.and_eq_true_iff.1 ha).2
  · rw [h.buffer] at htb
    cases htb
    exact h.sole l u hu hopen hb

/-- A step that hands out a buffer takes none. -/
theorem AsyncInv.fresh {b : ℕ × ℕ} (hi : AsyncInv L s)
    (h : AsyncStep L { AsyncScope.still with frees := (· = b) } s s') (hb : s.liveAt b = none) :
    AsyncInv L s' := by
  have hk : Spares { AsyncScope.still with frees := (· = b) } s s' :=
    ⟨fun _ _ => id, fun c l t hc hopen hq hbt => by
      obtain rfl : c = b := hc
      obtain ⟨B, hB, -⟩ := hi.held l t c hq hbt (h.released _ hopen)
      rw [hb] at hB
      cases hB⟩
  refine hi.step h hk fun p n hopen _ _ hp => ?_
  refine hp.imp (fun ⟨a, B, hB, h1, h2, h3⟩ => ?_) (hi.queued_kept h hk hopen
    fun _ _ _ _ _ _ _ => h.stay (fun _ => id) fun _ => id)
  have hne : ((p, a) : ℕ × ℕ) ≠ b := fun he => by
    rw [he, hb] at hB
    cases hB
  obtain ⟨B', hB', h4, h5, h6⟩ := core_eq (h.live_eq (b := (p, a)) hk hopen hne) hB
  exact ⟨a, B', hB', h4.trans h1, h5.trans h2, h6.trans h3⟩

/-- A buffer is filled for a new transaction. -/
theorem AsyncInv.fillFor_step {B : BinderBuffer} (hi : AsyncInv L s) (hA : AreaInv L A)
    (hB : liveAt A a = some B)
    (hat : ∀ d, d ≠ a → liveAt A d = liveAt (s.proc.get target.proc).area d) :
    AsyncStep L { AsyncScope.still with frees := (· = (target.proc, a)) } s
      (fillFor { s with txn := s.txn.alloc (newTransaction T tr target) } tr target s.txn.next A a) := by
  set t := s.txn.next with ht
  set s₀ : Driver := { s with txn := s.txn.alloc (newTransaction T tr target) } with hs₀
  set s' := fillFor s₀ tr target t A a with hs'
  have hlive : ∀ c, s'.liveAt c =
      if c = (target.proc, a) then some (fillBuffer tr target t B) else s.liveAt c :=
    fillFor_liveAt (s := s₀) hB hat
  have hself : s'.txn.get t = { newTransaction T tr target with buffer := some (target.proc, a) } := by
    rw [hs', fillFor_txn, if_pos rfl, hs₀, s.txn.get_alloc_self]
  have hold : ∀ u, u ≠ t → s'.txn.get u = s.txn.get u := fun u hu => by
    rw [hs', fillFor_txn, if_neg hu]
    exact s.txn.get_alloc_ne u (newTransaction T tr target) hu
  have hcalled : ∀ u, s.Called u → s'.Called u := fun u hu =>
    hu.mono (Nat.le_succ _) fun u hu => by rw [hold u hu.ne]
  exact { AsyncKept.refl (L := L) s hi.sound with
    sound := by
      refine ⟨fun r => ?_, fun S u hu => hcalled u (hi.sound.stack S u hu), fun u v hv =>
        hcalled v ?_, fun c C u hC hu => ?_⟩
      · refine fitArea_modBuffer (fun r => ?_) (f := fillBuffer tr target t)
          (fun _ => ⟨rfl, rfl, rfl, rfl, rfl⟩) r
        simp only [Driver.modTxn, Driver.modProc, Heap.get_modify]
        split_ifs
        · exact Or.inl hA
        · exact hi.sound.area r
      · by_cases hu : u = t
        · rw [hu, hself] at hv
          simp [newTransaction] at hv
        · exact hi.sound.parents u v (hold u hu ▸ hv)
      · rw [hlive] at hC
        split_ifs at hC with hc
        · cases hC
          obtain rfl : t = u := Option.some.inj hu
          exact ⟨Nat.lt_succ_self _, Or.inl (by rw [hself, hc])⟩
        · obtain ⟨h1, h2⟩ := hi.sound.linked c C u hC hu
          exact ⟨h1.trans (Nat.lt_succ_self _), hold u h1.ne ▸ h2⟩
    next := Nat.le_succ _
    flags := fun u hu => by rw [hold u hu.ne]
    loses := fun u hu => Or.inl (by rw [hold u hu.ne])
    buffer := fun _ u hu _ => Or.inl (by rw [hold u hu.ne])
    live := fun c => by
      rw [hlive]
      split_ifs with hc
      · exact Or.inr (Or.inl hc)
      · exact Or.inr (Or.inr rfl)
    released := fun r hr => (fillFor_proc (s := s₀) (·.released) (fun _ _ => rfl) r).symm.trans hr
    threads := fun r S hS =>
      Or.inr ((fillFor_proc (s := s₀) (·.threads) (fun _ _ => rfl) r).symm ▸ hS) }

/-- A buffer is handed out for a new transaction. -/
theorem AsyncInv.post {E : PageEnv} (hi : AsyncInv L s) (hd : tr.dataSize < L.sizes)
    (ho : tr.offsetsSize < L.sizes)
    (halloc : binderAllocBuf L rb (s.proc.get target.proc).area E tr.dataSize tr.offsetsSize
      (!target.inReplyTo.isSome && tr.flags.oneWay) = (A, some a)) :
    AsyncInv L (fillFor { s with txn := s.txn.alloc (newTransaction T tr target) } tr target
      s.txn.next A a) ∧
    Posted (fillFor { s with txn := s.txn.alloc (newTransaction T tr target) } tr target
      s.txn.next A a) tr target s.txn.next a := by
  set t := s.txn.next with ht
  set s₀ : Driver := { s with txn := s.txn.alloc (newTransaction T tr target) } with hs₀
  have hvma : (s.proc.get target.proc).area.vma = true := vma_of_alloc (congrArg Prod.snd halloc)
  have harea : AreaInv L (s.proc.get target.proc).area :=
    (hi.sound.area target.proc).resolve_right fun h => by
      rw [h.2.2] at hvma
      cases hvma
  obtain ⟨⟨hnew, ⟨B, hB, -, -, hBasync⟩, hat, -⟩, -⟩ := binderAllocBuf_handed harea hd ho halloc
  have hA : AreaInv L A := by
    have hinv := binderAllocBuf_inv (R := rb) (E := E)
      (u := (!target.inReplyTo.isSome && tr.flags.oneWay)) L harea hd ho
    rwa [halloc] at hinv
  have hfree : s.liveAt (target.proc, a) = none := hnew
  have hself : (fillFor s₀ tr target t A a).txn.get t =
      { newTransaction T tr target with buffer := some (target.proc, a) } := by
    rw [fillFor_txn, if_pos rfl, hs₀, s.txn.get_alloc_self]
  have hnever : ∀ l, ¬s.queued l t := fun l hl => absurd (hi.lt l t hl) (lt_irrefl _)
  refine ⟨hi.fresh (hi.fillFor_step hA hB hat) hfree, ⟨Nat.lt_succ_self _, by rw [hself]; rfl,
    by rw [hself], hnever, ⟨_, (fillFor_liveAt (s := s₀) hB hat _).trans (if_pos rfl), rfl, hBasync,
      rfl⟩, fun l u hu hopen hb => ?_⟩⟩
  have hut : u ≠ t := fun he => hnever l (he ▸ hu)
  rw [fillFor_txn, if_neg hut] at hb
  have hb' : (s.txn.get u).buffer = some (target.proc, a) := by
    rwa [hs₀, s.txn.get_alloc_ne u (newTransaction T tr target) hut] at hb
  obtain ⟨C, hC, -⟩ := hi.held l u _ hu hb'
    ((fillFor_proc (s := s₀) (·.released) (fun _ _ => rfl) target.proc).symm.trans hopen)
  rw [hfree] at hC
  cases hC

/-! The queues -/

theorem home_ne (n : ℕ) : home target ≠ .asyncTodo n := by
  unfold home
  cases target.thread <;> simp

/-- A transaction that no other one of the node is ahead of. -/
theorem AsyncInv.enqueueHome (hi : AsyncInv L s) (ht : Ready s t) :
    AsyncInv L (Binder.enqueue s T t (home target)) :=
  hi.enqueue ht fun n hn => absurd hn (home_ne n)

theorem AsyncInv.queueTransaction (hi : AsyncInv L s) (ht : Posted s tr target t a)
    (haim : Addressed s tr target) : AsyncInv L (queueTransaction s T t target) := by
  have hready := ht.ready
  unfold Binder.queueTransaction
  dsimp only
  set c := (s.bufferOf t).any (·.asyncTransaction)
  cases hr : target.inReplyTo with
  | some u =>
    have hk : AsyncKept L .still s ((binderPopTransaction (s.bugOn c .asyncBuffer) target.thread u).note
        (.replied u t)) :=
      ((kept_bugOn s _ _).trans (binderPopTransaction_kept L _ _ _)).trans (kept_note _ _)
    exact (hi.kept hk).enqueueHome (hready.kept hi hk)
  | none =>
    dsimp only
    by_cases hone : (s.txn.get t).flags.oneWay = true
    · rw [if_neg (by simp [hone])]
      set s₀ := (s.bugOn target.node.isNone .targetNode).bugOn (!c) .asyncBuffer with hs₀
      have hk : AsyncKept L .still s s₀ := (kept_bugOn s _ _).trans (kept_bugOn _ _ _)
      have h₀ := hi.kept hk
      have ht₀ : Posted s₀ tr target t a := ht.kept (hk hi.sound) rfl
      have haim₀ := haim.kept (hk hi.sound)
      obtain ⟨B, hB, -, hasync, htarget⟩ := ht₀.live
      have hasync : B.asyncTransaction = true := by
        rw [hasync, hr, ← ht.flags, hone]
        rfl
      cases hn : target.node with
      | none => exact h₀.enqueueHome ht₀.ready
      | some n =>
        have hsent : ∀ p, (s₀.obj.node.get n).proc = some p → Sent s₀ p n t := fun p hp => by
          obtain rfl := (haim₀.owner n hn).2 p hp
          exact ⟨a, B, ht₀.buffer, hB, hasync, htarget.trans hn⟩
        dsimp only
        split_ifs with hbusy
        · exact h₀.enqueue ht₀.ready fun m hm => by
            cases hm
            exact ⟨(haim₀.owner n hn).1, hbusy, fun p hp _ => hsent p hp⟩
        · have hhome : home target = .procTodo target.proc := by
            rw [home, haim.alone hr (ht.flags ▸ hone)]
            rfl
          have h₁ : AsyncInv L (Binder.enqueue s₀ T t (home target)) := h₀.enqueueHome ht₀.ready
          refine h₁.setFlag (n := n) (v := true) (fun _ => ⟨(haim₀.owner n hn).1, fun p hp hopen =>
            Or.inr ⟨t, home target, ?_, queued_enqueue.2 (Or.inr ⟨rfl, rfl⟩), hsent p hp⟩⟩)
            fun hv => by cases hv
          rw [hhome, (haim₀.owner n hn).2 p hp]
          rfl
    · rw [if_pos (by simpa using hone)]
      have hcall : s.Called t := ⟨ht.lt, by simpa using hone⟩
      have hk : AsyncKept L .still s ((((s.bugOn c .asyncBuffer).modTxn t fun x =>
          { x with needReply := true, fromParent := (s.thread.get T).transactionStack }).modThread T
            fun y => { y with transactionStack := some t }).note (.accepted T t)) := by
        refine AsyncKept.trans ?_ (kept_note _ _)
        refine AsyncKept.trans ?_ (kept_modThread _ T fun u hu _ => ?_)
        · refine (kept_bugOn s _ _).trans (kept_modTxn _ t (fun _ => rfl) (fun _ => rfl) ?_)
          exact fun u hu hs => hu.elim (hs.stack T u) fun hu => hs.parents t u (Or.inr hu)
        · cases hu
          refine hcall.mono le_rfl fun u _ => ?_
          exact s.txn.apply_get_modify t u (fun x =>
            { x with needReply := true, fromParent := (s.thread.get T).transactionStack }) (·.flags)
            fun _ => rfl
      exact (hi.kept hk).enqueueHome (hready.kept hi hk)

/-! The objects, and the way back -/

theorem AsyncInv.undoBuffer {B : BinderBuffer} {k : ℕ} (hi : AsyncInv L s)
    (ht : Posted s tr target t a) : AsyncInv L (undoBuffer L rb s T t env target a B k) := by
  set s₁ := (s.modObj fun o => binderTransactionBufferRelease L o target.proc B (some k)).modBuffer
    (target.proc, a) fun B => { B with transaction := none } with hs₁
  have hk : AsyncKept L .still s s₁ :=
    (kept_quiet s (bufferRelease_quiet _ _ _ _ _) (bufferRelease_sameAsync _ _ _ _ _)).trans
      (kept_modBuffer _ _ (f := fun B => { B with transaction := none })
        (fun _ => ⟨rfl, rfl, rfl, rfl, rfl⟩) (Or.inr fun _ => rfl) fun _ _ h => by cases h)
  have h₁ := hi.kept hk
  have ht₁ : Posted s₁ tr target t a := ht.kept (hk hi.sound) rfl
  obtain ⟨C, hC, hfree, -, -⟩ := ht₁.live
  have h₂ : AsyncInv L (s₁.modProc target.proc fun p =>
      { p with area := binderFreeBuf L rb p.area a env.free }) :=
    h₁.freeBuf env.free hC (fun hopen l u hu => ht₁.sole l u hu hopen) fun n _ _ _ _ _ hu => by
      rw [hfree] at hu
      cases hu
  unfold Binder.undoBuffer
  refine h₂.kept ((kept_txn _ t ?_ ?_ ?_ ?_).trans (failTransaction_kept L _ T _))
  all_goals exact fun _ => rfl

theorem AsyncInv.deliverBuffer {B : BinderBuffer} (hi : AsyncInv L s)
    (ht : Posted s tr target t a) (haim : Addressed s tr target) :
    AsyncInv L (deliverBuffer L rb s T t tr env target a B) := by
  set r := translateBuffer L s.obj (transferOf s T target) env tr B with hr
  set s₁ := (s.modObj fun _ => r.1).modBuffer (target.proc, a) fun B => { B with data := r.2.1 }
    with hs₁
  have hk : AsyncKept L .still s s₁ :=
    (kept_quiet s (f := fun _ => r.1) (translateBuffer_quiet _ _ _ _ _ _)
      (translateBuffer_sameAsync _ _ _ _ _ _)).trans
      (kept_modBuffer _ _ (f := fun B => { B with data := r.2.1 })
        (fun _ => ⟨rfl, rfl, rfl, rfl, rfl⟩) (Or.inr fun _ => rfl) fun _ _ => id)
  have h₁ := hi.kept hk
  have hstep := hk hi.sound
  have ht₁ : Posted s₁ tr target t a := ht.kept hstep rfl
  unfold Binder.deliverBuffer
  dsimp only
  rw [← hr, ← hs₁]
  cases r.2.2 with
  | none => exact h₁.queueTransaction ht₁ (haim.kept hstep)
  | some k => exact h₁.undoBuffer ht₁

theorem AsyncInv.sendTransaction (hi : AsyncInv L s) (haim : Addressed s tr target)
    (hd : tr.dataSize < L.sizes) (ho : tr.offsetsSize < L.sizes) :
    AsyncInv L (sendTransaction L rb s T tr env target) := by
  rw [sendTransaction_eq]
  dsimp only
  split_ifs with hmem
  · exact hi.kept (failTransaction_kept L s T _)
  generalize hr : binderAllocBuf L rb (s.proc.get target.proc).area env.alloc tr.dataSize
    tr.offsetsSize (!target.inReplyTo.isSome && tr.flags.oneWay) = r
  obtain ⟨A, _ | a⟩ := r
  · refine hi.kept (AsyncKept.trans ?_ (failTransaction_kept L _ T _))
    refine AsyncKept.trans ?_ (kept_txn _ s.txn.next (fun _ => rfl) (fun _ => rfl) (fun _ => rfl)
      fun _ => rfl)
    exact (kept_allocTxn s rfl rfl).trans (kept_area _ (binderAllocBuf_refused hr))
  · obtain ⟨h₁, ht₁⟩ := hi.post (T := T) hd ho hr
    have hplace : placeBuffer { s with txn := s.txn.alloc (newTransaction T tr target) } tr target
        s.txn.next A a = (fillFor { s with txn := s.txn.alloc (newTransaction T tr target) } tr target
          s.txn.next A a).modObj fun o =>
            target.node.elim o fun n => (binderIncNode o n true false none).1 := rfl
    have haim₁ : Addressed (fillFor { s with txn := s.txn.alloc (newTransaction T tr target) } tr target
        s.txn.next A a) tr target := ⟨haim.owner, haim.alone⟩
    dsimp only
    rw [hplace]
    set s₁ := fillFor { s with txn := s.txn.alloc (newTransaction T tr target) } tr target s.txn.next A a
    have hk : AsyncKept L .still s₁ (s₁.modObj fun o =>
        target.node.elim o fun n => (binderIncNode o n true false none).1) := by
      cases target.node with
      | none => exact .refl _
      | some n =>
        exact kept_quiet s₁ (binderIncNode_quiet _ _ _ _ _) (binderIncNode_sameAsync _ _ _ _ _ rfl)
    have hstep := hk h₁.sound
    split
    · exact h₁.kept hk
    · exact (h₁.kept hk).deliverBuffer (ht₁.kept hstep rfl) (haim₁.kept hstep)

/-! The target -/

theorem replyTarget_addressed (h : replyTarget s T = (s', .ok target)) : Addressed s' tr target := by
  unfold replyTarget at h
  split at h
  · cases h
  · dsimp only at h
    split_ifs at h
    · cases h
    · split at h
      · cases h
      · split_ifs at h <;> cases h
        refine ⟨fun _ hn => ?_, fun hr => ?_⟩
        · cases hn
        · cases hr

theorem AsyncInv.callTarget (hi : AsyncInv L s) (h : callTarget s T tr = .ok target) :
    Addressed s tr target := by
  unfold Binder.callTarget at h
  cases hn : targetNode s T tr with
  | error f =>
    rw [hn] at h
    cases h
  | ok n =>
    rw [hn] at h
    simp only [bind, Except.bind] at h
    cases hp : (s.obj.node.get n).proc with
    | none =>
      rw [hp] at h
      cases h
    | some q =>
      rw [hp] at h
      dsimp only at h
      split_ifs at h with h1 h2 h2 <;> cases h
      · refine ⟨fun m hm => ?_, fun _ _ => by cases s.txn.next <;> rfl⟩
        cases hm
        exact ⟨hi.unborn n q hp, fun r hr => Option.some.inj (hr.symm.trans hp)⟩
      · refine ⟨fun m hm => ?_, fun _ h3 => absurd h3 h1⟩
        cases hm
        exact ⟨hi.unborn n q hp, fun r hr => Option.some.inj (hr.symm.trans hp)⟩

theorem AsyncInv.binderTransaction {reply : Bool} (hi : AsyncInv L s) (hd : tr.dataSize < L.sizes)
    (ho : tr.offsetsSize < L.sizes) : AsyncInv L (binderTransaction L rb s T tr reply env) := by
  unfold Binder.binderTransaction
  cases reply with
  | true =>
    have hk : AsyncKept L .still s (replyTarget s T).1 := replyTarget_kept L s T
    have haim : ∀ s' target, replyTarget s T = (s', .ok target) → Addressed s' tr target :=
      fun _ _ => replyTarget_addressed
    rw [if_pos rfl]
    generalize replyTarget s T = r at hk haim
    obtain ⟨s₁, f | target⟩ := r
    · exact (hi.kept hk).kept (failTransaction_kept L _ T f)
    · exact (hi.kept hk).sendTransaction (haim _ _ rfl) hd ho
  | false =>
    rw [if_neg (by simp)]
    cases hc : Binder.callTarget s T tr with
    | error f => exact hi.kept (failTransaction_kept L s T f)
    | ok target => exact hi.sendTransaction (hi.callTarget hc) hd ho

/-- A command of a thread of a live process. -/
theorem AsyncInv.binderCommand {env : CommandEnv} {c : Command} (hi : AsyncInv L s)
    (hT : T ∈ (s.proc.get (s.thread.get T).proc).threads)
    (hopen : (s.proc.get (s.thread.get T).proc).released = false)
    (hc : ∀ tr, c = .transaction tr ∨ c = .reply tr → tr.dataSize < L.sizes ∧ tr.offsetsSize < L.sizes) :
    AsyncInv L (binderCommand L rb s T env c) := by
  cases c with
  | ref c target =>
    exact hi.kept (kept_quiet s (f := fun o => refCommand o (s.thread.get T).proc c target env.kzalloc)
      (refCommand_quiet _ _ _ _ _) (refCommand_sameAsync _ _ _ _ _))
  | refDone strong ptr cookie =>
    exact hi.kept (kept_quiet s (f := fun o => refDone o (s.thread.get T).proc strong ptr cookie)
      (refDone_quiet _ _ _ _ _) (refDone_sameAsync _ _ _ _ _))
  | freeBuffer a => exact hi.freeBuffer hT hopen
  | transaction tr => exact hi.binderTransaction (hc tr (Or.inl rfl)).1 (hc tr (Or.inl rfl)).2
  | reply tr => exact hi.binderTransaction (hc tr (Or.inr rfl)).1 (hc tr (Or.inr rfl)).2
  | registerLooper => exact hi.kept (registerLooper_kept L s T)
  | enterLooper => exact hi.kept (kept_thread s T fun _ => rfl)
  | exitLooper => exact hi.kept (kept_thread s T fun _ => rfl)
  | requestDeathNotification target cookie =>
    exact hi.kept (requestDeathNotification_kept L s T target cookie _)
  | clearDeathNotification target cookie => exact hi.kept (clearDeathNotification_kept L s T target cookie)
  | deadBinderDone cookie => exact hi.kept (deadBinderDone_kept L s T cookie)

end Binder
