import BinderIpc.Async.Flow

/-! The steps that queue, deliver and free a one-way transaction. -/

namespace Binder

variable {L : Layout} {rb : RbTree ℕ} {K : AsyncScope} {s s' : Driver} {t u T p n a : ℕ}
  {l : ListHead} {b : ℕ × ℕ} {B : BinderBuffer}

/-! Queueing -/

/-- A transaction that is ready to be queued. -/
structure Ready (s : Driver) (t : ℕ) : Prop where
  lt : t < s.txn.next
  queued : ∀ l, ¬s.queued l t
  held : ∀ b, (s.txn.get t).buffer = some b → (s.proc.get b.1).released = false →
    ∃ B, s.liveAt b = some B ∧ B.allowUserFree = false ∧
      (B.asyncTransaction = true → (s.txn.get t).flags.oneWay = true)
  sole : ∀ l u b, s.queued l u → (s.txn.get u).buffer = some b → (s.proc.get b.1).released = false →
    (s.txn.get t).buffer ≠ some b

theorem Ready.kept (h : Ready s t) (hi : AsyncInv L s) (hk : AsyncKept L .still s s') :
    Ready s' t := by
  have hk := hk hi.sound
  have hback : ∀ {b u}, u < s.txn.next → (s'.txn.get u).buffer = some b →
      (s.txn.get u).buffer = some b := fun {b u} hu hb => by
    rcases hk.loses u hu with h1 | h1
    · exact h1 ▸ hb
    · rw [h1] at hb
      cases hb
  refine ⟨h.lt.trans_le hk.next, fun l hl => h.queued l (hk.queued l t hl), fun b hb hopen => ?_,
    fun l u b hu hb hopen hb' => ?_⟩
  · obtain ⟨B, hB, hu, hone⟩ := h.held b (hback h.lt hb) (hk.released _ hopen)
    obtain ⟨B', hB', h1, -, h3⟩ := core_eq (hk.live_eq spares_still hopen id) hB
    refine ⟨B', hB', h3.trans hu, fun ha => ?_⟩
    rw [hk.flags t h.lt]
    exact hone (h1 ▸ ha)
  · have hu' := hk.queued l u hu
    exact h.sole l u b hu' (hback (hi.lt l u hu') hb) (hk.released _ hopen) (hback h.lt hb')

theorem pending_mono (h : AsyncDelivered s p n ∨ AsyncQueued s p n)
    (hlive : ∀ b, s'.liveAt b = s.liveAt b) (htxn : s'.txn = s.txn)
    (hq : ∀ l t, s.queued l t → s'.queued l t) (hl : ∀ l, s.LiveTodo p l → s'.LiveTodo p l) :
    AsyncDelivered s' p n ∨ AsyncQueued s' p n := by
  rcases h with ⟨a, B, hB, h⟩ | ⟨t, l, hlt, hqt, a, B, hb, hB, h⟩
  · exact Or.inl ⟨a, B, (hlive _).trans hB, h⟩
  · exact Or.inr ⟨t, l, hl l hlt, hq l t hqt, a, B, htxn ▸ hb, (hlive _).trans hB, h⟩

theorem AsyncInv.enqueue (hi : AsyncInv L s) (ht : Ready s t)
    (hl : ∀ n, l = .asyncTodo n → n < s.obj.node.next ∧
      (s.obj.node.get n).hasAsyncTransaction = true ∧
      ∀ p, (s.obj.node.get n).proc = some p → (s.proc.get p).released = false → Sent s p n t) :
    AsyncInv L (enqueue s T t l) := by
  have hentries : ∀ n w, (ListHead.asyncTodo n, w) ∈ (Binder.enqueue s T t l).obj.todo.entries →
      (.asyncTodo n, w) ∈ s.obj.todo.entries ∨ (l = .asyncTodo n ∧ w = .transaction t) := by
    intro n w h
    rcases Queues.mem_addTail.1 h with h | ⟨h, -⟩
    · exact (Queues.mem_addTail.1 h).imp_right fun h => ⟨h.1.symm, h.2⟩
    · cases h
  refine ⟨⟨hi.sound.area, hi.sound.stack, hi.sound.parents, hi.sound.linked⟩, fun g v hv => ?_,
    fun g g' v hv hv' => ?_, fun g v b hv hb hopen => ?_, fun g g' v w b hv hw hb hb' hopen => ?_,
    hi.unborn, hi.blank, fun n w hw => ?_, fun p n v hn hopen hv => ?_, fun n w hn hw => ?_,
    fun p n hn hopen hf => ?_⟩
  · rcases queued_enqueue.1 hv with hv | ⟨-, rfl⟩
    · exact hi.lt g v hv
    · exact ht.lt
  · rcases queued_enqueue.1 hv with hv | ⟨hg, rfl⟩ <;> rcases queued_enqueue.1 hv' with hv' | ⟨hg', hvt⟩
    · exact hi.once g g' v hv hv'
    · exact absurd (hvt ▸ hv) (ht.queued g)
    · exact absurd hv' (ht.queued g')
    · exact hg.trans hg'.symm
  · rcases queued_enqueue.1 hv with hv | ⟨-, rfl⟩
    · exact hi.held g v b hv hb hopen
    · exact ht.held b hb hopen
  · have hne : ∀ {g w}, s.queued g w → (s.txn.get w).buffer = some b →
        (s.txn.get t).buffer ≠ some b := fun hw hb => ht.sole _ _ b hw hb hopen
    rcases queued_enqueue.1 hv with h₁ | ⟨-, h₁⟩ <;> rcases queued_enqueue.1 hw with h₂ | ⟨-, h₂⟩
    · exact hi.sole g g' v w b h₁ h₂ hb hb' hopen
    · exact absurd (h₂ ▸ hb') (hne h₁ hb)
    · exact absurd (h₁ ▸ hb) (hne h₂ hb')
    · exact h₁.trans h₂.symm
  · rcases hentries n w hw with h | ⟨rfl, rfl⟩
    · exact hi.only n w h
    · exact ⟨(hl n rfl).1, t, rfl⟩
  · rcases queued_enqueue.1 hv with hv | ⟨rfl, rfl⟩
    · exact hi.waiting p n v hn hopen hv
    · exact (hl n rfl).2.2 p hn hopen
  · rcases hentries n w hw with h | ⟨rfl, -⟩
    · exact hi.idle n w hn h
    · exact Bool.false_ne_true (hn.symm.trans (hl n rfl).2.1)
  · refine pending_mono (hi.active p n hn hopen hf) (fun _ => rfl) rfl
      (fun g v hv => queued_enqueue.2 (Or.inl hv)) fun g hg => ?_
    cases g <;> exact hg

/-- The flag of a node is set when one is pending, and cleared when nothing waits for it. -/
theorem AsyncInv.setFlag {v : Bool} (hi : AsyncInv L s)
    (hset : v = true → n < s.obj.node.next ∧ ∀ p, (s.obj.node.get n).proc = some p →
      (s.proc.get p).released = false → AsyncDelivered s p n ∨ AsyncQueued s p n)
    (hclear : v = false → ∀ w, (.asyncTodo n, w) ∉ s.obj.todo.entries) :
    AsyncInv L (s.modObj fun o => o.modNode n fun x => { x with hasAsyncTransaction := v }) := by
  set f : BinderNode → BinderNode := fun x => { x with hasAsyncTransaction := v } with hf
  have hproc : ∀ m, ((s.modObj fun o => o.modNode n f).obj.node.get m).proc =
      (s.obj.node.get m).proc := fun m => s.obj.node.apply_get_modify n m f (·.proc) fun _ => rfl
  have hflag : ∀ m, ((s.modObj fun o => o.modNode n f).obj.node.get m).hasAsyncTransaction =
      if m = n then v else (s.obj.node.get m).hasAsyncTransaction := fun m => by
    simp only [Driver.modObj, Objects.modNode, Heap.get_modify]
    split_ifs <;> rfl
  refine ⟨⟨hi.sound.area, hi.sound.stack, hi.sound.parents, hi.sound.linked⟩, hi.lt, hi.once, hi.held,
    hi.sole, fun m q hm => ?_, fun m hm => ?_, hi.only,
    fun p m t hm hopen hq => ?_, fun m w hm hw => ?_, fun p m hm hopen hf => ?_⟩
  · rw [hproc] at hm
    exact hi.unborn m q hm
  · rw [hflag]
    split_ifs with hmn
    · by_contra hv
      exact absurd (hset (by simpa using hv)).1 (not_lt.2 (hmn ▸ hm))
    · exact hi.blank m hm
  · rw [hproc] at hm
    exact hi.waiting p m t hm hopen hq
  · rw [hflag] at hm
    split_ifs at hm with hmn
    · exact hclear hm w (hmn ▸ hw)
    · exact hi.idle m w hm hw
  · rw [hproc] at hm
    have hpend : AsyncDelivered s p m ∨ AsyncQueued s p m := by
      rw [hflag] at hf
      split_ifs at hf with hmn
      · subst hmn
        exact (hset hf).2 p hm hopen
      · exact hi.active p m hm hopen hf
    exact pending_mono hpend (fun _ => rfl) rfl (fun _ _ => id) fun g hg => by cases g <;> exact hg

/-! Delivery -/

/-- The transaction leaves its list, and its buffer may be freed by the user. -/
def deliver (s : Driver) (t : ℕ) : Driver :=
  (s.txn.get t).buffer.elim (unqueue s (.transaction t)) fun b =>
    (unqueue s (.transaction t)).modBuffer b fun B => { B with allowUserFree := true }

theorem queued_deliver : (deliver s t).queued l u ↔ s.queued l u ∧ u ≠ t := by
  have h : (deliver s t).obj = (unqueue s (.transaction t)).obj := by
    unfold deliver
    cases (s.txn.get t).buffer <;> rfl
  rw [Driver.queued, h]
  simp [unqueue, Driver.modObj, Queues.mem_del, Driver.queued]

theorem liveAt_deliver (b : ℕ × ℕ) : (deliver s t).liveAt b =
    if (s.txn.get t).buffer = some b then
      (s.liveAt b).map fun B => { B with allowUserFree := true } else s.liveAt b := by
  unfold deliver
  cases hb : (s.txn.get t).buffer with
  | none =>
    rw [if_neg (by simp)]
    rfl
  | some c =>
    rw [Option.elim_some, liveAt_modBuffer' (f := fun B => { B with allowUserFree := true })
      fun _ => ⟨rfl, rfl, rfl, rfl, rfl⟩]
    by_cases hbc : b = c
    · rw [if_pos hbc, hbc, if_pos rfl]
      rfl
    · rw [if_neg hbc, if_neg fun h => hbc (Option.some.inj h).symm]
      rfl

/-- The thread that reads a transaction takes it off its list. -/
theorem AsyncInv.deliver (hi : AsyncInv L s) (ht : s.queued l t) : AsyncInv L (deliver s t) := by
  set s' := Binder.deliver s t with hs'
  have hobj : s'.obj = (unqueue s (.transaction t)).obj := by
    rw [hs', Binder.deliver]
    cases (s.txn.get t).buffer <;> rfl
  have htxn : s'.txn = s.txn := by
    rw [hs', Binder.deliver]
    cases (s.txn.get t).buffer <;> rfl
  have hthread : s'.thread = s.thread := by
    rw [hs', Binder.deliver]
    cases (s.txn.get t).buffer <;> rfl
  have hproc : ∀ {β : Type} (g : BinderProc → β), (∀ x a, g { x with area := a } = g x) →
      ∀ q, g (s'.proc.get q) = g (s.proc.get q) := fun g hg q => by
    rw [hs', Binder.deliver]
    cases (s.txn.get t).buffer with
    | none => rfl
    | some b => exact proc_modBuffer (s := unqueue s (.transaction t)) g hg b _ q
  have hreleased := hproc (·.released) fun _ _ => rfl
  have hnode : s'.obj.node = s.obj.node := by
    rw [hobj]
    rfl
  have hlist : ∀ {n w}, (ListHead.asyncTodo n, w) ∈ s'.obj.todo.entries →
      (ListHead.asyncTodo n, w) ∈ s.obj.todo.entries := fun h => by
    rw [hobj] at h
    exact (Queues.mem_del.1 h).1
  have hold : ∀ {b B'}, s'.liveAt b = some B' → ∃ B, s.liveAt b = some B ∧
      B'.transaction = B.transaction := fun {b B'} h => by
    rw [liveAt_deliver] at h
    split_ifs at h
    · obtain ⟨B, hB, rfl⟩ := Option.map_eq_some_iff.1 h
      exact ⟨B, hB, rfl⟩
    · exact ⟨B', h, rfl⟩
  -- the buffer of another queued transaction is another one
  have hother : ∀ {g v b}, s'.queued g v → (s.txn.get v).buffer = some b →
      (s.proc.get b.1).released = false → s'.liveAt b = s.liveAt b := fun {g v b} hv hb hopen => by
    obtain ⟨hv, hne⟩ := queued_deliver.1 hv
    rw [liveAt_deliver, if_neg]
    exact fun htb => hne (hi.sole _ _ v t b hv ht hb htb hopen)
  have hcalled : ∀ v, s.Called v → s'.Called v := fun v hv => by
    rw [Driver.Called, htxn]
    exact hv
  refine ⟨⟨fun q => ?_, fun S v hv => hcalled v (hi.sound.stack S v (hthread ▸ hv)), fun v w hw =>
    hcalled w (hi.sound.parents v w (htxn ▸ hw)), fun b B v hB hv => ?_⟩, fun g v hv => ?_,
    fun g g' v hv hv' => ?_, fun g v b hv hb hopen => ?_, fun g g' v w b hv hw hb hb' hopen => ?_,
    fun m q hm => ?_, fun m hm => ?_, fun m w hw => ?_, fun p m v hm hopen hv => ?_, fun m w hm hw => ?_, fun p m hm hopen hf => ?_⟩
  · rw [hs', Binder.deliver]
    cases (s.txn.get t).buffer with
    | none => exact hi.sound.area q
    | some b =>
      exact fitArea_modBuffer (s := unqueue s (.transaction t))
        (f := fun B => { B with allowUserFree := true }) hi.sound.area
        (fun _ => ⟨rfl, rfl, rfl, rfl, rfl⟩) q
  · obtain ⟨B₀, hB₀, h2⟩ := hold hB
    rw [htxn]
    exact hi.sound.linked b B₀ v hB₀ (h2 ▸ hv)
  · rw [htxn]
    exact hi.lt g v (queued_deliver.1 hv).1
  · exact hi.once g g' v (queued_deliver.1 hv).1 (queued_deliver.1 hv').1
  · rw [htxn] at hb ⊢
    rw [hreleased] at hopen
    rw [hother hv hb hopen]
    exact hi.held g v b (queued_deliver.1 hv).1 hb hopen
  · rw [htxn] at hb hb'
    rw [hreleased] at hopen
    exact hi.sole g g' v w b (queued_deliver.1 hv).1 (queued_deliver.1 hw).1 hb hb' hopen
  · rw [hnode] at hm ⊢
    exact hi.unborn m q hm
  · rw [hnode] at hm ⊢
    exact hi.blank m hm
  · rw [hnode]
    exact hi.only m w (hlist hw)
  · rw [hnode] at hm
    rw [hreleased] at hopen
    obtain ⟨a, B, hb, hB, h1, h2⟩ := hi.waiting p m v hm hopen (queued_deliver.1 hv).1
    refine ⟨a, B, htxn ▸ hb, ?_, h1, h2⟩
    rw [hother hv hb hopen]
    exact hB
  · rw [hnode] at hm
    exact hi.idle m w hm (hlist hw)
  · rw [hnode] at hm hf
    rw [hreleased] at hopen
    rcases hi.active p m hm hopen hf with ⟨a, B, hB, h1, h2, h3⟩ | ⟨v, g, hg, hv, a, B, hb, hB, h1, h2⟩
    · left
      by_cases htb : (s.txn.get t).buffer = some (p, a)
      · exact ⟨a, { B with allowUserFree := true },
          by rw [liveAt_deliver, if_pos htb, hB]; rfl, h1, h2, rfl⟩
      · exact ⟨a, B, by rw [liveAt_deliver, if_neg htb]; exact hB, h1, h2, h3⟩
    · by_cases hvt : v = t
      · subst hvt
        exact Or.inl ⟨a, { B with allowUserFree := true },
          by rw [liveAt_deliver, if_pos hb, hB]; rfl, h1, h2, rfl⟩
      · have hv' := queued_deliver.2 ⟨hv, hvt⟩
        refine Or.inr ⟨v, g, ?_, hv', a, B, htxn ▸ hb, (hother hv' hb hopen).trans hB, h1, h2⟩
        cases g with
        | threadTodo S => exact (congrArg (S ∈ ·) (hproc (·.threads) (fun _ _ => rfl) p)).mpr hg
        | procTodo q => exact hg
        | asyncTodo k => exact hg
        | deliveredDeath q => exact hg

/-- What becomes of a transaction that was read. -/
theorem AsyncInv.readTransaction {ptr : ℕ} {fault : ℕ → Bool} (hi : AsyncInv L s)
    (ht : s.queued l t) : AsyncInv L (readTransaction s T t ptr fault).1 := by
  unfold Binder.readTransaction
  dsimp only
  have h₀ : AsyncInv L (s.bugOn (s.bufferOf t).isNone .noBuffer) := hi.kept (kept_bugOn s _ _)
  have ht₀ : (s.bugOn (s.bufferOf t).isNone .noBuffer).queued l t := ht
  generalize s.bugOn (s.bufferOf t).isNone .noBuffer = s₀ at h₀ ht₀ ⊢
  generalize (s₀.bufferOf t).any (·.targetNode.isSome) = call
  have hend : ∀ s₁, AsyncInv L s₁ → s₁.txn = s₀.txn → AsyncInv L
      (if call && !(s₀.txn.get t).flags.oneWay then
        (s₁.modTxn t fun x => { x with
          toParent := (s₁.thread.get T).transactionStack, toThread := some T }).modThread T fun y =>
            { y with transactionStack := some t }
      else freeTransaction s₁ t) := fun s₁ h₁ htxn => by
    split_ifs with hcall
    · refine h₁.kept (AsyncKept.trans ?_ (kept_modThread _ T fun u hu _ => ?_))
      · exact kept_modTxn s₁ t (fun _ => rfl) (fun _ => rfl) fun u hu hs =>
          hu.elim (fun hu => hs.parents t u (Or.inl hu)) (hs.stack T u)
      · cases hu
        have hone : (s₁.txn.get t).flags.oneWay = false := by
          rw [htxn]
          simp only [Bool.and_eq_true, Bool.not_eq_true'] at hcall
          exact hcall.2
        have hlt : t < s₁.txn.next := htxn ▸ h₀.lt l t ht₀
        refine Driver.Called.mono (s := s₁) ⟨hlt, hone⟩ le_rfl fun u _ => ?_
        simp only [Driver.modTxn, Heap.get_modify]
        split_ifs with hut
        · rw [hut]
        · rfl
    · exact h₁.kept (freeTransaction_kept L s₁ t)
  split
  · exact h₀
  · refine hend (Binder.deliver (s₀.note _) t) ((h₀.kept (kept_note s₀ _)).deliver ht₀) ?_
    unfold Binder.deliver
    cases ((s₀.note _).txn.get t).buffer <;> rfl

/-! Freeing -/

/-- A buffer goes that no queued transaction has; where it was delivered, another is queued. -/
theorem AsyncInv.freeBuf (hi : AsyncInv L s) (env : PageEnv) (hB : s.liveAt (p, a) = some B)
    (hsole : (s.proc.get p).released = false → ∀ l t, s.queued l t →
      (s.txn.get t).buffer ≠ some (p, a))
    (hnext : ∀ n, (s.proc.get p).released = false → (s.obj.node.get n).hasAsyncTransaction = true →
      (s.obj.node.get n).proc = some p → B.asyncTransaction = true → B.targetNode = some n →
        B.allowUserFree = true → AsyncQueued s p n) :
    AsyncInv L (s.modProc p fun x => { x with area := binderFreeBuf L rb x.area a env }) := by
  set K : AsyncScope := { AsyncScope.still with frees := (· = (p, a)) } with hK
  have h := freeBuf_kept (K := K) L rb s p env (a := a) (by rw [hB]; rfl) (Or.inl rfl) hi.sound
  have hk : Spares K s (s.modProc p fun x => { x with area := binderFreeBuf L rb x.area a env }) :=
    ⟨fun _ _ => id, fun b l t hf hopen hq hb => by
      obtain rfl : b = (p, a) := hf
      exact hsole (h.released p hopen) l t hq hb⟩
  refine hi.step h hk fun q n hopen hf hn hp => ?_
  have hstay : AsyncQueued s q n → AsyncQueued _ q n := hi.queued_kept h hk hopen
    fun _ _ _ _ _ _ _ => h.stay (fun _ => id) fun _ => id
  by_cases hqp : q = p
  · subst hqp
    rcases hp with ⟨c, C, hC, h1, h2, h3⟩ | hp
    · by_cases hca : c = a
      · subst hca
        rw [hB] at hC
        cases hC
        exact Or.inr (hstay (hnext n (h.released q hopen) hf hn h1 h2 h3))
      · obtain ⟨C', hC', h4, h5, h6⟩ := core_eq (h.live_eq (b := (q, c)) hk hopen
          fun he => hca (congrArg Prod.snd he)) hC
        exact Or.inl ⟨c, C', hC', h4.trans h1, h5.trans h2, h6.trans h3⟩
    · exact Or.inr (hstay hp)
  · exact hp.imp (h.delivered_kept hk hopen fun c he => hqp (congrArg Prod.fst he)) hstay

/-- The first of the transactions that wait for a node goes to a thread of its process. -/
theorem AsyncInv.move (hi : AsyncInv L s) (ht : s.queued (.asyncTodo n) t)
    (hT : T ∈ (s.proc.get p).threads) (hopen : (s.proc.get p).released = false) :
    AsyncInv L (s.modObj fun o =>
      { o with todo := o.todo.moveTail (.threadTodo T) (.transaction t) }) ∧
    ((s.obj.node.get n).proc = some p → AsyncQueued (s.modObj fun o =>
      { o with todo := o.todo.moveTail (.threadTodo T) (.transaction t) }) p n) := by
  set s' := s.modObj fun o =>
    { o with todo := o.todo.moveTail (.threadTodo T) (.transaction t) } with hs'
  have hmem : ∀ l u, s'.queued l u ↔ (s.queued l u ∧ u ≠ t) ∨ (l = .threadTodo T ∧ u = t) := by
    intro l u
    simp only [hs', Driver.queued, Driver.modObj, Queues.mem_moveTail, ne_eq, Work.transaction.injEq]
  have hwas : ∀ l u, s'.queued l u → ∃ g, s.queued g u := fun l u hu => by
    rcases (hmem l u).1 hu with ⟨hu, -⟩ | ⟨-, rfl⟩
    · exact ⟨l, hu⟩
    · exact ⟨_, ht⟩
  have hlist : ∀ m w, (ListHead.asyncTodo m, w) ∈ s'.obj.todo.entries →
      (ListHead.asyncTodo m, w) ∈ s.obj.todo.entries := fun m w hw => by
    rcases Queues.mem_moveTail.1 hw with ⟨hw, -⟩ | ⟨hw, -⟩
    · exact hw
    · cases hw
  have hqueued : ∀ q m, AsyncQueued s q m → AsyncQueued s' q m := by
    rintro q m ⟨u, l, hl, hu, hsent⟩
    refine ⟨u, l, by cases l <;> exact hl, (hmem l u).2 (Or.inl ⟨hu, ?_⟩), hsent⟩
    rintro rfl
    cases hi.once _ _ _ hu ht
    exact hl
  refine ⟨⟨⟨hi.sound.area, hi.sound.stack, hi.sound.parents, hi.sound.linked⟩, fun l u hu => ?_,
    fun l l' u hu hu' => ?_, fun l u b hu hb ho => ?_, fun l l' u v b hu hv hb hb' ho => ?_,
    hi.unborn, hi.blank, fun m w hw => hi.only m w (hlist m w hw),
    fun q m u hm ho hu => hi.waiting q m u hm ho (hlist m _ hu),
    fun m w hm hw => hi.idle m w hm (hlist m w hw), fun q m hm ho hf =>
      (hi.active q m hm ho hf).imp id (hqueued q m)⟩, fun hproc => ?_⟩
  · obtain ⟨g, hu⟩ := hwas l u hu
    exact hi.lt g u hu
  · rcases (hmem l u).1 hu with ⟨h1, h2⟩ | ⟨h1, h2⟩ <;> rcases (hmem l' u).1 hu' with ⟨h3, h4⟩ | ⟨h3, h4⟩
    · exact hi.once l l' u h1 h3
    · exact absurd h4 h2
    · exact absurd h2 h4
    · exact h1.trans h3.symm
  · obtain ⟨g, hu⟩ := hwas l u hu
    exact hi.held g u b hu hb ho
  · obtain ⟨g, hu⟩ := hwas l u hu
    obtain ⟨g', hv⟩ := hwas l' v hv
    exact hi.sole g g' u v b hu hv hb hb' ho
  · exact ⟨t, .threadTodo T, hT, (hmem _ _).2 (Or.inr ⟨rfl, rfl⟩), hi.waiting p n t hproc hopen ht⟩

end Binder
