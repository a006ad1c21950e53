import BinderIpc.Async.Frames

/-! What the functions of the driver leave of the one-way transactions, but for
those that queue, deliver or free one. -/

namespace Binder

section

variable (L : Layout) {K : AsyncScope} (rb : RbTree ℕ) (s : Driver) (T t p : ℕ)

/-! Transactions that end -/

theorem forgetTransaction_kept (o : Option (ℕ × ℕ)) :
    AsyncKept L K s (forgetTransaction s o) := by
  cases o with
  | none => exact .refl s
  | some b =>
    exact kept_modBuffer s b (f := fun B => { B with transaction := none })
      (fun _ => ⟨rfl, rfl, rfl, rfl, rfl⟩) (Or.inr fun _ => rfl) fun _ _ h => by cases h

theorem freeTransaction_kept : AsyncKept L K s (freeTransaction s t) :=
  (forgetTransaction_kept L s _).trans
    (kept_txn _ t (fun _ => rfl) (fun _ => rfl) (fun _ => rfl) fun _ => rfl)

theorem popSender_kept : AsyncKept L K s (popSender s T t) := by
  unfold popSender
  refine AsyncKept.trans ?_
    (kept_txn _ t (fun _ => rfl) (fun _ => rfl) (fun _ => rfl) fun _ => rfl)
  refine ((kept_bugOn s _ _).trans (kept_bugOn _ _ _)).trans (kept_modThread _ T fun u hu hs => ?_)
  obtain ⟨v, -, hv⟩ := Option.bind_eq_some_iff.1 hu
  exact hs.parents v u (Or.inl hv)

theorem binderPopTransaction_kept (o : Option ℕ) :
    AsyncKept L K s (binderPopTransaction s o t) := by
  unfold binderPopTransaction
  refine AsyncKept.trans ?_ (freeTransaction_kept L _ t)
  refine AsyncKept.trans ?_
    (kept_txn _ t (fun _ => rfl) (fun _ => rfl) (fun _ => rfl) fun _ => rfl)
  cases o with
  | none => exact .refl s
  | some T => exact popSender_kept L s T t

theorem BinderThread.transactionStack_shiftError (y : BinderThread) :
    y.shiftError.transactionStack = y.transactionStack := by
  unfold BinderThread.shiftError
  split_ifs <;> rfl

theorem failSender_kept (e : ReturnError) : AsyncKept L K s (failSender s T t e) := by
  unfold failSender
  have h : AsyncKept L K s (s.modThread T .shiftError) :=
    kept_thread s T BinderThread.transactionStack_shiftError
  refine AsyncKept.ite (h.trans ?_) (h.trans (kept_note _ _))
  refine AsyncKept.trans ?_ (kept_note _ _)
  exact (binderPopTransaction_kept L _ t _).trans (kept_thread _ T fun _ => rfl)

theorem failUpwards_kept (e : ReturnError) (k : ℕ) : AsyncKept L K s (failUpwards e k s t) := by
  induction k generalizing s t with
  | zero => exact .refl s
  | succ k ih =>
    unfold failUpwards
    split
    · exact failSender_kept L s _ t e
    · dsimp only
      split
      · exact binderPopTransaction_kept L s t none
      · exact (binderPopTransaction_kept L s t none).trans (ih _ _)

theorem binderSendFailedReply_kept (e : ReturnError) :
    AsyncKept L K s (binderSendFailedReply s t e) :=
  (kept_bugOn s _ _).trans (failUpwards_kept L _ t e _)

theorem releaseItem_kept (w : Work) : AsyncKept L K s (releaseItem s w) := by
  cases w with
  | transaction t =>
    exact (kept_bugOn s _ _).trans
      (.ite (binderSendFailedReply_kept L _ t _) (freeTransaction_kept L _ t))
  | transactionComplete t => exact .refl s
  | node n => exact .refl s
  | death d =>
    have h := kept_quiet (L := L) (K := K) s (f := fun o => o.modDeath d fun x =>
      { x with freed := x.freed + 1 }) (quiet_modDeath _ d _) (async_modDeath _ d _)
    rw [releaseItem]
    split
    · exact h
    · exact h
    · exact .refl s

/-- The first item of a list that is thrown away. -/
theorem unqueue_kept {l : ListHead} {w : Work} (hl : K.drops l) (hw : s.obj.todo.first l = some w) :
    AsyncKept L K s (unqueue s w) := by
  refine kept_obj s (async_del _ w) (fun _ _ hq => (Queues.mem_del.1 hq).1) (fun g u hq => ?_)
    fun _ _ => Or.inl
  by_cases hu : Work.transaction u = w
  · subst hu
    exact Or.inr ⟨l, hl, Queues.first_mem hw⟩
  · exact Or.inl (Queues.mem_del.2 ⟨hq, hu⟩)

/-- An item that is no transaction. -/
theorem unqueueOther_kept {w : Work} (hw : w.isMessage = false) : AsyncKept L K s (unqueue s w) :=
  kept_quiet s (quiet_todo _ (messages_del _ hw)) (async_del _ w)

theorem releaseWorkLoop_kept {l : ListHead} (hl : K.drops l) (k : ℕ) :
    AsyncKept L K s (releaseWorkLoop l k s) := by
  induction k generalizing s with
  | zero => exact .refl s
  | succ k ih =>
    unfold releaseWorkLoop
    split
    · exact .refl s
    · rename_i w hw
      exact ((unqueue_kept L s hl hw).trans (releaseItem_kept L _ _)).trans (ih _)

theorem binderReleaseWork_kept {l : ListHead} (hl : K.drops l) :
    AsyncKept L K s (binderReleaseWork s l) := releaseWorkLoop_kept L s hl _

/-! Threads -/

theorem leaveTransactions_kept (k : ℕ) {o : Option ℕ}
    (ho : ∀ t, o = some t → AsyncSound L s → s.Called t) :
    AsyncKept L K s (leaveTransactions T k s o) := by
  induction k generalizing s o with
  | zero => cases o <;> exact .refl s
  | succ k ih =>
    cases o with
    | none => exact .refl s
    | some t =>
      unfold leaveTransactions
      refine AsyncKept.ite ?_ (.ite ?_ (kept_bugOn s _ _))
      · intro hs
        have hforget : AsyncStep L K s (forgetTransaction s (s.txn.get t).buffer) :=
          forgetTransaction_kept L s _ hs
        have hcut : AsyncKept L K s ((forgetTransaction s (s.txn.get t).buffer).modTxn t fun x =>
            { x with toProc := none, toThread := none, buffer := none }) := by
          refine AsyncKept.trans (fun _ => hforget) (kept_cutTxn _ t (fun _ => rfl) (fun _ => rfl)
            (fun _ => rfl) (fun _ => rfl) fun _ _ _ => Or.inr (Or.inl ?_))
          exact (hforget.called (ho t rfl hs)).2
        exact (hcut.trans (ih _ fun u hu _ => (hcut hs).called (hs.parents t u (Or.inr hu)))) hs
      · intro hs
        have hcut : AsyncKept L K s (s.modTxn t fun x => { x with fromThread := none }) :=
          kept_txn s t (fun _ => rfl) (fun _ => rfl) (fun _ => rfl) fun _ => rfl
        exact (hcut.trans (ih _ fun u hu _ => (hcut hs).called (hs.parents t u (Or.inl hu)))) hs

theorem binderFreeThread_kept (hT : K.leaves T) (hd : K.drops (.threadTodo T)) :
    AsyncKept L K s (binderFreeThread s T) := by
  unfold binderFreeThread
  refine AsyncKept.trans ?_ (kept_thread _ T fun _ => rfl)
  refine AsyncKept.trans ?_ (binderReleaseWork_kept L _ hd)
  have hunlist : AsyncKept L K s (s.modProc (s.thread.get T).proc fun p =>
      { p with threads := p.threads.erase T }) := by
    refine kept_modProc s _ (fun _ => rfl) (fun _ => id) fun x S hS => ?_
    by_cases hST : S = T
    · exact Or.inl (hST ▸ hT)
    · exact Or.inr ((List.mem_erase_of_ne hST).2 hS)
  have h : AsyncKept L K s (leaveTransactions T s.txn.next
      (s.modProc (s.thread.get T).proc fun p => { p with threads := p.threads.erase T })
      (s.thread.get T).transactionStack) :=
    hunlist.trans (leaveTransactions_kept L _ T _ fun t ht hs => hs.stack T t ht)
  split
  · exact h.trans (binderSendFailedReply_kept L _ _ _)
  · exact h

/-! Processes -/

theorem notifyDeaths_sameAsync (refs : List ℕ) (o : Objects) :
    SameAsync o (refs.foldl notifyDeath o) := SameAsync.foldl notifyDeath_sameAsync refs o

theorem releaseNode_kept (hK : ∀ n, K.drops (.asyncTodo n)) (n : ℕ) :
    AsyncKept L K s (releaseNode p s n) := by
  unfold releaseNode binderNodeRelease
  dsimp only
  have hbegin : AsyncKept L K s (binderReleaseWork (unqueue ((s.modObj fun o => o.modOwn p fun w =>
      { w with nodes := w.nodes.erase n }).note (.nodeReleased n)) (.node n)) (.asyncTodo n)) := by
    refine AsyncKept.trans ?_ (binderReleaseWork_kept L _ (hK n))
    refine AsyncKept.trans ?_ (unqueueOther_kept L _ rfl)
    exact (kept_quiet s (quiet_modOwn _ p _) (async_modOwn _ p _)).trans (kept_note _ _)
  refine hbegin.trans ?_
  set s₁ := binderReleaseWork (unqueue ((s.modObj fun o => o.modOwn p fun w =>
      { w with nodes := w.nodes.erase n }).note (.nodeReleased n)) (.node n)) (.asyncTodo n)
  have hfreed : SameAsync s₁.obj (s₁.obj.modNode n fun x => { x with freed := x.freed + 1 }) :=
    async_modNode _ n fun _ => rfl
  set o₁ : Objects := s₁.obj.modNode n fun x =>
    { x with proc := none, localStrongRefs := 0, localWeakRefs := 0 } with ho₁
  have hmod : SameAsync s₁.obj o₁ := async_modNode s₁.obj n (f := fun x =>
    { x with proc := none, localStrongRefs := 0, localWeakRefs := 0 }) fun _ => rfl
  have horphan : SameAsync s₁.obj { o₁ with deadNodes := n :: o₁.deadNodes } :=
    hmod.trans ⟨le_rfl, fun _ _ => rfl, fun _ _ => id⟩
  have hnotify : Quiet { o₁ with deadNodes := n :: o₁.deadNodes }
      ((o₁.node.get n).refs.foldl notifyDeath { o₁ with deadNodes := n :: o₁.deadNodes }) :=
    notifyDeaths_quiet _ _
  by_cases hrefs : (s₁.obj.node.get n).refs = []
  · simp only [Driver.modObj, hrefs, if_true]
    exact kept_quiet s₁ (f := fun o => o.modNode n fun x => { x with freed := x.freed + 1 })
      (quiet_modNode _ n fun _ => rfl) hfreed
  · simp only [Driver.modObj, hrefs, if_false]
    refine kept_obj s₁ (f := fun o => ((o.modNode n fun x =>
      { x with proc := none, localStrongRefs := 0, localWeakRefs := 0 }).node.get n).refs.foldl
        notifyDeath { (o.modNode n fun x =>
          { x with proc := none, localStrongRefs := 0, localWeakRefs := 0 }) with
            deadNodes := n :: o.deadNodes }) (horphan.trans (notifyDeaths_sameAsync _ _))
      (fun l t h => (hnotify.mem_message rfl).1 h) (fun l t h => Or.inl ((hnotify.mem_message rfl).2 h))
      fun m q hm => ?_
    have hproc : (o₁.node.get m).proc = some q → (s₁.obj.node.get m).proc = some q := fun h => by
      simp only [ho₁, Objects.modNode, Heap.get_modify] at h
      split_ifs at h
      exact h
    rcases lt_or_ge m s₁.obj.node.next with h1 | h1
    · exact Or.inl (hproc ((hnotify.proc m h1).symm.trans hm))
    · rcases lt_or_ge m ((o₁.node.get n).refs.foldl notifyDeath
        { o₁ with deadNodes := n :: o₁.deadNodes }).node.next with h2 | h2
      · exact Or.inr ⟨h1, h2⟩
      · exact Or.inl (hproc ((hnotify.unborn m h2).symm.trans hm))

/-! The buffers of a process that is torn down -/

theorem FitArea.freeBuf {A : BinderArea} {a : ℕ} (env : PageEnv) (h : FitArea L A)
    (ha : (Binder.liveAt A a).isSome) : FitArea L (binderFreeBuf L rb A a env) ∧
      ∀ c, Binder.liveAt (binderFreeBuf L rb A a env) c =
        if c = a then none else Binder.liveAt A c := by
  obtain ⟨B, hB⟩ := Option.isSome_iff_exists.1 ha
  rcases h with hi | ⟨hnil, -, -⟩
  · exact ⟨Or.inl (binderFreeBuf_inv L rb hi (mem_allocated hB)), (binderFreeBuf_live hi ha).1⟩
  · rw [liveAt_bare hnil] at hB
    cases hB

theorem freeBuf_kept (env : PageEnv) {a : ℕ} (ha : (s.liveAt (p, a)).isSome)
    (hK : K.frees (p, a) ∨ K.tears p) :
    AsyncKept L K s (s.modProc p fun x => { x with area := binderFreeBuf L rb x.area a env }) := by
  have hproc : ∀ {β : Type} (g : BinderProc → β), (∀ x a, g { x with area := a } = g x) →
      ∀ q, g ((s.modProc p fun x => { x with area := binderFreeBuf L rb x.area a env }).proc.get q) =
        g (s.proc.get q) := fun g hg q =>
    s.proc.apply_get_modify p q (fun x => { x with area := binderFreeBuf L rb x.area a env }) g
      fun x => hg x _
  intro hs
  obtain ⟨hfit, hfree⟩ := FitArea.freeBuf L rb env (hs.area p) ha
  have hlive : ∀ c, (s.modProc p fun x =>
      { x with area := binderFreeBuf L rb x.area a env }).liveAt c =
        if c = (p, a) then none else s.liveAt c := fun ⟨q, d⟩ => by
    simp only [Driver.liveAt, Driver.modProc, Heap.get_modify]
    by_cases hq : q = p
    · subst hq
      simp only [if_true, hfree, Prod.mk.injEq, true_and]
    · simp [hq]
  refine { AsyncKept.refl (L := L) (K := K) s hs with
    sound := ⟨fun q => ?_, hs.stack, hs.parents, fun c C u hC hu => ?_⟩
    live := fun c => ?_
    released := fun q hq => (hproc (·.released) (fun _ _ => rfl) q).symm.trans hq
    threads := fun q T hT => Or.inr ((hproc (·.threads) (fun _ _ => rfl) q).symm ▸ hT) }
  · simp only [Driver.modProc, Heap.get_modify]
    split_ifs
    · exact hfit
    · exact hs.area q
  · rw [hlive] at hC
    split_ifs at hC
    exact hs.linked c C u hC hu
  · rw [hlive]
    split_ifs with hc
    · subst hc
      exact hK.elim (fun h => Or.inr (Or.inl h)) Or.inl
    · exact Or.inr (Or.inr rfl)

theorem FitArea.bufferAt_eq {A : BinderArea} {a : ℕ} {B : BinderBuffer} (h : FitArea L A)
    (hB : Binder.liveAt A a = some B) : Binder.bufferAt a A.buffers = some B := by
  rcases h with hi | ⟨hnil, -, -⟩
  · exact hi.bufferAt_of_live hB
  · rw [liveAt_bare hnil] at hB
    cases hB

theorem FitArea.allocated_live {A : BinderArea} (h : FitArea L A) :
    A.allocatedBuffers.inorder.Nodup ∧
      ∀ a ∈ A.allocatedBuffers.inorder, (Binder.liveAt A a).isSome := by
  rcases h with hi | ⟨-, hleaf, -⟩
  · rw [hi.allocTree]
    refine ⟨(hi.tiled.nodup L.hdr_pos).sublist (addrsWhere_sublist _), fun a ha => ?_⟩
    obtain ⟨b, hb, hf, rfl⟩ := mem_addrsWhere.1 ha
    exact Option.isSome_iff_exists.2 ⟨b, hi.liveAt_eq hb (by simpa using hf)⟩
  · rw [hleaf]
    exact ⟨List.nodup_nil, by simp⟩

/-- A buffer is cut off from its transaction, when this one is not on its way. -/
theorem detachBuffer_kept (b : ℕ × ℕ) (hb : AsyncSound L s → ∀ t,
    (s.bufferAt b).bind (·.transaction) = some t → ∀ l, s.queued l t →
      (s.txn.get t).buffer = none ∨ (s.txn.get t).flags.oneWay = false ∨
        ∃ c, (s.txn.get t).buffer = some c ∧ K.tears c.1) : AsyncKept L K s (detachBuffer s b) := by
  unfold detachBuffer
  split
  · rename_i t ht
    have hcut : AsyncKept L K s (s.modTxn t fun x => { x with buffer := none }) :=
      kept_cutTxn s t (fun _ => rfl) (fun _ => rfl) (fun _ => rfl) (fun _ => rfl)
        fun hs l hq => hb hs t ht l hq
    exact hcut.trans (kept_modBuffer _ b (f := fun B => { B with transaction := none })
      (fun _ => ⟨rfl, rfl, rfl, rfl, rfl⟩) (Or.inr fun _ => rfl) fun _ _ h => by cases h)
  · exact .refl s

theorem isSome_liveAt_detach (b c : ℕ × ℕ) :
    ((detachBuffer s b).liveAt c).isSome = (s.liveAt c).isSome := by
  unfold detachBuffer
  split
  · rw [liveAt_modBuffer' (f := fun B => { B with transaction := none })
      fun _ => ⟨rfl, rfl, rfl, rfl, rfl⟩]
    split_ifs with hc
    · rw [Option.isSome_map, hc]
      rfl
    · rfl
  · rfl

theorem releaseBuffers_kept (env : ℕ → PageEnv) {l : List ℕ} (hK : K.tears p) (hnd : l.Nodup)
    (hl : ∀ a ∈ l, (s.liveAt (p, a)).isSome) :
    AsyncKept L K s (l.foldl (releaseBuffer L rb env p) s) := by
  induction l generalizing s with
  | nil => exact .refl s
  | cons a l ih =>
    obtain ⟨ha, hnd⟩ := List.nodup_cons.1 hnd
    obtain ⟨B, hB⟩ := Option.isSome_iff_exists.1 (hl a (by simp))
    intro hs
    have hdetach : AsyncKept L K s (detachBuffer s (p, a)) := by
      refine detachBuffer_kept L s _ fun hs t ht l _ => ?_
      rw [Driver.bufferAt, FitArea.bufferAt_eq L (hs.area p) hB, Option.bind_some] at ht
      exact (hs.linked (p, a) B t hB ht).2.symm.imp_right fun h => Or.inr ⟨_, h, hK⟩
    have hsome : ((detachBuffer s (p, a)).liveAt (p, a)).isSome := by
      rw [isSome_liveAt_detach, hB]
      rfl
    have hfree := freeBuf_kept (K := K) L rb (detachBuffer s (p, a)) p (env a) hsome (Or.inr hK)
    refine (hdetach.trans (hfree.trans (ih _ hnd fun d hd => ?_))) hs
    have hne : d ≠ a := fun he => ha (he ▸ hd)
    have hfit := (FitArea.freeBuf L rb (env a) ((hdetach hs).sound.area p) hsome).2 d
    rw [if_neg hne] at hfit
    simp only [Driver.liveAt, Driver.modProc, Heap.get_modify, if_true, hfit]
    have hd' := hl d (by simp [hd])
    rwa [← isSome_liveAt_detach s (p, a)] at hd'

/-- What the end of process `p` takes away. -/
def AsyncScope.release (s : Driver) (p : ℕ) : AsyncScope where
  drops
    | .threadTodo T => T ∈ (s.proc.get p).threads
    | .procTodo q => q = p
    | .asyncTodo _ | .deliveredDeath _ => True
  frees _ := False
  tears q := q = p
  leaves T := T ∈ (s.proc.get p).threads

theorem binderDeferredRelease_kept (env : ℕ → PageEnv) :
    AsyncKept L (.release s p) s (binderDeferredRelease L rb env s p) := by
  have h₁ : AsyncKept L (.release s p) s (releaseStart s p) := by
    unfold releaseStart
    refine ((kept_bugOn s _ _).trans (kept_bugOn _ _ _)).trans (kept_obj _ ?_ (fun l t h => ?_)
      (fun l t h => Or.inl ?_) fun n q hn => Or.inl ?_)
    · exact SameAsync.ite ⟨le_rfl, fun _ _ => rfl, fun _ _ => id⟩ (.refl _)
    · simp only [Driver.queued, Driver.modObj] at h ⊢
      split_ifs at h <;> exact h
    · simp only [Driver.queued, Driver.modObj]
      split_ifs <;> exact h
    · split_ifs at hn <;> exact hn
  set s₁ := releaseStart s p with hs₁
  set s₂ := (s.proc.get p).threads.foldl binderFreeThread s₁
  have h₂ : AsyncKept L (.release s p) s s₂ :=
    h₁.trans (.foldl (fun s' T hT => binderFreeThread_kept L s' T hT hT) s₁)
  set s₃ := (s₂.obj.own p).nodes.foldl (releaseNode p) s₂
  have h₃ : AsyncKept L (.release s p) s s₃ :=
    h₂.trans (.foldl (fun s' n _ => releaseNode_kept L s' p (fun _ => trivial) n) s₂)
  set s₄ := s₃.modObj fun o => (o.own p).refsByDesc.foldl binderDeleteRef o
  have h₄ : AsyncKept L (.release s p) s s₄ := h₃.trans (kept_quiet s₃ (deleteRefs_quiet _ _)
    (SameAsync.foldl binderDeleteRef_sameAsync _ _))
  have h₅ := h₄.trans (binderReleaseWork_kept L s₄ (l := .procTodo p) rfl)
  have h₆ := h₅.trans (binderReleaseWork_kept L _ (l := .deliveredDeath p) trivial)
  set s₆ := binderReleaseWork (binderReleaseWork s₄ (.procTodo p)) (.deliveredDeath p)
  set s₇ := (s₆.proc.get p).area.allocatedBuffers.inorder.foldl (releaseBuffer L rb env p) s₆
  have h₇ : AsyncKept L (.release s p) s s₇ := fun hs => by
    obtain ⟨hnd, hlive⟩ := FitArea.allocated_live L ((h₆ hs).sound.area p)
    exact h₆.trans (releaseBuffers_kept L rb s₆ p env rfl hnd hlive) hs
  have hall : binderDeferredRelease L rb env s p =
      s₇.modProc p fun x => { x with released := true } := rfl
  rw [hall]
  exact h₇.trans (kept_proc s₇ p (fun _ => rfl) (fun _ h => by cases h) fun _ => rfl)

theorem beforeRelease_kept : AsyncKept L K s (beforeRelease s p) := by
  have hflush : ∀ s : Driver, AsyncKept L K s (binderDeferredFlush s p) := fun s => by
    refine AsyncKept.foldl (fun s T _ => ?_) s
    exact kept_thread s T fun _ => rfl
  unfold beforeRelease
  refine AsyncKept.trans ?_ (.ite (hflush _) (.refl _))
  refine AsyncKept.trans ?_ (.ite (kept_quiet _ (quiet_modOwn _ p _) (async_modOwn _ p _)) (.refl _))
  exact kept_proc s p (fun _ => rfl) (fun _ => id) fun _ => rfl

/-! Commands -/

theorem failTransaction_kept (f : Failure) : AsyncKept L K s (failTransaction s T f) := by
  unfold failTransaction
  refine AsyncKept.trans (kept_bugOn s (decide ((s.thread.get T).returnError ≠ .ok)) .returnErrorSet) ?_
  dsimp only
  split
  · refine AsyncKept.trans ?_ (binderSendFailedReply_kept L _ _ _)
    exact kept_thread _ T fun _ => rfl
  · exact kept_thread _ T fun _ => rfl

theorem replyTarget_kept : AsyncKept L K s (replyTarget s T).1 := by
  unfold replyTarget
  split
  · exact .refl s
  · rename_i t _
    dsimp only
    split_ifs
    · exact .refl s
    · have h : AsyncKept L K s (s.modThread T fun y =>
          { y with transactionStack := (s.txn.get t).toParent }) :=
        kept_modThread s T fun u hu hs => hs.parents t u (Or.inr hu)
      split
      · exact h
      · split_ifs
        · exact h.trans (kept_note _ _)
        · exact h

theorem plain_deathList (y : BinderThread) : (deathList y T).plain = true := by
  unfold deathList
  split_ifs <;> rfl

theorem queueDeath_kept {l : ListHead} (hl : l.plain = true) (d : ℕ)
    (f : BinderRefDeath → BinderRefDeath) : AsyncKept L K s (s.modObj fun o =>
      { o.modDeath d f with todo := (o.modDeath d f).todo.addTail l (.death d) }) :=
  kept_quiet s ((quiet_modDeath _ d f).trans (quiet_todo _ (messages_addTail _ l rfl)))
    ((async_modDeath _ d f).trans (async_addTail _ l _ hl))

theorem requestDeathNotification_kept (target cookie : ℕ) (kzalloc : Bool) :
    AsyncKept L K s (requestDeathNotification s T target cookie kzalloc) := by
  unfold requestDeathNotification
  dsimp only
  split
  · exact .refl s
  · refine AsyncKept.ite (.refl s) (.ite (kept_thread s T fun _ => rfl) ?_)
    refine AsyncKept.trans ?_ (.ite (queueDeath_kept L _ (plain_deathList T _) _ _) (.refl _))
    refine AsyncKept.trans ?_ (kept_note _ _)
    exact kept_obj s ⟨le_rfl, fun _ _ => rfl, fun _ _ => id⟩ (fun _ _ => id) (fun _ _ => Or.inl)
      fun _ _ => Or.inl

theorem clearDeathNotification_kept (target cookie : ℕ) :
    AsyncKept L K s (clearDeathNotification s T target cookie) := by
  unfold clearDeathNotification
  dsimp only
  split
  · exact .refl s
  · split
    · exact .refl s
    · refine AsyncKept.ite (.refl s) ?_
      refine AsyncKept.trans ?_ (.ite ?_ (queueDeath_kept L _ (plain_deathList T _) _ _))
      · exact (kept_quiet s (quiet_modRef _ _ _) (async_modRef _ _ _)).trans (kept_note _ _)
      · exact (kept_bugOn _ _ _).trans
          (kept_quiet _ (quiet_modDeath _ _ _) (async_modDeath _ _ _))

theorem deadBinderDone_kept (cookie : ℕ) : AsyncKept L K s (deadBinderDone s T cookie) := by
  unfold deadBinderDone
  dsimp only
  split
  · exact .refl s
  · refine AsyncKept.trans ?_ (.ite (queueDeath_kept L _ (plain_deathList T _) _ _) (.refl _))
    exact (unqueueOther_kept L s rfl).trans (kept_note _ _)

theorem registerLooper_kept : AsyncKept L K s (registerLooper s T) := by
  unfold registerLooper
  refine AsyncKept.trans ?_ (kept_thread _ T fun _ => rfl)
  refine AsyncKept.ite (kept_thread s T fun _ => rfl) ?_
  exact .ite (kept_thread s T fun _ => rfl) (kept_proc s _ (fun _ => rfl) (fun _ => id) fun _ => rfl)

/-! Reads -/

variable (fault : ℕ → Bool)

theorem readDone_kept (ptr : ℕ) : AsyncKept L K s (readDone s T ptr fault) := by
  have h : AsyncKept L K s (s.modProc (s.thread.get T).proc fun p =>
      { p with requestedThreads := p.requestedThreads + 1 }) :=
    kept_proc s _ (fun _ => rfl) (fun _ => id) fun _ => rfl
  unfold readDone
  dsimp only
  exact .ite (.ite h ((h.trans (kept_note _ _)).trans (kept_note _ _))) (kept_note s _)

theorem reportErrors_kept (size ptr : ℕ) : AsyncKept L K s (reportErrors s T size ptr fault) := by
  have hreport : ∀ (s : Driver) (e : ReturnError) (ptr : ℕ), AsyncKept L K s
      (if fault ptr then s
        else readDone ((s.note (.br T (.returnError e))).modThread T fun y =>
          { y with returnError := .ok }) T (ptr + 4) fault) := fun s e ptr => by
    refine AsyncKept.ite (.refl s) ?_
    refine AsyncKept.trans ?_ (readDone_kept L _ T fault _)
    exact (kept_note s _).trans (kept_thread _ T fun _ => rfl)
  unfold reportErrors
  refine AsyncKept.ite (hreport _ _ _) (.ite (.refl s) ?_)
  refine AsyncKept.trans (kept_note s (.br T (.returnError (s.thread.get T).returnError2))) ?_
  refine AsyncKept.ite (readDone_kept L _ T fault _) ?_
  refine AsyncKept.trans ?_ (hreport _ _ _)
  exact kept_thread _ T fun _ => rfl

theorem waitForWork_kept (size ptr : ℕ) (nonBlock : Bool) :
    AsyncKept L K s (waitForWork s T size ptr nonBlock fault) := by
  unfold waitForWork
  refine AsyncKept.ite (reportErrors_kept L s T fault size ptr) ?_
  refine AsyncKept.trans ?_ (kept_thread _ T fun _ => rfl)
  exact .ite (kept_proc s _ (fun _ => rfl) (fun _ => id) fun _ => rfl) (.refl s)

theorem stopWaiting_kept (f : ReadFrame) : AsyncKept L K s (stopWaiting s T f) := by
  unfold stopWaiting
  refine AsyncKept.trans ?_ (kept_thread _ T fun _ => rfl)
  exact .ite (kept_proc s _ (fun _ => rfl) (fun _ => id) fun _ => rfl) (.refl s)

theorem readNode_kept (n ptr : ℕ) : AsyncKept L K s (readNode s T n ptr fault).1 := by
  unfold readNode
  split
  · rename_i cmd x hx
    obtain ⟨hproc, hflag⟩ := nodeCommand_keeps hx
    have hnode : AsyncKept L K s (s.modObj fun o => o.modNode n fun _ => x) := by
      refine kept_obj s ⟨le_rfl, fun _ m => ?_, fun _ _ => id⟩ (fun _ _ => id) (fun _ _ => Or.inl)
        fun m q hm => Or.inl ?_
      · simp only [Objects.modNode, Heap.get_modify]
        split_ifs with h
        · rw [hflag, h]
        · rfl
      · simp only [Objects.modNode, Heap.get_modify] at hm
        split_ifs at hm with h
        · rwa [h, ← hproc]
        · exact hm
    dsimp only
    split_ifs
    · exact hnode
    · exact hnode.trans (kept_note _ _)
  · exact kept_quiet s (f := fun o => settleNode o (s.thread.get T).proc n) (settleNode_quiet _ _ _)
      (settleNode_sameAsync _ _ _)

/-- Reading anything but a transaction. -/
theorem readItem_kept {w : Work} (ptr : ℕ) (hw : ∀ t, w ≠ .transaction t) :
    AsyncKept L K s (readItem s T ptr fault w).1 := by
  cases w with
  | transaction t => exact absurd rfl (hw t)
  | transactionComplete t =>
    have h : AsyncKept L K s (readComplete s T t) := by
      refine (kept_note s _).trans (kept_obj _ (async_del _ _) (fun _ _ hq => (Queues.mem_del.1 hq).1)
        (fun _ _ hq => Or.inl (Queues.mem_del.2 ⟨hq, by simp⟩)) fun _ _ => Or.inl)
    simp only [readItem]
    split_ifs
    · exact .refl s
    · exact h
  | node n => exact readNode_kept L s T fault n ptr
  | death d =>
    simp only [readItem, readDeath]
    split
    · exact .refl s
    · split_ifs
      · exact .refl s
      · exact (kept_note s _).trans (kept_quiet _ (f := fun o => freeDeath o d) (freeDeath_quiet _ d)
          (freeDeath_sameAsync _ d))
      · exact (kept_note s _).trans (kept_quiet _ (f := fun o => { o with
          todo := o.todo.moveHead (.deliveredDeath (s.thread.get T).proc) (.death d) })
            (quiet_todo _ (messages_moveHead _ _ rfl)) (async_moveHead _ _ _ rfl))

end

end Binder
