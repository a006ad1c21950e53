import BinderIpc.Node.Steps

/-! A thread that reads, work that is thrown away, and the release of a process. -/

namespace Binder

open Driver

section

variable (s : Driver) (T : ℕ) (fault : ℕ → Bool)

theorem readDone_untouched (ptr : ℕ) : Untouched s (readDone s T ptr fault) := by
  have h : Untouched s (s.modProc (s.thread.get T).proc fun p =>
      { p with requestedThreads := p.requestedThreads + 1 }) := untouched_modProc s _ _
  unfold readDone
  dsimp only
  refine .ite (.ite h ?_) (untouched_note s rfl)
  exact (h.trans (untouched_note _ rfl)).trans (untouched_note _ rfl)

theorem reportErrors_untouched (size ptr : ℕ) : Untouched s (reportErrors s T size ptr fault) := by
  have hreport : ∀ (s : Driver) (e : ReturnError) (ptr : ℕ), Untouched s
      (if fault ptr then s
        else readDone ((s.note (.br T (.returnError e))).modThread T fun y =>
          { y with returnError := .ok }) T (ptr + 4) fault) := fun s e ptr => by
    refine .ite (.refl s) ?_
    refine Untouched.trans ?_ (readDone_untouched _ T fault _)
    refine Untouched.trans ?_ (untouched_modThread _ T fun _ => rfl)
    exact untouched_note s rfl
  unfold reportErrors
  refine .ite (hreport _ _ _) (.ite (.refl s) ?_)
  refine Untouched.trans (untouched_note s (e := .br T (.returnError (s.thread.get T).returnError2))
    rfl) ?_
  refine .ite (readDone_untouched _ T fault _) ?_
  refine Untouched.trans ?_ (hreport _ _ _)
  exact untouched_modThread _ T fun _ => rfl

theorem waitForWork_untouched (size ptr : ℕ) (nonBlock : Bool) :
    Untouched s (waitForWork s T size ptr nonBlock fault) := by
  unfold waitForWork
  refine .ite (reportErrors_untouched s T fault size ptr) ?_
  refine Untouched.trans ?_ (untouched_modThread _ T fun _ => rfl)
  exact .ite (untouched_modProc s _ _) (.refl s)

theorem stopWaiting_untouched (f : ReadFrame) : Untouched s (stopWaiting s T f) := by
  unfold stopWaiting
  refine Untouched.trans ?_ (untouched_modThread _ T fun _ => rfl)
  exact .ite (untouched_modProc s _ _) (.refl s)

theorem unqueue_untouched (w : Work) : Untouched s (unqueue s w) :=
  untouched_obj s (fun h => refsInv_del h w) (sameNodes_del s.obj)

theorem readTransaction_untouched (t ptr : ℕ) :
    Untouched s (readTransaction s T t ptr fault).1 := by
  unfold readTransaction
  dsimp only
  have h0 := untouched_bugOn s (s.bufferOf t).isNone (b := .noBuffer) rfl
  generalize s.bugOn (s.bufferOf t).isNone .noBuffer = s₀ at h0 ⊢
  generalize (s₀.bufferOf t).any (·.targetNode.isSome) = call
  split
  · exact h0
  · dsimp only
    refine h0.trans (Untouched.trans (untouched_note s₀ (e := .br T (if call then
      .transaction t ((s₀.txn.get t).fromThread.elim 0 fun S =>
        (s₀.proc.get (s₀.thread.get S).proc).pid) else .reply t)) ?_) ?_)
    · cases call <;> rfl
    refine Untouched.trans (unqueue_untouched _ (.transaction t)) ?_
    have h1 : ∀ s' : Driver, Untouched s' ((s₀.txn.get t).buffer.elim s' fun b =>
        s'.modBuffer b fun b => { b with allowUserFree := true }) := fun s' => by
      cases (s₀.txn.get t).buffer with
      | none => exact .refl s'
      | some b => exact untouched_modProc s' _ _
    refine Untouched.trans (h1 _) (.ite ?_ (freeTransaction_untouched _ t))
    refine Untouched.trans ?_ (untouched_modThread _ T fun _ => rfl)
    exact untouched_modTxn _ t _

theorem readDeath_untouched (d ptr : ℕ) : Untouched s (readDeath s T d ptr fault).1 := by
  unfold readDeath
  split
  · exact .refl s
  split_ifs
  · exact .refl s
  · have hfree := fun o : Objects => (sameNodes_del o (w := .death d)).trans (sameNodes_modDeath _ d
      fun x => { x with freed := x.freed + 1 })
    exact (untouched_note s (e := .br T (.clearDeathNotificationDone d)) rfl).trans
      (untouched_obj _ (f := (freeDeath · d)) (fun hr => refsInv_modDeath (refsInv_del hr _) d _)
        (hfree _))
  · set l := ListHead.deliveredDeath (s.thread.get T).proc with hl
    refine (untouched_note s (e := .br T (.deadBinder d)) rfl).trans
      (untouched_obj _ (f := fun o => { o with todo := o.todo.moveHead l (.death d) })
        (fun hr => refsInv_deathWork hr fun n d' hd => ?_)
        (sameNodes_moveHead _ l fun n => Work.noConfusion))
    rcases Queues.mem_moveHead.1 hd with ⟨h1, -⟩ | ⟨he, -⟩
    · exact h1
    · rw [hl] at he
      cases he

end

/-! The commands for a node -/

/-- An owner holds a strong reference only with a weak one. -/
theorem ownerView_weak {n : ℕ} {h : List Event} {b : Bool × Bool} (hv : ownerView n h = some b) :
    b.2 = true → b.1 = true := by
  induction h using List.reverseRecOn generalizing b with
  | nil =>
    cases hv
    exact fun he => by cases he
  | append_singleton h e ih =>
    rw [ownerView, List.foldl_append] at hv
    change Event.ownerStep n (ownerView n h) e = some b at hv
    cases e with
    | br T cmd =>
      simp only [Event.ownerStep] at hv
      split_ifs at hv with hn
      · obtain ⟨v, -, hnext⟩ := Option.bind_eq_some_iff.1 hv
        unfold Br.ownerNext at hnext
        split at hnext <;> first | (cases hnext; done) | skip
        all_goals cases hnext; simp
      · exact ih hv
    | _ => exact ih hv

/-- What is written for a node is the next command of its owner, and only the flags and the
owner's counts change. -/
theorem nodeCommand_next {x y : BinderNode} {n : ℕ} {cmd : Br} (hc : nodeCommand y n = some (cmd, x)) :
    cmd.nodeOf = some n ∧ (x.proc = y.proc ∧ x.ptr = y.ptr ∧ x.refs = y.refs ∧
      x.internalStrongRefs = y.internalStrongRefs ∧ x.freed = y.freed) ∧
      ((y.hasStrongRef = true → y.hasWeakRef = true) →
        cmd.ownerNext (y.hasWeakRef, y.hasStrongRef) = some (x.hasWeakRef, x.hasStrongRef)) := by
  unfold nodeCommand at hc
  dsimp only at hc
  split_ifs at hc with h1 h2 h3 h4 <;> cases hc
  · refine ⟨rfl, ⟨rfl, rfl, rfl, rfl, rfl⟩, fun hflags => ?_⟩
    have hweak : y.hasWeakRef = false := by simpa using (Bool.and_eq_true_iff.1 h1).2
    have hstrong : y.hasStrongRef = false := by
      cases hs : y.hasStrongRef with
      | false => rfl
      | true => rw [hflags hs] at hweak; cases hweak
    rw [hweak, hstrong]
    rfl
  · refine ⟨rfl, ⟨rfl, rfl, rfl, rfl, rfl⟩, fun _ => ?_⟩
    obtain ⟨hheld, hnot⟩ := Bool.and_eq_true_iff.1 h2
    have hstrong : y.hasStrongRef = false := by simpa using hnot
    have hweak : y.hasWeakRef = true := by
      cases hw : y.hasWeakRef with
      | true => rfl
      | false => exact absurd (by rw [hw, hheld]; simp) h1
    simp [hweak, hstrong, Br.ownerNext]
  · refine ⟨rfl, ⟨rfl, rfl, rfl, rfl, rfl⟩, fun hflags => ?_⟩
    have hstrong : y.hasStrongRef = true := (Bool.and_eq_true_iff.1 h3).2
    simp [hstrong, hflags hstrong, Br.ownerNext]
  · refine ⟨rfl, ⟨rfl, rfl, rfl, rfl, rfl⟩, fun _ => ?_⟩
    obtain ⟨hnone, hweak⟩ := Bool.and_eq_true_iff.1 h4
    have hstrong : y.hasStrongRef = false := by
      cases hs : y.hasStrongRef with
      | false => rfl
      | true =>
        refine absurd ?_ h3
        simp only [Bool.not_eq_true', Bool.or_eq_false_iff] at hnone
        rw [hnone.2, hs]
        rfl
    simp [hweak, hstrong, Br.ownerNext]

section

variable {K K' : NodeScope} {o : Objects} {n : ℕ}

/-- The flags of a node change, and with them what its owner was told. -/
theorem NodeFacts.setFlags (h : NodeFacts K o) {x : BinderNode} (hn : n < o.node.next)
    (hx : x.proc = (o.node.get n).proc ∧ x.ptr = (o.node.get n).ptr ∧
      x.refs = (o.node.get n).refs ∧ x.internalStrongRefs = (o.node.get n).internalStrongRefs ∧
      x.freed = (o.node.get n).freed)
    (hhome : ∀ p l, K.home p l → K'.home p l) (hwhole : K'.whole → K.whole)
    (hview : ∀ m, m ≠ n → K'.view m = K.view m)
    (hself : K'.whole → x.ptr ≠ 0 → K'.view n = some (x.hasWeakRef, x.hasStrongRef))
    (hsent : ∀ m T, K'.sent m T → K.sent m T ∨ (m = n ∧ ∃ p, K'.home p (.threadTodo T) ∧
      (o.node.get n).proc = some p)) (hinsider : K'.insider = K.insider) (hgone : K'.gone = K.gone) :
    NodeFacts K' (o.modNode n fun _ => x) := by
  obtain ⟨hproc, hptr, hrefs, hinternal, hfreed⟩ := hx
  have hkeep : ∀ {β : Type} (g : BinderNode → β), g x = g (o.node.get n) →
      ∀ m, g ((o.modNode n fun _ => x).node.get m) = g (o.node.get m) := fun g hg m => by
    dsimp only [Objects.modNode]
    rw [Heap.get_modify]
    split_ifs with hm
    · rw [hm]
      exact hg
    · rfl
  exact {
    count := fun m => by
      have hs : strongRefs (o.modNode n fun _ => x) m = strongRefs o m := by
        unfold strongRefs
        rw [hkeep (·.refs) hrefs]
        rfl
      rw [hs, hkeep (·.internalStrongRefs) hinternal]
      exact h.count m
    nonneg := h.nonneg
    tree := fun p m hm => by
      rw [hkeep (·.freed) hfreed, hkeep (·.proc) hproc]
      exact h.tree p m hm
    nodup := h.nodup
    dead := fun m hm => by
      rw [hkeep (·.freed) hfreed, hkeep (·.proc) hproc]
      exact h.dead m hm
    deadNodup := h.deadNodup
    alive := fun m => by
      rw [hkeep (·.ptr) hptr, hkeep (·.refs) hrefs, hkeep (·.freed) hfreed]
      exact h.alive m
    mgr := fun m hm => by
      rw [hkeep (·.ptr) hptr]
      exact h.mgr m hm
    home := fun l m hm => by
      rw [hkeep (·.proc) hproc]
      exact (h.home l m hm).imp fun p hp => ⟨hp.1, hhome p l hp.2⟩
    unborn := fun m hm => by
      rw [hkeep (·.proc) hproc]
      exact h.unborn m hm
    told := fun hw m hm => by
      by_cases hmn : m = n
      · subst hmn
        dsimp only [Objects.modNode] at hm ⊢
        rw [Heap.get_modify_self] at hm ⊢
        exact hself hw hm
      · dsimp only [Objects.modNode] at hm ⊢
        rw [Heap.get_modify, if_neg hmn] at hm ⊢
        rw [hview m hmn]
        exact h.told (hwhole hw) m hm
    born := fun hw m hm => by
      have hmn : m ≠ n := fun he => (he ▸ hn).not_ge hm
      rw [hview m hmn]
      exact h.born (hwhole hw) m hm
    confined := fun p hp r hr => by
      rw [hkeep (·.ptr) hptr, hkeep (·.proc) hproc, hinsider]
      exact h.confined p (hinsider ▸ hp) r hr
    empty := fun p hp => h.empty p (hgone ▸ hp)
    sent := fun m T hm => by
      rw [hkeep (·.proc) hproc]
      rcases hsent m T hm with h1 | ⟨rfl, p, hp, hown⟩
      · exact (h.sent m T h1).imp_right fun hp => hp.imp fun p hp => ⟨hhome p _ hp.1, hp.2⟩
      · exact ⟨hn, p, hp, Or.inl hown⟩ }

end

section

variable {w : NodeWatch} {s : Driver} (h : NodeInv w s) (T : ℕ) (fault : ℕ → Bool)
  (hfault : w.whole → ∀ ptr, fault ptr = false)

include h

theorem NodeInv.node_lt {n p : ℕ} (hp : (s.obj.node.get n).proc = some p) : n < s.obj.node.next := by
  by_contra hn
  rw [h.facts.unborn n (not_lt.1 hn)] at hp
  cases hp

include hfault

theorem readNode_nodeInv (hT : T < s.thread.next) {n : ℕ} (hp : (s.obj.node.get n).proc = some (s.thread.get T).proc)
    (ptr : ℕ) : NodeInv w (readNode s T n ptr fault).1 := by
  unfold readNode
  split
  · rename_i cmd x hc
    obtain ⟨hof, hx, hnext⟩ := nodeCommand_next hc
    have hrefs : RefsInv (s.obj.modNode n fun _ => x) := by
      refine h.refs.congr { (SameLinks.refl s.obj).tables with
        refs := fun m => ?_, proc := fun p m _ => ?_ }
      · dsimp only [Objects.modNode]
        rw [Heap.get_modify]
        split_ifs with hm
        · rw [hm]
          exact hx.2.2.1
        · rfl
      · dsimp only [Objects.modNode]
        rw [Heap.get_modify]
        split_ifs with hm
        · rw [hm]
          exact hx.1
        · rfl
    dsimp only
    split_ifs with hf
    · refine ⟨hrefs, h.facts.setFlags (h.node_lt hp) hx (fun _ _ => id) id (fun _ _ => rfl)
        (fun hw _ => absurd hf ?_) (fun _ _ => Or.inl) rfl rfl⟩
      simp [hfault hw]
    · refine ⟨hrefs, h.facts.setFlags (h.node_lt hp) hx (fun _ _ => id) id (fun m hm => ?_)
        (fun hw hptr => ?_) (fun m S hm => ?_) rfl rfl⟩
      · refine (List.foldl_append ..).trans (Event.ownerStep_other (e := .br T cmd) (fun he => hm ?_) _)
        exact Option.some.inj (he.symm.trans hof)
      · have hview := h.facts.told hw n (hx.2.1 ▸ hptr)
        have hlegal := hnext (ownerView_weak hview)
        change ownerView n (s.history ++ [.br T cmd]) = _
        rw [ownerView, List.foldl_append]
        change (if cmd.nodeOf = some n then (ownerView n s.history).bind cmd.ownerNext else _) = _
        rw [if_pos hof, show ownerView n s.history = _ from hview]
        exact hlegal
      · obtain ⟨cmd', hmem, hof'⟩ := hm
        rcases List.mem_append.1 hmem with hmem | hmem
        · exact Or.inl ⟨cmd', hmem, hof'⟩
        · obtain ⟨rfl, rfl⟩ : S = T ∧ cmd' = cmd := by simpa using hmem
          exact Or.inr ⟨Option.some.inj (hof'.symm.trans hof), _, nodeScope_thread w hT, hp⟩
  · exact ⟨h.refs.links (settleNode_sameLinks _ n _).links, settleNode_facts h.facts hp⟩

theorem readItem_nodeInv (hT : T < s.thread.next) {waitForProcWork : Bool} {x : Work}
    (hx : nextWork s T waitForProcWork = some x) (ptr : ℕ) :
    NodeInv w (readItem s T ptr fault x).1 := by
  cases x with
  | transaction t => exact h.untouched (readTransaction_untouched s T fault t ptr)
  | transactionComplete t =>
    unfold readItem
    split_ifs
    · exact h
    · exact h.untouched ((untouched_note s (e := .br T (.transactionComplete t)) rfl).trans
        (unqueue_untouched _ (.transactionComplete t)))
  | death d => exact h.untouched (readDeath_untouched s T fault d ptr)
  | node n =>
    -- the item is on a list of the reader, so the reader owns the node
    obtain ⟨l, hl, htodo⟩ := nextWork_isTodo s T hT hx
    obtain ⟨p, hp, hhome⟩ := h.facts.home l n hl
    refine readNode_nodeInv h T fault hfault hT ?_ ptr
    rcases hhome with rfl | ⟨S, hS, rfl, hown⟩
    · exact hp.trans (congrArg some htodo)
    · exact hp.trans (congrArg some (hown.symm.trans htodo.2))

theorem readLoop_nodeInv (L : Layout) (hT : T < s.thread.next) (f : ReadFrame) (k ptr : ℕ) :
    NodeInv w (readLoop L T f fault k s ptr) := by
  induction k generalizing s ptr with
  | zero => exact h
  | succ k ih =>
    unfold readLoop
    split
    · split_ifs
      · exact h.untouched (waitForWork_untouched s T fault _ _ _)
      · exact h.untouched (readDone_untouched s T fault ptr)
    · rename_i x hx
      split_ifs
      · exact h.untouched (readDone_untouched s T fault ptr)
      have hitem := readItem_nodeInv h T fault hfault hT hx ptr
      have hnext := (readItem_deaths (K := .any) s T fault hT hx ptr).threadNext
      split
      · rename_i s' ptr' he
        rw [he] at hitem hnext
        exact ih hitem (hT.trans_le hnext) ptr'
      · rename_i s' he
        rw [he] at hitem
        exact hitem
      · rename_i s' ptr' he
        rw [he] at hitem
        exact hitem.untouched (readDone_untouched s' T fault ptr')

theorem resumeRead_nodeInv (L : Layout) (hT : T < s.thread.next) :
    NodeInv w (resumeRead L s T fault) := by
  unfold resumeRead
  split
  · exact h
  · rename_i f _
    split
    · exact h
    · exact h.untouched (stopWaiting_untouched s T f)
    · have hstop := stopWaiting_untouched s T f
      exact readLoop_nodeInv (h.untouched hstop) T fault hfault L
        (hT.trans_le hstop.scope.threadNext) f _ _

end

/-! Work that is thrown away, threads and processes -/

section

variable (s : Driver) (T : ℕ)

theorem releaseItem_untouched (x : Work) : Untouched s (releaseItem s x) := by
  cases x with
  | transaction t =>
    have hbug := untouched_bugOn s (s.bufferOf t).isNone (b := .noBuffer) rfl
    exact hbug.trans (.ite (binderSendFailedReply_untouched _ t _) (freeTransaction_untouched _ t))
  | transactionComplete t => exact .refl s
  | node n => exact .refl s
  | death d =>
    have hfree := untouched_obj s (f := fun o => o.modDeath d fun x => { x with freed := x.freed + 1 })
      (fun hr => refsInv_modDeath hr d _) (sameNodes_modDeath s.obj d _)
    simp only [releaseItem]
    split
    · exact hfree
    · exact hfree
    · exact .refl s

theorem binderReleaseWork_untouched (l : ListHead) : Untouched s (binderReleaseWork s l) := by
  have hloop : ∀ (k : ℕ) (s : Driver), Untouched s (releaseWorkLoop l k s) := fun k => by
    induction k with
    | zero => exact fun s => .refl s
    | succ k ih =>
      intro s
      unfold releaseWorkLoop
      split
      · exact .refl s
      · rename_i x _
        exact ((unqueue_untouched s x).trans (releaseItem_untouched _ x)).trans (ih _)
  exact hloop _ s

theorem binderFreeThread_untouched : Untouched s (binderFreeThread s T) := by
  have hleave := (untouched_modProc s (s.thread.get T).proc fun p =>
    { p with threads := p.threads.erase T }).trans
      (leaveTransactions_untouched _ T s.txn.next (s.thread.get T).transactionStack)
  unfold binderFreeThread
  dsimp only
  refine Untouched.trans ?_ (untouched_modThread _ T fun _ => rfl)
  refine Untouched.trans ?_ (binderReleaseWork_untouched _ _)
  split
  · exact hleave.trans (binderSendFailedReply_untouched _ _ _)
  · exact hleave

theorem notifyDeath_sameNodes (o : Objects) (r : ℕ) : SameNodes o (notifyDeath o r) := by
  unfold notifyDeath
  dsimp only
  split
  · exact .refl o
  · rename_i d _
    refine .ite (sameNodes_bugOn o true .nodeReleaseDeath) ?_
    exact (sameNodes_modDeath o d _).trans (sameNodes_addTail _ _ fun n => Work.noConfusion)

theorem notifyDeath_refsInv {o : Objects} (h : RefsInv o) (r : ℕ) : RefsInv (notifyDeath o r) := by
  unfold notifyDeath
  dsimp only
  split
  · exact h
  · rename_i d _
    split_ifs
    · exact refsInv_oops h true (b := .nodeReleaseDeath) fun he => by cases he
    · exact refsInv_addDeath (refsInv_modDeath h d _) (fun n => ListHead.noConfusion) _

end

/-- The owner of a node goes away. -/
theorem NodeFacts.orphan {K : NodeScope} {o : Objects} {n p : ℕ} (h : NodeFacts K o)
    (hp : (o.node.get n).proc = some p) (hn : n < o.node.next) (hfreed : (o.node.get n).freed = 0)
    (hout : ∀ q, n ∉ (o.own q).nodes) (hoff : ∀ l, (l, .node n) ∉ o.todo.entries) :
    NodeFacts K { o.modNode n fun x =>
      { x with proc := none, localStrongRefs := 0, localWeakRefs := 0 } with
        deadNodes := n :: o.deadNodes } := by
  set o' : Objects := { o.modNode n fun x =>
    { x with proc := none, localStrongRefs := 0, localWeakRefs := 0 } with
      deadNodes := n :: o.deadNodes } with ho'
  have hkeep : ∀ {β : Type} (g : BinderNode → β),
      (∀ x, g { x with proc := none, localStrongRefs := 0, localWeakRefs := 0 } = g x) →
      ∀ m, g (o'.node.get m) = g (o.node.get m) := fun g hg m =>
    o.node.apply_get_modify n m _ g hg
  have hother : ∀ m, m ≠ n → o'.node.get m = o.node.get m := fun m hm => if_neg hm
  have hself : (o'.node.get n).proc = none := by
    rw [ho']
    dsimp only [Objects.modNode]
    rw [Heap.get_modify_self]
  have hdead : n ∉ o.deadNodes := fun hd => by
    rw [(h.dead n hd).2.1] at hp
    cases hp
  exact {
    count := fun m => by
      have hs : strongRefs o' m = strongRefs o m := by
        unfold strongRefs
        rw [hkeep (·.refs) fun _ => rfl]
        rfl
      rw [hs, hkeep (·.internalStrongRefs) fun _ => rfl]
      exact h.count m
    nonneg := h.nonneg
    tree := fun q m hm => by
      rw [hother m fun he => hout q (he ▸ hm)]
      exact h.tree q m hm
    nodup := h.nodup
    dead := fun m hm => by
      rcases List.mem_cons.1 hm with rfl | hm
      · exact ⟨(hkeep (·.freed) (fun _ => rfl) m).trans hfreed, hself, hn⟩
      · rw [hother m fun he => hdead (he ▸ hm)]
        exact h.dead m hm
    deadNodup := List.nodup_cons.2 ⟨hdead, h.deadNodup⟩
    alive := fun m => by
      rw [hkeep (·.ptr) fun _ => rfl, hkeep (·.refs) fun _ => rfl, hkeep (·.freed) fun _ => rfl]
      exact h.alive m
    mgr := fun m hm => (hkeep (·.ptr) (fun _ => rfl) m).trans (h.mgr m hm)
    home := fun l m hm => by
      rw [hother m fun he => hoff l (he ▸ hm)]
      exact h.home l m hm
    unborn := fun m hm => by
      rw [hother m fun he => (he ▸ hn).not_ge hm]
      exact h.unborn m hm
    told := fun hw m hm => by
      rw [hkeep (·.ptr) fun _ => rfl] at hm
      rw [hkeep (·.hasWeakRef) fun _ => rfl, hkeep (·.hasStrongRef) fun _ => rfl]
      exact h.told hw m hm
    born := h.born
    sent := fun m T hm => by
      obtain ⟨hlt, q, hq, hown⟩ := h.sent m T hm
      by_cases hmn : m = n
      · exact ⟨hlt, q, hq, Or.inr (hmn ▸ hself)⟩
      · rw [hother m hmn]
        exact ⟨hlt, q, hq, hown⟩
    confined := fun q hq r hr hptr q' hq' => by
      rw [hkeep (·.ptr) fun _ => rfl] at hptr
      by_cases hrn : (o.ref.get r).node = n
      · have hnone : (o'.node.get (o.ref.get r).node).proc = none := by rw [hrn, hself]
        cases hnone.symm.trans hq'
      · have hsome : (o'.node.get (o.ref.get r).node).proc = some q' := hq'
        rw [hother _ hrn] at hsome
        exact h.confined q hq r hr hptr q' hsome
    empty := h.empty }

section

variable {w : NodeWatch} {s : Driver} {p : ℕ}

theorem releaseNode_nodeInv (h : NodeInv w s) {n : ℕ} (hn : n ∈ (s.obj.own p).nodes) :
    NodeInv w (releaseNode p s n) ∧
      ((releaseNode p s n).obj.own p).nodes = (s.obj.own p).nodes.erase n := by
  obtain ⟨hfreed, hproc, hlt⟩ := h.facts.tree p n hn
  set o₁ := s.obj.modOwn p fun w => { w with nodes := w.nodes.erase n } with ho₁
  set s₁ := s.modObj fun o => o.modOwn p fun w => { w with nodes := w.nodes.erase n } with hs₁
  have hown : ∀ q, (o₁.own q).nodes = if q = p then (s.obj.own p).nodes.erase n
      else (s.obj.own q).nodes := fun q => by
    simp only [ho₁, Objects.modOwn]
    split_ifs <;> rfl
  have hsub : ∀ q, (o₁.own q).nodes.Sublist (s.obj.own q).nodes := fun q => by
    rw [hown]
    split_ifs with hq
    · rw [hq]
      exact List.erase_sublist
    · exact .refl _
  have hout : ∀ q, n ∉ (o₁.own q).nodes := fun q hq => by
    rw [hown] at hq
    split_ifs at hq with he
    · exact (h.facts.nodup p).not_mem_erase hq
    · exact he (Option.some.inj ((h.facts.tree q n hq).2.1.symm.trans hproc))
  have h₁ : NodeInv w s₁ := by
    refine ⟨h.refs.links (sameLinks_eraseNode s.obj n p).links, ?_⟩
    exact { h.facts with
      tree := fun q m hm => h.facts.tree q m ((hsub q).subset hm)
      nodup := fun q => (h.facts.nodup q).sublist (hsub q)
      confined := fun q hq r hr => h.facts.confined q hq r (refsByDesc_modOwn s.obj p q (·.erase n) ▸ hr)
      empty := fun q hq => by
        obtain ⟨h1, h2⟩ := h.facts.empty q hq
        exact ⟨(refsByDesc_modOwn s.obj p q (·.erase n)).trans h1,
          List.sublist_nil.1 (h2 ▸ hsub q)⟩ }
  set s₃ := unqueue (s₁.note (.nodeReleased n)) (.node n) with hs₃
  set s₄ := binderReleaseWork s₃ (.asyncTodo n) with hs₄
  have h₁₃ : Untouched s₁ s₃ :=
    (untouched_note s₁ (e := .nodeReleased n) rfl).trans (unqueue_untouched _ _)
  have h₃₄ : Untouched s₃ s₄ := binderReleaseWork_untouched s₃ _
  have h₁₄ := h₁₃.trans h₃₄
  have h₄ : NodeInv w s₄ := h₁.untouched h₁₄
  have hoff : ∀ l, (l, .node n) ∉ s₄.obj.todo.entries := fun l hl =>
    (Queues.mem_del.1 (h₃₄.nodes.entry l n hl)).2 rfl
  have hout₄ : ∀ q, n ∉ (s₄.obj.own q).nodes := fun q => by
    rw [h₁₄.nodes.trees]
    exact hout q
  have hproc₄ : (s₄.obj.node.get n).proc = some p := (h₁₄.nodes.proc n).trans hproc
  have htrees : (s₄.obj.own p).nodes = (s.obj.own p).nodes.erase n := by
    rw [h₁₄.nodes.trees]
    change (o₁.own p).nodes = _
    rw [hown, if_pos rfl]
  have heq : releaseNode p s n = s₄.modObj fun o =>
      if (o.node.get n).refs = [] then o.modNode n fun x => { x with freed := x.freed + 1 }
      else
        let o := o.modNode n fun x => { x with proc := none, localStrongRefs := 0, localWeakRefs := 0 }
        (o.node.get n).refs.foldl notifyDeath { o with deadNodes := n :: o.deadNodes } := rfl
  rw [heq]
  by_cases hrefs : (s₄.obj.node.get n).refs = []
  · simp only [Driver.modObj, hrefs, if_true]
    have hfree : SameLinks s₄.obj (s₄.obj.modNode n fun x => { x with freed := x.freed + 1 }) :=
      sameLinks_modNode _ n (fun _ => rfl) fun _ => rfl
    refine ⟨⟨h₄.refs.links hfree.links, ?_⟩, htrees⟩
    refine h₄.facts.free hrefs rfl rfl (fun _ => rfl) (fun _ => .refl _) hout₄ (.refl _) (fun hd => ?_) rfl
      fun _ _ => id
    rw [(h₄.facts.dead n hd).2.1] at hproc₄
    cases hproc₄
  · have hfreed₄ : (s₄.obj.node.get n).freed = 0 := (h₁₄.nodes.freed n).trans hfreed
    have horphan := h₄.facts.orphan hproc₄ (h₄.node_lt hproc₄) hfreed₄ hout₄ hoff
    set o₅ : Objects := { s₄.obj.modNode n fun x =>
      { x with proc := none, localStrongRefs := 0, localWeakRefs := 0 } with
        deadNodes := n :: s₄.obj.deadNodes } with ho₅
    have hrefs₅ : RefsInv o₅ := by
      refine h₄.refs.congr { (SameLinks.refl s₄.obj).tables with
        refs := fun m => s₄.obj.node.apply_get_modify n m
          (fun x => { x with proc := none, localStrongRefs := 0, localWeakRefs := 0 }) (·.refs)
          fun _ => rfl
        proc := fun q m hm => ?_ }
      exact congrArg BinderNode.proc (if_neg fun he : m = n => hout₄ q (he ▸ hm))
    have hloop : ∀ (l : List ℕ) (o : Objects), RefsInv o →
        SameNodes o (l.foldl notifyDeath o) ∧ RefsInv (l.foldl notifyDeath o) := fun l => by
      induction l with
      | nil => exact fun o ho => ⟨.refl o, ho⟩
      | cons r l ih =>
        intro o ho
        obtain ⟨h1, h2⟩ := ih _ (notifyDeath_refsInv ho r)
        exact ⟨(notifyDeath_sameNodes o r).trans h1, h2⟩
    simp only [Driver.modObj, hrefs, if_false]
    obtain ⟨h1, h2⟩ := hloop (o₅.node.get n).refs o₅ hrefs₅
    exact ⟨⟨h2, horphan.congr h1⟩, (h1.trees p).trans htrees⟩

end

end Binder
