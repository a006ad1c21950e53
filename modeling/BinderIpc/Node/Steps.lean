import BinderIpc.Node.Frames

/-! Each function of the driver keeps what is known of the nodes. -/

namespace Binder

open Driver

/-! Death records -/

section

variable (o : Objects)

theorem refsInv_modDeath {o : Objects} (h : RefsInv o) (d : ℕ) (f : BinderRefDeath → BinderRefDeath) :
    RefsInv (o.modDeath d f) := h.congr { (SameLinks.refl o).tables with }

theorem refsInv_refDeath {o : Objects} (h : RefsInv o) (r : ℕ) (d : Option ℕ) :
    RefsInv (o.modRef r fun x => { x with death := d }) :=
  h.congr { (SameLinks.refl o).tables with
    ref := fun r' => o.ref.apply_get_modify r r' (fun x => { x with death := d })
      (fun x : BinderRef => ({ x with death := none } : BinderRef).bare) fun _ => rfl }

theorem refsInv_oops {o : Objects} (h : RefsInv o) (c : Bool) {b : Oops} (hb : b ≠ .descInUse) :
    RefsInv (o.bugOn c b) :=
  h.congr { (SameLinks.refl o).tables with
    descs := fun hd => (List.mem_append.1 hd).resolve_right fun hd => by
      cases c with
      | false => cases hd
      | true => exact hb (List.mem_singleton.1 hd).symm }

/-- Death work goes to a list that is not a queue of a node. -/
theorem refsInv_deathWork {o : Objects} (h : RefsInv o) {q : Queues ListHead Work}
    (hq : ∀ n d, (.asyncTodo n, .death d) ∈ q.entries → (.asyncTodo n, .death d) ∈ o.todo.entries) :
    RefsInv { o with todo := q } := h.congr { (SameLinks.refl o).tables with async := hq }

theorem refsInv_addDeath {o : Objects} (h : RefsInv o) {l : ListHead} (hl : ∀ n, l ≠ .asyncTodo n)
    (w : Work) : RefsInv { o with todo := o.todo.addTail l w } :=
  refsInv_deathWork h fun n _ hd => (Queues.mem_addTail.1 hd).resolve_right fun he => hl n he.1.symm

theorem refsInv_del {o : Objects} (h : RefsInv o) (w : Work) :
    RefsInv { o with todo := o.todo.del w } :=
  refsInv_deathWork h fun _ _ hd => (Queues.mem_del.1 hd).1

theorem deathList_ne (y : BinderThread) (T n : ℕ) : deathList y T ≠ .asyncTodo n := by
  unfold deathList
  split_ifs <;> exact fun h => by cases h

end

section

variable (s : Driver) (T : ℕ)

/-- A step on the objects that is not about nodes. -/
theorem untouched_obj {f : Objects → Objects} (hr : RefsInv s.obj → RefsInv (f s.obj))
    (hn : SameNodes s.obj (f s.obj)) : Untouched s (s.modObj f) :=
  ⟨hn, hr, { SameScope.refl s with }⟩

theorem putDeath_untouched (d : ℕ) (type : DeathWork) {l : ListHead} (hl : ∀ n, l ≠ .asyncTodo n) :
    Untouched s (s.modObj (putDeath · d type l)) :=
  untouched_obj s (fun h => refsInv_addDeath (refsInv_modDeath h d _) hl _)
    ((sameNodes_modDeath s.obj d _).trans (sameNodes_addTail _ l fun _ he => by cases he))

theorem requestDeathNotification_untouched (target cookie : ℕ) (kzalloc : Bool) :
    Untouched s (requestDeathNotification s T target cookie kzalloc) := by
  unfold requestDeathNotification
  dsimp only
  split
  · exact .refl s
  · rename_i r _
    refine Untouched.ite (.refl s) (.ite (untouched_modThread s T fun _ => rfl) ?_)
    have h : Untouched s ((s.modObj fun o => { o.modRef r fun x =>
        { x with death := some s.obj.death.next } with
          death := o.death.alloc { cookie := cookie, proc := (s.thread.get T).proc } }).note
            (.deathRequested s.obj.death.next)) := by
      refine Untouched.trans (untouched_obj s (fun hr => ?_) ?_) (untouched_note _ rfl)
      · exact (refsInv_refDeath hr r (some s.obj.death.next)).congr
          { (SameLinks.refl _).tables with }
      · have hn := sameNodes_modRef s.obj r (f := fun x => { x with death := some s.obj.death.next })
          fun _ => ⟨rfl, rfl, rfl⟩
        exact { hn with }
    refine .ite (h.trans ?_) h
    exact putDeath_untouched _ s.obj.death.next .deadBinder (deathList_ne _ T)

theorem clearDeathNotification_untouched (target cookie : ℕ) :
    Untouched s (clearDeathNotification s T target cookie) := by
  unfold clearDeathNotification
  dsimp only
  split
  · exact .refl s
  · rename_i r _
    split
    · exact .refl s
    · rename_i d _
      have h : Untouched s ((s.modObj fun o => o.modRef r fun x => { x with death := none }).note
          (.deathCleared d)) :=
        (untouched_obj s (fun hr => refsInv_refDeath hr r none)
          (sameNodes_modRef s.obj r (f := fun x => { x with death := none }) fun _ => ⟨rfl, rfl, rfl⟩)).trans
          (untouched_note _ rfl)
      refine .ite (.refl s) (.ite (h.trans ?_) (h.trans ?_))
      · refine (untouched_obj _ (fun hr => refsInv_oops hr _ ?_) (sameNodes_bugOn _ _ _)).trans
          (untouched_obj _ (fun hr => refsInv_modDeath hr d _) (sameNodes_modDeath _ d _))
        exact fun he => by cases he
      · exact putDeath_untouched _ d .clearDeathNotification (deathList_ne _ T)

theorem deadBinderDone_untouched (cookie : ℕ) : Untouched s (deadBinderDone s T cookie) := by
  unfold deadBinderDone
  dsimp only
  split
  · exact .refl s
  · rename_i d _
    have h : Untouched s ((s.modObj fun o => { o with todo := o.todo.del (.death d) }).note
        (.deadBinderDone d)) :=
      (untouched_obj s (fun hr => refsInv_del hr _) (sameNodes_del _)).trans (untouched_note _ rfl)
    refine .ite (h.trans ?_) h
    exact putDeath_untouched _ d .clearDeathNotification (deathList_ne _ T)

theorem registerLooper_untouched : Untouched s (registerLooper s T) := by
  unfold registerLooper
  dsimp only
  refine Untouched.trans ?_ (untouched_modThread _ T fun _ => rfl)
  exact .ite (untouched_modThread s T fun _ => rfl)
    (.ite (untouched_modThread s T fun _ => rfl) (untouched_modProc s _ _))

end

/-! Transactions -/

/-- The target of a command. -/
def targetOf (s : Driver) (T : ℕ) : Command → Option Target
  | .transaction tr => (callTarget s T tr).toOption
  | .reply _ => (replyTarget s T).2.toOption
  | _ => none

/-- The command has offsets of objects. -/
def Command.carries : Command → Bool
  | .transaction tr | .reply tr => 8 ≤ tr.offsetsSize
  | _ => false

/-- A thread of a process that is there sends to a process that is there, or has no buffer for
it; objects come inside only from inside. -/
structure SendsOk (w : NodeWatch) (s : Driver) (T : ℕ) (tr : TransactionData) (target : Target) :
    Prop where
  live : ¬w.gone (s.thread.get T).proc
  receiver : w.gone target.proc → (s.proc.get target.proc).area.vma = false
  inside : 8 ≤ tr.offsetsSize → w.insider target.proc → w.insider (s.thread.get T).proc

/-- The buffer of a new transaction has the offsets that its sender states. -/
theorem placeBuffer_offsets {s : Driver} {tr : TransactionData} {target : Target} {t a : ℕ}
    {area : BinderArea} {b : BinderBuffer}
    (hb : (placeBuffer s tr target t area a).bufferAt (target.proc, a) = some b) :
    b.offsets = copyFromUser (tr.offsetsSize / 8) tr.offsets := by
  have hmem := (bufferAt_some hb).1
  have haddr := (bufferAt_some hb).2
  unfold placeBuffer at hmem
  simp only [Driver.modObj, Driver.modBuffer, Driver.modTxn, Driver.modProc, Heap.get_modify, if_true,
    BinderArea.modBuffer, setBuffer, List.mem_map] at hmem
  obtain ⟨c, -, rfl⟩ := hmem
  split_ifs at haddr ⊢
  · rfl
  · exact absurd haddr ‹_›

theorem proc_replyTarget (s : Driver) (T : ℕ) : (replyTarget s T).1.proc = s.proc := by
  unfold replyTarget
  split
  · rfl
  · dsimp only
    split_ifs
    · rfl
    · split
      · rfl
      · split_ifs <;> rfl

section

variable {w : NodeWatch} {s : Driver} (h : NodeInv w s) (T t : ℕ)

include h

theorem placeBuffer_nodeInv (tr : TransactionData) (target : Target) (area : BinderArea) (a : ℕ) :
    NodeInv w (placeBuffer s tr target t area a) := by
  unfold placeBuffer
  have h1 := h.untouched (((untouched_modProc s target.proc fun p => { p with area := area }).trans
    (untouched_modTxn _ t fun x => { x with buffer := some (target.proc, a) })).trans
      (untouched_modProc _ target.proc fun p =>
        { p with area := p.area.modBuffer a (fillBuffer tr target t) }))
  cases target.node with
  | none => exact h1
  | some n =>
    exact ⟨h1.refs.links (binderIncNode_sameLinks _ n true false none).links,
      binderIncNode_facts h1.facts true (NodeScope.targets_none _ _ n)⟩

theorem undoBuffer_nodeInv (L : Layout) (rb : RbTree ℕ) (env : TransactionEnv) (target : Target)
    (a : ℕ) (b : BinderBuffer) (k : ℕ) : NodeInv w (undoBuffer L rb s T t env target a b k) := by
  have h1 : NodeInv w (s.modObj fun o => binderTransactionBufferRelease L o target.proc b (some k)) :=
    ⟨h.refs.links (bufferRelease_links s.obj target.proc L b (some k)),
      bufferRelease_facts L h.facts h.refs target.proc b (some k)⟩
  unfold undoBuffer
  refine h1.untouched (Untouched.trans ?_ (failTransaction_untouched _ T _))
  refine Untouched.trans ?_ (untouched_modTxn _ t _)
  exact (untouched_modProc _ _ _).trans (untouched_modProc _ _ _)

theorem deliverBuffer_nodeInv (hT : T < s.thread.next) (L : Layout) (rb : RbTree ℕ)
    (tr : TransactionData) (env : TransactionEnv) {target : Target} (ht : SendsOk w s T tr target)
    (hlive : ¬w.gone target.proc) (a : ℕ) {b : BinderBuffer}
    (hb : b.offsets = copyFromUser (tr.offsetsSize / 8) tr.offsets) :
    NodeInv w (deliverBuffer L rb s T t tr env target a b) := by
  have hx : b.offsets ≠ [] → (transferOf s T target).Ok (nodeScope w s) := by
    intro hne
    refine ⟨nodeScope_thread w hT, ht.live, hlive, ht.inside ?_⟩
    by_contra hlt
    rw [hb, Nat.div_eq_of_lt (not_le.1 hlt)] at hne
    exact hne rfl
  have h1 : NodeInv w (s.modObj fun _ =>
      (translateBuffer L s.obj (transferOf s T target) env tr b).1) :=
    ⟨h.refs.links (translateBuffer_links L h.refs _ env tr b),
      translateBuffer_facts L h.facts h.refs _ env tr b hx⟩
  have h2 := h1.untouched (untouched_modProc _ target.proc fun p =>
    { p with area := p.area.modBuffer a fun b' => { b' with data := (translateBuffer L s.obj
      (transferOf s T target) env tr b).2.1 } })
  unfold deliverBuffer
  dsimp only
  split
  · exact h2.untouched (queueTransaction_untouched _ T t target)
  · exact undoBuffer_nodeInv h2 T t L rb env target a _ _

theorem sendTransaction_nodeInv (hT : T < s.thread.next) (L : Layout) (rb : RbTree ℕ)
    (tr : TransactionData) (env : TransactionEnv) {target : Target} (ht : SendsOk w s T tr target) :
    NodeInv w (sendTransaction L rb s T tr env target) := by
  rw [sendTransaction_eq]
  split_ifs
  · exact h.untouched (failTransaction_untouched s T _)
  have halloc := h.untouched (untouched_allocTxn s (newTransaction T tr target))
  dsimp only
  split
  · refine halloc.untouched (Untouched.trans ?_ (failTransaction_untouched _ T _))
    exact (untouched_modProc _ _ _).trans (untouched_modTxn _ _ _)
  · rename_i a ha
    have hlive : ¬w.gone target.proc := by
      intro hgone
      have hvma := ht.receiver hgone
      rw [vma_of_alloc ha] at hvma
      cases hvma
    have hplace := placeBuffer_nodeInv halloc s.txn.next tr target
      (binderAllocBuf L rb (s.proc.get target.proc).area env.alloc tr.dataSize tr.offsetsSize
        (!target.inReplyTo.isSome && tr.flags.oneWay)).1 a
    split
    · exact hplace
    · rename_i b hb
      apply deliverBuffer_nodeInv hplace T _ ?_ L rb tr env ⟨?_, ?_, ?_⟩ hlive a (placeBuffer_offsets hb)
      · exact hT
      · exact ht.live
      · exact fun hgone => absurd hgone hlive
      · exact ht.inside

theorem binderTransaction_nodeInv (hT : T < s.thread.next) (L : Layout) (rb : RbTree ℕ)
    (tr : TransactionData) (reply : Bool) (env : TransactionEnv)
    (ht : ∀ target, targetOf s T (if reply then .reply tr else .transaction tr) = some target →
      SendsOk w s T tr target) : NodeInv w (binderTransaction L rb s T tr reply env) := by
  have htarget : Untouched s (if reply then replyTarget s T else (s, callTarget s T tr)).1 := by
    cases reply
    · exact .refl s
    · exact replyTarget_untouched s T
  have hproc : (if reply then replyTarget s T else (s, callTarget s T tr)).1.proc = s.proc := by
    cases reply
    · rfl
    · exact proc_replyTarget s T
  unfold binderTransaction
  split
  · rename_i he
    rw [he] at htarget
    exact h.untouched (htarget.trans (failTransaction_untouched _ T _))
  · rename_i s₁ target he
    rw [he] at htarget hproc
    have hsent := ht target (by
      cases reply with
      | false =>
        have hcall : callTarget s T tr = .ok target := congrArg Prod.snd he
        rw [if_neg Bool.false_ne_true, targetOf, hcall]
        rfl
      | true =>
        have hreply : (replyTarget s T).2 = .ok target := congrArg Prod.snd he
        rw [if_pos rfl, targetOf, hreply]
        rfl)
    have howner : (s₁.thread.get T).proc = (s.thread.get T).proc := htarget.scope.owner T hT
    have hsends : SendsOk w s₁ T tr target := by
      refine ⟨?_, ?_, ?_⟩
      · rw [howner]
        exact hsent.live
      · change s₁.proc = s.proc at hproc
        rw [hproc]
        exact hsent.receiver
      · rw [howner]
        exact hsent.inside
    exact sendTransaction_nodeInv (h.untouched htarget) T
      (hT.trans_le htarget.scope.threadNext) L rb tr env hsends

theorem freeBuffer_nodeInv (L : Layout) (rb : RbTree ℕ) (a : ℕ) (env : PageEnv) :
    NodeInv w (freeBuffer L rb s T a env) := by
  unfold freeBuffer
  dsimp only
  split
  · exact h
  rename_i b _
  have hrelease : ∀ s₁, NodeInv w s₁ → NodeInv w ((s₁.modObj fun o =>
      binderTransactionBufferRelease L o (s.thread.get T).proc b none).modProc (s.thread.get T).proc
        fun x => { x with area := binderFreeBuf L rb x.area a env }) := fun s₁ h₁ => by
    have h2 : NodeInv w (s₁.modObj fun o =>
        binderTransactionBufferRelease L o (s.thread.get T).proc b none) :=
      ⟨h₁.refs.links (bufferRelease_links _ _ L b none), bufferRelease_facts L h₁.facts h₁.refs _ b none⟩
    exact h2.untouched (untouched_modProc _ _ _)
  split_ifs with hfree hasync
  · exact h
  all_goals
    have hdetach : Untouched s (detachBuffer s ((s.thread.get T).proc, a)) := by
      unfold detachBuffer
      split
      · exact (untouched_modTxn s _ _).trans (untouched_modProc _ _ _)
      · exact .refl s
    have h1 := h.untouched hdetach
  · have h2 : NodeInv w ((detachBuffer s ((s.thread.get T).proc, a)).modObj fun o =>
        b.targetNode.elim o (nextAsync o T)) := by
      cases b.targetNode with
      | none => exact h1
      | some n =>
        exact ⟨h1.refs.links (nextAsync_sameLinks h1.refs T n).links, nextAsync_facts h1.facts T n⟩
    exact hrelease _ h2
  · exact hrelease _ h1

theorem writeCommand_nodeInv (hT : T < s.thread.next) (L : Layout) (rb : RbTree ℕ) (env : CommandEnv)
    (c : Command) (hlive : ¬w.gone (s.thread.get T).proc)
    (hreceiver : ∀ target : Target, w.gone target.proc → (s.proc.get target.proc).area.vma = false)
    (hinside : c.carries = true → ∀ target, targetOf s T c = some target → w.insider target.proc →
      w.insider (s.thread.get T).proc) :
    NodeInv w (writeCommand L rb s T env c) := by
  unfold writeCommand
  split_ifs
  · cases c with
    | ref c target =>
      exact ⟨h.refs.links (refCommand_links _ h.refs c target env.kzalloc),
        refCommand_facts h.facts h.refs _ hlive c target env.kzalloc⟩
    | refDone strong ptr cookie =>
      exact ⟨h.refs.links (refDone_sameLinks _ strong ptr cookie).links,
        refDone_facts h.facts _ strong ptr cookie⟩
    | freeBuffer a => exact freeBuffer_nodeInv h T L rb a env.free
    | transaction tr =>
      refine binderTransaction_nodeInv h T hT L rb tr false env.transaction fun target ht => ?_
      exact ⟨hlive, hreceiver target, fun hsize => hinside (decide_eq_true hsize) target ht⟩
    | reply tr =>
      refine binderTransaction_nodeInv h T hT L rb tr true env.transaction fun target ht => ?_
      exact ⟨hlive, hreceiver target, fun hsize => hinside (decide_eq_true hsize) target ht⟩
    | registerLooper => exact h.untouched (registerLooper_untouched s T)
    | enterLooper => exact h.untouched (untouched_modThread s T fun _ => rfl)
    | exitLooper => exact h.untouched (untouched_modThread s T fun _ => rfl)
    | requestDeathNotification target cookie =>
      exact h.untouched (requestDeathNotification_untouched s T target cookie env.kzalloc)
    | clearDeathNotification target cookie =>
      exact h.untouched (clearDeathNotification_untouched s T target cookie)
    | deadBinderDone cookie => exact h.untouched (deadBinderDone_untouched s T cookie)
  · exact h

end

end Binder
