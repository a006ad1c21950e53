import BinderIpc.Txn.Transact

/-! The commands: a buffer that is given back brings the next asynchronous transaction
of its node to the thread, and the other commands touch no transaction. -/

namespace Binder

variable {L : Layout} {rb : RbTree ℕ} {gone : ℕ → Bool} {loose : Option ℕ} {s s' : Driver}
  {t T p a n : ℕ} {l g : ListHead} {b : ℕ × ℕ} {B : BinderBuffer} {w : Work}

/-! A buffer is given back -/

theorem binderBufferLookup_mem {a b : ℕ} {tree : Tree ℕ} (h : binderBufferLookup a tree = some b) :
    b = a ∧ a ∈ tree.inorder := by
  induction tree with
  | leaf => cases h
  | node l c r ihl ihr =>
    rw [binderBufferLookup] at h
    simp only [Tree.inorder, List.mem_append, List.mem_cons]
    split_ifs at h with h1 h2
    · exact (ihl h).imp_right Or.inl
    · exact (ihr h).imp_right fun h => Or.inr (Or.inr h)
    · obtain rfl := Option.some.inj h
      obtain rfl : c = a := by omega
      exact ⟨rfl, Or.inr (Or.inl rfl)⟩

/-- A queued transaction without reply goes to another list. -/
theorem CallInv.moveTransaction (h : CallInv L gone loose s) (hq : s.queued l t)
    (hno : (s.txn.get t).needReply = false) (hp : Placed s g t) :
    CallInv L gone loose (s.modObj fun o =>
      { o with todo := o.todo.moveTail g (.transaction t) }) := by
  set s' := s.modObj fun o => { o with todo := o.todo.moveTail g (.transaction t) } with hs'
  have hmem : ∀ k u, s'.queued k u ↔ (s.queued k u ∧ u ≠ t) ∨ (k = g ∧ u = t) := fun k u => by
    simp [Driver.queued, hs', Driver.modObj, Queues.mem_moveTail]
  have hlinked : ∀ u, s'.obj.todo.linked (.transaction u) = s.obj.todo.linked (.transaction u) := by
    intro u
    rw [Bool.eq_iff_iff, Queues.linked_iff, Queues.linked_iff]
    constructor
    · rintro ⟨k, hk⟩
      rcases (hmem k u).1 hk with ⟨hk, -⟩ | ⟨-, rfl⟩
      · exact ⟨k, hk⟩
      · exact ⟨l, hq⟩
    · rintro ⟨k, hk⟩
      by_cases hut : u = t
      · exact ⟨g, (hmem g u).2 (Or.inr ⟨rfl, hut⟩)⟩
      · exact ⟨k, (hmem k u).2 (Or.inl ⟨hk, hut⟩)⟩
  have hcalls : callsOf gone loose s' = callsOf gone loose s := by
    have hfun := funext hlinked
    unfold callsOf
    simp only [hlinked]
    rfl
  refine ⟨⟨hcalls ▸ h.txn.forest, h.txn.call_live, fun k u hu => ?_, h.txn.forward, h.txn.back,
    h.txn.target, h.txn.area, h.txn.stack_lt, h.txn.waits, h.txn.unborn⟩,
    h.err.same rfl fun _ => rfl, h.out.same' (.of_eq rfl rfl) rfl⟩
  have hold : Placed s k u := by
    rcases (hmem k u).1 hu with ⟨hu, -⟩ | ⟨rfl, rfl⟩
    · exact h.txn.placed k u hu
    · exact hp
  exact hold.congr rfl (fun _ => rfl) (fun q hq => hq.congr rfl rfl fun _ => rfl) fun hc =>
    hc.congr rfl fun _ => rfl

/-- Other work is moved. -/
theorem same_moveTail (hw : ∀ t, w ≠ .transaction t) :
    TxnSame L s (s.modObj fun o => { o with todo := o.todo.moveTail g w }) :=
  { TxnSame.refl (L := L) s with
    queued := fun l t => by
      simp only [Driver.queued, Driver.modObj, Queues.mem_moveTail]
      constructor
      · rintro (⟨h, -⟩ | ⟨-, rfl⟩)
        · exact h
        · exact absurd rfl (hw t)
      · exact fun h => Or.inl ⟨h, fun he => hw t he.symm⟩ }

theorem modObj_nextAsync (s : Driver) (T n : ℕ) : (s.modObj fun o => nextAsync o T n) =
    (s.modObj fun o => o.bugOn (!(o.node.get n).hasAsyncTransaction) .hasAsyncTransaction).modObj
      fun o => match o.todo.first (.asyncTodo n) with
        | none => o.modNode n fun x => { x with hasAsyncTransaction := false }
        | some w => { o with todo := o.todo.moveTail (.threadTodo T) w } := rfl

/-- The next transaction that waits for the node goes to the thread. -/
theorem CallInv.nextAsync (h : CallInv L gone loose s) (hT : T < s.thread.next)
    (hf : (s.thread.get T).freed = 0)
    (hopen : (s.proc.get (s.thread.get T).proc).closed = false)
    (hn : ∀ q, (s.obj.node.get n).proc = some q → q = (s.thread.get T).proc) :
    CallInv L gone loose (s.modObj fun o => nextAsync o T n) := by
  have hbug : CallInv L gone loose (s.modObj fun o =>
      o.bugOn (!(o.node.get n).hasAsyncTransaction) .hasAsyncTransaction) :=
    h.quiet (f := fun o => o.bugOn (!(o.node.get n).hasAsyncTransaction) .hasAsyncTransaction)
      (quiet_bugOn _ _ rfl)
  rw [modObj_nextAsync]
  set s₁ := s.modObj fun o =>
    o.bugOn (!(o.node.get n).hasAsyncTransaction) .hasAsyncTransaction with hs₁
  cases hfirst : s₁.obj.todo.first (.asyncTodo n) with
  | none =>
    have := hbug.quiet (f := fun o => o.modNode n fun x => { x with hasAsyncTransaction := false })
      (quiet_modNode _ n fun _ => rfl)
    simpa only [Driver.modObj, hfirst] using this
  | some w =>
    have hmem : (ListHead.asyncTodo n, w) ∈ s₁.obj.todo.entries := Queues.first_mem hfirst
    have hgoal : CallInv L gone loose (s₁.modObj fun o =>
        { o with todo := o.todo.moveTail (.threadTodo T) w }) := by
      by_cases hw : ∃ t, w = .transaction t
      · obtain ⟨t, rfl⟩ := hw
        have hp := hbug.txn.placed _ t hmem
        have hasync : (s₁.txn.get t).flags.oneWay = true := hp.async n rfl
        rcases hp.buffer with ⟨b, B, hb, hB, hBu, hBn, hh⟩ | ⟨m, q, hm, -, hq, hcl⟩
        · have hno : (s₁.txn.get t).needReply = false := by
            rw [← hBn, hasync]
            simp
          have hhome : Home s₁ b.1 (.threadTodo T) := ⟨hT, hf, (hn b.1 hh.2).symm⟩
          refine hbug.moveTransaction hmem hno ⟨hp.lt, hp.live,
            Or.inl ⟨b, B, hb, hB, hBu, hBn, hhome⟩, fun k hk => ?_, fun hc => ?_⟩
          · cases hk
          · rw [hno] at hc
            cases hc
        · cases hm
          have := hn q hq
          rw [this] at hcl
          exact absurd (hopen.symm.trans hcl) (by simp)
      · push Not at hw
        refine hbug.same ?_ (fun _ => rfl) (fun _ => rfl) (.of_eq rfl rfl)
        exact same_moveTail hw
    simpa only [Driver.modObj, hfirst] using hgoal

/-- A buffer that the user may free is not that of a queued transaction, but for one of a
process that is about to go. -/
theorem TxnInv.freeable (h : TxnInv L gone loose s) (hB : s.liveAt b = some B)
    (hBt : B.transaction = some t) (hfree : B.allowUserFree = true) (hq : s.queued l t) :
    Closing s l := by
  rcases (h.placed l t hq).buffer with ⟨c, C, hc, hC, hCu, -⟩ | hcl
  · obtain ⟨-, -, hb⟩ := h.back b B t hB hBt
    obtain rfl : b = c := Option.some.inj (hb.symm.trans hc)
    obtain rfl : B = C := Option.some.inj (hB.symm.trans hC)
    rw [hfree] at hCu
    cases hCu
  · exact hcl

theorem CallInv.detachBuffer (h : CallInv L gone loose s) (hB : s.liveAt b = some B)
    (hfree : B.allowUserFree = true) : CallInv L gone loose (detachBuffer s b) ∧
      (detachBuffer s b).liveAt b = some { B with transaction := none } := by
  unfold Binder.detachBuffer
  rw [h.txn.bufferAt_eq hB, Option.bind_some]
  cases hBt : B.transaction with
  | none =>
    refine ⟨h, hB.trans ?_⟩
    rw [← hBt]
  | some t =>
    refine ⟨h.cut hB hBt fun l hq => h.txn.freeable hB hBt hfree hq, ?_⟩
    refine (liveAt_cutBuffer b).trans ?_
    rw [if_pos rfl, hB]
    rfl

theorem CallInv.freeBuffer {env : PageEnv} (h : CallInv L s.dead none s) (hw : Writing s T)
    (hopen : (s.proc.get (s.thread.get T).proc).closed = false) :
    CallInv L s.dead none (freeBuffer L rb s T a env) := by
  unfold Binder.freeBuffer
  dsimp only
  set p := (s.thread.get T).proc with hp
  cases hlook : binderBufferLookup a (s.proc.get p).area.allocatedBuffers with
  | none => exact h
  | some a' =>
    obtain ⟨rfl, hmem⟩ := binderBufferLookup_mem hlook
    obtain ⟨B, hB⟩ := Option.isSome_iff_exists.1 ((h.txn.allocated_live p).2 a' hmem)
    rw [Option.bind_some, h.txn.bufferAt_eq hB]
    dsimp only
    refine CallInv.ite (fun _ => h) fun hfree => ?_
    obtain ⟨h₁, hB₁⟩ := h.detachBuffer hB (by simpa using hfree)
    set s₁ := Binder.detachBuffer s (p, a') with hs₁
    have hth : s₁.thread = s.thread := by
      rw [hs₁, Binder.detachBuffer]
      split <;> rfl
    have hobj : s₁.obj = s.obj := by
      rw [hs₁, Binder.detachBuffer]
      split <;> rfl
    have hclosed : (s₁.proc.get p).closed = false := by
      rw [← hopen, hs₁, Binder.detachBuffer]
      split
      · exact proc_modBuffer (s := s.modTxn _ fun x => { x with buffer := none }) (·.closed)
          (fun _ _ => rfl) (p, a') _ p
      · rfl
    set s₂ := if B.asyncTransaction = true then
        s₁.modObj fun o => B.targetNode.elim o (Binder.nextAsync o T) else s₁ with hs₂
    have h₂ : CallInv L s.dead none s₂ := by
      rw [hs₂]
      refine CallInv.ite (fun _ => ?_) fun _ => h₁
      cases hn : B.targetNode with
      | none => exact h₁
      | some n =>
        refine h₁.nextAsync (hth ▸ hw.lt) (hth ▸ hw.freed) (by rw [hth]; exact hclosed) fun q hq => ?_
        rw [hobj] at hq
        rw [hth]
        exact (h.txn.target _ B n hB hn).2 q hq
    have hB₂ : s₂.liveAt (p, a') = some { B with transaction := none } := by
      rw [← hB₁, hs₂]
      split <;> rfl
    have h₃ := h₂.quiet (f := fun o => binderTransactionBufferRelease L o p B none)
      (bufferRelease_quiet _ _ _ _ _)
    exact h₃.freeBuf _ _ (B := { B with transaction := none }) hB₂ rfl

/-! The others -/

theorem CallInv.queueDeath (h : CallInv L gone loose s) (l : ListHead) (d : ℕ)
    (f : BinderRefDeath → BinderRefDeath) : CallInv L gone loose (s.modObj fun o =>
      { o.modDeath d f with todo := o.todo.addTail l (.death d) }) :=
  h.quiet (f := fun o => { o.modDeath d f with todo := o.todo.addTail l (.death d) })
    ((quiet_modDeath _ d f).trans (quiet_todo _ (messages_addTail _ _ rfl)))

theorem CallInv.requestDeathNotification {target cookie : ℕ} {kzalloc : Bool}
    (h : CallInv L gone loose s) :
    CallInv L gone loose (requestDeathNotification s T target cookie kzalloc) := by
  unfold Binder.requestDeathNotification
  dsimp only
  split
  · exact h
  · rename_i r _
    refine CallInv.ite (fun _ => h) fun _ => .ite (fun _ => h.modThread ?_) fun _ => ?_
    · exact ⟨fun _ => rfl, fun _ => rfl, fun _ => rfl, fun _ _ => Or.inl,
        fun _ he => ⟨he, fun _ => by simp⟩⟩
    · have hnew : CallInv L gone loose ((s.modObj fun o =>
          { o.modRef r fun x => { x with death := some s.obj.death.next } with
            death := o.death.alloc { cookie := cookie, proc := (s.thread.get T).proc } }).note
              (.deathRequested s.obj.death.next)) := by
        refine (h.quiet (f := fun o =>
          { o.modRef r fun x => { x with death := some s.obj.death.next } with
            death := o.death.alloc { cookie := cookie, proc := (s.thread.get T).proc } }) ?_).note
              rfl rfl rfl
        exact ⟨rfl, le_rfl, fun _ _ => rfl, fun _ _ => rfl, rfl, fun _ => Or.inl⟩
      exact CallInv.ite (fun _ => hnew.queueDeath _ _ _) fun _ => hnew

theorem CallInv.clearDeathNotification {target cookie : ℕ} (h : CallInv L gone loose s) :
    CallInv L gone loose (clearDeathNotification s T target cookie) := by
  unfold Binder.clearDeathNotification
  dsimp only
  split
  · exact h
  · rename_i r _
    split
    · exact h
    · rename_i d _
      refine CallInv.ite (fun _ => h) fun _ => ?_
      have hclear : CallInv L gone loose ((s.modObj fun o =>
          o.modRef r fun x => { x with death := none }).note (.deathCleared d)) :=
        (h.quiet (f := fun o => o.modRef r fun x => { x with death := none })
          (quiet_modRef _ r _)).note rfl rfl rfl
      refine CallInv.ite (fun _ => ?_) fun _ => hclear.queueDeath _ _ _
      have hbug := hclear.quiet
        (f := fun o => o.bugOn ((s.obj.death.get d).type ≠ some .deadBinder) .clearDeathType)
        (quiet_bugOn _ _ rfl)
      exact hbug.quiet (f := fun o => o.modDeath d fun z => { z with type := some .deadBinderAndClear })
        (quiet_modDeath _ d _)

theorem CallInv.deadBinderDone {cookie : ℕ} (h : CallInv L gone loose s) :
    CallInv L gone loose (deadBinderDone s T cookie) := by
  unfold Binder.deadBinderDone
  dsimp only
  split
  · exact h
  · rename_i d _
    have hdel : CallInv L gone loose ((s.modObj fun o =>
        { o with todo := o.todo.del (.death d) }).note (.deadBinderDone d)) :=
      (h.quiet (f := fun o => { o with todo := o.todo.del (.death d) })
        (quiet_todo _ (messages_del _ rfl))).note rfl rfl rfl
    exact CallInv.ite (fun _ => hdel.queueDeath _ _ _) fun _ => hdel

/-- The flags of the loop of a thread. -/
theorem harmless_looper {f : BinderThread → BinderThread} (hf : ∀ y, ∃ l, f y = { y with looper := l }) :
    Harmless f := by
  have hkeep : ∀ {β : Type} (g : BinderThread → β), (∀ y l, g { y with looper := l } = g y) →
      ∀ y, g (f y) = g y := fun g hg y => by
    obtain ⟨l, hl⟩ := hf y
    rw [hl, hg]
  refine ⟨hkeep _ fun _ _ => rfl, hkeep _ fun _ _ => rfl, hkeep _ fun _ _ => rfl,
    fun y g hg => Or.inl ?_, fun y he => ⟨?_, fun he' => ?_⟩⟩
  · rwa [hkeep (·.asleep) fun _ _ => rfl] at hg
  · rwa [hkeep (·.returnError2) fun _ _ => rfl] at he
  · rwa [hkeep (·.returnError) fun _ _ => rfl]

theorem CallInv.registerLooper (h : CallInv L gone loose s) :
    CallInv L gone loose (registerLooper s T) := by
  unfold Binder.registerLooper
  refine CallInv.modThread ?_ (harmless_looper fun _ => ⟨_, rfl⟩)
  refine CallInv.ite (fun _ => ?_) fun _ => .ite (fun _ => ?_) fun _ => ?_
  · exact h.modThread (harmless_looper fun _ => ⟨_, rfl⟩)
  · exact h.modThread (harmless_looper fun _ => ⟨_, rfl⟩)
  · exact h.modProc (fun _ => rfl) (fun _ => rfl) fun _ => id

/-- Whether a command is a call that would be sent to the thread that makes it. -/
def Command.selfRouted (s : Driver) (T : ℕ) : Command → Bool
  | transaction tr => Binder.selfRouted s T tr
  | _ => false

theorem CallInv.binderCommand {env : CommandEnv} {c : Command} (h : CallInv L s.dead none s)
    (hw : Writing s T) (hopen : (s.proc.get (s.thread.get T).proc).closed = false)
    (hc : c.sized L = true) (hself : c.selfRouted s T = false) :
    CallInv L s.dead none (binderCommand L rb s T env c) := by
  have hsizes : ∀ tr : TransactionData,
      (decide (tr.dataSize < L.sizes) && decide (tr.offsetsSize < L.sizes)) = true →
      tr.dataSize < L.sizes ∧ tr.offsetsSize < L.sizes := fun tr htr => by simpa using htr
  cases c with
  | ref c target =>
    exact h.quiet (f := fun o => refCommand o (s.thread.get T).proc c target env.kzalloc)
      (refCommand_quiet _ _ _ _ _)
  | refDone strong ptr cookie =>
    exact h.quiet (f := fun o => refDone o (s.thread.get T).proc strong ptr cookie)
      (refDone_quiet _ _ _ _ _)
  | freeBuffer a => exact h.freeBuffer hw hopen
  | transaction tr =>
    obtain ⟨hd, ho⟩ := hsizes tr hc
    exact h.binderTransaction hw hd ho fun _ => hself
  | reply tr =>
    obtain ⟨hd, ho⟩ := hsizes tr hc
    exact h.binderTransaction hw hd ho fun hr => by cases hr
  | registerLooper => exact h.registerLooper
  | enterLooper => exact h.modThread (harmless_looper fun _ => ⟨_, rfl⟩)
  | exitLooper => exact h.modThread (harmless_looper fun _ => ⟨_, rfl⟩)
  | requestDeathNotification target cookie => exact h.requestDeathNotification
  | clearDeathNotification target cookie => exact h.clearDeathNotification
  | deadBinderDone cookie => exact h.deadBinderDone

end Binder
