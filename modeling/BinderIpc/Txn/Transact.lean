import BinderIpc.Txn.Queue

/-! The whole of `binder_transaction`: what is known of the target stays true while the
transaction is prepared, and then it is queued or undone. -/

namespace Binder

variable {L : Layout} {rb : RbTree ℕ} {gone : ℕ → Bool} {loose : Option ℕ} {s s' : Driver}
  {t u T S p q a n : ℕ} {tr : TransactionData} {target : Target} {b : ℕ × ℕ} {B : BinderBuffer}
  {x : BinderTransaction} {env : TransactionEnv}

/-! What the preparation of a new transaction leaves alone -/

structure Kept (s s' : Driver) : Prop where
  thread : s'.thread = s.thread
  txnNext : s.txn.next ≤ s'.txn.next
  txn : ∀ v, v < s.txn.next → s'.txn.get v = s.txn.get v
  queued : ∀ l v, s'.queued l v → s.queued l v
  nodeNext : s.obj.node.next ≤ s'.obj.node.next
  nodeProc : ∀ m, m < s.obj.node.next → (s'.obj.node.get m).proc = (s.obj.node.get m).proc

namespace Kept

theorem refl (s : Driver) : Kept s s :=
  ⟨rfl, le_rfl, fun _ _ => rfl, fun _ _ => id, le_rfl, fun _ _ => rfl⟩

theorem alloc (h : Kept s s') (x : BinderTransaction) :
    Kept s { s' with txn := s'.txn.alloc x } :=
  ⟨h.thread, h.txnNext.trans (Nat.le_succ _), fun v hv =>
    (s'.txn.get_alloc_ne v x (hv.trans_le h.txnNext).ne).trans (h.txn v hv), h.queued, h.nodeNext,
    h.nodeProc⟩

theorem modTxn (h : Kept s s') (ht : s.txn.next ≤ t) (f : BinderTransaction → BinderTransaction) :
    Kept s (s'.modTxn t f) :=
  ⟨h.thread, h.txnNext, fun v hv =>
    (s'.txn.get_modify_ne t v f (hv.trans_le ht).ne).trans (h.txn v hv), h.queued, h.nodeNext,
    h.nodeProc⟩

theorem modProc (h : Kept s s') (f : BinderProc → BinderProc) : Kept s (s'.modProc p f) :=
  ⟨h.thread, h.txnNext, h.txn, h.queued, h.nodeNext, h.nodeProc⟩

theorem modBuffer (h : Kept s s') (f : BinderBuffer → BinderBuffer) : Kept s (s'.modBuffer b f) :=
  ⟨h.thread, h.txnNext, h.txn, h.queued, h.nodeNext, h.nodeProc⟩

theorem quiet (h : Kept s s') {f : Objects → Objects} (hf : Quiet s'.obj (f s'.obj)) :
    Kept s (s'.modObj f) :=
  ⟨h.thread, h.txnNext, h.txn, fun l v hv => h.queued l v ((hf.mem_message rfl).1 hv),
    h.nodeNext.trans hf.next, fun m hm =>
      (hf.proc m (hm.trans_le h.nodeNext)).trans (h.nodeProc m hm)⟩

theorem dead (h : Kept s s') : s'.dead = s.dead := by
  funext S
  rw [Driver.dead, Driver.dead, h.thread]

theorem pops (h : Kept s s') (hi : CallInv L gone loose s) (hp : Pops s loose) : Pops s' loose := by
  intro u hu
  obtain ⟨hcall, hq⟩ := hp u hu
  rw [h.txn u (hi.txn.call_live u hcall).1]
  exact ⟨hcall, fun l hl => hq l (h.queued l u hl)⟩

theorem replyTo (h : Kept s s') (hu : u < s.txn.next) (hr : ReplyTo s u S target) :
    ReplyTo s' u S target := by
  obtain ⟨h1, h2, h3, h4⟩ := hr
  exact ⟨by rw [h.thread]; exact h1, by rw [h.txn u hu]; exact h2, by rw [h.thread]; exact h3,
    by rw [h.thread]; exact h4⟩

/-- The way up from the call that `T` works on is the same in both states. -/
theorem iterate_parent (h : Kept s s') (hi : CallInv L gone none s) (hg : gone T = false)
    (hheld : ∀ v, (s.thread.get T).transactionStack = some v → (s.txn.get v).toThread = some T)
    (j : ℕ) : (fun o : Option ℕ => o.bind fun t => (s'.txn.get t).fromParent)^[j]
        (s.thread.get T).transactionStack =
      (fun o : Option ℕ => o.bind fun t => (s.txn.get t).fromParent)^[j]
        (s.thread.get T).transactionStack ∧
    ∀ v, (fun o : Option ℕ => o.bind fun t => (s.txn.get t).fromParent)^[j]
        (s.thread.get T).transactionStack = some v → v < s.txn.next := by
  obtain ⟨F, hF⟩ := hi.txn.forest
  have htop : (callsOf gone none s).top T = (s.thread.get T).transactionStack := by
    change (if gone T = true then none else (s.thread.get T).transactionStack) = _
    simp [hg]
  obtain ⟨m, hm, hhead, -⟩ := hF.exists_tip (T := T) fun v hv => by
    rw [htop] at hv
    simpa [callsOf] using hheld v hv
  have hlt : ∀ j v, (fun o : Option ℕ => o.bind fun t => (s.txn.get t).fromParent)^[j]
      (s.thread.get T).transactionStack = some v → v < s.txn.next := fun j v hv => by
    have hmem : v ∈ m := (hF.chain m hm).iterate_parent (j := j) (by rw [hhead, htop]; exact hv)
    exact (hi.txn.call_live v (hF.mem_call hm hmem)).1
  refine ⟨?_, hlt j⟩
  induction j with
  | zero => rfl
  | succ j ih =>
    rw [Function.iterate_succ_apply', Function.iterate_succ_apply', ih]
    cases hv : (fun o : Option ℕ => o.bind fun t => (s.txn.get t).fromParent)^[j]
        (s.thread.get T).transactionStack with
    | none => rfl
    | some v =>
      rw [Option.bind_some, Option.bind_some, h.txn v (hlt j v hv)]

theorem callTo (h : Kept s s') (hi : CallInv L gone none s) (hg : gone T = false)
    (hc : CallTo s T tr target n) : CallTo s' T tr target n := by
  obtain ⟨F, hF⟩ := hi.txn.forest
  refine ⟨hc.notReply, hc.node, hc.lt.trans_le h.nodeNext, (h.nodeProc n hc.lt).trans hc.owner,
    fun hsync v hv => ?_, hc.alone, fun R hR => ?_⟩
  · rw [h.thread] at hv
    have htop : (callsOf gone none s).top T = some v := by simp [callsOf, hg, hv]
    rw [h.txn v (hi.txn.call_live v (hF.top_call htop).1).1]
    exact hc.held hsync v hv
  · obtain ⟨hR₁, j, v, hj, hv⟩ := hc.thread R hR
    have hsync : tr.flags.oneWay = false := by
      by_contra hone
      rw [hc.alone (by simpa using hone)] at hR
      cases hR
    obtain ⟨heq, hlt⟩ := h.iterate_parent hi hg (hc.held hsync) j
    rw [h.thread]
    exact ⟨hR₁, j, v, heq.trans hj, by rw [h.txn v (hlt v hj)]; exact hv⟩

end Kept

theorem Unsent.congr (h : Unsent s t x) (htxn : s'.txn = s.txn)
    (hq : ∀ l, s'.queued l t → s.queued l t) (hh : s'.history = s.history) : Unsent s' t x :=
  ⟨htxn ▸ h.lt, htxn ▸ h.get, h.live, h.plain, fun l hl => h.queued l (hq l hl),
    by rw [Driver.outcomes, hh]; exact h.outcomes, fun S => hh ▸ h.accepted S⟩

theorem Unsent.quiet {f : Objects → Objects} (h : Unsent s t x) (hf : Quiet s.obj (f s.obj)) :
    Unsent (s.modObj f) t x :=
  h.congr rfl (fun _ hl => (hf.mem_message rfl).1 hl) rfl

theorem Filled.modBuffer {node : Option ℕ} (h : Filled s t b node) (d : List ℕ) :
    Filled (s.modBuffer b fun B => { B with data := d }) t b node := by
  obtain ⟨⟨B, hB, h1, h2, h3⟩, h4⟩ := h
  refine ⟨⟨{ B with data := d }, ?_, h1, h2, h3⟩, ?_⟩
  · rw [liveAt_modBuffer' (f := fun B => { B with data := d }) fun _ => ⟨rfl, rfl, rfl, rfl, rfl⟩,
      if_pos rfl, hB]
    rfl
  · exact (proc_modBuffer (s := s) (·.released) (fun _ _ => rfl) b _ b.1).trans h4

/-! The way back -/

/-- The error exit after a buffer was filled. -/
theorem CallInv.undoBuffer {k : ℕ} (h : CallInv L gone target.inReplyTo s)
    (hp : Pops s target.inReplyTo) (ht : Unsent s t x) (hb : x.buffer = some (target.proc, a))
    (hfill : Filled s t (target.proc, a) target.node) :
    CallInv L gone none (undoBuffer L rb s T t env target a B k) := by
  set s₁ := s.modObj fun o => binderTransactionBufferRelease L o target.proc B (some k) with hs₁
  have hquiet : Quiet s.obj (binderTransactionBufferRelease L s.obj target.proc B (some k)) :=
    bufferRelease_quiet _ _ _ _ _
  have h₁ : CallInv L gone target.inReplyTo s₁ := h.quiet hquiet
  have ht₁ : Unsent s₁ t x := ht.quiet hquiet
  have h₂ := h₁.freeTransaction (t := t) (by rw [ht₁.get, ht₁.plain]) ht₁.queued ht₁.lt
    (by rw [ht₁.get, ht₁.live])
  obtain ⟨C, hC, -, -, -⟩ := hfill.live
  have hfree : Binder.freeTransaction s₁ t = (s₁.modBuffer (target.proc, a) fun B =>
      { B with transaction := none }).modTxn t fun x => { x with freed := x.freed + 1 } := by
    rw [Binder.freeTransaction, ht₁.get, hb]
    rfl
  rw [hfree] at h₂
  have hlive : ((s₁.modBuffer (target.proc, a) fun B =>
      { B with transaction := none }).modTxn t fun x => { x with freed := x.freed + 1 }).liveAt
        (target.proc, a) = some { C with transaction := none } := by
    have := liveAt_modBuffer' (s := s₁) (b := (target.proc, a)) (c := (target.proc, a))
      (f := fun B => { B with transaction := none }) fun _ => ⟨rfl, rfl, rfl, rfl, rfl⟩
    rw [if_pos rfl] at this
    refine this.trans ?_
    have hC₁ : s₁.liveAt (target.proc, a) = some C := hC
    rw [hC₁]
    rfl
  have h₃ := h₂.freeBuf rb env.free hlive rfl
  have hkept : Kept s₁ _ := ((((Kept.refl s₁).modBuffer (b := (target.proc, a)) fun B =>
    { B with transaction := none }).modProc (p := target.proc) fun p =>
      { p with area := binderFreeBuf L rb p.area a env.free }))
  have hpops : Pops (((s₁.modBuffer (target.proc, a) fun B =>
      { B with transaction := none }).modProc target.proc fun p =>
        { p with area := binderFreeBuf L rb p.area a env.free }).modTxn t fun x =>
          { x with freed := x.freed + 1 }) target.inReplyTo := by
    intro u hu
    obtain ⟨hcall, hq⟩ := hkept.pops h₁ ((Kept.refl s).quiet hquiet |>.pops h hp) u hu
    exact ⟨(s₁.txn.apply_get_modify t u (fun x => { x with freed := x.freed + 1 }) (·.needReply)
      fun _ => rfl).trans hcall, hq⟩
  exact CallInv.failTransaction (f := { inReplyTo := target.inReplyTo, code := .failedReply })
    h₃ hpops (by simp)

/-! The objects, and the end -/

/-- What is known of the target, and of the call that the transaction ends. -/
inductive Aimed (s : Driver) (T : ℕ) (tr : TransactionData) (target : Target) : Option ℕ → Prop
  | reply (u S : ℕ) (h : ReplyTo s u S target) (hu : u < s.txn.next) : Aimed s T tr target (some u)
  | call (n : ℕ) (h : CallTo s T tr target n)
      (hself : tr.flags.oneWay = false → target.thread ≠ some T) : Aimed s T tr target none

theorem Aimed.inReplyTo (h : Aimed s T tr target loose) : target.inReplyTo = loose := by
  cases h with
  | reply u S h => rw [h.target_eq]
  | call n h => exact h.notReply

/-- A thread that is there, runs, and has no error to report. -/
structure Writing (s : Driver) (T : ℕ) : Prop where
  lt : T < s.thread.next
  freed : (s.thread.get T).freed = 0
  ok : (s.thread.get T).returnError = .ok
  awake : (s.thread.get T).asleep = none

theorem Writing.dead (h : Writing s T) : s.dead T = false := by simp [Driver.dead, h.freed]

theorem Kept.writing (h : Kept s s') (hw : Writing s T) : Writing s' T := by
  obtain ⟨h1, h2, h3, h4⟩ := hw
  rw [← h.thread] at h1 h2 h3 h4
  exact ⟨h1, h2, h3, h4⟩

theorem Aimed.keep (h : Aimed s T tr target loose) (hk : Kept s s') (hi : CallInv L s.dead loose s)
    (hw : Writing s T) : Aimed s' T tr target loose := by
  cases h with
  | reply u S h hu => exact .reply u S (hk.replyTo hu h) (hu.trans_le hk.txnNext)
  | call n h hself => exact .call n (hk.callTo hi hw.dead h) hself

/-- A transaction that is ready is queued. -/
theorem CallInv.queueTransaction (h : CallInv L s.dead loose s) (hp : Pops s loose)
    (haim : Aimed s T tr target loose) (hw : Writing s T)
    (ht : Unsent s t { newTransaction T tr target with buffer := some (target.proc, a) })
    (hfill : Filled s t (target.proc, a) target.node) :
    CallInv L s.dead none (queueTransaction s T t target) := by
  cases haim with
  | reply u S hr hu => exact h.queueReply hp ht rfl hfill hr rfl
  | call n hc hself =>
    by_cases hone : tr.flags.oneWay = true
    · exact h.queueAsync ht rfl rfl hone hfill rfl hc
    · have hsync : tr.flags.oneWay = false := by simpa using hone
      exact h.queueCall hw.lt hw.freed hw.ok hw.awake ht rfl
        (by simp [newTransaction, hc.notReply, hsync]) rfl rfl hsync hfill rfl hc (hself hsync)

theorem CallInv.deliverBuffer (h : CallInv L s.dead loose s) (hp : Pops s loose)
    (haim : Aimed s T tr target loose) (hw : Writing s T)
    (ht : Unsent s t { newTransaction T tr target with buffer := some (target.proc, a) })
    (hfill : Filled s t (target.proc, a) target.node) :
    CallInv L s.dead none (deliverBuffer L rb s T t tr env target a B) := by
  set r := translateBuffer L s.obj (transferOf s T target) env tr B with hr
  have hquiet : Quiet s.obj r.1 := translateBuffer_quiet _ _ _ _ _ _
  have hk₁ : Kept s (s.modObj fun _ => r.1) := (Kept.refl s).quiet hquiet
  have h₁ : CallInv L s.dead loose (s.modObj fun _ => r.1) := h.quiet hquiet
  have ht₁ := ht.quiet (f := fun _ => r.1) hquiet
  have hfill₁ : Filled (s.modObj fun _ => r.1) t (target.proc, a) target.node :=
    ⟨hfill.live, hfill.open'⟩
  set s₂ := (s.modObj fun _ => r.1).modBuffer (target.proc, a) fun B => { B with data := r.2.1 }
    with hs₂
  have hk₂ : Kept s s₂ := hk₁.modBuffer _
  have h₂ : CallInv L s.dead loose s₂ := h₁.modBuffer (fun _ => ⟨rfl, rfl, rfl, rfl, rfl⟩)
    (fun _ => rfl) (fun _ => rfl) fun _ _ _ _ _ => rfl
  have ht₂ : Unsent s₂ t _ := ht₁.congr rfl (fun _ => id) rfl
  have hfill₂ : Filled s₂ t (target.proc, a) target.node := hfill₁.modBuffer r.2.1
  have hp₂ := hk₂.pops h hp
  have hin := haim.inReplyTo
  unfold Binder.deliverBuffer
  dsimp only
  rw [← hr, ← hs₂]
  cases r.2.2 with
  | none =>
    have haim₂ := haim.keep hk₂ h hw
    rw [← hk₂.dead] at h₂ ⊢
    exact h₂.queueTransaction hp₂ haim₂ (hk₂.writing hw) ht₂ hfill₂
  | some k =>
    rw [← hin] at h₂ hp₂
    exact h₂.undoBuffer hp₂ ht₂ rfl hfill₂

theorem CallInv.sendTransaction (h : CallInv L s.dead loose s) (hp : Pops s loose)
    (haim : Aimed s T tr target loose) (hw : Writing s T) (hd : tr.dataSize < L.sizes)
    (ho : tr.offsetsSize < L.sizes) :
    CallInv L s.dead none (sendTransaction L rb s T tr env target) := by
  have hin := haim.inReplyTo
  rw [sendTransaction_eq]
  dsimp only
  split_ifs with hmem
  · exact CallInv.failTransaction (f := { inReplyTo := target.inReplyTo, code := .failedReply })
      (hin ▸ h) (hin ▸ hp) (by simp)
  obtain ⟨h₁, ht₁⟩ := h.allocTxn (x := newTransaction T tr target) rfl rfl rfl
  set s₁ : Driver := { s with txn := s.txn.alloc (newTransaction T tr target) } with hs₁
  have hk₁ : Kept s s₁ := (Kept.refl s).alloc _
  have harea : (s.proc.get target.proc).area = (s₁.proc.get target.proc).area := rfl
  rw [harea]
  generalize hr : binderAllocBuf L rb (s₁.proc.get target.proc).area env.alloc tr.dataSize
    tr.offsetsSize (!target.inReplyTo.isSome && tr.flags.oneWay) = r
  obtain ⟨A, _ | a⟩ := r
  · have hsame : SameHeaders (s₁.proc.get target.proc).area A := by
      exact binderAllocBuf_refused hr
    have h₂ := h₁.refused (q := target.proc) hsame
    have hk₂ : Kept s (s₁.modProc target.proc fun p => { p with area := A }) := hk₁.modProc _
    have ht₂ : Unsent (s₁.modProc target.proc fun p => { p with area := A }) s.txn.next _ :=
      ht₁.congr rfl (fun _ => id) rfl
    have h₃ := h₂.dropUnsent ht₂ rfl
    have hp₃ := (hk₂.modTxn (t := s.txn.next) le_rfl fun x => { x with freed := x.freed + 1 }).pops h hp
    exact CallInv.failTransaction (f := { inReplyTo := target.inReplyTo, code := .failedReply })
      (hin ▸ h₃) (hin ▸ hp₃) (by simp)
  · have hnode : ∀ n, target.node = some n → n < s₁.obj.node.next ∧
        ∀ r, (s₁.obj.node.get n).proc = some r → r = target.proc := by
      intro n hn
      cases haim with
      | reply u S hr =>
        rw [hr.target_eq] at hn
        cases hn
      | call n' hc hself =>
        obtain rfl : n' = n := Option.some.inj (hc.node.symm.trans hn)
        exact ⟨hc.lt, fun r hr => Option.some.inj (hr.symm.trans hc.owner)⟩
    obtain ⟨h₂, ht₂, hfill₂⟩ := h₁.fillFor ht₁ rfl hd ho hr hnode
    set s₂ := Binder.fillFor s₁ tr target s.txn.next A a with hs₂
    have hk₂ : Kept s s₂ := ((hk₁.modProc _).modTxn le_rfl _).modBuffer _
    have hquiet : Quiet s₂.obj (target.node.elim s₂.obj fun n =>
        (binderIncNode s₂.obj n true false none).1) := by
      cases target.node with
      | none => exact .refl _
      | some n => exact binderIncNode_quiet _ _ _ _ _
    have hplace : placeBuffer s₁ tr target s.txn.next A a = s₂.modObj fun o =>
        target.node.elim o fun n => (binderIncNode o n true false none).1 := rfl
    dsimp only
    rw [hplace]
    set s₃ := s₂.modObj fun o => target.node.elim o fun n => (binderIncNode o n true false none).1
      with hs₃
    have h₃ : CallInv L s.dead loose s₃ := h₂.quiet hquiet
    have hk₃ : Kept s s₃ := hk₂.quiet hquiet
    have ht₃ := ht₂.quiet (f := fun o => target.node.elim o fun n =>
      (binderIncNode o n true false none).1) hquiet
    have hfill₃ : Filled s₃ s.txn.next (target.proc, a) target.node := ⟨hfill₂.live, hfill₂.open'⟩
    cases hb : s₃.bufferAt (target.proc, a) with
    | none =>
      obtain ⟨C, hC, -⟩ := hfill₃.live
      rw [h₃.txn.bufferAt_eq hC] at hb
      cases hb
    | some C =>
      have haim₃ := haim.keep hk₃ h hw
      have hp₃ := hk₃.pops h hp
      rw [← hk₃.dead] at h₃ ⊢
      exact h₃.deliverBuffer hp₃ haim₃ (hk₃.writing hw) ht₃ hfill₃

/-- Whether a call of `T` would be sent to `T` itself. -/
def selfRouted (s : Driver) (T : ℕ) (tr : TransactionData) : Bool :=
  !tr.flags.oneWay &&
    match callTarget s T tr with
    | .ok target => target.thread = some T
    | .error _ => false

/-- What `binder_transaction` leaves of the invariant. -/
theorem CallInv.binderTransaction {reply : Bool} (h : CallInv L s.dead none s) (hw : Writing s T)
    (hd : tr.dataSize < L.sizes) (ho : tr.offsetsSize < L.sizes)
    (hself : reply = false → selfRouted s T tr = false) :
    CallInv L s.dead none (binderTransaction L rb s T tr reply env) := by
  have hnone : Pops s none := fun u hu => by cases hu
  unfold Binder.binderTransaction
  cases reply with
  | true =>
    rw [if_pos rfl]
    rcases h.replyTarget hw.lt hw.freed hw.ok hw.awake with ⟨f, hf, hin, hcode⟩ |
      ⟨u, s', hs', hi, hp, hcase⟩
    · rw [hf]
      exact CallInv.failTransaction (hin ▸ h) (hin ▸ hnone) hcode
    · have hsame : ∀ {β : Type} (g : BinderThread → β),
          (∀ y o, g { y with transactionStack := o } = g y) →
          ∀ S, g (s'.thread.get S) = g (s.thread.get S) := fun g hg S => by
        rw [hs']
        exact s.thread.apply_get_modify T S
          (fun y => { y with transactionStack := (s.txn.get u).toParent }) g fun y => hg y _
      have hdead : s'.dead = s.dead := by
        funext S
        rw [Driver.dead, Driver.dead, hsame (·.freed) fun _ _ => rfl]
      have hw' : Writing s' T := by
        refine ⟨?_, (hsame (·.freed) (fun _ _ => rfl) T).trans hw.freed,
          (hsame (·.returnError) (fun _ _ => rfl) T).trans hw.ok,
          (hsame (·.asleep) (fun _ _ => rfl) T).trans hw.awake⟩
        rw [hs']
        exact hw.lt
      rw [← hdead]
      rcases hcase with ⟨f, hf, hin, hcode⟩ | ⟨S, target, hok, hr⟩
      · rw [hf]
        exact CallInv.failTransaction (hin ▸ hi) (hin ▸ hp) hcode
      · rw [hok]
        exact hi.sendTransaction hp (.reply u S hr (hi.txn.call_live u (hp u rfl).1).1) hw' hd ho
  | false =>
    rw [if_neg (by simp)]
    rcases h.txn.callTarget T tr with ⟨f, hf, hin, hcode⟩ | ⟨target, n, hok, hc⟩
    · rw [hf]
      exact CallInv.failTransaction (hin ▸ h) (hin ▸ hnone) hcode
    · rw [hok]
      refine h.sendTransaction hnone (.call n hc fun hsync ht => ?_) hw hd ho
      have := hself rfl
      rw [selfRouted, hok] at this
      simp [hsync, ht] at this

end Binder
