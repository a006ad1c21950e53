import BinderIpc.Txn.Route

/-! The second part of `binder_transaction`: the buffer in the area of the target, the
queues, and the way back when an object cannot be translated. -/

namespace Binder

variable {L : Layout} {rb : RbTree ℕ} {gone : ℕ → Bool} {loose : Option ℕ} {s s' : Driver}
  {t T p q a : ℕ} {l : ListHead} {tr : TransactionData} {target : Target} {b : ℕ × ℕ}
  {x : BinderTransaction}

/-! The new transaction -/

/-- A transaction that no list and no thread has, and that nothing was told of. -/
structure Unsent (s : Driver) (t : ℕ) (x : BinderTransaction) : Prop where
  lt : t < s.txn.next
  get : s.txn.get t = x
  live : x.freed = 0
  plain : x.needReply = false
  queued : ∀ l, ¬s.queued l t
  outcomes : s.outcomes t = 0
  accepted : ∀ S, Event.accepted S t ∉ s.history

theorem CallInv.allocTxn (h : CallInv L gone loose s) (h1 : x.needReply = false)
    (h2 : x.buffer = none) (h3 : x.freed = 0) :
    CallInv L gone loose { s with txn := s.txn.alloc x } ∧
      Unsent { s with txn := s.txn.alloc x } s.txn.next x := by
  set s' : Driver := { s with txn := s.txn.alloc x } with hs'
  have hself : s'.txn.get s.txn.next = x := s.txn.get_alloc_self x
  have hold : ∀ u, u ≠ s.txn.next → s'.txn.get u = s.txn.get u := fun u hu =>
    s.txn.get_alloc_ne u x hu
  have hnot : (s.txn.get s.txn.next).needReply ≠ true := fun hc =>
    absurd (h.txn.call_live _ hc).1 (lt_irrefl _)
  have hcallne : ∀ u, (s.txn.get u).needReply = true → u ≠ s.txn.next := fun u hu he =>
    hnot (he ▸ hu)
  have hcall : ∀ u, (s'.txn.get u).needReply = true ↔ (s.txn.get u).needReply = true := fun u => by
    by_cases hu : u = s.txn.next
    · subst hu
      rw [hself, h1]
      exact iff_of_false (by simp) hnot
    · rw [hold u hu]
  have hne : ∀ l u, s.queued l u → u ≠ s.txn.next := fun l u hu he =>
    absurd (h.txn.placed l u hu).lt (he ▸ lt_irrefl _)
  obtain ⟨F, hF⟩ := h.txn.forest
  refine ⟨⟨⟨⟨F, hF.congr hcall (fun u hu => ?_) (fun _ => rfl) fun _ => id⟩, fun u hu => ?_,
    fun l u hu => ?_, fun u b hul huf hub => ?_, fun b B u hB hBu => ?_, h.txn.target, h.txn.area,
    h.txn.stack_lt, h.txn.waits, h.txn.unborn⟩, h.err.mono (fun _ => id) (fun _ _ he => ⟨he, id⟩)
    fun S u hS _ hu hsu => ?_, ?_⟩, ?_⟩
  · have hu' := hold u (hcallne u hu)
    refine ⟨?_, ?_, ?_, ?_, rfl⟩ <;> simp only [callsOf, hu']
  · have hc := (hcall u).1 hu
    rw [hold u (hcallne u hc)]
    obtain ⟨h4, h5⟩ := h.txn.call_live u hc
    exact ⟨h4.trans (Nat.lt_succ_self _), h5⟩
  · have hp := h.txn.placed l u hu
    have hu' := hold u (hne l u hu)
    refine ⟨hp.lt.trans (Nat.lt_succ_self _), hu' ▸ hp.live, ?_, hu' ▸ hp.async, hu' ▸ hp.list⟩
    rcases hp.buffer with ⟨b, B, hb, hB, hub, hn, hh⟩ | hc
    · exact Or.inl ⟨b, B, hu' ▸ hb, hB, hub, hu' ▸ hn, hh.congr rfl rfl fun _ => rfl⟩
    · exact Or.inr (hc.congr rfl fun _ => rfl)
  · have hu : u ≠ s.txn.next := by
      rintro rfl
      rw [hself, h2] at hub
      cases hub
    rw [hold u hu] at huf hub
    exact h.txn.forward u b (lt_of_le_of_ne (Nat.lt_succ_iff.1 hul) hu) huf hub
  · obtain ⟨h4, h5, h6⟩ := h.txn.back b B u hB hBu
    rw [hold u h4.ne]
    exact ⟨h4.trans (Nat.lt_succ_self _), h5, h6⟩
  · have hc : (s.txn.get u).needReply = true := by
      have htop : (callsOf gone loose s).top S = some u := by simpa [callsOf, hS] using hu
      exact (hF.top_call htop).1
    rw [hold u (hcallne u hc)] at hsu
    exact ⟨hu, hsu⟩
  · refine ⟨fun u hu => ?_, fun S u hS => ?_, h.out.sole, fun u hu => ?_, h.out.clean⟩
    · have hc := (hcall u).1 hu
      rw [hold u (hcallne u hc)]
      exact h.out.owed u hc
    · rw [hcall]
      exact h.out.ended S u hS
    · exact h.out.new u (Nat.le_of_succ_le hu)
  · obtain ⟨h4, h5⟩ := h.out.new s.txn.next le_rfl
    exact ⟨Nat.lt_succ_self _, hself, h3, h1, fun l hl => hne l _ hl rfl, h4, h5⟩

/-- The new transaction is freed again. -/
theorem CallInv.dropUnsent (h : CallInv L gone loose s) (hu : Unsent s t x) (hb : x.buffer = none) :
    CallInv L gone loose (s.modTxn t fun x => { x with freed := x.freed + 1 }) := by
  have hfree := h.freeTransaction (t := t) (by rw [hu.get, hu.plain]) hu.queued hu.lt
    (by rw [hu.get, hu.live])
  rwa [Binder.freeTransaction, hu.get, hb] at hfree

/-- The area of a process after an allocation that failed. -/
theorem CallInv.refused {A : BinderArea} (h : CallInv L gone loose s)
    (hA : SameHeaders (s.proc.get q).area A) :
    CallInv L gone loose (s.modProc q fun p => { p with area := A }) := by
  have hlive : ∀ c, (s.modProc q fun p => { p with area := A }).liveAt c = s.liveAt c := fun c => by
    simp only [Driver.liveAt, Driver.modProc, Heap.get_modify]
    split_ifs with hc
    · rw [hA.liveAt, hc]
    · rfl
  refine h.setArea (fun x => ⟨A, rfl⟩) (fun c C hC => (hlive c) ▸ hC)
    (fun c C u hC _ => (hlive c).trans hC) ⟨?_, fun hr => ?_⟩
  · rcases (h.txn.area q).area with hi | ⟨h1, h2, h3⟩
    · exact Or.inl (hi.same L hA)
    · exact Or.inr ⟨hA.buffers.trans h1, hA.allocatedBuffers ▸ h2, hA.vma.trans h3⟩
  · exact hA.vma.trans ((h.txn.area q).released hr)

/-- The buffer `b` was handed out and filled for `t`. -/
structure Filled (s : Driver) (t : ℕ) (b : ℕ × ℕ) (node : Option ℕ) : Prop where
  live : ∃ B, s.liveAt b = some B ∧ B.allowUserFree = false ∧ B.transaction = some t ∧
    B.targetNode = node
  open' : (s.proc.get b.1).released = false

/-- The state after `binder_alloc_buf` has handed out `a` and the fields are set. -/
def fillFor (s : Driver) (tr : TransactionData) (target : Target) (t : ℕ) (A : BinderArea) (a : ℕ) :
    Driver :=
  ((s.modProc target.proc fun p => { p with area := A }).modTxn t fun x =>
    { x with buffer := some (target.proc, a) }).modBuffer (target.proc, a) (fillBuffer tr target t)

section

variable {A : BinderArea} {B : BinderBuffer}

/-- Only the buffer that was handed out differs. -/
theorem fillFor_liveAt (hB : liveAt A a = some B)
    (hat : ∀ d, d ≠ a → liveAt A d = liveAt (s.proc.get target.proc).area d) (c : ℕ × ℕ) :
    (fillFor s tr target t A a).liveAt c =
      if c = (target.proc, a) then some (fillBuffer tr target t B) else s.liveAt c := by
  set s₁ := (s.modProc target.proc fun p => { p with area := A }).modTxn t fun x =>
    { x with buffer := some (target.proc, a) } with hs₁
  have hext : ∀ B, SameExtent B (fillBuffer tr target t B) := fun _ => ⟨rfl, rfl, rfl, rfl, rfl⟩
  have hself : s₁.liveAt (target.proc, a) = some B := by
    simp only [Driver.liveAt, hs₁, Driver.modTxn, Driver.modProc, Heap.get_modify, if_true]
    exact hB
  have hfill := liveAt_modBuffer' (s := s₁) (b := (target.proc, a)) (c := c) hext
  rw [hself] at hfill
  refine hfill.trans ?_
  split_ifs with hc
  · rfl
  · obtain ⟨r, d⟩ := c
    simp only [Driver.liveAt, hs₁, Driver.modTxn, Driver.modProc, Heap.get_modify]
    split_ifs with hr
    · subst hr
      exact hat d fun hda => hc (by rw [hda])
    · rfl

theorem fillFor_txn (u : ℕ) : (fillFor s tr target t A a).txn.get u =
    if u = t then { s.txn.get t with buffer := some (target.proc, a) } else s.txn.get u := rfl

/-- What the transactions keep. -/
theorem fillFor_keep {β : Type} (g : BinderTransaction → β)
    (hg : ∀ x o, g { x with buffer := o } = g x) (u : ℕ) :
    g ((fillFor s tr target t A a).txn.get u) = g (s.txn.get u) := by
  rw [fillFor_txn]
  split_ifs with hut
  · rw [hg, hut]
  · rfl

/-- What the processes keep. -/
theorem fillFor_proc {β : Type} (g : BinderProc → β) (hg : ∀ x a, g { x with area := a } = g x)
    (r : ℕ) : g ((fillFor s tr target t A a).proc.get r) = g (s.proc.get r) :=
  (proc_modBuffer g hg (target.proc, a) (fillBuffer tr target t) r).trans
    (s.proc.apply_get_modify target.proc r (fun p => { p with area := A }) g fun x => hg x A)

theorem LinkInv.fillFor (h : LinkInv L s) (hu : Unsent s t x) (hb : x.buffer = none)
    (hnew : s.liveAt (target.proc, a) = none) (hB : liveAt A a = some B)
    (hat : ∀ d, d ≠ a → liveAt A d = liveAt (s.proc.get target.proc).area d)
    (hvma : (s.proc.get target.proc).area.vma = true) (hA : AreaInv L A)
    (hnode : ∀ n, target.node = some n → n < s.obj.node.next ∧
      ∀ r, (s.obj.node.get n).proc = some r → r = target.proc) :
    LinkInv L (fillFor s tr target t A a) := by
  set s' := Binder.fillFor s tr target t A a with hs'
  have hlive : ∀ c, s'.liveAt c =
      if c = (target.proc, a) then some (fillBuffer tr target t B) else s.liveAt c :=
    fillFor_liveAt hB hat
  have hget : ∀ u, s'.txn.get u = if u = t then { x with buffer := some (target.proc, a) }
      else s.txn.get u := fun u => by rw [hs', fillFor_txn, hu.get]
  have hne : ∀ u, u ≠ t → s'.txn.get u = s.txn.get u := fun u hut => by rw [hget, if_neg hut]
  have hsome : ∀ c C, s.liveAt c = some C → s'.liveAt c = some C := fun c C hC => by
    refine (hlive c).trans ((if_neg fun he => ?_).trans hC)
    rw [he, hnew] at hC
    cases hC
  refine ⟨fun v hv => ?_, fun l v hv => ?_, fun v c hvl hvf hvb => ?_, fun c C v hC hCv => ?_,
    fun c C n hC hn => ?_, fun r => ?_, h.stack_lt, h.waits, h.unborn⟩
  · rw [fillFor_keep (·.needReply) fun _ _ => rfl] at hv
    rw [fillFor_keep (·.freed) fun _ _ => rfl]
    exact h.call_live v hv
  · have hvt : v ≠ t := fun he => hu.queued l (he ▸ hv)
    have hp := h.placed l v hv
    refine ⟨hp.lt, hne v hvt ▸ hp.live, ?_, hne v hvt ▸ hp.async, hne v hvt ▸ hp.list⟩
    rcases hp.buffer with ⟨c, C, hc, hC, hCu, hn, hh⟩ | hc
    · exact Or.inl ⟨c, C, hne v hvt ▸ hc, hsome c C hC, hCu, hne v hvt ▸ hn,
        hh.congr rfl rfl (fillFor_proc (·.released) fun _ _ => rfl)⟩
    · exact Or.inr (hc.congr rfl (fillFor_proc (·.closed) fun _ _ => rfl))
  · by_cases hvt : v = t
    · subst hvt
      rw [hget, if_pos rfl] at hvb
      cases hvb
      exact ⟨_, (hlive _).trans (if_pos rfl), rfl⟩
    · rw [hne v hvt] at hvf hvb
      obtain ⟨C, hC, hCt⟩ := h.forward v c hvl hvf hvb
      exact ⟨C, hsome c C hC, hCt⟩
  · rw [hlive] at hC
    split_ifs at hC with hc
    · cases hC
      obtain rfl : t = v := Option.some.inj hCv
      rw [hget, if_pos rfl]
      exact ⟨hu.lt, hu.live, by rw [hc]⟩
    · obtain ⟨h1, h2, h3⟩ := h.back c C v hC hCv
      have hvt : v ≠ t := by
        rintro rfl
        rw [hu.get, hb] at h3
        cases h3
      rw [hne v hvt]
      exact ⟨h1, h2, h3⟩
  · rw [hlive] at hC
    split_ifs at hC with hc
    · cases hC
      rw [hc]
      exact hnode n hn
    · exact h.target c C n hC hn
  · have hext : ∀ B, SameExtent B (fillBuffer tr target t B) := fun _ => ⟨rfl, rfl, rfl, rfl, rfl⟩
    refine areaOk_modBuffer (fun r => ?_) hext r
    simp only [Driver.modTxn, Driver.modProc, Heap.get_modify]
    split_ifs with hr
    · refine ⟨Or.inl hA, fun hrel => ?_⟩
      rw [(h.area target.proc).released hrel] at hvma
      cases hvma
    · exact h.area r

end

theorem CallInv.fillFor {A : BinderArea} {env : PageEnv} {u : Bool} (h : CallInv L gone loose s)
    (hu : Unsent s t x) (hb : x.buffer = none) (hd : tr.dataSize < L.sizes)
    (ho : tr.offsetsSize < L.sizes)
    (halloc : binderAllocBuf L rb (s.proc.get target.proc).area env tr.dataSize tr.offsetsSize u =
      (A, some a))
    (hnode : ∀ n, target.node = some n → n < s.obj.node.next ∧
      ∀ r, (s.obj.node.get n).proc = some r → r = target.proc) :
    CallInv L gone loose (fillFor s tr target t A a) ∧
      Unsent (fillFor s tr target t A a) t { x with buffer := some (target.proc, a) } ∧
      Filled (fillFor s tr target t A a) t (target.proc, a) target.node := by
  have hvma : (s.proc.get target.proc).area.vma = true := vma_of_alloc (congrArg Prod.snd halloc)
  have hi : AreaInv L (s.proc.get target.proc).area := by
    rcases (h.txn.area target.proc).area with hi | ⟨-, -, hv⟩
    · exact hi
    · rw [hvma] at hv
      cases hv
  obtain ⟨⟨hfresh, ⟨B, hB, -⟩, hat, -⟩, -⟩ := binderAllocBuf_handed hi hd ho halloc
  have hA : AreaInv L A := by
    have hinv := binderAllocBuf_inv (R := rb) (E := env) (u := u) L hi hd ho
    rwa [halloc] at hinv
  have hcalls : callsOf gone loose (Binder.fillFor s tr target t A a) = callsOf gone loose s := by
    unfold callsOf
    simp only [fillFor_keep (·.needReply) fun _ _ => rfl,
      fillFor_keep (·.fromThread) fun _ _ => rfl, fillFor_keep (·.toThread) fun _ _ => rfl,
      fillFor_keep (·.fromParent) fun _ _ => rfl, fillFor_keep (·.toParent) fun _ _ => rfl]
    rfl
  have hlink : LinkInv L (Binder.fillFor s tr target t A a) :=
    h.txn.link.fillFor hu hb hfresh hB hat hvma hA hnode
  refine ⟨⟨hlink.txnInv (hcalls ▸ h.txn.forest),
    h.err.same rfl (fillFor_keep (·.fromThread) fun _ _ => rfl),
    h.out.same (.of_eq rfl rfl) rfl (fillFor_keep (·.needReply) fun _ _ => rfl)
      fun v _ => fillFor_keep (·.fromThread) (fun _ _ => rfl) v⟩,
    ⟨hu.lt, by rw [fillFor_txn, if_pos rfl, hu.get], hu.live, hu.plain, hu.queued, hu.outcomes,
      hu.accepted⟩,
    ⟨_, (fillFor_liveAt hB hat _).trans (if_pos rfl), rfl, rfl, rfl⟩, ?_⟩
  refine (fillFor_proc (·.released) (fun _ _ => rfl) target.proc).trans ?_
  by_contra hrel
  rw [(h.txn.area target.proc).released (by simpa using hrel)] at hvma
  cases hvma

end Binder
