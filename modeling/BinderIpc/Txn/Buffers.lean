import BinderIpc.Txn.Exit

/-! Buffers and the transactions they are linked to: a buffer is cut off from its
transaction, freed, or handed out. -/

namespace Binder

variable {L : Layout} {rb : RbTree ℕ} {gone : ℕ → Bool} {loose : Option ℕ} {s s' : Driver}
  {t T p a : ℕ} {l : ListHead} {b : ℕ × ℕ} {B : BinderBuffer} {env : PageEnv}

/-- `buffer->transaction->buffer = NULL` and `buffer->transaction = NULL` -/
def cutBuffer (s : Driver) (b : ℕ × ℕ) (t : ℕ) : Driver :=
  (s.modTxn t fun x => { x with buffer := none }).modBuffer b fun B => { B with transaction := none }

theorem liveAt_cutBuffer (c : ℕ × ℕ) : (cutBuffer s b t).liveAt c =
    if c = b then (s.liveAt b).map fun B => { B with transaction := none } else s.liveAt c :=
  liveAt_modBuffer' (s := s.modTxn t fun x => { x with buffer := none })
    (f := fun B => { B with transaction := none }) fun _ => ⟨rfl, rfl, rfl, rfl, rfl⟩

/-- The invariant of the links survives a change of one area, and of which buffer
transactions have, when the buffers that are still linked stay. -/
theorem LinkInv.cut (h : LinkInv L s) (hB : s.liveAt b = some B) (hBt : B.transaction = some t)
    (hq : ∀ l, s.queued l t → Closing s l) : LinkInv L (cutBuffer s b t) := by
  obtain ⟨htl, htf, htb⟩ := h.back b B t hB hBt
  have hkeep : ∀ {β : Type} (g : BinderTransaction → β), (∀ x, g { x with buffer := none } = g x) →
      ∀ u, g ((cutBuffer s b t).txn.get u) = g (s.txn.get u) :=
    fun g hg u => s.txn.apply_get_modify t u (fun x => { x with buffer := none }) g hg
  have hne : ∀ u, u ≠ t → (cutBuffer s b t).txn.get u = s.txn.get u := fun u hu =>
    s.txn.get_modify_ne t u (fun x => { x with buffer := none }) hu
  have hself : ((cutBuffer s b t).txn.get t).buffer = none :=
    congrArg BinderTransaction.buffer (s.txn.get_modify_self t fun x => { x with buffer := none })
  have hproc : ∀ {β : Type} (g : BinderProc → β), (∀ x a, g { x with area := a } = g x) →
      ∀ q, g ((cutBuffer s b t).proc.get q) = g (s.proc.get q) := fun g hg q =>
    proc_modBuffer (s := s.modTxn t fun x => { x with buffer := none }) g hg b
      (fun B => { B with transaction := none }) q
  refine ⟨fun u hu => ?_, fun l u hu => ?_, fun u c hul huf hub => ?_, fun c C u hC hCu => ?_,
    fun c C n hC hn => ?_, fun q => ?_, h.stack_lt, h.waits, h.unborn⟩
  · rw [hkeep (·.needReply) fun _ => rfl] at hu
    rw [hkeep (·.freed) fun _ => rfl]
    exact h.call_live u hu
  · have hp := h.placed l u hu
    refine ⟨hp.lt, (hkeep (·.freed) (fun _ => rfl) u).trans hp.live, ?_, ?_, ?_⟩
    · by_cases hut : u = t
      · refine Or.inr ((hq l (hut ▸ hu)).congr rfl (hproc (·.closed) fun _ _ => rfl))
      · rcases hp.buffer with ⟨c, C, hc, hC, hCu, hn, hh⟩ | hc
        · refine Or.inl ⟨c, C, hne u hut ▸ hc, ?_, hCu, hne u hut ▸ hn,
            hh.congr rfl rfl (hproc (·.released) fun _ _ => rfl)⟩
          rw [liveAt_cutBuffer, if_neg]
          · exact hC
          · rintro rfl
            exact h.other hut hp.lt hp.live hc htl htf htb
        · exact Or.inr (hc.congr rfl (hproc (·.closed) fun _ _ => rfl))
    · rw [hkeep (·.flags) fun _ => rfl]
      exact hp.async
    · rw [hkeep (·.needReply) fun _ => rfl, hkeep (·.toThread) fun _ => rfl]
      exact hp.list
  · have hut : u ≠ t := by
      rintro rfl
      rw [hself] at hub
      cases hub
    rw [hne u hut] at huf hub
    rw [liveAt_cutBuffer, if_neg]
    · exact h.forward u c hul huf hub
    · rintro rfl
      exact h.other hut hul huf hub htl htf htb
  · rw [liveAt_cutBuffer] at hC
    split_ifs at hC with hcb
    · obtain ⟨C', -, rfl⟩ := Option.map_eq_some_iff.1 hC
      cases hCu
    · obtain ⟨h1, h2, h3⟩ := h.back c C u hC hCu
      have hut : u ≠ t := by
        rintro rfl
        rw [htb] at h3
        exact hcb (Option.some.inj h3).symm
      rw [hne u hut]
      exact ⟨h1, h2, h3⟩
  · rw [liveAt_cutBuffer] at hC
    split_ifs at hC with hcb
    · obtain ⟨C', hC', rfl⟩ := Option.map_eq_some_iff.1 hC
      exact hcb ▸ h.target b C' n hC' hn
    · exact h.target c C n hC hn
  · exact areaOk_modBuffer (s := s.modTxn t fun x => { x with buffer := none })
      (f := fun B => { B with transaction := none }) h.area (fun _ => ⟨rfl, rfl, rfl, rfl, rfl⟩) q

theorem CallInv.cut (h : CallInv L gone loose s) (hB : s.liveAt b = some B)
    (hBt : B.transaction = some t) (hq : ∀ l, s.queued l t → Closing s l) :
    CallInv L gone loose (cutBuffer s b t) := by
  have hkeep : ∀ {β : Type} (g : BinderTransaction → β), (∀ x, g { x with buffer := none } = g x) →
      ∀ u, g ((cutBuffer s b t).txn.get u) = g (s.txn.get u) :=
    fun g hg u => s.txn.apply_get_modify t u (fun x => { x with buffer := none }) g hg
  have hcalls : callsOf gone loose (cutBuffer s b t) = callsOf gone loose s := by
    unfold callsOf
    simp only [hkeep (·.needReply) fun _ => rfl, hkeep (·.fromThread) fun _ => rfl,
      hkeep (·.toThread) fun _ => rfl, hkeep (·.fromParent) fun _ => rfl,
      hkeep (·.toParent) fun _ => rfl]
    rfl
  exact ⟨(h.txn.link.cut hB hBt hq).txnInv (hcalls ▸ h.txn.forest),
    h.err.same rfl (hkeep (·.fromThread) fun _ => rfl),
    h.out.same (.of_eq rfl rfl) rfl (hkeep (·.needReply) fun _ => rfl)
      fun u _ => hkeep (·.fromThread) (fun _ => rfl) u⟩

/-! Areas -/

/-- What an area may become under the buffers that are linked. -/
theorem CallInv.setArea (h : CallInv L gone loose s) {f : BinderProc → BinderProc}
    (hf : ∀ x, ∃ A, f x = { x with area := A })
    (hlive : ∀ c C, (s.modProc p f).liveAt c = some C → s.liveAt c = some C)
    (hkeep : ∀ c C u, s.liveAt c = some C → C.transaction = some u →
      (s.modProc p f).liveAt c = some C)
    (harea : AreaOk L (f (s.proc.get p))) : CallInv L gone loose (s.modProc p f) := by
  have hproc : ∀ {β : Type} (g : BinderProc → β), (∀ x a, g { x with area := a } = g x) →
      ∀ q, g ((s.modProc p f).proc.get q) = g (s.proc.get q) := fun g hg q =>
    s.proc.apply_get_modify p q f g fun x => by
      obtain ⟨A, hA⟩ := hf x
      rw [hA, hg]
  refine ⟨⟨h.txn.forest, h.txn.call_live, fun l u hu => ?_, fun u c hul huf hub => ?_,
    fun c C u hC hCu => h.txn.back c C u (hlive c C hC) hCu,
    fun c C n hC hn => h.txn.target c C n (hlive c C hC) hn, fun q => ?_, h.txn.stack_lt,
    h.txn.waits, h.txn.unborn⟩, h.err.same rfl fun _ => rfl, h.out.same' (.of_eq rfl rfl) rfl⟩
  · have hp := h.txn.placed l u hu
    refine ⟨hp.lt, hp.live, ?_, hp.async, hp.list⟩
    rcases hp.buffer with ⟨c, C, hc, hC, hCu, hn, hh⟩ | hc
    · obtain ⟨C', hC', hCt⟩ := h.txn.forward u c hp.lt hp.live hc
      rw [hC] at hC'
      cases hC'
      exact Or.inl ⟨c, C, hc, hkeep c C u hC hCt, hCu, hn,
        hh.congr rfl rfl (hproc (·.released) fun _ _ => rfl)⟩
    · exact Or.inr (hc.congr rfl (hproc (·.closed) fun _ _ => rfl))
  · obtain ⟨C, hC, hCt⟩ := h.txn.forward u c hul huf hub
    exact ⟨C, hkeep c C u hC hCt, hCt⟩
  · simp only [Driver.modProc, Heap.get_modify]
    split_ifs with hq
    · exact harea
    · exact h.txn.area q

theorem TxnInv.areaInv (h : TxnInv L gone loose s) (hB : s.liveAt (p, a) = some B) :
    AreaInv L (s.proc.get p).area := by
  rcases (h.area p).area with hi | ⟨hnil, -, -⟩
  · exact hi
  · obtain ⟨hm, -⟩ := liveAt_some (p := (s.proc.get p).area) hB
    rw [hnil] at hm
    cases hm

theorem liveAt_freeBuf (rb : RbTree ℕ) (env : PageEnv) (h : TxnInv L gone loose s) (hB : s.liveAt (p, a) = some B) (c : ℕ × ℕ) :
    (s.modProc p fun x => { x with area := binderFreeBuf L rb x.area a env }).liveAt c =
      if c = (p, a) then none else s.liveAt c := by
  obtain ⟨q, d⟩ := c
  have hfree := (binderFreeBuf_live (R := rb) (E := env) (h.areaInv hB)
    (Option.isSome_iff_exists.2 ⟨B, hB⟩)).1
  simp only [Driver.liveAt, Driver.modProc, Heap.get_modify]
  by_cases hq : q = p
  · subst hq
    simp only [if_true, hfree, Prod.mk.injEq, true_and]
  · simp [hq]

/-- A buffer without a transaction is freed. -/
theorem CallInv.freeBuf (rb : RbTree ℕ) (env : PageEnv) (h : CallInv L gone loose s) (hB : s.liveAt (p, a) = some B)
    (hBt : B.transaction = none) : CallInv L gone loose
      (s.modProc p fun x => { x with area := binderFreeBuf L rb x.area a env }) := by
  have hlive := liveAt_freeBuf rb env h.txn hB
  refine h.setArea (fun x => ⟨_, rfl⟩) (fun c C hC => ?_) (fun c C u hC hCu => ?_) ⟨Or.inl ?_, ?_⟩
  · rw [hlive] at hC
    split_ifs at hC
    exact hC
  · rw [hlive, if_neg]
    · exact hC
    · rintro rfl
      rw [hB] at hC
      cases hC
      rw [hBt] at hCu
      cases hCu
  · exact binderFreeBuf_inv L rb (h.txn.areaInv hB) (mem_allocated hB)
  · exact fun hr => binderFreeBuf_vma.trans ((h.txn.area p).released hr)

end Binder
