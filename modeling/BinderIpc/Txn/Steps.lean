import BinderIpc.Txn.View

/-! Small steps of the driver and the invariant of the transactions: changes that
it does not see, a transaction that is freed, a call that leaves its queue and a
call that ends. -/

namespace Binder

variable {L : Layout} {gone : ℕ → Bool} {loose : Option ℕ} {s s' : Driver} {t T p : ℕ}

/-! Changes that are not seen -/

theorem same_of_quiet {f : Objects → Objects} (h : Quiet s.obj (f s.obj)) :
    TxnSame L s (s.modObj f) where
  txn := rfl
  queued _ _ := h.mem_message rfl
  threadNext := rfl
  stack _ := rfl
  threadProc _ := rfl
  freed _ := rfl
  waits _ _ h _ := Or.inr h
  live _ := rfl
  area _ h := h
  released _ := rfl
  closed _ h := h
  nodeNext := h.next
  nodeProc := h.proc
  nodeUnborn := h.unborn

theorem same_note (e : Event) : TxnSame L s (s.note e) := { TxnSame.refl s with }

theorem same_bugOn (c : Bool) (b : Oops) : TxnSame L s (s.bugOn c b) := { TxnSame.refl s with }

/-- Deleting an item that is no transaction. -/
theorem same_unqueue {w : Work} (hw : ∀ t, w ≠ .transaction t) : TxnSame L s (unqueue s w) :=
  { TxnSame.refl s with
    queued := fun _ t => Queues.mem_del.trans (and_iff_left fun he => hw t he.symm) }

theorem same_modThread {f : BinderThread → BinderThread}
    (h1 : ∀ y, (f y).transactionStack = y.transactionStack) (h2 : ∀ y, (f y).proc = y.proc)
    (h4 : ∀ y, (f y).freed = y.freed)
    (h3 : ∀ y g, (f y).asleep = some g → y.asleep = some g ∨ g.waitForProcWork = false) :
    TxnSame L s (s.modThread T f) :=
  { TxnSame.refl s with
    stack := fun S => s.thread.apply_get_modify T S f (·.transactionStack) h1
    threadProc := fun S => s.thread.apply_get_modify T S f (·.proc) h2
    freed := fun S => s.thread.apply_get_modify T S f (·.freed) h4
    waits := fun S g hg hw => by
      have hmod : (s.modThread T f).thread.get S =
          if S = T then f (s.thread.get T) else s.thread.get S := rfl
      rw [hmod] at hg
      split_ifs at hg with hS
      · subst hS
        rcases h3 _ g hg with h | h
        · exact Or.inr h
        · rw [hw] at h
          cases h
      · exact Or.inr hg }

theorem AreaOk.congr {x y : BinderProc} (h : AreaOk L x) (ha : y.area = x.area)
    (hr : y.released = x.released) : AreaOk L y := ⟨ha ▸ h.area, ha ▸ hr ▸ h.released⟩

theorem same_modProc {f : BinderProc → BinderProc} (h1 : ∀ x, (f x).area = x.area)
    (h2 : ∀ x, (f x).released = x.released) (h3 : ∀ x, x.closed = true → (f x).closed = true) :
    TxnSame L s (s.modProc p f) :=
  { TxnSame.refl (L := L) s with
    live := fun b => by
      rw [Driver.liveAt, Driver.modProc, s.proc.apply_get_modify p b.1 f (·.area) h1]
      rfl
    area := fun q hq => hq.congr (s.proc.apply_get_modify p q f (·.area) h1)
      (s.proc.apply_get_modify p q f (·.released) h2)
    released := fun q => s.proc.apply_get_modify p q f (·.released) h2
    closed := fun q hq => by
      have hmod : (s.modProc p f).proc.get q =
          if q = p then f (s.proc.get p) else s.proc.get q := rfl
      rw [hmod]
      split_ifs with hqp
      · exact h3 _ (hqp ▸ hq)
      · exact hq }

/-! Buffers -/

theorem liveAt_modBuffer' {b c : ℕ × ℕ} {f : BinderBuffer → BinderBuffer}
    (hf : ∀ B, SameExtent B (f B)) :
    (s.modBuffer b f).liveAt c = if c = b then (s.liveAt b).map f else s.liveAt c := by
  obtain ⟨p, a⟩ := b
  obtain ⟨q, d⟩ := c
  simp only [Driver.liveAt, Driver.modBuffer, Driver.modProc, Heap.get_modify]
  by_cases hq : q = p
  · subst hq
    simp only [if_true, liveAt_modBuffer hf, Prod.mk.injEq, true_and]
  · simp [hq]

theorem AreaOk.modBuffer {x : BinderProc} {a : ℕ} {f : BinderBuffer → BinderBuffer}
    (h : AreaOk L x) (hf : ∀ B, SameExtent B (f B)) :
    AreaOk L { x with area := x.area.modBuffer a f } where
  area := by
    rcases h.area with hi | ⟨h1, h2, h3⟩
    · exact Or.inl (hi.map fun b => (hf b).ite)
    · exact Or.inr ⟨by simp [BinderArea.modBuffer, setBuffer, h1], h2, h3⟩
  released := h.released

theorem areaOk_modBuffer {b : ℕ × ℕ} {f : BinderBuffer → BinderBuffer}
    (h : ∀ p, AreaOk L (s.proc.get p)) (hf : ∀ B, SameExtent B (f B)) (p : ℕ) :
    AreaOk L ((s.modBuffer b f).proc.get p) := by
  simp only [Driver.modBuffer, Driver.modProc, Heap.get_modify]
  split_ifs
  · exact (h b.1).modBuffer hf
  · exact h p

/-- A field of a process that a write to a buffer keeps. -/
theorem proc_modBuffer {β : Type} (g : BinderProc → β) (hg : ∀ x a, g { x with area := a } = g x)
    (b : ℕ × ℕ) (f : BinderBuffer → BinderBuffer) (p : ℕ) :
    g ((s.modBuffer b f).proc.get p) = g (s.proc.get p) :=
  s.proc.apply_get_modify b.1 p (fun x => { x with area := x.area.modBuffer b.2 f }) g
    fun x => hg x _

/-- What is left of the links to transactions when the buffer `o` forgets its own. -/
theorem liveAt_forget (o : Option (ℕ × ℕ)) (b : ℕ × ℕ) :
    (forgetTransaction s o).liveAt b =
      if o = some b then (s.liveAt b).map fun B => { B with transaction := none } else s.liveAt b := by
  cases o with
  | none => rfl
  | some b' =>
    have := liveAt_modBuffer' (s := s) (b := b') (c := b)
      (f := fun B => { B with transaction := none }) fun _ => ⟨rfl, rfl, rfl, rfl, rfl⟩
    simp only [forgetTransaction, Option.elim_some, Option.some.injEq, this]
    by_cases hb : b = b'
    · simp [hb]
    · simp [hb, Ne.symm hb]

theorem areaOk_forget (o : Option (ℕ × ℕ)) (h : ∀ p, AreaOk L (s.proc.get p)) (p : ℕ) :
    AreaOk L ((forgetTransaction s o).proc.get p) := by
  cases o with
  | none => exact h p
  | some b =>
    exact areaOk_modBuffer (f := fun B => { B with transaction := none }) h
      (fun _ => ⟨rfl, rfl, rfl, rfl, rfl⟩) p

theorem proc_forget {β : Type} (g : BinderProc → β) (hg : ∀ x a, g { x with area := a } = g x)
    (o : Option (ℕ × ℕ)) (p : ℕ) : g ((forgetTransaction s o).proc.get p) = g (s.proc.get p) := by
  cases o with
  | none => rfl
  | some b => exact proc_modBuffer g hg b _ p

@[simp] theorem txn_forget (o : Option (ℕ × ℕ)) : (forgetTransaction s o).txn = s.txn := by
  cases o <;> rfl

@[simp] theorem obj_forget (o : Option (ℕ × ℕ)) : (forgetTransaction s o).obj = s.obj := by
  cases o <;> rfl

@[simp] theorem thread_forget (o : Option (ℕ × ℕ)) : (forgetTransaction s o).thread = s.thread := by
  cases o <;> rfl

@[simp] theorem history_forget (o : Option (ℕ × ℕ)) :
    (forgetTransaction s o).history = s.history := by
  cases o <;> rfl

/-- A field of a buffer that the forgetting keeps. -/
theorem liveAt_forget_some {o : Option (ℕ × ℕ)} {b : ℕ × ℕ} {B : BinderBuffer}
    (h : (forgetTransaction s o).liveAt b = some B) :
    ∃ B', s.liveAt b = some B' ∧ B.targetNode = B'.targetNode ∧ B.allowUserFree = B'.allowUserFree ∧
      (o ≠ some b → B = B') ∧ (o = some b → B.transaction = none) := by
  rw [liveAt_forget] at h
  split_ifs at h with ho
  · obtain ⟨B', hB', rfl⟩ := Option.map_eq_some_iff.1 h
    exact ⟨B', hB', rfl, rfl, fun hn => absurd ho hn, fun _ => rfl⟩
  · exact ⟨B, h, rfl, rfl, fun _ => rfl, fun hn => absurd hn ho⟩

/-! Transactions -/

theorem Home.congr {l : ListHead} (hl : Home s p l) (hth : s'.thread = s.thread)
    (hobj : s'.obj.node = s.obj.node)
    (hr : ∀ q, (s'.proc.get q).released = (s.proc.get q).released) : Home s' p l := by
  cases l with
  | threadTodo T => exact ⟨hth ▸ hl.1, hth ▸ hl.2.1, hth ▸ hl.2.2⟩
  | procTodo q => exact ⟨hl.1, (hr q).trans hl.2⟩
  | asyncTodo n => exact ⟨hobj ▸ hl.1, hobj ▸ hl.2⟩
  | deliveredDeath q => exact hl

theorem Closing.congr {l : ListHead} (hl : Closing s l) (hobj : s'.obj.node = s.obj.node)
    (hc : ∀ q, (s'.proc.get q).closed = (s.proc.get q).closed) : Closing s' l := by
  obtain ⟨n, q, rfl, hn, hp, hcl⟩ := hl
  exact ⟨n, q, rfl, hobj ▸ hn, hobj ▸ hp, (hc q).trans hcl⟩

/-- Freeing a transaction that no list and no thread has. -/
theorem TxnInv.freeTransaction (h : TxnInv L gone loose s)
    (hcall : (s.txn.get t).needReply = false) (hq : ∀ l, ¬s.queued l t) (hlt : t < s.txn.next)
    (hlive : (s.txn.get t).freed = 0) : TxnInv L gone loose (freeTransaction s t) := by
  have hget : ∀ u, u ≠ t → (Binder.freeTransaction s t).txn.get u = s.txn.get u := fun u hu => by
    simp only [Binder.freeTransaction, Driver.modTxn, txn_forget]
    exact s.txn.get_modify_ne t u _ hu
  have hgett : (Binder.freeTransaction s t).txn.get t =
      { s.txn.get t with freed := (s.txn.get t).freed + 1 } := by
    simp only [Binder.freeTransaction, Driver.modTxn, txn_forget]
    exact s.txn.get_modify_self t _
  have hkeep : ∀ {β : Type} (g : BinderTransaction → β),
      (∀ x, g { x with freed := x.freed + 1 } = g x) →
      ∀ u, g ((Binder.freeTransaction s t).txn.get u) = g (s.txn.get u) := fun g hg u => by
    by_cases hu : u = t
    · subst hu
      rw [hgett, hg]
    · rw [hget u hu]
  have hobj : (Binder.freeTransaction s t).obj = s.obj := obj_forget _
  have hth : (Binder.freeTransaction s t).thread = s.thread := thread_forget _
  have hnext : (Binder.freeTransaction s t).txn.next = s.txn.next := by
    simp [Binder.freeTransaction, Driver.modTxn]
  have hrel : ∀ q, ((Binder.freeTransaction s t).proc.get q).released = (s.proc.get q).released :=
    proc_forget (·.released) (fun _ _ => rfl) _
  have hclosed : ∀ q, ((Binder.freeTransaction s t).proc.get q).closed = (s.proc.get q).closed :=
    proc_forget (·.closed) (fun _ _ => rfl) _
  have hlv : ∀ b, (Binder.freeTransaction s t).liveAt b =
      if (s.txn.get t).buffer = some b then
        (s.liveAt b).map fun B => { B with transaction := none }
      else s.liveAt b := liveAt_forget _
  -- another transaction has another buffer
  have hother : ∀ u b, u ≠ t → u < s.txn.next → (s.txn.get u).freed = 0 →
      (s.txn.get u).buffer = some b → (s.txn.get t).buffer ≠ some b := fun u b hu hul huf hub htb => by
    obtain ⟨B, hB, hBt⟩ := h.forward t b hlt hlive htb
    obtain ⟨B', hB', hBu⟩ := h.forward u b hul huf hub
    rw [hB] at hB'
    cases hB'
    rw [hBt] at hBu
    exact hu (Option.some.inj hBu).symm
  have hcalls : callsOf gone loose (Binder.freeTransaction s t) = callsOf gone loose s := by
    unfold callsOf
    simp only [hobj, hth, hkeep (·.needReply) fun _ => rfl, hkeep (·.fromThread) fun _ => rfl,
      hkeep (·.toThread) fun _ => rfl, hkeep (·.fromParent) fun _ => rfl,
      hkeep (·.toParent) fun _ => rfl]
  refine ⟨hcalls ▸ h.forest, fun u hu => ?_, fun l u hu => ?_, fun u b hul huf hub => ?_,
    fun b B u hB hBu => ?_, fun b B n hB hn => ?_, fun p => ?_, ?_, ?_, hobj ▸ h.unborn⟩
  · rw [hkeep (·.needReply) fun _ => rfl] at hu
    have hut : u ≠ t := by
      rintro rfl
      rw [hcall] at hu
      cases hu
    rw [hget u hut, hnext]
    exact h.call_live u hu
  · rw [Driver.queued, hobj] at hu
    have hut : u ≠ t := by
      rintro rfl
      exact hq l hu
    obtain ⟨h1, h2, h3, h4, h5⟩ := h.placed l u hu
    refine ⟨hnext ▸ h1, hget u hut ▸ h2, ?_, hget u hut ▸ h4, hget u hut ▸ h5⟩
    rcases h3 with ⟨b, B, hb, hB, hub, hn, hh⟩ | hc
    · refine Or.inl ⟨b, B, hget u hut ▸ hb, ?_, hub, hget u hut ▸ hn,
        hh.congr hth (by rw [hobj]) hrel⟩
      rw [hlv, if_neg (hother u b hut h1 h2 hb)]
      exact hB
    · exact Or.inr (hc.congr (by rw [hobj]) hclosed)
  · have hut : u ≠ t := by
      rintro rfl
      rw [hgett] at huf
      cases huf
    rw [hget u hut] at huf hub
    rw [hnext] at hul
    rw [hlv, if_neg (hother u b hut hul huf hub)]
    exact h.forward u b hul huf hub
  · obtain ⟨B', hB', -, -, hne, heq⟩ := liveAt_forget_some (o := (s.txn.get t).buffer) hB
    by_cases htb : (s.txn.get t).buffer = some b
    · rw [heq htb] at hBu
      cases hBu
    · obtain ⟨h1, h2, h3⟩ := h.back b B' u hB' (hne htb ▸ hBu)
      have hut : u ≠ t := by
        rintro rfl
        exact htb h3
      rw [hget u hut, hnext]
      exact ⟨h1, h2, h3⟩
  · obtain ⟨B', hB', hn', -⟩ := liveAt_forget_some (o := (s.txn.get t).buffer) hB
    rw [hobj]
    exact h.target b B' n hB' (hn' ▸ hn)
  · exact areaOk_forget _ h.area p
  · rw [hth]
    exact h.stack_lt
  · rw [hth]
    exact h.waits

end Binder
