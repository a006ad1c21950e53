import BinderIpc.Txn.Ends

/-! Work that is thrown away: `binder_release_work`. -/

namespace Binder

variable {L : Layout} {gone : ℕ → Bool} {loose : Option ℕ} {s s' : Driver} {t T : ℕ}
  {l g : ListHead} {b : ℕ × ℕ} {B : BinderBuffer}

theorem TxnInv.bufferAt_eq (h : TxnInv L gone loose s) (hB : s.liveAt b = some B) :
    s.bufferAt b = some B := by
  rcases (h.area b.1).area with hi | ⟨hnil, -, -⟩
  · exact hi.bufferAt_of_live hB
  · obtain ⟨hm, -⟩ := liveAt_some hB
    rw [hnil] at hm
    cases hm

theorem TxnInv.bufferOf_eq (h : TxnInv L gone loose s) (hb : (s.txn.get t).buffer = some b)
    (hB : s.liveAt b = some B) : s.bufferOf t = some B := by
  rw [Driver.bufferOf, hb]
  exact h.bufferAt_eq hB

/-- Whether a queued transaction is handled as a call. -/
theorem TxnInv.isCall (h : TxnInv L gone loose s) (hq : s.queued l t) :
    ((s.bufferOf t).any (·.targetNode.isSome) && !(s.txn.get t).flags.oneWay) =
      (s.txn.get t).needReply := by
  have hp := h.placed l t hq
  rcases hp.buffer with ⟨b, B, hb, hB, -, hn, -⟩ | ⟨n, q, rfl, -⟩
  · rw [h.bufferOf_eq hb hB]
    exact hn
  · have hcall : (s.txn.get t).needReply = false := by
      by_contra hc
      rcases hp.list (by simpa using hc) with ⟨R, hR, -⟩ | ⟨q, hR, -⟩ <;> cases hR
    rw [hcall, hp.async n rfl]
    simp

theorem Placed.congr (h : Placed s l t) (htxn : s'.txn = s.txn)
    (hlive : ∀ b, s'.liveAt b = s.liveAt b) (hhome : ∀ p, Home s p l → Home s' p l)
    (hclosing : Closing s l → Closing s' l) : Placed s' l t where
  lt := htxn ▸ h.lt
  live := htxn ▸ h.live
  buffer := by
    rcases h.buffer with ⟨b, B, hb, hB, hu, hn, hh⟩ | hc
    · exact Or.inl ⟨b, B, htxn ▸ hb, (hlive b).trans hB, hu, htxn ▸ hn, hhome b.1 hh⟩
    · exact Or.inr (hclosing hc)
  async := htxn ▸ h.async
  list := htxn ▸ h.list

theorem queued_unqueue {w : Work} :
    (unqueue s w).queued l t ↔ s.queued l t ∧ Work.transaction t ≠ w := Queues.mem_del

theorem TxnInv.takeOff (h : TxnInv L gone none s) (hq : s.queued l t) :
    TxnInv L gone (if (s.txn.get t).needReply then some t else none)
      (unqueue s (.transaction t)) := by
  have hne : ∀ u, u ≠ t → (unqueue s (.transaction t)).obj.todo.linked (.transaction u) =
      s.obj.todo.linked (.transaction u) := fun u hu => by
    rw [Bool.eq_iff_iff, Queues.linked_iff, Queues.linked_iff]
    exact exists_congr fun g => Queues.mem_del.trans (and_iff_left fun he => hu (by cases he; rfl))
  have hoff : (unqueue s (.transaction t)).obj.todo.linked (.transaction t) = false :=
    Queues.not_linked_iff.2 fun g hg => (Queues.mem_del.1 hg).2 rfl
  obtain ⟨F, hF⟩ := h.forest
  have hforest : ∃ F, (callsOf gone (if (s.txn.get t).needReply then some t else none)
      (unqueue s (.transaction t))).Forest (gone · = true)
        (if (s.txn.get t).needReply then some t else none) F := by
    by_cases hcall : (s.txn.get t).needReply = true
    · rw [if_pos hcall]
      obtain ⟨m, hm, htm⟩ := (hF.call_iff t).1 hcall
      have hqt : (callsOf gone none s).queued t = true := callsOf_queued.2 ⟨l, hq⟩
      obtain ⟨post, rfl⟩ := (hF.chain m hm).eq_head htm hqt
      refine ⟨F, hF.detach ⟨fun u => .rfl, fun u _ hu => ?_, rfl, by simp [callsOf], rfl, hoff,
        fun S => ?_⟩ hm⟩
      · exact ⟨rfl, by simp [callsOf, Ne.symm hu, unqueue, Driver.modObj], rfl, rfl, hne u hu⟩
      · rw [if_neg (by simp [hqt])]
        rfl
    · rw [if_neg hcall]
      refine ⟨F, hF.congr (fun u => .rfl) (fun u hu => ⟨rfl, rfl, rfl, rfl, hne u ?_⟩)
        (fun S => rfl) fun _ => id⟩
      rintro rfl
      exact hcall hu
  refine ⟨hforest, h.call_live, fun g u hu => ?_, h.forward, h.back, h.target, h.area, h.stack_lt,
    h.waits, h.unborn⟩
  exact (h.placed g u (queued_unqueue.1 hu).1).congr rfl (fun _ => rfl)
    (fun p hp => hp.congr rfl rfl fun _ => rfl) fun hc => hc.congr rfl fun _ => rfl

theorem CallInv.takeOff (h : CallInv L gone none s) (hq : s.queued l t) :
    CallInv L gone (if (s.txn.get t).needReply then some t else none)
      (unqueue s (.transaction t)) where
  txn := h.txn.takeOff hq
  err := h.err.same rfl fun _ => rfl
  out := h.out.same' (.of_eq rfl rfl) rfl

theorem CallInv.freeTransaction (h : CallInv L gone loose s)
    (hcall : (s.txn.get t).needReply = false) (hq : ∀ l, ¬s.queued l t) (hlt : t < s.txn.next)
    (hlive : (s.txn.get t).freed = 0) : CallInv L gone loose (freeTransaction s t) := by
  have hget := freeTransaction_get s t
  refine ⟨h.txn.freeTransaction hcall hq hlt hlive, h.err.same (thread_forget _) fun u => ?_,
    h.out.same (.of_eq (history_forget _) (congrArg Objects.oops (obj_forget _))) ?_ (fun u => ?_)
      fun u _ => ?_⟩
  · rw [hget]
    split_ifs with hu <;> simp [hu]
  · simp [Binder.freeTransaction, Driver.modTxn]
  · rw [hget]
    split_ifs with hu <;> simp [hu]
  · rw [hget]
    split_ifs with hu <;> simp [hu]

/-! One item -/

theorem CallInv.releaseTransaction (h : CallInv L gone none s) (hq : s.queued l t) :
    CallInv L gone none (releaseItem (unqueue s (.transaction t)) (.transaction t)) := by
  have hoff := h.takeOff hq
  have hp := h.txn.placed l t hq
  have hnot : ∀ g, ¬(unqueue s (.transaction t)).queued g t := fun g hg =>
    (queued_unqueue.1 hg).2 rfl
  have hcond := h.txn.isCall hq
  set s₁ := unqueue s (.transaction t) with hs₁
  have hbuf : s₁.bufferOf t = s.bufferOf t := rfl
  have htxn : s₁.txn = s.txn := rfl
  set s₂ := s₁.bugOn (s₁.bufferOf t).isNone .noBuffer with hs₂
  have hbug : ∀ {o : Option ℕ}, CallInv L gone o s₁ → CallInv L gone o s₂ := fun h₁ =>
    h₁.same (same_bugOn _ _) (fun _ => rfl) (fun _ => rfl) (sameOutcomes_bugOn fun _ => rfl)
  have hbuf₂ : s₂.bufferOf t = s.bufferOf t := rfl
  have htxn₂ : s₂.txn = s.txn := rfl
  unfold releaseItem
  simp only [← hs₂, hbuf₂, htxn₂, hcond]
  by_cases hcall : (s.txn.get t).needReply = true
  · rw [if_pos hcall] at hoff
    rw [if_pos hcall]
    exact (hbug hoff).sendFailedReply (by simp) hcall hnot
  · rw [if_neg hcall] at hoff
    rw [if_neg hcall]
    exact (hbug hoff).freeTransaction (Bool.not_eq_true _ ▸ hcall) hnot hp.lt hp.live

/-- Other items that leave their list. -/
theorem CallInv.unqueue {w : Work} (h : CallInv L gone loose s) (hw : ∀ t, w ≠ .transaction t) :
    CallInv L gone loose (unqueue s w) :=
  h.same (same_unqueue hw) (fun _ => rfl) (fun _ => rfl) (.of_eq rfl rfl)

theorem CallInv.quiet {f : Objects → Objects} (h : CallInv L gone loose s)
    (hf : Quiet s.obj (f s.obj)) : CallInv L gone loose (s.modObj f) :=
  h.same (same_of_quiet hf) (fun _ => rfl) (fun _ => rfl)
    ⟨fun _ => rfl, fun _ _ => .rfl, fun hc => ⟨hc.1, fun b hb => (hf.oops b hb).elim (hc.2 b) id⟩⟩

theorem CallInv.releaseItem {w : Work} (h : CallInv L gone none s)
    (hw : (l, w) ∈ s.obj.todo.entries) :
    CallInv L gone none (releaseItem (Binder.unqueue s w) w) := by
  cases w with
  | transaction t => exact h.releaseTransaction hw
  | transactionComplete t => exact h.unqueue (by simp)
  | node n => exact h.unqueue (by simp)
  | death d =>
    have hu : CallInv L gone none (Binder.unqueue s (.death d)) := h.unqueue (by simp)
    have hfree : CallInv L gone none ((Binder.unqueue s (.death d)).modObj fun o =>
        o.modDeath d fun x => { x with freed := x.freed + 1 }) :=
      hu.quiet (quiet_modDeath _ d _)
    simp only [Binder.releaseItem]
    split
    · exact hfree
    · exact hfree
    · exact hu

/-! The lists -/

theorem pop_todo (s : Driver) (o : Option ℕ) (t : ℕ) :
    (binderPopTransaction s o t).obj.todo = s.obj.todo := by
  rw [pop_eq, Binder.freeTransaction]
  refine (congrArg Objects.todo (obj_forget _)).trans ?_
  cases o <;> rfl

theorem freeTransaction_obj (s : Driver) (t : ℕ) : (freeTransaction s t).obj = s.obj := obj_forget _

theorem failSender_todo (s : Driver) (T t : ℕ) (code : ReturnError) :
    (failSender s T t code).obj.todo = s.obj.todo := by
  unfold failSender
  dsimp only
  split
  · exact pop_todo _ _ _
  · rfl

theorem failUpwards_todo (code : ReturnError) (k : ℕ) (s : Driver) (t : ℕ) :
    (failUpwards code k s t).obj.todo = s.obj.todo := by
  induction k generalizing s t with
  | zero => rfl
  | succ k ih =>
    unfold failUpwards
    split
    · exact failSender_todo _ _ _ _
    · dsimp only
      split
      · exact pop_todo _ _ _
      · exact (ih _ _).trans (pop_todo _ _ _)

theorem sendFailedReply_todo (s : Driver) (t : ℕ) (code : ReturnError) :
    (binderSendFailedReply s t code).obj.todo = s.obj.todo := failUpwards_todo _ _ _ _

theorem releaseItem_todo (s : Driver) (w : Work) : (releaseItem s w).obj.todo = s.obj.todo := by
  cases w with
  | transaction t =>
    simp only [releaseItem]
    split
    · exact sendFailedReply_todo _ _ _
    · rw [freeTransaction_obj]
      rfl
  | transactionComplete t => rfl
  | node n => rfl
  | death d =>
    simp only [releaseItem]
    split <;> rfl

/-- What is thrown away from one list leaves the others alone. -/
theorem releaseWorkLoop_mem {k : ℕ} {v : Work} :
    (g, v) ∈ (releaseWorkLoop l k s).obj.todo.entries → (g, v) ∈ s.obj.todo.entries := by
  induction k generalizing s with
  | zero => exact id
  | succ k ih =>
    unfold releaseWorkLoop
    split
    · exact id
    · intro hv
      have := ih hv
      rw [releaseItem_todo] at this
      exact (Queues.mem_del.1 this).1

theorem length_del_lt {w : Work} {q : Queues ListHead Work} (hw : (l, w) ∈ q.entries) :
    (q.del w).entries.length < q.entries.length :=
  List.length_filter_lt_length_iff_exists.2 ⟨(l, w), hw, by simp⟩

theorem releaseWorkLoop_empty {k : ℕ} (hk : s.obj.todo.entries.length ≤ k) (v : Work) :
    (l, v) ∉ (releaseWorkLoop l k s).obj.todo.entries := by
  induction k generalizing s with
  | zero =>
    simp [releaseWorkLoop, List.eq_nil_of_length_eq_zero (Nat.le_zero.1 hk)]
  | succ k ih =>
    unfold releaseWorkLoop
    split
    · rename_i hf
      exact Queues.isEmpty_iff.1 (Queues.first_none.1 hf) v
    · rename_i w hf
      refine ih ?_
      rw [releaseItem_todo]
      have := length_del_lt (Queues.first_mem hf)
      change (s.obj.todo.del w).entries.length ≤ k
      omega

theorem CallInv.releaseWorkLoop {k : ℕ} (h : CallInv L gone none s) :
    CallInv L gone none (releaseWorkLoop l k s) := by
  induction k generalizing s with
  | zero => exact h
  | succ k ih =>
    unfold Binder.releaseWorkLoop
    split
    · exact h
    · rename_i w hf
      exact ih (h.releaseItem (Queues.first_mem hf))

theorem CallInv.releaseWork (h : CallInv L gone none s) (l : ListHead) :
    CallInv L gone none (binderReleaseWork s l) ∧
      (∀ v, (l, v) ∉ (binderReleaseWork s l).obj.todo.entries) ∧
      ∀ g v, (g, v) ∈ (binderReleaseWork s l).obj.todo.entries → (g, v) ∈ s.obj.todo.entries :=
  ⟨h.releaseWorkLoop, releaseWorkLoop_empty le_rfl, fun _ _ => releaseWorkLoop_mem⟩

end Binder
