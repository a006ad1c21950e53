import BinderIpc.Async.Queue

/-! One-way transactions over `BC_FREE_BUFFER`. -/

namespace Binder

variable {L : Layout} {rb : RbTree ℕ} {s : Driver} {T p a : ℕ}

/-- The next transaction of the node takes the place of the one before. -/
theorem AsyncInv.nextAsync {n : ℕ} (hi : AsyncInv L s) (hT : T ∈ (s.proc.get p).threads)
    (hopen : (s.proc.get p).released = false) :
    AsyncInv L (s.modObj fun o => nextAsync o T n) ∧
      ((s.obj.node.get n).proc = some p →
        ((s.modObj fun o => nextAsync o T n).obj.node.get n).hasAsyncTransaction = true →
          AsyncQueued (s.modObj fun o => nextAsync o T n) p n) := by
  rw [modObj_nextAsync]
  have hbug : AsyncInv L (s.modObj fun o =>
      o.bugOn (!(o.node.get n).hasAsyncTransaction) .hasAsyncTransaction) := hi.kept (kept_bugOn s _ _)
  set s₁ := s.modObj fun o => o.bugOn (!(o.node.get n).hasAsyncTransaction) .hasAsyncTransaction
  cases hfirst : s₁.obj.todo.first (.asyncTodo n) with
  | none =>
    have hnone := Queues.isEmpty_iff.1 (Queues.first_none.1 hfirst)
    have h := hbug.setFlag (n := n) (v := false) (fun hv => by cases hv) fun _ => hnone
    simp only [Driver.modObj, hfirst] at h ⊢
    refine ⟨h, fun _ hf => ?_⟩
    simp [Objects.modNode] at hf
  | some w =>
    obtain ⟨-, t, rfl⟩ := hbug.only n w (Queues.first_mem hfirst)
    obtain ⟨h1, h2⟩ := hbug.move (T := T) (p := p) (Queues.first_mem hfirst) hT hopen
    simp only [Driver.modObj, hfirst] at h1 h2 ⊢
    exact ⟨h1, fun hp _ => h2 hp⟩

theorem proc_nextAsync (o : Objects) (T n m : ℕ) :
    ((Binder.nextAsync o T n).node.get m).proc = (o.node.get m).proc := by
  unfold Binder.nextAsync
  dsimp only
  split
  · exact o.node.apply_get_modify n m (fun x => { x with hasAsyncTransaction := false }) (·.proc)
      fun _ => rfl
  · rfl

theorem AsyncInv.freeBuffer {env : PageEnv} (hi : AsyncInv L s)
    (hT : T ∈ (s.proc.get (s.thread.get T).proc).threads)
    (hopen : (s.proc.get (s.thread.get T).proc).released = false) :
    AsyncInv L (freeBuffer L rb s T a env) := by
  unfold Binder.freeBuffer
  dsimp only
  set p := (s.thread.get T).proc with hp
  cases hlook : binderBufferLookup a (s.proc.get p).area.allocatedBuffers with
  | none => exact hi
  | some a' =>
    obtain ⟨rfl, hmem⟩ := binderBufferLookup_mem hlook
    obtain ⟨B, hB⟩ := Option.isSome_iff_exists.1
      ((FitArea.allocated_live L (hi.sound.area p)).2 a' hmem)
    have hat : s.bufferAt (p, a') = some B := FitArea.bufferAt_eq L (hi.sound.area p) hB
    rw [Option.bind_some, hat]
    dsimp only
    by_cases hfree : B.allowUserFree = true
    swap
    · rw [if_pos (by simpa using hfree)]
      exact hi
    rw [if_neg (by simp [hfree])]
    -- what is queued has another buffer
    have hother : ∀ l t, s.queued l t → (s.txn.get t).buffer ≠ some (p, a') := fun l t hq hb => by
      obtain ⟨C, hC, hu, -⟩ := hi.held l t _ hq hb hopen
      obtain rfl : B = C := Option.some.inj (hB.symm.trans hC)
      rw [hfree] at hu
      cases hu
    have hdetach : AsyncKept L .still s (detachBuffer s (p, a')) := by
      refine detachBuffer_kept L s _ fun hs t ht l hq => Or.inl ?_
      rw [hat, Option.bind_some] at ht
      exact (hs.linked (p, a') B t hB ht).2.resolve_left (hother l t hq)
    have h₁ := hi.kept hdetach
    have hstep := hdetach hi.sound
    set s₁ := detachBuffer s (p, a') with hs₁
    have hreleased : (s₁.proc.get p).released = false := by
      rw [← hopen, hs₁, detachBuffer]
      split
      · exact proc_modBuffer (s := s.modTxn _ fun x => { x with buffer := none }) (·.released)
          (fun _ _ => rfl) (p, a') _ p
      · rfl
    obtain ⟨B₁, hB₁, hasync₁, htarget₁, hfree₁⟩ :=
      core_eq (hstep.live_eq (b := (p, a')) spares_still hreleased id) hB
    have hT₁ : T ∈ (s₁.proc.get p).threads := (hstep.threads p T hT).resolve_left id
    set s₂ := if B.asyncTransaction = true then
        s₁.modObj fun o => B.targetNode.elim o (Binder.nextAsync o T) else s₁ with hs₂
    have hproc₂ : s₂.proc = s₁.proc := by
      rw [hs₂]
      split <;> rfl
    have h₂ : AsyncInv L s₂ ∧ ∀ n, B.asyncTransaction = true → B.targetNode = some n →
        (s₂.obj.node.get n).hasAsyncTransaction = true → (s₂.obj.node.get n).proc = some p →
          AsyncQueued s₂ p n := by
      rw [hs₂]
      by_cases ha : B.asyncTransaction = true
      · rw [if_pos ha]
        cases B.targetNode with
        | none => exact ⟨h₁, fun n _ hn => by cases hn⟩
        | some m =>
          obtain ⟨h3, h4⟩ := h₁.nextAsync (n := m) hT₁ hreleased
          refine ⟨h3, fun n _ hmn hf hnp => ?_⟩
          cases hmn
          exact h4 ((proc_nextAsync s₁.obj T m m).symm.trans hnp) hf
      · rw [if_neg ha]
        exact ⟨h₁, fun n h => absurd h ha⟩
    have hrelease : AsyncKept L .still s₂ (s₂.modObj fun o =>
        binderTransactionBufferRelease L o p B none) :=
      kept_quiet s₂ (bufferRelease_quiet _ _ _ _ _) (bufferRelease_sameAsync _ _ _ _ _)
    have h₃ := h₂.1.kept hrelease
    have hstep₃ := hrelease h₂.1.sound
    have hlive₃ : (s₂.modObj fun o => binderTransactionBufferRelease L o p B none).liveAt (p, a') =
        some B₁ := by
      rw [← hB₁, Driver.liveAt, Driver.liveAt]
      exact congrArg (fun P => Binder.liveAt (P.get p).area a') hproc₂
    refine h₃.freeBuf (B := B₁) env hlive₃ (fun ho l t hq hb => ?_) fun n _ hf hn ha hBn _ => ?_
    · obtain ⟨C, hC, hu, -⟩ := h₃.held l t _ hq hb ho
      rw [hlive₃] at hC
      cases hC
      rw [hfree₁, hfree] at hu
      cases hu
    · have hf₂ : (s₂.obj.node.get n).hasAsyncTransaction = true :=
        (hstep₃.async.flag h₂.1.blank n).symm.trans hf
      have hn₂ : (s₂.obj.node.get n).proc = some p :=
        (hstep₃.owner n p hn).resolve_right fun h => by
          rw [h₂.1.blank n h.1] at hf₂
          cases hf₂
      exact h₂.1.queued_still hrelease (hproc₂ ▸ hreleased)
        (h₂.2 n (hasync₁ ▸ ha) (htarget₁ ▸ hBn) hf₂ hn₂)

end Binder
