import BinderIpc.Async.Steps

/-! The one-way transactions of the nodes over steps: one of a node is on its way or
delivered while others wait for it, and the buffer of each is that of the node. -/

namespace Binder

/-- The lists from which the threads of a process read. -/
def Driver.LiveTodo (s : Driver) (p : ℕ) : ListHead → Prop
  | .procTodo q => q = p
  | .threadTodo T => T ∈ (s.proc.get p).threads
  | _ => False

/-- `t` has an asynchronous buffer in the area of `p`, for node `n`. -/
def Sent (s : Driver) (p n t : ℕ) : Prop :=
  ∃ a B, (s.txn.get t).buffer = some (p, a) ∧ s.liveAt (p, a) = some B ∧
    B.asyncTransaction = true ∧ B.targetNode = some n

/-- A one-way transaction for node `n` can be read in process `p`. -/
def AsyncQueued (s : Driver) (p n : ℕ) : Prop :=
  ∃ t l, s.LiveTodo p l ∧ s.queued l t ∧ Sent s p n t

/-- The buffer of one can be freed by the process. -/
def AsyncDelivered (s : Driver) (p n : ℕ) : Prop :=
  ∃ a B, s.liveAt (p, a) = some B ∧ B.asyncTransaction = true ∧ B.targetNode = some n ∧
    B.allowUserFree = true

structure AsyncInv (L : Layout) (s : Driver) : Prop where
  sound : AsyncSound L s
  lt : ∀ l t, s.queued l t → t < s.txn.next
  once : ∀ l l' t, s.queued l t → s.queued l' t → l = l'
  held : ∀ l t b, s.queued l t → (s.txn.get t).buffer = some b → (s.proc.get b.1).released = false →
    ∃ B, s.liveAt b = some B ∧ B.allowUserFree = false ∧
      (B.asyncTransaction = true → (s.txn.get t).flags.oneWay = true)
  sole : ∀ l l' t u b, s.queued l t → s.queued l' u → (s.txn.get t).buffer = some b →
    (s.txn.get u).buffer = some b → (s.proc.get b.1).released = false → t = u
  unborn : ∀ n q, (s.obj.node.get n).proc = some q → n < s.obj.node.next
  blank : ∀ n, s.obj.node.next ≤ n → (s.obj.node.get n).hasAsyncTransaction = false
  only : ∀ n w, (.asyncTodo n, w) ∈ s.obj.todo.entries →
    n < s.obj.node.next ∧ ∃ t, w = .transaction t
  waiting : ∀ p n t, (s.obj.node.get n).proc = some p → (s.proc.get p).released = false →
    s.queued (.asyncTodo n) t → Sent s p n t
  idle : ∀ n w, (s.obj.node.get n).hasAsyncTransaction = false →
    (.asyncTodo n, w) ∉ s.obj.todo.entries
  active : ∀ p n, (s.obj.node.get n).proc = some p → (s.proc.get p).released = false →
    (s.obj.node.get n).hasAsyncTransaction = true → AsyncDelivered s p n ∨ AsyncQueued s p n

variable {L : Layout} {rb : RbTree ℕ} {K : AsyncScope} {s s' : Driver} {t u T p n a : ℕ}
  {l : ListHead} {b : ℕ × ℕ} {B : BinderBuffer}

theorem core_eq {o o' : Option BinderBuffer} (h : o'.map (·.core) = o.map (·.core))
    (hB : o = some B) : ∃ B', o' = some B' ∧ B'.asyncTransaction = B.asyncTransaction ∧
      B'.targetNode = B.targetNode ∧ B'.allowUserFree = B.allowUserFree := by
  rw [hB, Option.map_some] at h
  obtain ⟨B', hB', hcore⟩ := Option.map_eq_some_iff.1 h
  have hfield : ∀ {β : Type} (g : BinderBuffer → β), g B'.core = g B.core := fun g => by rw [hcore]
  exact ⟨B', hB', hfield (·.asyncTransaction), hfield (·.targetNode), hfield (·.allowUserFree)⟩

/-- A step that takes no buffer of a queued transaction. -/
structure Spares (K : AsyncScope) (s s' : Driver) : Prop where
  tears : ∀ p, (s'.proc.get p).released = false → ¬K.tears p
  frees : ∀ b l t, K.frees b → (s'.proc.get b.1).released = false → s.queued l t →
    (s.txn.get t).buffer ≠ some b

namespace AsyncStep

theorem live_eq (h : AsyncStep L K s s') (hk : Spares K s s')
    (hopen : (s'.proc.get b.1).released = false) (hb : ¬K.frees b) :
    (s'.liveAt b).map (·.core) = (s.liveAt b).map (·.core) :=
  ((h.live b).resolve_left (hk.tears b.1 hopen)).resolve_left hb

theorem buffer_eq (h : AsyncStep L K s s') (ht : t < s.txn.next) (hq : s'.queued l t)
    (hb : (s'.txn.get t).buffer = some b) : (s.txn.get t).buffer = some b := by
  rcases h.buffer l t ht hq with h1 | ⟨h1, -⟩
  · exact h1 ▸ hb
  · rw [h1] at hb
    cases hb

/-- A one-way transaction keeps its buffer while it is queued. -/
theorem buffer_kept (h : AsyncStep L K s s') (hk : Spares K s s') (hi : AsyncInv L s)
    (hq : s'.queued l t) (hb : (s.txn.get t).buffer = some b)
    (hopen : (s'.proc.get b.1).released = false) (hone : (s.txn.get t).flags.oneWay = true) :
    (s'.txn.get t).buffer = some b := by
  rcases h.buffer l t (hi.lt l t (h.queued l t hq)) hq with h1 | ⟨-, h2 | ⟨c, hc, h2⟩⟩
  · exact h1.trans hb
  · rw [hone] at h2
    cases h2
  · rw [hb] at hc
    cases hc
    exact absurd h2 (hk.tears _ hopen)

end AsyncStep

theorem AsyncInv.oneWay (hi : AsyncInv L s) (hq : s.queued l t)
    (hb : (s.txn.get t).buffer = some b) (hopen : (s.proc.get b.1).released = false)
    (hB : s.liveAt b = some B) (hasync : B.asyncTransaction = true) :
    (s.txn.get t).flags.oneWay = true := by
  obtain ⟨B', hB', -, h⟩ := hi.held l t b hq hb hopen
  rw [hB] at hB'
  cases hB'
  exact h hasync

/-- What is left of the invariant when the step keeps the pending transactions. -/
theorem AsyncInv.step (hi : AsyncInv L s) (h : AsyncStep L K s s') (hk : Spares K s s')
    (hpending : ∀ p n, (s'.proc.get p).released = false → (s.obj.node.get n).hasAsyncTransaction = true →
      (s.obj.node.get n).proc = some p → AsyncDelivered s p n ∨ AsyncQueued s p n →
        AsyncDelivered s' p n ∨ AsyncQueued s' p n) :
    AsyncInv L s' := by
  have hflag := h.async.flag hi.blank
  refine ⟨h.sound, fun l t hq => (hi.lt l t (h.queued l t hq)).trans_le h.next,
    fun l l' t hq hq' => hi.once l l' t (h.queued l t hq) (h.queued l' t hq'),
    fun l t b hq hb hopen => ?_, fun l l' t u b hq hq' hb hb' hopen => ?_,
    fun n q hn => ?_, fun n hn => ?_, fun n w hw => ?_, fun p n t hn hopen hq => ?_,
    fun n w hn hw => ?_, fun p n hn hopen hf => ?_⟩
  · have hq₀ := h.queued l t hq
    have hb₀ := h.buffer_eq (hi.lt l t hq₀) hq hb
    obtain ⟨B, hB, hu, hone⟩ := hi.held l t b hq₀ hb₀ (h.released _ hopen)
    obtain ⟨B', hB', h1, -, h3⟩ := core_eq
      (h.live_eq hk hopen fun hf => hk.frees b l t hf hopen hq₀ hb₀) hB
    refine ⟨B', hB', h3.trans hu, fun ha => ?_⟩
    rw [h.flags t (hi.lt l t hq₀)]
    exact hone (h1 ▸ ha)
  · have hq₀ := h.queued l t hq
    have hq₁ := h.queued l' u hq'
    exact hi.sole l l' t u b hq₀ hq₁ (h.buffer_eq (hi.lt l t hq₀) hq hb)
      (h.buffer_eq (hi.lt l' u hq₁) hq' hb') (h.released _ hopen)
  · rcases h.owner n q hn with h1 | ⟨-, h1⟩
    · exact (hi.unborn n q h1).trans_le h.async.next
    · exact h1
  · rw [hflag]
    exact hi.blank n (h.async.next.trans hn)
  · obtain ⟨h1, h2⟩ := hi.only n w (h.async.listed n w hw)
    exact ⟨h1.trans_le h.async.next, h2⟩
  · have hq₀ := h.queued _ t hq
    have hlt := (hi.only n _ hq₀).1
    have hn₀ := (h.owner n p hn).resolve_right fun h5 => absurd hlt (not_lt.2 h5.1)
    obtain ⟨a, B, hb, hB, ha, hBn⟩ := hi.waiting p n t hn₀ (h.released p hopen) hq₀
    have hone := hi.oneWay hq₀ hb (h.released p hopen) hB ha
    obtain ⟨B', hB', h1, h2, -⟩ := core_eq
      (h.live_eq (b := (p, a)) hk hopen fun hf => hk.frees _ _ t hf hopen hq₀ hb) hB
    exact ⟨a, B', h.buffer_kept hk hi hq hb hopen hone, hB', h1.trans ha, h2.trans hBn⟩
  · exact hi.idle n w (hflag n ▸ hn) (h.async.listed n w hw)
  · rw [hflag] at hf
    have hn₀ := (h.owner n p hn).resolve_right fun h5 => by
      rw [hi.blank n h5.1] at hf
      cases hf
    exact hpending p n hopen hf hn₀ (hi.active p n hn₀ (h.released p hopen) hf)

/-- What is queued of a live process stays, with its buffer. -/
theorem AsyncInv.queued_kept (hi : AsyncInv L s) (h : AsyncStep L K s s') (hk : Spares K s s')
    (hopen : (s'.proc.get p).released = false)
    (hstay : ∀ l t a B, (s.txn.get t).buffer = some (p, a) → s.liveAt (p, a) = some B →
      B.asyncTransaction = true → s.LiveTodo p l → s.queued l t → s'.LiveTodo p l ∧ s'.queued l t)
    (hp : AsyncQueued s p n) : AsyncQueued s' p n := by
  obtain ⟨t, l, hl, hq, a, B, hb, hB, ha, hn⟩ := hp
  obtain ⟨hl', hq'⟩ := hstay l t a B hb hB ha hl hq
  obtain ⟨B', hB', h1, h2, -⟩ := core_eq
    (h.live_eq (b := (p, a)) hk hopen fun hf => hk.frees _ l t hf hopen hq hb) hB
  refine ⟨t, l, hl', hq', a, B', ?_, hB', h1.trans ha, h2.trans hn⟩
  exact h.buffer_kept hk hi hq' hb hopen (hi.oneWay hq hb (h.released p hopen) hB ha)

theorem AsyncStep.delivered_kept (h : AsyncStep L K s s') (hk : Spares K s s')
    (hopen : (s'.proc.get p).released = false) (hK : ∀ a, ¬K.frees (p, a))
    (hp : AsyncDelivered s p n) : AsyncDelivered s' p n := by
  obtain ⟨a, B, hB, ha, hn, hu⟩ := hp
  obtain ⟨B', hB', h1, h2, h3⟩ := core_eq (h.live_eq (b := (p, a)) hk hopen (hK a)) hB
  exact ⟨a, B', hB', h1.trans ha, h2.trans hn, h3.trans hu⟩

theorem AsyncStep.liveTodo (h : AsyncStep L K s s') (hK : ∀ T, ¬K.leaves T) (hl : s.LiveTodo p l) :
    s'.LiveTodo p l := by
  cases l with
  | procTodo q => exact hl
  | threadTodo T => exact (h.threads p T hl).resolve_left (hK T)
  | asyncTodo n => exact hl
  | deliveredDeath q => exact hl

theorem AsyncStep.stay (h : AsyncStep L K s s') (hK : ∀ T, ¬K.leaves T) (hd : ∀ l, ¬K.drops l)
    (hl : s.LiveTodo p l) (hq : s.queued l t) : s'.LiveTodo p l ∧ s'.queued l t :=
  ⟨h.liveTodo hK hl, (h.keep l t hq).resolve_right fun ⟨l', hl', _⟩ => hd l' hl'⟩

theorem spares_still : Spares .still s s' := ⟨fun _ _ => id, fun _ _ _ hf => hf.elim⟩

/-- A step that takes nothing away. -/
theorem AsyncInv.kept (hi : AsyncInv L s) (h : AsyncKept L .still s s') : AsyncInv L s' := by
  have h := h hi.sound
  refine hi.step h spares_still fun p n hopen _ _ hp => ?_
  refine hp.imp (h.delivered_kept spares_still hopen fun _ => id) ?_
  exact hi.queued_kept h spares_still hopen fun _ _ _ _ _ _ _ => h.stay (fun _ => id) fun _ => id

theorem AsyncInv.queued_still (hi : AsyncInv L s) (h : AsyncKept L .still s s')
    (hopen : (s'.proc.get p).released = false) (hp : AsyncQueued s p n) : AsyncQueued s' p n := by
  have h := h hi.sound
  exact hi.queued_kept h spares_still hopen (fun _ _ _ _ _ _ _ => h.stay (fun _ => id) fun _ => id) hp

end Binder
