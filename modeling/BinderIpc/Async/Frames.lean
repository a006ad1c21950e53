import BinderIpc.Async.Objects
import BinderIpc.Txn.Shrinks

/-! What a function of the driver leaves of the one-way transactions that are on
their way: their lists, their buffers, and the threads that may read them. -/

namespace Binder

/-- What a part of a step may take away. -/
structure AsyncScope where
  /-- the lists that are thrown away -/
  drops : ListHead → Prop
  /-- the buffers that are handed out or freed -/
  frees : ℕ × ℕ → Prop
  /-- the processes that are torn down -/
  tears : ℕ → Prop
  /-- the threads that exit -/
  leaves : ℕ → Prop

def AsyncScope.still : AsyncScope :=
  ⟨fun _ => False, fun _ => False, fun _ => False, fun _ => False⟩

/-- An area is well formed, or was never mapped. -/
def FitArea (L : Layout) (A : BinderArea) : Prop :=
  AreaInv L A ∨ (A.buffers = [] ∧ A.allocatedBuffers = .leaf ∧ A.vma = false)

/-- What a buffer keeps from its allocation on. -/
def BinderBuffer.core (B : BinderBuffer) : BinderBuffer := { B with transaction := none, data := [] }

/-- A transaction that may be on a stack. -/
def Driver.Called (s : Driver) (t : ℕ) : Prop := t < s.txn.next ∧ (s.txn.get t).flags.oneWay = false

structure AsyncSound (L : Layout) (s : Driver) : Prop where
  area : ∀ p, FitArea L (s.proc.get p).area
  stack : ∀ T t, (s.thread.get T).transactionStack = some t → s.Called t
  parents : ∀ u t, (s.txn.get u).fromParent = some t ∨ (s.txn.get u).toParent = some t → s.Called t
  linked : ∀ b B t, s.liveAt b = some B → B.transaction = some t →
    t < s.txn.next ∧ ((s.txn.get t).buffer = some b ∨ (s.txn.get t).buffer = none)

structure AsyncStep (L : Layout) (K : AsyncScope) (s s' : Driver) : Prop where
  sound : AsyncSound L s'
  next : s.txn.next ≤ s'.txn.next
  flags : ∀ t < s.txn.next, (s'.txn.get t).flags = (s.txn.get t).flags
  queued : ∀ l t, s'.queued l t → s.queued l t
  keep : ∀ l t, s.queued l t → s'.queued l t ∨ ∃ l', K.drops l' ∧ s.queued l' t
  loses : ∀ t < s.txn.next, (s'.txn.get t).buffer = (s.txn.get t).buffer ∨
    (s'.txn.get t).buffer = none
  buffer : ∀ l t, t < s.txn.next → s'.queued l t → (s'.txn.get t).buffer = (s.txn.get t).buffer ∨
    ((s'.txn.get t).buffer = none ∧ ((s.txn.get t).flags.oneWay = false ∨
      ∃ b, (s.txn.get t).buffer = some b ∧ K.tears b.1))
  live : ∀ b, K.tears b.1 ∨ K.frees b ∨ (s'.liveAt b).map (·.core) = (s.liveAt b).map (·.core)
  async : SameAsync s.obj s'.obj
  owner : ∀ n q, (s'.obj.node.get n).proc = some q → (s.obj.node.get n).proc = some q ∨
    (s.obj.node.next ≤ n ∧ n < s'.obj.node.next)
  released : ∀ p, (s'.proc.get p).released = false → (s.proc.get p).released = false
  threads : ∀ p, ∀ T ∈ (s.proc.get p).threads, K.leaves T ∨ T ∈ (s'.proc.get p).threads

/-- From a state that is sound, the step takes away no more than `K` says. -/
def AsyncKept (L : Layout) (K : AsyncScope) (s s' : Driver) : Prop :=
  AsyncSound L s → AsyncStep L K s s'

variable {L : Layout} {K : AsyncScope} {s s' s'' : Driver} {t T p : ℕ}

theorem Driver.Called.mono (h : s.Called t) (hn : s.txn.next ≤ s'.txn.next)
    (hf : ∀ t < s.txn.next, (s'.txn.get t).flags = (s.txn.get t).flags) : s'.Called t :=
  ⟨h.1.trans_le hn, by rw [hf t h.1]; exact h.2⟩

theorem AsyncStep.called (h : AsyncStep L K s s') (ht : s.Called t) : s'.Called t :=
  ht.mono h.next h.flags

namespace AsyncKept

theorem refl (s : Driver) : AsyncKept L K s s := fun hs =>
  { sound := hs
    next := le_rfl
    flags := fun _ _ => rfl
    queued := fun _ _ => id
    keep := fun _ _ => Or.inl
    loses := fun _ _ => Or.inl rfl
    buffer := fun _ _ _ _ => Or.inl rfl
    live := fun _ => Or.inr (Or.inr rfl)
    async := .refl _
    owner := fun _ _ => Or.inl
    released := fun _ => id
    threads := fun _ _ => Or.inr }

theorem trans (h : AsyncKept L K s s') (h' : AsyncKept L K s' s'') : AsyncKept L K s s'' := by
  intro hs
  have h := h hs
  have h' := h' h.sound
  refine ⟨h'.sound, h.next.trans h'.next, fun t ht => ?_, fun l t hq => h.queued l t (h'.queued l t hq),
    fun l t hq => ?_, fun t ht => ?_, fun l t ht hq => ?_, fun b => ?_, h.async.trans h'.async, fun n q hn => ?_,
    fun p hp => h.released p (h'.released p hp), fun p T hT => ?_⟩
  · rw [h'.flags t (ht.trans_le h.next), h.flags t ht]
  · rcases h.keep l t hq with h1 | h1
    · rcases h'.keep l t h1 with h2 | ⟨l', hl, h2⟩
      · exact Or.inl h2
      · exact Or.inr ⟨l', hl, h.queued l' t h2⟩
    · exact Or.inr h1
  · rcases h'.loses t (ht.trans_le h.next) with h2 | h2
    · rw [h2]
      exact h.loses t ht
    · exact Or.inr h2
  · have hb := h.buffer l t ht (h'.queued l t hq)
    rcases h'.buffer l t (ht.trans_le h.next) hq with h2 | ⟨h2, h3⟩
    · rwa [h2]
    · rw [h.flags t ht] at h3
      rcases hb with h1 | h1
      · exact Or.inr ⟨h2, h1 ▸ h3⟩
      · exact Or.inr ⟨h2, h1.2⟩
  · rcases h.live b with h1 | h1 | h1
    · exact Or.inl h1
    · exact Or.inr (Or.inl h1)
    · rw [← h1]
      exact h'.live b
  · rcases h'.owner n q hn with h1 | ⟨h1, h2⟩
    · exact (h.owner n q h1).imp_right fun h2 => ⟨h2.1, h2.2.trans_le h'.async.next⟩
    · exact Or.inr ⟨h.async.next.trans h1, h2⟩
  · rcases h.threads p T hT with h1 | h1
    · exact Or.inl h1
    · exact h'.threads p T h1

theorem ite {c : Prop} [Decidable c] (h : AsyncKept L K s s') (h' : AsyncKept L K s s'') :
    AsyncKept L K s (if c then s' else s'') := by
  split_ifs <;> assumption

theorem foldl {α : Type*} {f : Driver → α → Driver} {l : List α}
    (hf : ∀ s, ∀ a ∈ l, AsyncKept L K s (f s a)) (s : Driver) : AsyncKept L K s (l.foldl f s) := by
  induction l generalizing s with
  | nil => exact .refl s
  | cons a l ih => exact (hf s a (by simp)).trans (ih (fun s b hb => hf s b (by simp [hb])) _)

end AsyncKept

/-! Single changes -/

section

variable (s)

/-- The lists change, and the nodes, and the flags of no node. -/
theorem kept_obj {f : Objects → Objects} (ha : SameAsync s.obj (f s.obj))
    (hq : ∀ l t, (s.modObj f).queued l t → s.queued l t)
    (hk : ∀ l t, s.queued l t → (s.modObj f).queued l t ∨ ∃ l', K.drops l' ∧ s.queued l' t)
    (ho : ∀ n q, ((f s.obj).node.get n).proc = some q → (s.obj.node.get n).proc = some q ∨
      (s.obj.node.next ≤ n ∧ n < (f s.obj).node.next)) : AsyncKept L K s (s.modObj f) := fun hs =>
  { AsyncKept.refl (L := L) (K := K) s hs with
    sound := ⟨hs.area, hs.stack, hs.parents, hs.linked⟩
    queued := hq
    keep := hk
    buffer := fun _ _ _ _ => Or.inl rfl
    async := ha
    owner := ho }

theorem kept_quiet {f : Objects → Objects} (hq : Quiet s.obj (f s.obj))
    (ha : SameAsync s.obj (f s.obj)) : AsyncKept L K s (s.modObj f) := by
  refine kept_obj s ha (fun l t => (hq.mem_message rfl).1)
    (fun l t h => Or.inl ((hq.mem_message rfl).2 h)) fun n q hn => ?_
  rcases lt_or_ge n s.obj.node.next with h1 | h1
  · exact Or.inl (hq.proc n h1 ▸ hn)
  · rcases lt_or_ge n (f s.obj).node.next with h2 | h2
    · exact Or.inr ⟨h1, h2⟩
    · exact Or.inl (hq.unborn n h2 ▸ hn)

theorem kept_bugOn (c : Bool) (b : Oops) : AsyncKept L K s (s.bugOn c b) :=
  kept_obj s (async_bugOn _ c b) (fun _ _ => id) (fun _ _ => Or.inl) fun _ _ => Or.inl

theorem kept_note (e : Event) : AsyncKept L K s (s.note e) := fun hs =>
  { AsyncKept.refl (L := L) (K := K) s hs with
    sound := ⟨hs.area, hs.stack, hs.parents, hs.linked⟩ }

theorem kept_modThread (T : ℕ) {f : BinderThread → BinderThread}
    (hf : ∀ t, (f (s.thread.get T)).transactionStack = some t →
      AsyncSound L s → s.Called t) : AsyncKept L K s (s.modThread T f) := fun hs =>
  { AsyncKept.refl (L := L) (K := K) s hs with
    sound := by
      refine ⟨hs.area, fun S t ht => ?_, hs.parents, hs.linked⟩
      simp only [Driver.modThread, Heap.get_modify] at ht
      split_ifs at ht with hS
      · exact hf t ht hs
      · exact hs.stack S t ht }

/-- The thread keeps its stack. -/
theorem kept_thread (T : ℕ) {f : BinderThread → BinderThread}
    (hf : ∀ y, (f y).transactionStack = y.transactionStack) : AsyncKept L K s (s.modThread T f) :=
  kept_modThread s T fun t ht hs => hs.stack T t ((hf _).symm.trans ht)

theorem kept_modTxn (t : ℕ) {f : BinderTransaction → BinderTransaction}
    (hflags : ∀ x, (f x).flags = x.flags) (hbuffer : ∀ x, (f x).buffer = x.buffer)
    (hf : ∀ u, (f (s.txn.get t)).fromParent = some u ∨ (f (s.txn.get t)).toParent = some u →
      AsyncSound L s → s.Called u) : AsyncKept L K s (s.modTxn t f) := by
  have h1 : ∀ u, ((s.modTxn t f).txn.get u).flags = (s.txn.get u).flags := fun u =>
    s.txn.apply_get_modify t u f (·.flags) hflags
  have h2 : ∀ u, ((s.modTxn t f).txn.get u).buffer = (s.txn.get u).buffer := fun u =>
    s.txn.apply_get_modify t u f (·.buffer) hbuffer
  have hcalled : ∀ u, s.Called u → (s.modTxn t f).Called u := fun u hu =>
    hu.mono le_rfl fun u _ => h1 u
  intro hs
  refine { AsyncKept.refl (L := L) (K := K) s hs with
    sound := ⟨hs.area, fun T u hu => hcalled u (hs.stack T u hu), fun u v hv => hcalled v ?_,
      fun b B u hB hu => (h2 u).symm ▸ hs.linked b B u hB hu⟩
    flags := fun u _ => h1 u
    loses := fun u _ => Or.inl (h2 u)
    buffer := fun _ u _ _ => Or.inl (h2 u) }
  simp only [Driver.modTxn, Heap.get_modify] at hv
  split_ifs at hv
  · exact hf v hv hs
  · exact hs.parents u v hv

/-- The transaction has no call above or below it that it did not have. -/
theorem kept_txn (t : ℕ) {f : BinderTransaction → BinderTransaction}
    (hflags : ∀ x, (f x).flags = x.flags) (hbuffer : ∀ x, (f x).buffer = x.buffer)
    (hfrom : ∀ x, (f x).fromParent = x.fromParent) (hto : ∀ x, (f x).toParent = x.toParent) :
    AsyncKept L K s (s.modTxn t f) :=
  kept_modTxn s t hflags hbuffer fun u hu hs => hs.parents t u (by rwa [hfrom, hto] at hu)

/-- A transaction loses its buffer. -/
theorem kept_cutTxn (t : ℕ) {f : BinderTransaction → BinderTransaction}
    (hflags : ∀ x, (f x).flags = x.flags) (hbuffer : ∀ x, (f x).buffer = none)
    (hfrom : ∀ x, (f x).fromParent = x.fromParent) (hto : ∀ x, (f x).toParent = x.toParent)
    (ht : AsyncSound L s → ∀ l, s.queued l t → (s.txn.get t).buffer = none ∨
      (s.txn.get t).flags.oneWay = false ∨ ∃ b, (s.txn.get t).buffer = some b ∧ K.tears b.1) :
    AsyncKept L K s (s.modTxn t f) := by
  have h1 : ∀ u, ((s.modTxn t f).txn.get u).flags = (s.txn.get u).flags := fun u =>
    s.txn.apply_get_modify t u f (·.flags) hflags
  have h2 : ∀ u, ((s.modTxn t f).txn.get u).buffer =
      if u = t then none else (s.txn.get u).buffer := fun u => by
    simp only [Driver.modTxn, Heap.get_modify]
    split_ifs
    · exact hbuffer _
    · rfl
  have hparents : ∀ u, ((s.modTxn t f).txn.get u).fromParent = (s.txn.get u).fromParent ∧
      ((s.modTxn t f).txn.get u).toParent = (s.txn.get u).toParent := fun u =>
    ⟨s.txn.apply_get_modify t u f (·.fromParent) hfrom, s.txn.apply_get_modify t u f (·.toParent) hto⟩
  have hcalled : ∀ u, s.Called u → (s.modTxn t f).Called u := fun u hu =>
    hu.mono le_rfl fun u _ => h1 u
  intro hs
  refine { AsyncKept.refl (L := L) (K := K) s hs with
    sound := ⟨hs.area, fun T u hu => hcalled u (hs.stack T u hu), fun u v hv => hcalled v ?_,
      fun b B u hB hu => ⟨(hs.linked b B u hB hu).1, ?_⟩⟩
    flags := fun u _ => h1 u
    loses := fun u _ => ?_
    buffer := fun l u _ hu => ?_ }
  · rw [(hparents u).1, (hparents u).2] at hv
    exact hs.parents u v hv
  · rw [h2]
    split_ifs
    · exact Or.inr rfl
    · exact (hs.linked b B u hB hu).2
  · rw [h2]
    split_ifs
    · exact Or.inr rfl
    · exact Or.inl rfl
  · rw [h2]
    split_ifs with hut
    · rcases ht hs l (hut ▸ hu) with h3 | h3
      · exact Or.inl (by rw [hut, h3])
      · exact Or.inr ⟨rfl, hut ▸ h3⟩
    · exact Or.inl rfl

/-- A process gets an area with the buffers it had. -/
theorem kept_setProc (p : ℕ) {f : BinderProc → BinderProc}
    (hfit : FitArea L (s.proc.get p).area → FitArea L (f (s.proc.get p)).area)
    (hlive : ∀ a, Binder.liveAt (f (s.proc.get p)).area a = Binder.liveAt (s.proc.get p).area a)
    (hreleased : (f (s.proc.get p)).released = false → (s.proc.get p).released = false)
    (hthreads : ∀ T ∈ (s.proc.get p).threads, K.leaves T ∨ T ∈ (f (s.proc.get p)).threads) :
    AsyncKept L K s (s.modProc p f) := by
  have hget : ∀ q, (s.modProc p f).proc.get q = if q = p then f (s.proc.get p) else s.proc.get q :=
    fun _ => rfl
  have hlive' : ∀ b, (s.modProc p f).liveAt b = s.liveAt b := fun b => by
    rw [Driver.liveAt, Driver.liveAt, hget]
    split_ifs with hb
    · rw [hlive, hb]
    · rfl
  intro hs
  refine { AsyncKept.refl (L := L) (K := K) s hs with
    sound := ⟨fun q => ?_, hs.stack, hs.parents, fun b B u hB =>
      hs.linked b B u ((hlive' b).symm.trans hB)⟩
    live := fun b => Or.inr (Or.inr (by rw [hlive']))
    released := fun q hq => ?_
    threads := fun q T hT => ?_ }
  · rw [hget]
    split_ifs
    · exact hfit (hs.area p)
    · exact hs.area q
  · rw [hget] at hq
    split_ifs at hq with hqp
    · exact hqp ▸ hreleased hq
    · exact hq
  · rw [hget]
    split_ifs with hqp
    · exact hthreads T (hqp ▸ hT)
    · exact Or.inr hT

theorem kept_modProc (p : ℕ) {f : BinderProc → BinderProc} (harea : ∀ x, (f x).area = x.area)
    (hreleased : ∀ x, (f x).released = false → x.released = false)
    (hthreads : ∀ x, ∀ T ∈ x.threads, K.leaves T ∨ T ∈ (f x).threads) :
    AsyncKept L K s (s.modProc p f) :=
  kept_setProc s p (fun h => (harea _).symm ▸ h) (fun a => by rw [harea]) (hreleased _) (hthreads _)

/-- The counts and flags of a process change. -/
theorem kept_proc (p : ℕ) {f : BinderProc → BinderProc} (harea : ∀ x, (f x).area = x.area)
    (hreleased : ∀ x, (f x).released = false → x.released = false)
    (hthreads : ∀ x, (f x).threads = x.threads) : AsyncKept L K s (s.modProc p f) :=
  kept_modProc s p harea hreleased fun x _ hT => Or.inr ((hthreads x).symm ▸ hT)

theorem FitArea.modBuffer {A : BinderArea} {a : ℕ} {f : BinderBuffer → BinderBuffer}
    (h : FitArea L A) (hf : ∀ B, SameExtent B (f B)) : FitArea L (A.modBuffer a f) := by
  rcases h with hi | ⟨h1, h2, h3⟩
  · exact Or.inl (hi.map fun b => (hf b).ite)
  · exact Or.inr ⟨by simp [BinderArea.modBuffer, setBuffer, h1], h2, h3⟩

theorem fitArea_modBuffer {s : Driver} {b : ℕ × ℕ} {f : BinderBuffer → BinderBuffer}
    (h : ∀ q, FitArea L (s.proc.get q).area) (hf : ∀ B, SameExtent B (f B)) (q : ℕ) :
    FitArea L ((s.modBuffer b f).proc.get q).area := by
  simp only [Driver.modBuffer, Driver.modProc, Heap.get_modify]
  split_ifs
  · exact (h b.1).modBuffer hf
  · exact h q

/-- A write to a buffer that gives it no other transaction. -/
theorem kept_modBuffer (b : ℕ × ℕ) {f : BinderBuffer → BinderBuffer}
    (hf : ∀ B, SameExtent B (f B)) (hfree : K.frees b ∨ ∀ B, (f B).core = B.core)
    (ht : ∀ B t, (f B).transaction = some t → B.transaction = some t) :
    AsyncKept L K s (s.modBuffer b f) := by
  have hproc : ∀ {β : Type} (g : BinderProc → β), (∀ x a, g { x with area := a } = g x) →
      ∀ q, g ((s.modBuffer b f).proc.get q) = g (s.proc.get q) := fun g hg q =>
    proc_modBuffer (s := s) g hg b f q
  intro hs
  refine { AsyncKept.refl (L := L) (K := K) s hs with
    sound := ⟨fitArea_modBuffer hs.area hf, hs.stack, hs.parents, fun c C u hC hu => ?_⟩
    live := fun c => Or.inr ?_
    released := fun q hq => (hproc (·.released) (fun _ _ => rfl) q).symm.trans hq
    threads := fun q T hT => Or.inr ((hproc (·.threads) (fun _ _ => rfl) q).symm ▸ hT) }
  · rw [liveAt_modBuffer' hf] at hC
    split_ifs at hC with hcb
    · obtain ⟨B, hB, rfl⟩ := Option.map_eq_some_iff.1 hC
      exact hs.linked c B u (hcb ▸ hB) (ht B u hu)
    · exact hs.linked c C u hC hu
  · rw [liveAt_modBuffer' hf]
    split_ifs with hcb
    · refine hfree.imp (fun h => hcb ▸ h) fun h => ?_
      rw [hcb, Option.map_map]
      exact congrArg (fun g => (s.liveAt b).map g) (funext h)
    · exact Or.inr rfl

end

end Binder
