import BinderIpc.Driver.Machine

/-! What no step of the driver takes back: the history grows, objects that exist
keep their owner, and a transaction never gets another sender than its first. -/

namespace Binder

/-- A transaction is handed to the user as a call. -/
def Event.isDelivery : Event → Bool
  | br _ (.transaction _ _) => true
  | _ => false

/-- What the steps of a part of a run are about. -/
structure Scope where
  /-- the deliveries -/
  tells : Event → Prop
  /-- the threads that send -/
  sends : ℕ → Prop
  /-- the threads that exit -/
  exits : ℕ → Prop
  /-- the threads that begin to wait -/
  waits : ℕ → Prop
  /-- the processes that are mapped, unmapped or closed -/
  opens : ℕ → Prop
  /-- the processes that are torn down -/
  frees : ℕ → Prop

def Scope.any : Scope :=
  ⟨fun _ => True, fun _ => True, fun _ => True, fun _ => True, fun _ => True, fun _ => True⟩

def Scope.still : Scope :=
  ⟨fun _ => False, fun _ => False, fun _ => False, fun _ => False, fun _ => False, fun _ => False⟩

structure SameLife (x x' : BinderProc) : Prop where
  pid : x'.pid = x.pid
  threads : x'.threads = x.threads
  closed : x'.closed = x.closed
  release : x'.deferred.release = true → x.deferred.release = true
  vma : x'.area.vma = true → x.area.vma = true
  bare : x.area.buffers = [] ∧ x.area.vma = false → x'.area.buffers = []
  released : x'.released = x.released

structure Grows (K : Scope) (s s' : Driver) : Prop where
  events : ∀ e ∈ s'.history, e ∈ s.history ∨ e.isDelivery = false ∨ K.tells e
  txnNext : s.txn.next ≤ s'.txn.next
  threadNext : s'.thread.next = s.thread.next
  procNext : s'.proc.next = s.proc.next
  sender : ∀ t, t < s.txn.next ∨ s'.txn.next ≤ t → ∀ S, (s'.txn.get t).fromThread = some S →
    (s.txn.get t).fromThread = some S
  fresh : ∀ t < s'.txn.next, s.txn.next ≤ t → ∀ S, (s'.txn.get t).fromThread = some S → K.sends S
  flags : ∀ t < s.txn.next, (s'.txn.get t).flags = (s.txn.get t).flags
  owner : ∀ T, (s'.thread.get T).proc = (s.thread.get T).proc
  dead : ∀ T, (s.thread.get T).freed ≠ 0 → (s'.thread.get T).freed ≠ 0
  freed : ∀ T, K.exits T ∨ (s'.thread.get T).freed = (s.thread.get T).freed
  asleep : ∀ T, (s'.thread.get T).asleep ≠ none → (s.thread.get T).asleep ≠ none ∨ K.waits T
  pid : ∀ p, (s'.proc.get p).pid = (s.proc.get p).pid
  threads : ∀ p, (s'.proc.get p).threads.Sublist (s.proc.get p).threads
  listed : ∀ p, ∀ T ∈ (s.proc.get p).threads, K.exits T ∨ T ∈ (s'.proc.get p).threads
  life : ∀ p, K.opens p ∨ ((s'.proc.get p).closed = (s.proc.get p).closed ∧
    ((s'.proc.get p).deferred.release = true → (s.proc.get p).deferred.release = true) ∧
    ((s'.proc.get p).area.vma = true → (s.proc.get p).area.vma = true))
  bare : ∀ p, K.opens p ∨ ((s.proc.get p).area.buffers = [] ∧ (s.proc.get p).area.vma = false →
    (s'.proc.get p).area.buffers = [])
  released : ∀ p, (s'.proc.get p).released = true → (s.proc.get p).released = true ∨ K.frees p
  stays : ∀ p, (s.proc.get p).released = true → (s'.proc.get p).released = true

namespace Grows

variable {K : Scope} {s s' s'' : Driver}

theorem refl (s : Driver) : Grows K s s where
  events _ h := Or.inl h
  txnNext := le_rfl
  threadNext := rfl
  procNext := rfl
  sender _ _ _ h := h
  fresh _ ht hn := absurd ht hn.not_gt
  flags _ _ := rfl
  owner _ := rfl
  dead _ h := h
  freed _ := Or.inr rfl
  asleep _ h := Or.inl h
  pid _ := rfl
  threads _ := .refl _
  listed _ _ h := Or.inr h
  life _ := Or.inr ⟨rfl, id, id⟩
  bare _ := Or.inr And.left
  released _ := Or.inl
  stays _ := id

theorem trans (h : Grows K s s') (h' : Grows K s' s'') : Grows K s s'' where
  events e he := by
    rcases h'.events e he with he | he
    · exact h.events e he
    · exact Or.inr he
  txnNext := h.txnNext.trans h'.txnNext
  threadNext := h'.threadNext.trans h.threadNext
  procNext := h'.procNext.trans h.procNext
  sender t ht S hS := by
    have h1 : t < s.txn.next ∨ s'.txn.next ≤ t := ht.imp_right h'.txnNext.trans
    have h2 : t < s'.txn.next ∨ s''.txn.next ≤ t := ht.imp_left fun h3 => h3.trans_le h.txnNext
    exact h.sender t h1 S (h'.sender t h2 S hS)
  fresh t ht hn S hS := by
    rcases lt_or_ge t s'.txn.next with hlt | hge
    · exact h.fresh t hlt hn S (h'.sender t (Or.inl hlt) S hS)
    · exact h'.fresh t ht hge S hS
  flags t ht := (h'.flags t (ht.trans_le h.txnNext)).trans (h.flags t ht)
  owner T := (h'.owner T).trans (h.owner T)
  dead T hd := h'.dead T (h.dead T hd)
  freed T := by
    rcases h.freed T with h1 | h1
    · exact Or.inl h1
    · exact (h'.freed T).imp_right (·.trans h1)
  asleep T hT := by
    rcases h'.asleep T hT with h1 | h1
    · exact h.asleep T h1
    · exact Or.inr h1
  pid p := (h'.pid p).trans (h.pid p)
  threads p := (h'.threads p).trans (h.threads p)
  listed p T hT := by
    rcases h.listed p T hT with h1 | h1
    · exact Or.inl h1
    · exact h'.listed p T h1
  life p := by
    rcases h.life p with h1 | ⟨h1, h2, h3⟩
    · exact Or.inl h1
    · exact (h'.life p).imp_right fun h4 => ⟨h4.1.trans h1, h2 ∘ h4.2.1, h3 ∘ h4.2.2⟩
  bare p := by
    rcases h.bare p with h1 | h1
    · exact Or.inl h1
    rcases h.life p with h2 | ⟨-, -, h2⟩
    · exact Or.inl h2
    · refine (h'.bare p).imp_right fun h3 hb => h3 ⟨h1 hb, ?_⟩
      by_contra hv
      rw [h2 (by simpa using hv)] at hb
      cases hb.2
  released p hp := by
    rcases h'.released p hp with h1 | h1
    · exact h.released p h1
    · exact Or.inr h1
  stays p := h'.stays p ∘ h.stays p

theorem ite {c : Prop} [Decidable c] (h : Grows K s s') (h' : Grows K s s'') :
    Grows K s (if c then s' else s'') := by
  split_ifs <;> assumption

theorem foldl {α : Type*} {f : Driver → α → Driver} {l : List α}
    (hf : ∀ s, ∀ a ∈ l, Grows K s (f s a)) (s : Driver) : Grows K s (l.foldl f s) := by
  induction l generalizing s with
  | nil => exact refl s
  | cons a l ih => exact (hf s a (by simp)).trans (ih (fun s b hb => hf s b (by simp [hb])) _)

end Grows

section

variable {K : Scope} (s : Driver)

theorem grows_modObj (f : Objects → Objects) : Grows K s (s.modObj f) := { Grows.refl s with }

theorem grows_bugOn (c : Bool) (b : Oops) : Grows K s (s.bugOn c b) := grows_modObj s _

theorem grows_note {e : Event} (he : e.isDelivery = false ∨ K.tells e) : Grows K s (s.note e) :=
  { Grows.refl (K := K) s with
    events := fun e' he' => by
      rcases List.mem_append.1 he' with he' | he'
      · exact Or.inl he'
      · rw [List.mem_singleton.1 he']
        exact Or.inr he }

theorem grows_modTxn (t : ℕ) {f : BinderTransaction → BinderTransaction}
    (h1 : ∀ x S, (f x).fromThread = some S → x.fromThread = some S)
    (h2 : ∀ x, (f x).flags = x.flags) : Grows K s (s.modTxn t f) :=
  { Grows.refl (K := K) s with
    sender := fun u _ S hS => by
      simp only [Driver.modTxn, Heap.get_modify] at hS
      split_ifs at hS with hu
      · rw [hu]
        exact h1 _ S hS
      · exact hS
    fresh := fun _ ht hn => absurd ht hn.not_gt
    flags := fun u _ => s.txn.apply_get_modify t u f (·.flags) h2 }

/-- A thread that neither ends nor begins to wait. -/
theorem grows_modThread (T : ℕ) {f : BinderThread → BinderThread} (h1 : ∀ y, (f y).proc = y.proc)
    (h2 : ∀ y, (f y).freed = y.freed)
    (h3 : (f (s.thread.get T)).asleep ≠ none → (s.thread.get T).asleep ≠ none ∨ K.waits T) :
    Grows K s (s.modThread T f) :=
  { Grows.refl s with
    owner := fun S => s.thread.apply_get_modify T S f (·.proc) h1
    dead := fun S hS => by
      rwa [← s.thread.apply_get_modify T S f (·.freed) h2] at hS
    freed := fun S => Or.inr (s.thread.apply_get_modify T S f (·.freed) h2)
    asleep := fun S hS => by
      simp only [Driver.modThread, Heap.get_modify] at hS
      split_ifs at hS with hST
      · exact hST ▸ h3 hS
      · exact Or.inl hS }

theorem grows_exit (T : ℕ) (hK : K.exits T) :
    Grows K s (s.modThread T fun y => { y with freed := y.freed + 1 }) :=
  { Grows.refl s with
    owner := fun S => s.thread.apply_get_modify T S (fun y => { y with freed := y.freed + 1 })
      (·.proc) fun _ => rfl
    dead := fun S hS => by
      simp only [Driver.modThread, Heap.get_modify]
      split_ifs
      · exact Nat.succ_ne_zero _
      · exact hS
    freed := fun S => by
      simp only [Driver.modThread, Heap.get_modify]
      split_ifs with hS
      · exact Or.inl (hS ▸ hK)
      · exact Or.inr rfl
    asleep := fun S hS => by
      simp only [Driver.modThread, Heap.get_modify] at hS
      split_ifs at hS with hST
      · exact Or.inl (hST ▸ hS)
      · exact Or.inl hS }

theorem grows_modProc (p : ℕ) {f : BinderProc → BinderProc}
    (h1 : SameLife (s.proc.get p) (f (s.proc.get p))) : Grows K s (s.modProc p f) := by
  have h : ∀ q, SameLife (s.proc.get q) ((s.modProc p f).proc.get q) := fun q => by
    simp only [Driver.modProc, Heap.get_modify]
    split_ifs with hq
    · exact hq ▸ h1
    · exact ⟨rfl, rfl, rfl, id, id, And.left, rfl⟩
  exact { Grows.refl s with
    pid := fun q => (h q).pid
    threads := fun q => by rw [(h q).threads]
    listed := fun q T hT => Or.inr ((h q).threads ▸ hT)
    life := fun q => Or.inr ⟨(h q).closed, (h q).release, (h q).vma⟩
    bare := fun q => Or.inr (h q).bare
    released := fun q hr => Or.inl ((h q).released ▸ hr)
    stays := fun q hr => (h q).released.trans hr }

/-- A process that is mapped, unmapped or closed. -/
theorem grows_opens (p : ℕ) {f : BinderProc → BinderProc} (h1 : ∀ x, (f x).pid = x.pid)
    (h2 : ∀ x, (f x).threads = x.threads) (h3 : ∀ x, (f x).released = x.released)
    (hK : K.opens p) : Grows K s (s.modProc p f) :=
  { Grows.refl s with
    pid := fun q => s.proc.apply_get_modify p q f (·.pid) h1
    threads := fun q => by rw [Driver.modProc, s.proc.apply_get_modify p q f (·.threads) h2]
    listed := fun q T hT => by
      rw [Driver.modProc, s.proc.apply_get_modify p q f (·.threads) h2]
      exact Or.inr hT
    life := fun q => by
      simp only [Driver.modProc, Heap.get_modify]
      split_ifs with hq
      · exact Or.inl (hq ▸ hK)
      · exact Or.inr ⟨rfl, id, id⟩
    bare := fun q => by
      simp only [Driver.modProc, Heap.get_modify]
      split_ifs with hq
      · exact Or.inl (hq ▸ hK)
      · exact Or.inr And.left
    released := fun q hr => by
      rw [Driver.modProc, s.proc.apply_get_modify p q f (·.released) h3] at hr
      exact Or.inl hr
    stays := fun q => (s.proc.apply_get_modify p q f (·.released) h3).trans }

theorem grows_unlist (p T : ℕ) (hK : K.exits T) :
    Grows K s (s.modProc p fun x => { x with threads := x.threads.erase T }) :=
  { Grows.refl s with
    pid := fun q => s.proc.apply_get_modify p q (fun x => { x with threads := x.threads.erase T })
      (·.pid) fun _ => rfl
    threads := fun q => by
      simp only [Driver.modProc, Heap.get_modify]
      split_ifs with hq
      · exact hq ▸ List.erase_sublist
      · exact .refl _
    listed := fun q S hS => by
      simp only [Driver.modProc, Heap.get_modify]
      split_ifs with hq
      · by_cases hST : S = T
        · exact Or.inl (hST ▸ hK)
        · exact Or.inr ((List.mem_erase_of_ne hST).2 (hq ▸ hS))
      · exact Or.inr hS
    life := fun q => by
      simp only [Driver.modProc, Heap.get_modify]
      split_ifs with hq
      · subst hq
        exact Or.inr ⟨rfl, id, id⟩
      · exact Or.inr ⟨rfl, id, id⟩
    bare := fun q => by
      simp only [Driver.modProc, Heap.get_modify]
      split_ifs with hq
      · subst hq
        exact Or.inr And.left
      · exact Or.inr And.left
    released := fun q hr => by
      simp only [Driver.modProc, Heap.get_modify] at hr
      split_ifs at hr with hq
      · exact Or.inl (hq ▸ hr)
      · exact Or.inl hr
    stays := fun q => (s.proc.apply_get_modify p q (fun x => { x with threads := x.threads.erase T })
      (·.released) fun _ => rfl).trans }

theorem grows_modBuffer (b : ℕ × ℕ) (f : BinderBuffer → BinderBuffer) :
    Grows K s (s.modBuffer b f) :=
  grows_modProc s b.1 ⟨rfl, rfl, rfl, id, id, fun h => by
    simp [BinderArea.modBuffer, setBuffer, h.1], rfl⟩

theorem grows_freeBuf (L : Layout) (rb : RbTree ℕ) (p a : ℕ) (env : PageEnv) : Grows K s
    (s.modProc p fun x => { x with area := binderFreeBuf L rb x.area a env }) :=
  grows_modProc s p ⟨rfl, rfl, rfl, id, fun h => binderFreeBuf_vma ▸ h,
    fun h => binderFreeBuf_bare h.1, rfl⟩

end

/-! The functions -/

section

variable {K : Scope} (L : Layout) (rb : RbTree ℕ) (s : Driver) (T t p : ℕ)

theorem forgetTransaction_grows (o : Option (ℕ × ℕ)) : Grows K s (forgetTransaction s o) := by
  cases o with
  | none => exact .refl s
  | some b => exact grows_modBuffer s b _

theorem freeTransaction_grows : Grows K s (freeTransaction s t) :=
  (forgetTransaction_grows s _).trans (grows_modTxn _ t (fun _ _ h => h) fun _ => rfl)

theorem popSender_grows : Grows K s (popSender s T t) := by
  unfold popSender
  refine Grows.trans ?_ (grows_modTxn _ t (fun _ _ h => by cases h) fun _ => rfl)
  refine Grows.trans ?_ (grows_modThread _ T (fun _ => rfl) (fun _ => rfl) Or.inl)
  exact (grows_bugOn s _ _).trans (grows_bugOn _ _ _)

theorem binderPopTransaction_grows (o : Option ℕ) : Grows K s (binderPopTransaction s o t) := by
  unfold binderPopTransaction
  refine Grows.trans ?_ (freeTransaction_grows _ t)
  refine Grows.trans ?_ (grows_modTxn _ t (fun _ _ h => h) fun _ => rfl)
  cases o with
  | none => exact .refl s
  | some T => exact popSender_grows s T t

theorem BinderThread.proc_shiftError (y : BinderThread) : y.shiftError.proc = y.proc := by
  unfold shiftError
  split_ifs <;> rfl

theorem BinderThread.freed_shiftError (y : BinderThread) : y.shiftError.freed = y.freed := by
  unfold shiftError
  split_ifs <;> rfl

theorem BinderThread.asleep_shiftError (y : BinderThread) : y.shiftError.asleep = y.asleep := by
  unfold shiftError
  split_ifs <;> rfl

theorem failSender_grows (e : ReturnError) : Grows K s (failSender s T t e) := by
  unfold failSender
  have h := grows_modThread (K := K) s T BinderThread.proc_shiftError BinderThread.freed_shiftError
    fun hy => Or.inl (BinderThread.asleep_shiftError _ ▸ hy)
  refine Grows.ite (h.trans ?_) (h.trans (grows_note _ (Or.inl rfl)))
  refine Grows.trans ?_ (grows_note _ (Or.inl rfl))
  exact (binderPopTransaction_grows _ t _).trans (grows_modThread _ T (fun _ => rfl) (fun _ => rfl) Or.inl)

theorem failUpwards_grows (e : ReturnError) (k : ℕ) : Grows K s (failUpwards e k s t) := by
  induction k generalizing s t with
  | zero => exact .refl s
  | succ k ih =>
    unfold failUpwards
    split
    · exact failSender_grows s _ t e
    · dsimp only
      split
      · exact binderPopTransaction_grows s t none
      · exact (binderPopTransaction_grows s t none).trans (ih _ _)

theorem binderSendFailedReply_grows (e : ReturnError) :
    Grows K s (binderSendFailedReply s t e) :=
  (grows_bugOn s _ _).trans (failUpwards_grows _ t e _)

theorem releaseItem_grows (w : Work) : Grows K s (releaseItem s w) := by
  cases w with
  | transaction t =>
    exact (grows_bugOn s _ _).trans
      (.ite (binderSendFailedReply_grows _ t _) (freeTransaction_grows _ t))
  | transactionComplete t => exact .refl s
  | node n => exact .refl s
  | death d =>
    rw [releaseItem]
    split
    · exact grows_modObj s _
    · exact grows_modObj s _
    · exact .refl s

theorem releaseWorkLoop_grows (l : ListHead) (k : ℕ) : Grows K s (releaseWorkLoop l k s) := by
  induction k generalizing s with
  | zero => exact .refl s
  | succ k ih =>
    unfold releaseWorkLoop
    split
    · exact .refl s
    · exact ((grows_modObj s _).trans (releaseItem_grows _ _)).trans (ih _)

theorem binderReleaseWork_grows (l : ListHead) : Grows K s (binderReleaseWork s l) :=
  releaseWorkLoop_grows s l _

theorem leaveTransactions_grows (k : ℕ) (o : Option ℕ) : Grows K s (leaveTransactions T k s o) := by
  induction k generalizing s o with
  | zero => cases o <;> exact .refl s
  | succ k ih =>
    cases o with
    | none => exact .refl s
    | some t =>
      unfold leaveTransactions
      refine Grows.ite ?_ (.ite ?_ (grows_bugOn s _ _))
      · refine Grows.trans ?_ (ih _ _)
        refine Grows.trans (forgetTransaction_grows s (s.txn.get t).buffer) ?_
        exact grows_modTxn _ t (fun _ _ h => h) fun _ => rfl
      · refine Grows.trans ?_ (ih _ _)
        exact grows_modTxn s t (fun _ _ h => by cases h) fun _ => rfl

theorem binderFreeThread_grows (hK : K.exits T) : Grows K s (binderFreeThread s T) := by
  unfold binderFreeThread
  refine Grows.trans ?_ (grows_exit _ T hK)
  refine Grows.trans ?_ (binderReleaseWork_grows _ _)
  have h : Grows K s (leaveTransactions T s.txn.next
      (s.modProc (s.thread.get T).proc fun p => { p with threads := p.threads.erase T })
      (s.thread.get T).transactionStack) := by
    refine Grows.trans ?_ (leaveTransactions_grows _ T _ _)
    exact grows_unlist s _ T hK
  split
  · exact h.trans (binderSendFailedReply_grows _ _ _)
  · exact h

theorem releaseNode_grows (n : ℕ) : Grows K s (releaseNode p s n) := by
  unfold releaseNode binderNodeRelease
  refine Grows.trans ?_ (grows_modObj _ _)
  refine Grows.trans ?_ (binderReleaseWork_grows _ _)
  refine Grows.trans ?_ (grows_modObj _ _)
  exact (grows_modObj s _).trans (grows_note _ (Or.inl rfl))

theorem detach_grows (b : ℕ × ℕ) : Grows K s ((s.modTxn t fun x => { x with buffer := none }).modBuffer b
    fun b => { b with transaction := none }) := by
  refine Grows.trans ?_ (grows_modBuffer _ b _)
  exact grows_modTxn s t (fun _ _ h => h) fun _ => rfl

theorem releaseBuffer_grows (env : ℕ → PageEnv) (a : ℕ) :
    Grows K s (releaseBuffer L rb env p s a) := by
  unfold releaseBuffer
  refine Grows.trans ?_ (grows_freeBuf _ L rb p a (env a))
  split
  · exact detach_grows s _ _
  · exact .refl s

theorem grows_released (hK : K.frees p) :
    Grows K s (s.modProc p fun x => { x with released := true }) := by
  have hkeep : ∀ {β : Type} (g : BinderProc → β), (∀ x b, g { x with released := b } = g x) →
      ∀ q, g ((s.modProc p fun x => { x with released := true }).proc.get q) = g (s.proc.get q) :=
    fun g hg q => s.proc.apply_get_modify p q (fun x => { x with released := true }) g
      fun x => hg x true
  exact { Grows.refl s with
    pid := hkeep (·.pid) fun _ _ => rfl
    threads := fun q => by rw [hkeep (·.threads) fun _ _ => rfl]
    listed := fun q T hT => Or.inr (by rwa [hkeep (·.threads) fun _ _ => rfl])
    life := fun q => Or.inr (by
      rw [hkeep (·.closed) fun _ _ => rfl, hkeep (·.deferred) fun _ _ => rfl,
        hkeep (·.area) fun _ _ => rfl]
      exact ⟨rfl, id, id⟩)
    bare := fun q => Or.inr (by
      rw [hkeep (·.area) fun _ _ => rfl]
      exact And.left)
    released := fun q hr => by
      simp only [Driver.modProc, Heap.get_modify] at hr
      split_ifs at hr with hq
      · exact Or.inr (hq ▸ hK)
      · exact Or.inl hr
    stays := fun q hr => by
      simp only [Driver.modProc, Heap.get_modify]
      split_ifs
      · rfl
      · exact hr }

theorem binderDeferredRelease_grows (env : ℕ → PageEnv)
    (hK : ∀ T ∈ (s.proc.get p).threads, K.exits T) (hF : K.frees p) :
    Grows K s (binderDeferredRelease L rb env s p) := by
  unfold binderDeferredRelease
  refine Grows.trans ?_ (grows_released _ p hF)
  refine Grows.trans ?_ (.foldl (fun s a _ => releaseBuffer_grows L rb s p env a) _)
  refine Grows.trans ?_ (binderReleaseWork_grows _ _)
  refine Grows.trans ?_ (binderReleaseWork_grows _ _)
  refine Grows.trans ?_ (grows_modObj _ _)
  refine Grows.trans ?_ (.foldl (fun s n _ => releaseNode_grows s p n) _)
  refine Grows.trans ?_ (.foldl (fun s T hT => binderFreeThread_grows s T (hK T hT)) _)
  refine Grows.trans ?_ (grows_modObj _ _)
  exact (grows_bugOn s _ _).trans (grows_bugOn _ _ _)

/-- `binder_deferred_func` up to the release. -/
def beforeRelease (s : Driver) (p : ℕ) : Driver :=
  let defer := (s.proc.get p).deferred
  let s := s.modProc p fun x => { x with deferred := {} }
  let s := if defer.putFiles then
      s.modObj fun o => o.modOwn p fun w => { w with files := false }
    else s
  if defer.flush then binderDeferredFlush s p else s

theorem binderDeferredFunc_eq (env : ℕ → PageEnv) : binderDeferredFunc L rb env s p =
    if (s.proc.get p).deferred.release then binderDeferredRelease L rb env (beforeRelease s p) p
    else beforeRelease s p := rfl

theorem beforeRelease_grows : Grows K s (beforeRelease s p) := by
  have hflush : ∀ s : Driver, Grows K s (binderDeferredFlush s p) := fun s => by
    refine Grows.foldl (fun s T _ => ?_) s
    exact grows_modThread s T (fun _ => rfl) (fun _ => rfl) Or.inl
  unfold beforeRelease
  refine Grows.trans ?_ (.ite (hflush _) (.refl _))
  refine Grows.trans ?_ (.ite (grows_modObj _ _) (.refl _))
  exact grows_modProc s p ⟨rfl, rfl, rfl, by simp, id, And.left, rfl⟩

theorem binderDeferredFunc_grows (env : ℕ → PageEnv)
    (hK : (s.proc.get p).deferred.release = true → ∀ T ∈ (s.proc.get p).threads, K.exits T)
    (hF : (s.proc.get p).deferred.release = true → K.frees p) :
    Grows K s (binderDeferredFunc L rb env s p) := by
  have hbefore : Grows K s (beforeRelease s p) := beforeRelease_grows s p
  rw [binderDeferredFunc_eq]
  split
  · rename_i hrel
    refine hbefore.trans (binderDeferredRelease_grows L rb _ p env (fun T hT => ?_) (hF hrel))
    exact hK hrel T ((hbefore.threads p).subset hT)
  · exact hbefore

theorem failTransaction_grows (f : Failure) : Grows K s (failTransaction s T f) := by
  unfold failTransaction
  refine Grows.trans (grows_bugOn s (decide ((s.thread.get T).returnError ≠ .ok)) .returnErrorSet) ?_
  dsimp only
  split
  · refine Grows.trans ?_ (binderSendFailedReply_grows _ _ _)
    exact grows_modThread _ T (fun _ => rfl) (fun _ => rfl) Or.inl
  · exact grows_modThread _ T (fun _ => rfl) (fun _ => rfl) Or.inl

theorem replyTarget_grows : Grows K s (replyTarget s T).1 := by
  unfold replyTarget
  split
  · exact .refl s
  · dsimp only
    split_ifs
    · exact .refl s
    · have h := grows_modThread (K := K) s T (f := fun y => { y with
        transactionStack := (s.txn.get ‹ℕ›).toParent }) (fun _ => rfl) (fun _ => rfl) Or.inl
      split
      · exact h
      · split_ifs
        · exact h.trans (grows_note _ (Or.inl rfl))
        · exact h

theorem queueTransaction_grows (target : Target) : Grows K s (queueTransaction s T t target) := by
  unfold queueTransaction
  dsimp only
  refine Grows.trans ?_ (grows_modObj _ _)
  split
  · dsimp only
    refine Grows.trans ?_ (grows_note _ (Or.inl rfl))
    exact (grows_bugOn s _ _).trans (binderPopTransaction_grows _ _ _)
  · split_ifs
    · dsimp only
      refine Grows.trans ?_ (grows_note _ (Or.inl rfl))
      refine Grows.trans ?_ (grows_modThread _ T (fun _ => rfl) (fun _ => rfl) Or.inl)
      exact (grows_bugOn s _ _).trans (grows_modTxn _ t (fun _ _ h => h) fun _ => rfl)
    · have h := (grows_bugOn (K := K) s (target.node.isNone) .targetNode).trans
        (grows_bugOn _ (!(s.bufferOf t).any (·.asyncTransaction)) .asyncBuffer)
      split
      · exact h
      · split_ifs
        · exact h
        · dsimp only
          exact h.trans (grows_modObj _ _)

theorem grows_allocTxn (x : BinderTransaction) (hx : ∀ S, x.fromThread = some S → K.sends S) :
    Grows K s { s with txn := s.txn.alloc x } :=
  { Grows.refl (K := K) s with
    txnNext := Nat.le_succ _
    sender := fun t ht S hS => by
      have hne : t ≠ s.txn.next := ht.elim (·.ne) (Nat.lt_of_succ_le · |>.ne')
      rwa [s.txn.get_alloc_ne t _ hne] at hS
    fresh := fun t ht hn S hS => by
      obtain rfl : t = s.txn.next := le_antisymm (Nat.lt_succ_iff.1 ht) hn
      rw [s.txn.get_alloc_self] at hS
      exact hx S hS
    flags := fun t ht => by rw [s.txn.get_alloc_ne t _ ht.ne] }

theorem placeBuffer_grows (tr : TransactionData) (target : Target) {area : BinderArea} (a : ℕ)
    (hv : area.vma = true → (s.proc.get target.proc).area.vma = true)
    (hb : (s.proc.get target.proc).area.buffers = [] ∧ (s.proc.get target.proc).area.vma = false →
      area.buffers = []) :
    Grows K s (placeBuffer s tr target t area a) := by
  unfold placeBuffer
  refine Grows.trans ?_ (grows_modObj _ _)
  refine Grows.trans ?_ (grows_modBuffer _ _ _)
  refine Grows.trans ?_ (grows_modTxn _ _ (fun _ _ h => h) fun _ => rfl)
  exact grows_modProc _ _ ⟨rfl, rfl, rfl, id, hv, hb, rfl⟩

theorem undoBuffer_grows (env : TransactionEnv) (target : Target) (a : ℕ) (b : BinderBuffer)
    (k : ℕ) : Grows K s (undoBuffer L rb s T t env target a b k) := by
  unfold undoBuffer
  refine Grows.trans ?_ (failTransaction_grows _ T _)
  refine Grows.trans ?_ (grows_modTxn _ _ (fun _ _ h => h) fun _ => rfl)
  refine Grows.trans ?_ (grows_freeBuf _ L rb _ a env.free)
  exact (grows_modObj s _).trans (grows_modBuffer _ _ _)

theorem deliverBuffer_grows (tr : TransactionData) (env : TransactionEnv) (target : Target) (a : ℕ)
    (b : BinderBuffer) : Grows K s (deliverBuffer L rb s T t tr env target a b) := by
  unfold deliverBuffer
  dsimp only
  split
  · refine Grows.trans ?_ (queueTransaction_grows _ T t target)
    exact (grows_modObj s _).trans (grows_modBuffer _ _ _)
  · refine Grows.trans ?_ (undoBuffer_grows L rb _ T t env target a _ _)
    exact (grows_modObj s _).trans (grows_modBuffer _ _ _)

theorem sendTransaction_grows (hN : K.sends T) (tr : TransactionData) (env : TransactionEnv) (target : Target) :
    Grows K s (sendTransaction L rb s T tr env target) := by
  rw [sendTransaction_eq]
  refine Grows.ite (failTransaction_grows s T _) ?_
  refine Grows.trans (grows_allocTxn s (newTransaction T tr target) fun S hS => ?_) ?_
  · simp only [newTransaction] at hS
    split_ifs at hS
    exact Option.some.inj hS ▸ hN
  dsimp only
  split
  · refine Grows.trans ?_ (failTransaction_grows _ T _)
    refine Grows.trans ?_ (grows_modTxn _ _ (fun _ _ h => h) fun _ => rfl)
    exact grows_modProc _ _ ⟨rfl, rfl, rfl, id, binderAllocBuf_vma, binderAllocBuf_bare, rfl⟩
  · split
    · exact placeBuffer_grows _ _ _ _ _ binderAllocBuf_vma binderAllocBuf_bare
    · exact (placeBuffer_grows _ _ _ _ _ binderAllocBuf_vma binderAllocBuf_bare).trans
        (deliverBuffer_grows L rb _ _ _ _ _ _ _ _)

theorem binderTransaction_grows (hN : K.sends T) (tr : TransactionData) (reply : Bool) (env : TransactionEnv) :
    Grows K s (binderTransaction L rb s T tr reply env) := by
  have h : Grows K s (if reply then replyTarget s T else (s, callTarget s T tr)).1 := by
    cases reply
    · exact .refl s
    · exact replyTarget_grows s T
  unfold binderTransaction
  split
  · rename_i he
    rw [he] at h
    exact h.trans (failTransaction_grows _ T _)
  · rename_i he
    rw [he] at h
    exact h.trans (sendTransaction_grows L rb _ T hN tr env _)

theorem freeBuffer_grows (a : ℕ) (env : PageEnv) : Grows K s (freeBuffer L rb s T a env) := by
  unfold freeBuffer
  dsimp only
  split
  · exact .refl s
  · refine Grows.ite (.refl s) ?_
    refine Grows.trans ?_ (grows_freeBuf _ L rb _ a env)
    refine Grows.trans ?_ (grows_modObj _ _)
    refine Grows.trans ?_ (.ite (grows_modObj _ _) (.refl _))
    unfold detachBuffer
    split
    · exact detach_grows s _ _
    · exact .refl s

theorem requestDeathNotification_grows (target cookie : ℕ) (kzalloc : Bool) :
    Grows K s (requestDeathNotification s T target cookie kzalloc) := by
  unfold requestDeathNotification
  dsimp only
  split
  · exact .refl s
  · refine Grows.ite (.refl s) (.ite (grows_modThread s T (fun _ => rfl) (fun _ => rfl) Or.inl) ?_)
    refine Grows.trans ?_ (.ite (grows_modObj _ _) (.refl _))
    exact (grows_modObj s _).trans (grows_note _ (Or.inl rfl))

theorem clearDeathNotification_grows (target cookie : ℕ) :
    Grows K s (clearDeathNotification s T target cookie) := by
  unfold clearDeathNotification
  dsimp only
  split
  · exact .refl s
  · split
    · exact .refl s
    · refine Grows.ite (.refl s) ?_
      refine Grows.trans ?_ (.ite ((grows_bugOn _ _ _).trans (grows_modObj _ _)) (grows_modObj _ _))
      exact (grows_modObj s _).trans (grows_note _ (Or.inl rfl))

theorem deadBinderDone_grows (cookie : ℕ) : Grows K s (deadBinderDone s T cookie) := by
  unfold deadBinderDone
  dsimp only
  split
  · exact .refl s
  · refine Grows.trans ?_ (.ite (grows_modObj _ _) (.refl _))
    exact (grows_modObj s _).trans (grows_note _ (Or.inl rfl))

theorem registerLooper_grows : Grows K s (registerLooper s T) := by
  unfold registerLooper
  refine Grows.trans ?_ (grows_modThread _ T (fun _ => rfl) (fun _ => rfl) Or.inl)
  refine Grows.ite (grows_modThread s T (fun _ => rfl) (fun _ => rfl) Or.inl) ?_
  exact .ite (grows_modThread s T (fun _ => rfl) (fun _ => rfl) Or.inl) (grows_modProc s _ ⟨rfl, rfl, rfl, id, id, And.left, rfl⟩)

theorem writeCommand_grows (hN : K.sends T) (env : CommandEnv) (c : Command) :
    Grows K s (writeCommand L rb s T env c) := by
  refine Grows.ite ?_ (.refl s)
  cases c with
  | ref c target => exact grows_modObj s fun o => refCommand o _ c target env.kzalloc
  | refDone strong ptr cookie => exact grows_modObj s fun o => refDone o _ strong ptr cookie
  | freeBuffer a => exact freeBuffer_grows L rb s T a env.free
  | transaction tr => exact binderTransaction_grows L rb s T hN tr false env.transaction
  | reply tr => exact binderTransaction_grows L rb s T hN tr true env.transaction
  | registerLooper => exact registerLooper_grows s T
  | enterLooper => exact grows_modThread s T (fun _ => rfl) (fun _ => rfl) Or.inl
  | exitLooper => exact grows_modThread s T (fun _ => rfl) (fun _ => rfl) Or.inl
  | requestDeathNotification target cookie =>
    exact requestDeathNotification_grows s T target cookie env.kzalloc
  | clearDeathNotification target cookie => exact clearDeathNotification_grows s T target cookie
  | deadBinderDone cookie => exact deadBinderDone_grows s T cookie

/-! Reading -/

variable (fault : ℕ → Bool)

theorem readDone_grows (ptr : ℕ) : Grows K s (readDone s T ptr fault) := by
  unfold readDone
  dsimp only
  have h : Grows K s (s.modProc (s.thread.get T).proc fun p =>
      { p with requestedThreads := p.requestedThreads + 1 }) := grows_modProc s _ ⟨rfl, rfl, rfl, id, id, And.left, rfl⟩
  refine Grows.ite (.ite h ?_) (grows_note s (Or.inl rfl))
  exact (h.trans (grows_note _ (Or.inl rfl))).trans (grows_note _ (Or.inl rfl))

theorem reportErrors_grows (size ptr : ℕ) : Grows K s (reportErrors s T size ptr fault) := by
  have hreport : ∀ (s : Driver) (e : ReturnError) (ptr : ℕ), Grows K s
      (if fault ptr then s
        else readDone ((s.note (.br T (.returnError e))).modThread T fun y =>
          { y with returnError := .ok }) T (ptr + 4) fault) := fun s e ptr => by
    refine Grows.ite (.refl s) ?_
    refine Grows.trans ?_ (readDone_grows _ T fault _)
    refine Grows.trans ?_ (grows_modThread _ T (fun _ => rfl) (fun _ => rfl) Or.inl)
    exact grows_note s (Or.inl rfl)
  unfold reportErrors
  refine Grows.ite (hreport _ _ _) (.ite (.refl s) ?_)
  refine Grows.trans (grows_note s (e := .br T (.returnError (s.thread.get T).returnError2))
    (Or.inl rfl)) ?_
  refine Grows.ite (readDone_grows _ T fault _) ?_
  refine Grows.trans ?_ (hreport _ _ _)
  exact grows_modThread _ T (fun _ => rfl) (fun _ => rfl) Or.inl

theorem waitForWork_grows (hW : K.waits T) (size ptr : ℕ) (nonBlock : Bool) :
    Grows K s (waitForWork s T size ptr nonBlock fault) := by
  unfold waitForWork
  refine Grows.ite (reportErrors_grows s T fault size ptr) ?_
  refine Grows.trans ?_ (grows_modThread _ T (fun _ => rfl) (fun _ => rfl) fun _ => Or.inr hW)
  exact .ite (grows_modProc s _ ⟨rfl, rfl, rfl, id, id, And.left, rfl⟩) (.refl s)

theorem stopWaiting_grows (f : ReadFrame) : Grows K s (stopWaiting s T f) := by
  unfold stopWaiting
  refine Grows.trans ?_ (grows_modThread _ T (fun _ => rfl) (fun _ => rfl) fun h => absurd rfl h)
  exact .ite (grows_modProc s _ ⟨rfl, rfl, rfl, id, id, And.left, rfl⟩) (.refl s)

/-- The process id that a reader of `t` is told. -/
def Driver.senderPid (s : Driver) (t : ℕ) : ℕ :=
  (s.txn.get t).fromThread.elim 0 fun S => (s.proc.get (s.thread.get S).proc).pid

/-- The event is a delivery that tells this process id. -/
def TellsSender (s : Driver) (e : Event) : Prop :=
  ∃ T t, e = .br T (.transaction t (s.senderPid t))

theorem readTransaction_grows (hK : ∀ e, TellsSender s e → K.tells e) (ptr : ℕ) :
    Grows K s (readTransaction s T t ptr fault).1 := by
  unfold readTransaction
  dsimp only
  have h0 := grows_bugOn (K := K) s (s.bufferOf t).isNone .noBuffer
  generalize hs₀ : s.bugOn (s.bufferOf t).isNone .noBuffer = s₀ at h0 ⊢
  have hpid : (s₀.txn.get t).fromThread.elim 0 (fun S => (s₀.proc.get (s₀.thread.get S).proc).pid) =
      s.senderPid t := by rw [← hs₀]; rfl
  rw [hpid]
  generalize (s₀.bufferOf t).any (·.targetNode.isSome) = call
  split
  · exact h0
  · dsimp only
    have h1 := h0.trans (grows_note s₀ (K := K)
      (e := .br T (if call then .transaction t (s.senderPid t) else .reply t))
      (by cases call; exacts [Or.inl rfl, Or.inr (hK _ ⟨T, t, rfl⟩)]))
    have h2 := h1.trans (grows_modObj _ fun o => { o with todo := o.todo.del (.transaction t) })
    have h3 : ∀ s' : Driver, Grows K s' ((s₀.txn.get t).buffer.elim s' fun b =>
        s'.modBuffer b fun b => { b with allowUserFree := true }) := fun s' => by
      cases (s₀.txn.get t).buffer with
      | none => exact .refl s'
      | some b => exact grows_modBuffer s' b _
    refine Grows.trans (h2.trans (h3 _)) (.ite ?_ (freeTransaction_grows _ t))
    refine Grows.trans ?_ (grows_modThread _ T (fun _ => rfl) (fun _ => rfl) Or.inl)
    exact grows_modTxn _ t (fun _ _ h => h) fun _ => rfl

theorem readNode_grows (n ptr : ℕ) : Grows K s (readNode s T n ptr fault).1 := by
  unfold readNode
  split
  · rename_i cmd x hc
    have hd : (Event.br T cmd).isDelivery = false := by
      unfold nodeCommand at hc
      dsimp only at hc
      split_ifs at hc <;> (cases hc; rfl)
    dsimp only
    have h : Grows K s (s.modObj fun o => o.modNode n fun _ => x) := grows_modObj s _
    split_ifs
    · exact h
    · exact h.trans (grows_note _ (Or.inl hd))
  · exact grows_modObj s fun o => settleNode o _ n

theorem readDeath_grows (d ptr : ℕ) : Grows K s (readDeath s T d ptr fault).1 := by
  unfold readDeath
  split
  · exact .refl s
  · have hnote : ∀ (f : Objects → Objects) (cmd : Br), (Event.br T cmd).isDelivery = false →
        Grows K s ((s.note (.br T cmd)).modObj f) := fun f cmd hd =>
      (grows_note s (Or.inl hd)).trans (grows_modObj _ f)
    split_ifs
    · exact .refl s
    · exact hnote (fun o => freeDeath o d) _ rfl
    · exact hnote (fun o => { o with
        todo := o.todo.moveHead (.deliveredDeath (s.thread.get T).proc) (.death d) }) _ rfl

/-- What comes before a transaction in a read leaves the transactions alone. -/
theorem readItem_next {w : Work} {ptr : ℕ} {s' : Driver} {n : ℕ}
    (h : readItem s T ptr fault w = (s', .next n)) :
    Grows K s s' ∧ s'.txn = s.txn ∧ s'.thread = s.thread ∧ s'.proc = s.proc := by
  cases w with
  | transaction t =>
    simp only [readItem, readTransaction] at h
    split_ifs at h <;> cases h
  | transactionComplete t =>
    simp only [readItem] at h
    split_ifs at h
    · cases h
    · cases h
      exact ⟨(grows_note s (Or.inl rfl)).trans (grows_modObj _ _), rfl, rfl, rfl⟩
  | node n =>
    have hg := readNode_grows (K := K) s T fault n ptr
    simp only [readItem] at h
    rw [h] at hg
    refine ⟨hg, ?_⟩
    unfold readNode at h
    split at h
    · dsimp only at h
      split_ifs at h
      · cases h
      · cases h
        exact ⟨rfl, rfl, rfl⟩
    · cases h
      exact ⟨rfl, rfl, rfl⟩
  | death d =>
    have hg := readDeath_grows (K := K) s T fault d ptr
    simp only [readItem] at h
    rw [h] at hg
    refine ⟨hg, ?_⟩
    unfold readDeath at h
    split at h
    · cases h
      exact ⟨rfl, rfl, rfl⟩
    · split_ifs at h
      · cases h
      · cases h
        exact ⟨rfl, rfl, rfl⟩
      · cases h

theorem readItem_grows (hK : ∀ e, TellsSender s e → K.tells e) (w : Work) (ptr : ℕ) :
    Grows K s (readItem s T ptr fault w).1 := by
  cases w with
  | transaction t => exact readTransaction_grows s T t fault hK ptr
  | transactionComplete t =>
    have h : Grows K s (readComplete s T t) :=
      (grows_note s (Or.inl rfl)).trans (grows_modObj _ _)
    simp only [readItem]
    split_ifs
    · exact .refl s
    · exact h
  | node n => exact readNode_grows s T fault n ptr
  | death d => exact readDeath_grows s T fault d ptr

theorem readLoop_grows (hK : ∀ e, TellsSender s e → K.tells e) (hW : K.waits T) (f : ReadFrame)
    (k ptr : ℕ) :
    Grows K s (readLoop L T f fault k s ptr) := by
  induction k generalizing s ptr with
  | zero => exact .refl s
  | succ k ih =>
    unfold readLoop
    split
    · exact .ite (waitForWork_grows s T fault hW _ _ _) (readDone_grows s T fault _)
    · rename_i w _
      refine Grows.ite (readDone_grows s T fault _) ?_
      have hitem := readItem_grows s T fault hK w ptr
      split
      · rename_i s' n he
        obtain ⟨hg, h1, h2, h3⟩ := readItem_next (K := K) s T fault he
        have hsame : TellsSender s' = TellsSender s := by
          funext e
          simp only [TellsSender, Driver.senderPid, h1, h2, h3]
        exact hg.trans (ih s' (hsame ▸ hK) n)
      · rename_i he
        rwa [he] at hitem
      · rename_i he
        rw [he] at hitem
        exact hitem.trans (readDone_grows _ T fault _)

theorem resumeRead_grows (hK : ∀ e, TellsSender s e → K.tells e) (hW : K.waits T) : Grows K s (resumeRead L s T fault) := by
  unfold resumeRead
  split
  · exact .refl s
  · rename_i f _
    split
    · exact .refl s
    · exact stopWaiting_grows s T f
    · have h := stopWaiting_grows (K := K) s T f
      have hsame : TellsSender (stopWaiting s T f) = TellsSender s := by
        funext e
        have hth : ∀ S, ((stopWaiting s T f).thread.get S).proc = (s.thread.get S).proc := fun S => by
          unfold stopWaiting
          split_ifs <;> exact s.thread.apply_get_modify T S (fun y => { y with asleep := none })
            (·.proc) fun _ => rfl
        have hpid : ∀ p, ((stopWaiting s T f).proc.get p).pid = (s.proc.get p).pid := fun p => by
          unfold stopWaiting
          split_ifs
          · exact s.proc.apply_get_modify (s.thread.get T).proc p
              (fun p => { p with readyThreads := p.readyThreads - 1 }) (·.pid) fun _ => rfl
          · rfl
        have htxn : (stopWaiting s T f).txn = s.txn := by
          unfold stopWaiting
          split_ifs <;> rfl
        simp only [TellsSender, Driver.senderPid, hth, hpid, htxn]
      exact h.trans (readLoop_grows L _ T fault (hsame ▸ hK) hW f _ _)

/-! Every step -/

theorem Driver.ready_spec {s : Driver} {T : ℕ} (h : s.ready T = true) :
    T < s.thread.next ∧ (s.thread.get T).freed = 0 ∧ (s.thread.get T).asleep = none ∧
      (s.thread.get T).proc < s.proc.next ∧ (s.proc.get (s.thread.get T).proc).closed = false := by
  simpa [Driver.ready, Driver.isOpen, and_assoc] using h

/-- The thread that executes commands. -/
def Action.writer : Action → Option ℕ
  | write T _ _ => some T
  | _ => none

/-- The thread that reads. -/
def Action.reader : Action → Option ℕ
  | read T _ _ _ _ | resume T _ => some T
  | _ => none

/-- The thread whose exit is asked for. -/
def Action.leaver : Action → Option ℕ
  | threadExit T => some T
  | _ => none

/-- The process whose mapping or file changes. -/
def Action.maps : Action → Option ℕ
  | mmap p _ _ _ | vmaClose p | close p => some p
  | _ => none

/-- The process with work that was put off. -/
def Action.defers : Action → Option ℕ
  | deferredFunc p _ => some p
  | _ => none

/-- What one step may do. -/
def Action.scope (s : Driver) (a : Action) : Scope where
  tells := TellsSender s
  sends T := a.writer = some T
  exits T := a.leaver = some T ∨ ∃ p, a.defers = some p ∧ (s.proc.get p).deferred.release = true ∧
    T ∈ (s.proc.get p).threads
  waits T := a.reader = some T
  opens p := a.maps = some p
  frees p := a.defers = some p ∧ (s.proc.get p).deferred.release = true

/-- The actions that make processes and threads. -/
def Action.creates : Action → Bool
  | openProc _ | getThread _ _ => true
  | _ => false

theorem apply_grows (a : Action) (ha : a.creates = false) :
    Grows (a.scope s) s (a.apply L rb s) := by
  cases a with
  | openProc pid => cases ha
  | getThread p pid => cases ha
  | mmap p base size env =>
    unfold Action.apply driverMmap
    dsimp only
    split_ifs
    · exact .refl s
    · split
      · exact .refl s
      · refine Grows.trans ?_ (grows_modObj _ _)
        exact grows_opens s p (fun _ => rfl) (fun _ => rfl) (fun _ => rfl) rfl
  | vmaClose p => exact grows_opens s p (fun _ => rfl) (fun _ => rfl) (fun _ => rfl) rfl
  | flush p => exact grows_modProc s p ⟨rfl, rfl, rfl, id, id, And.left, rfl⟩
  | close p => exact grows_opens s p (fun _ => rfl) (fun _ => rfl) (fun _ => rfl) rfl
  | deferredFunc p env =>
    exact binderDeferredFunc_grows L rb s p env (fun hr T hT => Or.inr ⟨p, rfl, hr, hT⟩)
      fun hr => ⟨rfl, hr⟩
  | write T c env => exact writeCommand_grows L rb s T rfl env c
  | read T size consumed nonBlock fault =>
    unfold Action.apply binderThreadRead
    dsimp only
    split_ifs
    · exact .refl s
    · exact waitForWork_grows s T fault rfl _ _ _
    · exact waitForWork_grows s T fault rfl _ _ _
  | lookForWork T =>
    unfold Action.apply Binder.lookForWork
    dsimp only
    split
    · exact .refl s
    · split_ifs
      · exact .refl s
      · rename_i hf _ _
        exact grows_modThread s T (fun _ => rfl) (fun _ => rfl) fun _ => Or.inl (by simp [hf])
      · exact .refl s
  | resume T fault => exact resumeRead_grows L s T fault (fun _ h => h) rfl
  | interrupt T =>
    unfold Action.apply interruptRead
    dsimp only
    split
    · exact .refl s
    · exact .ite (.refl s) (stopWaiting_grows s T _)
  | ioctlDone T => exact grows_modThread s T (fun _ => rfl) (fun _ => rfl) Or.inl
  | setMaxThreads T n => exact grows_modProc s _ ⟨rfl, rfl, rfl, id, id, And.left, rfl⟩
  | setContextMgr T euid kzalloc =>
    unfold Action.apply setCtxMgr
    dsimp only
    split_ifs
    · exact .refl s
    · refine Grows.trans ?_ (grows_modObj _ _)
      exact { Grows.refl s with }
  | threadExit T => exact binderFreeThread_grows s T (Or.inl rfl)

theorem step_grows (a : Action) (ha : a.creates = false) :
    Grows (a.scope s) s ((driverMachine L rb).step s a) :=
  .ite (apply_grows L rb s a ha) (.refl s)

end

end Binder
