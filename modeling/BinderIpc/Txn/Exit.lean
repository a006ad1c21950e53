import BinderIpc.Txn.Release
import BinderIpc.Driver.Threads

/-! The exit of a thread: `binder_free_thread` takes the thread out of all its calls,
answers the one that it was working on, and throws its work away. -/

namespace Binder

variable {L : Layout} {gone : ℕ → Bool} {loose : Option ℕ} {s s' : Driver} {t T : ℕ}
  {l : ListHead}

/-- One turn of the loop of `binder_free_thread`. -/
def leaveCall (T : ℕ) (s : Driver) (t : ℕ) : Driver :=
  if (s.txn.get t).toThread = some T then
    (forgetTransaction s (s.txn.get t).buffer).modTxn t fun x =>
      { x with toProc := none, toThread := none, buffer := none }
  else s.modTxn t fun x => { x with fromThread := none }

/-- What it makes of the call. -/
def BinderTransaction.leave (T : ℕ) (x : BinderTransaction) : BinderTransaction :=
  if x.toThread = some T then { x with toProc := none, toThread := none, buffer := none }
  else { x with fromThread := none }

theorem leaveCall_get (u : ℕ) : (leaveCall T s t).txn.get u =
    if u = t then (s.txn.get t).leave T else s.txn.get u := by
  unfold leaveCall BinderTransaction.leave
  split_ifs <;> simp_all [Driver.modTxn, Heap.get_modify]

theorem leaveCall_next : (leaveCall T s t).txn.next = s.txn.next := by
  unfold leaveCall
  split_ifs <;> simp [Driver.modTxn]

theorem leaveCall_obj : (leaveCall T s t).obj = s.obj := by
  unfold leaveCall
  split_ifs
  · exact obj_forget _
  · rfl

theorem leaveCall_thread : (leaveCall T s t).thread = s.thread := by
  unfold leaveCall
  split_ifs
  · exact thread_forget _
  · rfl

theorem leaveCall_history : (leaveCall T s t).history = s.history := by
  unfold leaveCall
  split_ifs
  · exact history_forget _
  · rfl

/-- The calls on the way down are left one after the other. -/
theorem leaveTransactions_eq {w : List ℕ} {k : ℕ} {o : Option ℕ}
    (hw : (callsOf gone none s).Walk T o w) (hnd : w.Nodup) (hk : w.length ≤ k) :
    leaveTransactions T k s o = w.foldl (leaveCall T) s := by
  induction w generalizing s k o with
  | nil =>
    cases hw
    cases k <;> rfl
  | cons t w ih =>
    obtain ⟨k, rfl⟩ : ∃ j, k = j + 1 := ⟨k - 1, by simp at hk; omega⟩
    obtain ⟨htw, hnd⟩ := List.nodup_cons.1 hnd
    have hk : w.length ≤ k := by simpa using hk
    have hsame : ∀ u ∈ w, Calls.SameCall (callsOf gone none s) (callsOf gone none (leaveCall T s t)) u :=
      fun u hu => by
        have hut : u ≠ t := fun he => htw (he ▸ hu)
        refine ⟨?_, ?_, ?_, ?_, ?_⟩ <;> simp [callsOf, leaveCall_get, leaveCall_obj, hut]
    cases hw with
    | incoming hd hrest =>
      have hto : (s.txn.get t).toThread = some T := by simpa [callsOf] using hd
      rw [leaveTransactions, if_pos hto, List.foldl_cons, ← ih (hrest.congr hsame) hnd hk]
      simp [leaveCall, hto, callsOf]
    | outgoing hd hs hrest =>
      have hto : (s.txn.get t).toThread ≠ some T := by simpa [callsOf] using hd
      have hfrom : (s.txn.get t).fromThread = some T := hs
      rw [leaveTransactions, if_neg hto, if_pos hfrom, List.foldl_cons,
        ← ih (hrest.congr hsame) hnd hk]
      simp [leaveCall, hto, callsOf]

theorem foldl_leaveCall_get {w : List ℕ} (hnd : w.Nodup) (u : ℕ) :
    (w.foldl (leaveCall T) s).txn.get u =
      if u ∈ w then (s.txn.get u).leave T else s.txn.get u := by
  induction w generalizing s with
  | nil => simp
  | cons t w ih =>
    obtain ⟨htw, hnd⟩ := List.nodup_cons.1 hnd
    rw [List.foldl_cons, ih hnd, leaveCall_get]
    by_cases hut : u = t
    · subst hut
      simp [htw]
    · simp [hut]

/-- What `TxnInv` says besides the chains. -/
structure LinkInv (L : Layout) (s : Driver) : Prop where
  call_live : ∀ t, (s.txn.get t).needReply = true → t < s.txn.next ∧ (s.txn.get t).freed = 0
  placed : ∀ l t, s.queued l t → Placed s l t
  forward : ∀ t b, t < s.txn.next → (s.txn.get t).freed = 0 → (s.txn.get t).buffer = some b →
    ∃ B, s.liveAt b = some B ∧ B.transaction = some t
  back : ∀ b B t, s.liveAt b = some B → B.transaction = some t →
    t < s.txn.next ∧ (s.txn.get t).freed = 0 ∧ (s.txn.get t).buffer = some b
  target : ∀ b B n, s.liveAt b = some B → B.targetNode = some n →
    n < s.obj.node.next ∧ ∀ q, (s.obj.node.get n).proc = some q → q = b.1
  area : ∀ p, AreaOk L (s.proc.get p)
  stack_lt : ∀ T, (s.thread.get T).transactionStack ≠ none → T < s.thread.next
  waits : ∀ T f, (s.thread.get T).asleep = some f → f.waitForProcWork = true →
    (s.thread.get T).transactionStack = none
  unborn : ∀ n, s.obj.node.next ≤ n → (s.obj.node.get n).proc = none

theorem TxnInv.link (h : TxnInv L gone loose s) : LinkInv L s :=
  ⟨h.call_live, h.placed, h.forward, h.back, h.target, h.area, h.stack_lt, h.waits, h.unborn⟩

theorem LinkInv.txnInv (h : LinkInv L s)
    (hf : ∃ F, (callsOf gone loose s).Forest (gone · = true) loose F) : TxnInv L gone loose s :=
  ⟨hf, h.call_live, h.placed, h.forward, h.back, h.target, h.area, h.stack_lt, h.waits, h.unborn⟩

/-- A transaction other than `t` keeps its buffer when `t` forgets its own. -/
theorem LinkInv.other (h : LinkInv L s) {u : ℕ} {b : ℕ × ℕ} (hut : u ≠ t) (hul : u < s.txn.next)
    (huf : (s.txn.get u).freed = 0) (hub : (s.txn.get u).buffer = some b) (htl : t < s.txn.next)
    (htf : (s.txn.get t).freed = 0) : (s.txn.get t).buffer ≠ some b := fun htb => by
  obtain ⟨B, hB, hBt⟩ := h.forward t b htl htf htb
  obtain ⟨B', hB', hBu⟩ := h.forward u b hul huf hub
  rw [hB] at hB'
  cases hB'
  rw [hBt] at hBu
  exact hut (Option.some.inj hBu).symm

/-- The receiver of `t` gives it up, with its buffer. -/
theorem LinkInv.leaveIncoming (h : LinkInv L s) (hcall : (s.txn.get t).needReply = true)
    (hq : ∀ l, ¬s.queued l t) :
    LinkInv L ((forgetTransaction s (s.txn.get t).buffer).modTxn t fun x =>
      { x with toProc := none, toThread := none, buffer := none }) := by
  obtain ⟨htl, htf⟩ := h.call_live t hcall
  set s' := (forgetTransaction s (s.txn.get t).buffer).modTxn t fun x =>
    { x with toProc := none, toThread := none, buffer := none } with hs'
  have hget : ∀ u, s'.txn.get u = if u = t then
      { s.txn.get t with toProc := none, toThread := none, buffer := none } else s.txn.get u :=
    fun u => by simp [hs', Driver.modTxn, Heap.get_modify]
  have hne : ∀ u, u ≠ t → s'.txn.get u = s.txn.get u := fun u hu => by rw [hget, if_neg hu]
  have hself : s'.txn.get t = { s.txn.get t with toProc := none, toThread := none, buffer := none } := by
    rw [hget, if_pos rfl]
  have hnext : s'.txn.next = s.txn.next := by simp [hs', Driver.modTxn]
  have hobj : s'.obj = s.obj := obj_forget _
  have hth : s'.thread = s.thread := thread_forget _
  have hrel : ∀ q, (s'.proc.get q).released = (s.proc.get q).released :=
    proc_forget (·.released) (fun _ _ => rfl) _
  have hclosed : ∀ q, (s'.proc.get q).closed = (s.proc.get q).closed :=
    proc_forget (·.closed) (fun _ _ => rfl) _
  have hlv : ∀ b, s'.liveAt b = if (s.txn.get t).buffer = some b then
      (s.liveAt b).map fun B => { B with transaction := none } else s.liveAt b := liveAt_forget _
  refine ⟨fun u hu => ?_, fun l u hu => ?_, fun u b hul huf hub => ?_, fun b B u hB hBu => ?_,
    fun b B n hB hn => ?_, fun p => areaOk_forget _ h.area p, hth ▸ h.stack_lt, hth ▸ h.waits,
    hobj ▸ h.unborn⟩
  · by_cases hut : u = t
    · subst hut
      rw [hself, hnext]
      exact ⟨htl, htf⟩
    · rw [hne u hut] at hu ⊢
      exact hnext ▸ h.call_live u hu
  · rw [Driver.queued, hobj] at hu
    have hut : u ≠ t := fun he => hq l (he ▸ hu)
    have hp := h.placed l u hu
    refine ⟨hnext ▸ hp.lt, hne u hut ▸ hp.live, ?_, hne u hut ▸ hp.async, hne u hut ▸ hp.list⟩
    rcases hp.buffer with ⟨b, B, hb, hB, hub, hn, hh⟩ | hc
    · refine Or.inl ⟨b, B, hne u hut ▸ hb, ?_, hub, hne u hut ▸ hn, hh.congr hth (by rw [hobj]) hrel⟩
      rw [hlv, if_neg (h.other hut hp.lt hp.live hb htl htf)]
      exact hB
    · exact Or.inr (hc.congr (by rw [hobj]) hclosed)
  · have hut : u ≠ t := by
      rintro rfl
      rw [hself] at hub
      cases hub
    rw [hne u hut] at huf hub
    rw [hlv, if_neg (h.other hut (hnext ▸ hul) huf hub htl htf)]
    exact h.forward u b (hnext ▸ hul) huf hub
  · obtain ⟨B', hB', -, -, hneq, heq⟩ := liveAt_forget_some (o := (s.txn.get t).buffer) hB
    by_cases htb : (s.txn.get t).buffer = some b
    · rw [heq htb] at hBu
      cases hBu
    · obtain ⟨h1, h2, h3⟩ := h.back b B' u hB' (hneq htb ▸ hBu)
      have hut : u ≠ t := fun he => htb (he ▸ h3)
      rw [hne u hut, hnext]
      exact ⟨h1, h2, h3⟩
  · obtain ⟨B', hB', hn', -⟩ := liveAt_forget_some (o := (s.txn.get t).buffer) hB
    rw [hobj]
    exact h.target b B' n hB' (hn' ▸ hn)

/-- The sender of `t` gives it up. -/
theorem LinkInv.leaveOutgoing (h : LinkInv L s) :
    LinkInv L (s.modTxn t fun x => { x with fromThread := none }) := by
  have hkeep : ∀ {β : Type} (g : BinderTransaction → β), (∀ x, g { x with fromThread := none } = g x) →
      ∀ u, g ((s.modTxn t fun x => { x with fromThread := none }).txn.get u) = g (s.txn.get u) :=
    fun g hg u => s.txn.apply_get_modify t u _ g hg
  refine ⟨fun u hu => ?_, fun l u hu => ?_, fun u b hul huf hub => ?_, fun b B u hB hBu => ?_,
    h.target, h.area, h.stack_lt, h.waits, h.unborn⟩
  · rw [hkeep (·.needReply) fun _ => rfl] at hu
    rw [hkeep (·.freed) fun _ => rfl]
    exact h.call_live u hu
  · have hp := h.placed l u hu
    refine ⟨hp.lt, (hkeep (·.freed) (fun _ => rfl) u).trans hp.live, ?_, ?_, ?_⟩
    · rcases hp.buffer with ⟨b, B, hb, hB, hub, hn, hh⟩ | hc
      · refine Or.inl ⟨b, B, (hkeep (·.buffer) (fun _ => rfl) u).trans hb, hB, hub, ?_,
          hh.congr rfl rfl fun _ => rfl⟩
        rw [hkeep (·.flags) fun _ => rfl, hkeep (·.needReply) fun _ => rfl]
        exact hn
      · exact Or.inr (hc.congr rfl fun _ => rfl)
    · rw [hkeep (·.flags) fun _ => rfl]
      exact hp.async
    · rw [hkeep (·.needReply) fun _ => rfl, hkeep (·.toThread) fun _ => rfl]
      exact hp.list
  · rw [hkeep (·.freed) fun _ => rfl] at huf
    rw [hkeep (·.buffer) fun _ => rfl] at hub
    exact h.forward u b hul huf hub
  · rw [hkeep (·.freed) fun _ => rfl, hkeep (·.buffer) fun _ => rfl]
    exact h.back b B u hB hBu

theorem LinkInv.leaveCalls {w : List ℕ} (h : LinkInv L s) (hnd : w.Nodup)
    (hw : ∀ t ∈ w, (s.txn.get t).needReply = true ∧
      ((s.txn.get t).toThread = some T → ∀ l, ¬s.queued l t)) :
    LinkInv L (w.foldl (leaveCall T) s) := by
  induction w generalizing s with
  | nil => exact h
  | cons t w ih =>
    obtain ⟨htw, hnd⟩ := List.nodup_cons.1 hnd
    obtain ⟨hcall, hq⟩ := hw t (by simp)
    have hstep : LinkInv L (leaveCall T s t) := by
      unfold leaveCall
      split
      · rename_i hto
        exact h.leaveIncoming hcall (hq hto)
      · exact h.leaveOutgoing
    refine ih hstep hnd fun u hu => ?_
    have hut : u ≠ t := fun he => htw (he ▸ hu)
    rw [leaveCall_get, if_neg hut]
    refine ⟨(hw u (by simp [hu])).1, fun hto l hl => (hw u (by simp [hu])).2 hto l ?_⟩
    rwa [Driver.queued, leaveCall_obj] at hl

theorem foldl_leaveCall_obj {w : List ℕ} : (w.foldl (leaveCall T) s).obj = s.obj := by
  induction w generalizing s with
  | nil => rfl
  | cons t w ih => exact ih.trans leaveCall_obj

theorem foldl_leaveCall_thread {w : List ℕ} : (w.foldl (leaveCall T) s).thread = s.thread := by
  induction w generalizing s with
  | nil => rfl
  | cons t w ih => exact ih.trans leaveCall_thread

theorem foldl_leaveCall_history {w : List ℕ} : (w.foldl (leaveCall T) s).history = s.history := by
  induction w generalizing s with
  | nil => rfl
  | cons t w ih => exact ih.trans leaveCall_history

theorem foldl_leaveCall_next {w : List ℕ} : (w.foldl (leaveCall T) s).txn.next = s.txn.next := by
  induction w generalizing s with
  | nil => rfl
  | cons t w ih => exact ih.trans leaveCall_next

/-- The thread is gone, and the others. -/
def orGone (T : ℕ) (gone : ℕ → Bool) : ℕ → Bool := fun S => decide (S = T) || gone S

theorem orGone_false {S : ℕ} : orGone T gone S = false ↔ S ≠ T ∧ gone S = false := by
  simp [orGone]

/-- `w` lists the calls that `T` made, and those that it works on. -/
structure Parts (gone : ℕ → Bool) (s : Driver) (T : ℕ) (w : List ℕ) : Prop where
  nodup : w.Nodup
  /-- no call that `T` made is given to `T` -/
  self : ∀ u, (s.txn.get u).needReply = true → (s.txn.get u).fromThread = some T →
    (s.txn.get u).toThread ≠ some T
  inside : ∀ u ∈ w, (s.txn.get u).needReply = true ∧ ((s.txn.get u).fromThread = some T ∨
    ((∀ l, ¬s.queued l u) ∧ (s.txn.get u).toThread = some T))
  outside : ∀ u, (s.txn.get u).needReply = true → u ∉ w → (s.txn.get u).fromThread ≠ some T ∧
    ((callsOf gone none s).queued u = false → (s.txn.get u).toThread ≠ some T)

theorem Parts.of_walk {w : List ℕ} {F : Set (List ℕ)}
    (hF : (callsOf gone none s).Forest (gone · = true) none F) (hnd : w.Nodup)
    (hmem : ∀ t, t ∈ w ↔ (callsOf gone none s).call t ∧ (callsOf gone none s).involves T t = true) :
    Parts gone s T w where
  nodup := hnd
  self u hu hsrc hto := hF.src_ne_dst hu hsrc (by simpa [callsOf] using hto)
  inside u hu := by
    obtain ⟨h1, h2⟩ := (hmem u).1 hu
    refine ⟨h1, (Calls.involves_iff.1 h2).imp_right fun h3 => ⟨callsOf_unqueued.1 h3.1, ?_⟩⟩
    simpa [callsOf] using h3.2
  outside u hu huw := by
    have h1 : (callsOf gone none s).involves T u = false := by
      by_contra hi
      exact huw ((hmem u).2 ⟨hu, by simpa using hi⟩)
    refine ⟨fun hsrc => ?_, fun hq hto => ?_⟩
    · rw [Calls.involves_iff.2 (Or.inl hsrc)] at h1
      cases h1
    · rw [Calls.involves_iff.2 (Or.inr ⟨hq, by simpa [callsOf] using hto⟩)] at h1
      cases h1

namespace Parts

variable {w : List ℕ} {u : ℕ}

/-- What `T` works on is on no list. -/
theorem unqueued (hw : Parts gone s T w) (hu : u ∈ w) (hto : (s.txn.get u).toThread = some T)
    (l : ListHead) : ¬s.queued l u :=
  ((hw.inside u hu).2.resolve_left fun hsrc => hw.self u (hw.inside u hu).1 hsrc hto).1 l

/-- What every call keeps when it is left. -/
theorem keep (hw : Parts gone s T w) {β : Type} (g : BinderTransaction → β)
    (h1 : ∀ x, g { x with toProc := none, toThread := none, buffer := none } = g x)
    (h2 : ∀ x, g { x with fromThread := none } = g x) (u : ℕ) :
    g ((w.foldl (leaveCall T) s).txn.get u) = g (s.txn.get u) := by
  rw [foldl_leaveCall_get hw.nodup, BinderTransaction.leave]
  split_ifs
  · exact h1 _
  · exact h2 _
  · rfl

theorem fromThread (hw : Parts gone s T w) (hu : (s.txn.get u).needReply = true) :
    ((w.foldl (leaveCall T) s).txn.get u).fromThread =
      if (s.txn.get u).fromThread = some T then none else (s.txn.get u).fromThread := by
  rw [foldl_leaveCall_get hw.nodup, BinderTransaction.leave]
  by_cases huw : u ∈ w
  · rw [if_pos huw]
    by_cases hto : (s.txn.get u).toThread = some T
    · rw [if_pos hto, if_neg fun hsrc => hw.self u hu hsrc hto]
    · rw [if_neg hto, if_pos ((hw.inside u huw).2.resolve_right fun h3 => hto h3.2)]
  · rw [if_neg huw, if_neg (hw.outside u hu huw).1]

theorem toThread (hw : Parts gone s T w) (hu : (s.txn.get u).needReply = true) :
    ((w.foldl (leaveCall T) s).txn.get u).toThread =
      if (callsOf gone none s).queued u = false ∧ (s.txn.get u).toThread = some T then none
      else (s.txn.get u).toThread := by
  rw [foldl_leaveCall_get hw.nodup, BinderTransaction.leave]
  by_cases huw : u ∈ w
  · rw [if_pos huw]
    by_cases hto : (s.txn.get u).toThread = some T
    · rw [if_pos hto, if_pos ⟨callsOf_unqueued.2 (hw.unqueued huw hto), hto⟩]
    · rw [if_neg hto, if_neg fun h1 => hto h1.2]
  · rw [if_neg huw, if_neg fun h1 => (hw.outside u hu huw).2 h1.1 h1.2]

/-- The call that `T` works on, if any, is on top of its stack. -/
theorem died (hw : Parts gone s T w)
    (htop : ∀ u, (s.thread.get T).transactionStack = some u → u ∈ w) :
    Calls.Died (callsOf gone none s) (callsOf (orGone T gone)
      ((s.thread.get T).transactionStack.filter fun t => (s.txn.get t).toThread = some T)
      (w.foldl (leaveCall T) s)) T := by
  refine ⟨fun u => ?_, fun u hu => hw.fromThread hu, fun u hu => ?_, fun u _ => ?_, fun u _ => ?_,
    fun u _ => ?_, fun S => ?_⟩
  · simp only [callsOf]
    rw [hw.keep (·.needReply) (fun _ => rfl) fun _ => rfl]
  · have hworked : (if ((s.thread.get T).transactionStack.filter fun t =>
        (s.txn.get t).toThread = some T) = some u then none
        else ((w.foldl (leaveCall T) s).txn.get u).toThread) =
        ((w.foldl (leaveCall T) s).txn.get u).toThread := by
      split_ifs with h2
      · obtain ⟨h3, h4⟩ := Option.filter_eq_some_iff.1 h2
        have hto : (s.txn.get u).toThread = some T := by simpa using h4
        rw [hw.toThread hu, if_pos ⟨callsOf_unqueued.2 (hw.unqueued (htop u h3) hto), hto⟩]
      · rfl
    exact hworked.trans ((hw.toThread hu).trans (by simp [callsOf]))
  · exact hw.keep (·.fromParent) (fun _ => rfl) (fun _ => rfl) u
  · exact hw.keep (·.toParent) (fun _ => rfl) (fun _ => rfl) u
  · simp only [callsOf, foldl_leaveCall_obj]
  · simp only [callsOf, foldl_leaveCall_thread, orGone]
    by_cases hS : S = T <;> simp [hS]

theorem err (hw : Parts gone s T w) (h : ErrInv gone s) :
    ErrInv (orGone T gone) (w.foldl (leaveCall T) s) := by
  refine h.mono (fun S hS => (orGone_false.1 hS).2) (fun S _ he => ?_) fun S u _ _ hu hsu => ?_
  · rw [foldl_leaveCall_thread] at he ⊢
    exact ⟨he, id⟩
  · rw [foldl_leaveCall_thread] at hu
    refine ⟨hu, ?_⟩
    rw [foldl_leaveCall_get hw.nodup, BinderTransaction.leave] at hsu
    split_ifs at hsu
    · exact hsu
    · exact hsu

/-- A call that `T` made is owed to a thread that is gone. -/
theorem outcomes (hw : Parts gone s T w) (h : Outcomes gone s) :
    Outcomes (orGone T gone) (w.foldl (leaveCall T) s) := by
  set s' := w.foldl (leaveCall T) s with hs'
  have hhist : s'.history = s.history := foldl_leaveCall_history
  have hcount : ∀ u, s'.outcomes u = s.outcomes u := fun u => by
    rw [Driver.outcomes, hhist, Driver.outcomes]
  have hneed : ∀ u, (s'.txn.get u).needReply = (s.txn.get u).needReply :=
    hw.keep (·.needReply) (fun _ => rfl) fun _ => rfl
  refine ⟨fun u hu => ?_, fun S u hS => ?_, fun S S' u hS hS' => ?_, fun u hu => ?_, ?_⟩
  · rw [hneed] at hu
    obtain ⟨h1, S, hS, hfs⟩ := h.owed u hu
    refine ⟨(hcount u).trans h1, S, hhist ▸ hS, ?_⟩
    rw [hw.fromThread hu]
    rcases hfs with hfs | ⟨hfs, hgs⟩
    · by_cases hST : S = T
      · exact Or.inr ⟨by simp [hfs, hST], by simp [orGone, hST]⟩
      · exact Or.inl (by simp [hfs, hST])
    · exact Or.inr ⟨by simp [hfs], by simp [orGone, hgs]⟩
  · rw [hhist] at hS
    rw [hcount, hneed]
    obtain ⟨h1, h2⟩ := h.ended S u hS
    exact ⟨h1, h2.imp_right (Or.imp_right fun h3 => by simp [orGone, h3])⟩
  · exact h.sole S S' u (hhist ▸ hS) (hhist ▸ hS')
  · rw [hs', foldl_leaveCall_next] at hu
    rw [hcount, hhist]
    exact h.new u hu
  · rw [hhist, hs', foldl_leaveCall_obj]
    exact h.clean

end Parts

theorem CallInv.leave (h : CallInv L gone none s) (hg : gone T = false) :
    CallInv L (orGone T gone)
      ((s.thread.get T).transactionStack.filter fun t => (s.txn.get t).toThread = some T)
      (leaveTransactions T s.txn.next s (s.thread.get T).transactionStack) := by
  obtain ⟨F, hF⟩ := h.txn.forest
  obtain ⟨w, hwalk, hnd, hmem⟩ := hF.walk T
  have htop : (callsOf gone none s).top T = (s.thread.get T).transactionStack := by simp [callsOf, hg]
  have hlen : w.length ≤ s.txn.next := by
    have hsub : w ⊆ List.range s.txn.next := fun t ht =>
      List.mem_range.2 (h.txn.call_live t ((hmem t).1 ht).1).1
    simpa using (hnd.subperm hsub).length_le
  rw [htop] at hwalk
  rw [leaveTransactions_eq hwalk hnd hlen]
  have hw : Parts gone s T w := .of_walk hF hnd hmem
  have hlink := h.txn.link.leaveCalls hnd fun u hu => ⟨(hw.inside u hu).1, hw.unqueued hu⟩
  refine ⟨hlink.txnInv ?_, hw.err h.err, hw.outcomes h.out⟩
  have hdie := hF.die (hw.died fun u hu => (hmem u).2 (hF.top_call (by rw [htop, hu])))
  have hloose : ((callsOf gone none s).top T).filter (fun t => (callsOf gone none s).dst t = some T) =
      (s.thread.get T).transactionStack.filter fun t => (s.txn.get t).toThread = some T := by
    rw [htop]
    simp [callsOf]
  rw [hloose] at hdie
  exact ⟨F, hdie.congr (fun _ => .rfl) (fun _ _ => ⟨rfl, rfl, rfl, rfl, rfl⟩) (fun _ => rfl)
    fun S hS => by simpa [orGone] using hS⟩

/-- A thread of which no call is left is freed. -/
theorem CallInv.freed (h : CallInv L gone none s) (hg : gone T = true)
    (hempty : ∀ t, ¬s.queued (.threadTodo T) t) :
    CallInv L gone none (s.modThread T fun y => { y with freed := y.freed + 1 }) := by
  have hkeep : ∀ {β : Type} (g : BinderThread → β), (∀ y, g { y with freed := y.freed + 1 } = g y) →
      ∀ S, g ((s.modThread T fun y => { y with freed := y.freed + 1 }).thread.get S) =
        g (s.thread.get S) := fun g hg S => s.thread.apply_get_modify T S _ g hg
  have hne : ∀ S, S ≠ T → (s.modThread T fun y => { y with freed := y.freed + 1 }).thread.get S =
      s.thread.get S := fun S hS =>
    s.thread.get_modify_ne T S (fun y => { y with freed := y.freed + 1 }) hS
  have hcalls : callsOf gone none (s.modThread T fun y => { y with freed := y.freed + 1 }) =
      callsOf gone none s := by
    unfold callsOf
    simp only [hkeep (·.transactionStack) fun _ => rfl]
    rfl
  refine ⟨⟨hcalls ▸ h.txn.forest, h.txn.call_live, fun l u hu => ?_, h.txn.forward, h.txn.back,
    h.txn.target, h.txn.area, fun S hS => ?_, fun S f hf hw => ?_, h.txn.unborn⟩, ?_, ?_⟩
  · refine (h.txn.placed l u hu).congr rfl (fun _ => rfl) (fun p hp => ?_) fun hc =>
      hc.congr rfl fun _ => rfl
    cases l with
    | threadTodo R =>
      have hRT : R ≠ T := by
        rintro rfl
        exact hempty u hu
      rw [Home, hne R hRT]
      exact hp
    | procTodo q => exact hp
    | asyncTodo n => exact hp
    | deliveredDeath q => exact hp
  · rw [hkeep (·.transactionStack) fun _ => rfl] at hS
    exact h.txn.stack_lt S hS
  · rw [hkeep (·.asleep) fun _ => rfl] at hf
    rw [hkeep (·.transactionStack) fun _ => rfl]
    exact h.txn.waits S f hf hw
  · refine h.err.mono (fun _ => id) (fun S hS he => ?_) fun S u hS _ hu hf => ?_
    · have hST : S ≠ T := by
        rintro rfl
        rw [hg] at hS
        cases hS
      rw [hne S hST] at he ⊢
      exact ⟨he, id⟩
    · rw [hkeep (·.transactionStack) fun _ => rfl] at hu
      exact ⟨hu, hf⟩
  · exact h.out.same' (.of_eq rfl rfl) rfl

/-- The call that a thread works on is not queued. -/
theorem TxnInv.held (h : TxnInv L gone none s) (hg : gone T = false)
    (ht : (s.thread.get T).transactionStack = some t) (hto : (s.txn.get t).toThread = some T) :
    (s.txn.get t).needReply = true ∧ ∀ l, ¬s.queued l t := by
  obtain ⟨F, hF⟩ := h.forest
  have htop : (callsOf gone none s).top T = some t := by simp [callsOf, hg, ht]
  have hd : (callsOf gone none s).dst t = some T := by simpa [callsOf] using hto
  obtain ⟨hcall, hi⟩ := hF.top_call htop
  refine ⟨hcall, ?_⟩
  rcases Calls.involves_iff.1 hi with hsrc | ⟨hq, -⟩
  · exact absurd hd (hF.src_ne_dst hcall hsrc)
  · exact callsOf_unqueued.1 hq

theorem leaveTransactions_todo (k : ℕ) (s : Driver) (o : Option ℕ) :
    (leaveTransactions T k s o).obj.todo = s.obj.todo := by
  induction k generalizing s o with
  | zero => cases o <;> rfl
  | succ k ih =>
    cases o with
    | none => rfl
    | some t =>
      unfold leaveTransactions
      dsimp only
      split_ifs
      · exact (ih _ _).trans (congrArg Objects.todo (obj_forget (s := s) _))
      · exact ih _ _
      · rfl

/-- The call that lost its receiver fails. -/
theorem CallInv.failLoose : CallInv L gone loose s →
    (∀ t, loose = some t → ∀ l, ¬s.queued l t) →
    CallInv L gone none (match loose with
      | some t => binderSendFailedReply s t .deadReply
      | none => s) := by
  intro h hq
  cases loose with
  | none => exact h
  | some t =>
    obtain ⟨F, hF⟩ := h.txn.forest
    obtain ⟨post, hl⟩ := hF.loose_tip t rfl
    exact h.sendFailedReply (by simp) (hF.mem_call hl (by simp)) (hq t rfl)

theorem CallInv.freeThread (h : CallInv L s.dead none s) (hf : (s.thread.get T).freed = 0) :
    CallInv L (orGone T s.dead) none (binderFreeThread s T) := by
  have hg : s.dead T = false := by simp [Driver.dead, hf]
  have h₁ : CallInv L s.dead none (s.modProc (s.thread.get T).proc fun p =>
      { p with threads := p.threads.erase T }) :=
    h.same (same_modProc (fun _ => rfl) (fun _ => rfl) fun _ => id) (fun _ => rfl) (fun _ => rfl)
      (.of_eq rfl rfl)
  have h₂ := h₁.leave (T := T) hg
  unfold binderFreeThread
  dsimp only
  set s₁ := s.modProc (s.thread.get T).proc fun p => { p with threads := p.threads.erase T } with hs₁
  have hth : s₁.thread = s.thread := rfl
  have htxn : s₁.txn = s.txn := rfl
  rw [hth, htxn] at h₂
  set s₂ := leaveTransactions T s.txn.next s₁ (s.thread.get T).transactionStack with hs₂
  have h₃ := h₂.failLoose fun t ht l hl => by
    obtain ⟨h5, h6⟩ := Option.filter_eq_some_iff.1 ht
    refine (h₁.txn.held hg h5 (of_decide_eq_true h6)).2 l ?_
    rwa [Driver.queued, leaveTransactions_todo] at hl
  obtain ⟨h₄, hempty, -⟩ := h₃.releaseWork (.threadTodo T)
  exact h₄.freed (by simp [orGone]) fun t ht => hempty _ ht

end Binder
