import BinderIpc.Txn.Steps

/-! The end of a call: `binder_pop_transaction` and `binder_send_failed_reply`. -/

namespace Binder

variable {L : Layout} {gone : ℕ → Bool} {loose : Option ℕ} {s s' : Driver} {t T p : ℕ}

/-- The invariants of the transactions. -/
structure CallInv (L : Layout) (gone : ℕ → Bool) (loose : Option ℕ) (s : Driver) : Prop where
  txn : TxnInv L gone loose s
  err : ErrInv gone s
  out : Outcomes gone s

theorem TxnInv.not_loose_none (h : TxnInv L gone none s) {u : ℕ} {S : ℕ}
    (hu : (s.txn.get u).needReply = true) (hs : (s.txn.get u).fromThread = some S) :
    gone S = false := by
  obtain ⟨F, hF⟩ := h.forest
  by_contra hg
  have htop : (callsOf gone none s).top S = none := by simp [callsOf, hg]
  have := hF.involves_none htop hu
  simp [Calls.involves, callsOf, hs] at this

/-- The sender of the call that is worked on waits for it. -/
theorem TxnInv.sender (h : TxnInv L gone (some t) s) (hs : (s.txn.get t).fromThread = some T) :
    gone T = false ∧ (s.thread.get T).transactionStack = some t := by
  obtain ⟨F, hF⟩ := h.forest
  obtain ⟨post, hl⟩ := hF.loose_tip t rfl
  have htop : (callsOf gone (some t) s).top T = some t := hF.top_of_tip hl hs
  simp only [callsOf] at htop
  split_ifs at htop with hg
  exact ⟨by simpa using hg, htop⟩

section Pop

variable (s t)

/-- `binder_pop_transaction` up to the `kfree`. -/
def endCall (o : Option ℕ) : Driver :=
  (o.elim s fun T => popSender s T t).modTxn t fun x => { x with needReply := false }

theorem pop_eq (o : Option ℕ) : binderPopTransaction s o t = freeTransaction (endCall s t o) t := rfl

variable {s t}

theorem endCall_get {o : Option ℕ} (ho : (s.txn.get t).fromThread = o) (u : ℕ) :
    (endCall s t o).txn.get u = if u = t then
      { s.txn.get t with fromThread := none, needReply := false } else s.txn.get u := by
  cases o with
  | none =>
    by_cases hu : u = t
    · subst hu
      have hx : ({ s.txn.get u with fromThread := none, needReply := false } : BinderTransaction) =
          { s.txn.get u with needReply := false } := by rw [← ho]
      rw [if_pos rfl, hx]
      exact s.txn.get_modify_self u fun x => { x with needReply := false }
    · simp [endCall, Driver.modTxn, Heap.get_modify, hu]
  | some T =>
    by_cases hu : u = t
    · subst hu
      simp [endCall, popSender, Driver.modTxn, Driver.modThread, Driver.bugOn, Driver.modObj]
    · simp [endCall, popSender, Driver.modTxn, Driver.modThread, Driver.bugOn, Driver.modObj,
        Heap.get_modify, hu]

theorem endCall_thread {o : Option ℕ}
    (ho : ∀ T, o = some T → (s.thread.get T).transactionStack = some t) (S : ℕ) :
    (endCall s t o).thread.get S = if o = some S then
      { s.thread.get S with transactionStack := (s.txn.get t).fromParent } else s.thread.get S := by
  cases o with
  | none => rfl
  | some T =>
    have hT := ho T rfl
    by_cases hS : S = T
    · subst hS
      simp [endCall, popSender, Driver.modTxn, Driver.modThread, Driver.bugOn, Driver.modObj, hT]
    · simp [endCall, popSender, Driver.modTxn, Driver.modThread, Driver.bugOn, Driver.modObj,
        Heap.get_modify, hS, Ne.symm hS]

theorem endCall_obj {o : Option ℕ} (ho : (s.txn.get t).fromThread = o)
    (hst : ∀ T, o = some T → (s.thread.get T).transactionStack = some t) :
    (endCall s t o).obj = s.obj := by
  cases o with
  | none => rfl
  | some T =>
    simp [endCall, popSender, Driver.modTxn, Driver.modThread, Driver.bugOn, Driver.modObj,
      Objects.bugOn, hst T rfl, ho]

theorem endCall_next (o : Option ℕ) : (endCall s t o).txn.next = s.txn.next := by cases o <;> rfl

theorem endCall_threadNext (o : Option ℕ) : (endCall s t o).thread.next = s.thread.next := by
  cases o <;> rfl

theorem endCall_proc (o : Option ℕ) : (endCall s t o).proc = s.proc := by cases o <;> rfl

theorem endCall_history (o : Option ℕ) : (endCall s t o).history = s.history := by cases o <;> rfl

end Pop

/-- What is worked on after the call `t` has ended. -/
def nextLoose (s : Driver) (t : ℕ) : Option ℕ :=
  if (s.txn.get t).fromThread.isSome then none else (s.txn.get t).fromParent

theorem TxnInv.endCall (h : TxnInv L gone (some t) s) (hcall : (s.txn.get t).needReply = true)
    (hq : ∀ l, ¬s.queued l t) :
    TxnInv L gone (nextLoose s t) (Binder.endCall s t (s.txn.get t).fromThread) := by
  have hst : ∀ T, (s.txn.get t).fromThread = some T → (s.thread.get T).transactionStack = some t :=
    fun T hT => (h.sender hT).2
  have hget := endCall_get (s := s) (t := t) rfl
  have hth := endCall_thread hst
  have hobj := endCall_obj rfl hst
  have hproc := endCall_proc (s := s) (t := t) (s.txn.get t).fromThread
  have hnext := endCall_next (s := s) (t := t) (s.txn.get t).fromThread
  have htn := endCall_threadNext (s := s) (t := t) (s.txn.get t).fromThread
  set s' := Binder.endCall s t (s.txn.get t).fromThread with hs'
  have hne : ∀ u, u ≠ t → s'.txn.get u = s.txn.get u := fun u hu => by rw [hget, if_neg hu]
  have hkeep : ∀ {β : Type} (g : BinderTransaction → β),
      (∀ x, g { x with fromThread := none, needReply := false } = g x) →
      ∀ u, g (s'.txn.get u) = g (s.txn.get u) := fun g hg u => by
    rw [hget]
    split_ifs with hu
    · rw [hg, hu]
    · rfl
  have hlive : ∀ b, s'.liveAt b = s.liveAt b := fun b => by
    rw [Driver.liveAt, Driver.liveAt, hproc]
  obtain ⟨F, hF⟩ := h.forest
  obtain ⟨post, hl⟩ := hF.loose_tip t rfl
  obtain ⟨hparent, hjoin, -⟩ := hF.chain _ hl
  have hforest : ∃ F, (callsOf gone (nextLoose s t) s').Forest (gone · = true) (nextLoose s t) F := by
    have hended : Calls.Ended (callsOf gone (some t) s) (callsOf gone (nextLoose s t) s') t := by
      refine ⟨fun u => ?_, fun u hu hut => ?_, fun S => ?_⟩
      · by_cases hut : u = t
        · subst hut
          simp [callsOf, hget]
        · simp [callsOf, hne u hut, hut]
      · refine ⟨?_, ?_, ?_, ?_, ?_⟩
        · simp [callsOf, hne u hut]
        · simp only [callsOf, hne u hut]
          rw [if_neg (fun he => hut (Option.some.inj he).symm)]
          split_ifs with hlo
          · -- the next call has lost its receiver along with the sender of this one
            unfold nextLoose at hlo
            split_ifs at hlo with hsrc
            have hu' : u ∈ post.head? := by rw [← hparent]; exact hlo
            have hd := (hjoin u hu').2
            simp only [callsOf] at hd
            rw [if_neg (fun he => hut (Option.some.inj he).symm)] at hd
            rw [← hd]
            exact (Option.not_isSome_iff_eq_none.1 hsrc).symm
          · rfl
        · simp [callsOf, hne u hut]
        · simp [callsOf, hne u hut]
        · simp [callsOf, hobj]
      · simp only [callsOf, hth]
        by_cases hS : (s.txn.get t).fromThread = some S
        · simp [hS, (h.sender hS).1]
        · simp [hS]
    have hfin := hF.finish hended hl (by simp [callsOf])
    have hloose : (if ((callsOf gone (some t) s).src t).isSome then none else post.head?) =
        nextLoose s t := by
      rw [← hparent]
      rfl
    exact ⟨_, hloose ▸ hfin⟩
  refine ⟨hforest, fun u hu => ?_, fun l u hu => ?_, fun u b hul huf hub => ?_,
    fun b B u hB hBu => ?_, fun b B n hB hn => ?_, fun p => ?_, fun S hS => ?_,
    fun S f hf hw => ?_, hobj ▸ h.unborn⟩
  · have hut : u ≠ t := by
      rintro rfl
      simp [hget] at hu
    rw [hne u hut] at hu ⊢
    rw [hnext]
    exact h.call_live u hu
  · rw [Driver.queued, hobj] at hu
    have hut : u ≠ t := by
      rintro rfl
      exact hq l hu
    obtain ⟨h1, h2, h3, h4, h5⟩ := h.placed l u hu
    rw [← hne u hut] at h2 h4 h5
    refine ⟨hnext ▸ h1, h2, ?_, h4, h5⟩
    rcases h3 with ⟨b, B, hb, hB, hub, hn, hh⟩ | hc
    · rw [← hne u hut] at hb hn
      refine Or.inl ⟨b, B, hb, (hlive b).trans hB, hub, hn, ?_⟩
      cases l with
      | threadTodo S =>
        rw [Home, hth]
        split_ifs <;> exact ⟨htn ▸ hh.1, hh.2⟩
      | procTodo q => exact ⟨hh.1, hproc ▸ hh.2⟩
      | asyncTodo n => exact ⟨hobj ▸ hh.1, hobj ▸ hh.2⟩
      | deliveredDeath q => exact hh
    · exact Or.inr (hc.congr (by rw [hobj]) fun q => by rw [hproc])
  · rw [hkeep (·.freed) fun _ => rfl] at huf
    rw [hkeep (·.buffer) fun _ => rfl] at hub
    rw [hlive]
    exact h.forward u b (hnext ▸ hul) huf hub
  · rw [hkeep (·.freed) fun _ => rfl, hkeep (·.buffer) fun _ => rfl, hnext]
    exact h.back b B u ((hlive b) ▸ hB) hBu
  · rw [hobj]
    exact h.target b B n ((hlive b) ▸ hB) hn
  · rw [hproc]
    exact h.area p
  · rw [htn]
    rw [hth] at hS
    split_ifs at hS with hSt
    · exact h.stack_lt S (by rw [hst S hSt]; simp)
    · exact h.stack_lt S hS
  · rw [hth] at hf ⊢
    split_ifs at hf ⊢ with hSt
    · have := h.waits S f hf hw
      rw [hst S hSt] at this
      cases this
    · exact h.waits S f hf hw

theorem TxnInv.pop (h : TxnInv L gone (some t) s) (hcall : (s.txn.get t).needReply = true)
    (hq : ∀ l, ¬s.queued l t) :
    TxnInv L gone (nextLoose s t) (binderPopTransaction s (s.txn.get t).fromThread t) := by
  have hst : ∀ T, (s.txn.get t).fromThread = some T → (s.thread.get T).transactionStack = some t :=
    fun T hT => (h.sender hT).2
  have hlive := h.call_live t hcall
  refine (h.endCall hcall hq).freeTransaction ?_ (fun l hl => hq l ?_) ?_ ?_
  · simp [endCall_get]
  · rwa [Driver.queued, endCall_obj rfl hst] at hl
  · rw [endCall_next]
    exact hlive.1
  · simpa [endCall_get] using hlive.2

/-! What `binder_pop_transaction` leaves -/

section

variable {o : Option ℕ}

theorem freeTransaction_get (s : Driver) (t u : ℕ) : (freeTransaction s t).txn.get u =
    if u = t then { s.txn.get t with freed := (s.txn.get t).freed + 1 } else s.txn.get u := by
  simp [freeTransaction, Driver.modTxn, Heap.get_modify]

theorem pop_get (ho : (s.txn.get t).fromThread = o) (u : ℕ) :
    (binderPopTransaction s o t).txn.get u = if u = t then
      { s.txn.get t with
        fromThread := none, needReply := false, freed := (s.txn.get t).freed + 1 }
      else s.txn.get u := by
  rw [pop_eq, freeTransaction_get, endCall_get ho, endCall_get ho]
  split_ifs <;> simp_all

theorem pop_thread (ho : ∀ T, o = some T → (s.thread.get T).transactionStack = some t) (S : ℕ) :
    (binderPopTransaction s o t).thread.get S = if o = some S then
      { s.thread.get S with transactionStack := (s.txn.get t).fromParent } else s.thread.get S := by
  rw [pop_eq]
  exact (congrArg (·.get S) (thread_forget _)).trans (endCall_thread ho S)

theorem pop_obj (ho : (s.txn.get t).fromThread = o)
    (hst : ∀ T, o = some T → (s.thread.get T).transactionStack = some t) :
    (binderPopTransaction s o t).obj = s.obj :=
  (obj_forget _).trans (endCall_obj ho hst)

theorem pop_history (s : Driver) (t : ℕ) (o : Option ℕ) :
    (binderPopTransaction s o t).history = s.history :=
  (history_forget _).trans (endCall_history o)

theorem pop_next (s : Driver) (t : ℕ) (o : Option ℕ) :
    (binderPopTransaction s o t).txn.next = s.txn.next := by
  rw [pop_eq, freeTransaction]
  simp [Driver.modTxn, endCall_next]

end

/-- The record of outcomes after `t` ended, with an event for a sender that is still there. -/
theorem Outcomes.ended_call {e : Event} (hi : Outcomes gone s)
    (hcall : (s.txn.get t).needReply = true) (hnext : s'.txn.next = s.txn.next)
    (hget : ∀ u, s'.txn.get u = if u = t then
      { s.txn.get t with
        fromThread := none, needReply := false, freed := (s.txn.get t).freed + 1 }
      else s.txn.get u)
    (hobj : s'.obj.oops = s.obj.oops) (he : e.outcomeOf = some t) (ha : e.isAccepted = false)
    (hb : e.isBad = false)
    (hhist : s'.history = s.history ++ if (s.txn.get t).fromThread.isSome then [e] else []) :
    Outcomes gone s' := by
  have hcount : ∀ u, s'.outcomes u =
      s.outcomes u + if u = t ∧ (s.txn.get t).fromThread.isSome then 1 else 0 := fun u => by
    rw [Driver.outcomes, hhist, List.countP_append]
    congr 1
    by_cases hs : (s.txn.get t).fromThread.isSome = true
    · by_cases hu : u = t
      · simp [hs, he, hu]
      · simp [hs, he, hu, Ne.symm hu]
    · simp [hs]
  have hacc : ∀ T u, Event.accepted T u ∈ s'.history ↔ Event.accepted T u ∈ s.history := fun T u => by
    rw [hhist, List.mem_append, or_iff_left]
    split_ifs
    · rw [List.mem_singleton]
      rintro rfl
      cases ha
    · simp
  refine ⟨fun u hu => ?_, fun T u hT => ?_, fun T T' u hT hT' => ?_, fun u hu => ?_, ?_⟩
  · rw [hget] at hu ⊢
    split_ifs at hu ⊢ with hut
    obtain ⟨h1, T, hT, hf⟩ := hi.owed u hu
    rw [hcount, if_neg (fun h => hut h.1)]
    exact ⟨h1, T, (hacc T u).2 hT, hf⟩
  · rw [hacc] at hT
    obtain ⟨h1, h2⟩ := hi.ended T u hT
    by_cases hut : u = t
    · subst hut
      obtain ⟨h3, S, hS, hf⟩ := hi.owed u hcall
      obtain rfl := hi.sole T S u hT hS
      rw [hcount, h3]
      rcases hf with hf | ⟨hf, hg⟩
      · simp [hf]
      · simp [hf, hg]
    · rw [hcount, if_neg (fun h => hut h.1), hget, if_neg hut]
      exact ⟨h1, h2⟩
  · exact hi.sole T T' u ((hacc T u).1 hT) ((hacc T' u).1 hT')
  · rw [hnext] at hu
    obtain ⟨h1, h2⟩ := hi.new u hu
    obtain ⟨-, T, hT, -⟩ := hi.owed t hcall
    have hut : u ≠ t := by
      rintro rfl
      exact h2 T hT
    rw [hcount, if_neg (fun h => hut h.1)]
    exact ⟨h1, fun T hT => h2 T ((hacc T u).1 hT)⟩
  · obtain ⟨h1, h2⟩ := hi.clean
    refine ⟨fun e' he' => ?_, hobj ▸ h2⟩
    rw [hhist, List.mem_append] at he'
    rcases he' with he' | he'
    · exact h1 e' he'
    · split_ifs at he'
      · rw [List.mem_singleton.1 he']
        exact hb
      · cases he'

/-- The call in which the one that is worked on was made. -/
theorem TxnInv.parent_call (h : TxnInv L gone (some t) s) {u : ℕ}
    (hu : (s.txn.get t).fromParent = some u) :
    (s.txn.get u).needReply = true ∧ (∀ l, ¬s.queued l u) ∧
      ∀ T, (s.txn.get t).fromThread = some T → (s.txn.get u).fromThread ≠ some T := by
  obtain ⟨F, hF⟩ := h.forest
  obtain ⟨post, hl⟩ := hF.loose_tip t rfl
  obtain ⟨hparent, hjoin, -, -, hrest⟩ := hF.chain _ hl
  have hhead : post.head? = some u := hparent.symm.trans hu
  obtain ⟨hq, hd⟩ := hjoin u hhead
  obtain ⟨post', rfl⟩ : ∃ post', post = u :: post' := by
    cases post with
    | nil => cases hhead
    | cons v post' => exact ⟨post', by rw [Option.some.inj hhead]⟩
  refine ⟨hF.mem_call hl (by simp), callsOf_unqueued.1 hq, fun T hs hsu => ?_⟩
  · have hself := hrest.2.2.2.1 T hsu
    rw [← hd] at hself
    exact hself hs

theorem CallInv.failSender {code : ReturnError} (h : CallInv L gone (some t) s)
    (hcall : (s.txn.get t).needReply = true) (hq : ∀ l, ¬s.queued l t)
    (hs : (s.txn.get t).fromThread = some T) (hcode : code ≠ .ok) :
    CallInv L gone none (failSender s T t code) := by
  obtain ⟨hg, hst⟩ := h.txn.sender hs
  set s₀ := s.modThread T .shiftError with hs₀
  have hsame : TxnSame L s s₀ := by
    refine same_modThread (fun y => ?_) (fun y => ?_) (fun y => ?_) fun y g hy => Or.inl ?_ <;>
      simp only [BinderThread.shiftError] at * <;> split_ifs at * <;> first | rfl | exact hy
  have hget₀ : s₀.thread.get T = (s.thread.get T).shiftError := s.thread.get_modify_self T _
  have hne₀ : ∀ S, S ≠ T → s₀.thread.get S = s.thread.get S := fun S hS =>
    s.thread.get_modify_ne T S _ hS
  have herr2 : (s.thread.get T).returnError2 = .ok := by
    by_contra he
    exact h.err.idle T t hg he hst hs
  have herr : (s₀.thread.get T).returnError = .ok := by
    rw [hget₀, BinderThread.shiftError]
    split_ifs with he
    · rfl
    · simpa [herr2] using he
  have h₀ := h.txn.same hsame
  have htxn : s₀.txn = s.txn := rfl
  have hpop := h₀.pop (htxn ▸ hcall) fun l hl => hq l ((hsame.queued l t).1 hl)
  have hs₁ : (s₀.txn.get t).fromThread = some T := hs
  have hst₀ : ∀ S, some T = some S → (s₀.thread.get S).transactionStack = some t := by
    rintro S ⟨⟩
    rw [hsame.stack, hst]
  rw [hs₁] at hpop
  have hloose : nextLoose s₀ t = none := by simp [nextLoose, hs₁]
  rw [hloose] at hpop
  unfold Binder.failSender
  dsimp only
  rw [← hs₀, if_pos herr]
  set s₁ := binderPopTransaction s₀ (some T) t with hs₁'
  have hth₁ := pop_thread hst₀
  have hget₁ := pop_get hs₁
  refine ⟨?_, ?_, ?_⟩
  · have hmod : TxnSame L s₁ (s₁.modThread T fun y => { y with returnError := code }) :=
      same_modThread (fun _ => rfl) (fun _ => rfl) (fun _ => rfl) fun _ _ => Or.inl
    exact (hpop.same hmod).same (same_note _)
  · have hthr : ∀ S, ((s₁.modThread T fun y => { y with returnError := code }).note
        (.failed t code)).thread.get S = if S = T then
          { s₁.thread.get T with returnError := code } else s₁.thread.get S := fun S => rfl
    have hfrom : ∀ u, (s₁.txn.get u).fromThread = some T → (s.txn.get u).fromThread = some T := by
      intro u hu
      rw [hget₁] at hu
      split_ifs at hu
      exact hu
    constructor
    · intro S hgS he
      rw [hthr] at he ⊢
      split_ifs at he ⊢ with hS
      · exact hcode
      · rw [hth₁, if_neg (fun he => hS (Option.some.inj he).symm), hne₀ S hS] at he ⊢
        exact h.err.first S hgS he
    · intro S u hgS he hu
      rw [hthr] at he hu
      change (s₁.txn.get u).fromThread ≠ some S
      split_ifs at he hu with hS
      · subst hS
        rw [hth₁, if_pos rfl] at hu
        exact fun hsu => (h.txn.parent_call hu).2.2 S hs (hfrom u hsu)
      · rw [hth₁, if_neg (fun he => hS (Option.some.inj he).symm), hne₀ S hS] at he hu
        rw [hget₁]
        split_ifs
        · simp
        · exact h.err.idle S u hgS he hu
  · refine h.out.ended_call (e := .failed t code) hcall (pop_next s₀ t _) hget₁ ?_ rfl rfl rfl ?_
    · exact congrArg Objects.oops (pop_obj hs₁ hst₀)
    · simp [Driver.note, Driver.modThread, hs₁', pop_history, hs, hs₀]

/-- The number of calls. -/
def Driver.callCount (s : Driver) : ℕ := (List.range s.txn.next).countP fun t => (s.txn.get t).needReply

theorem callCount_le (s : Driver) : s.callCount ≤ s.txn.next :=
  (List.countP_le_length).trans (List.length_range).le

theorem callCount_pop {o : Option ℕ} (ho : (s.txn.get t).fromThread = o) (hlt : t < s.txn.next)
    (hcall : (s.txn.get t).needReply = true) :
    (binderPopTransaction s o t).callCount < s.callCount := by
  have hmem : t ∈ List.range s.txn.next := List.mem_range.2 hlt
  obtain ⟨l₁, l₂, hl⟩ := List.append_of_mem hmem
  have hnd : (l₁ ++ t :: l₂).Nodup := hl ▸ List.nodup_range
  have hle : ∀ l : List ℕ, l.countP (fun u => ((binderPopTransaction s o t).txn.get u).needReply) ≤
      l.countP fun u => (s.txn.get u).needReply := fun l => List.countP_mono_left fun u _ hu => by
    rw [pop_get ho] at hu
    split_ifs at hu
    exact hu
  have ht : ((binderPopTransaction s o t).txn.get t).needReply = false := by simp [pop_get ho]
  rw [Driver.callCount, Driver.callCount, pop_next, hl, List.countP_append, List.countP_append,
    List.countP_cons, List.countP_cons, ht, hcall]
  have h1 := hle l₁
  have h2 := hle l₂
  simp only [Bool.false_eq_true, if_false, if_true]
  omega

/-- Each turn ends one call. -/
theorem CallInv.failUpwards {code : ReturnError} (hcode : code ≠ .ok) {k : ℕ}
    (h : CallInv L gone (some t) s) (hk : s.callCount ≤ k)
    (hcall : (s.txn.get t).needReply = true) (hq : ∀ l, ¬s.queued l t) :
    CallInv L gone none (failUpwards code k s t) := by
  induction k generalizing s t with
  | zero =>
    obtain ⟨hlt, -⟩ := h.txn.call_live t hcall
    have : 0 < s.callCount := List.countP_pos_iff.2 ⟨t, List.mem_range.2 hlt, hcall⟩
    omega
  | succ k ih =>
    unfold Binder.failUpwards
    cases hs : (s.txn.get t).fromThread with
    | some T => exact h.failSender hcall hq hs hcode
    | none =>
      have hpop := h.txn.pop hcall hq
      have hloose : nextLoose s t = (s.txn.get t).fromParent := by simp [nextLoose, hs]
      rw [hs, hloose] at hpop
      have hget := pop_get hs
      have herr : ErrInv gone (binderPopTransaction s none t) := by
        refine h.err.mono (fun _ hg => hg) (fun T _ he => ?_) fun T u _ _ hu hf => ?_
        · rw [pop_thread (by simp)] at he ⊢
          exact ⟨he, id⟩
        · rw [pop_thread (by simp)] at hu
          rw [hget] at hf
          split_ifs at hf
          exact ⟨hu, hf⟩
      have hout : Outcomes gone (binderPopTransaction s none t) :=
        h.out.ended_call (e := .failed t code) hcall (pop_next s t _) hget
          (congrArg Objects.oops (pop_obj hs (by simp))) rfl rfl rfl (by simp [pop_history, hs])
      dsimp only
      split
      · rename_i hp
        rw [hp] at hpop
        exact ⟨hpop, herr, hout⟩
      · rename_i u hp
        obtain ⟨h1, h2, -⟩ := h.txn.parent_call hp
        have hut : u ≠ t := by
          rintro rfl
          obtain ⟨F, hF⟩ := hpop.forest
          rw [hp] at hF
          obtain ⟨post, hl⟩ := hF.loose_tip u rfl
          have := hF.mem_call hl (by simp : u ∈ u :: post)
          simp [callsOf, hget] at this
        rw [hp] at hpop
        refine ih ⟨hpop, herr, hout⟩ ?_ ?_ fun l hl => h2 l ?_
        · have := callCount_pop hs (h.txn.call_live t hcall).1 hcall
          omega
        · rw [hget, if_neg hut]
          exact h1
        · rwa [Driver.queued, pop_obj hs (by simp)] at hl

theorem CallInv.same (h : CallInv L gone loose s) (h1 : TxnSame L s s')
    (h2 : ∀ T, (s'.thread.get T).returnError = (s.thread.get T).returnError)
    (h3 : ∀ T, (s'.thread.get T).returnError2 = (s.thread.get T).returnError2)
    (h4 : SameOutcomes s s') : CallInv L gone loose s' where
  txn := h.txn.same h1
  err := h.err.mono (fun _ hg => hg) (fun T _ he => by rw [h2]; exact ⟨h3 T ▸ he, id⟩)
    fun T t _ _ ht hf => ⟨h1.stack T ▸ ht, h1.txn ▸ hf⟩
  out := h.out.same' h4 h1.txn

theorem CallInv.sendFailedReply {code : ReturnError} (h : CallInv L gone (some t) s)
    (hcode : code ≠ .ok) (hcall : (s.txn.get t).needReply = true) (hq : ∀ l, ¬s.queued l t) :
    CallInv L gone none (binderSendFailedReply s t code) := by
  have hbug : CallInv L gone (some t) (s.bugOn (s.txn.get t).flags.oneWay .failedReplyOneWay) :=
    h.same (same_bugOn _ _) (fun _ => rfl) (fun _ => rfl) (sameOutcomes_bugOn fun _ => rfl)
  exact hbug.failUpwards hcode (callCount_le s) hcall hq

end Binder
