import BinderIpc.Driver.Threads
import BinderIpc.Txn.Close
import BinderIpc.Txn.Commands
import BinderIpc.Alloc.Runs

/-! The invariant of the transactions over runs of the driver. -/

namespace Binder

variable {L : Layout} {rb : RbTree ℕ} {gone : ℕ → Bool} {loose : Option ℕ} {s s' : Driver}
  {t T p : ℕ} {l : ListHead}

/-! Threads and processes that have not been made -/

structure Unborn (s : Driver) : Prop where
  freed : ∀ T, s.thread.next ≤ T → (s.thread.get T).freed = 0
  closed : ∀ p, s.proc.next ≤ p → (s.proc.get p).closed = false
  area : ∀ p, s.proc.next ≤ p →
    (s.proc.get p).area.buffers = [] ∧ (s.proc.get p).area.vma = false
  released : ∀ p, (s.proc.get p).released = true → (s.proc.get p).closed = true

theorem Unborn.apply (h : Unborn s) (hi : ThreadInv s) (a : Action) (hc : a.creates = false)
    (hen : a.enabled L s = true) : Unborn (a.apply L rb s) := by
  have hg := apply_grows L rb s a hc
  have hnot : ∀ p, s.proc.next ≤ p → ¬(a.scope s).opens p := fun p hp hmaps => by
    cases a <;> cases hmaps <;>
      simp only [Action.enabled, Driver.isOpen, Bool.and_eq_true, decide_eq_true_eq] at hen <;> omega
  refine ⟨fun T hT => ?_, fun p hp => ?_, fun p hp => ?_, fun p hp => ?_⟩
  · rw [hg.threadNext] at hT
    refine ((hg.freed T).resolve_left ?_).trans (h.freed T hT)
    rintro (hl | ⟨p, -, -, hm⟩)
    · cases a <;> cases hl
      exact absurd (Driver.ready_spec hen).1 (not_lt.2 hT)
    · exact absurd ((hi.listed p T).1 hm).1 (not_lt.2 hT)
  · rw [hg.procNext] at hp
    exact ((hg.life p).resolve_left (hnot p hp)).1.trans (h.closed p hp)
  · rw [hg.procNext] at hp
    have hbare := h.area p hp
    refine ⟨(hg.bare p).resolve_left (hnot p hp) hbare, ?_⟩
    by_contra hv
    rw [((hg.life p).resolve_left (hnot p hp)).2.2 (by simpa using hv)] at hbare
    cases hbare.2
  · have hclosed : (s.proc.get p).closed = true := by
      rcases hg.released p hp with hr | ⟨-, hr⟩
      · exact h.released p hr
      · exact hi.closing p hr
    rcases apply_life rb a hc hen p with ⟨h1, -⟩ | ⟨-, -, h1, -⟩
    · exact h1.trans hclosed
    · exact h1

theorem Unborn.openProc (h : Unborn s) (pid : ℕ) : Unborn (binderOpen s pid) := by
  have hnew : (binderOpen s pid).proc.get s.proc.next = { pid := pid } := s.proc.get_alloc_self _
  have hold : ∀ p, p ≠ s.proc.next → (binderOpen s pid).proc.get p = s.proc.get p := fun p hp =>
    s.proc.get_alloc_ne p _ hp
  refine ⟨h.freed, fun p hp => ?_, fun p hp => ?_, fun p hp => ?_⟩
  · rw [hold p (Nat.lt_of_succ_le hp).ne']
    exact h.closed p (Nat.le_of_succ_le hp)
  · rw [hold p (Nat.lt_of_succ_le hp).ne']
    exact h.area p (Nat.le_of_succ_le hp)
  · by_cases hpn : p = s.proc.next
    · rw [hpn, hnew] at hp
      cases hp
    · rw [hold p hpn] at hp ⊢
      exact h.released p hp

theorem Unborn.newThread (h : Unborn s) (p pid : ℕ) : Unborn (newThread s p pid) := by
  have hkeep : ∀ {β : Type} (g : BinderProc → β), (∀ x l, g { x with threads := l } = g x) →
      ∀ q, g ((Binder.newThread s p pid).proc.get q) = g (s.proc.get q) := fun g hg q =>
    s.proc.apply_get_modify p q _ g fun x => hg x _
  refine ⟨fun T hT => ?_, fun q hq => ?_, fun q hq => ?_, fun q hq => ?_⟩
  · have hne : T ≠ s.thread.next := fun he => absurd hT (by rw [he]; exact Nat.not_succ_le_self _)
    have hold : (Binder.newThread s p pid).thread.get T = s.thread.get T := s.thread.get_alloc_ne T _ hne
    rw [hold]
    exact h.freed T (Nat.le_of_succ_le hT)
  · exact (hkeep (·.closed) (fun _ _ => rfl) q).trans (h.closed q hq)
  · rw [hkeep (·.area) fun _ _ => rfl]
    exact h.area q hq
  · rw [hkeep (·.released) fun _ _ => rfl] at hq
    exact (hkeep (·.closed) (fun _ _ => rfl) q).trans (h.released q hq)

theorem Unborn.step (h : Unborn s) (hi : ThreadInv s) (a : Action) :
    Unborn ((driverMachine L rb).step s a) := by
  by_cases hen : a.enabled L s = true
  swap
  · rwa [show (driverMachine L rb).step s a = s from if_neg hen]
  rw [show (driverMachine L rb).step s a = a.apply L rb s from if_pos hen]
  cases hc : a.creates with
  | false => exact h.apply hi a hc hen
  | true =>
    cases a with
    | openProc pid => exact h.openProc pid
    | getThread p pid =>
      simp only [Action.apply, binderGetThread]
      split
      · exact h
      · exact h.newThread p pid
    | _ => cases hc

theorem unborn_reach {ok : Driver → Action → Prop} (h : (driverMachine L rb).Reach ok s) :
    Unborn s := by
  refine h.invariant_of (fun s => threadInv_reach) (fun s hs => ?_) fun s a hi _ hu _ => hu.step hi a
  cases hs
  exact ⟨fun _ _ => rfl, fun _ _ => rfl, fun _ _ => ⟨rfl, rfl⟩, fun _ hr => by cases hr⟩

/-! What makes a process or a thread -/

theorem liveAt_bare {A : BinderArea} {a : ℕ} (h : A.buffers = []) : Binder.liveAt A a = none := by
  cases hB : Binder.liveAt A a with
  | none => rfl
  | some B =>
    have := (liveAt_some hB).1
    rw [h] at this
    cases this

theorem CallInv.openProc (h : CallInv L gone loose s) (hu : Unborn s) (pid : ℕ) :
    CallInv L gone loose (binderOpen s pid) := by
  set s' := binderOpen s pid with hs'
  have hnew : s'.proc.get s.proc.next = { pid := pid } := s.proc.get_alloc_self _
  have hold : ∀ p, p ≠ s.proc.next → s'.proc.get p = s.proc.get p := fun p hp =>
    s.proc.get_alloc_ne p _ hp
  have hlive : ∀ b, s'.liveAt b = s.liveAt b := fun b => by
    by_cases hb : b.1 = s.proc.next
    · rw [Driver.liveAt, Driver.liveAt, hb, hnew, liveAt_bare rfl, liveAt_bare (hu.area _ le_rfl).1]
    · rw [Driver.liveAt, Driver.liveAt, hold _ hb]
  refine ⟨⟨h.txn.forest, h.txn.call_live, fun l u hq => ?_, fun u b hlt hf hb => ?_,
    fun b B u hB hBu => h.txn.back b B u ((hlive b).symm.trans hB) hBu,
    fun b B n hB hn => h.txn.target b B n ((hlive b).symm.trans hB) hn, fun p => ?_, h.txn.stack_lt,
    h.txn.waits, h.txn.unborn⟩, h.err.same rfl fun _ => rfl, h.out.same' (.of_eq rfl rfl) rfl⟩
  · refine (h.txn.placed l u hq).congr rfl hlive (fun p hp => ?_) fun hc => ?_
    · cases l with
      | procTodo q =>
        refine ⟨hp.1, ?_⟩
        by_cases hq : q = s.proc.next
        · rw [hq, hnew]
        · rw [hold q hq]
          exact hp.2
      | threadTodo R => exact hp
      | asyncTodo n => exact hp
      | deliveredDeath q => exact hp
    · obtain ⟨n, q, rfl, hn, hq, hcl⟩ := hc
      refine ⟨n, q, rfl, hn, hq, ?_⟩
      have hne : q ≠ s.proc.next := by
        rintro rfl
        rw [hu.closed _ le_rfl] at hcl
        cases hcl
      rw [hold q hne]
      exact hcl
  · obtain ⟨B, hB, hBu⟩ := h.txn.forward u b hlt hf hb
    exact ⟨B, (hlive b).trans hB, hBu⟩
  · by_cases hp : p = s.proc.next
    · rw [hp, hnew]
      exact ⟨Or.inr ⟨rfl, rfl, rfl⟩, fun _ => rfl⟩
    · rw [hold p hp]
      exact h.txn.area p

theorem CallInv.newThread (h : CallInv L gone loose s) (pid : ℕ) :
    CallInv L gone loose (newThread s p pid) := by
  set s' := Binder.newThread s p pid with hs'
  have hnew : s'.thread.get s.thread.next =
      { proc := p, pid := pid, looper := { needReturn := true } } := s.thread.get_alloc_self _
  have hold : ∀ T, T ≠ s.thread.next → s'.thread.get T = s.thread.get T := fun T hT =>
    s.thread.get_alloc_ne T _ hT
  have hproc : ∀ {β : Type} (g : BinderProc → β), (∀ x l, g { x with threads := l } = g x) →
      ∀ q, g (s'.proc.get q) = g (s.proc.get q) := fun g hg q =>
    s.proc.apply_get_modify p q _ g fun x => hg x _
  have hlive : ∀ b, s'.liveAt b = s.liveAt b := fun b => by
    rw [Driver.liveAt, Driver.liveAt, hproc (·.area) fun _ _ => rfl]
  have hstack : ∀ T, (s'.thread.get T).transactionStack = (s.thread.get T).transactionStack := by
    intro T
    by_cases hT : T = s.thread.next
    · rw [hT, hnew]
      by_contra hne
      exact absurd (h.txn.stack_lt s.thread.next fun hn => hne hn.symm) (lt_irrefl _)
    · rw [hold T hT]
  have hcalls : callsOf gone loose s' = callsOf gone loose s := by
    unfold callsOf
    simp only [hstack]
    rfl
  refine ⟨⟨hcalls ▸ h.txn.forest, h.txn.call_live, fun l u hq => ?_, fun u b hlt hf hb => ?_,
    fun b B u hB hBu => h.txn.back b B u ((hlive b).symm.trans hB) hBu,
    fun b B n hB hn => h.txn.target b B n ((hlive b).symm.trans hB) hn, fun q => ?_, fun T hT => ?_,
    fun T f hf hw => ?_, h.txn.unborn⟩, h.err.mono (fun _ => id) (fun T _ he => ?_)
    fun T u _ _ hu hsu => ⟨(hstack T).symm.trans hu, hsu⟩, h.out.same' (.of_eq rfl rfl) rfl⟩
  · refine (h.txn.placed l u hq).congr rfl hlive (fun q hp => ?_) fun hc => ?_
    · cases l with
      | procTodo r => exact ⟨hp.1, (hproc (·.released) (fun _ _ => rfl) r).trans hp.2⟩
      | threadTodo R =>
        refine ⟨hp.1.trans (Nat.lt_succ_self _), ?_⟩
        rw [hold R hp.1.ne]
        exact hp.2
      | asyncTodo n => exact hp
      | deliveredDeath q => exact hp
    · exact hc.congr rfl (hproc (·.closed) fun _ _ => rfl)
  · obtain ⟨B, hB, hBu⟩ := h.txn.forward u b hlt hf hb
    exact ⟨B, (hlive b).trans hB, hBu⟩
  · exact (h.txn.area q).congr (hproc (·.area) (fun _ _ => rfl) q)
      (hproc (·.released) (fun _ _ => rfl) q)
  · rw [hstack] at hT
    exact (h.txn.stack_lt T hT).trans (Nat.lt_succ_self _)
  · rw [hstack]
    by_cases hT : T = s.thread.next
    · rw [hT, hnew] at hf
      cases hf
    · rw [hold T hT] at hf
      exact h.txn.waits T f hf hw
  · by_cases hT : T = s.thread.next
    · rw [hT, hnew] at he
      exact absurd rfl he
    · rw [hold T hT] at he ⊢
      exact ⟨he, id⟩

/-! Mappings -/

theorem AreaInv.bufferSize_pos {A : BinderArea} (h : AreaInv L A) : A.bufferSize ≠ 0 := by
  intro hz
  obtain ⟨b, hb, ha⟩ : ∃ b ∈ A.buffers, b.addr = A.buffer := by
    have := List.mem_of_mem_head? h.starts
    obtain ⟨b, hb, ha⟩ := List.mem_map.1 this
    exact ⟨b, hb, ha⟩
  have hpair := List.pairwise_append.1 h.tiled
  have hlt := hpair.2.2 b.addr (List.mem_map.2 ⟨b, hb, rfl⟩) A.limit (by simp)
  have hpos := L.hdr_pos
  rw [BinderArea.limit, hz, ha] at hlt
  omega

theorem CallInv.mmap {base size : ℕ} {env : PageEnv} (h : CallInv L gone loose s)
    (hm : Mapped L base size) (hr : (s.proc.get p).released = false) :
    CallInv L gone loose (driverMmap L rb s p base size env) := by
  unfold driverMmap
  refine CallInv.ite (fun _ => h) fun hz => ?_
  have hz : (s.proc.get p).area.bufferSize = 0 := by simpa using hz
  have hnil : (s.proc.get p).area.buffers = [] := by
    rcases (h.txn.area p).area with hi | ⟨hnil, -, -⟩
    · exact absurd hz hi.bufferSize_pos
    · exact hnil
  cases hA : binderMmap L rb base size env with
  | none => exact h
  | some A =>
    have hnone : ∀ a, Binder.liveAt A a = none := fun a => by
      cases hB : Binder.liveAt A a with
      | none => rfl
      | some B =>
        obtain ⟨hmem, hfree, -⟩ := liveAt_some hB
        simp only [binderMmap] at hA
        split at hA <;> cases hA
        obtain rfl : B = { addr := base, free := true } := List.mem_singleton.1 hmem
        cases hfree
    refine CallInv.quiet (f := fun o => o.modOwn p fun w => { w with files := true }) ?_
      (quiet_modOwn _ p _)
    refine h.setArea (fun x => ⟨A, rfl⟩) (fun c C hC => ?_) (fun c C u hC _ => ?_)
      ⟨Or.inl (binderMmap_inv hm hA), fun hrel => ?_⟩
    · obtain ⟨q, a⟩ := c
      simp only [Driver.liveAt, Driver.modProc, Heap.get_modify] at hC ⊢
      split_ifs at hC with hq
      · rw [hnone] at hC
        cases hC
      · exact hC
    · obtain ⟨q, a⟩ := c
      simp only [Driver.liveAt, Driver.modProc, Heap.get_modify] at hC ⊢
      split_ifs with hq
      · subst hq
        rw [liveAt_bare hnil] at hC
        cases hC
      · exact hC
    · rw [hr] at hrel
      cases hrel

theorem CallInv.vmaClose (h : CallInv L gone loose s) : CallInv L gone loose (binderVmaClose s p) := by
  have hclose : CallInv L gone loose (s.modProc p fun x =>
      { x with area := { x.area with vma := false } }) := by
    have hlive : ∀ c, (s.modProc p fun x =>
        { x with area := { x.area with vma := false } }).liveAt c = s.liveAt c := fun c => by
      simp only [Driver.liveAt, Driver.modProc, Heap.get_modify]
      split_ifs with hc
      · rw [hc]
        rfl
      · rfl
    refine h.setArea (fun x => ⟨_, rfl⟩) (fun c C hC => (hlive c) ▸ hC)
      (fun c C u hC _ => (hlive c).trans hC) ⟨?_, fun _ => rfl⟩
    rcases (h.txn.area p).area with hi | ⟨h1, h2, -⟩
    · exact Or.inl (hi.charge L (s.proc.get p).area.freeAsyncSpace false)
    · exact Or.inr ⟨h1, h2, rfl⟩
  have := hclose.modProc (p := p) (f := fun x => { x with deferred := { x.deferred with putFiles := true } })
    (fun _ => rfl) (fun _ => rfl) fun _ => id
  have heq : binderVmaClose s p = (s.modProc p fun x =>
      { x with area := { x.area with vma := false } }).modProc p fun x =>
        { x with deferred := { x.deferred with putFiles := true } } := by
    simp only [binderVmaClose, Driver.modProc, Heap.modify_modify]
  rw [heq]
  exact this

/-! The deferred work of a process -/

/-- Nothing of the threads and processes differs that matters to the invariant of the threads. -/
theorem ThreadInv.grows (h : ThreadInv s) (hg : Grows .still s s') : ThreadInv s' where
  listed p T := by
    rw [hg.threadNext, hg.owner, (hg.freed T).resolve_left id, ← h.listed]
    exact ⟨fun hT => (hg.threads p).subset hT, fun hT => (hg.listed p T hT).resolve_left id⟩
  nodup p := (h.nodup p).sublist (hg.threads p)
  proc T hT := by
    rw [hg.owner, hg.procNext]
    exact h.proc T (hg.threadNext ▸ hT)
  awake T hT := by
    rw [hg.threadNext, hg.owner, (hg.freed T).resolve_left id, ((hg.life _).resolve_left id).1]
    exact h.awake T ((hg.asleep T hT).resolve_right id)
  closing p hp := by
    obtain ⟨h1, h2, -⟩ := (hg.life p).resolve_left id
    exact h1.trans (h.closing p (h2 hp))
  unmapped p hp := by
    obtain ⟨h1, -, h3⟩ := (hg.life p).resolve_left id
    by_contra hv
    have := h3 (by simpa using hv)
    rw [h.unmapped p (h1.symm.trans hp)] at this
    cases this

theorem CallInv.beforeRelease (h : CallInv L gone loose s) :
    CallInv L gone loose (beforeRelease s p) := by
  have hflush : ∀ (k : List ℕ) (s : Driver), CallInv L gone loose s →
      CallInv L gone loose (k.foldl (fun s T => s.modThread T fun y =>
        { y with looper := { y.looper with needReturn := true } }) s) := fun k => by
    induction k with
    | nil => exact fun _ => id
    | cons T k ih => exact fun s hs => ih _ (hs.modThread (harmless_looper fun _ => ⟨_, rfl⟩))
  have h₁ : CallInv L gone loose (s.modProc p fun x => { x with deferred := {} }) :=
    h.modProc (fun _ => rfl) (fun _ => rfl) fun _ => id
  have h₂ := CallInv.ite (c := (s.proc.get p).deferred.putFiles = true)
    (fun _ => h₁.quiet (f := fun o => o.modOwn p fun w => { w with files := false })
      (quiet_modOwn _ p _)) fun _ => h₁
  unfold Binder.beforeRelease
  exact CallInv.ite (fun _ => hflush _ _ h₂) fun _ => h₂

theorem CallInv.deferredFunc {env : ℕ → PageEnv} (h : CallInv L s.dead none s) (hi : ThreadInv s) :
    CallInv L (binderDeferredFunc L rb env s p).dead none (binderDeferredFunc L rb env s p) := by
  have hg : Grows .still s (Binder.beforeRelease s p) := beforeRelease_grows s p
  have h₁ : CallInv L (Binder.beforeRelease s p).dead none (Binder.beforeRelease s p) := by
    rw [dead_of_grows hg fun _ => id]
    exact h.beforeRelease
  rw [binderDeferredFunc_eq]
  split
  · rename_i hr
    refine h₁.deferredRelease (hi.grows hg) ?_
    exact ((hg.life p).resolve_left id).1.trans (hi.closing p hr)
  · exact h₁

/-! Every step -/

theorem CallInv.lookForWork (h : CallInv L gone loose s) :
    CallInv L gone loose (lookForWork s T) := by
  unfold Binder.lookForWork
  split
  · exact h
  · rename_i f hf
    refine CallInv.ite (fun _ => h) fun _ => .ite (fun _ => ?_) fun _ => h
    dsimp only
    have hkeep : ∀ {β : Type} (g : BinderThread → β), (∀ y o, g { y with asleep := o } = g y) →
        ∀ S, g ((s.modThread T fun y => { y with
          asleep := some { f with verdict := some (hasWork s T f.waitForProcWork) } }).thread.get S) =
            g (s.thread.get S) := fun g hg S =>
      s.thread.apply_get_modify T S (fun y => { y with
        asleep := some { f with verdict := some (hasWork s T f.waitForProcWork) } }) g fun y => hg y _
    refine h.same { TxnSame.refl (L := L) s with
      stack := hkeep (·.transactionStack) fun _ _ => rfl
      threadProc := hkeep (·.proc) fun _ _ => rfl
      freed := hkeep (·.freed) fun _ _ => rfl
      waits := fun S f' hf' hw => ?_ } (hkeep (·.returnError) fun _ _ => rfl)
      (hkeep (·.returnError2) fun _ _ => rfl) (.of_eq rfl rfl)
    rw [hkeep (·.transactionStack) fun _ _ => rfl]
    simp only [Driver.modThread, Heap.get_modify] at hf'
    split_ifs at hf' with hST
    · cases hf'
      exact Or.inl (hST ▸ h.txn.waits T f hf hw)
    · exact Or.inr hf'

theorem CallInv.setContextMgr {euid : ℕ} {kzalloc : Bool} (h : CallInv L gone loose s) :
    CallInv L gone loose (setCtxMgr s T euid kzalloc) := by
  unfold setCtxMgr
  refine CallInv.ite (fun _ => h) fun _ => ?_
  have huid : CallInv L gone loose { s with contextMgrUid := some (s.contextMgrUid.getD euid) } :=
    h.same { TxnSame.refl (L := L) s with } (fun _ => rfl) (fun _ => rfl) (.of_eq rfl rfl)
  have hmgr : ∀ (s : Driver) (m : Option ℕ), CallInv L gone loose s →
      CallInv L gone loose (s.modObj fun o => { o with contextMgrNode := m }) := fun s m hs =>
    hs.same { TxnSame.refl (L := L) s with } (fun _ => rfl) (fun _ => rfl) (.of_eq rfl rfl)
  have hnode := huid.quiet (f := fun o =>
    (binderNewNode o (s.thread.get T).proc 0 0 kzalloc).1) (binderNewNode_quiet _ _ _ _ _)
  dsimp only
  cases hnew : binderNewNode s.obj (s.thread.get T).proc 0 0 kzalloc with
  | mk o n =>
    simp only [Driver.modObj, hnew] at hnode ⊢
    cases n with
    | none => exact hmgr _ none hnode
    | some n =>
      exact (hmgr _ (some n) hnode).quiet (f := fun o => o.modNode n fun x =>
        { x with
          localWeakRefs := x.localWeakRefs + 1, localStrongRefs := x.localStrongRefs + 1
          hasStrongRef := true, hasWeakRef := true }) (quiet_modNode _ n fun _ => rfl)

/-- Whether a step is a call that would be sent to the thread that makes it. -/
def Action.selfRouted (s : Driver) : Action → Bool
  | write T c _ => c.selfRouted s T
  | _ => false

/-- A step in which no thread comes or goes. -/
theorem CallInv.still {a : Action} (hc : a.creates = false) (hl : a.leaver = none)
    (hd : a.defers = none) (h : CallInv L s.dead none (a.apply L rb s)) :
    CallInv L (a.apply L rb s).dead none (a.apply L rb s) := by
  have hK : ∀ T, ¬(a.scope s).exits T := fun T hT => by
    simp only [Action.scope, hl, hd, reduceCtorEq, false_and, exists_false, or_self] at hT
  rw [dead_of_grows (apply_grows L rb s a hc) hK]
  exact h

theorem CallInv.apply (h : CallInv L s.dead none s) (hi : ThreadInv s) (hu : Unborn s) (a : Action)
    (hen : a.enabled L s = true) (hself : a.selfRouted s = false) :
    CallInv L (a.apply L rb s).dead none (a.apply L rb s) := by
  have hlooper : ∀ T b, CallInv L s.dead none (s.modThread T fun y =>
      { y with looper := { y.looper with needReturn := b } }) := fun T b =>
    h.modThread (harmless_looper fun _ => ⟨_, rfl⟩)
  cases a with
  | openProc pid => exact h.openProc hu pid
  | getThread p pid =>
    simp only [Action.apply, binderGetThread]
    split
    · exact h
    · have hdead : (Binder.newThread s p pid).dead = s.dead := by
        funext T
        have hget : (Binder.newThread s p pid).thread.get T = if T = s.thread.next then
            { proc := p, pid := pid, looper := { needReturn := true } } else s.thread.get T := rfl
        rw [Driver.dead, Driver.dead, hget]
        split_ifs with hT
        · rw [hT, hu.freed _ le_rfl]
        · rfl
      rw [hdead]
      exact h.newThread pid
  | mmap p base size env =>
    simp only [Action.enabled, Driver.isOpen, Bool.and_eq_true, decide_eq_true_eq,
      Bool.not_eq_true'] at hen
    refine .still rfl rfl rfl (h.mmap hen.2 ?_)
    by_contra hr
    have := hu.released p (by simpa using hr)
    rw [hen.1.2] at this
    cases this
  | vmaClose p => exact .still rfl rfl rfl h.vmaClose
  | flush p =>
    exact .still rfl rfl rfl
      (h.modProc (fun _ => rfl) (fun _ => rfl) fun _ => id)
  | close p =>
    exact .still rfl rfl rfl
      (h.modProc (fun _ => rfl) (fun _ => rfl) fun _ _ => rfl)
  | deferredFunc p env => exact h.deferredFunc hi
  | write T c env =>
    refine .still rfl rfl rfl ?_
    simp only [Action.enabled, Bool.and_eq_true] at hen
    obtain ⟨h1, h2, h3, -, h4⟩ := Driver.ready_spec hen.1
    exact CallInv.ite (fun hok => h.binderCommand ⟨h1, h2, hok, h3⟩ h4 hen.2 hself) fun _ => h
  | read T size consumed nonBlock fault =>
    refine .still rfl rfl rfl ?_
    simp only [Action.apply, binderThreadRead]
    refine CallInv.ite (fun _ => .ite (fun _ => h) fun _ => ?_) fun _ => ?_
    · exact h.waitForWork
    · exact h.waitForWork
  | lookForWork T =>
    exact .still rfl rfl rfl h.lookForWork
  | resume T fault =>
    refine .still rfl rfl rfl ?_
    cases hw : (s.thread.get T).asleep with
    | none =>
      simp only [Action.apply, Binder.resumeRead, hw]
      exact h
    | some f =>
      obtain ⟨h1, h2, -⟩ := hi.awake T (by simp [hw])
      exact h.resumeRead h1 (by simp [Driver.dead, h2])
  | interrupt T =>
    refine .still rfl rfl rfl ?_
    simp only [Action.apply, interruptRead]
    split
    · exact h
    · exact CallInv.ite (fun _ => h) fun _ => h.stopWaiting
  | ioctlDone T =>
    exact .still rfl rfl rfl (hlooper T false)
  | setMaxThreads T n =>
    exact .still rfl rfl rfl
      (h.modProc (fun _ => rfl) (fun _ => rfl) fun _ => id)
  | setContextMgr T euid kzalloc =>
    exact .still rfl rfl rfl h.setContextMgr
  | threadExit T => exact h.threadExit (Driver.ready_spec hen).2.1

theorem callInv_start : CallInv L (Driver.dead {}) none {} := by
  have hno : ∀ t : ℕ, (({} : Driver).txn.get t).needReply ≠ true := fun t ht => by
    have hnone : (({} : Driver).txn.get t).needReply = false := rfl
    rw [hnone] at ht
    cases ht
  have hmem : ∀ e, e ∉ ({} : Driver).obj.todo.entries := fun e => List.not_mem_nil
  refine ⟨⟨⟨{[]}, rfl, fun l hl => ?_, fun l hl => ?_, fun t => ?_, fun l hl m hm t htl => ?_,
    fun T => ⟨[], rfl, fun t ht => absurd ht (hno t), ?_⟩, fun l hl t ht => ?_, fun t l hl => ?_,
    fun t ht => ?_⟩, fun t ht => absurd ht (hno t), fun l t ht => absurd ht (hmem _),
    fun t b ht => absurd ht (Nat.not_lt_zero t), fun b B t hB => ?_, fun b B n hB => ?_,
    fun p => ⟨Or.inr ⟨rfl, rfl, rfl⟩, fun _ => rfl⟩, fun T hT => absurd rfl hT, fun T f hf => ?_,
    fun n _ => rfl⟩, ⟨fun T _ he => absurd rfl he, fun T t _ he => absurd rfl he⟩,
    ⟨fun t ht => absurd ht (hno t), fun T t ht => ?_, fun T T' t ht => ?_,
      fun t _ => ⟨rfl, fun T => List.not_mem_nil⟩, fun e he => ?_, fun b hb => ?_⟩⟩
  · rw [Set.mem_singleton_iff.1 hl]
    trivial
  · rw [Set.mem_singleton_iff.1 hl]
    exact List.nodup_nil
  · refine iff_of_false (hno t) ?_
    rintro ⟨l, hl, ht⟩
    rw [Set.mem_singleton_iff.1 hl] at ht
    cases ht
  · rw [Set.mem_singleton_iff.1 hl] at htl
    cases htl
  · change (if Driver.dead {} T = true then none else none) = none
    split_ifs <;> rfl
  · rw [Set.mem_singleton_iff.1 hl] at ht
    cases ht
  · cases Set.mem_singleton_iff.1 hl
  · cases ht
  · rw [Driver.liveAt, liveAt_bare rfl] at hB
    cases hB
  · rw [Driver.liveAt, liveAt_bare rfl] at hB
    cases hB
  · cases hf
  · cases ht
  · cases ht
  · cases he
  · cases hb

/-- Over a run in which no call is sent to the thread that makes it, the invariant holds. -/
theorem callInv_reach (h : (driverMachine L rb).Reach (fun s a => a.selfRouted s = false) s) :
    CallInv L s.dead none s := by
  refine h.invariant_of (I := fun s => ThreadInv s ∧ Unborn s) (J := fun s => CallInv L s.dead none s)
    (fun s hs => ⟨threadInv_reach hs, unborn_reach hs⟩) (fun s hs => ?_) fun s a hi _ hs ha => ?_
  · cases hs
    exact callInv_start
  · by_cases hen : a.enabled L s = true
    · rw [show (driverMachine L rb).step s a = a.apply L rb s from if_pos hen]
      exact hs.apply hi.1 hi.2 a hen ha
    · rwa [show (driverMachine L rb).step s a = s from if_neg hen]

end Binder
