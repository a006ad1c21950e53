import BinderIpc.Txn.Buffers

/-! The release of a process: its threads exit, its nodes lose their owner, its work
is thrown away, and last its buffers are freed. -/

namespace Binder

variable {L : Layout} {rb : RbTree ℕ} {gone : ℕ → Bool} {loose : Option ℕ} {s s' : Driver}
  {t T p n : ℕ} {l : ListHead}

/-! Threads -/

theorem dead_of_grows {K : Scope} (hg : Grows K s s') (hK : ∀ T, ¬K.exits T) :
    s'.dead = s.dead := by
  funext T
  simp only [Driver.dead]
  rw [(hg.freed T).resolve_left (hK T)]

theorem dead_freeThread : (binderFreeThread s T).dead = orGone T s.dead := by
  funext S
  have hg : Grows { Scope.still with exits := (· = T) } s (binderFreeThread s T) :=
    binderFreeThread_grows s T rfl
  by_cases hS : S = T
  · subst hS
    simp [Driver.dead, orGone, binderFreeThread, Driver.modThread]
  · simp only [Driver.dead, orGone, hS, decide_false, Bool.false_or]
    rw [(hg.freed S).resolve_left hS]

theorem CallInv.threadExit (h : CallInv L s.dead none s) (hf : (s.thread.get T).freed = 0) :
    CallInv L (binderFreeThread s T).dead none (binderFreeThread s T) := by
  rw [dead_freeThread]
  exact h.freeThread hf

theorem CallInv.freeThreads {k : List ℕ} (h : CallInv L s.dead none s) (hnd : k.Nodup)
    (hk : ∀ T ∈ k, (s.thread.get T).freed = 0) :
    CallInv L (k.foldl binderFreeThread s).dead none (k.foldl binderFreeThread s) := by
  induction k generalizing s with
  | nil => exact h
  | cons T k ih =>
    obtain ⟨hT, hnd⟩ := List.nodup_cons.1 hnd
    refine ih (h.threadExit (hk T (by simp))) hnd fun S hS => ?_
    have hg : Grows { Scope.still with exits := (· = T) } s (binderFreeThread s T) :=
      binderFreeThread_grows s T rfl
    have hST : S ≠ T := fun he => hT (he ▸ hS)
    exact ((hg.freed S).resolve_left hST).trans (hk S (by simp [hS]))

/-! Nodes -/

/-- A node without asynchronous work loses its owner. -/
theorem CallInv.orphan (h : CallInv L gone none s) (hempty : ∀ t, ¬s.queued (.asyncTodo n) t)
    {f : BinderNode → BinderNode} (hf : ∀ x, (f x).proc = none) :
    CallInv L gone none (s.modObj fun o => o.modNode n f) := by
  have hne : ∀ m, m ≠ n → (s.modObj fun o => o.modNode n f).obj.node.get m = s.obj.node.get m :=
    fun m hm => s.obj.node.get_modify_ne n m f hm
  refine ⟨⟨h.txn.forest, h.txn.call_live, fun l u hu => ?_, h.txn.forward, h.txn.back,
    fun b B m hB hm => ?_, h.txn.area, h.txn.stack_lt, h.txn.waits, fun m hm => ?_⟩,
    h.err.same rfl fun _ => rfl, h.out.same' (.of_eq rfl rfl) rfl⟩
  · have hl : l ≠ .asyncTodo n := fun he => hempty u (he ▸ hu)
    refine (h.txn.placed l u hu).congr rfl (fun _ => rfl) (fun q hq => ?_) fun hc => ?_
    · cases l with
      | asyncTodo m =>
        have hmn : m ≠ n := fun he => hl (he ▸ rfl)
        exact ⟨hq.1, (congrArg BinderNode.proc (hne m hmn)).trans hq.2⟩
      | threadTodo R => exact hq
      | procTodo q => exact hq
      | deliveredDeath q => exact hq
    · obtain ⟨m, q, rfl, hm, hp, hcl⟩ := hc
      have hmn : m ≠ n := fun he => hl (he ▸ rfl)
      exact ⟨m, q, rfl, hm, (congrArg BinderNode.proc (hne m hmn)).trans hp, hcl⟩
  · obtain ⟨h1, h2⟩ := h.txn.target b B m hB hm
    refine ⟨h1, fun q hq => ?_⟩
    by_cases hmn : m = n
    · subst hmn
      have hself : ((s.modObj fun o => o.modNode m f).obj.node.get m).proc = none :=
        (congrArg BinderNode.proc (s.obj.node.get_modify_self m f)).trans (hf _)
      rw [hself] at hq
      cases hq
    · rw [hne m hmn] at hq
      exact h2 q hq
  · by_cases hmn : m = n
    · subst hmn
      exact (congrArg BinderNode.proc (s.obj.node.get_modify_self m f)).trans (hf _)
    · exact (congrArg BinderNode.proc (hne m hmn)).trans (h.txn.unborn m hm)

theorem notifyDeaths_quiet (refs : List ℕ) (o : Objects) : Quiet o (refs.foldl notifyDeath o) := by
  induction refs generalizing o with
  | nil => exact .refl o
  | cons r refs ih => exact (notifyDeath_quiet o r).trans (ih _)

theorem CallInv.releaseNode (h : CallInv L gone none s) (p n : ℕ) :
    CallInv L gone none (releaseNode p s n) := by
  have h₁ : CallInv L gone none (s.modObj fun o =>
      o.modOwn p fun w => { w with nodes := w.nodes.erase n }) := h.quiet (quiet_modOwn _ p _)
  have h₂ : CallInv L gone none ((s.modObj fun o =>
      o.modOwn p fun w => { w with nodes := w.nodes.erase n }).note (.nodeReleased n)) :=
    h₁.same (same_note _) (fun _ => rfl) (fun _ => rfl) (sameOutcomes_note rfl rfl rfl)
  obtain ⟨h₃, hempty, -⟩ := (h₂.unqueue (w := .node n) (by simp)).releaseWork (.asyncTodo n)
  unfold Binder.releaseNode binderNodeRelease
  dsimp only
  set s₃ := binderReleaseWork _ (.asyncTodo n)
  by_cases hrefs : (s₃.obj.node.get n).refs = []
  · have hfree : CallInv L gone none (s₃.modObj fun o =>
        o.modNode n fun x => { x with freed := x.freed + 1 }) :=
      h₃.quiet (quiet_modNode _ n fun _ => rfl)
    simpa only [Driver.modObj, hrefs, if_true] using hfree
  · have h₄ := h₃.orphan (n := n) (fun t ht => hempty _ ht)
      (f := fun x => { x with proc := none, localStrongRefs := 0, localWeakRefs := 0 }) fun _ => rfl
    have hdead : ∀ o : Objects, Quiet o { o with deadNodes := n :: o.deadNodes } := fun o =>
      ⟨rfl, le_rfl, fun _ _ => rfl, fun _ _ => rfl, rfl, fun _ => Or.inl⟩
    have h₅ := h₄.quiet (f := fun o =>
      (o.node.get n).refs.foldl notifyDeath { o with deadNodes := n :: o.deadNodes })
      ((hdead _).trans (notifyDeaths_quiet _ _))
    simpa only [Driver.modObj, hrefs, if_false] using h₅

theorem CallInv.releaseNodes {k : List ℕ} (h : CallInv L gone none s) :
    CallInv L gone none (k.foldl (Binder.releaseNode p) s) := by
  induction k generalizing s with
  | nil => exact h
  | cons n k ih => exact ih (h.releaseNode p n)

theorem deleteRefs_quiet (refs : List ℕ) (o : Objects) : Quiet o (refs.foldl binderDeleteRef o) := by
  induction refs generalizing o with
  | nil => exact .refl o
  | cons r refs ih => exact (binderDeleteRef_quiet o r).trans (ih _)

/-! Buffers -/

/-- The transactions that are left on lists of `p` are those of its nodes. -/
def Cleared (s : Driver) (p : ℕ) : Prop := ∀ l t, s.queued l t → Home s p l → Closing s l

theorem Cleared.congr (h : Cleared s p) (hobj : s'.obj = s.obj) (hth : s'.thread = s.thread)
    (hr : ∀ q, (s'.proc.get q).released = (s.proc.get q).released)
    (hc : ∀ q, (s'.proc.get q).closed = (s.proc.get q).closed) : Cleared s' p := fun l t ht hl => by
  rw [Driver.queued, hobj] at ht
  have hl' : Home s p l := hl.congr hth.symm (by rw [hobj]) fun q => (hr q).symm
  exact (h l t ht hl').congr (by rw [hobj]) hc

/-- The transaction of a buffer of `p` is on no list, or on that of a node of a closed process. -/
theorem CallInv.unlinked (h : CallInv L gone loose s) (hc : Cleared s p) {a : ℕ} {B : BinderBuffer}
    (hB : s.liveAt (p, a) = some B) (hBt : B.transaction = some t) (l : ListHead)
    (hq : s.queued l t) : Closing s l := by
  rcases (h.txn.placed l t hq).buffer with ⟨b, -, hb, -, -, -, hl⟩ | hcl
  · rw [(h.txn.back _ B t hB hBt).2.2] at hb
    cases hb
    exact hc l t hq hl
  · exact hcl

theorem CallInv.releaseBuffer (rb : RbTree ℕ) (env : ℕ → PageEnv) {a : ℕ} {B : BinderBuffer}
    (h : CallInv L gone loose s) (hc : Cleared s p) (hB : s.liveAt (p, a) = some B) :
    CallInv L gone loose (Binder.releaseBuffer L rb env p s a) ∧
      Cleared (Binder.releaseBuffer L rb env p s a) p ∧
      ∀ c, c ≠ (p, a) → (Binder.releaseBuffer L rb env p s a).liveAt c = s.liveAt c := by
  have hproc : ∀ (s : Driver) {β : Type} (g : BinderProc → β), (∀ x a, g { x with area := a } = g x) →
      ∀ q, g ((s.modProc p fun x => { x with area := binderFreeBuf L rb x.area a (env a) }).proc.get q) =
        g (s.proc.get q) := fun s _ g hg q =>
    s.proc.apply_get_modify p q (fun x => { x with area := binderFreeBuf L rb x.area a (env a) }) g
      fun x => hg x _
  unfold Binder.releaseBuffer
  rw [h.txn.bufferAt_eq hB, Option.bind_some]
  cases hBt : B.transaction with
  | none =>
    dsimp only
    refine ⟨h.freeBuf _ _ hB hBt, ?_, fun c hca => ?_⟩
    · exact hc.congr rfl rfl (hproc s (·.released) fun _ _ => rfl) (hproc s (·.closed) fun _ _ => rfl)
    · rw [liveAt_freeBuf _ _ h.txn hB, if_neg hca]
  | some t =>
    have hcut := h.cut hB hBt (h.unlinked hc hB hBt)
    have hB' : (cutBuffer s (p, a) t).liveAt (p, a) = some { B with transaction := none } := by
      rw [liveAt_cutBuffer, if_pos rfl, hB]
      rfl
    have hproc' : ∀ {β : Type} (g : BinderProc → β), (∀ x a, g { x with area := a } = g x) →
        ∀ q, g ((cutBuffer s (p, a) t).proc.get q) = g (s.proc.get q) := fun g hg q =>
      proc_modBuffer (s := s.modTxn t fun x => { x with buffer := none }) g hg (p, a)
        (fun B => { B with transaction := none }) q
    have hc' : Cleared (cutBuffer s (p, a) t) p :=
      hc.congr rfl rfl (hproc' (·.released) fun _ _ => rfl) (hproc' (·.closed) fun _ _ => rfl)
    refine ⟨hcut.freeBuf _ _ hB' rfl, ?_, fun c hca => ?_⟩
    · exact hc'.congr rfl rfl (hproc (cutBuffer s (p, a) t) (·.released) fun _ _ => rfl)
        (hproc (cutBuffer s (p, a) t) (·.closed) fun _ _ => rfl)
    · exact (liveAt_freeBuf _ _ hcut.txn hB' c).trans
        ((if_neg hca).trans ((liveAt_cutBuffer c).trans (if_neg hca)))

theorem CallInv.releaseBuffers (rb : RbTree ℕ) (env : ℕ → PageEnv) {k : List ℕ} (h : CallInv L gone loose s)
    (hc : Cleared s p) (hnd : k.Nodup) (hk : ∀ a ∈ k, (s.liveAt (p, a)).isSome) :
    CallInv L gone loose (k.foldl (Binder.releaseBuffer L rb env p) s) := by
  induction k generalizing s with
  | nil => exact h
  | cons a k ih =>
    obtain ⟨ha, hnd⟩ := List.nodup_cons.1 hnd
    obtain ⟨B, hB⟩ := Option.isSome_iff_exists.1 (hk a (by simp))
    obtain ⟨h', hc', hlive⟩ := h.releaseBuffer rb env hc hB
    refine ih h' hc' hnd fun d hd => ?_
    have hda : d ≠ a := fun he => ha (he ▸ hd)
    rw [hlive _ (by simpa using hda)]
    exact hk d (by simp [hd])

theorem TxnInv.allocated_live (h : TxnInv L gone loose s) (p : ℕ) :
    (s.proc.get p).area.allocatedBuffers.inorder.Nodup ∧
      ∀ a ∈ (s.proc.get p).area.allocatedBuffers.inorder, (s.liveAt (p, a)).isSome := by
  rcases (h.area p).area with hi | ⟨-, hleaf, -⟩
  · rw [hi.allocTree]
    refine ⟨(hi.tiled.nodup L.hdr_pos).sublist (addrsWhere_sublist _), fun a ha => ?_⟩
    obtain ⟨b, hb, hf, rfl⟩ := mem_addrsWhere.1 ha
    exact Option.isSome_iff_exists.2 ⟨b, hi.liveAt_eq hb (by simpa using hf)⟩
  · rw [hleaf]
    exact ⟨List.nodup_nil, by simp⟩

/-- The process is marked as released. -/
theorem CallInv.released (h : CallInv L gone loose s) (hempty : ∀ t, ¬s.queued (.procTodo p) t)
    (hvma : (s.proc.get p).area.vma = false) :
    CallInv L gone loose (s.modProc p fun x => { x with released := true }) := by
  have hkeep : ∀ {β : Type} (g : BinderProc → β), (∀ x, g { x with released := true } = g x) →
      ∀ q, g ((s.modProc p fun x => { x with released := true }).proc.get q) = g (s.proc.get q) :=
    fun g hg q => s.proc.apply_get_modify p q (fun x => { x with released := true }) g hg
  have hlive : ∀ b, (s.modProc p fun x => { x with released := true }).liveAt b = s.liveAt b := fun b =>
    congrArg (liveAt · b.2) (hkeep (·.area) (fun _ => rfl) b.1)
  have hne : ∀ q, q ≠ p → (s.modProc p fun x => { x with released := true }).proc.get q =
      s.proc.get q := fun q hq => s.proc.get_modify_ne p q (fun x => { x with released := true }) hq
  refine ⟨⟨h.txn.forest, h.txn.call_live, fun l u hu => ?_, fun u c hul huf hub => ?_,
    fun c C u hC hCu => h.txn.back c C u ((hlive c) ▸ hC) hCu,
    fun c C n hC hn => h.txn.target c C n ((hlive c) ▸ hC) hn, fun q => ⟨?_, fun hr => ?_⟩,
    h.txn.stack_lt, h.txn.waits, h.txn.unborn⟩, h.err.same rfl fun _ => rfl, h.out.same' (.of_eq rfl rfl) rfl⟩
  · refine (h.txn.placed l u hu).congr rfl hlive (fun q hq => ?_) fun hc =>
      hc.congr rfl (hkeep (·.closed) fun _ => rfl)
    cases l with
    | procTodo r =>
      have hrp : r ≠ p := by
        rintro rfl
        exact hempty u hu
      exact ⟨hq.1, (congrArg BinderProc.released (hne r hrp)).trans hq.2⟩
    | threadTodo R => exact hq
    | asyncTodo n => exact hq
    | deliveredDeath r => exact hq
  · rw [hlive]
    exact h.txn.forward u c hul huf hub
  · rw [hkeep (·.area) fun _ => rfl]
    exact (h.txn.area q).area
  · rw [hkeep (·.area) fun _ => rfl]
    by_cases hq : q = p
    · exact hq ▸ hvma
    · rw [hne q hq] at hr
      exact (h.txn.area q).released hr

theorem releaseBuffers_obj {env : ℕ → PageEnv} {k : List ℕ} :
    (k.foldl (Binder.releaseBuffer L rb env p) s).obj = s.obj := by
  induction k generalizing s with
  | nil => rfl
  | cons a k ih =>
    refine ih.trans ?_
    unfold Binder.releaseBuffer
    split <;> rfl

/-- `binder_deferred_release` up to the threads. -/
def releaseStart (s : Driver) (p : ℕ) : Driver :=
  ((s.bugOn (s.proc.get p).area.vma .vmaMapped).bugOn (s.obj.own p).files .filesOpen).modObj fun o =>
    if (o.contextMgrNode.any fun n => (o.node.get n).proc = some p) then
      { o with contextMgrNode := none }
    else o

theorem CallInv.releaseStart (h : CallInv L gone loose s) (p : ℕ) :
    CallInv L gone loose (releaseStart s p) := by
  have h₁ : CallInv L gone loose
      ((s.bugOn (s.proc.get p).area.vma .vmaMapped).bugOn (s.obj.own p).files .filesOpen) :=
    (h.same (same_bugOn _ _) (fun _ => rfl) (fun _ => rfl) (sameOutcomes_bugOn fun _ => rfl)).same
      (same_bugOn _ _) (fun _ => rfl) (fun _ => rfl) (sameOutcomes_bugOn fun _ => rfl)
  unfold Binder.releaseStart
  set s₁ := (s.bugOn (s.proc.get p).area.vma .vmaMapped).bugOn (s.obj.own p).files .filesOpen
  have hnone : CallInv L gone loose (s₁.modObj fun o => { o with contextMgrNode := none }) :=
    h₁.same { TxnSame.refl s₁ with } (fun _ => rfl) (fun _ => rfl) (.of_eq rfl rfl)
  simp only [Driver.modObj] at hnone ⊢
  split
  · exact hnone
  · exact h₁

/-- What is left on the lists of a process when its threads are gone and its own list is empty. -/
theorem cleared_of_release (hi : ThreadInv s) (hclosed : (s.proc.get p).closed = true)
    (hg : Grows { Scope.still with exits := fun _ => True } s s')
    (hleft : ∀ T ∈ (s.proc.get p).threads, (s'.thread.get T).freed ≠ 0)
    (hempty : ∀ t, ¬s'.queued (.procTodo p) t) : Cleared s' p := fun l t ht hl => by
  cases l with
  | threadTodo T =>
    obtain ⟨h1, h2, h3⟩ := hl
    have hfreed : (s.thread.get T).freed = 0 := by
      by_contra hne
      exact hg.dead T hne h2
    exact absurd h2 (hleft T ((hi.listed p T).2 ⟨hg.threadNext ▸ h1, hfreed, hg.owner T ▸ h3⟩))
  | procTodo q =>
    obtain ⟨rfl, -⟩ := hl
    exact absurd ht (hempty t)
  | asyncTodo n =>
    exact ⟨n, p, rfl, hl.1, hl.2, ((hg.life p).resolve_left id).1.trans hclosed⟩
  | deliveredDeath q => exact hl.elim

theorem releaseStart_grows {K : Scope} : Grows K s (Binder.releaseStart s p) :=
  ((grows_bugOn s _ _).trans (grows_bugOn _ _ _)).trans (grows_modObj _ _)

theorem CallInv.deferredRelease {env : ℕ → PageEnv} (h : CallInv L s.dead none s)
    (hi : ThreadInv s) (hclosed : (s.proc.get p).closed = true) :
    CallInv L (binderDeferredRelease L rb env s p).dead none (binderDeferredRelease L rb env s p) := by
  set s₁ := Binder.releaseStart s p with hs₁
  have h₁ : CallInv L s₁.dead none s₁ := h.releaseStart p
  set s₂ := (s.proc.get p).threads.foldl binderFreeThread s₁ with hs₂
  have h₂ : CallInv L s₂.dead none s₂ :=
    h₁.freeThreads (hi.nodup p) fun T hT => ((hi.listed p T).1 hT).2.1
  have hg₂ : Grows { Scope.still with exits := fun _ => True } s s₂ :=
    releaseStart_grows.trans (.foldl (fun s T _ => binderFreeThread_grows s T trivial) _)
  have hleft : ∀ T ∈ (s.proc.get p).threads, Left s₂ T :=
    freeThreads_left (hi.trees.grows (K := .still) releaseStart_grows)
  set s₃ := (s₂.obj.own p).nodes.foldl (Binder.releaseNode p) s₂ with hs₃
  have h₃ : CallInv L s₂.dead none s₃ := h₂.releaseNodes
  set s₄ := s₃.modObj fun o => (o.own p).refsByDesc.foldl binderDeleteRef o with hs₄
  have h₄ : CallInv L s₂.dead none s₄ := h₃.quiet (deleteRefs_quiet _ _)
  obtain ⟨h₅, hproc, -⟩ := h₄.releaseWork (.procTodo p)
  obtain ⟨h₆, -, hsub⟩ := h₅.releaseWork (.deliveredDeath p)
  set s₆ := binderReleaseWork (binderReleaseWork s₄ (.procTodo p)) (.deliveredDeath p) with hs₆
  have hgrows : ∀ {K : Scope}, Grows K s₂ s₆ := by
    intro K
    have hnodes : Grows K s₂ s₃ := Grows.foldl (fun s n _ => releaseNode_grows s p n) _
    exact ((hnodes.trans (grows_modObj s₃ _)).trans (binderReleaseWork_grows s₄ _)).trans
      (binderReleaseWork_grows _ _)
  have hempty : ∀ t, ¬s₆.queued (.procTodo p) t := fun t ht => hproc _ (hsub _ _ ht)
  have hcleared : Cleared s₆ p := cleared_of_release hi hclosed (hg₂.trans hgrows)
    (fun T hT => ((hleft T hT).grows (hgrows (K := .still))).freed) hempty
  obtain ⟨hnd, hlive⟩ := h₆.txn.allocated_live p
  have h₇ := h₆.releaseBuffers rb env hcleared hnd hlive
  set s₇ := (s₆.proc.get p).area.allocatedBuffers.inorder.foldl (Binder.releaseBuffer L rb env p) s₆
    with hs₇
  have hgrows₇ : ∀ {K : Scope}, Grows K s₂ s₇ := fun {K} =>
    hgrows.trans (Grows.foldl (fun s a _ => releaseBuffer_grows L rb s p env a) _)
  have hvma : (s₇.proc.get p).area.vma = false := by
    by_contra hv
    have := (((hg₂.trans hgrows₇).life p).resolve_left id).2.2 (by simpa using hv)
    rw [hi.unmapped p hclosed] at this
    cases this
  have h₈ := h₇.released (p := p)
    (fun t ht => hempty t (by rwa [Driver.queued, hs₇, releaseBuffers_obj] at ht)) hvma
  have hall : binderDeferredRelease L rb env s p =
      s₇.modProc p fun x => { x with released := true } := rfl
  have hdead : (s₇.modProc p fun x => { x with released := true }).dead = s₂.dead :=
    dead_of_grows (hgrows₇.trans (grows_released (K := { Scope.still with frees := (· = p) }) s₇ p rfl))
      fun _ => id
  rw [hall, hdead]
  exact h₈

end Binder
