import BinderIpc.Death.Runs
import BinderIpc.Node.Reads
import BinderIpc.Wire.ReadFaults

/-! Nodes over whole runs: the graph of nodes and references is consistent in every
reachable state, and the commands for a node come in their order. -/

namespace Binder

section

variable {w : NodeWatch} {s : Driver} {p : ℕ}

theorem releaseNodes_nodeInv {l : List ℕ} (h : NodeInv w s) (hn : (s.obj.own p).nodes = l) :
    NodeInv w (l.foldl (releaseNode p) s) ∧ ((l.foldl (releaseNode p) s).obj.own p).nodes = [] := by
  induction l generalizing s with
  | nil => exact ⟨h, hn⟩
  | cons n l ih =>
    obtain ⟨h1, h2⟩ := releaseNode_nodeInv h (n := n) (hn ▸ List.mem_cons_self)
    exact ih h1 (by rw [h2, hn, List.erase_cons_head])

theorem deleteRefs_nodeInv {l : List ℕ} (h : NodeInv w s) (hr : (s.obj.own p).refsByDesc = l) :
    NodeInv w (s.modObj fun o => l.foldl binderDeleteRef o) ∧
      ((l.foldl binderDeleteRef s.obj).own p).refsByDesc = [] ∧
      ((l.foldl binderDeleteRef s.obj).own p).nodes.Sublist (s.obj.own p).nodes := by
  induction l generalizing s with
  | nil => exact ⟨h, hr, .refl _⟩
  | cons r l ih =>
    have hmem : r ∈ (s.obj.own p).refsByDesc := hr ▸ List.mem_cons_self
    have hstep : NodeInv w (s.modObj (binderDeleteRef · r)) :=
      ⟨h.refs.step (.deleteRef hmem), binderDeleteRef_facts h.facts h.refs hmem⟩
    have hun := binderDeleteRef_unlinked s.obj r
    have hrest : ((binderDeleteRef s.obj r).own p).refsByDesc = l := by
      rw [hun.byDesc, if_pos ((h.refs.table p).owner r hmem).symm, hr, List.erase_cons_head]
    obtain ⟨h1, h2, h3⟩ := ih hstep hrest
    exact ⟨h1, h2, h3.trans (hun.nodes p)⟩

/-- A released process has no references and no nodes. -/
theorem binderDeferredRelease_nodeInv (h : NodeInv w s) (L : Layout) (rb : RbTree ℕ)
    (env : ℕ → PageEnv) : NodeInv w (binderDeferredRelease L rb env s p) ∧
      ((binderDeferredRelease L rb env s p).obj.own p).refsByDesc = [] ∧
      ((binderDeferredRelease L rb env s p).obj.own p).nodes = [] := by
  set s₁ := ((s.bugOn (s.proc.get p).area.vma .vmaMapped).bugOn (s.obj.own p).files .filesOpen).modObj
    fun o => if (o.contextMgrNode.any fun n => (o.node.get n).proc = some p) then
      { o with contextMgrNode := none } else o with hs₁
  set s₂ := (s.proc.get p).threads.foldl binderFreeThread s₁ with hs₂
  set s₃ := (s₂.obj.own p).nodes.foldl (releaseNode p) s₂ with hs₃
  set s₄ := s₃.modObj fun o => (o.own p).refsByDesc.foldl binderDeleteRef o with hs₄
  have h₁ : Untouched s s₁ := by
    refine ((untouched_bugOn s _ rfl).trans (untouched_bugOn _ _ rfl)).trans (untouched_modObj _ ?_ ?_)
    · exact .ite { SameLinks.refl _ with mgr := fun n hn => by cases hn } (.refl _)
    · exact .ite { SameNodes.refl _ with mgr := fun n hn => by cases hn } (.refl _)
  have h₂ : NodeInv w s₂ := h.untouched (h₁.trans (Untouched.foldl binderFreeThread_untouched _ s₁))
  obtain ⟨h₃, hnodes⟩ := releaseNodes_nodeInv h₂ rfl
  obtain ⟨h₄, hrefs, hsub⟩ := deleteRefs_nodeInv h₃ (p := p) rfl
  have hrest : Untouched s₄ (binderDeferredRelease L rb env s p) := by
    refine Untouched.trans ?_ (untouched_modProc _ p _)
    refine Untouched.trans ?_ (Untouched.foldl (fun s a => releaseBuffer_untouched s p L rb env a) _ _)
    exact (binderReleaseWork_untouched _ _).trans (binderReleaseWork_untouched _ _)
  refine ⟨h₄.untouched hrest, ?_, ?_⟩
  · exact List.sublist_nil.1 (hrefs ▸ hrest.nodes.listed p)
  · rw [hnodes] at hsub
    exact (hrest.nodes.trees p).trans (List.sublist_nil.1 hsub)

theorem setCtxMgr_nodeInv (h : NodeInv w s) (T euid : ℕ) (kzalloc : Bool)
    (hlive : ¬w.gone (s.thread.get T).proc) : NodeInv w (setCtxMgr s T euid kzalloc) := by
  obtain ⟨hfacts, hmade⟩ := binderNewNode_facts h.facts (s.thread.get T).proc 0 0 hlive kzalloc h.refs
  obtain ⟨hlinks, hlt⟩ := binderNewNode_links s.obj (s.thread.get T).proc 0 0 kzalloc
  have hrefs := h.refs.links hlinks
  unfold setCtxMgr
  split_ifs
  · exact h
  dsimp only [Driver.modObj]
  split
  · rename_i o he
    rw [he] at hfacts hrefs
    exact ⟨hrefs.links (SameLinks.links { SameLinks.refl o with mgr := fun n hn => by cases hn }),
      hfacts.congr { SameNodes.refl o with mgr := fun n hn => by cases hn }⟩
  · rename_i o n he
    rw [he] at hfacts hrefs hmade hlt
    have hptr : (o.node.get n).ptr = 0 := (hmade n rfl).2
    have hlt' : n < o.node.next := hlt n rfl
    set o₁ : Objects := { o with contextMgrNode := some n } with ho₁
    have hmgr : NodeFacts (nodeScope w s) o₁ := { hfacts with
      mgr := fun m hm => by
        rw [← Option.some.inj hm]
        exact hptr }
    refine ⟨?_, hmgr.setFlags hlt' ⟨rfl, rfl, rfl, rfl, rfl⟩ (fun _ _ => id) id (fun _ _ => rfl)
      (fun _ hne => absurd hptr hne) (fun _ _ => Or.inl) rfl rfl⟩
    have hlinks₁ : SameLinks o o₁ := { SameLinks.refl o with
      mgr := fun m hm => Or.inr (by rw [← Option.some.inj hm]; exact hlt') }
    refine (hrefs.links hlinks₁.links).links (SameLinks.links ?_)
    exact sameLinks_modNode o₁ n (fun _ => rfl) fun _ => rfl

/-- The action writes what it reads to memory that is there. -/
def Action.unfaulting : Action → Prop
  | .resume _ fault => ∀ ptr, fault ptr = false
  | _ => True

/-- What the watch of a run asks of a step. -/
structure NodeWatch.Admits (w : NodeWatch) (s : Driver) (a : Action) : Prop where
  unfaulting : w.whole → a.unfaulting
  closed : ∀ p, w.gone p → (s.proc.get p).closed = true
  inside : ∀ T c env, a = .write T c env → c.carries = true → ∀ target, targetOf s T c = some target →
    w.insider target.proc → w.insider (s.thread.get T).proc

theorem NodeWatch.Admits.live {a : Action} (hw : w.Admits s a) {T : ℕ} (hT : s.ready T = true) :
    ¬w.gone (s.thread.get T).proc := by
  intro hgone
  have hopen := (Driver.ready_spec hT).2.2.2.2
  rw [hw.closed _ hgone] at hopen
  cases hopen

theorem Action.nodeInv (L : Layout) (rb : RbTree ℕ) (h : NodeInv w s) (ht : ThreadInv s) {a : Action}
    (hen : a.enabled L s = true) (hw : w.Admits s a) : NodeInv w (a.apply L rb s) := by
  cases a with
  | openProc pid => exact h.untouched ⟨.refl _, id, { SameScope.refl s with }⟩
  | mmap p base size env =>
    simp only [Action.apply, driverMmap]
    split_ifs
    · exact h
    · split
      · exact h
      · refine h.untouched ((untouched_modProc s p _).trans (untouched_modObj _ ?_ ?_))
        · exact sameLinks_files _ p fun _ => ⟨rfl, rfl, rfl⟩
        · exact sameNodes_modOwn _ p (fun _ => rfl) fun _ => .refl _
  | vmaClose p => exact h.untouched (untouched_modProc s p _)
  | flush p => exact h.untouched (untouched_modProc s p _)
  | close p => exact h.untouched (untouched_modProc s p _)
  | deferredFunc p env =>
    simp only [Action.apply]
    rw [binderDeferredFunc_eq]
    have hbefore := h.untouched (beforeRelease_untouched s p)
    split_ifs
    · exact (binderDeferredRelease_nodeInv hbefore L rb env).1
    · exact hbefore
  | getThread p pid =>
    simp only [Action.apply, binderGetThread]
    split_ifs
    · exact h
    · exact h.untouched ⟨.refl _, id, { SameScope.refl s with
        threadNext := Nat.le_succ _
        owner := fun T hT => congrArg (·.proc) (s.thread.get_alloc_ne T _ hT.ne) }⟩
  | write T c env =>
    simp only [Action.enabled, Bool.and_eq_true] at hen
    apply writeCommand_nodeInv h T (Driver.ready_spec hen.1).1 L rb env c (hw.live hen.1)
    · exact fun target hgone => ht.unmapped _ (hw.closed _ hgone)
    · exact hw.inside T c env rfl
  | read T size consumed nonBlock fault =>
    simp only [Action.apply, binderThreadRead]
    split_ifs
    · exact h
    · exact h.untouched (waitForWork_untouched s T fault size 4 nonBlock)
    · exact h.untouched (waitForWork_untouched s T fault size consumed nonBlock)
  | lookForWork T =>
    simp only [Action.apply, Binder.lookForWork]
    split
    · exact h
    · split_ifs
      · exact h
      · exact h.untouched (untouched_modThread s T fun _ => rfl)
      · exact h
  | resume T fault => exact resumeRead_nodeInv h T fault hw.unfaulting L (of_decide_eq_true hen)
  | interrupt T =>
    simp only [Action.apply, interruptRead]
    split
    · exact h
    · split_ifs
      · exact h
      · exact h.untouched (stopWaiting_untouched s T _)
  | ioctlDone T =>
    refine h.untouched (untouched_modThread s T (f := fun y =>
      { y with looper := { y.looper with needReturn := false } }) fun _ => rfl)
  | setMaxThreads T maxThreads => exact h.untouched (untouched_modProc s _ _)
  | setContextMgr T euid kzalloc => exact setCtxMgr_nodeInv h T euid kzalloc (hw.live hen)
  | threadExit T => exact h.untouched (binderFreeThread_untouched s T)

theorem nodeInv_start (w : NodeWatch) : NodeInv w {} :=
  ⟨refsInv_empty, {
    count := fun n => rfl
    nonneg := fun r => ⟨le_rfl, le_rfl⟩
    tree := fun p n hn => by cases hn
    nodup := fun p => List.nodup_nil
    dead := fun n hn => by cases hn
    deadNodup := List.nodup_nil
    alive := fun n hn => absurd rfl hn
    mgr := fun n hn => by cases hn
    home := fun l n hn => by cases hn
    unborn := fun n _ => rfl
    told := fun _ n hn => absurd rfl hn
    born := fun _ n _ => rfl
    sent := fun n T hn => by
      obtain ⟨cmd, hmem, -⟩ := hn
      cases hmem
    confined := fun p _ r hr => by cases hr
    empty := fun p _ => ⟨rfl, rfl⟩ }⟩

theorem nodeInv_reach {L : Layout} {rb : RbTree ℕ} {ok : Driver → Action → Prop}
    (hok : ∀ s a, ok s a → w.Admits s a) (h : (driverMachine L rb).Reach ok s) : NodeInv w s := by
  apply h.invariant_of (I := ThreadInv) fun s hs => threadInv_reach hs
  · intro s hs
    cases hs
    exact nodeInv_start w
  · intro s a ht _ hi ha
    by_cases hen : a.enabled L s = true
    · rw [show (driverMachine L rb).step s a = a.apply L rb s from if_pos hen]
      exact a.nodeInv L rb hi ht hen (hok s a ha)
    · rwa [show (driverMachine L rb).step s a = s from if_neg hen]

end

/-! The graph of nodes and references -/

section

variable {L : Layout} {rb : RbTree ℕ} {s : Driver}

/-- What the owner of a node was told of it, in order, is what the node notes of it. -/
structure OwnerTold (s : Driver) (n : ℕ) : Prop where
  view : ownerView n s.history =
    some ((s.obj.node.get n).hasWeakRef, (s.obj.node.get n).hasStrongRef)
  weak : (s.obj.node.get n).hasStrongRef = true → (s.obj.node.get n).hasWeakRef = true
  addressee : ∀ T cmd, .br T cmd ∈ s.history → cmd.nodeOf = some n →
    (s.obj.node.get n).proc = some (s.thread.get T).proc ∨ .nodeReleased n ∈ s.history

theorem owner_protocol (h : (driverMachine L rb).Reach (fun _ a => a.unfaulting) s) {n : ℕ}
    (hptr : (s.obj.node.get n).ptr ≠ 0) : OwnerTold s n := by
  obtain ⟨-, hfacts⟩ := nodeInv_reach (w := { whole := True }) (fun _ _ ha =>
    ⟨fun _ => ha, fun _ => False.elim, fun _ _ _ _ _ _ _ => False.elim⟩) h
  have hview := hfacts.told trivial n hptr
  refine ⟨hview, ownerView_weak hview, fun T cmd hmem hof => ?_⟩
  obtain ⟨hn, p, hhome, hproc⟩ := hfacts.sent n T ⟨cmd, hmem, hof⟩
  rcases hproc with hproc | hproc
  · rcases hhome with he | ⟨S, -, he, hown⟩
    · cases he
    · cases he
      exact Or.inl (hproc.trans (congrArg some hown.symm))
  · exact Or.inr ((deathInv_reach h).released n hn hproc)

end

/-- A client sends an object of its own and is told to hold it. -/
def holdingClient : List Action := offeringClient ++ [.resume 1 fun _ => false]

theorem owner_protocol_client : OwnerTold (afterActions holdingClient) 1 ∧
    ownerView 1 (afterActions holdingClient).history = some (true, true) := by
  have hadm : (driverMachine layout32 .plain).Admits (fun _ a => a.unfaulting) {} holdingClient := by
    simp [holdingClient, offeringClient, Machine.Admits, Action.unfaulting]
  exact ⟨owner_protocol (.exec (.start rfl) hadm) (by decide +kernel), by decide +kernel⟩

end Binder
