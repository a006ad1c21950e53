import BinderIpc.Node.Runs

/-! Who can name a node. A group of processes that is sent no object from outside
holds references to nodes of its own only, and a released process holds nothing. -/

namespace Binder

variable {L : Layout} {rb : RbTree ℕ} {s : Driver}

/-- No object is sent from outside to a process inside. -/
def Action.keepsOut (inside : ℕ → Bool) (s : Driver) : Action → Bool
  | .write T c _ => !c.carries ||
      (targetOf s T c).all fun target => !inside target.proc || inside (s.thread.get T).proc
  | _ => true

/-- The node of a context manager is the only one outside that a process inside can name. -/
structure Confined (inside : ℕ → Bool) (s : Driver) : Prop where
  held : ∀ p, inside p = true → ∀ r ∈ (s.obj.own p).refsByDesc,
    (s.obj.node.get (s.obj.ref.get r).node).ptr ≠ 0 →
      ∀ q, (s.obj.node.get (s.obj.ref.get r).node).proc = some q → inside q = true
  called : ∀ T, inside (s.thread.get T).proc = true → ∀ tr target, callTarget s T tr = .ok target →
    inside target.proc = true ∨ ∃ n, target.node = some n ∧ (s.obj.node.get n).ptr = 0

/-- A call goes to the owner of the node that its sender names. -/
theorem callTarget_node {T : ℕ} {tr : TransactionData} {target : Target}
    (h : callTarget s T tr = .ok target) : ∃ n, targetNode s T tr = .ok n ∧ target.node = some n ∧
      (s.obj.node.get n).proc = some target.proc := by
  unfold callTarget at h
  cases hn : targetNode s T tr with
  | error f =>
    rw [hn] at h
    cases h
  | ok n =>
    rw [hn] at h
    simp only [bind, Except.bind] at h
    cases hq : (s.obj.node.get n).proc with
    | none =>
      rw [hq] at h
      cases h
    | some q =>
      rw [hq] at h
      dsimp only at h
      split_ifs at h <;> cases h <;> exact ⟨n, rfl, rfl, hq⟩

/-- A node that a process names is that of a reference it holds, or of the context manager. -/
theorem targetNode_spec {T n : ℕ} {tr : TransactionData} (h : targetNode s T tr = .ok n) :
    (∃ r ∈ (s.obj.own (s.thread.get T).proc).refsByDesc, (s.obj.ref.get r).node = n) ∨
      s.obj.contextMgrNode = some n := by
  unfold targetNode at h
  split_ifs at h
  · split at h
    · cases h
    · rename_i r hget
      cases h
      exact Or.inl ⟨r, (mem_of_binderGetRef hget).1, rfl⟩
  · split at h
    · cases h
    · rename_i m hm
      cases h
      exact Or.inr hm

theorem confined_reach {inside : ℕ → Bool}
    (h : (driverMachine L rb).Reach (fun s a => a.keepsOut inside s = true) s) : Confined inside s := by
  have hinv : NodeInv { insider := fun p => inside p = true } s := by
    apply nodeInv_reach ?_ h
    intro s a ha
    refine ⟨False.elim, fun _ => False.elim, ?_⟩
    rintro T c env rfl hc target htarget hin
    simp only [Action.keepsOut, hc, htarget, Option.all_some, Bool.not_true, Bool.false_or,
      Bool.or_eq_true, Bool.not_eq_true'] at ha
    exact ha.resolve_left fun hout => by rw [hin] at hout; cases hout
  have hheld := hinv.facts.confined
  refine ⟨hheld, fun T hT tr target hcall => ?_⟩
  obtain ⟨n, hn, hnode, hproc⟩ := callTarget_node hcall
  by_cases hptr : (s.obj.node.get n).ptr = 0
  · exact Or.inr ⟨n, hnode, hptr⟩
  · left
    rcases targetNode_spec hn with ⟨r, hr, rfl⟩ | hmgr
    · exact hheld _ hT r hr hptr _ hproc
    · exact absurd (hinv.facts.mgr n hmgr) hptr

/-- The third process calls the context manager, and sends it no object. -/
def outsideCaller : List Action :=
  offeringClient ++ [.openProc 150, .getThread 2 150, .write 2 (.transaction {}) {}]

theorem confined_reach_outsideCaller : Confined (· ≠ 2) (afterActions outsideCaller) ∧
    ((afterActions outsideCaller).obj.own 0).refsByDesc ≠ [] := by
  have hadm : (driverMachine layout32 .plain).Admits
      (fun s a => a.keepsOut (fun p => decide (p ≠ 2)) s = true) {} outsideCaller := by
    decide +kernel
  exact ⟨confined_reach (.exec (.start rfl) hadm), by decide +kernel⟩

/-! Released processes -/

/-- What is left of a process that is gone. -/
structure Vacated (s : Driver) (p : ℕ) : Prop where
  unmapped : (s.proc.get p).area.vma = false
  threads : ∀ T < s.thread.next, (s.thread.get T).proc = p → (s.thread.get T).freed ≠ 0
  refs : ∀ r < s.obj.ref.next, (s.obj.ref.get r).proc = p → (s.obj.ref.get r).freed = 1
  nodes : (s.obj.own p).nodes = []
  awake : ∀ T < s.thread.next, (s.thread.get T).proc = p → (s.thread.get T).asleep = none

/-- The released processes of a state. -/
def Driver.released (s : Driver) : NodeWatch := { gone := fun p => (s.proc.get p).released = true }

structure ReleasedInv (s : Driver) : Prop where
  made : ∀ p, (s.proc.get p).released = true → p < s.proc.next
  nodes : NodeInv s.released s
  closed : ∀ p, (s.proc.get p).released = true → (s.proc.get p).closed = true
  threads : ∀ p, (s.proc.get p).released = true → (s.proc.get p).threads = []

theorem newThread_proc (s : Driver) (q pid p : ℕ) {β : Type} (g : BinderProc → β)
    (hg : ∀ x l, g { x with threads := l } = g x) :
    g ((newThread s q pid).proc.get p) = g (s.proc.get p) :=
  s.proc.apply_get_modify q p _ g fun x => hg x _

/-- A step releases no process but the one whose deferred work it does. -/
theorem apply_released (L : Layout) (rb : RbTree ℕ) (s : Driver) (a : Action) {p : ℕ}
    (hp : ((a.apply L rb s).proc.get p).released = true) : (s.proc.get p).released = true ∨
      (a.defers = some p ∧ (s.proc.get p).deferred.release = true) := by
  cases hc : a.creates with
  | false => exact (apply_grows L rb s a hc).released p hp
  | true =>
    left
    cases a with
    | openProc pid =>
      simp only [Action.apply, binderOpen, Heap.get_alloc] at hp
      split_ifs at hp
      exact hp
    | getThread q pid =>
      simp only [Action.apply, binderGetThread] at hp
      split_ifs at hp
      · exact hp
      · rwa [newThread_proc s q pid p (·.released) fun _ _ => rfl] at hp
    | _ => cases hc

/-- A closed process stays closed. -/
theorem apply_closed (rb : RbTree ℕ) {a : Action} (hen : a.enabled L s = true) {p : ℕ}
    (hlt : p < s.proc.next) (hp : (s.proc.get p).closed = true) :
    ((a.apply L rb s).proc.get p).closed = true := by
  cases hc : a.creates with
  | false =>
    rcases apply_life rb a hc hen p with ⟨h1, -⟩ | ⟨-, -, h1, -⟩
    · exact h1.trans hp
    · exact h1
  | true =>
    cases a with
    | openProc pid =>
      have hold : (binderOpen s pid).proc.get p = s.proc.get p := s.proc.get_alloc_ne p _ hlt.ne
      exact (congrArg BinderProc.closed hold).trans hp
    | getThread q pid =>
      simp only [Action.apply, binderGetThread]
      split_ifs
      · exact hp
      · exact (newThread_proc s q pid p (·.closed) fun _ _ => rfl).trans hp
    | _ => cases hc

theorem apply_procNext (L : Layout) (rb : RbTree ℕ) (s : Driver) (a : Action) :
    s.proc.next ≤ (a.apply L rb s).proc.next := by
  cases hc : a.creates with
  | false => exact (apply_grows L rb s a hc).procNext.ge
  | true =>
    cases a with
    | openProc pid => exact Nat.le_succ _
    | getThread q pid =>
      simp only [Action.apply, binderGetThread]
      split_ifs <;> exact le_rfl
    | _ => cases hc

/-- The threads of a process that is closed are not more after a step. -/
theorem apply_threads (rb : RbTree ℕ) {a : Action} (hen : a.enabled L s = true) {p : ℕ}
    (hlt : p < s.proc.next) (hp : (s.proc.get p).closed = true) :
    ((a.apply L rb s).proc.get p).threads.Sublist (s.proc.get p).threads := by
  cases hc : a.creates with
  | false => exact (apply_grows L rb s a hc).threads p
  | true =>
    cases a with
    | openProc pid =>
      have hold : (binderOpen s pid).proc.get p = s.proc.get p := s.proc.get_alloc_ne p _ hlt.ne
      rw [show (Action.openProc pid).apply L rb s = binderOpen s pid from rfl, hold]
    | getThread q pid =>
      simp only [Action.enabled, Driver.isOpen, Bool.and_eq_true, Bool.not_eq_true'] at hen
      have hne : p ≠ q := by
        rintro rfl
        rw [hen.2] at hp
        cases hp
      simp only [Action.apply, binderGetThread]
      split_ifs
      · exact .refl _
      · rw [newThread, Driver.modProc, Heap.get_modify_ne _ _ _ _ hne]
    | _ => cases hc

theorem ReleasedInv.apply (h : ReleasedInv s) (ht : ThreadInv s) (rb : RbTree ℕ) {a : Action}
    (hen : a.enabled L s = true) : ReleasedInv (a.apply L rb s) := by
  have hw : s.released.Admits s a := ⟨False.elim, h.closed, fun _ _ _ _ _ _ _ => False.elim⟩
  have hnodes := a.nodeInv L rb h.nodes ht hen hw
  -- what is newly released was closed, and what it had is dropped by this step
  have hnew : ∀ p, ((a.apply L rb s).proc.get p).released = true → (s.proc.get p).released = true ∨
      (p < s.proc.next ∧ (s.proc.get p).closed = true ∧ ((a.apply L rb s).proc.get p).threads = [] ∧
        ((a.apply L rb s).obj.own p).refsByDesc = [] ∧ ((a.apply L rb s).obj.own p).nodes = []) := by
    intro p hp
    refine (apply_released L rb s a hp).imp_right ?_
    rintro ⟨hdefers, hrelease⟩
    have hclosed := ht.closing p hrelease
    cases a with
    | deferredFunc q env =>
      cases hdefers
      simp only [Action.enabled, Bool.and_eq_true, decide_eq_true_eq] at hen
      have hbefore := h.nodes.untouched (beforeRelease_untouched s p)
      obtain ⟨-, hrefs, hown⟩ := binderDeferredRelease_nodeInv hbefore L rb env (p := p)
      have happly : (Action.deferredFunc p env).apply L rb s =
          binderDeferredRelease L rb env (beforeRelease s p) p := by
        rw [Action.apply, binderDeferredFunc_eq, if_pos hrelease]
      refine ⟨hen.1, hclosed, ?_, ?_, ?_⟩
      · rw [List.eq_nil_iff_forall_not_mem]
        intro T hT
        have hold := ((apply_grows L rb s (.deferredFunc p env) rfl).threads p).subset hT
        exact (apply_left ht.trees (.deferredFunc p env) (Or.inr ⟨p, rfl, hrelease, hold⟩)).listed p hT
      · rw [happly, hrefs]
      · rw [happly, hown]
    | _ => cases hdefers
  refine ⟨fun p hp => ?_, ⟨hnodes.refs, { hnodes.facts with empty := fun p hp => ?_ }⟩, fun p hp => ?_,
    fun p hp => ?_⟩
  · have hlt : p < s.proc.next := (hnew p hp).elim (h.made p) (·.1)
    exact hlt.trans_le (apply_procNext L rb s a)
  · rcases hnew p hp with hold | ⟨-, -, -, hempty⟩
    · exact hnodes.facts.empty p hold
    · exact hempty
  · rcases hnew p hp with hold | ⟨hlt, hclosed, -⟩
    · exact apply_closed rb hen (h.made p hold) (h.closed p hold)
    · exact apply_closed rb hen hlt hclosed
  · rcases hnew p hp with hold | ⟨-, -, hthreads, -⟩
    · have hsub := apply_threads (L := L) rb hen (h.made p hold) (h.closed p hold)
      rw [h.threads p hold] at hsub
      exact List.sublist_nil.1 hsub
    · exact hthreads

theorem vacated_reach {ok : Driver → Action → Prop} (h : (driverMachine L rb).Reach ok s) {p : ℕ}
    (hp : (s.proc.get p).released = true) : Vacated s p := by
  have ht : ThreadInv s := threadInv_reach h
  have hinv : ReleasedInv s := by
    apply h.invariant_of (I := ThreadInv) fun s hs => threadInv_reach hs
    · intro s hs
      cases hs
      have hnone : ∀ p, (({} : Driver).proc.get p).released ≠ true := fun p => Bool.false_ne_true
      refine ⟨fun p hp => ?_, nodeInv_start _, fun p hp => ?_, fun p hp => ?_⟩
      all_goals exact absurd hp (hnone p)
    · intro s a ht _ hi _
      by_cases hen : a.enabled L s = true
      · rw [show (driverMachine L rb).step s a = a.apply L rb s from if_pos hen]
        exact hi.apply ht rb hen
      · rwa [show (driverMachine L rb).step s a = s from if_neg hen]
  obtain ⟨hrefs, hnodes⟩ := hinv.nodes.facts.empty p hp
  have hfreed : ∀ T < s.thread.next, (s.thread.get T).proc = p → (s.thread.get T).freed ≠ 0 := by
    intro T hT hown hfreed
    have hmem := (ht.listed p T).2 ⟨hT, hfreed, hown⟩
    rw [hinv.threads p hp] at hmem
    cases hmem
  refine ⟨ht.unmapped p (hinv.closed p hp), hfreed, fun r hr hown => ?_, hnodes, fun T hT hown => ?_⟩
  · apply hinv.nodes.refs.gone r hr
    rw [hown, hrefs]
    exact List.not_mem_nil
  · by_contra hasleep
    exact hfreed T hT hown (ht.awake T hasleep).2.1

theorem vacated_reach_orphanedClient : Vacated (afterActions orphanedClient) 0 :=
  vacated_reach (reach_afterActions orphanedClient) (by decide +kernel)

end Binder
