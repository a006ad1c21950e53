import BinderIpc.Driver.Grows

/-! The threads of the processes over runs: the tree of a process has the threads
that were made for it and not freed, no freed thread waits in a read, and a
process with its file closed has no waiting thread and no mapping. -/

namespace Binder

structure ThreadInv (s : Driver) : Prop where
  listed : ∀ p T, T ∈ (s.proc.get p).threads ↔
    T < s.thread.next ∧ (s.thread.get T).freed = 0 ∧ (s.thread.get T).proc = p
  nodup : ∀ p, (s.proc.get p).threads.Nodup
  proc : ∀ T < s.thread.next, (s.thread.get T).proc < s.proc.next
  awake : ∀ T, (s.thread.get T).asleep ≠ none → T < s.thread.next ∧ (s.thread.get T).freed = 0 ∧
    (s.proc.get (s.thread.get T).proc).closed = false
  closing : ∀ p, (s.proc.get p).deferred.release = true → (s.proc.get p).closed = true
  unmapped : ∀ p, (s.proc.get p).closed = true → (s.proc.get p).area.vma = false

/-- `T` is freed and in no tree. -/
structure Left (s : Driver) (T : ℕ) : Prop where
  freed : (s.thread.get T).freed ≠ 0
  listed : ∀ p, T ∉ (s.proc.get p).threads

variable {L : Layout} {rb : RbTree ℕ} {K : Scope} {s s' : Driver} {T : ℕ}

theorem Left.grows (h : Left s T) (hg : Grows K s s') : Left s' T :=
  ⟨hg.dead T h.freed, fun p hp => h.listed p ((hg.threads p).subset hp)⟩

/-- The trees have no thread twice, and only threads of their process. -/
structure Trees (s : Driver) : Prop where
  nodup : ∀ p, (s.proc.get p).threads.Nodup
  owner : ∀ p, ∀ T ∈ (s.proc.get p).threads, (s.thread.get T).proc = p

theorem Trees.grows (h : Trees s) (hg : Grows K s s') : Trees s' where
  nodup p := (h.nodup p).sublist (hg.threads p)
  owner p T hT := (hg.owner T).trans (h.owner p T ((hg.threads p).subset hT))

theorem ThreadInv.trees (h : ThreadInv s) : Trees s :=
  ⟨h.nodup, fun p T hT => ((h.listed p T).1 hT).2.2⟩

theorem binderFreeThread_left (h : Trees s) : Left (binderFreeThread s T) T := by
  have hunlist : ∀ p, T ∉ ((s.modProc (s.thread.get T).proc fun x =>
      { x with threads := x.threads.erase T }).proc.get p).threads := fun p hp => by
    simp only [Driver.modProc, Heap.get_modify] at hp
    split_ifs at hp with hq
    · exact (h.nodup _).not_mem_erase hp
    · exact hq (h.owner p T hp).symm
  constructor
  · simp [binderFreeThread, Driver.modThread]
  · have hg : Grows .any (s.modProc (s.thread.get T).proc fun x =>
        { x with threads := x.threads.erase T }) (binderFreeThread s T) := by
      unfold binderFreeThread
      refine Grows.trans ?_ (grows_exit _ T trivial)
      refine Grows.trans ?_ (binderReleaseWork_grows _ _)
      split
      · exact (leaveTransactions_grows _ T _ _).trans (binderSendFailedReply_grows _ _ _)
      · exact leaveTransactions_grows _ T _ _
    exact fun p hp => hunlist p ((hg.threads p).subset hp)

theorem freeThreads_left (h : Trees s) {l : List ℕ} :
    ∀ T ∈ l, Left (l.foldl binderFreeThread s) T := by
  induction l generalizing s with
  | nil => simp
  | cons S l ih =>
    intro T hT
    have hg : Grows .any s (binderFreeThread s S) := binderFreeThread_grows s S trivial
    rcases List.mem_cons.1 hT with rfl | hT
    · have hrest : Grows .any (binderFreeThread s T) (l.foldl binderFreeThread (binderFreeThread s T)) :=
        Grows.foldl (fun s S _ => binderFreeThread_grows s S trivial) _
      exact (binderFreeThread_left h).grows hrest
    · exact ih (h.grows hg) T hT

theorem binderDeferredRelease_left (h : Trees s) {p : ℕ} {env : ℕ → PageEnv} :
    ∀ T ∈ (s.proc.get p).threads, Left (binderDeferredRelease L rb env s p) T := by
  intro T hT
  unfold binderDeferredRelease
  refine Left.grows ?_ (grows_released (K := .any) _ p trivial)
  refine Left.grows ?_ (Grows.foldl (K := .any) (fun s a _ => releaseBuffer_grows L rb s p env a) _)
  refine Left.grows ?_ (binderReleaseWork_grows (K := .any) _ _)
  refine Left.grows ?_ (binderReleaseWork_grows (K := .any) _ _)
  refine Left.grows ?_ (grows_modObj (K := .any) _ _)
  refine Left.grows ?_ (Grows.foldl (K := .any) (fun s n _ => releaseNode_grows s p n) _)
  refine freeThreads_left ?_ T ?_
  · exact ⟨h.nodup, h.owner⟩
  · exact hT

/-- Whoever exits in a step is gone after it. -/
theorem apply_left (h : Trees s) (a : Action) (hT : (a.scope s).exits T) :
    Left (a.apply L rb s) T := by
  rcases hT with hT | ⟨p, hp, hr, hT⟩
  · cases a <;> cases hT
    exact binderFreeThread_left h
  · cases a <;> cases hp
    rename_i env
    simp only [Action.apply]
    rw [binderDeferredFunc_eq, if_pos hr]
    have hg : Grows .still s (beforeRelease s p) := beforeRelease_grows s p
    exact binderDeferredRelease_left (h.grows hg) T ((hg.listed p T hT).resolve_left id)

/-! Every step -/

/-- What a step makes of the file and the mapping of a process. -/
theorem apply_life (rb : RbTree ℕ) (a : Action) (hc : a.creates = false) (hen : a.enabled L s = true) (p : ℕ) :
    (((a.apply L rb s).proc.get p).closed = (s.proc.get p).closed ∧
      (((a.apply L rb s).proc.get p).deferred.release = true →
        (s.proc.get p).deferred.release = true) ∧
      ((s.proc.get p).closed = true → ((a.apply L rb s).proc.get p).area.vma = true →
        (s.proc.get p).area.vma = true)) ∨
    (s.quiet p = true ∧ (a.apply L rb s).thread = s.thread ∧
      ((a.apply L rb s).proc.get p).closed = true ∧
      ((a.apply L rb s).proc.get p).area.vma = false) := by
  rcases (apply_grows L rb s a hc).life p with hp | ⟨h1, h2, h3⟩
  swap
  · exact Or.inl ⟨h1, h2, fun _ => h3⟩
  cases a <;> cases hp
  · rename_i base size env
    simp only [Action.enabled, Driver.isOpen, Bool.and_eq_true, Bool.not_eq_true'] at hen
    obtain ⟨⟨-, hclosed⟩, -⟩ := hen
    refine Or.inl ⟨?_, ?_, fun h => ?_⟩
    · simp only [Action.apply, driverMmap]
      split_ifs
      · rfl
      · split
        · rfl
        · simp [Driver.modProc, Driver.modObj]
    · simp only [Action.apply, driverMmap]
      split_ifs
      · exact id
      · split
        · exact id
        · simp [Driver.modProc, Driver.modObj]
    · rw [hclosed] at h
      cases h
  · simp only [Action.enabled, Driver.isOpen, Bool.and_eq_true, Bool.not_eq_true'] at hen
    refine Or.inl ?_
    simp [Action.apply, binderVmaClose, Driver.modProc, hen.1.2]
  · simp only [Action.enabled, Bool.and_eq_true, Bool.not_eq_true'] at hen
    refine Or.inr ⟨hen.1.2, rfl, ?_, ?_⟩
    · simp [Action.apply, binderRelease, Driver.modProc]
    · simpa [Action.apply, binderRelease, Driver.modProc] using hen.2

/-- The thread that begins to wait in a step. -/
theorem ThreadInv.reader (h : ThreadInv s) (a : Action) (hen : a.enabled L s = true)
    (hT : a.reader = some T) (hasleep : ((a.apply L rb s).thread.get T).asleep ≠ none) :
    T < s.thread.next ∧ (s.thread.get T).freed = 0 ∧
      (s.proc.get (s.thread.get T).proc).closed = false := by
  cases a <;> cases hT
  · simp only [Action.enabled, Bool.and_eq_true] at hen
    obtain ⟨h1, h2, -, -, h3⟩ := Driver.ready_spec hen.1
    exact ⟨h1, h2, h3⟩
  · refine h.awake T fun hnone => hasleep ?_
    simp [Action.apply, resumeRead, hnone]

theorem ThreadInv.apply (h : ThreadInv s) (a : Action) (hc : a.creates = false)
    (hen : a.enabled L s = true) : ThreadInv (a.apply L rb s) := by
  have hg := apply_grows L rb s a hc
  have hleft : ∀ T, (a.scope s).exits T → Left (a.apply L rb s) T := fun T hT =>
    apply_left h.trees a hT
  have hlife := apply_life rb a hc hen
  -- who waits after the step was alive, with an open file, before it
  have hwas : ∀ T, ((a.apply L rb s).thread.get T).asleep ≠ none → T < s.thread.next ∧
      (s.thread.get T).freed = 0 ∧ (s.proc.get (s.thread.get T).proc).closed = false := fun T hT => by
    rcases hg.asleep T hT with h1 | h1
    · exact h.awake T h1
    · exact h.reader a hen h1 hT
  refine ⟨fun p T => ?_, fun p => (h.nodup p).sublist (hg.threads p), fun T hT => ?_, fun T hT => ?_,
    fun p hp => ?_, fun p hp => ?_⟩
  · rw [hg.threadNext, hg.owner]
    by_cases hx : (a.scope s).exits T
    · have hl := hleft T hx
      exact iff_of_false (hl.listed p) fun h1 => hl.freed h1.2.1
    · rw [(hg.freed T).resolve_left hx, ← h.listed]
      exact ⟨fun h1 => (hg.threads p).subset h1, fun h1 => (hg.listed p T h1).resolve_left hx⟩
  · rw [hg.owner, hg.procNext]
    exact h.proc T (hg.threadNext ▸ hT)
  · obtain ⟨h1, h2, h3⟩ := hwas T hT
    have hx : ¬(a.scope s).exits T := by
      rintro (hx | ⟨p, -, hr, hm⟩)
      · cases a <;> cases hx
        simp only [Action.enabled] at hen
        have hnone := (Driver.ready_spec hen).2.2.1
        rcases hg.asleep T hT with h4 | h4
        · exact h4 hnone
        · cases h4
      · rw [((h.listed p T).1 hm).2.2, h.closing p hr] at h3
        cases h3
    rw [hg.threadNext, hg.owner, (hg.freed T).resolve_left hx]
    refine ⟨h1, h2, ?_⟩
    rcases hlife (s.thread.get T).proc with ⟨h4, -⟩ | ⟨hq, hth, -⟩
    · rw [h4, h3]
    · rw [hth] at hT
      have hmem := (h.listed (s.thread.get T).proc T).2 ⟨h1, h2, rfl⟩
      have hnone := List.all_eq_true.1 hq T hmem
      exact absurd (Option.isNone_iff_eq_none.1 hnone) hT
  · rcases hlife p with ⟨h1, h2, -⟩ | ⟨-, -, h1, -⟩
    · rw [h1]
      exact h.closing p (h2 hp)
    · exact h1
  · rcases hlife p with ⟨h1, -, h3⟩ | ⟨-, -, -, h3⟩
    · rw [h1] at hp
      by_contra hv
      have := h3 hp (by simpa using hv)
      rw [h.unmapped p hp] at this
      cases this
    · exact h3

theorem ThreadInv.openProc (h : ThreadInv s) (pid : ℕ) : ThreadInv (binderOpen s pid) := by
  have hnew : (binderOpen s pid).proc.get s.proc.next = { pid := pid } := s.proc.get_alloc_self _
  have hold : ∀ p, p ≠ s.proc.next → (binderOpen s pid).proc.get p = s.proc.get p := fun p hp =>
    s.proc.get_alloc_ne p _ hp
  have hproc : ∀ T < s.thread.next, (s.thread.get T).proc ≠ s.proc.next := fun T hT =>
    (h.proc T hT).ne
  refine ⟨fun p T => ?_, fun p => ?_, fun T hT => (h.proc T hT).trans (Nat.lt_succ_self _),
    fun T hT => ?_, fun p hp => ?_, fun p hp => ?_⟩
  · by_cases hp : p = s.proc.next
    · subst hp
      rw [hnew]
      exact iff_of_false (by simp) fun h1 => hproc T h1.1 h1.2.2
    · rw [hold p hp]
      exact h.listed p T
  · by_cases hp : p = s.proc.next
    · rw [hp, hnew]
      exact List.nodup_nil
    · rw [hold p hp]
      exact h.nodup p
  · obtain ⟨h1, h2, h3⟩ := h.awake T hT
    exact ⟨h1, h2, (congrArg BinderProc.closed (hold _ (hproc T h1))).trans h3⟩
  · by_cases hpn : p = s.proc.next
    · rw [hpn, hnew] at hp
      cases hp
    · rw [hold p hpn] at hp ⊢
      exact h.closing p hp
  · by_cases hpn : p = s.proc.next
    · rw [hpn, hnew] at hp
      cases hp
    · rw [hold p hpn] at hp ⊢
      exact h.unmapped p hp

theorem mem_treeInsert {key : ℕ → ℕ} {a b : ℕ} {l : List ℕ} :
    b ∈ treeInsert key a l ↔ b = a ∨ b ∈ l := by
  rw [treeInsert, List.mem_append, List.mem_cons, or_left_comm, ← List.mem_append,
    List.takeWhile_append_dropWhile]

theorem nodup_treeInsert {key : ℕ → ℕ} {a : ℕ} {l : List ℕ} (hl : l.Nodup) (ha : a ∉ l) :
    (treeInsert key a l).Nodup := by
  have hperm : (treeInsert key a l).Perm (a :: l) := by
    have : (l.takeWhile (key · < key a) ++ a :: l.dropWhile (key · < key a)).Perm
        (a :: (l.takeWhile (key · < key a) ++ l.dropWhile (key · < key a))) := List.perm_middle
    rwa [List.takeWhile_append_dropWhile] at this
  exact hperm.nodup_iff.2 (List.nodup_cons.2 ⟨ha, hl⟩)

theorem ThreadInv.newThread (h : ThreadInv s) {p : ℕ} (pid : ℕ) (hp : p < s.proc.next) :
    ThreadInv (newThread s p pid) := by
  have hself : (Binder.newThread s p pid).thread.get s.thread.next =
      { proc := p, pid := pid, looper := { needReturn := true } } := s.thread.get_alloc_self _
  have hold : ∀ T, T ≠ s.thread.next →
      (Binder.newThread s p pid).thread.get T = s.thread.get T := fun T hT =>
    s.thread.get_alloc_ne T _ hT
  have hkeep : ∀ {β : Type} (g : BinderProc → β), (∀ x l, g { x with threads := l } = g x) →
      ∀ q, g ((Binder.newThread s p pid).proc.get q) = g (s.proc.get q) := fun g hg q =>
    s.proc.apply_get_modify p q _ g fun x => hg x _
  have hthreads : ∀ q, ((Binder.newThread s p pid).proc.get q).threads = if q = p then
      treeInsert (fun T => ((Binder.newThread s p pid).thread.get T).pid) s.thread.next
        (s.proc.get p).threads
      else (s.proc.get q).threads := fun q => by
    simp only [Binder.newThread, Driver.modProc, Heap.get_modify]
    split_ifs <;> rfl
  have hnot : ∀ q, s.thread.next ∉ (s.proc.get q).threads := fun q hq =>
    absurd ((h.listed q _).1 hq).1 (lt_irrefl _)
  refine ⟨fun q T => ?_, fun q => ?_, fun T hT => ?_, fun T hT => ?_, fun q hq => ?_, fun q hq => ?_⟩
  · rw [hthreads]
    by_cases hT : T = s.thread.next
    · subst hT
      rw [hself]
      split_ifs with hq
      · exact iff_of_true (mem_treeInsert.2 (Or.inl rfl)) ⟨Nat.lt_succ_self _, rfl, hq.symm⟩
      · exact iff_of_false (hnot q) fun h1 => hq h1.2.2.symm
    · have hlt : T < (Binder.newThread s p pid).thread.next ↔ T < s.thread.next := by
        change T < s.thread.next + 1 ↔ _
        omega
      rw [hold T hT, hlt]
      split_ifs with hq
      · rw [mem_treeInsert, or_iff_right hT, h.listed, hq]
      · exact h.listed q T
  · rw [hthreads]
    split_ifs
    · exact nodup_treeInsert (h.nodup p) (hnot p)
    · exact h.nodup q
  · change ((Binder.newThread s p pid).thread.get T).proc < s.proc.next
    by_cases hTn : T = s.thread.next
    · rw [hTn, hself]
      exact hp
    · rw [hold T hTn]
      exact h.proc T (lt_of_le_of_ne (Nat.lt_succ_iff.1 hT) hTn)
  · by_cases hTn : T = s.thread.next
    · rw [hTn, hself] at hT
      exact absurd rfl hT
    · rw [hold T hTn] at hT ⊢
      obtain ⟨h1, h2, h3⟩ := h.awake T hT
      exact ⟨h1.trans (Nat.lt_succ_self _), h2, (hkeep (·.closed) (fun _ _ => rfl) _).trans h3⟩
  · rw [hkeep (·.deferred) fun _ _ => rfl] at hq
    rw [hkeep (·.closed) fun _ _ => rfl]
    exact h.closing q hq
  · rw [hkeep (·.closed) fun _ _ => rfl] at hq
    rw [hkeep (·.area) fun _ _ => rfl]
    exact h.unmapped q hq

theorem ThreadInv.step (h : ThreadInv s) (a : Action) : ThreadInv ((driverMachine L rb).step s a) := by
  by_cases hen : a.enabled L s = true
  swap
  · rwa [show (driverMachine L rb).step s a = s from if_neg hen]
  rw [show (driverMachine L rb).step s a = a.apply L rb s from if_pos hen]
  cases hc : a.creates with
  | false => exact h.apply a hc hen
  | true =>
    cases a with
    | openProc pid => exact h.openProc pid
    | getThread p pid =>
      simp only [Action.enabled, Driver.isOpen, Bool.and_eq_true, decide_eq_true_eq] at hen
      simp only [Action.apply, binderGetThread]
      split
      · exact h
      · exact h.newThread pid hen.1
    | _ => cases hc

theorem threadInv_reach {ok : Driver → Action → Prop} (h : (driverMachine L rb).Reach ok s) :
    ThreadInv s := by
  refine h.invariant (fun s hs => ?_) fun s a hi _ => hi.step a
  cases hs
  refine ⟨fun p T => ?_, fun p => List.nodup_nil, fun T hT => ?_, fun T hT => ?_, fun p hp => ?_,
    fun p hp => ?_⟩
  · exact iff_of_false List.not_mem_nil fun h1 => absurd h1.1 (Nat.not_lt_zero T)
  · exact absurd hT (Nat.not_lt_zero T)
  · exact absurd rfl hT
  · cases hp
  · cases hp

end Binder
