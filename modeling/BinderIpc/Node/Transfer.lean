import BinderIpc.Node.Refs

/-! The objects of a transaction, the commands about references and the release of
a buffer, made of the counting functions. -/

namespace Binder

section

variable {K : NodeScope} {o : Objects} {n p : ℕ}

/-- The reference that is found or made is the one of the node. -/
theorem binderGetRefForNode_listed (hi : RefsInv o) {r : ℕ} {kzalloc : Bool}
    (hr : (binderGetRefForNode o p n kzalloc).2 = some r) :
    r ∈ ((binderGetRefForNode o p n kzalloc).1.own p).refsByDesc ∧
      ((binderGetRefForNode o p n kzalloc).1.ref.get r).node = n := by
  unfold binderGetRefForNode at hr ⊢
  cases hfind : refForNode o p n with
  | some r' =>
    rw [hfind] at hr
    cases hr
    unfold refForNode at hfind
    exact ⟨((hi.table p).same r).1 (List.mem_of_find?_eq_some hfind),
      by simpa using List.find?_some hfind⟩
  | none =>
    rw [hfind] at hr
    dsimp only at hr ⊢
    split_ifs at hr ⊢
    cases hr
    exact ⟨(mem_newRef o p n p _).2 (.inl ⟨rfl, rfl⟩), congrArg BinderRef.node (o.ref.get_alloc_self _)⟩

theorem proc_getRefForNode (o : Objects) (p n : ℕ) (kzalloc : Bool) (m : ℕ) :
    ((binderGetRefForNode o p n kzalloc).1.node.get m).proc = (o.node.get m).proc := by
  unfold binderGetRefForNode
  split
  · rfl
  · split_ifs
    · exact proc_newRef o p n m
    · rfl

/-- Both processes are there, and a process inside is sent objects from inside. -/
structure Transfer.Ok (K : NodeScope) (x : Transfer) : Prop where
  home : K.home x.proc (.threadTodo x.thread)
  live : ¬K.gone x.proc
  target : ¬K.gone x.targetProc
  inside : K.insider x.targetProc → K.insider x.proc

/-- The node of an object that a process sends is in its tree. -/
theorem senderNode_facts (h : NodeFacts K o) (hi : RefsInv o) (env : ObjectEnv) (x : Transfer)
    (hx : ¬K.gone x.proc) (data : List ℕ) (off : ℕ) : NodeFacts K (senderNode env x o data off).1 ∧
      ∀ n, (senderNode env x o data off).2 = some n →
        n ∈ ((senderNode env x o data off).1.own x.proc).nodes := by
  obtain ⟨h1, h2⟩ := binderNewNode_facts h x.proc (objectQuad data off 2) (objectQuad data off 4)
    hx env.kzallocNode hi
  unfold senderNode
  split
  · rename_i n hget
    exact ⟨h, fun m hm => Option.some.inj hm ▸ List.mem_of_find?_eq_some hget⟩
  · split
    · rename_i he
      rw [he] at h1
      exact ⟨h1, fun m hm => by cases hm⟩
    · rename_i he
      rw [he] at h1 h2
      refine ⟨h1.congr (sameNodes_modNode _ _ fun _ => rfl), fun m hm => ?_⟩
      exact (h2 m hm).1

theorem translateBinder_facts (h : NodeFacts K o) (hi : RefsInv o) (env : ObjectEnv) (x : Transfer)
    (hx : x.Ok K) (data : List ℕ) (off : ℕ) (strong : Bool) :
    NodeFacts K (translateBinder env x o data off strong).1 := by
  obtain ⟨h1, h2⟩ := senderNode_facts h hi env x hx.live data off
  obtain ⟨hlinks, hlt⟩ := senderNode_links hi data off env x
  unfold translateBinder
  split
  · rename_i he
    rwa [he] at h1
  · rename_i o₁ n he
    rw [he] at h1 h2 hlinks hlt
    have hi₁ := hi.links hlinks
    have htree := h1.tree x.proc n (h2 n rfl)
    split_ifs
    · exact h1
    · have hname : K.MayName o₁ x.targetProc n := by
        refine ⟨hx.target, fun hin _ q hq => ?_⟩
        rw [← Option.some.inj (htree.2.1.symm.trans hq)]
        exact hx.inside hin
      have hfacts := binderGetRefForNode_facts h1 hi₁ (fun _ => htree.1) hname env.kzallocRef
      have hi₂ := hi₁.links (binderGetRefForNode_links o₁ x.targetProc n (hlt n rfl) env.kzallocRef)
      have hproc := proc_getRefForNode o₁ x.targetProc n env.kzallocRef n
      split
      · rename_i he
        rw [he] at hfacts
        exact hfacts
      · rename_i o₂ r he
        have hmade : (binderGetRefForNode o₁ x.targetProc n env.kzallocRef).2 = some r := by rw [he]
        have hlisted := binderGetRefForNode_listed hi₁ hmade
        rw [he] at hfacts hi₂ hproc hlisted
        refine binderIncRef_facts hfacts hi₂ hlisted.1 strong fun l hl => ?_
        cases hl
        rw [hlisted.2]
        exact ⟨x.proc, hproc.trans htree.2.1, hx.home⟩

theorem translateHandle_facts (h : NodeFacts K o) (hi : RefsInv o) (env : ObjectEnv) (x : Transfer)
    (hx : x.Ok K) (data : List ℕ) (off : ℕ) (strong : Bool) :
    NodeFacts K (translateHandle env x o data off strong).1 := by
  unfold translateHandle
  split
  · exact h
  · rename_i r hget
    have hlisted₀ := (mem_of_binderGetRef hget).1
    obtain ⟨-, hlt, hmem⟩ := hi.live x.proc r hlisted₀
    dsimp only
    split_ifs
    · exact binderIncNode_facts h strong (K.targets_none o _)
    · have hname : K.MayName o x.targetProc (o.ref.get r).node :=
        ⟨hx.target, fun hin => h.confined x.proc (hx.inside hin) r hlisted₀⟩
      have hfacts := binderGetRefForNode_facts h hi
        (fun hptr => h.alive _ hptr (List.ne_nil_of_mem hmem)) hname env.kzallocRef
      have hi₂ := hi.links (binderGetRefForNode_links o x.targetProc _ hlt env.kzallocRef)
      split
      · rename_i he
        rw [he] at hfacts
        exact hfacts
      · rename_i o₂ r₂ he
        have hmade : (binderGetRefForNode o x.targetProc (o.ref.get r).node env.kzallocRef).2 =
            some r₂ := by rw [he]
        have hlisted := binderGetRefForNode_listed hi hmade
        rw [he] at hfacts hi₂ hlisted
        exact binderIncRef_facts hfacts hi₂ hlisted.1 strong (K.targets_none _ _)

theorem translateObject_facts (L : Layout) (h : NodeFacts K o) (hi : RefsInv o) (env : ObjectEnv)
    (x : Transfer) (hx : x.Ok K) (dataSize : ℕ) (data : List ℕ)
    (off : ℕ) : NodeFacts K (translateObject L env x dataSize o data off).1 := by
  unfold translateObject
  split_ifs
  · exact h
  · split
    · exact translateBinder_facts h hi env x hx data off true
    · exact translateBinder_facts h hi env x hx data off false
    · exact translateHandle_facts h hi env x hx data off true
    · exact translateHandle_facts h hi env x hx data off false
    · unfold translateFd
      split_ifs
      · exact h
      · split
        · exact h
        · dsimp only
          exact h.congr (sameNodes_modOwn o _ (fun _ => rfl) fun _ => .refl _)
    · exact h

theorem translateObjects_facts (L : Layout) (h : NodeFacts K o) (hi : RefsInv o)
    (env : ℕ → ObjectEnv) (x : Transfer) (hx : x.Ok K) (dataSize : ℕ)
    (offs : List ℕ) (k : ℕ) (data : List ℕ) :
    NodeFacts K (translateObjects L env x dataSize offs k o data).1 := by
  induction offs generalizing k o data with
  | nil => exact h
  | cons off offs ih =>
    have h1 := translateObject_facts L h hi (env k) x hx dataSize data off
    have hi1 := hi.links (translateObject_links hi data off L (env k) x dataSize)
    unfold translateObjects
    split
    · rename_i he
      rw [he] at h1 hi1
      exact ih h1 hi1 _ _
    · rename_i he
      rw [he] at h1
      exact h1

theorem translateBuffer_facts (L : Layout) (h : NodeFacts K o) (hi : RefsInv o) (x : Transfer)
    (env : TransactionEnv) (tr : TransactionData) (b : BinderBuffer) (hx : b.offsets ≠ [] → x.Ok K) :
    NodeFacts K (translateBuffer L o x env tr b).1 := by
  unfold translateBuffer
  split_ifs
  · exact h
  · by_cases hb : b.offsets = []
    · rwa [hb]
    · exact translateObjects_facts L h hi env.object x (hx hb) tr.dataSize b.offsets 0 b.data

theorem releaseObject_facts (L : Layout) (h : NodeFacts K o) (hi : RefsInv o) (p dataSize : ℕ)
    (data : List ℕ) (failed : Bool) (off : ℕ) :
    NodeFacts K (releaseObject L p dataSize data failed o off) := by
  have hbinder : ∀ strong, NodeFacts K (releaseBinder p o data off strong) := fun strong => by
    unfold releaseBinder
    split
    · exact h
    · exact binderDecNode_facts h _ strong
  have hhandle : ∀ strong, NodeFacts K (releaseHandle p o data off strong) := fun strong => by
    unfold releaseHandle
    split
    · exact h
    · exact binderDecRef_facts h hi (mem_of_binderGetRef ‹_›).1 strong
  unfold releaseObject
  refine .ite h ?_
  split
  · exact hbinder true
  · exact hbinder false
  · exact hhandle true
  · exact hhandle false
  · exact .ite (.ite (h.congr (sameNodes_modOwn o p (fun _ => rfl) fun _ => .refl _)) h) h
  · exact h

theorem bufferRelease_facts (L : Layout) (h : NodeFacts K o) (hi : RefsInv o) (p : ℕ)
    (b : BinderBuffer) (failedAt : Option ℕ) :
    NodeFacts K (binderTransactionBufferRelease L o p b failedAt) := by
  have hloop : ∀ (offs : List ℕ) (o : Objects), NodeFacts K o → RefsInv o →
      NodeFacts K (offs.foldl (releaseObject L p b.dataSize b.data failedAt.isSome) o) := by
    intro offs
    induction offs with
    | nil => exact fun o h _ => h
    | cons off offs ih =>
      intro o h hi
      exact ih _ (releaseObject_facts L h hi p _ _ _ off)
        (hi.links (releaseObject_links o p L _ _ _ off))
  unfold binderTransactionBufferRelease
  dsimp only
  cases b.targetNode with
  | none => exact hloop _ o h hi
  | some n =>
    exact hloop _ _ (binderDecNode_facts h n true)
      (hi.links (binderDecNode_sameLinks o n true false).links)

/-! Commands -/

theorem countRef_facts (h : NodeFacts K o) (hi : RefsInv o) {r : ℕ}
    (hr : r ∈ (o.own p).refsByDesc) (c : RefCommand) : NodeFacts K (countRef o r c) := by
  cases c with
  | increfs => exact binderIncRef_facts h hi hr false (K.targets_none o _)
  | acquire => exact binderIncRef_facts h hi hr true (K.targets_none o _)
  | release => exact binderDecRef_facts h hi hr true
  | decrefs => exact binderDecRef_facts h hi hr false

theorem refCommand_facts (h : NodeFacts K o) (hi : RefsInv o) (p : ℕ) (hp : ¬K.gone p) (c : RefCommand)
    (target : ℕ) (kzalloc : Bool) : NodeFacts K (refCommand o p c target kzalloc) := by
  have hfound : NodeFacts K ((binderGetRef o p target).elim o (countRef o · c)) := by
    cases hget : binderGetRef o p target with
    | none => exact h
    | some r => exact countRef_facts h hi (mem_of_binderGetRef hget).1 c
  rw [refCommand_eq]
  unfold commandRef
  cases hmgr : o.contextMgrNode with
  | none => exact hfound
  | some n =>
    dsimp only
    by_cases hinc : target = 0 ∧ (c = .increfs ∨ c = .acquire)
    · rw [if_pos hinc]
      have hbug := sameNodes_bugOn (binderGetRefForNode o p n kzalloc).1
        (binderGetRefForNode o p n kzalloc).2.isNone .refAllocation
      have hbugLinks := sameLinks_bugOn (binderGetRefForNode o p n kzalloc).1
        (binderGetRefForNode o p n kzalloc).2.isNone (b := .refAllocation) rfl
      have hfacts := binderGetRefForNode_facts h hi (fun hptr => absurd (h.mgr n hmgr) hptr)
        (⟨hp, fun _ hptr => absurd (h.mgr n hmgr) hptr⟩ : K.MayName o p n) kzalloc
      have hi₁ := hi.links (binderGetRefForNode_links o p n (hi.mgr n hmgr) kzalloc)
      cases hr : (binderGetRefForNode o p n kzalloc).2 with
      | none =>
        rw [hr] at hbug
        exact hfacts.congr hbug
      | some r =>
        have hlisted := (binderGetRefForNode_listed hi hr).1
        rw [hr] at hbug hbugLinks
        exact countRef_facts (hfacts.congr hbug) (hi₁.links hbugLinks.links) hlisted c
    · rw [if_neg hinc]
      exact hfound

theorem refDone_facts (h : NodeFacts K o) (p : ℕ) (strong : Bool) (ptr cookie : ℕ) :
    NodeFacts K (refDone o p strong ptr cookie) := by
  unfold refDone
  split
  · exact h
  · refine .ite h (binderDecNode_facts (h.congr ?_) _ strong)
    exact sameNodes_modNode _ _ fun x => by cases strong <;> rfl

theorem nextAsync_facts (h : NodeFacts K o) (T n : ℕ) : NodeFacts K (nextAsync o T n) := by
  have hbug := sameNodes_bugOn o (!(o.node.get n).hasAsyncTransaction) .hasAsyncTransaction
  unfold nextAsync
  dsimp only
  split
  · exact (h.congr hbug).congr (sameNodes_modNode _ n fun _ => rfl)
  · rename_i w hw
    refine (h.congr hbug).congr (sameNodes_moveTail _ _ fun m he => ?_)
    -- no node waits behind a node
    obtain ⟨p, -, hp⟩ := h.home _ m (he ▸ Queues.first_mem hw)
    exact K.asyncTodo p n hp

end

end Binder
