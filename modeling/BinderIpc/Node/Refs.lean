import BinderIpc.Lib.HeapCount
import BinderIpc.Node.Counts

/-! What each function that counts references keeps: the internal strong count of
a node is the number of its strong references. -/

namespace Binder

theorem BinderRef.node_lower (strong : Bool) (x : BinderRef) : (x.lower strong).node = x.node := by
  cases strong <;> rfl

/-- What a reference adds to the strong count of its node. -/
def BinderRef.strongBit (x : BinderRef) : ℤ := if x.strong ≠ 0 then 1 else 0

section

variable {o o' : Objects} {n r p : ℕ}

theorem strongRefs_modRef (hi : RefsInv o) (hr : r ∈ (o.own p).refsByDesc) (f : BinderRef → BinderRef)
    (href : o'.ref = o.ref.modify r f) (m : ℕ) (hrefs : (o'.node.get m).refs = (o.node.get m).refs) :
    (strongRefs o' m : ℤ) = strongRefs o m + if m = (o.ref.get r).node then
      (f (o.ref.get r)).strongBit - (o.ref.get r).strongBit else 0 := by
  have hother : ∀ x, x ≠ r → o'.ref.get x = o.ref.get x := fun x hx => by
    rw [href, Heap.get_modify, if_neg hx]
  have hself : o'.ref.get r = f (o.ref.get r) := by rw [href, Heap.get_modify_self]
  unfold strongRefs
  rw [hrefs]
  split_ifs with hm
  · have hmem : r ∈ (o.node.get m).refs := hm ▸ (hi.live p r hr).2.2
    have hcount := countP_change (hi.refsNodup m) hmem
      (f := fun x => decide ((o.ref.get x).strong ≠ 0))
      (g := fun x => decide ((o'.ref.get x).strong ≠ 0)) fun x _ hx => by rw [hother x hx]
    simp only [hself, decide_eq_true_eq] at hcount
    unfold BinderRef.strongBit
    split_ifs at hcount ⊢ <;> omega
  · have hmem : ∀ x ∈ (o.node.get m).refs, x ≠ r := fun x hx he =>
      hm (by rw [← (hi.held m x hx).2, he])
    rw [add_zero]
    exact congrArg Nat.cast (List.countP_congr fun x hx => by rw [hother x (hmem x hx)])

end

section

variable {K : NodeScope} {o o' : Objects} {n r p : ℕ}

/-- The references of a node change, and with them its internal count. -/
theorem NodeFacts.relink (h : NodeFacts K o) {d : ℤ} {refs : List ℕ}
    (hnode : o'.node = o.node.modify n fun x =>
      { x with internalStrongRefs := x.internalStrongRefs + d, refs := refs })
    (hcount : (strongRefs o' n : ℤ) = strongRefs o n + d)
    (hother : ∀ m, m ≠ n → strongRefs o' m = strongRefs o m)
    (hnonneg : ∀ r, 0 ≤ (o'.ref.get r).strong ∧ 0 ≤ (o'.ref.get r).weak)
    (halive : refs ≠ [] → (o.node.get n).ptr ≠ 0 → (o.node.get n).freed = 0)
    (hlisted : ∀ p, ∀ r ∈ (o'.own p).refsByDesc, (r ∈ (o.own p).refsByDesc ∧
      (o'.ref.get r).node = (o.ref.get r).node) ∨ K.MayName o p (o'.ref.get r).node)
    (htrees : ∀ p, (o'.own p).nodes = (o.own p).nodes) (hdead : o'.deadNodes = o.deadNodes)
    (hmgr : o'.contextMgrNode = o.contextMgrNode)
    (hentry : ∀ l m, (l, .node m) ∈ o'.todo.entries → (l, .node m) ∈ o.todo.entries ∨
      ∃ p, (o.node.get m).proc = some p ∧ K.home p l) : NodeFacts K o' := by
  have hne : ∀ m, m ≠ n → o'.node.get m = o.node.get m := fun m hm => by
    rw [hnode, Heap.get_modify, if_neg hm]
  have hself : o'.node.get n = { o.node.get n with
      internalStrongRefs := (o.node.get n).internalStrongRefs + d, refs := refs } := by
    rw [hnode, Heap.get_modify_self]
  have hkeep : ∀ {β : Type} (g : BinderNode → β),
      (∀ x i l, g { x with internalStrongRefs := i, refs := l } = g x) →
      ∀ m, g (o'.node.get m) = g (o.node.get m) := fun g hg m => by
    rw [hnode]
    exact o.node.apply_get_modify n m _ g fun x => hg x _ _
  have hnext : o'.node.next = o.node.next := by rw [hnode]; rfl
  exact {
    count := fun m => by
      by_cases hm : m = n
      · rw [hm, hself, hcount]
        exact congrArg (· + d) (h.count n)
      · rw [hne m hm, hother m hm]
        exact h.count m
    nonneg := hnonneg
    tree := fun p m hm => by
      rw [htrees] at hm
      rw [hkeep (·.freed) fun _ _ _ => rfl, hkeep (·.proc) fun _ _ _ => rfl, hnext]
      exact h.tree p m hm
    nodup := fun p => by
      rw [htrees]
      exact h.nodup p
    dead := fun m hm => by
      rw [hdead] at hm
      rw [hkeep (·.freed) fun _ _ _ => rfl, hkeep (·.proc) fun _ _ _ => rfl, hnext]
      exact h.dead m hm
    deadNodup := hdead ▸ h.deadNodup
    alive := fun m hptr hm => by
      rw [hkeep (·.ptr) fun _ _ _ => rfl] at hptr
      rw [hkeep (·.freed) fun _ _ _ => rfl]
      by_cases hmn : m = n
      · subst hmn
        rw [hself] at hm
        exact halive hm hptr
      · rw [hne m hmn] at hm
        exact h.alive m hptr hm
    mgr := fun m hm => (hkeep (·.ptr) (fun _ _ _ => rfl) m).trans (h.mgr m (hmgr ▸ hm))
    home := fun l m hm => by
      rw [hkeep (·.proc) fun _ _ _ => rfl]
      exact (hentry l m hm).elim (h.home l m) id
    unborn := fun m hm => by
      rw [hkeep (·.proc) fun _ _ _ => rfl]
      exact h.unborn m (hnext ▸ hm)
    told := fun hw m hm => by
      rw [hkeep (·.ptr) fun _ _ _ => rfl] at hm
      rw [hkeep (·.hasWeakRef) fun _ _ _ => rfl, hkeep (·.hasStrongRef) fun _ _ _ => rfl]
      exact h.told hw m hm
    born := fun hw m hm => h.born hw m (hnext ▸ hm)
    sent := fun m T hm => by
      rw [hnext, hkeep (·.proc) fun _ _ _ => rfl]
      exact h.sent m T hm
    confined := fun p hp r hr => by
      rw [hkeep (·.ptr) fun _ _ _ => rfl, hkeep (·.proc) fun _ _ _ => rfl]
      rcases hlisted p r hr with ⟨hold, hsame⟩ | hnew
      · rw [hsame]
        exact h.confined p hp r hold
      · exact hnew.2 hp
    empty := fun p hp => by
      obtain ⟨h1, h2⟩ := h.empty p hp
      refine ⟨List.eq_nil_iff_forall_not_mem.2 fun r hr => ?_, (htrees p).trans h2⟩
      rcases hlisted p r hr with ⟨hold, -⟩ | hnew
      · rw [h1] at hold
        cases hold
      · exact hnew.1 hp }

theorem binderNewNode_facts (h : NodeFacts K o) (p ptr cookie : ℕ) (hp : ¬K.gone p) (kzalloc : Bool)
    (hi : RefsInv o) : NodeFacts K (binderNewNode o p ptr cookie kzalloc).1 ∧
      ∀ n, (binderNewNode o p ptr cookie kzalloc).2 = some n →
        n ∈ ((binderNewNode o p ptr cookie kzalloc).1.own p).nodes ∧
        ((binderNewNode o p ptr cookie kzalloc).1.node.get n).ptr = ptr := by
  unfold binderNewNode
  split_ifs
  · exact ⟨h, fun n hn => by cases hn⟩
  set x : BinderNode := { proc := some p, ptr := ptr, cookie := cookie } with hx
  set o₁ : Objects := { o with node := o.node.alloc x } with ho₁
  have hold : ∀ m, m ≠ o.node.next → o₁.node.get m = o.node.get m := fun m hm =>
    o.node.get_alloc_ne m x hm
  have hself : o₁.node.get o.node.next = x := o.node.get_alloc_self x
  have hfresh : ∀ q, o.node.next ∉ (o.own q).nodes := fun q hq =>
    lt_irrefl _ (h.tree q _ hq).2.2
  have hD : ∀ q m, m ∈ ((o₁.modOwn p fun w => { w with
      nodes := treeInsert (fun n => (o₁.node.get n).ptr) o.node.next w.nodes }).own q).nodes ↔
      (m = o.node.next ∧ q = p) ∨ m ∈ (o.own q).nodes := fun q m => by
    simp only [Objects.modOwn]
    split_ifs with hq
    · subst hq
      simp [mem_treeInsert, o₁]
    · simp [hq, o₁]
  refine ⟨{
    count := fun m => ?_
    nonneg := h.nonneg
    tree := fun q m hm => ?_
    nodup := fun q => ?_
    dead := fun m hm => ?_
    deadNodup := h.deadNodup
    alive := fun m hptr hm => ?_
    mgr := fun m hm => ?_
    home := fun l m hm => ?_
    unborn := fun m hm => ?_
    told := fun hw m hm => ?_
    born := fun hw m hm => h.born hw m (Nat.le_of_succ_le hm)
    sent := fun m T hm => ?_
    confined := fun q hq r hr => ?_
    empty := fun q hq => ?_ }, fun n hn => ?_⟩
  · have hs : strongRefs (o₁.modOwn p fun w => { w with
        nodes := treeInsert (fun n => (o₁.node.get n).ptr) o.node.next w.nodes }) m =
        (o₁.node.get m).refs.countP fun r => (o.ref.get r).strong ≠ 0 := rfl
    rw [hs]
    change (o₁.node.get m).internalStrongRefs = _
    by_cases hm : m = o.node.next
    · rw [hm, hself, hx, List.countP_nil, Nat.cast_zero]
    · rw [hold m hm]
      exact h.count m
  · change (o₁.node.get m).freed = 0 ∧ (o₁.node.get m).proc = some q ∧ m < o.node.next + 1
    rcases (hD q m).1 hm with ⟨rfl, rfl⟩ | hm
    · rw [hself]
      exact ⟨rfl, rfl, Nat.lt_succ_self _⟩
    · obtain ⟨h1, h2, h3⟩ := h.tree q m hm
      rw [hold m h3.ne]
      exact ⟨h1, h2, h3.trans (Nat.lt_succ_self _)⟩
  · simp only [Objects.modOwn]
    split_ifs
    · exact nodup_treeInsert (h.nodup p) (hfresh p)
    · exact h.nodup q
  · obtain ⟨h1, h2, h3⟩ := h.dead m hm
    change (o₁.node.get m).freed = 0 ∧ (o₁.node.get m).proc = none ∧ m < o.node.next + 1
    rw [hold m h3.ne]
    exact ⟨h1, h2, h3.trans (Nat.lt_succ_self _)⟩
  · change (o₁.node.get m).ptr ≠ 0 at hptr
    change (o₁.node.get m).refs ≠ [] at hm
    change (o₁.node.get m).freed = 0
    by_cases hmn : m = o.node.next
    · rw [hmn, hself]
    · rw [hold m hmn] at hptr hm ⊢
      exact h.alive m hptr hm
  · change (o₁.node.get m).ptr = 0
    rw [hold m (hi.mgr m hm).ne]
    exact h.mgr m hm
  · obtain ⟨q, hq, hhome⟩ := h.home l m hm
    change ∃ q, (o₁.node.get m).proc = some q ∧ K.home q l
    have hmn : m ≠ o.node.next := fun he => by
      rw [h.unborn m he.ge] at hq
      cases hq
    rw [hold m hmn]
    exact ⟨q, hq, hhome⟩
  · change (o₁.node.get m).proc = none
    rw [hold m (Nat.lt_of_succ_le hm).ne']
    exact h.unborn m (Nat.le_of_succ_le hm)
  · change (o₁.node.get m).ptr ≠ 0 at hm
    change K.view m = some ((o₁.node.get m).hasWeakRef, (o₁.node.get m).hasStrongRef)
    by_cases hmn : m = o.node.next
    · rw [hmn, hself]
      exact h.born hw _ le_rfl
    · rw [hold m hmn] at hm ⊢
      exact h.told hw m hm
  · obtain ⟨hlt, hsent⟩ := h.sent m T hm
    change m < o.node.next + 1 ∧ ∃ q, K.home q (.threadTodo T) ∧
      ((o₁.node.get m).proc = some q ∨ (o₁.node.get m).proc = none)
    rw [hold m hlt.ne]
    exact ⟨hlt.trans (Nat.lt_succ_self _), hsent⟩
  · rw [refsByDesc_modOwn] at hr
    change (o₁.node.get (o.ref.get r).node).ptr ≠ 0 → ∀ q', (o₁.node.get (o.ref.get r).node).proc =
      some q' → K.insider q'
    rw [hold _ (hi.live q r hr).2.1.ne]
    exact h.confined q hq r hr
  · obtain ⟨h1, h2⟩ := h.empty q hq
    refine ⟨(refsByDesc_modOwn _ _ _ _).trans h1, List.eq_nil_iff_forall_not_mem.2 fun m hm => ?_⟩
    rcases (hD q m).1 hm with ⟨-, rfl⟩ | hm
    · exact hp hq
    · rw [h2] at hm
      cases hm
  · cases hn
    exact ⟨(hD p _).2 (.inl ⟨rfl, rfl⟩), congrArg BinderNode.ptr hself⟩

/-! References -/

theorem newRef_facts (h : NodeFacts K o) (hi : RefsInv o)
    (hfree : (o.node.get n).ptr ≠ 0 → (o.node.get n).freed = 0) (hname : K.MayName o p n) :
    NodeFacts K (newRef o p n) := by
  have hfresh : ∀ m, o.ref.next ∉ (o.node.get m).refs := fun m hm =>
    lt_irrefl _ ((hi.table _).below _ (hi.held m _ hm).1)
  have hold : ∀ r, r ≠ o.ref.next → (newRef o p n).ref.get r = o.ref.get r := fun r hr =>
    o.ref.get_alloc_ne r _ hr
  have hself : ((newRef o p n).ref.get o.ref.next).strong = 0 ∧
      ((newRef o p n).ref.get o.ref.next).weak = 0 := by
    constructor <;> exact congrArg _ (o.ref.get_alloc_self _)
  have hcongr : ∀ m, (o.node.get m).refs.countP (fun r => ((newRef o p n).ref.get r).strong ≠ 0) =
      strongRefs o m := fun m =>
    List.countP_congr fun r hr => by rw [hold r fun he => hfresh m (he ▸ hr)]
  have hnode : (newRef o p n).node = o.node.modify n fun x =>
      { x with internalStrongRefs := x.internalStrongRefs + 0, refs := o.ref.next :: (o.node.get n).refs } := by
    rw [node_newRef]
    refine congrArg (Heap.mk _) (funext fun m => ?_)
    simp only [add_zero]
  refine h.relink hnode ?_ (fun m hm => ?_)
    (fun r => ?_) (fun _ hptr => hfree hptr) (fun q r hr => ?_) (fun q => ?_) rfl rfl
    fun l m hm => Or.inl hm
  · unfold strongRefs
    rw [node_newRef, Heap.get_modify_self, add_zero]
    rw [List.countP_cons_of_neg (by simp [hself.1])]
    exact congrArg Nat.cast (hcongr n)
  · unfold strongRefs
    rw [node_newRef, Heap.get_modify, if_neg hm]
    exact hcongr m
  · by_cases hr : r = o.ref.next
    · rw [hr, hself.1, hself.2]
      exact ⟨le_rfl, le_rfl⟩
    · rw [hold r hr]
      exact h.nonneg r
  · rcases (mem_newRef o p n q r).1 hr with ⟨rfl, rfl⟩ | hr
    · have hnamed : ((newRef o q n).ref.get o.ref.next).node = n :=
        congrArg BinderRef.node (o.ref.get_alloc_self _)
      rw [hnamed]
      exact Or.inr hname
    · exact Or.inl ⟨hr, congrArg BinderRef.node (hold r ((hi.table q).below r hr).ne)⟩
  · rw [own_newRef]
    split_ifs with hq
    · rw [hq]
    · rfl

theorem binderGetRefForNode_facts (h : NodeFacts K o) (hi : RefsInv o)
    (hfree : (o.node.get n).ptr ≠ 0 → (o.node.get n).freed = 0) (hname : K.MayName o p n)
    (kzalloc : Bool) :
    NodeFacts K (binderGetRefForNode o p n kzalloc).1 := by
  unfold binderGetRefForNode
  split
  · exact h
  · split_ifs
    · exact newRef_facts h hi hfree hname
    · exact h

/-- What `binder_inc_node` does for a reference. -/
theorem binderIncNode_ref (o : Objects) (n : ℕ) (strong : Bool) (targetList : Option ListHead) :
    (binderIncNode o n strong true targetList = (o, false)) ∨
    (∃ q b, binderIncNode o n strong true targetList =
        ({ o.modNode n (.raise strong true) with todo := q }, b) ∧ (strong = true → b = true) ∧
      ∀ l m, (l, .node m) ∈ q.entries → (l, .node m) ∈ o.todo.entries ∨
        (m = n ∧ targetList = some l)) := by
  unfold binderIncNode
  dsimp only
  split_ifs
  · exact Or.inl rfl
  · split
    · refine Or.inr ⟨_, _, rfl, fun _ => rfl, fun l m hm => ?_⟩
      rcases Queues.mem_moveTail.1 hm with ⟨hm, -⟩ | ⟨rfl, he⟩
      · exact Or.inl hm
      · cases he
        exact Or.inr ⟨rfl, rfl⟩
    · exact Or.inr ⟨_, _, rfl, fun _ => rfl, fun l m hm => Or.inl hm⟩
  · split
    · refine Or.inr ⟨_, _, rfl, fun _ => rfl, fun l m hm => ?_⟩
      rcases Queues.mem_addTail.1 hm with hm | ⟨rfl, he⟩
      · exact Or.inl hm
      · cases he
        exact Or.inr ⟨rfl, rfl⟩
    · exact Or.inr ⟨_, _, rfl, fun hs => absurd hs ‹_›, fun l m hm => Or.inl hm⟩
  · exact Or.inr ⟨_, _, rfl, fun _ => rfl, fun l m hm => Or.inl hm⟩

/-- A reference is counted, and the node with it. -/
theorem NodeFacts.recount (h : NodeFacts K o) (hi : RefsInv o) (hr : r ∈ (o.own p).refsByDesc)
    {f : BinderRef → BinderRef} (hf : 0 ≤ (f (o.ref.get r)).strong ∧ 0 ≤ (f (o.ref.get r)).weak)
    (hkept : ∀ x, (f x).node = x.node) {d : ℤ} (hd : d = (f (o.ref.get r)).strongBit - (o.ref.get r).strongBit)
    (href : o'.ref = o.ref.modify r f)
    (hnode : o'.node = o.node.modify (o.ref.get r).node fun x =>
      { x with internalStrongRefs := x.internalStrongRefs + d })
    (hown : o'.own = o.own) (hdead : o'.deadNodes = o.deadNodes)
    (hmgr : o'.contextMgrNode = o.contextMgrNode)
    (hentry : ∀ l m, (l, .node m) ∈ o'.todo.entries → (l, .node m) ∈ o.todo.entries ∨
      ∃ p, (o.node.get m).proc = some p ∧ K.home p l) : NodeFacts K o' := by
  have hrefs : ∀ m, (o'.node.get m).refs = (o.node.get m).refs := fun m => by
    rw [hnode]
    exact o.node.apply_get_modify _ m _ (·.refs) fun _ => rfl
  have hcount := fun m => strongRefs_modRef hi hr f href m (hrefs m)
  have hmem := (hi.live p r hr).2.2
  have hlinked : o'.node = o.node.modify (o.ref.get r).node fun x =>
      { x with
        internalStrongRefs := x.internalStrongRefs + d, refs := (o.node.get (o.ref.get r).node).refs } := by
    rw [hnode]
    refine congrArg (Heap.mk _) (funext fun m => ?_)
    by_cases hm : m = (o.ref.get r).node
    · rw [if_pos hm]
    · rw [if_neg hm]
  refine h.relink hlinked ?_ (fun m hm => ?_) (fun r' => ?_) (fun hne hptr => h.alive _ hptr hne)
    (fun q r' hr' => Or.inl ⟨hown ▸ hr', ?_⟩) (fun q => by rw [hown]) hdead hmgr hentry
  · rw [hcount, if_pos rfl, hd]
  · have := hcount m
    rw [if_neg hm, add_zero] at this
    exact_mod_cast this
  · rw [href, Heap.get_modify]
    split_ifs
    · exact hf
    · exact h.nonneg r'
  · rw [href]
    exact o.ref.apply_get_modify r r' f (·.node) hkept

theorem modNode_id (o : Objects) (n : ℕ) : o.modNode n (fun x => x) = o := by
  have : o.node.modify n (fun x => x) = o.node := by
    refine congrArg (Heap.mk _) (funext fun m => ?_)
    by_cases hm : m = n
    · rw [if_pos hm, hm]
    · rw [if_neg hm]
  unfold Objects.modNode
  rw [this]

theorem binderIncRef_facts (h : NodeFacts K o) (hi : RefsInv o) (hr : r ∈ (o.own p).refsByDesc)
    (strong : Bool) {targetList : Option ListHead}
    (hl : K.Targets o (o.ref.get r).node targetList) :
    NodeFacts K (binderIncRef o r strong targetList).1 := by
  have hpos := h.nonneg r
  have hraise : 0 ≤ ((o.ref.get r).raise strong).strong ∧ 0 ≤ ((o.ref.get r).raise strong).weak := by
    cases strong <;> constructor <;> simp only [BinderRef.raise, Bool.false_eq_true, if_true,
      if_false] <;> omega
  have hentry : ∀ {q : Queues ListHead Work}, (∀ l m, (l, .node m) ∈ q.entries →
      (l, .node m) ∈ o.todo.entries ∨ (m = (o.ref.get r).node ∧ targetList = some l)) →
      ∀ l m, (l, .node m) ∈ q.entries → (l, .node m) ∈ o.todo.entries ∨
        ∃ p, (o.node.get m).proc = some p ∧ K.home p l := fun hq l m hm => by
    rcases hq l m hm with h1 | ⟨rfl, h1⟩
    · exact Or.inl h1
    · exact Or.inr (hl l h1)
  have hsame : o.node = o.node.modify (o.ref.get r).node fun x =>
      { x with internalStrongRefs := x.internalStrongRefs + 0 } := by
    simp only [add_zero]
    exact (congrArg Objects.node (modNode_id o (o.ref.get r).node)).symm
  unfold binderIncRef
  dsimp only
  by_cases hzero : (o.ref.get r).count strong = 0
  · rw [if_pos hzero]
    rcases binderIncNode_ref o (o.ref.get r).node strong targetList with
      heq | ⟨q, b, heq, hb, hq⟩
    · rw [heq]
      exact h
    · rw [heq]
      cases strong with
      | true =>
        rw [hb rfl]
        refine h.recount (d := 1) hi hr hraise (BinderRef.node_raise _) ?_ rfl rfl rfl rfl rfl (hentry hq)
        have hs : (o.ref.get r).strong = 0 := hzero
        simp [BinderRef.strongBit, BinderRef.raise, hs]
      | false =>
        have hid : o.modNode (o.ref.get r).node (.raise false true) = o := modNode_id o _
        rw [hid]
        cases b with
        | true =>
          refine h.recount (d := 0) hi hr hraise (BinderRef.node_raise _) ?_ rfl hsame rfl rfl rfl (hentry hq)
          simp [BinderRef.strongBit, BinderRef.raise]
        | false => exact h.queue (hentry hq)
  · rw [if_neg hzero]
    refine h.recount (d := 0) hi hr hraise (BinderRef.node_raise _) ?_ rfl hsame rfl rfl rfl fun _ _ => Or.inl
    cases strong with
    | true =>
      have hs : (o.ref.get r).strong ≠ 0 := hzero
      have hs' : (o.ref.get r).strong + 1 ≠ 0 := by omega
      simp [BinderRef.strongBit, BinderRef.raise, hs, hs']
    | false => simp [BinderRef.strongBit, BinderRef.raise]

/-- What `binder_dec_node` does for a strong reference that still hangs on the node. -/
theorem binderDecNode_strong (o : Objects) {n : ℕ} (hne : (o.node.get n).refs ≠ []) :
    ∃ q, binderDecNode o n true true = { o.modNode n (.lower true true) with todo := q } ∧
      ∀ l m, (l, .node m) ∈ q.entries → (l, .node m) ∈ o.todo.entries ∨
        (m = n ∧ ∃ p, (o.node.get n).proc = some p ∧ l = .procTodo p) := by
  set o₁ := o.modNode n (.lower true true) with ho₁
  have hrefs : (o₁.node.get n).refs ≠ [] := by
    simpa [ho₁, Objects.modNode, BinderNode.refs_lower] using hne
  have hproc : (o₁.node.get n).proc = (o.node.get n).proc := by
    simp [ho₁, Objects.modNode, BinderNode.proc_lower]
  have hkeep : ∃ q, o₁ = { o₁ with todo := q } ∧
      ∀ l m, (l, .node m) ∈ q.entries → (l, .node m) ∈ o.todo.entries ∨
        (m = n ∧ ∃ p, (o.node.get n).proc = some p ∧ l = .procTodo p) :=
    ⟨o₁.todo, rfl, fun _ _ => Or.inl⟩
  unfold binderDecNode
  dsimp only
  rw [← ho₁]
  by_cases hheld : (o₁.node.get n).localStrongRefs ≠ 0 ∨ (o₁.node.get n).internalStrongRefs ≠ 0
  · rw [if_pos (by simpa using hheld)]
    exact hkeep
  · rw [if_neg (by simpa using hheld)]
    unfold nodeUnheld
    dsimp only
    split
    · rename_i p hp _
      split_ifs
      · exact hkeep
      · refine ⟨_, rfl, fun l m hm => ?_⟩
        rcases Queues.mem_addTail.1 hm with hm | ⟨rfl, he⟩
        · exact Or.inl hm
        · cases he
          exact Or.inr ⟨rfl, p, hproc ▸ hp, rfl⟩
    · rw [if_neg fun hfree => hrefs hfree.1]
      exact hkeep

/-- A strong reference that is not counted any more, or taken off its node. -/
theorem binderDeleteRef_facts (h : NodeFacts K o) (hi : RefsInv o) (hr : r ∈ (o.own p).refsByDesc) :
    NodeFacts K (binderDeleteRef o r) := by
  set x := o.ref.get r with hx
  set o₁ := o.modOwn x.proc fun w =>
    { w with refsByDesc := w.refsByDesc.erase r, refsByNode := w.refsByNode.erase r } with ho₁
  set o₂ := if x.strong ≠ 0 then binderDecNode o₁ x.node true true else o₁ with ho₂
  set o₃ := o₂.modNode x.node fun y => { y with refs := y.refs.erase r } with ho₃
  have h₁ : SameNodes o o₁ := sameNodes_modOwn o x.proc (fun _ => rfl) fun _ => List.erase_sublist
  have hmem : r ∈ (o.node.get x.node).refs := (hi.live p r hr).2.2
  have hne : (o₁.node.get x.node).refs ≠ [] := List.ne_nil_of_mem hmem
  have h₂ : ∃ q, o₂ = { o₁.modNode x.node (fun y =>
        { y with internalStrongRefs := y.internalStrongRefs - x.strongBit }) with todo := q } ∧
      ∀ l m, (l, .node m) ∈ q.entries → (l, .node m) ∈ o.todo.entries ∨
        ∃ p, (o.node.get m).proc = some p ∧ K.home p l := by
    by_cases hs : x.strong ≠ 0
    · obtain ⟨q, hq, hentry⟩ := binderDecNode_strong o₁ hne
      refine ⟨q, ?_, fun l m hm => (hentry l m hm).imp_right ?_⟩
      · rw [ho₂, if_pos hs, hq]
        simp only [BinderRef.strongBit, if_pos hs]
        rfl
      · rintro ⟨rfl, p', hp', rfl⟩
        exact ⟨p', hp', K.procTodo p'⟩
    · refine ⟨o₁.todo, ?_, fun _ _ => Or.inl⟩
      rw [ho₂, if_neg hs]
      simp only [BinderRef.strongBit, if_neg hs, sub_zero]
      exact (modNode_id o₁ x.node).symm
  obtain ⟨q, hq, hentry⟩ := h₂
  have hnode : o₃.node = o.node.modify x.node fun y => { y with
      internalStrongRefs := y.internalStrongRefs + -x.strongBit
      refs := (o.node.get x.node).refs.erase r } := by
    rw [ho₃, hq]
    refine congrArg (Heap.mk _) (funext fun m => ?_)
    by_cases hm : m = x.node
    · rw [if_pos hm, if_pos hm]
      dsimp only [Objects.modNode]
      rw [Heap.get_modify_self]
      rfl
    · rw [if_neg hm, if_neg hm]
      dsimp only [Objects.modNode]
      rw [Heap.get_modify, if_neg hm]
      rfl
  have href : o₃.ref = o.ref := by rw [ho₃, hq]; rfl
  have h₃ : NodeFacts K o₃ := by
    refine h.relink hnode ?_ (fun m hm => ?_) (fun r' => ?_) (fun hne' hptr => ?_)
      (fun p' r' hr' => Or.inl ?_) (fun p' => ?_) ?_ ?_ fun l m hm => hentry l m ?_
    · have hcount : ((o.node.get x.node).refs.erase r).countP
          (fun r => decide ((o.ref.get r).strong ≠ 0)) +
            (if decide (x.strong ≠ 0) = true then 1 else 0) = strongRefs o x.node := by
        unfold strongRefs
        rw [(List.perm_cons_erase hmem).countP_eq, List.countP_cons]
      unfold strongRefs at hcount ⊢
      rw [hnode, href, Heap.get_modify_self]
      simp only [decide_eq_true_eq] at hcount
      dsimp only
      unfold BinderRef.strongBit
      split_ifs at hcount ⊢ <;> omega
    · unfold strongRefs
      rw [hnode, href, Heap.get_modify, if_neg hm]
    · rw [href]
      exact h.nonneg r'
    · exact h.alive _ hptr (List.ne_nil_of_mem hmem)
    · rw [href]
      rw [ho₃, hq] at hr'
      exact ⟨(h₁.listed p').subset hr', rfl⟩
    · rw [ho₃, hq]
      exact h₁.trees p'
    · rw [ho₃, hq]
      rfl
    · rw [ho₃, hq]
      rfl
    · rw [ho₃, hq] at hm
      exact hm
  set o₄ := binderDecNode o₃ x.node false true with ho₄
  have h₄ : NodeFacts K o₄ := by
    have hid : o₃.modNode x.node (.lower false true) = o₃ := modNode_id o₃ x.node
    rw [ho₄]
    unfold binderDecNode
    dsimp only
    rw [hid]
    exact .ite h₃ (nodeUnheld_facts h₃ _)
  have heq : binderDeleteRef o r = (x.death.elim o₄ (freeDeath o₄)).modRef r fun x =>
      { x with freed := x.freed + 1 } := by
    unfold binderDeleteRef
    dsimp only
    cases (o.ref.get r).death <;> rfl
  rw [heq]
  refine (h₄.congr ?_).congr (sameNodes_modRef _ r fun _ => ⟨rfl, rfl, rfl⟩)
  cases x.death with
  | none => exact .refl o₄
  | some d => exact (sameNodes_del o₄).trans (sameNodes_modDeath _ d _)

theorem binderDecRef_facts (h : NodeFacts K o) (hi : RefsInv o) (hr : r ∈ (o.own p).refsByDesc)
    (strong : Bool) : NodeFacts K (binderDecRef o r strong) := by
  have hpos := h.nonneg r
  have hmem : r ∈ (o.node.get (o.ref.get r).node).refs := (hi.live p r hr).2.2
  unfold binderDecRef
  dsimp only
  by_cases hzero : (o.ref.get r).count strong = 0
  · rw [if_pos hzero]
    exact h
  rw [if_neg hzero]
  set o₁ := o.modRef r (.lower strong) with ho₁
  have hself : o₁.ref.get r = (o.ref.get r).lower strong := o.ref.get_modify_self _ _
  have hlower : 0 ≤ ((o.ref.get r).lower strong).strong ∧ 0 ≤ ((o.ref.get r).lower strong).weak := by
    cases strong with
    | true =>
      have hs : (o.ref.get r).strong ≠ 0 := hzero
      exact ⟨by simp only [BinderRef.lower, if_true]; omega, hpos.2⟩
    | false =>
      have hs : (o.ref.get r).weak ≠ 0 := hzero
      exact ⟨hpos.1, by simp only [BinderRef.lower, Bool.false_eq_true, if_false]; omega⟩
  set o₂ := if strong = true ∧ (o₁.ref.get r).strong = 0 then
    binderDecNode o₁ (o.ref.get r).node true true else o₁ with ho₂
  have h₂ : NodeFacts K o₂ := by
    by_cases hlast : strong = true ∧ (o₁.ref.get r).strong = 0
    · obtain ⟨q, hq, hentry⟩ := binderDecNode_strong o₁ (n := (o.ref.get r).node)
        (List.ne_nil_of_mem hmem)
      rw [ho₂, if_pos hlast, hq]
      have hs : (o.ref.get r).strong ≠ 0 := by
        have := hlast.1
        subst this
        exact hzero
      refine h.recount (d := -1) hi hr hlower (BinderRef.node_lower _) ?_ rfl rfl rfl rfl rfl
        fun l m hm => (hentry l m hm).imp_right ?_
      · have hs' : ((o.ref.get r).lower strong).strong = 0 := hself ▸ hlast.2
        simp [BinderRef.strongBit, hs, hs']
      · rintro ⟨rfl, p', hp', rfl⟩
        exact ⟨p', hp', K.procTodo p'⟩
    · rw [ho₂, if_neg hlast]
      refine h.recount (d := 0) hi hr hlower (BinderRef.node_lower _) ?_ rfl ?_ rfl rfl rfl fun _ _ => Or.inl
      · cases strong with
        | true =>
          have hs : (o.ref.get r).strong ≠ 0 := hzero
          have hs' : ((o.ref.get r).lower true).strong ≠ 0 := fun he =>
            hlast ⟨rfl, hself ▸ he⟩
          simp [BinderRef.strongBit, hs, hs']
        | false => simp [BinderRef.strongBit, BinderRef.lower]
      · simp only [add_zero]
        exact (congrArg Objects.node (modNode_id o (o.ref.get r).node)).symm
  have hlinks : SameLinks o o₂ := (sameLinks_modRef o r (BinderRef.bare_lower strong)).trans
    (.ite (binderDecNode_sameLinks _ _ true true) (.refl _))
  refine .ite (binderDeleteRef_facts h₂ (hi.links hlinks.links) (p := p) ?_) h₂
  rw [hlinks.byDesc]
  exact hr

end

end Binder
